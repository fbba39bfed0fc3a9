import ContainerAliases.Classes.Declaration

namespace ContainerAliases.Classes

open Source

theorem declaredIn_cons {s : Scope} {t : SyntaxTree} (h : t.isNamed) (ts : List SyntaxTree) :
    declaredIn s (t :: ts) = ((declaredIn (declared s t).1 ts).1,
      (declared s t).2 ++ (declaredIn (declared s t).1 ts).2) := by
  rw [declaredIn, if_pos h]

theorem declaredIn_nil (s : Scope) : declaredIn s [] = (s, []) := by rw [declaredIn]

theorem declaredIn_cons_unnamed {s : Scope} {t : SyntaxTree} (h : t.isNamed = false)
    (ts : List SyntaxTree) : declaredIn s (t :: ts) = declaredIn s ts := by
  rw [declaredIn, if_neg (by simp [h])]

/-- Later nodes are read in the scope that the earlier ones leave. -/
theorem declaredIn_append (s : Scope) (ts us : List SyntaxTree) :
    declaredIn s (ts ++ us) = ((declaredIn (declaredIn s ts).1 us).1,
      (declaredIn s ts).2 ++ (declaredIn (declaredIn s ts).1 us).2) := by
  induction ts generalizing s with
  | nil => rw [List.nil_append, declaredIn_nil, List.nil_append]
  | cons t ts ih =>
    rw [List.cons_append]
    cases h : t.isNamed with
    | true => rw [declaredIn_cons h, declaredIn_cons h, ih, List.append_assoc]
    | false => rw [declaredIn_cons_unnamed h, declaredIn_cons_unnamed h, ih]

theorem declaredInBody_eq (s : Scope) (ts : List SyntaxTree) :
    declaredInBody s ts = match ts.find? fun c => c.role == some .body with
      | some b => (declaredIn s b.children).2
      | none => [] := by
  induction ts with
  | nil => rw [declaredInBody, List.find?_nil]
  | cons t ts ih =>
    obtain ⟨l, cs⟩ := t
    rw [declaredInBody, List.find?_cons]
    cases h : l.role == some Role.body with
    | true =>
      simp only [SyntaxTree.role, SyntaxTree.label, h]
      rfl
    | false =>
      simp only [SyntaxTree.role, SyntaxTree.label, h]
      exact ih

def spaceOf (n : SyntaxTree) : Scope := .within ((n.child? .name).map SyntaxTree.text)

section Namespace

variable {n : SyntaxTree} (hn : n.kind = .namespaceDefinition)
include hn

theorem isNamed_of_namespace : n.isNamed := by
  rw [SyntaxTree.isNamed, hn]
  rfl

/-- A namespace without a body replaces the scope, whatever it was. -/
theorem declared_of_unbraced (hb : n.child? .body = none) (s : Scope) :
    declared s n = (spaceOf n, []) := by
  obtain ⟨l, cs⟩ := n
  have hl : l.kind = .namespaceDefinition := hn
  rw [declared, hl]
  simp only [hb]
  rfl

/-- The body of a namespace has a scope of its own. -/
theorem declared_of_braced {b : SyntaxTree} (hb : n.child? .body = some b) (s : Scope) :
    declared s n = (s, (declaredIn (spaceOf n) b.children).2) := by
  obtain ⟨l, cs⟩ := n
  have hl : l.kind = .namespaceDefinition := hn
  have hf : cs.find? (fun c => c.role == some .body) = some b := hb
  rw [declared, hl]
  simp only [hb, declaredInBody_eq, hf]
  rfl

end Namespace

def isClause (k : Kind) : Bool := k == .namespaceUseClause || k == .namespaceUseGroupClause

theorem Import.clauses_eq (t : SyntaxTree) :
    clauses t = if isClause t.kind then [t] else clausesOf t.children := by
  cases t with
  | node l cs =>
    rw [clauses]
    rfl

theorem Import.clausesOf_eq (ts : List SyntaxTree) :
    clausesOf ts = ts.reverse.flatMap fun t => if t.isNamed then clauses t else [] := by
  induction ts with
  | nil => rw [clausesOf]; rfl
  | cons t ts ih => rw [clausesOf, ih, List.reverse_cons, List.flatMap_append,
      List.flatMap_singleton]

theorem Import.exists_of_mem_clausesOf {ts : List SyntaxTree} {c : SyntaxTree}
    (h : c ∈ clausesOf ts) : ∃ t ∈ ts, c ∈ clauses t := by
  rw [clausesOf_eq] at h
  obtain ⟨t, ht, hc⟩ := List.mem_flatMap.1 h
  refine ⟨t, List.mem_reverse.1 ht, ?_⟩
  split at hc
  · exact hc
  · cases hc

def Import.named? (clause : SyntaxTree) : Option SyntaxTree :=
  clause.namedChildren.find? fun c =>
    c.kind == .qualifiedName || c.kind == .name || c.kind == .namespaceName

def Import.alias? (clause : SyntaxTree) : Option SyntaxTree :=
  (clause.child? .shortName).or
    ((clause.namedChildren.find? fun c => c.kind == .namespaceAliasingClause).bind fun c =>
      c.namedChildren.find? fun d => d.kind == .name)

theorem Import.parts?_eq (clause : SyntaxTree) : parts? clause = (named? clause).map fun n =>
    (n.text, ((alias? clause).map SyntaxTree.text).filter (· ≠ n.text)) := by
  rw [parts?, named?]
  cases List.find? _ _ <;> rfl

def writtenParents (t : SyntaxTree) : List SyntaxTree :=
  ((t.namedChildren.filter fun c => c.kind == .baseClause || c.kind == .interfaceClause).flatMap
    SyntaxTree.namedChildren).filter fun c => c.kind == .name || c.kind == .qualifiedName

theorem ofTree?_eq (s : Scope) (t : SyntaxTree) : ClassDeclaration.ofTree? s t =
    (ClassKind.ofKind? t.kind).bind fun k => (t.child? .name).map fun n =>
      { fqcn := s.qualify n.text
        kind := k
        parents := (writtenParents t).map fun c => s.resolve c.text
        start := t.start
        line := t.line } := by
  rw [ClassDeclaration.ofTree?]
  cases ClassKind.ofKind? t.kind with
  | none => rfl
  | some k => cases t.child? .name <;> rfl

theorem start_of_ofTree? {s : Scope} {t : SyntaxTree} {c : ClassDeclaration}
    (h : ClassDeclaration.ofTree? s t = some c) : c.start = t.start := by
  rw [ofTree?_eq] at h
  obtain ⟨k, -, h⟩ := Option.bind_eq_some_iff.1 h
  obtain ⟨n, -, rfl⟩ := Option.map_eq_some_iff.1 h
  rfl

/-- Nodes of this kind declare something or change the scope. -/
def isDeclaring (k : Kind) : Bool :=
  isClassLike k || k == .namespaceDefinition || k == .namespaceUseDeclaration

theorem declared_of_import {t : SyntaxTree} (h : t.kind = .namespaceUseDeclaration) (s : Scope) :
    declared s t = (Import.record s t, []) := by
  obtain ⟨l, cs⟩ := t
  have hl : l.kind = .namespaceUseDeclaration := h
  rw [declared, hl]

theorem declared_of_isClassLike {t : SyntaxTree} (h : isClassLike t.kind) (s : Scope) :
    declared s t = (s, (ClassDeclaration.ofTree? s t).toList) := by
  obtain ⟨l, cs⟩ := t
  have hl : l.kind = .classDeclaration ∨ l.kind = .interfaceDeclaration := by
    have h : isClassLike l.kind := h
    cases hk : l.kind <;> simp_all [isClassLike, ClassKind.ofKind?]
  rw [declared]
  rcases hl with hl | hl <;> rw [hl]

/-- All other nodes stand for what is below them. -/
theorem declared_of_not_isDeclaring {t : SyntaxTree} (h : isDeclaring t.kind = false) (s : Scope) :
    declared s t = declaredIn s t.children := by
  obtain ⟨l, cs⟩ := t
  have h : isDeclaring l.kind = false := h
  rw [declared]
  split <;> simp_all [isDeclaring, isClassLike, ClassKind.ofKind?, SyntaxTree.children]

/-- Induction along the way in which trees are read. The body of a namespace lies below the
namespace, and its nodes below the body, so the nodes that are read are not those right below. -/
theorem induction_declared {P : SyntaxTree → Prop}
    (unbraced : ∀ t, t.kind = .namespaceDefinition → t.child? .body = none → P t)
    (braced : ∀ t b, t.kind = .namespaceDefinition → t.child? .body = some b →
      (∀ c ∈ b.children, P c) → P t)
    (imports : ∀ t, t.kind = .namespaceUseDeclaration → P t)
    (classLike : ∀ t, isClassLike t.kind → P t)
    (other : ∀ t, isDeclaring t.kind = false → (∀ c ∈ t.children, P c) → P t)
    (t : SyntaxTree) : P t := by
  induction hn : t.size using Nat.strongRecOn generalizing t with
  | ind n ih =>
    have below {b : SyntaxTree} (hb : b.size ≤ n) : ∀ c ∈ b.children, P c := fun c hc =>
      ih c.size (Nat.lt_of_lt_of_le (SyntaxTree.size_lt_of_mem_children hc) hb) c rfl
    by_cases hk : t.kind = .namespaceDefinition
    · cases hb : t.child? .body with
      | none => exact unbraced t hk hb
      | some b =>
        have hm : b ∈ t.children := List.mem_of_find?_eq_some hb
        have hs : b.size < t.size := SyntaxTree.size_lt_of_mem_children hm
        exact braced t b hk hb (below (hn ▸ Nat.le_of_lt hs))
    by_cases hi : t.kind = .namespaceUseDeclaration
    · exact imports t hi
    by_cases hc : isClassLike t.kind
    · exact classLike t hc
    · exact other t (by simp [isDeclaring, hk, hi, hc]) (below (Nat.le_of_eq hn))

end ContainerAliases.Classes
