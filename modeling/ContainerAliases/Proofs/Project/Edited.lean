import ContainerAliases.Proofs.Classes.Still
import ContainerAliases.Proofs.Source.Ranges

namespace ContainerAliases.Project

open Source Classes
open SyntaxTree (Contains)

/-- Nothing is declared at the node or below it, and no scope changed. -/
def isIdle (t : SyntaxTree) : Bool := t.every fun u => !isDeclaring u.kind

/-- The node, or an empty one of its kind for the members of a class. -/
def hollow (t : SyntaxTree) : SyntaxTree :=
  if t.role == some .body && t.kind == .other "declaration_list" then
    .node ⟨t.kind, t.role, "", 0, 0⟩ []
  else t.still

/-- A class without its members and its place. -/
def bare (t : SyntaxTree) : SyntaxTree :=
  .node ⟨t.kind, t.role, "", 0, 0⟩ (t.children.map hollow)

/-- One list of nodes comes from the other by edits that keep, up to their places, all imports, the
names of namespaces, the classes without their members and the first method called `method` of each
class. -/
inductive Edited (method : String) : List SyntaxTree → List SyntaxTree → Prop
  | nil : Edited method [] []
  /-- A statement is taken away, or another stands in its place. -/
  | drop {t : SyntaxTree} {ts us : List SyntaxTree} (ht : isIdle t) (h : Edited method ts us) :
      Edited method (t :: ts) us
  | add {u : SyntaxTree} {ts us : List SyntaxTree} (hu : isIdle u) (h : Edited method ts us) :
      Edited method ts (u :: us)
  | imports {t u : SyntaxTree} {ts us : List SyntaxTree} (hk : t.kind = .namespaceUseDeclaration)
      (hs : t.still = u.still) (h : Edited method ts us) : Edited method (t :: ts) (u :: us)
  /-- Something is changed below a node that declares nothing itself. -/
  | inside {t u : SyntaxTree} {ts us : List SyntaxTree} (hd : isDeclaring t.kind = false)
      (hk : t.kind = u.kind) (inner : Edited method t.children u.children)
      (h : Edited method ts us) : Edited method (t :: ts) (u :: us)
  | unbraced {t u : SyntaxTree} {ts us : List SyntaxTree} (ht : t.kind = .namespaceDefinition)
      (hu : u.kind = .namespaceDefinition)
      (name : (t.child? .name).map SyntaxTree.still = (u.child? .name).map SyntaxTree.still)
      (hb : t.child? .body = none) (hc : u.child? .body = none) (h : Edited method ts us) :
      Edited method (t :: ts) (u :: us)
  | braced {t u b c : SyntaxTree} {ts us : List SyntaxTree} (ht : t.kind = .namespaceDefinition)
      (hu : u.kind = .namespaceDefinition)
      (name : (t.child? .name).map SyntaxTree.still = (u.child? .name).map SyntaxTree.still)
      (hb : t.child? .body = some b) (hc : u.child? .body = some c)
      (inner : Edited method b.children c.children) (h : Edited method ts us) :
      Edited method (t :: ts) (u :: us)
  /-- Members are changed, the first method of that name apart. -/
  | members {t u : SyntaxTree} {ts us : List SyntaxTree} (hc : isClassLike t.kind)
      (hb : bare t = bare u) (hm : register method t = register method u)
      (h : Edited method ts us) : Edited method (t :: ts) (u :: us)

theorem kind_hollow (t : SyntaxTree) : (hollow t).kind = t.kind := by
  rw [hollow]
  split
  · rfl
  · exact t.kind_still

theorem role_hollow (t : SyntaxTree) : (hollow t).role = t.role := by
  rw [hollow]
  split
  · rfl
  · exact t.role_still

theorem hollow_of_role_ne {t : SyntaxTree} (h : t.role ≠ some .body) : hollow t = t.still := by
  rw [hollow, if_neg (by simp [h])]

theorem hollow_of_kind_ne {t : SyntaxTree} (h : t.kind ≠ .other "declaration_list") :
    hollow t = t.still := by
  rw [hollow, if_neg (by simp [h])]

theorem child?_name_bare (t : SyntaxTree) :
    (bare t).child? .name = (t.child? .name).map SyntaxTree.still := by
  have plays : (fun c : SyntaxTree => c.role == some .name) ∘ hollow =
      fun c => c.role == some .name :=
    funext fun c => congrArg (· == some Role.name) (role_hollow c)
  rw [bare, SyntaxTree.child?, SyntaxTree.children, List.find?_map, plays, ← SyntaxTree.child?]
  cases h : t.child? .name with
  | none => rfl
  | some n =>
    have role : n.role = some .name := by simpa using List.find?_some h
    rw [Option.map_some, Option.map_some, hollow_of_role_ne (by simp [role])]

theorem writtenParents_bare (t : SyntaxTree) :
    writtenParents (bare t) = (writtenParents t).map SyntaxTree.still := by
  have clauses : (bare t).namedChildren.filter (fun c => c.kind == .baseClause ||
      c.kind == .interfaceClause) = (t.namedChildren.filter fun c => c.kind == .baseClause ||
        c.kind == .interfaceClause).map SyntaxTree.still := by
    rw [bare, SyntaxTree.namedChildren, SyntaxTree.children, SyntaxTree.namedChildren,
      List.filter_filter, List.filter_filter, List.filter_map]
    have same : (fun c : SyntaxTree => (c.kind == .baseClause || c.kind == .interfaceClause) &&
        c.isNamed) ∘ hollow = fun c => (c.kind == .baseClause || c.kind == .interfaceClause) &&
          c.isNamed := by
      funext c
      rw [Function.comp_apply, SyntaxTree.isNamed, kind_hollow, SyntaxTree.isNamed]
    rw [same]
    refine List.map_congr_left fun c hc => hollow_of_kind_ne fun hk => ?_
    simp [hk] at hc
  have names (c : SyntaxTree) : c.still.namedChildren = c.namedChildren.map SyntaxTree.still :=
    SyntaxTree.namedChildren_relabel SyntaxTree.keepsWords_stillLabel c
  rw [writtenParents, clauses, List.flatMap_map]
  simp only [names]
  rw [← List.map_flatMap]
  exact SyntaxTree.filter_map_relabel SyntaxTree.keepsWords_stillLabel
    (fun k => k == .name || k == .qualifiedName) _

theorem ofTree?_bare (s : Scope) (t : SyntaxTree) : ClassDeclaration.ofTree? s (bare t) =
    (ClassDeclaration.ofTree? s t).map ClassDeclaration.unplaced := by
  have parents : (writtenParents (bare t)).map (fun c => s.resolve c.text) =
      (writtenParents t).map fun c => s.resolve c.text := by
    rw [writtenParents_bare, List.map_map]
    exact List.map_congr_left fun c _ => congrArg s.resolve c.text_still
  rw [ofTree?_eq, ofTree?_eq, parents, child?_name_bare]
  change (ClassKind.ofKind? t.kind).bind _ = _
  cases ClassKind.ofKind? t.kind with
  | none => rfl
  | some k =>
    cases t.child? .name with
    | none => rfl
    | some n =>
      simp only [Option.bind_some, Option.map_some, n.text_still]
      rfl

theorem kind_of_bare {t u : SyntaxTree} (h : bare t = bare u) : t.kind = u.kind := by
  have h : (bare t).kind = (bare u).kind := congrArg SyntaxTree.kind h
  exact h

theorem unplaced_of_bare {t u : SyntaxTree} (h : bare t = bare u) (s : Scope) :
    (ClassDeclaration.ofTree? s t).map ClassDeclaration.unplaced =
      (ClassDeclaration.ofTree? s u).map ClassDeclaration.unplaced := by
  rw [← ofTree?_bare, h, ofTree?_bare]

theorem declared_of_isIdle {t : SyntaxTree} (h : isIdle t) (s : Scope) :
    declared s t = (s, []) := by
  induction t using SyntaxTree.induction_children with
  | h t ih =>
    have hd : isDeclaring t.kind = false := by simpa using SyntaxTree.of_every h
    have below : ∀ c ∈ t.children, declared s c = (s, []) :=
      fun c hc => ih c hc (SyntaxTree.every_of_mem h hc)
    rw [declared_of_not_isDeclaring hd]
    generalize t.children = cs at below
    induction cs with
    | nil => exact declaredIn_nil s
    | cons c cs ihcs =>
      have ⟨hc, hcs⟩ := List.forall_mem_cons.1 below
      cases hn : c.isNamed with
      | true => rw [declaredIn_cons hn, hc, ihcs hcs]; rfl
      | false => rw [declaredIn_cons_unnamed hn, ihcs hcs]

theorem declaredIn_of_isIdle {t : SyntaxTree} (h : isIdle t) (s : Scope) (ts : List SyntaxTree) :
    declaredIn s (t :: ts) = declaredIn s ts := by
  cases hn : t.isNamed with
  | true => rw [declaredIn_cons hn, declared_of_isIdle h]; rfl
  | false => exact declaredIn_cons_unnamed hn ts

def StandsIn (n : SyntaxTree) (ts : List SyntaxTree) : Prop := ∃ t ∈ ts, Contains n t

/-- The declaration `c` was read at a node in one of the trees, whose register method is `m`. -/
def ReadIn (method : String) (ts : List SyntaxTree) (c : ClassDeclaration) (m : Option SyntaxTree) :
    Prop :=
  ∃ n, StandsIn n ts ∧ isClassLike n.kind ∧ n.start = c.start ∧ register method n = m

/-- The same declaration up to its place, with the same register method. -/
structure Corresponds (method : String) (ts us : List SyntaxTree) (c d : ClassDeclaration) :
    Prop where
  unplaced : c.unplaced = d.unplaced
  nodes : ∃ m, ReadIn method ts c m ∧ ReadIn method us d m

/-- Two readings leave one scope, and declarations that correspond. -/
def ReadAlike (method : String) (ts us : List SyntaxTree) (a b : Scope × List ClassDeclaration) :
    Prop := a.1 = b.1 ∧ List.Forall₂ (Corresponds method ts us) a.2 b.2

section ReadAlike

variable {method : String} {ts us ts' us' : List SyntaxTree} {a b : Scope × List ClassDeclaration}

theorem ReadAlike.mono (h : ReadAlike method ts us a b) (ht : ∀ n, StandsIn n ts → StandsIn n ts')
    (hu : ∀ n, StandsIn n us → StandsIn n us') : ReadAlike method ts' us' a b := by
  refine ⟨h.1, h.2.imp fun c d hcd => ⟨hcd.unplaced, ?_⟩⟩
  obtain ⟨m, ⟨n, hn, rest⟩, ⟨n', hn', rest'⟩⟩ := hcd.nodes
  exact ⟨m, ⟨n, ht n hn, rest⟩, ⟨n', hu n' hn', rest'⟩⟩

theorem StandsIn.cons {n : SyntaxTree} (h : StandsIn n ts) (t : SyntaxTree) :
    StandsIn n (t :: ts) := by
  obtain ⟨u, hu, hn⟩ := h
  exact ⟨u, List.mem_cons_of_mem t hu, hn⟩

theorem StandsIn.of_child {n t b : SyntaxTree} (h : StandsIn n b.children) (hb : Contains b t)
    (ts : List SyntaxTree) : StandsIn n (t :: ts) := by
  obtain ⟨c, hc, hn⟩ := h
  exact ⟨t, List.mem_cons_self, (Contains.child hc hn).trans hb⟩

theorem ReadAlike.cons {t u : SyntaxTree} (hn : t.isNamed = u.isNamed)
    (first : ∀ s, ReadAlike method (t :: ts) (u :: us) (declared s t) (declared s u))
    (rest : ∀ s, ReadAlike method ts us (declaredIn s ts) (declaredIn s us)) (s : Scope) :
    ReadAlike method (t :: ts) (u :: us) (declaredIn s (t :: ts)) (declaredIn s (u :: us)) := by
  have rest' (s : Scope) :
      ReadAlike method (t :: ts) (u :: us) (declaredIn s ts) (declaredIn s us) :=
    (rest s).mono (fun _ h => h.cons t) fun _ h => h.cons u
  cases ht : t.isNamed with
  | true =>
    rw [declaredIn_cons ht, declaredIn_cons (hn ▸ ht)]
    have rest := rest' (declared s t).1
    rw [← (first s).1]
    exact ⟨rest.1, List.rel_append (first s).2 rest.2⟩
  | false =>
    rw [declaredIn_cons_unnamed ht, declaredIn_cons_unnamed (hn ▸ ht)]
    exact rest' s

end ReadAlike

theorem spaceOf_congr {t u : SyntaxTree}
    (h : (t.child? .name).map SyntaxTree.still = (u.child? .name).map SyntaxTree.still) :
    spaceOf t = spaceOf u := by
  rw [spaceOf, spaceOf, ← SyntaxTree.map_text_still, h, SyntaxTree.map_text_still]

theorem contains_of_child? {t b : SyntaxTree} {r : Role} (h : t.child? r = some b) :
    Contains b t := .child (List.mem_of_find?_eq_some h) .here

/-- A class is read as one declaration, or as none if it has no name. -/
theorem readAlike_members {method : String} {t u : SyntaxTree} (hc : isClassLike t.kind)
    (hb : bare t = bare u) (hm : register method t = register method u) (ts us : List SyntaxTree)
    (s : Scope) : ReadAlike method (t :: ts) (u :: us) (declared s t) (declared s u) := by
  have hk := kind_of_bare hb
  have same := Alias.rel_of_map_eq (unplaced_of_bare hb s)
  rw [declared_of_isClassLike hc, declared_of_isClassLike (hk ▸ hc)]
  refine ⟨rfl, ?_⟩
  generalize ht : ClassDeclaration.ofTree? s t = x, hu : ClassDeclaration.ofTree? s u = y at same
  cases same with
  | none => exact .nil
  | some same =>
    refine .cons ⟨same, register method t, ⟨t, ⟨t, List.mem_cons_self, .here⟩, hc,
      (start_of_ofTree? ht).symm, rfl⟩, ⟨u, ⟨u, List.mem_cons_self, .here⟩, hk ▸ hc,
      (start_of_ofTree? hu).symm, hm.symm⟩⟩ .nil

/-- Edited nodes are read alike, in every scope. -/
theorem Edited.readAlike {method : String} {ts us : List SyntaxTree} (h : Edited method ts us)
    (s : Scope) : ReadAlike method ts us (declaredIn s ts) (declaredIn s us) := by
  induction h generalizing s with
  | nil =>
    rw [declaredIn_nil]
    exact ⟨rfl, .nil⟩
  | @drop t ts us ht h ih =>
    rw [declaredIn_of_isIdle ht]
    exact (ih s).mono (fun _ h => h.cons t) fun _ h => h
  | @add u ts us hu h ih =>
    rw [declaredIn_of_isIdle hu]
    exact (ih s).mono (fun _ h => h) fun _ h => h.cons u
  | @imports t u ts us hk hs h ih =>
    have hk' : u.kind = .namespaceUseDeclaration := by rw [← u.kind_still, ← hs, t.kind_still, hk]
    refine ReadAlike.cons (by rw [SyntaxTree.isNamed, hk, ← hk', SyntaxTree.isNamed])
      (fun s => ?_) ih s
    rw [declared_of_import hk, declared_of_import hk', ← Import.record_still, hs,
      Import.record_still]
    exact ⟨rfl, .nil⟩
  | @inside t u ts us hd hk inner h ihi ih =>
    refine ReadAlike.cons (by rw [SyntaxTree.isNamed, hk, SyntaxTree.isNamed]) (fun s => ?_) ih s
    rw [declared_of_not_isDeclaring hd, declared_of_not_isDeclaring (hk ▸ hd)]
    exact (ihi s).mono (fun _ h => h.of_child .here ts) fun _ h => h.of_child .here us
  | unbraced ht hu name hb hc h ih =>
    refine ReadAlike.cons (by rw [isNamed_of_namespace ht, isNamed_of_namespace hu])
      (fun s => ?_) ih s
    rw [declared_of_unbraced ht hb, declared_of_unbraced hu hc, spaceOf_congr name]
    exact ⟨rfl, .nil⟩
  | @braced t u b c ts us ht hu name hb hc inner h ihi ih =>
    refine ReadAlike.cons (by rw [isNamed_of_namespace ht, isNamed_of_namespace hu])
      (fun s => ?_) ih s
    rw [declared_of_braced ht hb, declared_of_braced hu hc, spaceOf_congr name]
    have body : ReadAlike method (t :: ts) (u :: us) _ _ := (ihi (spaceOf u)).mono
      (fun _ h => h.of_child (contains_of_child? hb) ts)
      fun _ h => h.of_child (contains_of_child? hc) us
    exact ⟨rfl, body.2⟩
  | @members t u ts us hc hb hm h ih =>
    have hk := kind_of_bare hb
    refine ReadAlike.cons (by rw [SyntaxTree.isNamed, hk, SyntaxTree.isNamed])
      (readAlike_members hc hb hm ts us) ih s

theorem bare_still (t : SyntaxTree) : bare t.still = bare t := by
  have same (c : SyntaxTree) : hollow c.still = hollow c := by
    rw [hollow, hollow, c.role_still, c.kind_still, c.still_still]
  rw [bare, bare, t.children_still, t.kind_still, t.role_still, List.map_map]
  exact congrArg _ (List.map_congr_left fun c _ => same c)

theorem children_eq_of_still {t u : SyntaxTree} (h : t.still = u.still) :
    t.children.map SyntaxTree.still = u.children.map SyntaxTree.still := by
  rw [← t.children_still, h, u.children_still]

theorem child?_eq_of_still {t u : SyntaxTree} (h : t.still = u.still) (r : Role) :
    (t.child? r).map SyntaxTree.still = (u.child? r).map SyntaxTree.still := by
  rw [← t.child?_still, h, u.child?_still]

theorem kind_eq_of_still {t u : SyntaxTree} (h : t.still = u.still) : t.kind = u.kind := by
  rw [← t.kind_still, h, u.kind_still]

/-- `t` may stand in front of any edited nodes, wherever it is moved to. -/
def Moves (method : String) (t : SyntaxTree) : Prop :=
  ∀ ⦃u⦄, t.still = u.still → ∀ ⦃ts us⦄, Edited method ts us → Edited method (t :: ts) (u :: us)

theorem edited_of_moves {method : String} {ts us : List SyntaxTree} (h : ∀ t ∈ ts, Moves method t)
    (hs : ts.map SyntaxTree.still = us.map SyntaxTree.still) : Edited method ts us := by
  induction ts generalizing us with
  | nil =>
    rw [List.map_nil, eq_comm, List.map_eq_nil_iff] at hs
    subst hs
    exact .nil
  | cons t ts ih =>
    have ⟨ht, h⟩ := List.forall_mem_cons.1 h
    cases us with
    | nil => cases hs
    | cons u us =>
      obtain ⟨hu, hs⟩ := List.cons.inj hs
      exact ht hu (ih h hs)

theorem moves (method : String) (t : SyntaxTree) : Moves method t := by
  induction t using induction_declared with
  | unbraced t hk hb =>
    intro u hs ts us h
    have hc : u.child? .body = none := by
      simpa [hb] using (child?_eq_of_still hs .body).symm
    exact .unbraced hk (kind_eq_of_still hs ▸ hk) (child?_eq_of_still hs .name) hb hc h
  | braced t b hk hb ih =>
    intro u hs ts us h
    obtain ⟨c, hc, hbc⟩ : ∃ c, u.child? .body = some c ∧ c.still = b.still := by
      simpa [hb] using (child?_eq_of_still hs .body).symm
    exact .braced hk (kind_eq_of_still hs ▸ hk) (child?_eq_of_still hs .name) hb hc
      (edited_of_moves ih (children_eq_of_still hbc.symm)) h
  | imports t hi => exact fun u hs ts us h => .imports hi hs h
  | classLike t hc =>
    intro u hs ts us h
    refine .members hc ?_ ?_ h
    · rw [← bare_still, hs, bare_still]
    · rw [← register_still, hs, register_still]
  | other t hd ih =>
    intro u hs ts us h
    exact .inside hd (kind_eq_of_still hs) (edited_of_moves ih (children_eq_of_still hs)) h

theorem Edited.moved {method : String} {t u : SyntaxTree} {ts us : List SyntaxTree}
    (hs : t.still = u.still) (h : Edited method ts us) : Edited method (t :: ts) (u :: us) :=
  moves method t hs h

/-- The node stays as it is, or one statement stands in the place of another, or the members of a
class are changed. -/
def EditedInPlace (method : String) (t u : SyntaxTree) : Prop :=
  t.still = u.still ∨ isIdle t ∧ isIdle u ∨
    isClassLike t.kind ∧ bare t = bare u ∧ register method t = register method u

instance (method : String) (t u : SyntaxTree) : Decidable (EditedInPlace method t u) :=
  inferInstanceAs (Decidable (_ ∨ _))

theorem Edited.of_inPlace {method : String} {ts us : List SyntaxTree}
    (h : List.Forall₂ (EditedInPlace method) ts us) : Edited method ts us := by
  induction h with
  | nil => exact .nil
  | cons node _ ih =>
    rcases node with same | ⟨ht, hu⟩ | ⟨hc, hb, hm⟩
    · exact ih.moved same
    · exact (ih.add hu).drop ht
    · exact ih.members hc hb hm

end ContainerAliases.Project
