import ContainerAliases.Proofs.Classes.Lower
import ContainerAliases.Proofs.Classes.Reading
import ContainerAliases.Source.Grammar.Statement
import Mathlib.Data.List.Forall2

namespace ContainerAliases.Classes

open Source

section SingleSegment

variable {a : List Char} (ha : '\\' ∉ a)
include ha

theorem splitFirst_of_not_mem : splitFirst a = (a, none) := by
  induction a with
  | nil => rfl
  | cons c cs ih =>
    rw [List.mem_cons, not_or] at ha
    rw [splitFirst, if_neg (Ne.symm ha.1), ih ha.2]

theorem splitFirst_append (b : List Char) : splitFirst (a ++ '\\' :: b) = (a, some b) := by
  induction a with
  | nil => rfl
  | cons c cs ih =>
    rw [List.mem_cons, not_or] at ha
    rw [List.cons_append, splitFirst, if_neg (Ne.symm ha.1), ih ha.2]

end SingleSegment

structure Segment where
  text : String
  nonempty : text ≠ ""
  single : '\\' ∉ text.toList

structure Path where
  first : Segment
  rest : List Segment

def join (parts : List String) : String := "\\".intercalate parts

theorem join_cons_cons (a b : String) (parts : List String) :
    join (a :: b :: parts) = a ++ "\\" ++ join (b :: parts) := String.intercalate_cons_cons

theorem join_singleton (a : String) : join [a] = a := String.intercalate_singleton

def Path.texts (p : Path) : List String := p.first.text :: p.rest.map Segment.text

/-- A name in one of the three ways to write it. -/
inductive Reference where
  /-- With a backslash in front. -/
  | absolute (path : Path)
  /-- Behind the keyword `namespace`. -/
  | relative (keyword : String) (h : lower keyword = "namespace") (path : Path)
  /-- With neither. -/
  | plain (path : Path) (h : path.rest ≠ [] → lower path.first.text ≠ "namespace")

namespace Reference

def isRelative : Reference → Bool
  | relative .. => true
  | _ => false

def text : Reference → String
  | absolute path => join ("" :: path.texts)
  | relative keyword _ path => join (keyword :: path.texts)
  | plain path _ => join path.texts

/-- The name that is meant in a scope, piece by piece. An alias is known whatever its case. -/
def pieces (s : Scope) : Reference → List String
  | absolute path => path.texts
  | relative _ _ path => s.space.toList ++ path.texts
  | plain path _ =>
    match s.imports.lookup (lower path.first.text) with
    | some full => full :: path.rest.map Segment.text
    | none => s.space.toList ++ path.texts

def meaning (s : Scope) (r : Reference) : String := join (r.pieces s)

end Reference

theorem Path.toList_join_texts (p : Path) :
    (join p.texts).toList = p.first.text.toList ∧ p.rest = [] ∨
      ∃ r rs, p.rest = r :: rs ∧
        (join p.texts).toList =
          p.first.text.toList ++ '\\' :: (join (Path.mk r rs).texts).toList := by
  obtain ⟨first, rest⟩ := p
  cases rest with
  | nil => exact .inl ⟨congrArg String.toList (join_singleton _), rfl⟩
  | cons r rs =>
    refine .inr ⟨r, rs, rfl, ?_⟩
    rw [texts, List.map_cons, join_cons_cons, String.toList_append, String.toList_append,
      List.append_assoc]
    rfl

theorem Scope.qualify_join (s : Scope) (a : String) (parts : List String) :
    s.qualify (join (a :: parts)) = join (s.space.toList ++ a :: parts) := by
  obtain ⟨_ | space, imports⟩ := s
  · rfl
  · exact (join_cons_cons space a parts).symm

theorem splitFirst_join_texts (p : Path) : splitFirst (join p.texts).toList =
    (p.first.text.toList, match p.rest with
      | [] => none
      | r :: rs => some (join (Path.mk r rs).texts).toList) := by
  rcases p.toList_join_texts with ⟨h, hr⟩ | ⟨r, rs, hr, h⟩
  · rw [h, hr, splitFirst_of_not_mem p.first.single]
  · rw [h, hr, splitFirst_append p.first.single]

theorem head?_join_texts (p : Path) : (join p.texts).toList.head? ≠ some '\\' := by
  have first : p.first.text.toList ≠ [] := by simpa using p.first.nonempty
  obtain ⟨c, cs, hc⟩ := List.exists_cons_of_ne_nil first
  have other : c ≠ '\\' := by
    rintro rfl
    exact p.first.single (by simp [hc])
  rcases p.toList_join_texts with ⟨h, -⟩ | ⟨r, rs, -, h⟩ <;> simp [h, hc, other]

theorem isPlain_join_texts (p : Path) (h : p.rest ≠ [] → lower p.first.text ≠ "namespace") :
    Scope.isPlain (join p.texts) := by
  rw [Scope.isPlain, Bool.not_eq_true', Bool.eq_false_iff, Ne, List.isPrefixOf_iff_prefix]
  rintro ⟨relative, hr⟩
  have keyword : '\\' ∉ "namespace".toList := by decide
  have cut := splitFirst_append keyword relative
  have text : "namespace".toList ++ '\\' :: relative = (join p.texts).toList.map Char.toLower := hr
  rw [text, splitFirst_map_toLower, splitFirst_join_texts, Prod.mk.injEq] at cut
  refine h ?_ ?_
  · intro hnil
    rw [hnil] at cut
    cases cut.2
  · rw [← String.toList_inj, toList_lower, cut.1]

theorem resolve_plain (s : Scope) (p : Path)
    (h : p.rest ≠ [] → lower p.first.text ≠ "namespace") :
    s.resolve (join p.texts) = (Reference.plain p h).meaning s := by
  rw [s.resolve_of_isPlain (isPlain_join_texts p h) (head?_join_texts p), splitFirst_join_texts,
    String.ofList_toList, Scope.imported?, Reference.meaning, Reference.pieces]
  cases s.imports.lookup (lower p.first.text) with
  | none => exact s.qualify_join _ _
  | some full =>
    cases p.rest with
    | nil => exact (join_singleton full).symm
    | cons r rs =>
      simp only [String.ofList_toList]
      exact (join_cons_cons full r.text _).symm

theorem resolve_relative (s : Scope) {name : String} {cs : List Char}
    (h : name.toList = "namespace\\".toList ++ cs) :
    s.resolve name = s.qualify (String.ofList cs) := by
  rw [Scope.resolve, h]
  rfl

/-- The three ways to write a name are told apart, if the keyword is in lower case. -/
theorem resolve_text (s : Scope) (r : Reference)
    (h : ∀ keyword hk path, r = .relative keyword hk path → keyword = "namespace") :
    s.resolve r.text = r.meaning s := by
  have behind (a : String) (p : Path) : (join (a :: p.texts)).toList =
      a.toList ++ '\\' :: (join p.texts).toList := by
    rw [Path.texts, join_cons_cons, String.toList_append, String.toList_append, List.append_assoc]
    rfl
  cases r with
  | absolute path =>
    rw [Reference.text, s.resolve_of_absolute (behind "" path), String.ofList_toList]
    rfl
  | relative keyword hk path =>
    obtain rfl := h keyword hk path rfl
    have text : (join ("namespace" :: path.texts)).toList =
        "namespace\\".toList ++ (join path.texts).toList := behind "namespace" path
    rw [Reference.text, resolve_relative s text, String.ofList_toList]
    exact s.qualify_join _ _
  | plain path hp => exact resolve_plain s path hp

/-- All names behind `extends` and `implements`, in source order. -/
def writtenNames (t : SyntaxTree) : List SyntaxTree :=
  ((t.namedChildren.filter fun c => c.kind == .baseClause || c.kind == .interfaceClause).flatMap
    SyntaxTree.namedChildren).filter fun c =>
      c.kind == .name || c.kind == .qualifiedName || c.kind == .relativeName

/-- The name may be written as the node. -/
def Reference.isWrittenAs (r : Reference) (n : SyntaxTree) : Bool :=
  n.text == r.text && r.isRelative == (n.kind == .relativeName)

theorem writtenParents_eq_filter (t : SyntaxTree) :
    writtenParents t = (writtenNames t).filter fun c => c.kind != .relativeName := by
  rw [writtenNames, List.filter_filter, writtenParents]
  refine List.filter_congr fun c _ => ?_
  cases hk : c.kind <;> rfl

/-- What is recorded of the names `refs`, read in the scope `s`. -/
structure Records (s : Scope) (refs : List Reference) (c : ClassDeclaration) : Prop where
  /-- The names that are not written below the current namespace, resolved one by one. -/
  parents : c.parents = (refs.filter fun r => !r.isRelative).map (Reference.meaning s)
  /-- Nothing is missing where there is no other name. -/
  complete_iff : c.parents = refs.map (Reference.meaning s) ↔ ∀ r ∈ refs, r.isRelative = false
  length : c.parents.length + refs.countP Reference.isRelative = refs.length
  /-- All names would be resolved, those below the current namespace too. -/
  resolve : ∀ r ∈ refs, (∀ keyword h path, r = .relative keyword h path → keyword = "namespace") →
    s.resolve r.text = r.meaning s

theorem map_resolve_writtenParents {t : SyntaxTree} {refs : List Reference}
    (h : List.Forall₂ (fun r n => r.isWrittenAs n = true) refs (writtenNames t)) (s : Scope) :
    (writtenParents t).map (fun c => s.resolve c.text) =
      (refs.filter fun r => !r.isRelative).map (Reference.meaning s) := by
  rw [writtenParents_eq_filter]
  generalize writtenNames t = names at h
  induction h with
  | nil => rfl
  | @cons r n refs names hr _ ih =>
    rw [Reference.isWrittenAs, Bool.and_eq_true, beq_iff_eq, beq_iff_eq] at hr
    obtain ⟨text, kind⟩ := hr
    rw [List.filter_cons, List.filter_cons, bne, ← kind]
    cases hk : r.isRelative with
    | true => exact ih
    | false =>
      have meant : s.resolve n.text = r.meaning s := by
        rw [text]
        refine resolve_text s r ?_
        rintro keyword hk' path rfl
        cases hk
      rw [Bool.not_false, if_pos rfl, if_pos rfl, List.map_cons, List.map_cons, ih, meant]

/-- Which of the written names become parents. -/
theorem written_names_recorded {t n : SyntaxTree} {refs : List Reference}
    (hc : isClassLike t.kind) (hn : t.child? .name = some n)
    (written : List.Forall₂ (fun r n => r.isWrittenAs n = true) refs (writtenNames t)) (s : Scope) :
    ∃ c, declared s t = (s, [c]) ∧ Records s refs c := by
  obtain ⟨k, hk⟩ := Option.isSome_iff_exists.1 hc
  have parents := map_resolve_writtenParents written s
  rw [declared_of_isClassLike hc, ofTree?_eq, hk, hn]
  refine ⟨_, rfl, parents, ?_, ?_, fun r _ => resolve_text s r⟩
  · rw [parents]
    constructor
    · intro h
      have length := congrArg List.length h
      rw [List.length_map, List.length_map, List.length_filter_eq_length_iff] at length
      simpa using length
    · intro h
      rw [List.filter_eq_self.2 fun r hr => by rw [h r hr]; rfl]
  · rw [parents, List.length_map, ← List.countP_eq_length_filter, Nat.add_comm]
    simpa using (List.length_eq_countP_add_countP (l := refs) Reference.isRelative).symm

-- A class behind a namespace and imports, with names of all forms and a comment between them.
namespace Mingled

def program : SyntaxTree :=
  (parse "<?php namespace Shop; use Vendor\\Base, Vendor\\Parts as P; class Cart extends bASE
    implements \\Countable, p\\Item, namespace\\Own /* , No */, Other, Sub\\Thing \x7b\x7d").tree

def tree : SyntaxTree := program.children.getD 3 default

def scope : Scope := ⟨some "Shop", [("base", "Vendor\\Base"), ("p", "Vendor\\Parts")]⟩

def base : Segment := ⟨"bASE", by decide, by decide⟩
def countable : Segment := ⟨"Countable", by decide, by decide⟩
def p : Segment := ⟨"p", by decide, by decide⟩
def item : Segment := ⟨"Item", by decide, by decide⟩
def own : Segment := ⟨"Own", by decide, by decide⟩
def other : Segment := ⟨"Other", by decide, by decide⟩
def sub : Segment := ⟨"Sub", by decide, by decide⟩
def thing : Segment := ⟨"Thing", by decide, by decide⟩

theorem keyword : lower "namespace" = "namespace" := by decide +kernel

def references : List Reference :=
  [.plain ⟨base, []⟩ nofun, .absolute ⟨countable, []⟩, .plain ⟨p, [item]⟩ (by decide +kernel),
    .relative "namespace" keyword ⟨own, []⟩, .plain ⟨other, []⟩ nofun,
    .plain ⟨sub, [thing]⟩ (by decide +kernel)]

theorem facts : isClassLike tree.kind ∧ (tree.child? .name).map SyntaxTree.text = some "Cart" ∧
    List.Forall₂ (fun r n => r.isWrittenAs n = true) references (writtenNames tree) ∧
    (declaredIn default (program.children.take 3)).1 = scope := by
  decide +kernel

theorem known_meanings : (references.filter fun r => !r.isRelative).map (Reference.meaning scope) =
    ["Vendor\\Base", "Countable", "Vendor\\Parts\\Item", "Shop\\Other", "Shop\\Sub\\Thing"] := by
  decide +kernel

end Mingled

theorem written_names_recorded_mingled :
    isClassLike Mingled.tree.kind ∧ (Mingled.tree.child? .name).map SyntaxTree.text = some "Cart" ∧
      List.Forall₂ (fun r n => r.isWrittenAs n = true) Mingled.references
        (writtenNames Mingled.tree) ∧
      (declaredIn default (Mingled.program.children.take 3)).1 = Mingled.scope ∧
      ∃ c, declared Mingled.scope Mingled.tree = (Mingled.scope, [c]) ∧
        Records Mingled.scope Mingled.references c ∧ c.parents = ["Vendor\\Base", "Countable",
          "Vendor\\Parts\\Item", "Shop\\Other", "Shop\\Sub\\Thing"] := by
  obtain ⟨classLike, name, written, scope⟩ := Mingled.facts
  obtain ⟨n, hn, -⟩ := Option.map_eq_some_iff.1 name
  obtain ⟨c, hc, records⟩ := written_names_recorded classLike hn written Mingled.scope
  exact ⟨classLike, name, written, scope, c, hc, records,
    records.parents.trans Mingled.known_meanings⟩

-- A class that extends nothing but a name below the current namespace.
namespace Forgotten

def program : SyntaxTree := (parse "<?php namespace A; class B extends namespace\\C \x7b\x7d").tree

def tree : SyntaxTree := program.children.getD 2 default

def scope : Scope := (declaredIn default (program.children.take 2)).1

def references : List Reference :=
  [.relative "namespace" Mingled.keyword ⟨⟨"C", by decide, by decide⟩, []⟩]

def orphan : ClassDeclaration := ⟨"A\\B", .classType, [], 19, 0⟩

theorem facts :
    List.Forall₂ (fun r n => r.isWrittenAs n = true) references (writtenNames tree) ∧
      declared scope tree = (scope, [orphan]) ∧
      references.map (Reference.meaning scope) = ["A\\C"] := by
  decide +kernel

end Forgotten

/-- Not all names become parents. -/
theorem written_names_recorded_forgotten :
    ¬ ∀ (t : SyntaxTree) (refs : List Reference) (s : Scope) (c : ClassDeclaration),
      List.Forall₂ (fun r n => r.isWrittenAs n = true) refs (writtenNames t) →
        declared s t = (s, [c]) → c.parents = refs.map (Reference.meaning s) := by
  intro h
  obtain ⟨written, read, meant⟩ := Forgotten.facts
  have parents := h _ _ _ _ written read
  rw [meant] at parents
  cases parents

end ContainerAliases.Classes
