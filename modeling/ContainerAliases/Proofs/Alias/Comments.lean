import ContainerAliases.Proofs.Alias.Correspondence
import ContainerAliases.Proofs.Source.Commented
import ContainerAliases.Source.Grammar.Statement

namespace ContainerAliases.Alias

open Source Node

section Values

variable {n' n : Node} (h : n'.CommentedFrom n)
include h

theorem contents?_eq : contents? n' = contents? n := by
  have literal : SyntaxNode.literal n' = SyntaxNode.literal n := h.literal
  rw [contents?, contents?, literal]

theorem literalValues_eq : literalValues n' = literalValues n := by
  rw [literalValues, literalValues, ← List.forall₂_eq_eq_eq]
  refine List.rel_filterMap (fun e' e he => ?_) h.elements
  have literal : SyntaxNode.literal e'.value = SyntaxNode.literal e.value := he.value.literal
  rw [literal]
  cases SyntaxNode.literal e.value with
  | none => exact .none
  | some _ => exact .some rfl

theorem namesOf_eq : namesOf n' = namesOf n := by
  have string : SyntaxNode.isString n' = SyntaxNode.isString n := h.isString
  have array : SyntaxNode.isArray n' = SyntaxNode.isArray n := h.isArray
  rw [namesOf, namesOf, string, array, contents?_eq h, literalValues_eq h]

end Values

/-- Entries with one key, whose values differ in comments alone and mean the same. -/
structure SameEntry (e' e : Entry Node) : Prop where
  key : e'.key = e.key
  value : e'.value.CommentedFrom e.value
  contents : contents? e'.value = contents? e.value
  names : namesOf e'.value = namesOf e.value

structure SameArray (a' a : Node) : Prop where
  node : a'.CommentedFrom a
  entries : List.Forall₂ SameEntry (Entry.ofArray a') (Entry.ofArray a)
  literals : literalValues a' = literalValues a

structure SameSite (s' s : Site Node) : Prop where
  declaration : s'.declaration.CommentedFrom s.declaration
  array : Option.Rel SameArray s'.array s.array

theorem rel_ofElement? {e' e : ArrayElement Node} (h : CommentedElement e' e) :
    Option.Rel SameEntry (Entry.ofElement? e') (Entry.ofElement? e) := by
  obtain ⟨k', v'⟩ := e'
  obtain ⟨k, v⟩ := e
  obtain ⟨key, value⟩ := h
  cases key with
  | none => exact .none
  | @some k' k hk =>
    have literal : SyntaxNode.literal k' = SyntaxNode.literal k := hk.literal
    simp only [Entry.ofElement?, Option.bind_eq_bind, Option.bind_some, literal]
    cases SyntaxNode.literal k with
    | none => exact .none
    | some _ => exact .some ⟨rfl, value, contents?_eq value, namesOf_eq value⟩

theorem sameArray {a' a : Node} (h : a'.CommentedFrom a) : SameArray a' a :=
  ⟨h, List.rel_filterMap (fun _ _ he => rel_ofElement? he) h.elements, literalValues_eq h⟩

theorem rel_at? {n' n : Node} (h : n'.CommentedFrom n) (target : String) :
    Option.Rel SameSite (Site.at? target n') (Site.at? target n) := by
  have declares : SyntaxNode.declares n' = SyntaxNode.declares n := h.declares
  have next : Option.Rel CommentedFrom (SyntaxNode.next n') (SyntaxNode.next n) := h.next
  rw [Site.at?, Site.at?, declares]
  split
  · refine .some ⟨h, ?_⟩
    simp only
    generalize SyntaxNode.next n' = v', SyntaxNode.next n = v at next ⊢
    cases next with
    | none => exact .none
    | @some v' v hv =>
      have array : SyntaxNode.isArray v' = SyntaxNode.isArray v := hv.isArray
      rw [Option.filter_some, Option.filter_some, array]
      split
      · exact .some (sameArray hv)
      · exact .none
  · exact .none

theorem at?_of_isRemark {n : Node} (h : n.tree.isRemark) (target : String) :
    Site.at? target n = none := by
  have declares : SyntaxNode.declares n = none := by
    change n.declares = none
    rw [Node.declares, Node.kind, SyntaxTree.kind_of_isRemark h]
    rfl
  rw [Site.at?, declares]
  rfl

/-- What is found in a method with comments and without. -/
structure SameFindings (m' m : Node) (target : String) : Prop where
  sites : List.Forall₂ SameSite (Site.below m' target) (Site.below m target)
  visits : List.Forall₂ SameEntry (entriesIn m' target) (entriesIn m target)

theorem sameFindings {m' m : Node} (h : m'.tree.isCommentedFrom m.tree) (target : String) :
    SameFindings m' m target := by
  have here : (Node.root m'.tree).CommentedFrom (.root m.tree) := ⟨h, rfl, fun _ => rfl, .nil⟩
  have sites : List.Forall₂ SameSite (Site.below m' target) (Site.below m target) := by
    change List.Forall₂ SameSite (Site.below (.root m'.tree) target)
      (Site.below (.root m.tree) target)
    rw [Site.below_eq_filterMap, Site.below_eq_filterMap]
    exact here.descendants.forall₂_filterMap (fun n hn => at?_of_isRemark hn target)
      fun _ _ hn => rel_at? hn target
  refine ⟨sites, List.rel_flatMap sites fun s' s hs => ?_⟩
  have array := hs.array
  generalize s'.array = a', s.array = a at array ⊢
  cases array with
  | none => exact .nil
  | @some a' a ha =>
    rw [Option.toList_some, Option.toList_some, List.flatMap_singleton, List.flatMap_singleton]
    exact ha.entries

namespace Provider

variable {q p : Provider Node} {pattern : Pattern}

/-- The register methods of both hierarchies are the same one by one, but for comments in those that
`q` has. -/
def CommentedFrom (q p : Provider Node) (pattern : Pattern) : Prop :=
  List.Forall₂ (fun d c => Option.Rel (fun m' m => m'.tree.isCommentedFrom m.tree = true)
      (q.method d pattern.registerMethod) (p.method c pattern.registerMethod))
    (q.classes pattern.baseClass) (p.classes pattern.baseClass)

theorem CommentedFrom.entries (h : q.CommentedFrom p pattern) :
    List.Forall₂ SameEntry (q.entries pattern) (p.entries pattern) := by
  rw [entries_eq_flatMap, entries_eq_flatMap]
  refine List.rel_flatMap h fun d c hdc => ?_
  have method : Option.Rel _ (q.method d pattern.registerMethod)
    (p.method c pattern.registerMethod) := hdc
  rw [entriesOf_eq, entriesOf_eq]
  generalize q.method d pattern.registerMethod = m',
    p.method c pattern.registerMethod = m at method ⊢
  cases method with
  | none => exact .nil
  | some hm =>
    rw [Option.toList_some, Option.toList_some, List.flatMap_singleton, List.flatMap_singleton]
    exact (sameFindings hm _).visits

end Provider

/-- What two providers have in common that differ in comments alone. -/
structure SameVisits (q p : Provider Node) (pattern : Pattern) : Prop where
  visits : List.Forall₂ SameEntry (q.entries pattern) (p.entries pattern)
  aliasMap : q.aliasMap pattern = p.aliasMap pattern
  aliasKeys : q.aliasKeys pattern = p.aliasKeys pattern

theorem foldl_eq_of_sameEntry {σ : Type} {v : Visitor Node σ}
    (hv : ∀ s e' e, SameEntry e' e → v s e' = v s e) {es' es : List (Entry Node)}
    (h : List.Forall₂ SameEntry es' es) (s : σ) : es'.foldl v s = es.foldl v s := by
  induction h generalizing s with
  | nil => rfl
  | cons he _ ih => rw [List.foldl_cons, List.foldl_cons, hv s _ _ he, ih]

theorem sameVisits {q p : Provider Node} {pattern : Pattern} (h : q.CommentedFrom p pattern) :
    SameVisits q p pattern := by
  have visits := h.entries
  refine ⟨visits, ?_, ?_⟩
  · rw [Provider.aliasMap, Provider.aliasMap, Provider.visit_eq_foldl, Provider.visit_eq_foldl]
    refine foldl_eq_of_sameEntry (fun m e' e he => ?_) visits ∅
    rw [AliasMap.visit, AliasMap.visit, he.key, he.names]
  · rw [Provider.aliasKeys, Provider.aliasKeys, Provider.visit_eq_foldl, Provider.visit_eq_foldl]
    refine foldl_eq_of_sameEntry (fun s e' e he => ?_) visits ∅
    rw [KeySet.visit, KeySet.visit, he.key]

/-- Comments change no aliases. -/
theorem comments_change_nothing :
    (∀ m' m : Node, m'.tree.isCommentedFrom m.tree → ∀ target, SameFindings m' m target) ∧
      ∀ (q p : Provider Node) (pattern : Pattern), q.CommentedFrom p pattern →
        SameVisits q p pattern :=
  ⟨fun _ _ h => sameFindings h, fun _ _ _ h => sameVisits h⟩

-- A method with comments in all places: around the equals sign and the arrows, in front of values
-- and behind them, in nested arrays and between statements.
namespace Crowded

def methodOf (source : String) : Node :=
  let body := ((parse source).tree.children.getD 1 default).child? .body
  .root ((body.getD default).children.getD 1 default)

def plain : Node :=
  methodOf "<?php class A \x7bfunction r()\x7b$v=['a'=>'x', 'b'=>[b'y', \"c$v\"]];\x7d\x7d"

def crowded : Node := methodOf
  "<?php class A \x7bfunction r(/*1*/)\x7b//2
$v/*3*/=#4
[/*5*/'a'/*6*/=>/*7*/'x'/*8*/, 'b'=>[//9
b'y'/*10*/, \"c$v\"/*11*/]]/*12*/;/*13*/\x7d\x7d"

def pattern : Pattern := ⟨"A", "r", "v"⟩

def providerOf (m : Node) : Provider Node := ⟨fun _ => [m], fun c _ => some c⟩

theorem facts : crowded.tree.isCommentedFrom plain.tree ∧
    (crowded.tree.preorder.filter SyntaxTree.isRemark).length = 13 ∧
    (crowded.tree.preorder.filterMap (·.assigned? "v")).map SyntaxTree.kind = [.arrayCreation] := by
  decide +kernel

theorem commentedFrom : (providerOf crowded).CommentedFrom (providerOf plain) pattern :=
  .cons (.some facts.1) .nil

end Crowded

theorem comments_change_nothing_crowded :
    Crowded.crowded.tree.isCommentedFrom Crowded.plain.tree ∧
      (Crowded.crowded.tree.preorder.filter SyntaxTree.isRemark).length = 13 ∧
      (Crowded.crowded.tree.preorder.filterMap (·.assigned? "v")).map SyntaxTree.kind =
        [.arrayCreation] ∧
      SameFindings Crowded.crowded Crowded.plain "v" ∧
      SameVisits (Crowded.providerOf Crowded.crowded) (Crowded.providerOf Crowded.plain)
        Crowded.pattern := by
  obtain ⟨commented, remarks, assigned⟩ := Crowded.facts
  exact ⟨commented, remarks, assigned, comments_change_nothing.1 _ _ commented "v",
    comments_change_nothing.2 _ _ _ Crowded.commentedFrom⟩

end ContainerAliases.Alias
