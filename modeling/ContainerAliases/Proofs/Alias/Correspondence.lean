import ContainerAliases.Proofs.Alias.Collection
import ContainerAliases.Proofs.Alias.Descendants
import Mathlib.Data.List.Forall2

namespace ContainerAliases.Alias

variable {N M K : Type}

theorem rel_of_map_eq {f : N → K} {g : M → K} {a : Option N} {b : Option M}
    (h : a.map f = b.map g) :
    Option.Rel (fun x y => f x = g y) a b := by
  cases a with
  | none =>
    cases b with
    | none => exact .none
    | some y => cases h
  | some x =>
    cases b with
    | none => cases h
    | some y => exact .some (Option.some.inj h)

def ArrayElement.map (f : N → M) (e : ArrayElement N) : ArrayElement M := ⟨e.key.map f, f e.value⟩

def Entry.map (f : N → M) (e : Entry N) : Entry M := ⟨e.key, f e.value⟩

def Site.map (f : N → M) (s : Site N) : Site M := ⟨f s.declaration, s.array.map f⟩

variable [SyntaxNode N] [SyntaxNode M]

/-- All that is asked of a node has the same answer after the map, up to the map. -/
structure SyntaxNode.IsHom (f : N → M) : Prop where
  children (n : N) : children (f n) = (children n).map f
  next (n : N) : next (f n) = (next n).map f
  isArray (n : N) : isArray (f n) = isArray n
  isString (n : N) : isString (f n) = isString n
  literal (n : N) : literal (f n) = literal n
  declares (n : N) : declares (f n) = declares n
  elements (n : N) : elements (f n) = (elements n).map (ArrayElement.map f)

namespace SyntaxNode.IsHom

variable {f : N → M} (hf : SyntaxNode.IsHom f)
include hf

theorem descendants (n : N) : SyntaxNode.descendants (f n) = (SyntaxNode.descendants n).map f := by
  have below : ∀ c ∈ SyntaxNode.children n, (f c :: SyntaxNode.descendants (f c)) =
      (c :: SyntaxNode.descendants c).map f :=
    fun c hc => by rw [descendants c, List.map_cons]
  rw [SyntaxNode.descendants_eq, SyntaxNode.descendants_eq, hf.children, List.flatMap_map,
    List.map_flatMap]
  exact List.flatMap_congr below
termination_by SyntaxNode.size n
decreasing_by exact SyntaxNode.size_lt hc

theorem at? (target : String) (n : N) :
    Site.at? target (f n) = (Site.at? target n).map (.map f) := by
  have array : (SyntaxNode.next (f n)).filter SyntaxNode.isArray =
      ((SyntaxNode.next n).filter SyntaxNode.isArray).map f := by
    rw [hf.next]
    cases SyntaxNode.next n with
    | none => rfl
    | some m =>
      rw [Option.map_some, Option.filter_some, Option.filter_some, hf.isArray]
      split <;> rfl
  rw [Site.at?, Site.at?, hf.declares, array]
  split <;> rfl

theorem below (m : N) (target : String) :
    Site.below (f m) target = (Site.below m target).map (.map f) := by
  rw [Site.below_eq_filterMap, Site.below_eq_filterMap, hf.descendants, List.filterMap_map,
    List.map_filterMap]
  exact List.filterMap_congr fun n _ => hf.at? target n

theorem ofElement? (e : ArrayElement N) :
    Entry.ofElement? (e.map f) = (Entry.ofElement? e).map (.map f) := by
  rw [Entry.ofElement?, Entry.ofElement?, ArrayElement.map]
  cases e.key with
  | none => rfl
  | some k =>
    simp only [Option.map_some, Option.bind_eq_bind, Option.bind_some, hf.literal]
    cases SyntaxNode.literal k <;> rfl

theorem ofArray (a : N) : Entry.ofArray (f a) = (Entry.ofArray a).map (.map f) := by
  rw [Entry.ofArray, Entry.ofArray, hf.elements, List.filterMap_map, List.map_filterMap]
  exact List.filterMap_congr fun e _ => hf.ofElement? e

theorem literalValues (a : N) : Alias.literalValues (f a) = Alias.literalValues a := by
  rw [Alias.literalValues, Alias.literalValues, hf.elements, List.filterMap_map]
  exact List.filterMap_congr fun e _ => hf.literal e.value

theorem namesOf (v : N) : Alias.namesOf (f v) = Alias.namesOf v := by
  rw [Alias.namesOf, Alias.namesOf, contents?, contents?, hf.isString, hf.isArray, hf.literal,
    hf.literalValues]

end SyntaxNode.IsHom

def entriesIn (method : N) (target : String) : List (Entry N) :=
  (Site.below method target).flatMap fun site => site.array.toList.flatMap Entry.ofArray

theorem SyntaxNode.IsHom.entriesIn {f : N → M} (hf : SyntaxNode.IsHom f) (m : N) (target : String) :
    Alias.entriesIn (f m) target = (Alias.entriesIn m target).map (.map f) := by
  rw [Alias.entriesIn, Alias.entriesIn, hf.below, List.flatMap_map, List.map_flatMap]
  refine List.flatMap_congr fun site _ => ?_
  rw [Site.map, List.map_flatMap]
  cases site.array with
  | none => rfl
  | some a => simp [hf.ofArray]

theorem entriesIn_congr {m n : N} (h : SyntaxNode.children m = SyntaxNode.children n)
    (target : String) : entriesIn m target = entriesIn n target := by
  rw [entriesIn, Site.below, h]
  rfl

theorem Provider.entriesOf_eq (p : Provider N) (pattern : Pattern) (c : N) :
    p.entriesOf pattern c =
      (p.method c pattern.registerMethod).toList.flatMap (entriesIn · pattern.aliasesVariable) :=
  rfl

section Answers

variable {p : Provider N} {q : Provider M} {pattern pattern' : Pattern} {f : N → K} {g : M → K}

theorem Provider.map_entries_eq (h : List.Forall₂
      (fun c d => (p.entriesOf pattern c).map (Entry.map f) =
        (q.entriesOf pattern' d).map (Entry.map g))
      (p.classes pattern.baseClass) (q.classes pattern'.baseClass)) :
    (p.entries pattern).map (Entry.map f) = (q.entries pattern').map (Entry.map g) := by
  rw [entries_eq_flatMap, entries_eq_flatMap]
  generalize p.classes pattern.baseClass = cs, q.classes pattern'.baseClass = ds at h
  induction h with
  | nil => rfl
  | cons h _ ih => simp only [List.flatMap_cons, List.map_append, h, ih]

omit [SyntaxNode N] in
theorem foldl_keyVisit_map (es : List (Entry N)) (s : KeySet) :
    (es.map (Entry.map f)).foldl KeySet.visit s = es.foldl KeySet.visit s := List.foldl_map

theorem foldl_mapVisit_map [SyntaxNode K] (hf : SyntaxNode.IsHom f) (es : List (Entry N))
    (m : AliasMap) :
    (es.map (Entry.map f)).foldl AliasMap.visit m = es.foldl AliasMap.visit m := by
  have visit : (fun (m : AliasMap) (e : Entry N) => AliasMap.visit m (e.map f)) =
      AliasMap.visit := by
    funext m e
    rw [AliasMap.visit, Entry.map, hf.namesOf]
    rfl
  rw [List.foldl_map, visit]

theorem Provider.map_entriesOf_eq [SyntaxNode K] (hf : SyntaxNode.IsHom f) (hg : SyntaxNode.IsHom g)
    {c : N} {d : M} (h : (p.method c pattern.registerMethod).map f =
      (q.method d pattern'.registerMethod).map g)
    (hv : pattern.aliasesVariable = pattern'.aliasesVariable) :
    (p.entriesOf pattern c).map (Entry.map f) = (q.entriesOf pattern' d).map (Entry.map g) := by
  rw [entriesOf_eq, entriesOf_eq, hv]
  have same := rel_of_map_eq h
  generalize p.method c pattern.registerMethod = m, q.method d pattern'.registerMethod = n at same
  cases same with
  | none => rfl
  | some same =>
    simp only [Option.toList_some, List.flatMap_singleton, ← hf.entriesIn, ← hg.entriesIn, same]

theorem Provider.aliases_eq [SyntaxNode K] (hf : SyntaxNode.IsHom f) (hg : SyntaxNode.IsHom g)
    (h : (p.entries pattern).map (Entry.map f) = (q.entries pattern').map (Entry.map g)) :
    p.aliasMap pattern = q.aliasMap pattern' ∧ p.aliasKeys pattern = q.aliasKeys pattern' := by
  constructor
  · rw [aliasMap, aliasMap, visit_eq_foldl, visit_eq_foldl, ← foldl_mapVisit_map hf, h,
      foldl_mapVisit_map hg]
  · rw [aliasKeys, aliasKeys, visit_eq_foldl, visit_eq_foldl, ← foldl_keyVisit_map (f := f), h,
      foldl_keyVisit_map]

end Answers

end ContainerAliases.Alias
