import ContainerAliases.Alias.Collection
import ContainerAliases.Proofs.OrderedMap

namespace ContainerAliases.Alias

variable {N : Type} [SyntaxNode N]

theorem foldl_indexVisit (es : List (Entry N)) (i : AliasIndex) :
    es.foldl AliasIndex.visit i =
      ⟨es.foldl AliasMap.visit i.map, es.foldl KeySet.visit i.keys⟩ := by
  induction es generalizing i with
  | nil => rfl
  | cons e es ih => rw [List.foldl_cons, ih]; rfl

theorem Provider.aliasIndex_eq (p : Provider N) (pattern : Pattern) :
    p.aliasIndex pattern = ⟨p.aliasMap pattern, p.aliasKeys pattern⟩ := by
  simp only [aliasIndex, aliasMap, aliasKeys, visit_eq_foldl, foldl_indexVisit]

def Provider.entriesOf (p : Provider N) (pattern : Pattern) (c : N) : List (Entry N) :=
  (p.method c pattern.registerMethod).toList.flatMap fun m =>
    (Site.below m pattern.aliasesVariable).flatMap fun site =>
      site.array.toList.flatMap Entry.ofArray

theorem Provider.entries_eq_flatMap (p : Provider N) (pattern : Pattern) :
    p.entries pattern = (p.classes pattern.baseClass).flatMap (p.entriesOf pattern) := rfl

theorem get?_foldl_mapVisit (es : List (Entry N)) (m : AliasMap) (k : String) :
    (es.foldl AliasMap.visit m).get? k =
      ((es.reverse.find? fun e => e.key == k).map fun e => namesOf e.value).or (m.get? k) := by
  induction es generalizing m with
  | nil => simp
  | cons e es ih =>
    rw [List.foldl_cons, ih, List.reverse_cons, List.find?_append, AliasMap.visit,
      OrderedMap.get?_insert]
    cases es.reverse.find? fun e => e.key == k with
    | some e' => simp
    | none =>
      by_cases hk : e.key = k
      · simp [hk]
      · simp [hk, Ne.symm hk]

/-- The last entry with the key decides. -/
theorem Provider.get?_aliasMap (p : Provider N) (pattern : Pattern) (k : String) :
    (p.aliasMap pattern).get? k =
      ((p.entries pattern).reverse.find? fun e => e.key == k).map fun e => namesOf e.value := by
  rw [aliasMap, visit_eq_foldl, get?_foldl_mapVisit]
  simp

theorem Provider.exists_get?_aliasMap {p : Provider N} {pattern : Pattern}
    {es₁ es₂ : List (Entry N)} (h : p.entries pattern = es₁ ++ es₂) {e : Entry N} (he : e ∈ es₂) :
    ∃ e' ∈ es₂, e'.key = e.key ∧ (p.aliasMap pattern).get? e.key = some (namesOf e'.value) := by
  have hs : (es₂.reverse.find? fun e' => e'.key == e.key).isSome := by
    rw [List.find?_isSome]
    exact ⟨e, List.mem_reverse.2 he, beq_self_eq_true e.key⟩
  obtain ⟨e', hf⟩ := Option.isSome_iff_exists.1 hs
  refine ⟨e', List.mem_reverse.1 (List.mem_of_find?_eq_some hf), ?_, ?_⟩
  · simpa using List.find?_some hf
  · rw [get?_aliasMap, h, List.reverse_append, List.find?_append, hf]
    rfl

end ContainerAliases.Alias
