import ContainerAliases.Cache.Snapshot
import ContainerAliases.Proofs.Alias.Collection

namespace ContainerAliases.Alias

variable {N : Type} [SyntaxNode N]

/-- The names that are registered by a value. -/
inductive Registers (v : N) : List String → Prop where
  | text {s : String} (quoted : SyntaxNode.isString v) (hs : SyntaxNode.literal v = some s)
      (hb : ¬ Text.allBlank s) : Registers v [s]
  /-- A blank text, or one that cannot be told, registers nothing. -/
  | blank (quoted : SyntaxNode.isString v)
      (hs : ∀ s, SyntaxNode.literal v = some s → Text.allBlank s) : Registers v []
  | array (unquoted : ¬ SyntaxNode.isString v) (ha : SyntaxNode.isArray v) :
      Registers v ((SyntaxNode.elements v).filterMap fun e => SyntaxNode.literal e.value)
  | other (unquoted : ¬ SyntaxNode.isString v) (ha : ¬ SyntaxNode.isArray v) : Registers v []

theorem registers_namesOf (v : N) : Registers v (namesOf v) := by
  unfold namesOf
  split
  · next quoted =>
    cases hc : contents? v with
    | some s =>
      obtain ⟨hs, hb⟩ := Option.filter_eq_some_iff.1 hc
      exact .text quoted hs (by simpa using hb)
    | none =>
      refine .blank quoted fun s hs => ?_
      have := Option.filter_eq_none_iff.1 hc s hs
      simpa using this
  · next unquoted =>
    split
    · next ha => exact .array unquoted ha
    · next ha => exact .other unquoted ha

theorem keys_foldl_visit (es : List (Entry N)) {m : AliasMap} {s : KeySet} (h : m.keys = s.keys) :
    (es.foldl AliasMap.visit m).keys = (es.foldl KeySet.visit s).keys := by
  induction es generalizing m s with
  | nil => exact h
  | cons e es ih => exact ih (OrderedMap.keys_insert h e.key (namesOf e.value) ())

namespace Provider

theorem keys_aliasMap (p : Provider N) (pattern : Pattern) :
    (p.aliasMap pattern).keys = (p.aliasKeys pattern).keys := by
  rw [aliasMap, aliasKeys, visit_eq_foldl, visit_eq_foldl]
  exact keys_foldl_visit (p.entries pattern) rfl

theorem contains_aliasMap_iff (p : Provider N) (pattern : Pattern) (k : String) :
    (p.aliasMap pattern).contains k ↔ ∃ e ∈ p.entries pattern, e.key = k := by
  rw [OrderedMap.contains, get?_aliasMap, Option.isSome_map, List.find?_isSome]
  simp

theorem get?_aliasMap_of_last {p : Provider N} {pattern : Pattern} {es es' : List (Entry N)}
    {e : Entry N} (h : p.entries pattern = es ++ e :: es') (last : ∀ e' ∈ es', e'.key ≠ e.key) :
    (p.aliasMap pattern).get? e.key = some (namesOf e.value) := by
  have none_later : es'.reverse.find? (fun e' => e'.key == e.key) = none := by
    simpa using last
  rw [get?_aliasMap, h, List.reverse_append, List.reverse_cons, List.find?_append,
    List.find?_append, none_later]
  simp

/-- What the ways of collecting aliases have in common. -/
structure Agreement (p : Provider N) (pattern : Pattern) : Prop where
  visits : ∀ {σ : Type} (v : Visitor N σ) (s : σ),
    p.visit pattern v s = (p.entries pattern).foldl v s
  keys : ∀ k, (p.aliasMap pattern).contains k ↔ ∃ e ∈ p.entries pattern, e.key = k
  last : ∀ es e es', p.entries pattern = es ++ e :: es' → (∀ e' ∈ es', e'.key ≠ e.key) →
    ∃ names, (p.aliasMap pattern).get? e.key = some names ∧ Registers e.value names
  keySet : (p.aliasKeys pattern).keys = (p.aliasMap pattern).keys
  snapshot : ∀ (t : Tracked N) (changes : Nat), t.toProvider = p → t.pattern = pattern →
    (Snapshot.take t changes).index = ⟨p.aliasMap pattern, p.aliasKeys pattern⟩

/-- However aliases are collected, the same entries are visited in the same order, and a key means
what its last entry says. -/
theorem collections_agree (p : Provider N) (pattern : Pattern) : Agreement p pattern where
  visits := p.visit_eq_foldl pattern
  keys := p.contains_aliasMap_iff pattern
  last _ e _ h last := ⟨namesOf e.value, get?_aliasMap_of_last h last, registers_namesOf e.value⟩
  keySet := (p.keys_aliasMap pattern).symm
  snapshot t _ hp hq := by
    subst hp hq
    exact aliasIndex_eq t.toProvider t.pattern

end Provider

end ContainerAliases.Alias
