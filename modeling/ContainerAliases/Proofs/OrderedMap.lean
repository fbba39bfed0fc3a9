import ContainerAliases.OrderedMap
import Mathlib.Data.List.Forall2

namespace ContainerAliases.OrderedMap

universe u v

variable {κ : Type u} {ν : Type v} [Ord κ]

/-- The value that is bound to `j` first in a list of bindings. -/
def lookup (j : κ) (l : List (κ × ν)) : Option ν :=
  (l.find? fun b => compare j b.1 == .eq).map Prod.snd

@[simp] theorem lookup_nil (j : κ) : lookup j ([] : List (κ × ν)) = none := rfl

@[simp] theorem get?_empty (j : κ) : (∅ : OrderedMap κ ν).get? j = none := rfl

theorem ext_toList {m n : OrderedMap κ ν} (h : m.toList = n.toList) : m = n := by
  cases m
  cases n
  simpa using h

theorem map_fst_put {μ : Type v} (k : κ) (v : ν) (w : μ) {l : List (κ × ν)} {l' : List (κ × μ)}
    (h : l.map Prod.fst = l'.map Prod.fst) :
    (put k v l).map Prod.fst = (put k w l').map Prod.fst := by
  induction l generalizing l' with
  | nil =>
    rw [List.map_nil, eq_comm, List.map_eq_nil_iff] at h
    subst h
    rfl
  | cons b l ih =>
    cases l' with
    | nil => cases h
    | cons b' l' =>
      obtain ⟨hb, hl⟩ := List.cons.inj h
      rw [put, put, ← show b.1 = b'.1 from hb]
      split
      · exact congrArg (k :: ·) h
      · exact congrArg (k :: ·) hl
      · rw [List.map_cons, List.map_cons, hb, ih hl]

theorem increasing_keys (m : OrderedMap κ ν) : m.keys.Pairwise fun a b => compare a b = .lt :=
  m.increasing.map _ fun _ _ h => h

def mapValues {μ : Type v} (f : ν → μ) (m : OrderedMap κ ν) : OrderedMap κ μ :=
  ⟨m.toList.map (Prod.map id f), m.increasing.map _ fun _ _ h => h⟩

theorem get?_mapValues {μ : Type v} (f : ν → μ) (m : OrderedMap κ ν) (j : κ) :
    (m.mapValues f).get? j = (m.get? j).map f := by
  rw [get?, get?, mapValues, List.find?_map, Option.map_map, Option.map_map]
  rfl

section LawfulEq

variable [Std.LawfulEqOrd κ] [DecidableEq κ]

theorem lookup_cons (j : κ) (b : κ × ν) (l : List (κ × ν)) :
    lookup j (b :: l) = if j = b.1 then some b.2 else lookup j l := by
  by_cases h : j = b.1
  · simp [lookup, h]
  · have hc : compare j b.1 ≠ .eq := fun he => h (Std.LawfulEqOrd.eq_of_compare he)
    simp [lookup, h, hc]

theorem lookup_put (k j : κ) (v : ν) (l : List (κ × ν)) :
    lookup j (put k v l) = if j = k then some v else lookup j l := by
  induction l with
  | nil => rw [put, lookup_cons]
  | cons c r ih =>
    rw [put]
    split
    · rw [lookup_cons]
    · next hk =>
      have hk : k = c.1 := Std.LawfulEqOrd.eq_of_compare hk
      rw [lookup_cons, lookup_cons, hk]
      split <;> rfl
    · next hk =>
      rw [lookup_cons, lookup_cons, ih]
      by_cases hj : j = c.1
      · have hne : j ≠ k := by
          rintro rfl
          simp [hj] at hk
        rw [if_pos hj, if_neg hne, if_pos hj]
      · simp [hj]

/-- In increasing order nothing is hidden by an earlier binding, so a filter acts on the answer. -/
theorem lookup_filter (p : κ → ν → Bool) (j : κ) {l : List (κ × ν)}
    (h : l.Pairwise fun a b => compare a.1 b.1 = .lt) :
    lookup j (l.filter fun b => p b.1 b.2) = (lookup j l).filter (p j) := by
  induction l with
  | nil => rfl
  | cons c r ih =>
    have ⟨hc, hr⟩ := List.pairwise_cons.1 h
    have hn : lookup c.1 r = none := by
      simp only [lookup, Option.map_eq_none_iff, List.find?_eq_none]
      intro b hb
      simp [hc b hb]
    rw [lookup_cons, List.filter_cons]
    by_cases hj : j = c.1
    · subst hj
      by_cases hp : p c.1 c.2
      · simp [hp, lookup_cons, Option.filter_some]
      · simp [hp, ih hr, hn, Option.filter_some]
    · by_cases hp : p c.1 c.2
      · simp [hp, lookup_cons, hj, ih hr]
      · simp [hp, hj, ih hr]

theorem get?_filter (m : OrderedMap κ ν) (p : κ → ν → Bool) (j : κ) :
    (m.filter p).get? j = (m.get? j).filter (p j) :=
  lookup_filter p j m.increasing

theorem get?_erase (m : OrderedMap κ ν) (k j : κ) :
    (m.erase k).get? j = if j = k then none else m.get? j := by
  have h : (m.erase k).get? j = (m.get? j).filter fun _ => compare k j != .eq :=
    lookup_filter (fun a _ => compare k a != .eq) j m.increasing
  rw [h]
  by_cases hj : j = k
  · cases m.get? j <;> simp [hj]
  · have hc : compare k j ≠ .eq := fun he => hj (Std.LawfulEqOrd.eq_of_compare he).symm
    cases m.get? j <;> simp [hj, hc]

theorem mem_toList_iff (m : OrderedMap κ ν) (k : κ) (v : ν) :
    (k, v) ∈ m.toList ↔ m.get? k = some v := by
  suffices ∀ l : List (κ × ν), (l.Pairwise fun a b => compare a.1 b.1 = .lt) →
      ((k, v) ∈ l ↔ lookup k l = some v) from this m.toList m.increasing
  intro l h
  induction l with
  | nil => simp
  | cons c r ih =>
    have ⟨hc, hr⟩ := List.pairwise_cons.1 h
    rw [List.mem_cons, lookup_cons, ih hr]
    by_cases hk : k = c.1
    · have hn : lookup k r ≠ some v := by
        intro hs
        have := hc (k, v) ((ih hr).2 hs)
        simp [hk] at this
      subst hk
      simp [hn, Prod.ext_iff, eq_comm]
    · simp [hk, Prod.ext_iff]

theorem mem_keys_iff (m : OrderedMap κ ν) (k : κ) : k ∈ m.keys ↔ m.contains k := by
  simp only [keys, List.mem_map, contains, Option.isSome_iff_exists]
  constructor
  · rintro ⟨b, hb, rfl⟩
    exact ⟨b.2, (mem_toList_iff m b.1 b.2).1 hb⟩
  · rintro ⟨v, hv⟩
    exact ⟨(k, v), (mem_toList_iff m k v).2 hv, rfl⟩

end LawfulEq

section Reflexive

variable [Std.ReflOrd κ]

theorem nodup_keys (m : OrderedMap κ ν) : m.keys.Nodup :=
  List.Pairwise.map Prod.fst (fun _ _ h e => by simp [e] at h) m.increasing

theorem nodup_toList (m : OrderedMap κ ν) : m.toList.Nodup :=
  m.increasing.imp fun h e => by simp [e] at h

end Reflexive

variable [Std.TransOrd κ]

theorem keys_insert {μ : Type v} {m : OrderedMap κ ν} {n : OrderedMap κ μ} (h : m.keys = n.keys)
    (k : κ) (v : ν) (w : μ) : (m.insert k v).keys = (n.insert k w).keys :=
  map_fst_put k v w h

variable [Std.LawfulEqOrd κ]

theorem get?_insert [DecidableEq κ] (m : OrderedMap κ ν) (k j : κ) (v : ν) :
    (m.insert k v).get? j = if j = k then some v else m.get? j :=
  lookup_put k j v m.toList

theorem contains_ofList [DecidableEq κ] (l : List (κ × ν)) (k : κ) :
    (ofList l).contains k ↔ k ∈ l.map Prod.fst := by
  suffices ∀ m : OrderedMap κ ν,
      (l.foldl (fun m b => m.insert b.1 b.2) m).contains k ↔ m.contains k ∨ k ∈ l.map Prod.fst by
    refine (this ∅).trans (or_iff_right ?_)
    simp [contains]
  intro m
  induction l generalizing m with
  | nil => simp
  | cons b l ih =>
    rw [List.foldl_cons, ih, List.map_cons, List.mem_cons, ← or_assoc]
    refine or_congr_left ?_
    rw [contains, get?_insert, contains]
    by_cases h : k = b.1 <;> simp [h]

/-- Strictly increasing lists with the same bindings are the same list. -/
theorem ext_get? [DecidableEq κ] {m n : OrderedMap κ ν} (h : ∀ k, m.get? k = n.get? k) :
    m = n := by
  have hp : m.toList.Perm n.toList := by
    refine (List.perm_ext_iff_of_nodup m.nodup_toList n.nodup_toList).2 fun b => ?_
    rw [mem_toList_iff m b.1 b.2, mem_toList_iff n b.1 b.2, h]
  refine ext_toList (List.Perm.eq_of_pairwise (fun a b _ _ hab hba => ?_) m.increasing
    n.increasing hp)
  exact absurd (Std.OrientedCmp.gt_of_lt hab) (by simp [hba])

theorem keys_congr [DecidableEq κ] {μ : Type v} {m : OrderedMap κ ν} {n : OrderedMap κ μ}
    (h : ∀ k, m.contains k = n.contains k) : m.keys = n.keys := by
  have hp : m.keys.Perm n.keys := by
    refine (List.perm_ext_iff_of_nodup m.nodup_keys n.nodup_keys).2 fun k => ?_
    rw [mem_keys_iff, mem_keys_iff, h]
  refine List.Perm.eq_of_pairwise (fun a b _ _ hab hba => ?_) m.increasing_keys n.increasing_keys hp
  exact absurd (Std.OrientedCmp.gt_of_lt hab) (by simp [hba])

/-- Maps with related values for the same keys list them in the same order. -/
theorem forall₂_toList [DecidableEq κ] {μ : Type v} {R : ν → μ → Prop} {m : OrderedMap κ ν}
    {n : OrderedMap κ μ} (h : ∀ k, Option.Rel R (m.get? k) (n.get? k)) :
    List.Forall₂ (fun a b => a.1 = b.1 ∧ R a.2 b.2) m.toList n.toList := by
  have keys : m.toList.map Prod.fst = n.toList.map Prod.fst := by
    refine keys_congr fun k => ?_
    have hk := h k
    rw [contains, contains]
    generalize m.get? k = v, n.get? k = w at hk
    cases hk <;> rfl
  have values : ∀ a ∈ m.toList, ∀ b ∈ n.toList, a.1 = b.1 → R a.2 b.2 := by
    intro a ha b hb hab
    have hr := h a.1
    rw [(mem_toList_iff m a.1 a.2).1 ha, (mem_toList_iff n a.1 b.2).1 (hab ▸ hb)] at hr
    cases hr with
    | some hr => exact hr
  have same : List.Forall₂ (fun a b => a.1 = b.1) m.toList n.toList := by
    rwa [← List.forall₂_eq_eq_eq, List.forall₂_map_left_iff, List.forall₂_map_right_iff] at keys
  rw [List.forall₂_iff_get] at same ⊢
  exact ⟨same.1, fun i hi hj =>
    ⟨same.2 i hi hj, values _ (List.get_mem ..) _ (List.get_mem ..) (same.2 i hi hj)⟩⟩

end ContainerAliases.OrderedMap
