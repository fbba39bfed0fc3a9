import Mathlib.Data.List.Forall2

namespace ContainerAliases

universe u v

variable {ε α : Type u} {β : Type v} {f : β → Except ε α} {l : List β}

theorem isOk_iff {a : Except ε α} : a.isOk ↔ ∃ b, a = .ok b := by
  cases a <;> simp [Except.isOk, Except.toBool]

theorem bind_eq_ok_iff {γ : Type u} {a : Except ε α} {g : α → Except ε γ} {c : γ} :
    a.bind g = .ok c ↔ ∃ b, a = .ok b ∧ g b = .ok c := by
  cases a <;> simp [Except.bind]

theorem mapM_cons (f : β → Except ε α) (x : β) (l : List β) : (x :: l).mapM f =
    (f x).bind fun y => (l.mapM f).bind fun ys => .ok (y :: ys) := List.mapM_cons

theorem mapM_eq_ok_iff {ys : List α} :
    l.mapM f = .ok ys ↔ List.Forall₂ (fun x y => f x = .ok y) l ys := by
  induction l generalizing ys with
  | nil =>
    rw [List.forall₂_nil_left_iff, eq_comm (a := ys)]
    exact ⟨fun h => Except.ok.inj h, congrArg Except.ok⟩
  | cons x l ih =>
    rw [mapM_cons, bind_eq_ok_iff, List.forall₂_cons_left_iff]
    constructor
    · rintro ⟨y, hy, h⟩
      obtain ⟨ys, hys, h⟩ := bind_eq_ok_iff.1 h
      exact ⟨y, ys, hy, ih.1 hys, (Except.ok.inj h).symm⟩
    · rintro ⟨y, ys, hy, hys, rfl⟩
      exact ⟨y, hy, bind_eq_ok_iff.2 ⟨ys, ih.2 hys, rfl⟩⟩

theorem mapM_append_eq_ok_iff {l' : List β} {zs : List α} : (l ++ l').mapM f = .ok zs ↔
    ∃ xs ys, l.mapM f = .ok xs ∧ l'.mapM f = .ok ys ∧ zs = xs ++ ys := by
  have step : (l ++ l').mapM f = (l.mapM f).bind fun xs => (l'.mapM f).bind fun ys =>
      .ok (xs ++ ys) := List.mapM_append
  simp only [step, bind_eq_ok_iff, Except.ok.injEq, eq_comm (b := zs), exists_and_left]

theorem exists_of_mem_mapM {ys : List α} {y : α} (h : l.mapM f = .ok ys) (hy : y ∈ ys) :
    ∃ x ∈ l, f x = .ok y := by
  induction mapM_eq_ok_iff.1 h with
  | nil => cases hy
  | cons hx hs ih =>
    rcases List.mem_cons.1 hy with rfl | hy
    · exact ⟨_, List.mem_cons_self, hx⟩
    · obtain ⟨x, hx, h⟩ := ih (mapM_eq_ok_iff.2 hs) hy
      exact ⟨x, List.mem_cons_of_mem _ hx, h⟩

theorem mapM_eq_error_iff {e : ε} : l.mapM f = .error e ↔
    ∃ before x after, l = before ++ x :: after ∧ (∀ b ∈ before, (f b).isOk) ∧ f x = .error e := by
  induction l with
  | nil =>
    refine ⟨fun h => ?_, ?_⟩
    · cases h
    · rintro ⟨before, x, after, h, -⟩
      cases before <;> cases h
  | cons y l ih =>
    rw [mapM_cons]
    cases hy : f y with
    | error e' =>
      constructor
      · intro h
        exact ⟨[], y, l, rfl, by simp, hy.trans (congrArg _ (Except.error.inj h))⟩
      · rintro ⟨_ | ⟨b, before⟩, x, after, h, hb, hx⟩
        · cases h
          exact congrArg _ (Except.error.inj (hy.symm.trans hx))
        · cases h
          have := hb y (by simp)
          simp [hy, Except.isOk, Except.toBool] at this
    | ok z =>
      have rest : ((Except.ok z : Except ε α).bind fun y => (l.mapM f).bind fun ys =>
          .ok (y :: ys)) = .error e ↔ l.mapM f = .error e := by
        cases l.mapM f <;> simp [Except.bind]
      rw [rest, ih]
      constructor
      · rintro ⟨before, x, after, rfl, hb, hx⟩
        refine ⟨y :: before, x, after, rfl, fun b hm => ?_, hx⟩
        rcases List.mem_cons.1 hm with rfl | hm
        · exact isOk_iff.2 ⟨z, hy⟩
        · exact hb b hm
      · rintro ⟨_ | ⟨b, before⟩, x, after, h, hb, hx⟩
        · cases h
          rw [hy] at hx
          cases hx
        · cases h
          exact ⟨before, x, after, rfl, fun b hm => hb b (List.mem_cons_of_mem _ hm), hx⟩

theorem isOk_mapM_iff : (l.mapM f).isOk ↔ ∀ x ∈ l, (f x).isOk := by
  constructor
  · intro h x hx
    obtain ⟨ys, hys⟩ := isOk_iff.1 h
    obtain ⟨i, hi, rfl⟩ := List.mem_iff_getElem.1 hx
    obtain ⟨hl, hget⟩ := List.forall₂_iff_get.1 (mapM_eq_ok_iff.1 hys)
    exact isOk_iff.2 ⟨ys[i], hget i hi (hl ▸ hi)⟩
  · intro h
    cases hl : l.mapM f with
    | ok ys => rfl
    | error e =>
      obtain ⟨before, x, after, rfl, -, hx⟩ := mapM_eq_error_iff.1 hl
      obtain ⟨y, hy⟩ := isOk_iff.1 (h x (by simp))
      rw [hx] at hy
      cases hy

theorem mem_flatten_of_mapM {g : β → Except ε (List α)} {yss : List (List α)} {y : α}
    (h : l.mapM g = .ok yss) : y ∈ yss.flatten ↔ ∃ x ∈ l, ∃ ys, g x = .ok ys ∧ y ∈ ys := by
  induction mapM_eq_ok_iff.1 h with
  | nil => simp
  | cons hx hs ih => simp [← ih (mapM_eq_ok_iff.2 hs), hx]

end ContainerAliases
