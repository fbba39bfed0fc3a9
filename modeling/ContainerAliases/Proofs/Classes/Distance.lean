import ContainerAliases.Proofs.Classes.Order

namespace ContainerAliases.Classes

variable {α : Type} {decl : α → ClassDeclaration} {target : String} {a b : α}

/-- The distance of `a` from the target is `k`. What bears the target's name is at distance 0. All
else is one step further than what it extends or implements, if it is not nearer on another way. -/
def IsAt (decl : α → ClassDeclaration) (target : String) (k : Nat) (a : α) : Prop :=
  match k with
  | 0 => (decl a).name = target
  | k + 1 => (∀ j, j ≤ k → ¬ IsAt decl target j a) ∧
      (k = 0 ∧ (decl a).HasParent target ∨
        ∃ b, IsAt decl target k b ∧ (decl a).HasParent (decl b).name)
termination_by k

theorem isAt_zero_iff : IsAt decl target 0 a ↔ (decl a).name = target := by rw [IsAt]

theorem isAt_succ_iff {k : Nat} : IsAt decl target (k + 1) a ↔
    (∀ j, j ≤ k → ¬ IsAt decl target j a) ∧ (k = 0 ∧ (decl a).HasParent target ∨
      ∃ b, IsAt decl target k b ∧ (decl a).HasParent (decl b).name) := by rw [IsAt]

theorem reachedIn_zero_iff : ReachedIn decl target 0 a ↔ (decl a).name = target := by
  constructor
  · rintro (h | _ | _)
    exact h
  · exact .named

/-- The distance is the number of steps on a shortest way. -/
theorem isAt_iff_least {k : Nat} : IsAt decl target k a ↔
    ReachedIn decl target k a ∧ ∀ j < k, ¬ ReachedIn decl target j a := by
  induction k using Nat.strongRecOn generalizing a with
  | ind k ih =>
    cases k with
    | zero =>
      rw [isAt_zero_iff, reachedIn_zero_iff]
      simp
    | succ k =>
      have nearer : (∀ j, j ≤ k → ¬ IsAt decl target j a) ↔
          ∀ j < k + 1, ¬ ReachedIn decl target j a := by
        constructor
        · intro h j hj hr
          classical
          have hex : ∃ i, ReachedIn decl target i a := ⟨j, hr⟩
          have hle : Nat.find hex ≤ j := Nat.find_min' hex hr
          refine h (Nat.find hex) (by omega) ((ih _ (by omega)).2 ⟨Nat.find_spec hex, ?_⟩)
          exact fun i hi => Nat.find_min hex hi
        · intro h j hj hat
          exact h j (by omega) ((ih j (by omega)).1 hat).1
      rw [isAt_succ_iff, nearer, and_comm]
      refine and_congr_left fun hmin => ⟨?_, fun hr => ?_⟩
      · rintro (⟨rfl, hp⟩ | ⟨b, hb, hp⟩)
        · exact .direct hp
        · exact .step ((ih k (by omega)).1 hb).1 hp
      · cases hr with
        | direct hp => exact .inl ⟨rfl, hp⟩
        | @step _ _ b hb hp =>
          -- a shorter way to the parent would make one to `a`
          refine .inr ⟨b, (ih k (by omega)).2 ⟨hb, fun j hj hr => ?_⟩, hp⟩
          exact hmin (j + 1) (by omega) (.step hr hp)

theorem IsAt.descends {k : Nat} (h : IsAt decl target k a) : Descends decl target a :=
  (isAt_iff_least.1 h).1.descends

theorem Descends.exists_isAt (h : Descends decl target a) : ∃ k, IsAt decl target k a := by
  classical
  have hex := h.exists_reachedIn
  exact ⟨_, isAt_iff_least.2 ⟨Nat.find_spec hex, fun j hj => Nat.find_min hex hj⟩⟩

theorem IsAt.eq {k l : Nat} (hk : IsAt decl target k a) (hl : IsAt decl target l a) : k = l := by
  obtain ⟨hk, hkmin⟩ := isAt_iff_least.1 hk
  obtain ⟨hl, hlmin⟩ := isAt_iff_least.1 hl
  rcases Nat.lt_trichotomy k l with hlt | rfl | hgt
  · exact absurd hk (hlmin k hlt)
  · rfl
  · exact absurd hl (hkmin l hgt)

section Turn

variable {all : List α} {fqcn : String}

theorem name_ne_of_isAt {k : Nat} (h : IsAt decl target (k + 1) a) : (decl a).name ≠ target :=
  fun hn => (isAt_succ_iff.1 h).1 0 (Nat.zero_le k) (isAt_zero_iff.2 hn)

theorem hasParent_of_isAt_one (h : IsAt decl target 1 a) : (decl a).HasParent target := by
  rcases (isAt_succ_iff.1 h).2 with ⟨-, hp⟩ | ⟨b, hb, hp⟩
  · exact hp
  · rwa [isAt_zero_iff.1 hb] at hp

theorem not_hasParent_of_isAt {k : Nat} (h : IsAt decl target (k + 2) a) :
    ¬ (decl a).HasParent target := fun hp => by
  have hn := name_ne_of_isAt h
  refine (isAt_succ_iff.1 h).1 1 (by omega) (isAt_succ_iff.2 ⟨fun j hj hat => ?_, .inl ⟨rfl, hp⟩⟩)
  rw [Nat.le_zero.1 hj, isAt_zero_iff] at hat
  exact hn hat

theorem turn_of_isAt_one (h : IsAt decl (normalize fqcn) 1 a) : turn decl all fqcn a = 1 :=
  turn_eq_one (name_ne_of_isAt h) (hasParent_of_isAt_one h)

/-- What has an earlier turn is no further away. -/
theorem le_of_turn_le (hall : ∀ a, a ∈ all) {k l : Nat} (ha : IsAt decl (normalize fqcn) k a)
    (hb : IsAt decl (normalize fqcn) l b) (h : turn decl all fqcn a ≤ turn decl all fqcn b) :
    k ≤ l := by
  have mem : a ∈ hierarchy decl all fqcn := (mem_hierarchy_iff hall).2 ha.descends
  obtain ⟨j, hj, hr⟩ := exists_reachedIn_le hall (isAt_iff_least.1 hb).1 a mem h
  by_contra hlt
  exact (isAt_iff_least.1 ha).2 j (by omega) hr

def firstParentListed (decl : α → ClassDeclaration) (all : List α) (fqcn : String) (a : α) : Nat :=
  (hierarchy decl all fqcn).findIdx fun b => decide ((decl a).HasParent (decl b).name)

theorem hasParent_of_firstParentListed {c : α}
    (hc : (hierarchy decl all fqcn)[firstParentListed decl all fqcn a]? = some c) :
    (decl a).HasParent (decl c).name := by
  obtain ⟨h, rfl⟩ := List.getElem?_eq_some_iff.1 hc
  exact of_decide_eq_true (List.findIdx_getElem (w := h))

theorem firstParentListed_le {c : α} {i : Nat} (hc : (hierarchy decl all fqcn)[i]? = some c)
    (hp : (decl a).HasParent (decl c).name) : firstParentListed decl all fqcn a ≤ i := by
  obtain ⟨h, rfl⟩ := List.getElem?_eq_some_iff.1 hc
  by_contra hlt
  exact absurd hp (of_decide_eq_false (List.not_of_lt_findIdx (Nat.lt_of_not_le hlt)))

theorem firstParentListed_eq_iff {c d : α}
    (hc : (hierarchy decl all fqcn)[firstParentListed decl all fqcn a]? = some c)
    (hd : (hierarchy decl all fqcn)[firstParentListed decl all fqcn b]? = some d) :
    firstParentListed decl all fqcn a = firstParentListed decl all fqcn b ↔
      (decl c).name = (decl d).name := by
  constructor
  · intro h
    rw [h, hd, Option.some.injEq] at hc
    rw [hc]
  · intro h
    exact Nat.le_antisymm (firstParentListed_le hd (h ▸ hasParent_of_firstParentListed hc))
      (firstParentListed_le hc (h ▸ hasParent_of_firstParentListed hd))

def named (decl : α → ClassDeclaration) (target : String) (all : List α) : List α :=
  all.filter fun a => (decl a).name == target

theorem hierarchy_eq_append (all : List α) (fqcn : String) :
    hierarchy decl all fqcn = named decl (normalize fqcn) all ++ found decl all fqcn := rfl

/-- Where the target is no parent, the search takes names as the list goes on. -/
theorem firstParentListed_eq (hn : (decl a).name ≠ normalize fqcn)
    (hp : ¬ (decl a).HasParent (normalize fqcn)) : firstParentListed decl all fqcn a + 2 =
      turn decl all fqcn a + (named decl (normalize fqcn) all).length := by
  have none_named : (named decl (normalize fqcn) all).findIdx
      (fun b => decide ((decl a).HasParent (decl b).name)) =
        (named decl (normalize fqcn) all).length := by
    refine List.findIdx_eq_length_of_false fun b hb => ?_
    have name : (decl b).name = normalize fqcn := by simpa using (List.mem_filter.1 hb).2
    rwa [decide_eq_false_iff_not, name]
  have same : (decl a).descendsFrom ∘ (fun b => (decl b).name) =
      fun b => decide ((decl a).HasParent (decl b).name) := by
    funext b
    rw [Function.comp_apply, Bool.eq_iff_iff, decide_eq_true_iff,
      ClassDeclaration.descendsFrom_iff, normalize_name]
  have not_target : (decl a).descendsFrom (normalize fqcn) = false := by
    rwa [Bool.eq_false_iff, Ne, ClassDeclaration.descendsFrom_iff, normalize_normalize]
  rw [firstParentListed, hierarchy_eq_append, List.findIdx_append, none_named,
    if_neg (Nat.lt_irrefl _), turn, if_neg hn, turns, firstParent_cons, not_target,
    if_neg Bool.false_ne_true, firstParent, List.findIdx_map, same]
  omega

theorem turn_hierarchy_mono {i j : Nat} (hij : i ≤ j) (hj : j < (hierarchy decl all fqcn).length) :
    turn decl all fqcn (hierarchy decl all fqcn)[i] ≤
      turn decl all fqcn (hierarchy decl all fqcn)[j] := by
  rcases Nat.eq_or_lt_of_le hij with rfl | hlt
  · exact Nat.le_refl _
  · have sorted : (hierarchy decl all fqcn).Pairwise _ :=
      pairwise_hierarchy (List.pairwise_of_forall fun _ _ => trivial) fqcn
    have := List.pairwise_iff_getElem.1 sorted i j (Nat.lt_trans hlt hj) hj hlt
    omega

/-- The parent that is listed first is one step nearer. -/
theorem exists_firstParentListed (hall : ∀ a, a ∈ all) {k : Nat}
    (h : IsAt decl (normalize fqcn) (k + 2) a) :
    ∃ b, (hierarchy decl all fqcn)[firstParentListed decl all fqcn a]? = some b ∧
      (decl a).HasParent (decl b).name ∧ IsAt decl (normalize fqcn) (k + 1) b := by
  obtain ⟨hmin, ⟨hk, -⟩ | ⟨b, hb, hp⟩⟩ := isAt_succ_iff.1 h
  · omega
  obtain ⟨n, hn, rfl⟩ := List.getElem_of_mem ((mem_hierarchy_iff hall).2 hb.descends)
  have le : firstParentListed decl all fqcn a ≤ n :=
    firstParentListed_le (List.getElem?_eq_getElem hn) hp
  have lt : firstParentListed decl all fqcn a < (hierarchy decl all fqcn).length :=
    Nat.lt_of_le_of_lt le hn
  have here := List.getElem?_eq_getElem lt
  have parent := hasParent_of_firstParentListed here
  refine ⟨_, here, parent, ?_⟩
  obtain ⟨l, hl⟩ := ((mem_hierarchy_iff hall).1 (List.getElem_mem lt)).exists_isAt
  have upper : l ≤ k + 1 := le_of_turn_le hall hl hb (turn_hierarchy_mono le hn)
  -- from a parent that is nearer `a` would be nearer as well
  have lower : k + 1 ≤ l := by
    by_contra hlt
    exact (isAt_iff_least.1 h).2 (l + 1) (by omega) (.step (isAt_iff_least.1 hl).1 parent)
  rwa [Nat.le_antisymm upper lower] at hl

end Turn

end ContainerAliases.Classes
