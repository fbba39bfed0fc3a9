import ContainerAliases.Proofs.Classes.Descent

namespace ContainerAliases.Classes

variable {α : Type} {decl : α → ClassDeclaration} {R : α → α → Prop}

def firstParent (decl : α → ClassDeclaration) (names : List String) (a : α) : Nat :=
  names.findIdx (decl a).descendsFrom

theorem firstParent_cons (name : String) (names : List String) (a : α) :
    firstParent decl (name :: names) a =
      if (decl a).descendsFrom name then 0 else firstParent decl names a + 1 := by
  rw [firstParent, List.findIdx_cons]
  cases (decl a).descendsFrom name <;> rfl

theorem descendsFrom_of_mem_heirs {name : String} {all : List α} {a : α}
    (h : a ∈ heirs decl name all) : (decl a).descendsFrom name = true :=
  (List.mem_filter.1 h).2

theorem descendsFrom_of_mem_others {name : String} {all : List α} {a : α}
    (h : a ∈ others decl name all) : (decl a).descendsFrom name = false := by
  simpa using (List.mem_filter.1 h).2

theorem pairwise_descendants (queue : List String) {rest : List α} (h : rest.Pairwise R) :
    (descendants decl queue rest).Pairwise fun a b =>
      firstParent decl (taken decl queue rest) a < firstParent decl (taken decl queue rest) b ∨
      firstParent decl (taken decl queue rest) a = firstParent decl (taken decl queue rest) b ∧
        R a b := by
  fun_induction descendants decl queue rest with
  | case1 => exact .nil
  | case2 rest name queue ih =>
    -- the heirs of `name` have the first turn, all others one more than from the next name on
    have heir {a : α} (ha : a ∈ heirs decl name rest) :
        firstParent decl (taken decl (name :: queue) rest) a = 0 := by
      rw [taken_cons, firstParent_cons, if_pos (descendsFrom_of_mem_heirs ha)]
    have later {a : α} (ha : a ∈ descendants decl
        (queue ++ (heirs decl name rest).map fun a => (decl a).name) (others decl name rest)) :
        firstParent decl (taken decl (name :: queue) rest) a =
          firstParent decl (taken decl
            (queue ++ (heirs decl name rest).map fun a => (decl a).name)
            (others decl name rest)) a + 1 := by
      have ho := descendsFrom_of_mem_others (subset_descendants _ _ ha)
      rw [taken_cons, firstParent_cons, if_neg (by simp [ho])]
    refine List.pairwise_append.2 ⟨?_, ?_, ?_⟩
    · refine (h.filter _).imp_of_mem fun {a b} ha hb hab => .inr ⟨?_, hab⟩
      rw [heir ha, heir hb]
    · refine (ih (h.filter _)).imp_of_mem fun {a b} ha hb hab => ?_
      rw [later ha, later hb]
      exact hab.imp Nat.succ_lt_succ fun hr => ⟨congrArg (· + 1) hr.1, hr.2⟩
    · intro a ha b hb
      rw [heir ha, later hb]
      exact .inl (Nat.succ_pos _)

theorem exists_taken_of_mem_descendants {queue : List String} {rest : List α} {a : α}
    (h : a ∈ descendants decl queue rest) :
    ∃ n ∈ taken decl queue rest, (decl a).descendsFrom n := by
  fun_induction descendants decl queue rest with
  | case1 => simp at h
  | case2 rest name queue ih =>
    rw [taken_cons]
    rcases List.mem_append.1 h with h | h
    · exact ⟨name, List.mem_cons_self, descendsFrom_of_mem_heirs h⟩
    · obtain ⟨n, hn, hd⟩ := ih h
      exact ⟨n, List.mem_cons_of_mem name hn, hd⟩

def found (decl : α → ClassDeclaration) (all : List α) (fqcn : String) : List α :=
  descendants decl [normalize fqcn] (unnamed decl (normalize fqcn) all)

/-- The names that it takes: the target, then those of what it finds. -/
def turns (decl : α → ClassDeclaration) (all : List α) (fqcn : String) : List String :=
  normalize fqcn :: (found decl all fqcn).map fun a => (decl a).name

/-- The turn at which a member is listed. What bears the target's name comes before all turns. -/
def turn (decl : α → ClassDeclaration) (all : List α) (fqcn : String) (a : α) : Nat :=
  if (decl a).name = normalize fqcn then 0 else firstParent decl (turns decl all fqcn) a + 1

theorem turn_of_named {all : List α} {fqcn : String} {a : α}
    (h : (decl a).name = normalize fqcn) : turn decl all fqcn a = 0 := if_pos h

theorem name_ne_of_mem_found {all : List α} {fqcn : String} {a : α}
    (h : a ∈ found decl all fqcn) : (decl a).name ≠ normalize fqcn := by
  simpa using (List.mem_filter.1 (subset_descendants _ _ h)).2

theorem turn_of_mem_found {all : List α} {fqcn : String} {a : α}
    (h : a ∈ found decl all fqcn) :
    turn decl all fqcn a = firstParent decl (turns decl all fqcn) a + 1 :=
  if_neg (name_ne_of_mem_found h)

theorem mem_hierarchy_of_mem_found {all : List α} {fqcn : String} {a : α}
    (h : a ∈ found decl all fqcn) : a ∈ hierarchy decl all fqcn := mem_hierarchy.2 (.inr h)

theorem pairwise_hierarchy {all : List α} (h : all.Pairwise R) (fqcn : String) :
    (hierarchy decl all fqcn).Pairwise fun a b =>
      turn decl all fqcn a < turn decl all fqcn b ∨
      turn decl all fqcn a = turn decl all fqcn b ∧ R a b := by
  have named {a : α} (ha : a ∈ all.filter fun a => (decl a).name == normalize fqcn) :
      turn decl all fqcn a = 0 := turn_of_named (by simpa using (List.mem_filter.1 ha).2)
  refine List.pairwise_append.2 ⟨?_, ?_, ?_⟩
  · refine (h.filter _).imp_of_mem fun {a b} ha hb hab => .inr ⟨?_, hab⟩
    rw [named ha, named hb]
  · refine (pairwise_descendants _ (h.filter _)).imp_of_mem fun {a b} ha hb hab => ?_
    rw [turn_of_mem_found ha, turn_of_mem_found hb]
    exact hab.imp Nat.succ_lt_succ fun hr => ⟨congrArg (· + 1) hr.1, hr.2⟩
  · intro a ha b hb
    rw [named ha, turn_of_mem_found hb]
    exact .inl (Nat.succ_pos _)

/-- `a` can be reached from the target in so many steps down. -/
inductive ReachedIn (decl : α → ClassDeclaration) (target : String) : Nat → α → Prop where
  | named {a : α} (h : (decl a).name = target) : ReachedIn decl target 0 a
  | direct {a : α} (h : (decl a).HasParent target) : ReachedIn decl target 1 a
  | step {k : Nat} {a b : α} (hb : ReachedIn decl target k b)
      (h : (decl a).HasParent (decl b).name) : ReachedIn decl target (k + 1) a

theorem ReachedIn.descends {target : String} {k : Nat} {a : α}
    (h : ReachedIn decl target k a) : Descends decl target a := by
  induction h with
  | named h => exact .named h
  | direct h => exact .direct h
  | step _ h ih => exact .step ih h

theorem Descends.exists_reachedIn {target : String} {a : α} (h : Descends decl target a) :
    ∃ k, ReachedIn decl target k a := by
  induction h with
  | named h => exact ⟨0, .named h⟩
  | direct h => exact ⟨1, .direct h⟩
  | step _ h ih =>
    obtain ⟨k, hk⟩ := ih
    exact ⟨k + 1, .step hk h⟩

section Turn

variable {all : List α} {fqcn : String} {a b : α}

theorem normalize_of_mem_turns {n : String} (h : n ∈ turns decl all fqcn) : normalize n = n := by
  rcases List.mem_cons.1 h with rfl | h
  · exact normalize_normalize fqcn
  · obtain ⟨a, -, rfl⟩ := List.mem_map.1 h
    exact normalize_name (decl a)

theorem descendsFrom_turns {i : Nat} (hi : i < (turns decl all fqcn).length) :
    (decl a).descendsFrom (turns decl all fqcn)[i] ↔
      (decl a).HasParent (turns decl all fqcn)[i] := by
  rw [ClassDeclaration.descendsFrom_iff, normalize_of_mem_turns (List.getElem_mem hi)]

/-- A member is listed no later than at the turn of any of its parents. -/
theorem turn_le {i : Nat} (hi : i < (turns decl all fqcn).length)
    (hp : (decl a).HasParent (turns decl all fqcn)[i]) : turn decl all fqcn a ≤ i + 1 := by
  unfold turn
  split
  · exact Nat.zero_le _
  · refine Nat.succ_le_succ (Nat.le_of_not_lt fun hlt => ?_)
    have hn : (decl a).descendsFrom (turns decl all fqcn)[i] = false :=
      List.not_of_lt_findIdx hlt
    rw [(descendsFrom_turns hi).2 hp] at hn
    cases hn

theorem turn_le_one (all : List α) (h : (decl a).HasParent (normalize fqcn)) :
    turn decl all fqcn a ≤ 1 :=
  turn_le (i := 0) (Nat.succ_pos _) h

theorem turn_eq_one (hn : (decl a).name ≠ normalize fqcn)
    (hp : (decl a).HasParent (normalize fqcn)) : turn decl all fqcn a = 1 := by
  refine Nat.le_antisymm (turn_le_one all hp) ?_
  rw [turn, if_neg hn]
  exact Nat.succ_pos _

theorem turn_le_of_parent {i : Nat} (hi : i < (found decl all fqcn).length)
    (hp : (decl a).HasParent (decl (found decl all fqcn)[i]).name) :
    turn decl all fqcn a ≤ i + 2 :=
  turn_le (i := i + 1) (by simpa [turns] using hi) (by simpa [turns] using hp)

theorem exists_parent_of_mem_found (h : a ∈ found decl all fqcn) :
    ∃ i, ∃ hi : i < (turns decl all fqcn).length, turn decl all fqcn a = i + 1 ∧
      (decl a).HasParent (turns decl all fqcn)[i] := by
  have hex : ∃ n ∈ turns decl all fqcn, (decl a).descendsFrom n :=
    exists_taken_of_mem_descendants h
  have hi := List.findIdx_lt_length_of_exists hex
  exact ⟨_, hi, turn_of_mem_found h, (descendsFrom_turns hi).1 List.findIdx_getElem⟩

/-- The three ways to be listed. -/
theorem turn_cases (h : a ∈ hierarchy decl all fqcn) :
    (decl a).name = normalize fqcn ∧ turn decl all fqcn a = 0 ∨
    (decl a).HasParent (normalize fqcn) ∧ turn decl all fqcn a = 1 ∨
    ∃ i, ∃ hi : i < (found decl all fqcn).length, turn decl all fqcn a = i + 2 ∧
      (decl a).HasParent (decl (found decl all fqcn)[i]).name := by
  rcases mem_hierarchy.1 h with h | h
  · exact .inl ⟨h.2, turn_of_named h.2⟩
  · obtain ⟨i, hi, ht, hp⟩ := exists_parent_of_mem_found h
    cases i with
    | zero => exact .inr (.inl ⟨hp, ht⟩)
    | succ i =>
      have hl : i < (found decl all fqcn).length := by simpa [turns] using hi
      exact .inr (.inr ⟨i, hl, ht, by simpa [turns] using hp⟩)

theorem turn_found_mono {i m : Nat} (him : i ≤ m) (hm : m < (found decl all fqcn).length) :
    turn decl all fqcn (found decl all fqcn)[i] ≤ turn decl all fqcn (found decl all fqcn)[m] := by
  rcases Nat.eq_or_lt_of_le him with rfl | hlt
  · exact Nat.le_refl _
  · have hall : all.Pairwise fun _ _ => True := List.pairwise_of_forall fun _ _ => trivial
    have hp : (hierarchy decl all fqcn).Pairwise _ := pairwise_hierarchy hall fqcn
    have := List.pairwise_iff_getElem.1 (List.pairwise_append.1 hp).2.1 i m
      (Nat.lt_of_le_of_lt him hm) hm hlt
    exact this.elim Nat.le_of_lt fun h => Nat.le_of_eq h.1

/-- What is listed before `b`, or at the same turn, is reached in no more steps than `b`. -/
theorem exists_reachedIn_le (hall : ∀ a, a ∈ all) {k : Nat}
    (hb : ReachedIn decl (normalize fqcn) k b) :
    ∀ a ∈ hierarchy decl all fqcn, turn decl all fqcn a ≤ turn decl all fqcn b →
      ∃ j ≤ k, ReachedIn decl (normalize fqcn) j a := by
  induction hb with
  | named h =>
    intro a ha hle
    rw [turn_of_named h] at hle
    rcases turn_cases ha with ⟨hn, -⟩ | ⟨-, ht⟩ | ⟨i, hi, ht, -⟩
    · exact ⟨0, Nat.le_refl _, .named hn⟩
    all_goals omega
  | direct h =>
    intro a ha hle
    have := turn_le_one all h
    rcases turn_cases ha with ⟨hn, -⟩ | ⟨hp, -⟩ | ⟨i, hi, ht, -⟩
    · exact ⟨0, Nat.zero_le _, .named hn⟩
    · exact ⟨1, Nat.le_refl _, .direct hp⟩
    · omega
  | @step k b c hc h ih =>
    intro a ha hle
    rcases turn_cases ha with ⟨hn, -⟩ | ⟨hp, -⟩ | ⟨i, hi, ht, hp⟩
    · exact ⟨0, Nat.zero_le _, .named hn⟩
    · exact ⟨1, Nat.succ_le_succ (Nat.zero_le k), .direct hp⟩
    -- the parent through which `a` is listed stands no later than `c`, through which `b` may be
    · rcases mem_hierarchy.1 ((mem_hierarchy_iff hall).2 hc.descends) with hcn | hcf
      · have := turn_le_one all (hcn.2 ▸ h)
        omega
      · obtain ⟨m, hm, rfl⟩ := List.getElem_of_mem hcf
        have := turn_le_of_parent hm h
        obtain ⟨j, hj, hr⟩ := ih _ (mem_hierarchy_of_mem_found (List.getElem_mem hi))
          (turn_found_mono (by omega) hm)
        exact ⟨j + 1, Nat.succ_le_succ hj, .step hr hp⟩

end Turn

end ContainerAliases.Classes
