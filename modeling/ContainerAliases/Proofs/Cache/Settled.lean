import ContainerAliases.Proofs.Cache.History

namespace ContainerAliases.Cache

open Alias Disk

namespace Step

def asks (r : Route) (s : Step) : Bool := s.isRequest && s.root.components == r

def empties (r : Route) (s : Step) : Bool := s.isInvalidation && s.root.components == r

variable {c : Cache} {r : Route} {σ : Stamp} {s : Step}

theorem concerns_eq (r : Route) (s : Step) : s.concerns r = (s.asks r || s.empties r) :=
  Bool.and_or_distrib_right ..

theorem isRequest_of_asks (h : s.asks r) : s.isRequest := (Bool.and_eq_true_iff.1 h).1

theorem isRequest_of_empties (h : s.empties r) : s.isRequest = false := by
  cases s with
  | request q t => cases h
  | _ => rfl

theorem computes_of_not_isRequest (h : s.isRequest = false) : s.computes c = false := by
  cases s with
  | request q t => cases h
  | _ => rfl

/-- A request is given what is held, and otherwise discovery is run for it. -/
theorem answer_of_asks (hs : s.asks r) (hσ : s.stamp? = some σ)
    (hc : ∀ h, c.heldAt r = some h → h.snapshot.stamp = σ) :
    s.computes c = (c.heldAt r).isNone ∧ ∀ h, c.heldAt r = some h → s.given? c = some h := by
  cases s with
  | request q t =>
    have hr : t.root.components = r := by simpa [asks, isRequest, root] using hs
    have hσ : t.stamp = σ := Option.some.inj hσ
    have fresh : c.fresh? t = c.heldAt r := by
      ext h
      rw [fresh?_eq_some_iff, hr, hσ]
      exact and_iff_left_of_imp (hc h)
    refine ⟨congrArg Option.isNone fresh, fun h hh => ?_⟩
    rw [given?, request_of_fresh? (fresh.trans hh)]
  | _ => cases hs

end Step

namespace Entry

def isAt (r : Route) (e : Entry) : Bool := e.step.root.components == r

def ranAt (r : Route) (e : Entry) : Bool := e.computed && e.isAt r

end Entry

theorem exists_entry_of_mem_log {c : Cache} {steps : List Step} {e : Entry} (he : e ∈ c.log steps) :
    ∃ c' s, e = Step.entry c' s := by
  induction steps generalizing c with
  | nil => cases he
  | cons s steps ih =>
    rcases List.mem_cons.1 he with rfl | he
    · exact ⟨c, s, rfl⟩
    · exact ih he

def fill (c : Cache) (r : Route) : Nat := if (c.heldAt r).isSome then 1 else 0

theorem fill_le_one (c : Cache) (r : Route) : c.fill r ≤ 1 := by
  unfold fill
  split <;> omega

section

variable {r : Route} {σ : Stamp} {c : Cache} {s : Step}

theorem heldAt_apply_of_asks (c : Cache) (hs : s.asks r) :
    (s.apply c).heldAt r = s.given? c := by
  apply Step.heldAt_apply_of_concerns
  rw [Step.concerns_eq, hs, Bool.true_or]

theorem fill_apply (c : Cache) (s : Step) (r : Route) :
    (s.apply c).fill r = if s.asks r then 1 else if s.empties r then 0 else c.fill r := by
  rw [fill, Step.heldAt_apply, Step.concerns_eq]
  cases ha : s.asks r with
  | true => rw [Bool.true_or, if_pos rfl, Step.isSome_given?, Step.isRequest_of_asks ha]; rfl
  | false =>
    rw [Bool.false_or]
    cases he : s.empties r with
    | true => rw [if_pos rfl, Step.isSome_given?, Step.isRequest_of_empties he]; rfl
    | false => rfl

theorem ranAt_entry_of_not_asks (ha : s.asks r = false) : (s.entry c).ranAt r = false := by
  rw [Entry.ranAt, Entry.isAt, Step.entry]
  cases hr : s.isRequest with
  | false => rw [Step.computes_of_not_isRequest hr, Bool.false_and]
  | true =>
    rw [Step.asks, hr, Bool.true_and] at ha
    rw [ha, Bool.and_false]

section Alike

variable (hσ : s.asks r → s.stamp? = some σ)
    (hc : ∀ h, c.heldAt r = some h → h.snapshot.stamp = σ)
include hσ hc

theorem stamp_heldAt_apply :
    ∀ h, (s.apply c).heldAt r = some h → h.snapshot.stamp = σ := by
  intro h hh
  rw [Step.heldAt_apply] at hh
  split at hh
  · next hs =>
    have stamp := s.map_stamp_given? c
    have isRequest := s.isSome_given? c
    rw [hh] at stamp isRequest
    have asks : s.asks r := by
      rw [Step.concerns, ← isRequest] at hs
      rw [Step.asks, ← isRequest]
      simpa using hs
    exact Option.some.inj (stamp.trans (hσ asks))
  · exact hc h hh

/-- Discovery is run for a request that finds the slot empty. -/
theorem ran_add_fill :
    (if (s.entry c).ranAt r then 1 else 0) + c.fill r = if s.asks r then 1 else c.fill r := by
  cases ha : s.asks r with
  | true =>
    have ranAt : (s.entry c).ranAt r = (c.heldAt r).isNone := by
      rw [Entry.ranAt, Entry.isAt, Step.entry, (Bool.and_eq_true_iff.1 ha).2, Bool.and_true,
        (Step.answer_of_asks ha (hσ ha) hc).1]
    rw [ranAt, fill]
    cases c.heldAt r <;> rfl
  | false =>
    rw [ranAt_entry_of_not_asks ha]
    exact Nat.zero_add _

theorem fill_apply_le :
    (s.apply c).fill r ≤ (if (s.entry c).ranAt r then 1 else 0) + c.fill r := by
  rw [ran_add_fill hσ hc, fill_apply]
  split
  · exact Nat.le_refl 1
  · split <;> omega

/-- Only an invalidation empties a slot. -/
theorem ran_add_fill_le :
    (if (s.entry c).ranAt r then 1 else 0) + c.fill r ≤
      (if s.empties r then 1 else 0) + (s.apply c).fill r := by
  have fill_le := c.fill_le_one r
  rw [ran_add_fill hσ hc, fill_apply]
  split
  · exact Nat.le_add_left ..
  · split <;> omega

theorem heldAt_apply_of_some (he : s.empties r = false) {h : Held} (hh : c.heldAt r = some h) :
    (s.apply c).heldAt r = some h := by
  rw [Step.heldAt_apply, Step.concerns_eq, he, Bool.or_false]
  split
  · next ha => exact (Step.answer_of_asks ha (hσ ha) hc).2 h hh
  · exact hh

end Alike

end

/-- The cache `c` after a run in which all requests at `r` were for the stamp. -/
structure Settled (r : Route) (σ : Stamp) (c : Cache) (steps : List Step) : Prop where
  stamp : ∀ h, (c.after steps).heldAt r = some h → h.snapshot.stamp = σ
  fill_le : (c.after steps).fill r ≤ (c.log steps).countP (Entry.ranAt r)
  ran_le : (c.log steps).countP (Entry.ranAt r) ≤
    steps.countP (Step.empties r) + (c.after steps).fill r
  shared : steps.countP (Step.empties r) = 0 →
    ∀ e ∈ c.log steps, e.step.asks r → e.given = (c.after steps).heldAt r

/-- One more step leaves it so, if it is no request at `r` for another stamp. -/
theorem Settled.concat {r : Route} {σ : Stamp} {c : Cache} {steps : List Step}
    (hc : Settled r σ c steps) {s : Step} (hσ : s.asks r → s.stamp? = some σ) :
    Settled r σ c (steps ++ [s]) := by
  obtain ⟨stamp, fill_le, ran_le, shared⟩ := hc
  have lower := fill_apply_le hσ stamp
  have upper := ran_add_fill_le hσ stamp
  rw [← after_concat] at lower upper
  have ran : (c.log (steps ++ [s])).countP (Entry.ranAt r) =
      (c.log steps).countP (Entry.ranAt r) +
        if (s.entry (c.after steps)).ranAt r then 1 else 0 := by
    rw [log_concat, List.countP_append, List.countP_singleton]
  have empties : (steps ++ [s]).countP (Step.empties r) =
      steps.countP (Step.empties r) + if s.empties r then 1 else 0 := by
    rw [List.countP_append, List.countP_singleton]
  refine ⟨?_, by omega, by omega, ?_⟩
  · rw [after_concat]
    exact stamp_heldAt_apply hσ stamp
  · -- what was given before is still held, as nothing has emptied the slot
    intro he e hm ha
    rw [empties, Nat.add_eq_zero_iff] at he
    have hs : s.empties r = false := by simpa using he.2
    rw [log_concat, List.mem_append, List.mem_singleton] at hm
    rw [after_concat]
    rcases hm with hm | rfl
    · obtain ⟨c', x, rfl⟩ := exists_entry_of_mem_log hm
      have given := shared he.1 _ hm ha
      have some : (x.given? c').isSome := (x.isSome_given? c').trans (Bool.and_eq_true_iff.1 ha).1
      obtain ⟨h, hh⟩ := Option.isSome_iff_exists.1 some
      rw [heldAt_apply_of_some hσ stamp hs (given.symm.trans hh)]
      exact hh
    · exact (heldAt_apply_of_asks _ ha).symm

theorem settled {r : Route} {σ : Stamp} {c : Cache} (vacant : c.heldAt r = none) {steps : List Step}
    (alike : ∀ s ∈ steps, s.asks r → s.stamp? = some σ) : Settled r σ c steps := by
  induction steps using List.reverseRecOn with
  | nil =>
    have hc : (c.after []).heldAt r = none := vacant
    refine ⟨?_, ?_, Nat.zero_le _, fun _ => nofun⟩
    · rw [hc]
      exact nofun
    · rw [fill, hc]
      exact Nat.le_refl 0
  | append_singleton steps s ih =>
    rw [List.forall_mem_append, List.forall_mem_singleton] at alike
    exact (ih alike.1).concat alike.2

theorem hit_or_ran (r : Route) (c : Cache) (s : Step) :
    (if s.asks r then 1 else 0) = (if (s.entry c).ranAt r then 1 else 0) +
      if (s.entry c).isHit && (s.entry c).isAt r then 1 else 0 := by
  have root : (s.entry c).isAt r = (s.root.components == r) := rfl
  rw [Step.asks, Entry.ranAt, root]
  cases s.root.components == r with
  | false => simp only [Bool.and_false, Bool.false_eq_true, if_false]
  | true =>
    have sum := isHit_or_computed c s
    simp only [Bool.and_true]
    omega

theorem countP_asks (r : Route) (c : Cache) (steps : List Step) :
    steps.countP (Step.asks r) = (c.log steps).countP (Entry.ranAt r) +
      (c.log steps).countP fun e => e.isHit && e.isAt r := by
  induction steps using List.reverseRecOn with
  | nil => rfl
  | append_singleton steps s ih =>
    have hs := hit_or_ran r (c.after steps) s
    rw [log_concat, List.countP_append, List.countP_append, List.countP_append, ih,
      List.countP_singleton, List.countP_singleton, List.countP_singleton]
    omega

theorem counters_split (r : Route) (c : Cache) (steps : List Step) :
    (c.after steps).hits = c.hits + (c.log steps).countP (fun e => e.isHit && e.isAt r) +
        (c.log steps).countP (fun e => e.isHit && !e.isAt r) ∧
      (c.after steps).misses = c.misses + (c.log steps).countP (Entry.ranAt r) +
        (c.log steps).countP (fun e => e.computed && !e.isAt r) := by
  have split (p : Entry → Bool) : (c.log steps).countP p =
      (c.log steps).countP (fun e => p e && e.isAt r) +
        (c.log steps).countP (fun e => p e && !e.isAt r) := by
    rw [← List.countP_filter, ← List.countP_filter]
    exact List.countP_eq_countP_filter_add ..
  obtain ⟨hits, misses⟩ := counters_after c steps
  rw [split Entry.isHit, ← Nat.add_assoc] at hits
  rw [split Entry.computed, ← Nat.add_assoc] at misses
  exact ⟨hits, misses⟩

end ContainerAliases.Cache
