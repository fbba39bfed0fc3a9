import ContainerAliases.Proofs.Cache.Settled
import Mathlib.Data.List.Perm.Basic

/-!
Threads that share a cache. A lock guards the directory of the slots, and each slot has a lock of
its own: a thread first looks up the slot of its root, and later it does its step inside. It may be
overtaken in between. All the same the steps come to what they do one after the other, in the order
in which they take the locks of the slots.
-/

namespace ContainerAliases.Cache

open Alias Disk

/-- A cache as threads see it. -/
structure Memory where
  /-- Where the slot of a root is. -/
  directory : OrderedMap Route Nat
  slots : List (Option Held)
  hits : Nat
  misses : Nat
  inBounds {r : Route} {n : Nat} : directory.get? r = some n → n < slots.length
  distinct {r r' : Route} {n : Nat} :
    directory.get? r = some n → directory.get? r' = some n → r = r'

namespace Memory

def empty : Memory := ⟨∅, [], 0, 0, nofun, nofun⟩

def held (m : Memory) (n : Nat) : Option Held := m.slots[n]?.join

def heldAt (m : Memory) (r : Route) : Option Held := (m.directory.get? r).bind m.held

def write (m : Memory) (n : Nat) (h : Option Held) : Memory :=
  { m with
    slots := m.slots.set n h
    inBounds := fun hr => (List.length_set ..).symm ▸ m.inBounds hr }

def allot (m : Memory) (r : Route) : Memory :=
  { m with
    directory := m.directory.insert r m.slots.length
    slots := m.slots ++ [none]
    inBounds := by
      intro r' n hn
      rw [OrderedMap.get?_insert] at hn
      rw [List.length_append, List.length_singleton]
      split at hn
      · have := Option.some.inj hn
        omega
      · exact Nat.lt_succ_of_lt (m.inBounds hn)
    distinct := by
      intro r₁ r₂ n h₁ h₂
      rw [OrderedMap.get?_insert] at h₁ h₂
      split at h₁ <;> split at h₂
      · next e₁ e₂ => exact e₁.trans e₂.symm
      -- the new slot lies beyond all that were in the directory
      · exact absurd (m.inBounds h₂) (by have := Option.some.inj h₁; omega)
      · exact absurd (m.inBounds h₁) (by have := Option.some.inj h₂; omega)
      · exact m.distinct h₁ h₂ }

/-- The slot of a root, a new one if there was none. -/
def lookUp (m : Memory) (r : Route) : Nat × Memory :=
  match m.directory.get? r with
  | some n => (n, m)
  | none => (m.slots.length, m.allot r)

def enter (m : Memory) (n : Nat) (s : Step) : Entry × Memory :=
  match s with
  | @Step.request _ _ _ t =>
    match (m.held n).filter fun h => h.snapshot.shows t t.changes with
    | some h => (⟨s, some h, false⟩, { m with hits := m.hits + 1 })
    | none =>
      let h : Held := ⟨.take t t.changes, m.misses⟩
      (⟨s, some h, true⟩, { m.write n (some h) with misses := m.misses + 1 })
  | .invalidate _ => (⟨s, none, false⟩, m.write n none)
  | .isPopulated _ => (⟨s, none, false⟩, m)

variable {m : Memory} {r r' : Route} {n : Nat}

theorem heldAt_of_get? (hn : m.directory.get? r = some n) : m.heldAt r = m.held n := by
  rw [heldAt, hn]
  rfl

theorem heldAt_write (hn : m.directory.get? r' = some n) (h : Option Held) (r : Route) :
    (m.write n h).heldAt r = if r = r' then h else m.heldAt r := by
  cases hr : m.directory.get? r with
  | none =>
    have hne : r ≠ r' := by
      rintro rfl
      cases hr.symm.trans hn
    rw [if_neg hne, heldAt, heldAt, hr]
    exact congrArg (Option.bind · _) hr
  | some k =>
    rw [heldAt_of_get? (show (m.write n h).directory.get? r = some k from hr), heldAt_of_get? hr,
      held, held, write, List.getElem?_set]
    by_cases he : r = r'
    · obtain rfl : k = n := Option.some.inj (hr.symm.trans (he ▸ hn))
      rw [if_pos rfl, if_pos (m.inBounds hn), if_pos he]
      rfl
    · have hk : n ≠ k := fun hk => he (m.distinct hr (hk ▸ hn))
      rw [if_neg hk, if_neg he]

theorem held_allot (m : Memory) (r : Route) (n : Nat) : (m.allot r).held n = m.held n := by
  rw [held, held, allot, List.getElem?_append]
  split
  · rfl
  · next hn =>
    rw [List.getElem?_eq_none (Nat.le_of_not_lt hn)]
    cases n - m.slots.length <;> rfl

theorem heldAt_allot (hr : m.directory.get? r = none) (r' : Route) :
    (m.allot r).heldAt r' = m.heldAt r' := by
  have hd : (m.allot r).directory.get? r' =
      if r' = r then some m.slots.length else m.directory.get? r' :=
    OrderedMap.get?_insert ..
  have hh : (m.allot r).held = m.held := funext (m.held_allot r)
  rw [heldAt, heldAt, hd, hh]
  split
  · next he =>
    rw [he, hr, Option.bind_some, held, List.getElem?_eq_none (Nat.le_refl _)]
    rfl
  · rfl

/-- Looking a slot up does nothing to what is held. -/
theorem heldAt_lookUp (m : Memory) (r r' : Route) : (m.lookUp r).2.heldAt r' = m.heldAt r' := by
  rw [lookUp]
  split
  · rfl
  · next hr => exact heldAt_allot hr r'

theorem get?_lookUp (m : Memory) (r : Route) :
    (m.lookUp r).2.directory.get? r = some (m.lookUp r).1 := by
  rw [lookUp]
  split
  · next hr => exact hr
  · exact (OrderedMap.get?_insert ..).trans (if_pos rfl)

/-- A root keeps its slot for ever. -/
theorem get?_lookUp_of_get? (hn : m.directory.get? r' = some n) (r : Route) :
    (m.lookUp r).2.directory.get? r' = some n := by
  rw [lookUp]
  split
  · exact hn
  · next hr =>
    have hne : r' ≠ r := by
      rintro rfl
      cases hr.symm.trans hn
    exact (OrderedMap.get?_insert ..).trans ((if_neg hne).trans hn)

theorem directory_enter (m : Memory) (n : Nat) (s : Step) :
    (m.enter n s).2.directory = m.directory := by
  cases s with
  | request q t =>
    rw [enter]
    split <;> rfl
  | _ => rfl

/-- A cache that no other thread looks at. -/
def toCache (m : Memory) : Cache := ⟨m.directory.mapValues m.held, m.hits, m.misses⟩

theorem heldAt_toCache (m : Memory) (r : Route) : m.toCache.heldAt r = m.heldAt r := by
  rw [toCache, Cache.heldAt, OrderedMap.get?_mapValues, heldAt]
  cases m.directory.get? r <;> rfl

structure Agrees (m : Memory) (c : Cache) : Prop where
  heldAt : ∀ r, m.heldAt r = c.heldAt r
  hits : m.hits = c.hits
  misses : m.misses = c.misses

theorem agrees_toCache (m : Memory) : m.Agrees m.toCache :=
  ⟨fun r => (m.heldAt_toCache r).symm, rfl, rfl⟩

namespace Agrees

variable {c : Cache} {s : Step}

theorem lookUp (h : m.Agrees c) (r : Route) : (m.lookUp r).2.Agrees c := by
  refine ⟨fun r' => (m.heldAt_lookUp r r').trans (h.heldAt r'), ?_, ?_⟩
  · rw [← h.hits, Memory.lookUp]
    split <;> rfl
  · rw [← h.misses, Memory.lookUp]
    split <;> rfl

/-- Inside the slot of its root, a step does what it does to a cache. -/
theorem enter (h : m.Agrees c) (hn : m.directory.get? s.root.components = some n) :
    (m.enter n s).1 = s.entry c ∧ (m.enter n s).2.Agrees (s.apply c) := by
  cases s with
  | request q t =>
    have fresh : (m.held n).filter (fun h => h.snapshot.shows t t.changes) = c.fresh? t := by
      rw [← heldAt_of_get? hn, h.heldAt]
      rfl
    cases hf : c.fresh? t with
    | some x =>
      have hx := request_of_fresh? hf
      simp only [Memory.enter, fresh, hf, Step.entry, Step.given?, Step.computes, Step.apply, ask,
        hx]
      exact ⟨rfl, h.heldAt, congrArg (· + 1) h.hits, h.misses⟩
    | none =>
      have hx := request_of_fresh?_eq_none hf
      simp only [Memory.enter, fresh, hf, Step.entry, Step.given?, Step.computes, Step.apply, ask,
        hx, h.misses]
      refine ⟨rfl, fun r => ?_, h.hits, rfl⟩
      rw [heldAt_store, ← h.heldAt]
      exact heldAt_write hn _ r
  | invalidate root =>
    refine ⟨rfl, fun r => ?_, h.hits.trans (c.hits_invalidate root).symm,
      h.misses.trans (c.misses_invalidate root).symm⟩
    rw [Step.apply, heldAt_invalidate, ← h.heldAt]
    exact heldAt_write hn none r
  | isPopulated root => exact ⟨rfl, h⟩

/-- An invalidation that finds no slot has nothing to do. -/
theorem pass (h : m.Agrees c) (hs : s.isRequest = false)
    (hn : m.directory.get? s.root.components = none) :
    s.entry c = ⟨s, none, false⟩ ∧ m.Agrees (s.apply c) := by
  cases s with
  | request q t => cases hs
  | invalidate root =>
    refine ⟨rfl, fun r => ?_, h.hits.trans (c.hits_invalidate root).symm,
      h.misses.trans (c.misses_invalidate root).symm⟩
    rw [Step.apply, heldAt_invalidate, ← h.heldAt]
    split
    · next hr =>
      rw [hr, Memory.heldAt, show m.directory.get? root.components = none from hn]
      rfl
    · rfl
  | isPopulated root => exact ⟨rfl, h⟩

end Agrees

end Memory

/-- A thread that has looked up the slot for its step. -/
structure Client : Type 1 where
  step : Step
  slot : Nat

structure Threads : Type 1 where
  memory : Memory
  waiting : List Client
  /-- The steps that are done, in the order in which the slots were entered. -/
  log : List Entry

inductive Turn : Type 1 where
  /-- A thread begins and looks up its slot. -/
  | lookUp (s : Step)
  /-- The thread at this place among those that wait enters its slot. -/
  | enter (k : Nat)

def Turn.begun? : Turn → Option Step
  | lookUp s => some s
  | enter _ => none

namespace Threads

def start (m : Memory) : Threads := ⟨m, [], []⟩

/-- Only requests make slots. Any other step is done if there is none. -/
def lookUp (w : Threads) (s : Step) : Threads :=
  if s.isRequest then
    let (n, m) := w.memory.lookUp s.root.components
    { w with memory := m, waiting := w.waiting ++ [⟨s, n⟩] }
  else
    match w.memory.directory.get? s.root.components with
    | some n => { w with waiting := w.waiting ++ [⟨s, n⟩] }
    | none => { w with log := w.log ++ [⟨s, none, false⟩] }

def enter (w : Threads) (k : Nat) : Threads :=
  match w.waiting[k]? with
  | none => w
  | some x =>
    let (e, m) := w.memory.enter x.slot x.step
    ⟨m, w.waiting.eraseIdx k, w.log ++ [e]⟩

def apply (w : Threads) : Turn → Threads
  | .lookUp s => w.lookUp s
  | .enter k => w.enter k

def run (w : Threads) (turns : List Turn) : Threads := turns.foldl apply w

theorem run_concat (w : Threads) (turns : List Turn) (x : Turn) :
    w.run (turns ++ [x]) = (w.run turns).apply x :=
  List.foldl_append

def steps (w : Threads) : List Step := w.log.map Entry.step

/-- What the threads have come to is what one thread comes to that does their steps one after the
other in the cache `c`. -/
structure Linear (c : Cache) (w : Threads) : Prop where
  log : c.log w.steps = w.log
  agrees : w.memory.Agrees (c.after w.steps)
  /-- Meanwhile no root gets another slot. -/
  slot : ∀ x ∈ w.waiting, w.memory.directory.get? x.step.root.components = some x.slot

namespace Linear

variable {c : Cache} {w : Threads}

theorem start (m : Memory) : (start m).Linear m.toCache := ⟨rfl, m.agrees_toCache, nofun⟩

theorem done (h : w.Linear c) {s : Step} {e : Entry} (he : e = s.entry (c.after w.steps))
    {m : Memory} (hm : m.Agrees (s.apply (c.after w.steps))) {waiting : List Client}
    (hw : ∀ x ∈ waiting, m.directory.get? x.step.root.components = some x.slot) :
    (Threads.mk m waiting (w.log ++ [e])).Linear c := by
  have steps : (Threads.mk m waiting (w.log ++ [e])).steps = w.steps ++ [s] := by
    rw [Threads.steps, List.map_append, he]
    rfl
  refine ⟨?_, ?_, hw⟩
  · rw [steps, log_concat, h.log, he]
  · rw [steps, after_concat]
    exact hm

theorem lookUp (h : w.Linear c) (s : Step) : (w.lookUp s).Linear c := by
  unfold Threads.lookUp
  split
  · refine ⟨h.log, h.agrees.lookUp _, ?_⟩
    rw [List.forall_mem_append, List.forall_mem_singleton]
    exact ⟨fun x hx => Memory.get?_lookUp_of_get? (h.slot x hx) _, w.memory.get?_lookUp _⟩
  · next hs =>
    have hs : s.isRequest = false := by simpa using hs
    split
    · next n hn =>
      refine ⟨h.log, h.agrees, ?_⟩
      rw [List.forall_mem_append, List.forall_mem_singleton]
      exact ⟨h.slot, hn⟩
    · next hn =>
      obtain ⟨he, hm⟩ := h.agrees.pass hs hn
      exact h.done he.symm hm h.slot

theorem enter (h : w.Linear c) (k : Nat) : (w.enter k).Linear c := by
  unfold Threads.enter
  split
  · exact h
  · next x hx =>
    obtain ⟨he, hm⟩ := h.agrees.enter (h.slot x (List.mem_of_getElem? hx))
    refine h.done he hm fun y hy => ?_
    rw [Memory.directory_enter]
    exact h.slot y (List.mem_of_mem_eraseIdx hy)

theorem run (h : w.Linear c) (turns : List Turn) : (w.run turns).Linear c := by
  induction turns generalizing w with
  | nil => exact h
  | cons x turns ih =>
    cases x with
    | lookUp s => exact ih (h.lookUp s)
    | enter k => exact ih (h.enter k)

end Linear

def begun (turns : List Turn) : List Step := turns.filterMap Turn.begun?

theorem step_enter (m : Memory) (n : Nat) (s : Step) : (m.enter n s).1.step = s := by
  cases s with
  | request q t =>
    rw [Memory.enter]
    split <;> rfl
  | _ => rfl

theorem perm_apply (w : Threads) (x : Turn) :
    ((w.apply x).steps ++ (w.apply x).waiting.map Client.step).Perm
      (w.steps ++ w.waiting.map Client.step ++ x.begun?.toList) := by
  cases x with
  | lookUp s =>
    have waits (n : Nat) :
        (w.steps ++ (w.waiting ++ [Client.mk s n]).map Client.step).Perm
          (w.steps ++ w.waiting.map Client.step ++ [s]) := by
      rw [List.map_append, ← List.append_assoc]
      exact .refl _
    rw [apply, lookUp]
    split
    · exact waits _
    · split
      · exact waits _
      · rw [steps, List.map_append, List.append_assoc, List.append_assoc]
        exact List.perm_append_comm.append_left _
  | enter k =>
    rw [apply, enter]
    split
    · rw [Turn.begun?, Option.toList_none, List.append_nil]
    · next y hy =>
      obtain ⟨hk, rfl⟩ := List.getElem?_eq_some_iff.1 hy
      have perm := (List.getElem_cons_eraseIdx_perm hk).map Client.step
      rw [steps, List.map_append, List.append_assoc, List.map_singleton, step_enter, Turn.begun?,
        Option.toList_none, List.append_nil]
      exact perm.append_left _

theorem perm_begun (m : Memory) (turns : List Turn) :
    (((start m).run turns).steps ++ ((start m).run turns).waiting.map Client.step).Perm
      (begun turns) := by
  -- each turn begins one step at most, and it comes last
  induction turns using List.reverseRecOn with
  | nil => exact .nil
  | append_singleton turns x ih =>
    have begun_concat : begun (turns ++ [x]) = begun turns ++ x.begun?.toList := by
      rw [begun, List.filterMap_append]
      cases x <;> rfl
    rw [run_concat, begun_concat]
    exact (perm_apply _ x).trans (ih.append_right _)

theorem waiting_run_enter (w : Threads) :
    (w.run (List.replicate w.waiting.length (.enter 0))).waiting = [] := by
  generalize hn : w.waiting.length = n
  induction n generalizing w with
  | zero => exact List.length_eq_zero_iff.1 hn
  | succ n ih =>
    obtain ⟨x, xs, hw⟩ := List.exists_cons_of_length_eq_add_one hn
    have rest : (w.enter 0).waiting = xs := by rw [enter, hw]; rfl
    apply ih (w.enter 0)
    rw [rest]
    rw [hw] at hn
    exact Nat.succ.inj hn

/-- Discovery was run once for `r`, and what it has found was given to all of `n` requests. The rest
of what was counted is from other roots. -/
structure Once (r : Route) (m : Memory) (n : Nat) (w : Threads) : Prop where
  ran : w.log.countP (Entry.ranAt r) = 1
  given : ∃ h, ∀ e ∈ w.log, e.step.asks r → e.given = some h
  hits : w.memory.hits = m.hits + (n - 1) + w.log.countP fun e => e.isHit && !e.isAt r
  misses : w.memory.misses = m.misses + 1 + w.log.countP fun e => e.computed && !e.isAt r

/-- How often discovery was run for `r` since the threads have found its slot empty in `m`. -/
structure SingleFlight (r : Route) (m : Memory) (begun : List Step) (w : Threads) : Prop where
  ran_le : w.log.countP (Entry.ranAt r) ≤ begun.countP (Step.empties r) + 1
  /-- Without invalidations, the requests that are done so far share one snapshot. -/
  once : begun.countP (Step.empties r) = 0 → 0 < w.steps.countP (Step.asks r) →
    w.Once r m (w.steps.countP (Step.asks r))
  done : w.waiting = [] → w.steps.Perm begun
  all_once : w.waiting = [] → begun.countP (Step.empties r) = 0 → 0 < begun.countP (Step.asks r) →
    w.Once r m (begun.countP (Step.asks r))
  finishes : ∃ n, (w.run (List.replicate n (.enter 0))).waiting = []

theorem Linear.once {c : Cache} {w : Threads} {m : Memory} {r : Route} {σ : Stamp}
    (linear : w.Linear c) (start : m.Agrees c) (settled : Settled r σ c w.steps)
    (kept : w.steps.countP (Step.empties r) = 0) (asked : 0 < w.steps.countP (Step.asks r)) :
    w.Once r m (w.steps.countP (Step.asks r)) := by
  obtain ⟨s, hs, ha⟩ := List.countP_pos_iff.1 asked
  obtain ⟨e, he, rfl⟩ := List.mem_map.1 hs
  have shared := settled.shared kept
  rw [linear.log] at shared
  -- there was a request, so something is held
  obtain ⟨h, hh⟩ : ∃ h, (c.after w.steps).heldAt r = some h := by
    rw [← Option.isSome_iff_exists, ← shared e he ha]
    rw [← linear.log] at he
    obtain ⟨c', x, rfl⟩ := exists_entry_of_mem_log he
    exact (x.isSome_given? c').trans (Bool.and_eq_true_iff.1 ha).1
  have full : (c.after w.steps).fill r = 1 := by rw [fill, hh]; rfl
  have ran : w.log.countP (Entry.ranAt r) = 1 := by
    have lower := settled.fill_le
    have upper := settled.ran_le
    rw [linear.log, full] at lower upper
    omega
  have sum := countP_asks r c w.steps
  obtain ⟨hits, misses⟩ := counters_split r c w.steps
  rw [linear.log] at sum hits misses
  refine ⟨ran, ⟨h, fun e he ha => (shared e he ha).trans hh⟩, ?_, ?_⟩
  · rw [linear.agrees.hits, hits, start.hits]
    omega
  · rw [linear.agrees.misses, misses, start.misses, ran]

/-- However threads overtake each other: as long as the source at `r` stays as it is, discovery is
run once for it, and once more at most for each invalidation. -/
theorem discovery_runs_once {m : Memory} {r : Route} {σ : Stamp} {turns : List Turn}
    (vacant : m.heldAt r = none)
    (alike : ∀ s ∈ begun turns, s.asks r → s.stamp? = some σ) :
    SingleFlight r m (begun turns) ((start m).run turns) := by
  have linear := (Linear.start m).run turns
  have perm := perm_begun m turns
  generalize (start m).run turns = w at linear perm
  -- the steps that are done were begun, so they are alike as well
  have settled : Settled r σ m.toCache w.steps := by
    refine Cache.settled ((m.heldAt_toCache r).trans vacant) fun s hs => alike s ?_
    exact perm.subset (List.mem_append_left _ hs)
  have empties : w.steps.countP (Step.empties r) ≤ (begun turns).countP (Step.empties r) := by
    rw [← perm.countP_eq, List.countP_append]
    exact Nat.le_add_right ..
  have once (kept : (begun turns).countP (Step.empties r) = 0)
      (asked : 0 < w.steps.countP (Step.asks r)) : w.Once r m (w.steps.countP (Step.asks r)) :=
    linear.once m.agrees_toCache settled (by omega) asked
  have done (hw : w.waiting = []) : w.steps.Perm (begun turns) := by
    rwa [hw, List.map_nil, List.append_nil] at perm
  refine ⟨?_, once, done, fun hw kept asked => ?_, ⟨_, w.waiting_run_enter⟩⟩
  · have ran_le := settled.ran_le
    have fill_le : (m.toCache.after w.steps).fill r ≤ 1 := fill_le_one _ r
    rw [linear.log] at ran_le
    omega
  · rw [← (done hw).countP_eq] at asked ⊢
    exact once kept asked

namespace Overtaken

def source (root : String) (generation : Nat) : Tracked Source.Node where
  classes _ := []
  method _ _ := none
  root := .ofText root
  pattern := .standard
  generation := generation
  changes := 0

def shop : Tracked Source.Node := source "/shop" 1

def blog : Tracked Source.Node := source "/blog" 2

/-- The first thread looks up its slot, and the second takes the snapshot. An invalidation goes by
before the first enters, and a third comes after it. Others are at another root meanwhile. -/
def turns : List Turn :=
  [.lookUp (.request .map shop), .lookUp (.request .keys shop), .enter 1,
    .lookUp (.invalidate (.ofText "/shop/.")), .lookUp (.request .map blog), .enter 1, .enter 0,
    .lookUp (.request .keys shop), .enter 1, .enter 0, .lookUp (.isPopulated (.ofText "/blog")),
    .lookUp (.request .map blog), .enter 1, .enter 0]

end Overtaken

section

open Overtaken

theorem discovery_runs_once_overtaken :
    Memory.empty.heldAt shop.root.components = none ∧
    (∀ s ∈ begun turns, s.asks shop.root.components → s.stamp? = some shop.stamp) ∧
    Memory.empty.heldAt blog.root.components = none ∧
    (∀ s ∈ begun turns, s.asks blog.root.components → s.stamp? = some blog.stamp) ∧
    ((start .empty).run turns).log.map (fun e => (e.computed, e.given.map Held.ticket)) =
      [(true, some 0), (false, none), (true, some 1), (false, some 1), (true, some 2),
        (false, some 2), (false, none)] ∧
    SingleFlight shop.root.components .empty (begun turns) ((start .empty).run turns) ∧
    SingleFlight blog.root.components .empty (begun turns) ((start .empty).run turns) := by
  have vacant (r : Route) : Memory.empty.heldAt r = none := rfl
  have shop_alike : ∀ s ∈ begun turns, s.asks shop.root.components →
      s.stamp? = some shop.stamp := by
    decide +kernel
  have blog_alike : ∀ s ∈ begun turns, s.asks blog.root.components →
      s.stamp? = some blog.stamp := by
    decide +kernel
  exact ⟨vacant _, shop_alike, vacant _, blog_alike, by decide +kernel,
    discovery_runs_once (vacant _) shop_alike, discovery_runs_once (vacant _) blog_alike⟩

end

end Threads

end ContainerAliases.Cache
