import ContainerAliases.Proofs.Cache.Slots
import ContainerAliases.Proofs.Session.Run
import Mathlib.Data.List.Induction

namespace ContainerAliases

open Alias Disk

/-- All that tells whether a snapshot still shows its source. -/
structure Stamp where
  generation : Nat
  changes : Nat
  pattern : Pattern
  deriving DecidableEq

def Alias.Tracked.stamp {N : Type} (t : Tracked N) : Stamp := ⟨t.generation, t.changes, t.pattern⟩

def Snapshot.stamp (s : Snapshot) : Stamp := ⟨s.generation, s.changes, s.pattern⟩

theorem Snapshot.shows_iff {N : Type} (s : Snapshot) (t : Tracked N) :
    s.shows t t.changes ↔ s.stamp = t.stamp := by
  simp [shows, stamp, Tracked.stamp, and_assoc]

namespace Cache

section Request

variable {N : Type} [SyntaxNode N]

omit [SyntaxNode N] in
theorem fresh?_eq_some_iff {c : Cache} {t : Tracked N} {h : Held} :
    c.fresh? t = some h ↔
      c.heldAt t.root.components = some h ∧ h.snapshot.stamp = t.stamp := by
  rw [fresh?, Option.filter_eq_some_iff, Snapshot.shows_iff]
  rfl

theorem stamp_request (c : Cache) (t : Tracked N) : (c.request t).1.snapshot.stamp = t.stamp :=
  (fresh?_eq_some_iff.1 (c.fresh?_request t)).2

theorem heldAt_request (c : Cache) (t : Tracked N) (r : Route) :
    (c.request t).2.heldAt r =
      if r = t.root.components then some (c.request t).1 else c.heldAt r := by
  split
  · next hr =>
    rw [hr]
    exact (fresh?_eq_some_iff.1 (c.fresh?_request t)).1
  · next hr =>
    rcases c.request_cases t with ⟨h, -, -, -, -, he⟩ | he
    · rw [he]
      rfl
    · rw [he, heldAt_store, if_neg hr]

theorem request_of_fresh?_eq_none {c : Cache} {t : Tracked N} (hf : c.fresh? t = none) :
    c.request t = c.store t.root (.take t t.changes) := by
  rw [request, hf]

theorem snapshot_request (c : Cache) (t : Tracked N) :
    (c.request t).1.snapshot =
      (((c.heldAt t.root.components).map Held.snapshot).filter fun s => s.shows t t.changes).getD
        (.take t t.changes) := by
  rw [request, fresh?, held?, ← heldAt]
  cases c.heldAt t.root.components with
  | none => rfl
  | some h =>
    rw [Option.map_some, Option.filter_some, Option.filter_some]
    cases h.snapshot.shows t t.changes <;> rfl

end Request

/-- The snapshot of `t`, or the map or the keys of it alone. -/
def ask {N : Type} [SyntaxNode N] (c : Cache) (q : Session.Question) (t : Tracked N) :
    Session.Answer × Cache :=
  (q.read (c.request t).1.snapshot, (c.request t).2)

/-- What is done with a cache. Any source may be asked about. -/
inductive Step : Type 1 where
  | request {N : Type} [SyntaxNode N] (q : Session.Question) (t : Tracked N)
  | invalidate (root : Path)
  | isPopulated (root : Path)

namespace Step

def root : Step → Path
  | request _ t => t.root
  | invalidate root => root
  | isPopulated root => root

def isRequest : Step → Bool
  | request .. => true
  | _ => false

def isInvalidation : Step → Bool
  | invalidate _ => true
  | _ => false

def concerns (r : Route) (s : Step) : Bool :=
  (s.isRequest || s.isInvalidation) && s.root.components == r

def stamp? : Step → Option Stamp
  | request _ t => some t.stamp
  | _ => none

def apply (c : Cache) : Step → Cache
  | request q t => (c.ask q t).2
  | invalidate root => c.invalidate root
  | isPopulated _ => c

def given? (c : Cache) : Step → Option Held
  | request _ t => some (c.request t).1
  | _ => none

def computes (c : Cache) : Step → Bool
  | request _ t => (c.fresh? t).isNone
  | _ => false

variable {c c' : Cache} {s : Step} {r : Route}

/-- What is given to a step for the slot is held in it from then on: nothing, after an
invalidation. -/
theorem heldAt_apply (c : Cache) (s : Step) (r : Route) :
    (s.apply c).heldAt r = if s.concerns r then s.given? c else c.heldAt r := by
  have concerned (p : Path) : (p.components == r) = true ↔ r = p.components := by
    rw [beq_iff_eq, eq_comm]
  cases s with
  | request q t => exact (c.heldAt_request t r).trans (if_congr (concerned t.root).symm rfl rfl)
  | invalidate root =>
    exact (c.heldAt_invalidate root r).trans (if_congr (concerned root).symm rfl rfl)
  | isPopulated root => rfl

theorem heldAt_apply_of_concerns (c : Cache) (h : s.concerns r) :
    (s.apply c).heldAt r = s.given? c := by
  rw [heldAt_apply, if_pos h]

theorem heldAt_apply_of_not_concerns (c : Cache) (h : s.concerns r = false) :
    (s.apply c).heldAt r = c.heldAt r := by
  rw [heldAt_apply, h]
  rfl

theorem map_stamp_given? (c : Cache) (s : Step) :
    (s.given? c).map (fun h => h.snapshot.stamp) = s.stamp? := by
  cases s with
  | request q t => exact congrArg some (c.stamp_request t)
  | _ => rfl

theorem isSome_given? (c : Cache) (s : Step) : (s.given? c).isSome = s.isRequest := by
  cases s <;> rfl

theorem map_snapshot_given?_congr (hs : s.concerns r)
    (h : (c.heldAt r).map Held.snapshot = (c'.heldAt r).map Held.snapshot) :
    (s.given? c).map Held.snapshot = (s.given? c').map Held.snapshot := by
  cases s with
  | request q t =>
    have hr : t.root.components = r := by simpa [concerns, isRequest, root] using hs
    subst hr
    rw [given?, given?, Option.map_some, Option.map_some, snapshot_request, snapshot_request, h]
  | _ => rfl

end Step

def after (c : Cache) (steps : List Step) : Cache := steps.foldl Step.apply c

theorem after_append (c : Cache) (steps steps' : List Step) :
    c.after (steps ++ steps') = (c.after steps).after steps' :=
  List.foldl_append

theorem after_concat (c : Cache) (steps : List Step) (s : Step) :
    c.after (steps ++ [s]) = s.apply (c.after steps) :=
  after_append c steps [s]

theorem heldAt_after_of_unconcerned (c : Cache) {steps : List Step} {r : Route}
    (h : ∀ s ∈ steps, s.concerns r = false) : (c.after steps).heldAt r = c.heldAt r := by
  induction steps generalizing c with
  | nil => rfl
  | cons s steps ih =>
    obtain ⟨hs, h⟩ := List.forall_mem_cons.1 h
    exact (ih (s.apply c) h).trans (Step.heldAt_apply_of_not_concerns c hs)

/-- `s`, taken after `earlier`, is the latest step of a run for the slot at `r`. -/
def Latest (r : Route) (steps earlier : List Step) (s : Step) : Prop :=
  s.concerns r ∧ ∃ later, steps = earlier ++ s :: later ∧ ∀ x ∈ later, x.concerns r = false

theorem exists_latest (r : Route) (steps : List Step) :
    (∃ earlier s, Latest r steps earlier s) ∨ ∀ s ∈ steps, s.concerns r = false := by
  induction steps using List.reverseRecOn with
  | nil => exact .inr nofun
  | append_singleton steps s ih =>
    by_cases hs : s.concerns r
    · exact .inl ⟨steps, s, hs, [], rfl, nofun⟩
    · have hs : s.concerns r = false := by simpa using hs
      rcases ih with ⟨earlier, x, hx, later, rfl, hl⟩ | h
      · left
        refine ⟨earlier, x, hx, later ++ [s], by simp, ?_⟩
        rw [List.forall_mem_append, List.forall_mem_singleton]
        exact ⟨hl, hs⟩
      · right
        rw [List.forall_mem_append, List.forall_mem_singleton]
        exact ⟨h, hs⟩

theorem Latest.heldAt_after {r : Route} {steps earlier : List Step} {s : Step}
    (h : Latest r steps earlier s) (c : Cache) :
    (c.after steps).heldAt r = s.given? (c.after earlier) := by
  obtain ⟨hs, later, rfl, hl⟩ := h
  rw [after_append]
  exact (heldAt_after_of_unconcerned (s.apply (c.after earlier)) hl).trans
    (Step.heldAt_apply_of_concerns _ hs)

/-- Something is held exactly if the latest step was a request. -/
theorem heldAt_after_eq_some_iff {steps : List Step} {r : Route} {h : Held} :
    ((∅ : Cache).after steps).heldAt r = some h ↔
      ∃ earlier s, Latest r steps earlier s ∧ s.given? ((∅ : Cache).after earlier) = some h := by
  constructor
  · intro hh
    rcases exists_latest r steps with ⟨earlier, s, hs⟩ | hn
    · exact ⟨earlier, s, hs, hs.heldAt_after ∅ ▸ hh⟩
    · rw [heldAt_after_of_unconcerned ∅ hn, heldAt_empty] at hh
      cases hh
  · rintro ⟨earlier, s, hs, hg⟩
    rw [hs.heldAt_after ∅, hg]

/-- The steps for other slots might as well not have been taken. -/
theorem map_snapshot_heldAt_filter (steps : List Step) (r : Route) :
    (((∅ : Cache).after steps).heldAt r).map Held.snapshot =
      (((∅ : Cache).after (steps.filter (Step.concerns r))).heldAt r).map Held.snapshot := by
  induction steps using List.reverseRecOn with
  | nil => rfl
  | append_singleton steps s ih =>
    rw [after_concat, List.filter_append]
    cases hs : s.concerns r with
    | true =>
      rw [List.filter_singleton, hs, cond_true, after_concat, Step.heldAt_apply_of_concerns _ hs,
        Step.heldAt_apply_of_concerns _ hs]
      exact Step.map_snapshot_given?_congr hs ih
    | false =>
      rw [List.filter_singleton, hs, cond_false, List.append_nil,
        Step.heldAt_apply_of_not_concerns _ hs]
      exact ih

/-- A step, what it was given, and whether discovery was run for it. -/
structure Entry : Type 1 where
  step : Step
  given : Option Held
  computed : Bool

def Step.entry (c : Cache) (s : Step) : Entry := ⟨s, s.given? c, s.computes c⟩

def log (c : Cache) : List Step → List Entry
  | [] => []
  | s :: steps => s.entry c :: log (s.apply c) steps

theorem log_concat (c : Cache) (steps : List Step) (s : Step) :
    c.log (steps ++ [s]) = c.log steps ++ [s.entry (c.after steps)] := by
  induction steps generalizing c with
  | nil => rfl
  | cons x steps ih => rw [List.cons_append, log, ih]; rfl

def Entry.isHit (e : Entry) : Bool := e.step.isRequest && !e.computed

theorem hits_apply (c : Cache) (s : Step) :
    (s.apply c).hits = c.hits + if (s.entry c).isHit then 1 else 0 := by
  cases s with
  | request q t =>
    cases hf : c.fresh? t with
    | none =>
      simp only [Step.apply, ask, Step.entry, Entry.isHit, Step.computes, hf,
        request_of_fresh?_eq_none hf]
      rfl
    | some h =>
      simp only [Step.apply, ask, Step.entry, Entry.isHit, Step.computes, hf, request_of_fresh? hf]
      rfl
  | invalidate root => exact c.hits_invalidate root
  | isPopulated root => rfl

theorem misses_apply (c : Cache) (s : Step) :
    (s.apply c).misses = c.misses + if (s.entry c).computed then 1 else 0 := by
  cases s with
  | request q t =>
    cases hf : c.fresh? t with
    | none =>
      simp only [Step.apply, ask, Step.entry, Step.computes, hf, request_of_fresh?_eq_none hf]
      rfl
    | some h =>
      simp only [Step.apply, ask, Step.entry, Step.computes, hf, request_of_fresh? hf]
      rfl
  | invalidate root => exact c.misses_invalidate root
  | isPopulated root => rfl

/-- The counters say how the requests were answered. -/
theorem counters_after (c : Cache) (steps : List Step) :
    (c.after steps).hits = c.hits + (c.log steps).countP Entry.isHit ∧
      (c.after steps).misses = c.misses + (c.log steps).countP Entry.computed := by
  induction steps using List.reverseRecOn with
  | nil => exact ⟨rfl, rfl⟩
  | append_singleton steps s ih =>
    rw [after_concat, log_concat, List.countP_append, List.countP_append, hits_apply, misses_apply,
      ih.1, ih.2, List.countP_singleton, List.countP_singleton]
    exact ⟨Nat.add_assoc .., Nat.add_assoc ..⟩

theorem isHit_or_computed (c : Cache) (s : Step) :
    (if (s.entry c).isHit then 1 else 0) + (if (s.entry c).computed then 1 else 0) =
      if s.isRequest then 1 else 0 := by
  cases s with
  | request q t => cases hf : c.fresh? t <;> simp [Step.entry, Entry.isHit, Step.computes, hf,
      Step.isRequest]
  | _ => rfl

theorem hits_add_misses_after (steps : List Step) :
    ((∅ : Cache).after steps).hits + ((∅ : Cache).after steps).misses =
      steps.countP Step.isRequest := by
  induction steps using List.reverseRecOn with
  | nil => rfl
  | append_singleton steps s ih =>
    have hs := isHit_or_computed ((∅ : Cache).after steps) s
    rw [after_concat, hits_apply, misses_apply, List.countP_append, List.countP_singleton, ← ih,
      ← hs]
    omega

theorem entry_mem_log (c : Cache) (earlier : List Step) (s : Step) (later : List Step) :
    s.entry (c.after earlier) ∈ c.log (earlier ++ s :: later) := by
  induction earlier generalizing c with
  | nil => exact List.mem_cons_self
  | cons x earlier ih => exact List.mem_cons_of_mem _ (ih (x.apply c))

theorem exists_mem_log_of_heldAt {steps : List Step} {r : Route} {h : Held}
    (hh : ((∅ : Cache).after steps).heldAt r = some h) :
    ∃ e ∈ (∅ : Cache).log steps, e.given = some h := by
  obtain ⟨earlier, s, ⟨-, later, rfl, -⟩, hg⟩ := heldAt_after_eq_some_iff.1 hh
  exact ⟨_, entry_mem_log ∅ earlier s later, hg⟩

theorem ticket_lt_misses (steps : List Step) :
    ∀ e ∈ (∅ : Cache).log steps, ∀ h, e.given = some h →
      h.ticket < ((∅ : Cache).after steps).misses := by
  induction steps using List.reverseRecOn with
  | nil => exact nofun
  | append_singleton steps s ih =>
    intro e he h hg
    rw [log_concat, List.mem_append, List.mem_singleton] at he
    rw [after_concat, misses_apply]
    rcases he with he | rfl
    · exact Nat.lt_add_right _ (ih e he h hg)
    cases s with
    | request q t =>
      -- a new ticket is the number of misses, and an old one was given to an earlier step
      obtain rfl : (((∅ : Cache).after steps).request t).1 = h := Option.some.inj hg
      cases hf : ((∅ : Cache).after steps).fresh? t with
      | none =>
        rw [request_of_fresh?_eq_none hf]
        simp [Step.entry, Step.computes, hf, store]
      | some h =>
        obtain ⟨e, he, hg⟩ := exists_mem_log_of_heldAt (fresh?_eq_some_iff.1 hf).1
        rw [request_of_fresh? hf]
        exact Nat.lt_add_right _ (ih e he h hg)
    | _ => cases hg

/-- A request takes a snapshot of its own, with a ticket that was never given before, and holds it
for its root. -/
structure Renews {N : Type} [SyntaxNode N] (c : Cache) (given : List Entry) (t : Tracked N) :
    Prop where
  snapshot : (c.request t).1.snapshot = .take t t.changes
  ticket : ∀ e ∈ given, ∀ h, e.given = some h → h.ticket ≠ (c.request t).1.ticket
  hits : (c.request t).2.hits = c.hits
  misses : (c.request t).2.misses = c.misses + 1
  held : ∀ r, (c.request t).2.heldAt r =
    if r = t.root.components then some (c.request t).1 else c.heldAt r

/-- Both caches answer all questions about `t` and its root alike. -/
structure AnswersAlike {N : Type} [SyntaxNode N] (c c' : Cache) (t : Tracked N) : Prop where
  snapshot : (c.request t).1.snapshot = (c'.request t).1.snapshot
  isHit : (∃ h, c.request t = (h, c.hit)) ↔ ∃ h, c'.request t = (h, c'.hit)
  isPopulated : c.isPopulated t.root = c'.isPopulated t.root

/-- The cache `c` after a run of `steps`, in terms of the steps. -/
structure Recalls (steps : List Step) (c : Cache) : Prop where
  /-- A request is a hit exactly if the latest step for its root was a request for its stamp. -/
  hit_iff : ∀ {N : Type} [SyntaxNode N] (t : Tracked N), (∃ h, c.request t = (h, c.hit)) ↔
    ∃ earlier s, Latest t.root.components steps earlier s ∧ s.stamp? = some t.stamp
  /-- It is given what that request was given. -/
  same : ∀ {N : Type} [SyntaxNode N] (t : Tracked N) earlier s,
    Latest t.root.components steps earlier s → s.stamp? = some t.stamp →
      ∃ h, s.given? ((∅ : Cache).after earlier) = some h ∧ c.request t = (h, c.hit) ∧
        ∀ q, c.ask q t = (q.read h.snapshot, c.hit)
  renews : ∀ {N : Type} [SyntaxNode N] (t : Tracked N),
    (¬ ∃ earlier s, Latest t.root.components steps earlier s ∧ s.stamp? = some t.stamp) →
      Renews c ((∅ : Cache).log steps) t
  counted : c.hits + c.misses = steps.countP Step.isRequest
  isPopulated_iff : ∀ root : Path, c.isPopulated root ↔
    ∃ earlier s, Latest root.components steps earlier s ∧ s.isRequest
  /-- Without the steps for other roots, the answers would be the same. -/
  apart : ∀ {N : Type} [SyntaxNode N] (t : Tracked N),
    AnswersAlike c ((∅ : Cache).after (steps.filter (Step.concerns t.root.components))) t

theorem isPopulated_eq (c : Cache) (root : Path) :
    c.isPopulated root = ((c.heldAt root.components).map Held.snapshot).isSome := by
  rw [Option.isSome_map]
  rfl

section

variable {N : Type} {t : Tracked N}

theorem fresh?_after_of_latest {steps earlier : List Step} {s : Step}
    (hl : Latest t.root.components steps earlier s) (hs : s.stamp? = some t.stamp) :
    ∃ h, s.given? ((∅ : Cache).after earlier) = some h ∧
      ((∅ : Cache).after steps).fresh? t = some h := by
  have stamp := s.map_stamp_given? ((∅ : Cache).after earlier)
  rw [hs, Option.map_eq_some_iff] at stamp
  obtain ⟨h, hg, hs⟩ := stamp
  exact ⟨h, hg, fresh?_eq_some_iff.2 ⟨(hl.heldAt_after ∅).trans hg, hs⟩⟩

theorem exists_latest_of_fresh? {steps : List Step} {h : Held}
    (hf : ((∅ : Cache).after steps).fresh? t = some h) :
    ∃ earlier s, Latest t.root.components steps earlier s ∧ s.stamp? = some t.stamp := by
  obtain ⟨hh, hs⟩ := fresh?_eq_some_iff.1 hf
  obtain ⟨earlier, s, hl, hg⟩ := heldAt_after_eq_some_iff.1 hh
  refine ⟨earlier, s, hl, ?_⟩
  rw [← s.map_stamp_given? ((∅ : Cache).after earlier), hg, Option.map_some, hs]

variable [SyntaxNode N]

theorem exists_fresh?_of_isHit {c : Cache} (h : ∃ h, c.request t = (h, c.hit)) :
    ∃ h, c.fresh? t = some h := by
  obtain ⟨h, he⟩ := h
  cases hf : c.fresh? t with
  | none => exact absurd he (request_ne_hit hf h)
  | some h => exact ⟨h, rfl⟩

theorem isHit_iff {c : Cache} : (∃ h, c.request t = (h, c.hit)) ↔
    ∃ s, (c.heldAt t.root.components).map Held.snapshot = some s ∧ s.stamp = t.stamp := by
  constructor
  · intro hit
    obtain ⟨h, hf⟩ := exists_fresh?_of_isHit hit
    obtain ⟨hh, hs⟩ := fresh?_eq_some_iff.1 hf
    exact ⟨h.snapshot, by rw [hh, Option.map_some], hs⟩
  · rintro ⟨s, hh, hs⟩
    obtain ⟨h, hr, rfl⟩ := Option.map_eq_some_iff.1 hh
    exact ⟨h, request_of_fresh? (fresh?_eq_some_iff.2 ⟨hr, hs⟩)⟩

variable {steps : List Step}

theorem isHit_after_iff : (∃ h, ((∅ : Cache).after steps).request t =
      (h, ((∅ : Cache).after steps).hit)) ↔
    ∃ earlier s, Latest t.root.components steps earlier s ∧ s.stamp? = some t.stamp := by
  constructor
  · intro hit
    obtain ⟨h, hf⟩ := exists_fresh?_of_isHit hit
    exact exists_latest_of_fresh? hf
  · rintro ⟨earlier, s, hl, hs⟩
    obtain ⟨h, -, hf⟩ := fresh?_after_of_latest hl hs
    exact ⟨h, request_of_fresh? hf⟩

theorem renews_after (hn : ¬ ∃ earlier s, Latest t.root.components steps earlier s ∧
    s.stamp? = some t.stamp) : Renews ((∅ : Cache).after steps) ((∅ : Cache).log steps) t := by
  have hf : ((∅ : Cache).after steps).fresh? t = none := by
    by_contra hf
    obtain ⟨h, hf⟩ := Option.ne_none_iff_exists'.1 hf
    exact hn (exists_latest_of_fresh? hf)
  have he := request_of_fresh?_eq_none hf
  refine ⟨by rw [he]; rfl, ?_, by rw [he]; rfl, by rw [he]; rfl, heldAt_request _ t⟩
  intro e hm h hg
  rw [he]
  exact Nat.ne_of_lt (ticket_lt_misses steps e hm h hg)

theorem answersAlike_filter (steps : List Step) (t : Tracked N) :
    AnswersAlike ((∅ : Cache).after steps)
      ((∅ : Cache).after (steps.filter (Step.concerns t.root.components))) t := by
  have held := map_snapshot_heldAt_filter steps t.root.components
  refine ⟨?_, ?_, ?_⟩
  · rw [snapshot_request, snapshot_request, held]
  · rw [isHit_iff, isHit_iff, held]
  · rw [isPopulated_eq, isPopulated_eq, held]

end

theorem isPopulated_after_iff {steps : List Step} {root : Path} :
    ((∅ : Cache).after steps).isPopulated root ↔
      ∃ earlier s, Latest root.components steps earlier s ∧ s.isRequest := by
  rw [isPopulated_eq, Option.isSome_map, Option.isSome_iff_exists]
  constructor
  · rintro ⟨h, hh⟩
    obtain ⟨earlier, s, hl, hg⟩ := heldAt_after_eq_some_iff.1 hh
    refine ⟨earlier, s, hl, ?_⟩
    rw [← s.isSome_given? ((∅ : Cache).after earlier), hg]
    rfl
  · rintro ⟨earlier, s, hl, hr⟩
    rw [← s.isSome_given? ((∅ : Cache).after earlier), Option.isSome_iff_exists] at hr
    obtain ⟨h, hg⟩ := hr
    exact ⟨h, (hl.heldAt_after ∅).trans hg⟩

/-- Whatever was asked of a cache before, in whatever order and about whatever sources, the latest
step for a root decides what is answered there. -/
theorem latest_step_decides (steps : List Step) : Recalls steps ((∅ : Cache).after steps) where
  hit_iff _ := isHit_after_iff
  same t earlier s hl hs := by
    obtain ⟨h, hg, hf⟩ := fresh?_after_of_latest hl hs
    have he := request_of_fresh? hf
    exact ⟨h, hg, he, fun q => by rw [ask, he]⟩
  renews _ := renews_after
  counted := hits_add_misses_after steps
  isPopulated_iff _ := isPopulated_after_iff
  apart t := answersAlike_filter steps t

end Cache

end ContainerAliases
