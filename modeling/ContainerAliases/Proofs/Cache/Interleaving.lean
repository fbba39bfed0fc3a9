import ContainerAliases.Proofs.Alias.Collection
import ContainerAliases.Proofs.Cache.Slots
import Mathlib.Logic.Function.Basic

/-!
Requests that run beside each other and beside changes of their sources. The lock of a slot admits
one request at a time and keeps invalidations out; inside, a request reads its source piece by
piece, and the source may change between any two reads.
-/

namespace ContainerAliases

namespace Alias

variable {N : Type} [SyntaxNode N] {σ : Type}

def Provider.visitClass (p : Provider N) (pattern : Pattern) (v : Visitor N σ) (s : σ) (c : N) :
    σ :=
  match p.method c pattern.registerMethod with
  | none => s
  | some m =>
    (Site.below m pattern.aliasesVariable).foldl (fun s site =>
      match site.array with
      | none => s
      | some a => (Entry.ofArray a).foldl v s) s

theorem Provider.visit_eq_foldl_visitClass (p : Provider N) (pattern : Pattern) (v : Visitor N σ)
    (s : σ) :
    p.visit pattern v s = (p.classes pattern.baseClass).foldl (p.visitClass pattern v) s := rfl

/-- The source after a change: new contents, and a larger count. -/
def Tracked.changed (t : Tracked N) (contents : Provider N) (pattern : Pattern) (more : Nat) :
    Tracked N :=
  { toProvider := contents
    root := t.root
    pattern := pattern
    generation := t.generation
    changes := t.changes + 1 + more }

end Alias

namespace Cache

open Alias Disk

/-- How far the request inside a slot has come, and what it has read so far. -/
inductive Stage (N : Type) where
  | entered
  | counted (changes : Nat)
  | missed (changes : Nat)
  | begun (changes : Nat) (pattern : Pattern)
  /-- The classes that are `left` have not been looked into. -/
  | searching (changes : Nat) (pattern : Pattern) (left : List N) (index : AliasIndex)
  | taken (s : Snapshot)

structure Task (ι N : Type) where
  source : ι
  stage : Stage N
  /-- The source as it was when its changes were counted. No step depends on it. -/
  seen : Tracked N

structure Answer (N : Type) where
  held : Held
  /-- The request took the snapshot itself; otherwise it is from the slot. -/
  computed : Bool
  /-- The source as it was when the request counted its changes. -/
  seen : Tracked N

/-- A cache, the sources that it is asked about, and the requests that are under way. -/
structure World (ι N : Type) where
  cache : Cache
  sources : ι → Tracked N
  /-- The request that holds the lock of a slot. -/
  tasks : Route → Option (Task ι N)
  answers : List (Answer N)

inductive Move (ι N : Type) where
  | change (i : ι) (contents : Provider N) (pattern : Pattern) (more : Nat)
  | enter (i : ι)
  | advance (r : Route)
  | invalidate (root : Path)

namespace World

variable {ι N : Type}

def start (sources : ι → Tracked N) : World ι N := ⟨∅, sources, fun _ => none, []⟩

def setTask (w : World ι N) (r : Route) (task : Task ι N) : World ι N :=
  { w with tasks := Function.update w.tasks r (some task) }

/-- The request inside the slot at `r` gives its answer and releases the lock. -/
def finish (w : World ι N) (r : Route) (c : Cache) (a : Answer N) : World ι N :=
  { w with cache := c, tasks := Function.update w.tasks r none, answers := w.answers ++ [a] }

@[simp] theorem tasks_setTask (w : World ι N) (r : Route) (task : Task ι N) :
    (w.setTask r task).tasks r = some task := by
  simp [setTask]

theorem tasks_setTask_of_ne {w : World ι N} {r r' : Route} (hr : r' ≠ r) (task : Task ι N) :
    (w.setTask r task).tasks r' = w.tasks r' := by
  simp only [setTask, ne_eq, hr, not_false_eq_true, Function.update_of_ne]

@[simp] theorem tasks_finish (w : World ι N) (r : Route) (c : Cache) (a : Answer N) :
    (w.finish r c a).tasks r = none := by
  simp [finish]

theorem tasks_finish_of_ne {w : World ι N} {r r' : Route} (hr : r' ≠ r) (c : Cache)
    (a : Answer N) : (w.finish r c a).tasks r' = w.tasks r' := by
  simp only [finish, ne_eq, hr, not_false_eq_true, Function.update_of_ne]

@[simp] theorem sources_setTask (w : World ι N) (r : Route) (task : Task ι N) :
    (w.setTask r task).sources = w.sources := rfl

@[simp] theorem cache_setTask (w : World ι N) (r : Route) (task : Task ι N) :
    (w.setTask r task).cache = w.cache := rfl

@[simp] theorem setTask_setTask (w : World ι N) (r : Route) (task task' : Task ι N) :
    (w.setTask r task).setTask r task' = w.setTask r task' := by
  simp [setTask]

@[simp] theorem finish_setTask (w : World ι N) (r : Route) (task : Task ι N) (c : Cache)
    (a : Answer N) : (w.setTask r task).finish r c a = w.finish r c a := by
  simp [setTask, finish]

variable [SyntaxNode N]

/-- The next step of the request `task`, which holds the lock of the slot at `r`. -/
def proceed (w : World ι N) (r : Route) (task : Task ι N) : World ι N :=
  let t := w.sources task.source
  match task.stage with
  | .entered => w.setTask r { task with stage := .counted t.changes, seen := t }
  | .counted n =>
    match w.cache.fresh? { t with changes := n } with
    | some h => w.finish r w.cache.hit ⟨h, false, task.seen⟩
    | none => w.setTask r { task with stage := .missed n }
  | .missed n => w.setTask r { task with stage := .begun n t.pattern }
  | .begun n q =>
    w.setTask r { task with stage := .searching n q (t.classes q.baseClass) ⟨∅, ∅⟩ }
  | .searching n q (c :: left) i =>
    w.setTask r { task with stage := .searching n q left (t.visitClass q AliasIndex.visit i c) }
  | .searching n _ [] i =>
    w.setTask r { task with stage := .taken ⟨t.generation, n, t.pattern, i⟩ }
  | .taken s =>
    let (h, c) := w.cache.store t.root s
    w.finish r c ⟨h, true, task.seen⟩

variable [DecidableEq ι]

def setSource (w : World ι N) (i : ι) (t : Tracked N) : World ι N :=
  { w with sources := Function.update w.sources i t }

/-- A request or an invalidation that finds the lock taken has to wait. -/
def apply (w : World ι N) : Move ι N → World ι N
  | .change i contents pattern more =>
    w.setSource i ((w.sources i).changed contents pattern more)
  | .enter i =>
    let t := w.sources i
    if (w.tasks t.root.components).isNone then w.setTask t.root.components ⟨i, .entered, t⟩ else w
  | .advance r => (w.tasks r).elim w (w.proceed r)
  | .invalidate root =>
    if (w.tasks root.components).isNone then { w with cache := w.cache.invalidate root } else w

def run (w : World ι N) (moves : List (Move ι N)) : World ι N := moves.foldl apply w

omit [SyntaxNode N] in
theorem sources_setSource (w : World ι N) (i j : ι) (t : Tracked N) :
    (w.setSource i t).sources j = if j = i then t else w.sources j :=
  Function.update_apply w.sources i t j

omit [SyntaxNode N] in
theorem apply_sources_setSource {α : Type} {w : World ι N} {i : ι} {t : Tracked N}
    (f : Tracked N → α) (h : f t = f (w.sources i)) (j : ι) :
    f ((w.setSource i t).sources j) = f (w.sources j) := by
  rw [sources_setSource]
  split
  · next hj => rw [h, hj]
  · rfl

inductive Becomes (w : World ι N) : World ι N → Prop
  | change (i : ι) (contents : Provider N) (pattern : Pattern) (more : Nat) :
      Becomes w (w.setSource i ((w.sources i).changed contents pattern more))
  | enter (i : ι) : Becomes w
      (w.setTask (w.sources i).root.components ⟨i, .entered, w.sources i⟩)
  | proceed {r : Route} {task : Task ι N} (h : w.tasks r = some task) :
      Becomes w (w.proceed r task)
  | invalidate (root : Path) : Becomes w { w with cache := w.cache.invalidate root }
  | wait : Becomes w w

theorem apply_advance {w : World ι N} {r : Route} {task : Task ι N} (h : w.tasks r = some task) :
    w.apply (.advance r) = w.proceed r task := by
  simp only [apply, h, Option.elim_some]

theorem becomes_apply (w : World ι N) (m : Move ι N) : w.Becomes (w.apply m) := by
  cases m with
  | change i contents pattern more => exact .change i contents pattern more
  | enter i =>
    simp only [apply]
    split
    · exact .enter i
    · exact .wait
  | advance r =>
    cases ht : w.tasks r with
    | none => simpa only [apply, ht, Option.elim_none] using .wait
    | some task => exact apply_advance ht ▸ .proceed ht
  | invalidate root =>
    simp only [apply]
    split
    · exact .invalidate root
    · exact .wait

theorem run_induction {P : World ι N → Prop} {w : World ι N} (hw : P w)
    (keeps : ∀ w w', P w → w.Becomes w' → P w') (moves : List (Move ι N)) : P (w.run moves) := by
  induction moves generalizing w with
  | nil => exact hw
  | cons m moves ih => exact ih (keeps w _ hw (w.becomes_apply m))

theorem run_append (w : World ι N) (ms ms' : List (Move ι N)) :
    w.run (ms ++ ms') = (w.run ms).run ms' :=
  List.foldl_append

theorem run_search (w : World ι N) (r : Route) (i : ι) (seen : Tracked N) (n : Nat) (q : Pattern)
    (left : List N) (index : AliasIndex) :
    (w.setTask r ⟨i, .searching n q left index, seen⟩).run
        (List.replicate left.length (.advance r)) =
      w.setTask r ⟨i, .searching n q []
        (left.foldl ((w.sources i).visitClass q AliasIndex.visit) index), seen⟩ := by
  induction left generalizing index with
  | nil => rfl
  | cons c left ih =>
    rw [List.length_cons, List.replicate_succ, run, List.foldl_cons,
      apply_advance (w.tasks_setTask r _), List.foldl_cons, ← ih]
    simp only [proceed, setTask_setTask]
    rfl

theorem run_advance_setTask (w : World ι N) (r : Route) (task : Task ι N) (ms : List (Move ι N)) :
    (w.setTask r task).run (.advance r :: ms) = ((w.setTask r task).proceed r task).run ms := by
  rw [run, List.foldl_cons, apply_advance (w.tasks_setTask r task), run]

theorem run_discovery (w : World ι N) (r : Route) {i : ι} {t : Tracked N} (ht : w.sources i = t) :
    (w.setTask r ⟨i, .missed t.changes, t⟩).run
        (List.replicate ((t.classes t.pattern.baseClass).length + 4) (.advance r)) =
      w.finish r (w.cache.store t.root (.take t t.changes)).2
        ⟨(w.cache.store t.root (.take t t.changes)).1, true, t⟩ := by
  have begin (ms : List (Move ι N)) :
      (w.setTask r ⟨i, .missed t.changes, t⟩).run (.advance r :: .advance r :: ms) =
        (w.setTask r ⟨i, .searching t.changes t.pattern (t.classes t.pattern.baseClass) ⟨∅, ∅⟩,
          t⟩).run ms := by
    rw [run_advance_setTask, proceed, setTask_setTask, run_advance_setTask, proceed]
    simp only [sources_setTask, setTask_setTask, ht]
  have last (index : AliasIndex) :
      (w.setTask r ⟨i, .searching t.changes t.pattern [] index, t⟩).run
          [.advance r, .advance r] =
        w.finish r (w.cache.store t.root ⟨t.generation, t.changes, t.pattern, index⟩).2
          ⟨(w.cache.store t.root ⟨t.generation, t.changes, t.pattern, index⟩).1, true, t⟩ := by
    rw [run_advance_setTask, proceed, setTask_setTask, run_advance_setTask, proceed]
    simp only [sources_setTask, cache_setTask, finish_setTask, ht]
    rfl
  rw [List.replicate_succ, List.replicate_succ, begin, ← List.replicate_append_replicate,
    run_append, run_search, ht, List.replicate_succ, List.replicate_succ, List.replicate_zero, last]
  rfl

section Free

variable {w : World ι N} {i : ι} {r : Route}

omit [SyntaxNode N] [DecidableEq ι] in
theorem finish_of_free (free : w.tasks r = none) (c : Cache) (a : Answer N) :
    w.finish r c a = { w with cache := c, answers := w.answers ++ [a] } := by
  have tasks : Function.update w.tasks r none = w.tasks := by
    rw [← free]
    exact Function.update_eq_self r w.tasks
  rw [finish, tasks]

/-- The steps of a request up to the comparison with what is held. -/
theorem run_enter (hr : (w.sources i).root.components = r) (free : w.tasks r = none)
    (ms : List (Move ι N)) : w.run (.enter i :: .advance r :: .advance r :: ms) =
      (match w.cache.fresh? (w.sources i) with
      | some h => w.finish r w.cache.hit ⟨h, false, w.sources i⟩
      | none => w.setTask r ⟨i, .missed (w.sources i).changes, w.sources i⟩).run ms := by
  have enter : w.apply (.enter i) = w.setTask r ⟨i, .entered, w.sources i⟩ := by
    simp only [apply, hr, free, Option.isNone_none, if_true]
  rw [run, List.foldl_cons, enter, ← run, run_advance_setTask, proceed, setTask_setTask,
    run_advance_setTask, proceed]
  simp only [sources_setTask, cache_setTask, setTask_setTask, finish_setTask]

/-- With nothing in between, the steps of a request come to a request in one piece. -/
theorem exists_run_eq_request (hr : (w.sources i).root.components = r) (free : w.tasks r = none) :
    ∃ n, w.run (.enter i :: List.replicate n (.advance r)) =
      { w with
        cache := (w.cache.request (w.sources i)).2
        answers := w.answers ++ [⟨(w.cache.request (w.sources i)).1,
          (w.cache.fresh? (w.sources i)).isNone, w.sources i⟩] } := by
  cases hf : w.cache.fresh? (w.sources i) with
  | some h =>
    refine ⟨2, ?_⟩
    rw [List.replicate_succ, List.replicate_succ, run_enter hr free, hf, request_of_fresh? hf]
    exact finish_of_free free _ _
  | none =>
    refine ⟨((w.sources i).classes (w.sources i).pattern.baseClass).length + 4 + 2, ?_⟩
    rw [List.replicate_succ, List.replicate_succ, run_enter hr free, hf]
    dsimp only
    rw [run_discovery w r rfl, request, hf]
    exact finish_of_free free _ _

end Free

/-- The counters of the cache tell how the requests were answered. -/
def Counted (w : World ι N) : Prop :=
  w.cache.hits = w.answers.countP (fun a => !a.computed) ∧
    w.cache.misses = w.answers.countP fun a => a.computed

omit [DecidableEq ι] in
theorem Counted.proceed {w : World ι N} (hw : w.Counted) (r : Route) (task : Task ι N) :
    (w.proceed r task).Counted := by
  obtain ⟨hits, misses⟩ := hw
  obtain ⟨i, _ | n | n | ⟨n, q⟩ | ⟨n, q, _ | ⟨c, left⟩, index⟩ | s, seen⟩ := task
  case counted =>
    cases hf : w.cache.fresh? { w.sources i with changes := n } with
    | none => simpa only [World.proceed, hf] using ⟨hits, misses⟩
    | some h =>
      simp only [World.proceed, hf]
      exact ⟨by simp [finish, hit, hits], by simp [finish, hit, misses]⟩
  case taken => exact ⟨by simp [World.proceed, finish, store, hits],
    by simp [World.proceed, finish, store, misses]⟩
  all_goals exact ⟨hits, misses⟩

theorem Counted.run {w : World ι N} (hw : w.Counted) (moves : List (Move ι N)) :
    (w.run moves).Counted := by
  refine run_induction hw (fun w w' hw h => ?_) moves
  cases h with
  | change i contents pattern more => exact hw
  | enter i => exact hw
  | @proceed r task _ => exact hw.proceed r task
  | invalidate root =>
    exact ⟨(w.cache.hits_invalidate root).trans hw.1, (w.cache.misses_invalidate root).trans hw.2⟩
  | wait => exact hw

end World

end Cache

end ContainerAliases
