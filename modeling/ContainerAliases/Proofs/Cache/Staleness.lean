import ContainerAliases.Proofs.Cache.Interleaving
import ContainerAliases.Source.Grammar.Statement
import ContainerAliases.Source.Node

namespace ContainerAliases

open Alias Disk

variable {N : Type} [SyntaxNode N]

/-- A snapshot of the project of `t` is older than `t`, or shows it. -/
def Snapshot.Trails (s : Snapshot) (t : Tracked N) : Prop :=
  s.generation = t.generation → s.changes < t.changes ∨ s = .take t t.changes

theorem Snapshot.Trails.eq_take {s : Snapshot} {t : Tracked N} (hs : s.Trails t)
    (hg : s.generation = t.generation) (hn : s.changes = t.changes) : s = .take t t.changes :=
  (hs hg).resolve_left (hn ▸ Nat.lt_irrefl _)

theorem Snapshot.Trails.changed {s : Snapshot} {t : Tracked N} (hs : s.Trails t)
    (contents : Provider N) (pattern : Pattern) (more : Nat) :
    s.Trails (t.changed contents pattern more) := by
  intro hg
  left
  have hle : s.changes ≤ t.changes := by
    rcases hs hg with hlt | heq
    · exact Nat.le_of_lt hlt
    · exact Nat.le_of_eq (congrArg Snapshot.changes heq)
  simp only [Tracked.changed]
  omega

namespace Cache

/-- The answer shows the source as the request has seen it. -/
structure Answer.IsExact (a : Answer N) : Prop where
  shows : a.held.snapshot.shows a.seen a.seen.changes
  map : a.held.snapshot.index.map = a.seen.aliasMap a.seen.pattern
  keys : a.held.snapshot.index.keys = a.seen.aliasKeys a.seen.pattern

theorem Answer.isExact_iff {a : Answer N} :
    a.IsExact ↔ a.held.snapshot = .take a.seen a.seen.changes := by
  obtain ⟨⟨⟨generation, changes, pattern, ⟨map, keys⟩⟩, ticket⟩, computed, seen⟩ := a
  simp only [Snapshot.take, Provider.aliasIndex_eq, Snapshot.mk.injEq, AliasIndex.mk.injEq]
  constructor
  · rintro ⟨hs, hm, hk⟩
    simp only [Snapshot.shows, Bool.and_eq_true, beq_iff_eq] at hs
    exact ⟨hs.1.1, hs.1.2, hs.2, hm, hk⟩
  · rintro ⟨rfl, rfl, rfl, hm, hk⟩
    exact ⟨by simp [Snapshot.shows], hm, hk⟩

/-- What a request has read is right as long as its source `t` is as the request has seen it. -/
def Stage.Fits (seen t : Tracked N) : Stage N → Prop
  | .entered => True
  | .counted n => n = seen.changes
  | .missed n => n = seen.changes
  | .begun n q => n = seen.changes ∧ (seen = t → q = t.pattern)
  | .searching n q left i => n = seen.changes ∧ (seen = t → q = t.pattern ∧
      left.foldl (t.visitClass q AliasIndex.visit) i = t.aliasIndex q)
  | .taken s => s.generation = seen.generation ∧ s.changes = seen.changes ∧
      (seen = t → s = .take t t.changes)

theorem Stage.Fits.of_ne {seen t t' : Tracked N} {s : Stage N} (hs : s.Fits seen t)
    (hne : seen ≠ t') : s.Fits seen t' := by
  cases s with
  | entered => trivial
  | counted n => exact hs
  | missed n => exact hs
  | begun n q => exact ⟨hs.1, fun he => absurd he hne⟩
  | searching n q left i => exact ⟨hs.1, fun he => absurd he hne⟩
  | taken s => exact ⟨hs.1, hs.2.1, fun he => absurd he hne⟩

namespace World

variable {ι : Type}

/-- States of the sources that are present, or that a request has seen. -/
inductive Recalls (w : World ι N) : Tracked N → Prop
  | source (i : ι) : Recalls w (w.sources i)
  | task {r : Route} {task : Task ι N} (h : w.tasks r = some task) : Recalls w task.seen
  | answer {a : Answer N} (h : a ∈ w.answers) : Recalls w a.seen

omit [SyntaxNode N] in
theorem Recalls.of_setSource [DecidableEq ι] {w : World ι N} {i : ι} {s t : Tracked N}
    (h : (w.setSource i t).Recalls s) : s = t ∨ w.Recalls s := by
  cases h with
  | source j =>
    rw [sources_setSource]
    split
    · exact .inl rfl
    · exact .inr (.source j)
  | task h => exact .inr (.task h)
  | answer h => exact .inr (.answer h)

/-- `task` may be under way in the slot at `r`. -/
structure Admits (w : World ι N) (r : Route) (task : Task ι N) : Prop where
  root : (w.sources task.source).root.components = r
  generation : task.seen.generation = (w.sources task.source).generation
  held : ∀ h, w.cache.heldAt r = some h → h.snapshot.Trails task.seen
  stage : task.stage.Fits task.seen (w.sources task.source)

theorem Admits.of_held {w w' : World ι N} {r : Route} {task : Task ι N} (ht : w.Admits r task)
    (hs : w'.sources = w.sources)
    (hh : ∀ h, w'.cache.heldAt r = some h → w.cache.heldAt r = some h) : w'.Admits r task :=
  ⟨hs ▸ ht.root, hs ▸ ht.generation, fun h hr => ht.held h (hh h hr), hs ▸ ht.stage⟩

structure Coherent (w : World ι N) : Prop where
  distinct : Function.Injective fun i => (w.sources i).generation
  /-- What is past has the smaller count. -/
  past : ∀ s, w.Recalls s → ∀ i, s.generation = (w.sources i).generation →
    s = w.sources i ∨ s.changes < (w.sources i).changes
  /-- The count tells the states of one source apart. -/
  unique : ∀ s s', w.Recalls s → w.Recalls s' → s.generation = s'.generation →
    s.changes = s'.changes → s = s'
  held : ∀ r h, w.cache.heldAt r = some h → ∀ i, h.snapshot.Trails (w.sources i)
  tasks : ∀ r task, w.tasks r = some task → w.Admits r task

omit [SyntaxNode N] in
theorem recalls_start {sources : ι → Tracked N} {s : Tracked N}
    (hs : (start sources).Recalls s) : ∃ i, s = sources i := by
  cases hs with
  | source i => exact ⟨i, rfl⟩
  | task h => simp [start] at h
  | answer h => simp [start] at h

theorem coherent_start {sources : ι → Tracked N}
    (distinct : Function.Injective fun i => (sources i).generation) :
    (start sources).Coherent where
  distinct := distinct
  past := by
    intro s hs i hg
    obtain ⟨j, rfl⟩ := recalls_start hs
    exact .inl (congrArg sources (distinct hg))
  unique := by
    intro s s' hs hs' hg _
    obtain ⟨i, rfl⟩ := recalls_start hs
    obtain ⟨j, rfl⟩ := recalls_start hs'
    exact congrArg sources (distinct hg)
  held := by
    intro r h hh
    simp [start] at hh
  tasks := by
    intro r task ht
    simp [start] at ht

namespace Coherent

variable {w : World ι N}

/-- As long as the sources stay and no other states are recalled, slots and requests are all that
matters. -/
theorem of_recalls {w' : World ι N} (hw : w.Coherent) (sources : w'.sources = w.sources)
    (recalls : ∀ s, w'.Recalls s → w.Recalls s)
    (held : ∀ r h, w'.cache.heldAt r = some h → ∀ i, h.snapshot.Trails (w.sources i))
    (tasks : ∀ r task, w'.tasks r = some task → w'.Admits r task) : w'.Coherent where
  distinct := sources ▸ hw.distinct
  past s hs := sources ▸ hw.past s (recalls s hs)
  unique s s' hs hs' := hw.unique s s' (recalls s hs) (recalls s' hs')
  held := sources ▸ held
  tasks := tasks

/-- Requests recall no states but those that were recalled before. -/
theorem setTask (hw : w.Coherent) {r : Route} {task : Task ι N} (hs : w.Recalls task.seen)
    (ht : w.Admits r task) : (w.setTask r task).Coherent := by
  refine hw.of_recalls rfl (fun s h => ?_) hw.held fun r' task' h => ?_
  · cases h with
    | source i => exact .source i
    | @task r' task' h =>
      by_cases hr : r' = r
      · rw [hr, tasks_setTask, Option.some.injEq] at h
        exact h ▸ hs
      · rw [tasks_setTask_of_ne hr] at h
        exact .task h
    | answer h => exact .answer h
  · by_cases hr : r' = r
    · rw [hr, tasks_setTask, Option.some.injEq] at h
      subst hr h
      exact ht.of_held rfl fun _ => id
    · rw [tasks_setTask_of_ne hr] at h
      exact (hw.tasks r' task' h).of_held rfl fun _ => id

theorem finish (hw : w.Coherent) {r : Route} {c : Cache} {a : Answer N} (hs : w.Recalls a.seen)
    (others : ∀ r', r' ≠ r → c.heldAt r' = w.cache.heldAt r')
    (own : ∀ h, c.heldAt r = some h → ∀ i, h.snapshot.Trails (w.sources i)) :
    (w.finish r c a).Coherent := by
  have tasks {r' : Route} {task : Task ι N} (h : (w.finish r c a).tasks r' = some task) :
      r' ≠ r ∧ w.tasks r' = some task := by
    by_cases hr : r' = r
    · rw [hr, tasks_finish] at h
      cases h
    · rw [tasks_finish_of_ne hr] at h
      exact ⟨hr, h⟩
  refine hw.of_recalls rfl (fun s h => ?_) (fun r' h hh => ?_) fun r' task h => ?_
  · cases h with
    | source i => exact .source i
    | task h => exact .task (tasks h).2
    | answer h =>
      rcases List.mem_append.1 h with h | h
      · exact .answer h
      · exact List.mem_singleton.1 h ▸ hs
  · by_cases hr : r' = r
    · exact own h (hr ▸ hh)
    · exact hw.held r' h (others r' hr ▸ hh)
  · obtain ⟨hr, h⟩ := tasks h
    exact (hw.tasks r' task h).of_held rfl fun h' hh => others r' hr ▸ hh

/-- A slot that nobody has locked may be emptied. -/
theorem invalidate (hw : w.Coherent) (root : Path) :
    ({ w with cache := w.cache.invalidate root } : World ι N).Coherent := by
  refine hw.of_recalls rfl (fun s h => ?_)
    (fun r h hh => hw.held r h (heldAt_of_invalidate hh)) fun r task h => ?_
  · cases h with
    | source i => exact .source i
    | task h => exact .task h
    | answer h => exact .answer h
  · exact (hw.tasks r task h).of_held rfl fun h' hh => heldAt_of_invalidate hh

/-- A step of a request goes on in the slot, answers from it, or answers by a new snapshot, which
counts as the source did when the request saw it. -/
theorem proceed_cases (hw : w.Coherent) {r : Route} {task : Task ι N}
    (ht : w.tasks r = some task) :
    (∃ task', w.proceed r task = w.setTask r task' ∧ w.Recalls task'.seen ∧ w.Admits r task') ∨
    (∃ h, w.proceed r task = w.finish r w.cache.hit ⟨h, false, task.seen⟩ ∧
      w.cache.heldAt r = some h ∧ h.snapshot = .take task.seen task.seen.changes) ∨
    ∃ root s, w.proceed r task = w.finish r (w.cache.store root s).2
        ⟨⟨s, w.cache.misses⟩, true, task.seen⟩ ∧ root.components = r ∧
      s.generation = task.seen.generation ∧ s.changes = task.seen.changes ∧
      ∀ i, s.Trails (w.sources i) := by
  have hs : w.Recalls task.seen := .task ht
  obtain ⟨root, generation, held, stage⟩ := hw.tasks r task ht
  obtain ⟨i, _ | n | n | ⟨n, q⟩ | ⟨n, q, _ | ⟨c, left⟩, index⟩ | s, seen⟩ := task
  case entered =>
    refine .inl ⟨_, rfl, .source i, root, rfl, fun h hh => hw.held r h hh i, rfl⟩
  case counted =>
    cases hf : w.cache.fresh? { w.sources i with changes := n } with
    | none =>
      exact .inl ⟨⟨i, .missed n, seen⟩, by simp only [World.proceed, hf], hs, root, generation,
        held, stage⟩
    | some h =>
      obtain ⟨hh, hshows⟩ := Option.filter_eq_some_iff.1 hf
      simp only [Snapshot.shows, Bool.and_eq_true, beq_iff_eq] at hshows
      have hr : w.cache.heldAt r = some h := root ▸ hh
      refine .inr (.inl ⟨h, by simp only [World.proceed, hf], hr, ?_⟩)
      exact (held h hr).eq_take (hshows.1.1.trans generation.symm) (hshows.1.2.trans stage)
  case missed =>
    exact .inl ⟨_, rfl, hs, root, generation, held, stage, fun _ => rfl⟩
  case begun =>
    refine .inl ⟨_, rfl, hs, root, generation, held, stage.1, fun he => ⟨stage.2 he, ?_⟩⟩
    exact (Provider.visit_eq_foldl_visitClass _ q AliasIndex.visit ⟨∅, ∅⟩).symm
  case searching.cons =>
    exact .inl ⟨_, rfl, hs, root, generation, held, stage⟩
  case searching.nil =>
    refine .inl ⟨_, rfl, hs, root, generation, held, generation.symm, stage.1, fun he => ?_⟩
    have hn : n = (w.sources i).changes := stage.1.trans (congrArg Tracked.changes he)
    have hq : q = (w.sources i).pattern := (stage.2 he).1
    have hi : index = (w.sources i).aliasIndex q := (stage.2 he).2
    change _ = Snapshot.mk _ (w.sources i).changes _
      ((w.sources i).aliasIndex (w.sources i).pattern)
    rw [← hn, ← hq, ← hi]
  case taken =>
    refine .inr (.inr ⟨_, s, rfl, root, stage.1, stage.2.1, fun j hj => ?_⟩)
    obtain rfl : i = j := hw.distinct (generation.symm.trans (stage.1.symm.trans hj))
    rcases hw.past seen hs i generation with he | hlt
    · exact .inr (stage.2.2 he)
    · exact .inl (stage.2.1 ▸ hlt)

theorem proceed (hw : w.Coherent) {r : Route} {task : Task ι N} (ht : w.tasks r = some task) :
    (w.proceed r task).Coherent := by
  obtain ⟨task', he, hs, ha⟩ | ⟨h, he, hh, -⟩ | ⟨root, s, he, rfl, -, -, hs⟩ := hw.proceed_cases ht
  · rw [he]
    exact hw.setTask hs ha
  · rw [he]
    exact hw.finish (.task ht) (fun _ _ => rfl) fun h' hh' => hw.held r h' hh'
  · rw [he]
    refine hw.finish (.task ht) (fun r' hr => ?_) fun h hh => ?_
    · rw [heldAt_store, if_neg hr]
    · rw [heldAt_store, if_pos rfl, Option.some.injEq] at hh
      exact hh ▸ hs

theorem changes_lt (hw : w.Coherent) {s : Tracked N} {i : ι} (h : w.Recalls s)
    (hg : s.generation = (w.sources i).generation) (contents : Provider N) (pattern : Pattern)
    (more : Nat) : s.changes < ((w.sources i).changed contents pattern more).changes := by
  have hlt : (w.sources i).changes < ((w.sources i).changed contents pattern more).changes := by
    simp only [Tracked.changed]
    omega
  rcases hw.past s h i hg with rfl | hs
  · exact hlt
  · exact Nat.lt_trans hs hlt

theorem change [DecidableEq ι] (hw : w.Coherent) (i : ι) (contents : Provider N)
    (pattern : Pattern) (more : Nat) :
    (w.setSource i ((w.sources i).changed contents pattern more)).Coherent := by
  let t := (w.sources i).changed contents pattern more
  have generation (j : ι) :
      ((w.setSource i t).sources j).generation = (w.sources j).generation :=
    apply_sources_setSource (t := t) (fun t => t.generation) rfl j
  have left {s : Tracked N} (h : w.Recalls s) (hg : s.generation = (w.sources i).generation) :
      s.changes < t.changes := hw.changes_lt h hg contents pattern more
  refine ⟨?distinct, ?past, ?unique, ?held, ?tasks⟩
  case distinct =>
    intro j k h
    simp only at h
    rw [generation, generation] at h
    exact hw.distinct h
  case past =>
    intro s hs j hg
    rw [generation] at hg
    rw [sources_setSource]
    split
    · next hj =>
      subst hj
      exact hs.of_setSource.imp id fun h => left h hg
    · next hj =>
      rcases hs.of_setSource with rfl | h
      · exact absurd (hw.distinct hg).symm hj
      · exact hw.past s h j hg
  case unique =>
    intro s s' hs hs' hg hn
    rcases hs.of_setSource with rfl | h <;> rcases hs'.of_setSource with rfl | h'
    · rfl
    · exact absurd hn.symm (Nat.ne_of_lt (left h' hg.symm))
    · exact absurd hn (Nat.ne_of_lt (left h hg))
    · exact hw.unique s s' h h' hg hn
  case held =>
    intro r h hh j
    rw [sources_setSource]
    split
    · exact (hw.held r h hh i).changed contents pattern more
    · exact hw.held r h hh j
  case tasks =>
    intro r task h
    obtain ⟨root, admitted, held, stage⟩ := hw.tasks r task h
    refine ⟨?_, admitted.trans (generation task.source).symm, held, ?_⟩
    · rw [← root]
      exact apply_sources_setSource (t := t) (fun t => t.root.components) rfl task.source
    · rw [sources_setSource]
      split
      · next hj =>
        refine stage.of_ne fun he => ?_
        exact Nat.ne_of_lt (left (.task h) (hj ▸ admitted)) (congrArg Tracked.changes he)
      · exact stage

theorem becomes [DecidableEq ι] {w' : World ι N} (hw : w.Coherent) (h : w.Becomes w') :
    w'.Coherent := by
  cases h with
  | change i contents pattern more => exact hw.change i contents pattern more
  | enter i => exact hw.setTask (.source i) ⟨rfl, rfl, fun h hh => hw.held _ h hh i, trivial⟩
  | proceed ht => exact hw.proceed ht
  | invalidate root => exact hw.invalidate root
  | wait => exact hw

end Coherent

structure Faithful (w : World ι N) : Prop where
  stamped : ∀ a ∈ w.answers, a.held.snapshot.generation = a.seen.generation ∧
    a.held.snapshot.changes = a.seen.changes
  numbered : ∀ a ∈ w.answers, a.held.ticket < w.cache.misses
  /-- A ticket stands for one snapshot. -/
  same : ∀ a ∈ w.answers, ∀ b ∈ w.answers, a.held.ticket = b.held.ticket → a.held = b.held
  answered : ∀ r h, w.cache.heldAt r = some h → ∃ a ∈ w.answers, a.held = h
  exact : ∀ a ∈ w.answers, a.computed = false → a.IsExact
  shared : w.answers.Pairwise fun a b => a.held.ticket = b.held.ticket → a.IsExact ∧ b.IsExact

theorem faithful_start (sources : ι → Tracked N) : (start sources).Faithful where
  stamped := by simp [start]
  numbered := by simp [start]
  same := by simp [start]
  answered := by simp [start]
  exact := by simp [start]
  shared := .nil

namespace Faithful

variable {w : World ι N}

/-- As long as no answer is given, a slot may at most be emptied. -/
theorem of_held {w' : World ι N} (hf : w.Faithful) (answers : w'.answers = w.answers)
    (misses : w'.cache.misses = w.cache.misses)
    (held : ∀ r h, w'.cache.heldAt r = some h → w.cache.heldAt r = some h) : w'.Faithful where
  stamped := answers ▸ hf.stamped
  numbered := answers ▸ misses ▸ hf.numbered
  same := answers ▸ hf.same
  answered r h hh := answers ▸ hf.answered r h (held r h hh)
  exact := answers ▸ hf.exact
  shared := answers ▸ hf.shared

theorem store (hf : w.Faithful) {task : Task ι N} {root : Path} {s : Snapshot}
    (hg : s.generation = task.seen.generation) (hn : s.changes = task.seen.changes) :
    (w.finish root.components (w.cache.store root s).2
      ⟨⟨s, w.cache.misses⟩, true, task.seen⟩).Faithful := by
  have new {a : Answer N} (ha : a ∈ w.answers) : a.held.ticket ≠ w.cache.misses :=
    Nat.ne_of_lt (hf.numbered a ha)
  refine ⟨?_, ?_, ?_, ?_, ?_, ?_⟩
  · simp only [finish, List.forall_mem_append, List.forall_mem_singleton]
    exact ⟨hf.stamped, hg, hn⟩
  · simp only [finish, List.forall_mem_append, List.forall_mem_singleton]
    exact ⟨fun a ha => Nat.lt_succ_of_lt (hf.numbered a ha), Nat.lt_succ_self _⟩
  · simp only [finish, List.forall_mem_append, List.forall_mem_singleton]
    exact ⟨fun a ha => ⟨hf.same a ha, fun he => absurd he (new ha)⟩,
      fun b hb he => absurd he.symm (new hb), fun _ => trivial⟩
  · intro r h hh
    change (w.cache.store root s).2.heldAt r = some h at hh
    rw [heldAt_store] at hh
    split at hh
    · exact ⟨_, List.mem_append_right _ (List.mem_singleton_self _), Option.some.inj hh⟩
    · obtain ⟨a, ha, he⟩ := hf.answered r h hh
      exact ⟨a, List.mem_append_left _ ha, he⟩
  · simp only [finish, List.forall_mem_append, List.forall_mem_singleton]
    exact ⟨hf.exact, fun h => absurd h (by simp)⟩
  · refine List.pairwise_append.2 ⟨hf.shared, List.pairwise_singleton _ _, fun a ha b hb he => ?_⟩
    rw [List.mem_singleton.1 hb] at he
    exact absurd he (new ha)

/-- A hit answers as its source is, and so does the request that has stored the snapshot. -/
theorem hit (hf : w.Faithful) (hw : w.Coherent) {r : Route} {task : Task ι N} {h : Held}
    (ht : w.tasks r = some task) (hh : w.cache.heldAt r = some h)
    (he : h.snapshot = .take task.seen task.seen.changes) :
    (w.finish r w.cache.hit ⟨h, false, task.seen⟩).Faithful := by
  obtain ⟨a₀, ha₀, rfl⟩ := hf.answered r h hh
  have exact : Answer.IsExact ⟨a₀.held, false, task.seen⟩ := Answer.isExact_iff.2 he
  refine ⟨?_, ?_, ?_, ?_, ?_, ?_⟩
  · simp only [finish, List.forall_mem_append, List.forall_mem_singleton]
    exact ⟨hf.stamped, congrArg Snapshot.generation he, congrArg Snapshot.changes he⟩
  · simp only [finish, List.forall_mem_append, List.forall_mem_singleton]
    exact ⟨hf.numbered, hf.numbered a₀ ha₀⟩
  · simp only [finish, List.forall_mem_append, List.forall_mem_singleton]
    exact ⟨fun a ha => ⟨hf.same a ha, hf.same a ha a₀ ha₀⟩, hf.same a₀ ha₀, fun _ => trivial⟩
  · intro r' h' hh'
    obtain ⟨a, ha, hx⟩ := hf.answered r' h' hh'
    exact ⟨a, List.mem_append_left _ ha, hx⟩
  · simp only [finish, List.forall_mem_append, List.forall_mem_singleton]
    exact ⟨hf.exact, fun _ => exact⟩
  · refine List.pairwise_append.2 ⟨hf.shared, List.pairwise_singleton _ _, fun a ha b hb hx => ?_⟩
    rw [List.mem_singleton.1 hb] at hx ⊢
    -- both requests have seen the source at the count of the snapshot
    have held : a.held = a₀.held := hf.same a ha a₀ ha₀ hx
    obtain ⟨hg, hn⟩ := hf.stamped a ha
    rw [held, he] at hg hn
    have seen : a.seen = task.seen :=
      (hw.unique _ _ (.task ht) (.answer ha) hg hn).symm
    exact ⟨Answer.isExact_iff.2 (by rw [held, seen, he]), exact⟩

theorem proceed (hf : w.Faithful) (hw : w.Coherent) {r : Route} {task : Task ι N}
    (ht : w.tasks r = some task) : (w.proceed r task).Faithful := by
  obtain ⟨task', he, -, -⟩ | ⟨h, he, hh, hs⟩ | ⟨root, s, he, rfl, hg, hn, -⟩ :=
    hw.proceed_cases ht
  · rw [he]
    exact hf.of_held rfl rfl fun _ _ => id
  · rw [he]
    exact hf.hit hw ht hh hs
  · rw [he]
    exact hf.store hg hn

theorem becomes [DecidableEq ι] {w' : World ι N} (hf : w.Faithful) (hw : w.Coherent)
    (h : w.Becomes w') : w'.Faithful := by
  cases h with
  | change i contents pattern more => exact hf.of_held rfl rfl fun _ _ => id
  | enter i => exact hf.of_held rfl rfl fun _ _ => id
  | proceed ht => exact hf.proceed hw ht
  | invalidate root =>
    exact hf.of_held rfl (w.cache.misses_invalidate root) fun _ _ => heldAt_of_invalidate
  | wait => exact hf

end Faithful

variable [DecidableEq ι]

/-- However requests, changes and invalidations interleave: a hit shows its source as the request
has seen it, and a snapshot that does not is given to the request that has taken it and to no
other. -/
theorem torn_snapshots_unshared {sources : ι → Tracked N}
    (distinct : Function.Injective fun i => (sources i).generation) (moves : List (Move ι N)) :
    (∀ a ∈ ((start sources).run moves).answers, a.computed = false → a.IsExact) ∧
    ((start sources).run moves).answers.Pairwise fun a b =>
      a.held.ticket = b.held.ticket → a.IsExact ∧ b.IsExact := by
  have hf : ((start sources).run moves).Coherent ∧ ((start sources).run moves).Faithful := by
    refine run_induction (P := fun w => w.Coherent ∧ w.Faithful)
      ⟨coherent_start distinct, faithful_start sources⟩ (fun w w' hw h => ?_) moves
    exact ⟨hw.1.becomes h, hw.2.becomes hw.1 h⟩
  exact ⟨hf.2.exact, hf.2.shared⟩

-- Two classes that register their own names, and a change between the reads of their methods.
namespace Midway

open Source

def classNode (name : String) : Node := .root (.node ⟨.classDeclaration, none, name, 0, 0⟩ [])

def contents (names : String) : Provider Node where
  classes _ := [classNode "A", classNode "B"]
  method c _ :=
    some (.root (parse ("<?php $aliases = ['" ++ c.text ++ "' => '" ++ names ++ "'];")).tree)

def source : Tracked Node :=
  { contents "old" with root := .ofText "/r", pattern := .standard, generation := 1, changes := 0 }

def advances (n : Nat) : List (Move Unit Node) := .replicate n (.advance source.root.components)

/-- The first request sees one class before and one after the change; two more follow. -/
def moves : List (Move Unit Node) :=
  .enter () :: advances 5 ++ .change () (contents "new") .standard 0 :: advances 3 ++
    .enter () :: advances 8 ++ .enter () :: advances 2

end Midway

/-- The mixed snapshot goes to the first request; the second takes a new one, which is held for the
third. -/
theorem torn_snapshots_unshared_midway :
    (Function.Injective fun _ : Unit => Midway.source.generation) ∧
    ((start fun _ => Midway.source).run Midway.moves).answers.map (fun a =>
        (a.computed, a.held.ticket, a.held.snapshot.index.map.get? "A",
          a.held.snapshot.index.map.get? "B")) =
      [(true, 0, some ["old"], some ["new"]), (true, 1, some ["new"], some ["new"]),
        (false, 1, some ["new"], some ["new"])] ∧
    (∀ a ∈ ((start fun _ => Midway.source).run Midway.moves).answers,
      a.computed = false → a.IsExact) ∧
    ((start fun _ => Midway.source).run Midway.moves).answers.Pairwise fun a b =>
      a.held.ticket = b.held.ticket → a.IsExact ∧ b.IsExact := by
  have distinct : Function.Injective fun _ : Unit => Midway.source.generation :=
    fun _ _ _ => rfl
  exact ⟨distinct, by decide +kernel, torn_snapshots_unshared distinct Midway.moves⟩

end World

end Cache

end ContainerAliases
