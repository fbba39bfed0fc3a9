import ContainerAliases.Proofs.Alias.Collection
import ContainerAliases.Proofs.Cache.Slots
import ContainerAliases.Proofs.Project.Refresh
import ContainerAliases.Proofs.Session.Run

namespace ContainerAliases

/-- `q` is the project `p`, either as it is or after a change that was counted. -/
structure Project.Precedes (p q : Project) : Prop where
  generation : q.generation = p.generation
  counted : q = p ∨ p.changes < q.changes

namespace Project

theorem precedes_update (p : Project) (path : Disk.Path) (text : String) :
    p.Precedes (p.update path text) :=
  ⟨rfl, .inr (Nat.lt_succ_self _)⟩

theorem precedes_remove (p : Project) (path : Disk.Path) : p.Precedes (p.remove path).1 := by
  unfold remove
  split
  · exact ⟨rfl, .inr (Nat.lt_succ_self _)⟩
  · exact ⟨rfl, .inl rfl⟩

theorem precedes_withFound (p : Project) (d : Disk) (found : FileSet) :
    p.Precedes (p.withFound d found) := by
  refine ⟨rfl, ?_⟩
  cases hc : (refreshFiles d found p.files).2 with
  | true => exact .inr (by simp [withFound, hc])
  | false => exact .inl (by simp [withFound, hc, refreshFiles_of_unchanged hc])

theorem generation_ofSources (root : Disk.Path) (config : Config) (g : Nat)
    (sources : List (Disk.Path × String)) : (ofSources root config g sources).generation = g := by
  suffices ∀ p : Project, (sources.foldl (fun p s => p.putBuffer s.1 s.2) p).generation =
      p.generation from this (empty root config g)
  intro p
  induction sources generalizing p with
  | nil => rfl
  | cons s sources ih => rw [List.foldl_cons, ih]; rfl

def snapshot (p : Project) : Snapshot := .take p.tracked p.changes

theorem snapshot_eq (p : Project) :
    p.snapshot = ⟨p.generation, p.changes, p.pattern, ⟨p.aliasMap, p.aliasKeys⟩⟩ :=
  congrArg (Snapshot.mk _ _ _) (Alias.Provider.aliasIndex_eq p.provider p.pattern)

end Project

/-- A snapshot of the same project is no younger than the project, and if no change was counted
since, it shows the project as it is. -/
def Snapshot.Fits (s : Snapshot) (p : Project) : Prop :=
  s.generation = p.generation → s.changes ≤ p.changes ∧ (s.changes = p.changes → s = p.snapshot)

namespace Snapshot

theorem fits_snapshot (p : Project) : p.snapshot.Fits p := fun _ => ⟨Nat.le_refl _, fun _ => rfl⟩

theorem fits_of_generation_lt {s : Snapshot} {p : Project} (h : s.generation < p.generation) :
    s.Fits p := fun he => absurd he (Nat.ne_of_lt h)

/-- This is why every change has to be counted. -/
theorem Fits.of_precedes {s : Snapshot} {p q : Project} (hs : s.Fits p) (hp : p.Precedes q) :
    s.Fits q := by
  intro hg
  have ⟨hle, heq⟩ := hs (hg.trans hp.generation)
  obtain rfl | hlt := hp.counted
  · exact ⟨hle, heq⟩
  · exact ⟨by omega, fun he => absurd he (by omega)⟩

end Snapshot

namespace Session

def Holds (s : Session) (c : String) (r : Disk.Route) (h : Cache.Held) : Prop :=
  (s.cache c).heldAt r = some h

/-- Generations tell projects apart, and what a cache holds fits every project. -/
structure Sound (s : Session) : Prop where
  older : ∀ n p, s.project? n = some p → p.generation < s.nextGeneration
  unique : ∀ n m p q, s.project? n = some p → s.project? m = some q →
    p.generation = q.generation → n = m
  heldOlder : ∀ c r h, s.Holds c r h → h.snapshot.generation < s.nextGeneration
  heldFits : ∀ c r h n p, s.Holds c r h → s.project? n = some p → h.snapshot.Fits p

theorem project?_setProject (s : Session) (n m : String) (p : Project) :
    (s.setProject n p).project? m = if m = n then some p else s.project? m :=
  OrderedMap.get?_insert ..

theorem project?_setProject_self (s : Session) (n : String) (p : Project) :
    (s.setProject n p).project? n = some p :=
  (s.project?_setProject n n p).trans (if_pos rfl)

theorem project?_setProject_of_ne {s : Session} {n m : String} (h : m ≠ n) (p : Project) :
    (s.setProject n p).project? m = s.project? m :=
  (s.project?_setProject n m p).trans (if_neg h)

theorem withProject_of_some {s : Session} {n : String} {p : Project} (h : s.project? n = some p)
    (f : Project → Session) : s.withProject n f = f p := by
  rw [withProject, h, Option.elim_some]

theorem cache_setCache (s : Session) (c e : String) (x : Cache) :
    (s.setCache c x).cache e = if e = c then x else s.cache e := by
  simp only [cache, setCache, OrderedMap.get?_insert]
  split <;> rfl

theorem not_holds_start (d : Disk) (c : String) (r : Disk.Route) (h : Cache.Held) :
    ¬ (start d).Holds c r h := by
  simp [Holds, start, cache]

namespace Sound

theorem start (d : Disk) : Sound (start d) where
  older n p h := by simp [Session.start, project?] at h
  unique n m p q h := by simp [Session.start, project?] at h
  heldOlder c r h hh := absurd hh (not_holds_start d c r h)
  heldFits c r h n p hh := absurd hh (not_holds_start d c r h)

variable {s : Session}

theorem changeDisk (hs : Sound s) (f : Disk → Disk) : Sound (s.changeDisk f) :=
  ⟨hs.older, hs.unique, hs.heldOlder, hs.heldFits⟩

theorem grown (hs : Sound s) : Sound s.grown where
  older n p h := Nat.lt_succ_of_lt (hs.older n p h)
  unique := hs.unique
  heldOlder c r h hh := Nat.lt_succ_of_lt (hs.heldOlder c r h hh)
  heldFits := hs.heldFits

theorem addProject (hs : Sound s) (n : String) {q : Project}
    (hq : q.generation = s.nextGeneration) : Sound (s.grown.setProject n q) where
  older m p h := by
    rw [project?_setProject] at h
    split at h
    · cases h
      exact hq ▸ Nat.lt_succ_self _
    · exact hs.grown.older m p h
  unique m k p p' hp hp' he := by
    rw [project?_setProject] at hp hp'
    split at hp <;> split at hp'
    · next hm hk => rw [hm, hk]
    · cases hp
      have := hs.older k p' hp'
      omega
    · cases hp'
      have := hs.older m p hp
      omega
    · exact hs.unique m k p p' hp hp' he
  heldOlder := hs.grown.heldOlder
  heldFits c r h m p hh hp := by
    rw [project?_setProject] at hp
    split at hp
    · cases hp
      -- whatever is held was taken of an older project
      exact Snapshot.fits_of_generation_lt (hq ▸ hs.heldOlder c r h hh)
    · exact hs.heldFits c r h m p hh hp

/-- A project may change, if its change is counted. -/
theorem setProject (hs : Sound s) {n : String} {p q : Project} (hn : s.project? n = some p)
    (hq : p.Precedes q) : Sound (s.setProject n q) where
  older m p' h := by
    rw [project?_setProject] at h
    split at h
    · cases h
      exact hq.generation ▸ hs.older n p hn
    · exact hs.older m p' h
  unique m k p₁ p₂ h₁ h₂ he := by
    rw [project?_setProject] at h₁ h₂
    split at h₁ <;> split at h₂
    · next hm hk => rw [hm, hk]
    · next hm _ =>
      cases h₁
      exact hm ▸ hs.unique n k p p₂ hn h₂ (hq.generation ▸ he)
    · next _ hk =>
      cases h₂
      exact hk ▸ hs.unique m n p₁ p h₁ hn (hq.generation ▸ he)
    · exact hs.unique m k p₁ p₂ h₁ h₂ he
  heldOlder := hs.heldOlder
  heldFits c r h m p' hh hp := by
    rw [project?_setProject] at hp
    split at hp
    · cases hp
      exact (hs.heldFits c r h n p hh hn).of_precedes hq
    · exact hs.heldFits c r h m p' hh hp

theorem setCache (hs : Sound s) (c : String) {x : Cache}
    (hx : ∀ r h, x.heldAt r = some h → s.Holds c r h ∨
      h.snapshot.generation < s.nextGeneration ∧
        ∀ n p, s.project? n = some p → h.snapshot.Fits p) : Sound (s.setCache c x) := by
  have hh (e : String) (r : Disk.Route) (h : Cache.Held) (he : (s.setCache c x).Holds e r h) :
      s.Holds e r h ∨ h.snapshot.generation < s.nextGeneration ∧
        ∀ n p, s.project? n = some p → h.snapshot.Fits p := by
    rw [Holds, cache_setCache] at he
    split at he
    · next hc => exact hc ▸ hx r h he
    · exact .inl he
  refine ⟨hs.older, hs.unique, fun e r h he => ?_, fun e r h n p he hp => ?_⟩
  · exact (hh e r h he).elim (hs.heldOlder e r h) And.left
  · exact (hh e r h he).elim (fun he => hs.heldFits e r h n p he hp) fun hn => hn.2 n p hp

theorem request (hs : Sound s) (c : String) {n : String} {p : Project}
    (hn : s.project? n = some p) : Sound (s.request c p).2 := by
  change Sound (s.setCache c ((s.cache c).request p.tracked).2)
  refine hs.setCache c fun r h hh => ?_
  obtain ⟨h', -, -, -, -, he⟩ | he := (s.cache c).request_cases p.tracked
  · rw [he] at hh
    exact .inl hh
  · rw [he, Cache.heldAt_store] at hh
    split at hh
    · cases hh
      refine .inr ⟨hs.older n p hn, fun m q hm hg => ?_⟩
      -- the one project of this generation is `p`, of which the snapshot was just taken
      obtain rfl := hs.unique n m p q hn hm hg
      obtain rfl := Option.some.inj (hn.symm.trans hm)
      exact Snapshot.fits_snapshot p hg
    · exact .inl hh

theorem invalidate (hs : Sound s) (c : String) (root : Disk.Path) :
    Sound (s.invalidate c root) := by
  refine hs.setCache c fun r h hh => .inl ?_
  rw [Cache.heldAt_invalidate] at hh
  split at hh
  · cases hh
  · exact hh

theorem openProject (hs : Sound s) (n : String) (root : Disk.Path) (config : Config) :
    Sound (s.openProject n root config).2 := by
  unfold Session.openProject
  split
  · next p h =>
    obtain ⟨found, -, rfl⟩ := Project.exists_scan_of_onDisk h
    exact hs.addProject n rfl
  · exact hs.grown

theorem refresh (hs : Sound s) {n : String} {p : Project} (hn : s.project? n = some p) :
    Sound (s.refresh n p).2 := by
  unfold Session.refresh
  split
  · next q b h =>
    obtain ⟨found, -, rfl, -⟩ := Project.exists_scan_of_refresh h
    exact hs.setProject hn (p.precedes_withFound s.disk found)
  · exact hs

theorem withProject (hs : Sound s) (n : String) {f : Project → Session}
    (hf : ∀ p, s.project? n = some p → Sound (f p)) : Sound (s.withProject n f) := by
  unfold Session.withProject
  cases hn : s.project? n with
  | none => exact hs
  | some p => exact hf p hn

theorem apply (hs : Sound s) (x : Step) : Sound (x.apply s) := by
  cases x with
  | changeDisk f => exact hs.changeDisk f
  | addSources n root config sources =>
    exact hs.addProject n (Project.generation_ofSources root config s.nextGeneration sources)
  | openProject n root config => exact hs.openProject n root config
  | update n path text =>
    exact hs.withProject n fun p hn => hs.setProject hn (p.precedes_update path text)
  | remove n path => exact hs.withProject n fun p hn => hs.setProject hn (p.precedes_remove path)
  | refresh n => exact hs.withProject n fun p hn => hs.refresh hn
  | ask c n q => exact hs.withProject n fun p hn => hs.request c hn
  | invalidate c root => exact hs.invalidate c root

theorem snapshot_request (hs : Sound s) (c : String) {n : String} {p : Project}
    (hn : s.project? n = some p) : (s.request c p).1.snapshot = p.snapshot := by
  change ((s.cache c).request p.tracked).1.snapshot = _
  obtain ⟨h, hh, hg, hc, -, he⟩ | he := (s.cache c).request_cases p.tracked
  · rw [he]
    -- the stamp is that of `p`, so no change was counted since the snapshot was taken
    exact (hs.heldFits c _ h n p hh hn hg).2 hc
  · rw [he]
    rfl

theorem answer?_eq (hs : Sound s) (x : Step) : x.answer? s = x.discovery? s := by
  cases x with
  | ask c n q =>
    cases hn : s.project? n with
    | none => simp [Step.answer?, Step.discovery?, hn]
    | some p =>
      simp only [Step.answer?, Step.discovery?, hn, Option.map_some, hs.snapshot_request c hn,
        p.snapshot_eq]
      cases q <;> rfl
  | _ => rfl

theorem answers_eq (hs : Sound s) (steps : List Step) :
    answers (fun s x => x.answer? s) s steps = answers (fun s x => x.discovery? s) s steps := by
  induction steps generalizing s with
  | nil => rfl
  | cons x steps ih => rw [answers, answers, hs.answer?_eq, ih (hs.apply x)]

end Sound

/-- Over any run from any disk, with any caches and projects, each answer of a cache is what
discovery gives for the project at that moment, under its present stamp. -/
theorem cached_answers_eq_discovery (d : Disk) (steps : List Step) :
    answers (fun s x => x.answer? s) (start d) steps =
      answers (fun s x => x.discovery? s) (start d) steps :=
  (Sound.start d).answers_eq steps

end Session

end ContainerAliases
