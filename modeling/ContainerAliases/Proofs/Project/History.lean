import ContainerAliases.Proofs.Project.Refresh

namespace ContainerAliases.Project

open Disk

/-- Projects after any history. Each step may meet another disk; a refresh that fails is no step. -/
inductive Reachable : Project → Prop where
  | onDisk {d : Disk} {root : Path} {config : Config} {g : Nat} {p : Project}
      (h : onDisk d root config g = .ok p) : Reachable p
  | ofSources (root : Path) (config : Config) (g : Nat) (sources : List (Path × String)) :
      Reachable (ofSources root config g sources)
  | update {p : Project} (hp : Reachable p) (path : Path) (text : String) :
      Reachable (p.update path text)
  | remove {p : Project} (hp : Reachable p) (path : Path) : Reachable (p.remove path).1
  | refresh {p q : Project} {d : Disk} {b : Bool} (hp : Reachable p)
      (h : p.refresh d = .ok (q, b)) : Reachable q

def AllFiles (P : Route → SourceFile → Prop) (p : Project) : Prop :=
  ∀ r f, p.files.get? r = some f → P r f

namespace AllFiles

variable {P : Route → SourceFile → Prop} {p : Project}

theorem empty (root : Path) (config : Config) (g : Nat) : AllFiles P (empty root config g) := by
  intro r f h
  simp [Project.empty] at h

theorem putBuffer (hbuf : ∀ r text, P r (.ofText text .buffer)) (hp : AllFiles P p)
    (path : Path) (text : String) : AllFiles P (p.putBuffer path text) := by
  intro r f h
  rw [Project.putBuffer, OrderedMap.get?_insert] at h
  split at h
  · cases h
    exact hbuf r text
  · exact hp r f h

theorem ofSources (hbuf : ∀ r text, P r (.ofText text .buffer)) (root : Path) (config : Config)
    (g : Nat) (sources : List (Path × String)) :
    AllFiles P (ofSources root config g sources) := by
  suffices ∀ p, AllFiles P p → AllFiles P (sources.foldl (fun p s => p.putBuffer s.1 s.2) p) from
    this _ (empty root config g)
  intro p hp
  induction sources generalizing p with
  | nil => exact hp
  | cons s sources ih => exact ih _ (hp.putBuffer hbuf s.1 s.2)

theorem remove (hp : AllFiles P p) (path : Path) : AllFiles P (p.remove path).1 := by
  intro r f h
  unfold Project.remove at h
  split at h
  · rw [touched, OrderedMap.get?_erase] at h
    split at h
    · cases h
    · exact hp r f h
  · exact hp r f h

theorem withFound {d : Disk} (hdisk : ∀ r f, fileOnDisk? d r = some f → P r f)
    (hp : AllFiles P p) (found : FileSet) : AllFiles P (p.withFound d found) := by
  intro r f h
  rw [get?_withFound] at h
  split at h
  · unfold renewed at h
    split at h
    · exact hdisk r f h
    · exact hp r f h
  · exact hp r f (Option.mem_filter_iff.1 h).1

end AllFiles

theorem Reachable.allFiles {P : Route → SourceFile → Prop}
    (hbuf : ∀ r text, P r (.ofText text .buffer))
    (hdisk : ∀ d r f, fileOnDisk? d r = some f → P r f) {p : Project} (hp : p.Reachable) :
    AllFiles P p := by
  induction hp with
  | onDisk h =>
    obtain ⟨found, -, rfl⟩ := exists_scan_of_onDisk h
    exact (AllFiles.empty _ _ _).withFound (hdisk _) found
  | ofSources root config g sources => exact AllFiles.ofSources hbuf root config g sources
  | update _ path text ih => exact ih.putBuffer hbuf path text
  | remove _ path ih => exact ih.remove path
  | refresh _ h ih =>
    obtain ⟨found, -, rfl, -⟩ := exists_scan_of_refresh h
    exact ih.withFound (hdisk _) found

theorem isSome_stamp? {d : Disk} {r : Route} {text : String} (h : d.readText r = .ok text) :
    (stamp? d r).isSome := by
  unfold readText at h
  unfold stamp? modified? find?
  cases hl : d.locate r with
  | error e => simp [hl, bind, Except.bind] at h
  | ok l =>
    simp only [hl, bind, Except.bind] at h
    split at h
    · next he => simp [Except.toOption, he]
    all_goals cases h

/-- A file that was read from a disk has the stamp that it had there. -/
theorem Reachable.origin_ne_unstamped {p : Project} (hp : p.Reachable) :
    AllFiles (fun _ f => f.origin ≠ .disk none) p := by
  refine hp.allFiles (fun _ _ => by simp [SourceFile.ofText]) fun d r f h => ?_
  obtain ⟨text, ht, rfl⟩ := Option.map_eq_some_iff.1 h
  cases hr : d.readText r with
  | error e => simp [hr, Except.toOption] at ht
  | ok text' =>
    have := isSome_stamp? hr
    intro hn
    simp only [SourceFile.ofText, Origin.disk.injEq] at hn
    simp [hn] at this

end ContainerAliases.Project
