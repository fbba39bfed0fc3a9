import ContainerAliases.Session
import ContainerAliases.Proofs.Project.Refresh
import ContainerAliases.Proofs.Project.Scanning
import ContainerAliases.Proofs.Project.Wildcards

namespace ContainerAliases.Project

open Disk

variable {d : Disk} {p q : Project} {root : Path} {entry : String} {e : Error} {α β : Type}

/-- Steps on a project in place. After an error they leave it as it is by then. -/
abbrev InPlace (α : Type) := ExceptT Error (StateM Project) α

/-- What the steps give, and what they make of `p`. -/
def InPlace.on (x : InPlace α) (p : Project) : Except Error α × Project := x.run.run p

def gather (d : Disk) (found : FileSet) (entry : String) : InPlace FileSet := do
  let p ← get
  let ps ← MonadExcept.ofExcept (starts d p.root entry)
  return (ps.flatMap (sourcesAt d p.config)).foldl (fun found r => found.insert r ()) found

def forget (found : FileSet) (changed : Bool) (b : Route × SourceFile) : InPlace Bool := do
  if isGone found b.1 b.2 then
    modify fun p => { p with files := p.files.erase b.1 }
    return true
  return changed

def renew (d : Disk) (changed : Bool) (r : Route) : InPlace Bool := do
  let p ← get
  let stamp := (d.modified? r).map Stamp.ofMoment
  if needsReload ((p.files.get? r).map SourceFile.origin) stamp then
    set { p with files := reload d p.files r stamp }
    return true
  return changed

def report (changed : Bool) : InPlace Bool := do
  if changed then modify touched
  return changed

/-- Brings the files up to date one by one, and tells whether anything changed. -/
def refreshInPlace (d : Disk) : InPlace Bool := do
  let p ← get
  let found ← p.config.scanPaths.foldlM (gather d) ∅
  let changed ← p.files.toList.foldlM (forget found) false
  let changed ← found.keys.foldlM (renew d) changed
  report changed

/-- The scan path is refused: it has wildcards, without being a pattern below the root. -/
def IsRefused (root : Path) (entry : String) (fault : Glob.Fault) : Prop :=
  entry.toList.any isWildcard ∧ Glob.patterns (root.child entry) = .error fault

/-- A refresh fails if a scan path is refused, and blames the first. Run in place it leaves the
project as it was then, with all that it answers and all that a cache has fresh for it. A project is
opened unless its refresh fails, and with the same error. -/
structure FailsUntouched (d : Disk) (p : Project) : Prop where
  isOk_iff : (p.refresh d).isOk ↔
    ∀ entry ∈ p.config.scanPaths, ∀ fault, ¬ IsRefused p.root entry fault
  blamed : ∀ e, p.refresh d = .error e ↔ ∃ before entry after fault,
    p.config.scanPaths = before ++ entry :: after ∧
      (∀ earlier ∈ before, ∀ fault, ¬ IsRefused p.root earlier fault) ∧
      IsRefused p.root entry fault ∧ e = .invalidPattern entry fault
  inPlace : ∀ q changed, p.refresh d = .ok (q, changed) ↔
    (refreshInPlace d).on p = (.ok changed, q)
  untouched : ∀ e q, (refreshInPlace d).on p = (.error e, q) ↔ p.refresh d = .error e ∧ q = p
  session : ∀ (s : Session) name e t, s.disk = d → s.refresh name p = (.error e, t) → t = s
  opening : ∀ g e, onDisk d p.root p.config g = .error e ↔ p.refresh d = .error e

namespace InPlace

theorem on_get_bind (f : Project → InPlace α) (p : Project) :
    (get >>= f : InPlace α).on p = (f p).on p := rfl

theorem on_bind (x : InPlace α) (f : α → InPlace β) (p : Project) :
    (x >>= f).on p = match x.on p with
      | (.ok a, q) => (f a).on q
      | (.error e, q) => (.error e, q) := by
  change (match x.on p with
    | (r, q) => (ExceptT.bindCont f r : StateM Project (Except Error β)) q) = _
  rcases x.on p with ⟨_ | _, _⟩ <;> rfl

end InPlace

theorem on_gather (d : Disk) (found : FileSet) (entry : String) (p : Project) :
    (gather d found entry).on p = ((starts d p.root entry).map fun ps =>
      (ps.flatMap (sourcesAt d p.config)).foldl (fun found r => found.insert r ()) found, p) := by
  rw [gather, InPlace.on_get_bind, InPlace.on_bind]
  cases starts d p.root entry <;> rfl

theorem on_foldlM_gather (d : Disk) (entries : List String) (found : FileSet) (p : Project) :
    (entries.foldlM (gather d) found).on p = ((entries.mapM (starts d p.root)).map fun pss =>
      (pss.flatten.flatMap (sourcesAt d p.config)).foldl (fun found r => found.insert r ()) found,
      p) := by
  induction entries generalizing found with
  | nil => rfl
  | cons entry entries ih =>
    rw [List.foldlM_cons, InPlace.on_bind, on_gather, mapM_cons]
    cases starts d p.root entry with
    | error e => rfl
    | ok ps =>
      simp only [Except.map, ih, Except.bind]
      cases entries.mapM (starts d p.root) with
      | error e => rfl
      | ok pss => simp only [List.flatten_cons, List.flatMap_append, List.foldl_append]

theorem on_scan (d : Disk) (p : Project) :
    (p.config.scanPaths.foldlM (gather d) ∅).on p = (scan d p.root p.config, p) := by
  rw [on_foldlM_gather, scan]
  cases p.config.scanPaths.mapM (starts d p.root) with
  | error e => rfl
  | ok pss =>
    simp only [Except.map, bind, Except.bind, pure, Except.pure, OrderedMap.ofList, List.foldl_map]

def dropIfGone (found : FileSet) (files : FileMap) (b : Route × SourceFile) : FileMap :=
  if isGone found b.1 b.2 then files.erase b.1 else files

theorem on_forget (found : FileSet) (changed : Bool) (b : Route × SourceFile) (p : Project) :
    (forget found changed b).on p =
      (.ok (changed || isGone found b.1 b.2), { p with files := dropIfGone found p.files b }) := by
  rw [forget, dropIfGone]
  cases isGone found b.1 b.2 with
  | false => rw [Bool.or_false]; rfl
  | true => rw [Bool.or_true]; rfl

theorem on_foldlM_forget (found : FileSet) (l : List (Route × SourceFile)) (changed : Bool)
    (p : Project) : (l.foldlM (forget found) changed).on p =
      (.ok (changed || l.any fun b => isGone found b.1 b.2),
        { p with files := l.foldl (dropIfGone found) p.files }) := by
  induction l generalizing changed p with
  | nil => rw [List.any_nil, Bool.or_false]; rfl
  | cons b l ih =>
    rw [List.foldlM_cons, InPlace.on_bind, on_forget]
    simp only [ih, List.any_cons, List.foldl_cons, Bool.or_assoc]

theorem get?_foldl_dropIfGone (found : FileSet) (l : List (Route × SourceFile)) (files : FileMap)
    (r : Route) : (l.foldl (dropIfGone found) files).get? r =
      if l.any fun b => b.1 == r && isGone found b.1 b.2 then none else files.get? r := by
  induction l generalizing files with
  | nil => rfl
  | cons b l ih =>
    have step : (dropIfGone found files b).get? r =
        if b.1 == r && isGone found b.1 b.2 then none else files.get? r := by
      rw [dropIfGone]
      cases isGone found b.1 b.2 with
      | false => simp
      | true => simp [OrderedMap.get?_erase, beq_iff_eq, eq_comm (a := r)]
    rw [List.foldl_cons, ih, step, List.any_cons]
    grind

/-- To drop the files that have gone one by one is to keep the others. -/
theorem foldl_dropIfGone_eq (found : FileSet) (files : FileMap) :
    files.toList.foldl (dropIfGone found) files = files.filter fun r f => !isGone found r f := by
  refine OrderedMap.ext_get? fun r => ?_
  have gone : (files.toList.any fun b => b.1 == r && isGone found b.1 b.2) ↔
      ∃ f, files.get? r = some f ∧ isGone found r f := by
    simp only [List.any_eq_true, Bool.and_eq_true, beq_iff_eq, Prod.exists,
      OrderedMap.mem_toList_iff]
    constructor
    · rintro ⟨_, f, hf, rfl, hg⟩
      exact ⟨f, hf, hg⟩
    · rintro ⟨f, hf, hg⟩
      exact ⟨r, f, hf, rfl, hg⟩
  rw [get?_foldl_dropIfGone, OrderedMap.get?_filter]
  simp only [gone]
  cases files.get? r with
  | none => simp
  | some f => cases hg : isGone found r f <;> simp [Option.filter_some, hg]

theorem any_isGone_eq (found : FileSet) (files : FileMap) :
    (files.toList.any fun b => isGone found b.1 b.2) =
      ((files.filter fun r f => !isGone found r f).size != files.size) := by
  rw [Bool.eq_iff_iff, bne_iff_ne, size_filter_ne_iff, List.any_eq_true]
  simp [OrderedMap.mem_toList_iff]

theorem on_renew (d : Disk) (changed : Bool) (r : Route) (p : Project) :
    (renew d changed r).on p = (.ok (refreshFile d (p.files, changed) r).2,
      { p with files := (refreshFile d (p.files, changed) r).1 }) := by
  rw [renew, InPlace.on_get_bind, refreshFile]
  dsimp only
  split <;> rfl

theorem on_foldlM_renew (d : Disk) (l : List Route) (changed : Bool) (p : Project) :
    (l.foldlM (renew d) changed).on p = (.ok (l.foldl (refreshFile d) (p.files, changed)).2,
      { p with files := (l.foldl (refreshFile d) (p.files, changed)).1 }) := by
  induction l generalizing changed p with
  | nil => rfl
  | cons r l ih =>
    rw [List.foldlM_cons, InPlace.on_bind, on_renew]
    exact ih ..

theorem on_report (changed : Bool) (p : Project) :
    (report changed).on p = (.ok changed, if changed then p.touched else p) := by
  cases changed <;> rfl

theorem on_refreshInPlace (d : Disk) (p : Project) : (refreshInPlace d).on p =
    match p.refresh d with
    | .ok (q, changed) => (.ok changed, q)
    | .error e => (.error e, p) := by
  rw [refreshInPlace, InPlace.on_get_bind, InPlace.on_bind, on_scan, refresh]
  cases scan d p.root p.config with
  | error e => rfl
  | ok found =>
    simp only [InPlace.on_bind, on_foldlM_forget, on_foldlM_renew, foldl_dropIfGone_eq,
      any_isGone_eq, Bool.false_or, on_report]
    rfl

theorem starts_eq_error_iff : starts d root entry = .error e ↔
    ∃ fault, IsRefused root entry fault ∧ e = .invalidPattern entry fault := by
  by_cases wild : entry.toList.any isWildcard
  · have found : starts d root entry = ((Glob.patterns (root.child entry)).map _).mapError _ :=
      starts_of_wildcard wild
    rw [found]
    simp only [IsRefused, wild, true_and]
    cases Glob.patterns (root.child entry) with
    | error fault => simp [Except.map, Except.mapError, eq_comm]
    | ok patterns => simp [Except.map, Except.mapError]
  · rw [starts, if_neg wild]
    simp [IsRefused, wild]

theorem isOk_starts_iff : (starts d root entry).isOk ↔ ∀ fault, ¬ IsRefused root entry fault := by
  cases h : starts d root entry with
  | error e =>
    obtain ⟨fault, refused, -⟩ := starts_eq_error_iff.1 h
    exact iff_of_false (by simp [Except.isOk, Except.toBool]) fun h => h fault refused
  | ok ps =>
    refine iff_of_true rfl fun fault refused => ?_
    cases h.symm.trans (starts_eq_error_iff.2 ⟨fault, refused, rfl⟩)

theorem refresh_eq_error_iff : p.refresh d = .error e ↔ scan d p.root p.config = .error e := by
  rw [refresh]
  cases scan d p.root p.config <;> simp [bind, Except.bind, pure, Except.pure]

theorem scan_eq_error_iff {c : Config} : scan d root c = .error e ↔
    ∃ before entry after fault, c.scanPaths = before ++ entry :: after ∧
      (∀ earlier ∈ before, ∀ fault, ¬ IsRefused root earlier fault) ∧
      IsRefused root entry fault ∧ e = .invalidPattern entry fault := by
  have stops : scan d root c = .error e ↔ c.scanPaths.mapM (starts d root) = .error e := by
    rw [scan]
    cases c.scanPaths.mapM (starts d root) <;> simp [bind, Except.bind, pure, Except.pure]
  simp only [stops, mapM_eq_error_iff, isOk_starts_iff, starts_eq_error_iff, exists_and_left]

theorem isOk_refresh_iff : (p.refresh d).isOk ↔
    ∀ entry ∈ p.config.scanPaths, ∀ fault, ¬ IsRefused p.root entry fault := by
  have same : (p.refresh d).isOk = (scan d p.root p.config).isOk := by
    rw [refresh]
    cases scan d p.root p.config <;> rfl
  simp only [same, isOk_scan_iff, isOk_starts_iff]

theorem onDisk_eq_error_iff {c : Config} {g : Nat} :
    onDisk d root c g = .error e ↔ scan d root c = .error e := by
  rw [onDisk, ← show (empty root c g).refresh d = .error e ↔ scan d root c = .error e from
    refresh_eq_error_iff]
  cases (empty root c g).refresh d <;> simp [bind, Except.bind, pure, Except.pure]

/-- No change is made before the last scan path has been gone through. -/
theorem failed_refresh_untouched (d : Disk) (p : Project) : FailsUntouched d p where
  isOk_iff := isOk_refresh_iff
  blamed e := refresh_eq_error_iff.trans scan_eq_error_iff
  inPlace q changed := by
    rw [on_refreshInPlace]
    cases p.refresh d <;> simp [and_comm, Prod.ext_iff]
  untouched e q := by
    rw [on_refreshInPlace]
    cases p.refresh d <;> simp [eq_comm]
  session s name e t hd h := by
    rw [Session.refresh] at h
    cases hr : p.refresh s.disk <;> rw [hr] at h <;> cases h
    rfl
  opening g e := onDisk_eq_error_iff.trans refresh_eq_error_iff.symm

-- A file waits on the disk, and two of three scan paths are no patterns.
namespace Waiting

def disk : Disk := Disk.write default (.ofText "/r/app/a.php") (some "<?php class A {}") second

def project : Project :=
  ofSources (.ofText "/r") { Config.standard with scanPaths := ["app", "src/**x", "a***"] } 1 []

def fault : Glob.Fault := ⟨9, .component⟩

theorem isRefused : IsRefused project.root "src/**x" fault := by
  have read : (match Glob.patterns (project.root.child "src/**x") with
      | .ok _ => none
      | .error f => some f) = some fault := by decide +kernel
  refine ⟨by decide, ?_⟩
  cases h : Glob.patterns (project.root.child "src/**x") <;> rw [h] at read <;> cases read
  rfl

end Waiting

theorem failed_refresh_untouched_waiting :
    (refreshInPlace Waiting.disk).on Waiting.project =
        (.error (.invalidPattern "src/**x" Waiting.fault), Waiting.project) ∧
      (Error.invalidPattern "src/**x" Waiting.fault).message =
        "invalid scan path pattern 'src/**x': Pattern syntax error near position 9: " ++
          "recursive wildcards must form a single path component" := by
  have untouched := failed_refresh_untouched Waiting.disk Waiting.project
  have plain (fault : Glob.Fault) : ¬ IsRefused Waiting.project.root "app" fault := by
    rintro ⟨wild, -⟩
    exact absurd wild (by decide)
  refine ⟨(untouched.untouched _ _).2 ⟨(untouched.blamed _).2 ⟨["app"], "src/**x", ["a***"],
    Waiting.fault, rfl, ?_, Waiting.isRefused, rfl⟩, rfl⟩, by decide +kernel⟩
  intro earlier h
  rw [List.mem_singleton.1 h]
  exact plain

end ContainerAliases.Project
