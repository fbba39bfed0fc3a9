import ContainerAliases.Project.Basic
import ContainerAliases.Proofs.OrderedMap

namespace ContainerAliases.Project

open Disk

def stamp? (d : Disk) (r : Route) : Option Stamp := (d.modified? r).map Stamp.ofMoment

def fileOnDisk? (d : Disk) (r : Route) : Option SourceFile :=
  (d.readText r).toOption.map fun text => .ofText text (.disk (stamp? d r))

/-- What is held for a route that was found, after `held` was. -/
def renewed (d : Disk) (r : Route) (held : Option SourceFile) : Option SourceFile :=
  if needsReload (held.map SourceFile.origin) (stamp? d r) then fileOnDisk? d r else held

theorem SourceFile.eq_ofText (f : SourceFile) : f = .ofText f.text f.origin := by
  obtain ⟨text, origin, tree, classes, rfl, rfl⟩ := f
  rfl

theorem get?_reload (d : Disk) (files : FileMap) (r j : Route) :
    (reload d files r (stamp? d r)).get? j = if j = r then fileOnDisk? d r else files.get? j := by
  unfold reload fileOnDisk?
  cases d.readText r with
  | ok text => exact OrderedMap.get?_insert ..
  | error e => exact OrderedMap.get?_erase ..

/-- A step is about its own route only. -/
theorem get?_refreshFile (d : Disk) (s : FileMap × Bool) (r j : Route) :
    (refreshFile d s r).1.get? j = if j = r then renewed d r (s.1.get? r) else s.1.get? j := by
  change (if needsReload ((s.1.get? r).map SourceFile.origin) (stamp? d r)
    then (reload d s.1 r (stamp? d r), true) else s).1.get? j = _
  unfold renewed
  by_cases hn : needsReload ((s.1.get? r).map SourceFile.origin) (stamp? d r)
  · simp only [if_pos hn, get?_reload]
  · by_cases hj : j = r <;> simp [hn, hj]

theorem get?_foldl_refreshFile (d : Disk) {l : List Route} (hl : l.Nodup) (s : FileMap × Bool)
    (j : Route) :
    (l.foldl (refreshFile d) s).1.get? j =
      if j ∈ l then renewed d j (s.1.get? j) else s.1.get? j := by
  induction l generalizing s with
  | nil => simp
  | cons r l ih =>
    have ⟨hr, hl⟩ := List.nodup_cons.1 hl
    rw [List.foldl_cons, ih hl, get?_refreshFile]
    by_cases hj : j = r
    · -- no route comes twice, so what the first step did to `j` stays
      subst hj
      simp [hr]
    · simp [hj]

theorem get?_refreshFiles (d : Disk) (found : FileSet) (files : FileMap) (r : Route) :
    (refreshFiles d found files).1.get? r =
      if found.contains r then renewed d r (files.get? r)
      else (files.get? r).filter fun f => f.origin == .buffer := by
  have hk (r : Route) : (files.filter fun r f => !isGone found r f).get? r =
      (files.get? r).filter fun f => !isGone found r f := OrderedMap.get?_filter ..
  unfold refreshFiles
  rw [get?_foldl_refreshFile d found.nodup_keys, hk]
  simp only [OrderedMap.mem_keys_iff, isGone]
  by_cases hf : found.contains r
  · cases files.get? r <;> simp [hf, Option.filter_some]
  · simp [hf, bne]

theorem refreshFile_of_unchanged {d : Disk} {s : FileMap × Bool} {r : Route}
    (h : (refreshFile d s r).2 = false) : refreshFile d s r = s := by
  unfold refreshFile at h ⊢
  dsimp only at h ⊢
  split
  · next hn => simp [hn] at h
  · rfl

theorem foldl_refreshFile_of_unchanged {d : Disk} {l : List Route} {s : FileMap × Bool}
    (h : (l.foldl (refreshFile d) s).2 = false) : l.foldl (refreshFile d) s = s := by
  induction l generalizing s with
  | nil => rfl
  | cons r l ih =>
    -- the later steps changed nothing, so the report is that of the first
    have ht := ih h
    rw [List.foldl_cons] at h ⊢
    rw [ht] at h ⊢
    exact refreshFile_of_unchanged h

theorem filter_eq_of_size {files : FileMap} {p : Route → SourceFile → Bool}
    (h : (files.filter p).size = files.size) : files.filter p = files :=
  OrderedMap.ext_toList (List.filter_eq_self.2 (List.length_filter_eq_length_iff.1 h))

theorem refreshFiles_of_unchanged {d : Disk} {found : FileSet} {files : FileMap}
    (h : (refreshFiles d found files).2 = false) : (refreshFiles d found files).1 = files := by
  unfold refreshFiles at h ⊢
  dsimp only at h ⊢
  have hs := foldl_refreshFile_of_unchanged h
  rw [hs] at h ⊢
  exact filter_eq_of_size (by simpa using h)

def isDue (d : Disk) (files : FileMap) (r : Route) : Bool :=
  needsReload ((files.get? r).map SourceFile.origin) (stamp? d r)

theorem snd_refreshFile (d : Disk) (s : FileMap × Bool) (r : Route) :
    (refreshFile d s r).2 = true ↔ s.2 = true ∨ isDue d s.1 r := by
  change (if isDue d s.1 r then (reload d s.1 r (stamp? d r), true) else s).2 = true ↔ _
  cases isDue d s.1 r <;> simp

theorem isDue_refreshFile (d : Disk) (s : FileMap × Bool) {r j : Route} (h : j ≠ r) :
    isDue d (refreshFile d s r).1 j = isDue d s.1 j := by
  rw [isDue, get?_refreshFile, if_neg h, isDue]

theorem snd_foldl_refreshFile (d : Disk) {l : List Route} (hl : l.Nodup) (s : FileMap × Bool) :
    (l.foldl (refreshFile d) s).2 = true ↔ s.2 = true ∨ ∃ r ∈ l, isDue d s.1 r := by
  induction l generalizing s with
  | nil => simp
  | cons r l ih =>
    have ⟨hr, hl⟩ := List.nodup_cons.1 hl
    have later : (∃ j ∈ l, isDue d (refreshFile d s r).1 j) ↔ ∃ j ∈ l, isDue d s.1 j := by
      refine exists_congr fun j => and_congr_right fun hj => ?_
      rw [isDue_refreshFile d s fun he : j = r => hr (he ▸ hj)]
    rw [List.foldl_cons, ih hl, snd_refreshFile, later]
    simp only [List.mem_cons, exists_eq_or_imp, or_assoc]

theorem size_filter_ne_iff (files : FileMap) (p : Route → SourceFile → Bool) :
    (files.filter p).size ≠ files.size ↔ ∃ r f, files.get? r = some f ∧ ¬ p r f := by
  have taken : (files.filter p).size ≠ files.size ↔ ¬ ∀ b ∈ files.toList, p b.1 b.2 :=
    not_congr List.length_filter_eq_length_iff
  rw [taken]
  constructor
  · intro h
    obtain ⟨⟨r, f⟩, h⟩ := Classical.not_forall.1 h
    obtain ⟨hm, hp⟩ := Classical.not_imp.1 h
    exact ⟨r, f, (OrderedMap.mem_toList_iff files r f).1 hm, hp⟩
  · rintro ⟨r, f, hf, hp⟩ h
    exact hp (h (r, f) ((OrderedMap.mem_toList_iff files r f).2 hf))

/-- What a refresh reports as a change: a file that has gone, or one that it had to read. -/
theorem changed_refreshFiles_iff (d : Disk) (found : FileSet) (files : FileMap) :
    (refreshFiles d found files).2 = true ↔
      (∃ r f, files.get? r = some f ∧ isGone found r f) ∨
        ∃ r, found.contains r ∧ isDue d files r := by
  have kept (r : Route) (hr : found.contains r) :
      isDue d (files.filter fun r f => !isGone found r f) r = isDue d files r := by
    rw [isDue, OrderedMap.get?_filter, isDue]
    cases files.get? r <;> simp [isGone, hr, Option.filter_some]
  have gone : ((files.filter fun r f => !isGone found r f).size != files.size) = true ↔
      ∃ r f, files.get? r = some f ∧ isGone found r f := by
    rw [bne_iff_ne, size_filter_ne_iff]
    simp
  have due : (∃ r ∈ found.keys, isDue d (files.filter fun r f => !isGone found r f) r) ↔
      ∃ r, found.contains r ∧ isDue d files r := by
    refine exists_congr fun r => ?_
    rw [OrderedMap.mem_keys_iff]
    exact and_congr_right fun hr => by rw [kept r hr]
  unfold refreshFiles
  rw [snd_foldl_refreshFile d found.nodup_keys, gone, due]

def withFound (p : Project) (d : Disk) (found : FileSet) : Project :=
  { p with
    files := (refreshFiles d found p.files).1
    changes := if (refreshFiles d found p.files).2 then p.changes + 1 else p.changes }

theorem refresh_of_scan {p : Project} {d : Disk} {found : FileSet}
    (h : scan d p.root p.config = .ok found) :
    p.refresh d = .ok (p.withFound d found, (refreshFiles d found p.files).2) := by
  simp only [refresh, h, bind, Except.bind, pure, Except.pure, withFound, touched]
  split <;> rfl

theorem refresh_of_scan_error {p : Project} {d : Disk} {e : Error}
    (h : scan d p.root p.config = .error e) : p.refresh d = .error e := by
  simp only [refresh, h, bind, Except.bind]

theorem exists_scan_of_refresh {p q : Project} {d : Disk} {b : Bool}
    (h : p.refresh d = .ok (q, b)) : ∃ found, scan d p.root p.config = .ok found ∧
      q = p.withFound d found ∧ b = (refreshFiles d found p.files).2 := by
  cases hs : scan d p.root p.config with
  | error e =>
    rw [refresh_of_scan_error hs] at h
    cases h
  | ok found =>
    rw [refresh_of_scan hs] at h
    cases h
    exact ⟨found, rfl, rfl, rfl⟩

theorem onDisk_of_scan {d : Disk} {root : Path} {config : Config} {found : FileSet}
    (h : scan d root config = .ok found) (g : Nat) :
    onDisk d root config g = .ok ((empty root config g).withFound d found) := by
  rw [onDisk, refresh_of_scan (p := empty root config g) h]
  rfl

theorem exists_scan_of_onDisk {d : Disk} {root : Path} {config : Config} {g : Nat} {p : Project}
    (h : onDisk d root config g = .ok p) : ∃ found, scan d root config = .ok found ∧
      p = (empty root config g).withFound d found := by
  cases hs : scan d root config with
  | error e =>
    rw [onDisk, refresh_of_scan_error (p := empty root config g) hs] at h
    cases h
  | ok found =>
    rw [onDisk_of_scan hs] at h
    cases h
    exact ⟨found, rfl, rfl⟩

theorem get?_withFound (p : Project) (d : Disk) (found : FileSet) (r : Route) :
    (p.withFound d found).files.get? r =
      if found.contains r then renewed d r (p.files.get? r)
      else (p.files.get? r).filter fun f => f.origin == .buffer :=
  get?_refreshFiles d found p.files r

/-- A project that was just opened holds what was found and can be read. -/
theorem get?_withFound_empty (root : Path) (config : Config) (g : Nat) (d : Disk)
    (found : FileSet) (r : Route) :
    ((empty root config g).withFound d found).files.get? r =
      if found.contains r then fileOnDisk? d r else none := by
  rw [get?_withFound]
  simp [empty, renewed, needsReload]

end ContainerAliases.Project
