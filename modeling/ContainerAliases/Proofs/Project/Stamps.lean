import ContainerAliases.Proofs.Session.Buffers

namespace ContainerAliases

open Disk

namespace Disk.Stamp

theorem ofMoment_eq (t : Int) : ofMoment t =
    if t < 0 then ⟨0, 0⟩ else ⟨(t / 1000000000).toNat, (t % 1000000000).toNat⟩ := rfl

theorem ofMoment_eq_iff (t u : Int) : ofMoment t = ofMoment u ↔ t = u ∨ t ≤ 0 ∧ u ≤ 0 := by
  rw [ofMoment_eq, ofMoment_eq]
  split <;> split <;> rw [Stamp.mk.injEq] <;> omega

end Disk.Stamp

namespace Project

/-- `f` was read from `d` for the route `r`, where it had been written at `t`. -/
def IsLoadedFrom (d : Disk) (r : Route) (t : Moment) (f : SourceFile) : Prop :=
  fileOnDisk? d r = some f ∧ d.modified? r = some t

theorem IsLoadedFrom.origin {d : Disk} {r : Route} {t : Moment} {f : SourceFile}
    (h : IsLoadedFrom d r t f) : f.origin = .disk (some (.ofMoment t)) := by
  obtain ⟨hf, ht⟩ := h
  obtain ⟨text, -, rfl⟩ := Option.map_eq_some_iff.1 hf
  rw [SourceFile.ofText, stamp?, ht]
  rfl

/-- What is no buffer was read from a disk at some time. -/
theorem Reachable.exists_isLoadedFrom {p : Project} (hp : p.Reachable) :
    AllFiles (fun r f => f.origin ≠ .buffer → ∃ d t, IsLoadedFrom d r t f) p := by
  refine hp.allFiles (fun _ _ hb => absurd rfl hb) fun d r f hf _ => ?_
  obtain ⟨text, ht, -⟩ := (fileOnDisk?_eq_some_iff d r f).1 hf
  obtain ⟨stamp, hs⟩ := Option.isSome_iff_exists.1 (isSome_stamp? ht)
  obtain ⟨t, ht, -⟩ := Option.map_eq_some_iff.1 hs
  exact ⟨d, t, hf, ht⟩

variable {p q : Project} {d : Disk} {r : Route} {f : SourceFile} {b : Bool}

theorem offers_iff {found : FileSet} (hs : scan d p.root p.config = .ok found) (f : SourceFile) :
    p.Offers d r f ↔ found.contains r ∧ fileOnDisk? d r = some f := by
  rw [Offers, fileOnDisk?_eq_some_iff, hs]
  simp only [Except.ok.injEq, exists_eq_left']

/-- After a refresh that noticed a change of the file at `r`, what the disk offers there is held and
nothing else, and a change was reported and counted. -/
structure Notices (p : Project) (d : Disk) (r : Route) (q : Project) (changed : Bool) : Prop where
  held : ∀ f, q.files.get? r = some f ↔ p.Offers d r f
  reported : changed = true
  counted : q.changes = p.changes + 1

theorem notices_of_stamp_ne (held : p.files.get? r = some f)
    (stamp : ∃ old, f.origin = .disk old ∧ old ≠ stamp? d r) (h : p.refresh d = .ok (q, b)) :
    p.Notices d r q b := by
  obtain ⟨old, ho, hne⟩ := stamp
  obtain ⟨found, hs, rfl, rfl⟩ := exists_scan_of_refresh h
  have due : needsReload ((p.files.get? r).map SourceFile.origin) (stamp? d r) = true := by
    simpa [held, ho, needsReload] using hne
  have changed : (refreshFiles d found p.files).2 = true := by
    rw [changed_refreshFiles_iff]
    by_cases hf : found.contains r
    · exact .inr ⟨r, hf, due⟩
    · exact .inl ⟨r, f, held, by simp [isGone, ho, hf]⟩
  refine ⟨fun g => ?_, changed, ?_⟩
  · rw [get?_withFound, offers_iff hs, renewed, if_pos due, held]
    by_cases hf : found.contains r
    · simp [hf]
    · simp [hf, ho, Option.filter_some]
  · rw [withFound, if_pos changed]

/-- Files from the disk whose stamp is the same, and that are still found, are not read again. -/
theorem get?_refresh_of_stamp_eq (held : p.files.get? r = some f)
    (stamp : f.origin = .disk (stamp? d r)) {found : FileSet}
    (hs : scan d p.root p.config = .ok found) (hf : found.contains r)
    (h : p.refresh d = .ok (q, b)) : q.files.get? r = some f := by
  rw [refresh_of_scan hs] at h
  obtain ⟨rfl, -⟩ := Prod.mk.inj (Except.ok.inj h)
  rw [get?_withFound, if_pos hf, held, renewed, if_neg]
  simp [stamp, needsReload]

/-- A file of the disk, written at `t₀` when it was loaded and at another time `t` now. The next
refresh notices that, unless it was both times before 1970 or at its first moment: then it keeps the
file as it was, if it still finds it. -/
theorem other_times_noticed (hp : p.Reachable) (held : p.files.get? r = some f)
    (disk : f.origin ≠ .buffer) :
    (∃ d₀ t₀, IsLoadedFrom d₀ r t₀ f) ∧
      ∀ d₀ t₀ d t q b, IsLoadedFrom d₀ r t₀ f → d.modified? r = some t →
        p.refresh d = .ok (q, b) →
        (t₀ ≠ t → 0 < t₀ ∨ 0 < t → p.Notices d r q b) ∧
        (t₀ ≤ 0 → t ≤ 0 → ∀ found, scan d p.root p.config = .ok found → found.contains r →
          q.files.get? r = some f) := by
  refine ⟨hp.exists_isLoadedFrom r f held disk, fun d₀ t₀ d t q b loaded now h => ?_⟩
  have stamp : stamp? d r = some (.ofMoment t) := by rw [stamp?, now, Option.map_some]
  constructor
  · intro hne hpos
    refine notices_of_stamp_ne held ⟨_, loaded.origin, ?_⟩ h
    rw [stamp, Ne, Option.some.injEq, Stamp.ofMoment_eq_iff, not_or, not_and_or]
    exact ⟨hne, hpos.imp Int.not_le.2 Int.not_le.2⟩
  · intro h₀ ht found hs hf
    have same : Stamp.ofMoment t₀ = .ofMoment t := (Stamp.ofMoment_eq_iff t₀ t).2 (.inr ⟨h₀, ht⟩)
    exact get?_refresh_of_stamp_eq held (by rw [loaded.origin, same, stamp]) hs hf h

-- A file that was written in 1969 when it was loaded, and then written again.
namespace Antique

def root : Path := .ofText "/r"

def config : Config := { Config.standard with scanPaths := ["src"] }

def path : Path := .ofText "/r/src/a.php"

def written (text : String) (t : Moment) : Disk := Disk.write default path (some text) t

def loaded : Disk := written "<?php class A {}" (-5 * second)

def hidden : Disk := written "<?php class B {}" (-3 * second)

def evident : Disk := written "<?php class B {}" 1

def found : FileSet := .ofList [(path.components, ())]

def file : SourceFile := .ofText "<?php class A {}" (.disk (some ⟨0, 0⟩))

def project : Project := (empty root config 1).withFound loaded found

theorem scan_eq {d : Disk} (h : (scan d root config).toOption = some found) :
    scan d root config = .ok found := ok_of_toOption h

theorem reachable : project.Reachable := .onDisk (onDisk_of_scan (scan_eq (by decide +kernel)) 1)

theorem isLoadedFrom : IsLoadedFrom loaded path.components (-5 * second) file := by
  have read : (loaded.readText path.components).toOption = some "<?php class A {}" := by
    decide +kernel
  have time : loaded.modified? path.components = some (-5 * second) := by decide +kernel
  refine ⟨?_, time⟩
  rw [fileOnDisk?, read, stamp?, time]
  rfl

theorem held : project.files.get? path.components = some file := by
  rw [project, get?_withFound_empty, if_pos (by decide +kernel)]
  exact isLoadedFrom.1

end Antique

theorem other_times_noticed_evident :
    Antique.project.Reachable ∧
      Antique.project.files.get? Antique.path.components = some Antique.file ∧
      Antique.file.origin ≠ .buffer ∧
      Antique.project.refresh Antique.evident =
        .ok (Antique.project.withFound Antique.evident Antique.found, true) ∧
      Antique.project.Notices Antique.evident Antique.path.components
        (Antique.project.withFound Antique.evident Antique.found) true := by
  have disk : Antique.file.origin ≠ .buffer := by simp [Antique.file, SourceFile.ofText]
  have changed : (refreshFiles Antique.evident Antique.found Antique.project.files).2 = true := by
    decide +kernel
  have hr : Antique.project.refresh Antique.evident =
      .ok (Antique.project.withFound Antique.evident Antique.found, true) := by
    rw [← changed]
    exact refresh_of_scan (Antique.scan_eq (by decide +kernel))
  exact ⟨Antique.reachable, Antique.held, disk, hr,
    ((other_times_noticed Antique.reachable Antique.held disk).2 Antique.loaded (-5 * second)
      Antique.evident 1 _ _ Antique.isLoadedFrom (by decide +kernel) hr).1 (by decide) (by decide)⟩

/-- The file has another text and was written at another time, but the refresh reports no change and
leaves the project as it was. -/
theorem other_times_noticed_hidden :
    Antique.project.Reachable ∧
      Antique.project.files.get? Antique.path.components = some Antique.file ∧
      IsLoadedFrom Antique.loaded Antique.path.components (-5 * second) Antique.file ∧
      Antique.hidden.modified? Antique.path.components = some (-3 * second) ∧
      (Antique.hidden.readText Antique.path.components).toOption = some "<?php class B {}" ∧
      ∃ q, Antique.project.refresh Antique.hidden = .ok (q, false) ∧
        q.files.get? Antique.path.components = some Antique.file ∧
        q.changes = Antique.project.changes ∧
        ¬ Antique.project.Notices Antique.hidden Antique.path.components q false := by
  have hs := Antique.scan_eq (d := Antique.hidden) (by decide +kernel)
  have unchanged : (refreshFiles Antique.hidden Antique.found Antique.project.files).2 = false := by
    decide +kernel
  have hr : Antique.project.refresh Antique.hidden =
      .ok (Antique.project.withFound Antique.hidden Antique.found, false) := by
    rw [← unchanged]
    exact refresh_of_scan hs
  have same : Antique.file.origin = .disk (stamp? Antique.hidden Antique.path.components) := by
    rw [Antique.isLoadedFrom.origin]
    decide +kernel
  refine ⟨Antique.reachable, Antique.held, Antique.isLoadedFrom, by decide +kernel,
    by decide +kernel, _, hr, ?_, ?_, fun h => ?_⟩
  · exact get?_refresh_of_stamp_eq Antique.held same hs (by decide +kernel) hr
  · rw [withFound, unchanged]
    rfl
  · cases h.reported

end Project

end ContainerAliases
