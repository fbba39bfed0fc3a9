import ContainerAliases.Proofs.Cache.Slots
import ContainerAliases.Proofs.Project.Rescan
import ContainerAliases.Session

namespace ContainerAliases.Project

open Disk

/-- What was just renewed is due again only if nothing came of it. -/
theorem needsReload_renewed_iff (d : Disk) (r : Route) (held : Option SourceFile) :
    needsReload ((renewed d r held).map SourceFile.origin) (stamp? d r) ↔
      renewed d r held = none := by
  by_cases hn : needsReload (held.map SourceFile.origin) (stamp? d r)
  · rw [renewed, if_pos hn, fileOnDisk?]
    cases (d.readText r).toOption <;> simp [needsReload, SourceFile.ofText]
  · rw [renewed, if_neg hn]
    cases held with
    | none => simp [needsReload] at hn
    | some f => simpa using hn

theorem renewed_renewed (d : Disk) (r : Route) (held : Option SourceFile) :
    renewed d r (renewed d r held) = renewed d r held := by
  by_cases hn : needsReload (held.map SourceFile.origin) (stamp? d r)
  · have hr : renewed d r held = fileOnDisk? d r := if_pos hn
    rw [hr]
    -- either there is a file, with the present stamp, or nothing that could be kept
    cases hf : fileOnDisk? d r <;> simp [renewed, hf]
  · have hr : renewed d r held = held := if_neg hn
    rw [hr, hr]

theorem exists_fault_of_renewed_eq_none {d : Disk} {r : Route} {held : Option SourceFile}
    (h : renewed d r held = none) : ∃ e, d.readText r = .error e := by
  unfold renewed at h
  split at h
  · rw [fileOnDisk?, Option.map_eq_none_iff] at h
    cases hr : d.readText r with
    | ok text => simp [hr, Except.toOption] at h
    | error e => exact ⟨e, rfl⟩
  · next hn => simp [h, needsReload] at hn

section Again

variable {p : Project} {d : Disk} {found : FileSet}

theorem files_withFound_withFound (p : Project) (d : Disk) (found : FileSet) :
    ((p.withFound d found).withFound d found).files = (p.withFound d found).files := by
  refine OrderedMap.ext_get? fun r => ?_
  simp only [get?_withFound]
  split
  · exact renewed_renewed d r (p.files.get? r)
  · cases p.files.get? r <;> simp [Option.filter_filter]

theorem not_isGone_withFound {r : Route} {f : SourceFile}
    (hf : (p.withFound d found).files.get? r = some f) : ¬ isGone found r f := by
  rw [get?_withFound] at hf
  split at hf
  · next hr => simp [isGone, hr]
  · have hb := (Option.filter_eq_some_iff.1 hf).2
    simp only [beq_iff_eq] at hb
    simp [isGone, hb]

theorem changed_withFound_iff (p : Project) (d : Disk) (found : FileSet) :
    (refreshFiles d found (p.withFound d found).files).2 = true ↔
      ∃ r, found.contains r ∧ (p.withFound d found).files.get? r = none := by
  have gone : ¬ ∃ r f, (p.withFound d found).files.get? r = some f ∧ isGone found r f := by
    rintro ⟨r, f, hf, hg⟩
    exact not_isGone_withFound hf hg
  rw [changed_refreshFiles_iff, or_iff_right gone]
  refine exists_congr fun r => and_congr_right fun hr => ?_
  rw [isDue, get?_withFound, if_pos hr]
  exact needsReload_renewed_iff d r (p.files.get? r)

/-- What a refresh makes of `q`, if the one before found the files `found` on the same disk and left
`q`: `q'`, with the report `again`. -/
structure IsRepeat (d : Disk) (found : FileSet) (q q' : Project) (again : Bool) : Prop where
  files : q'.files = q.files
  changed_iff : again = true ↔ ∃ r, found.contains r ∧ q.files.get? r = none
  unreadable : ∀ r, found.contains r → q.files.get? r = none → ∃ e, d.readText r = .error e
  counted : q' = if again then q.touched else q
  hit_iff : ∀ c : Cache, (c.request q.tracked).2.request q'.tracked =
    ((c.request q.tracked).1, (c.request q.tracked).2.hit) ↔ again = false

theorem withFound_withFound (p : Project) (d : Disk) (found : FileSet) :
    (p.withFound d found).withFound d found =
      if (refreshFiles d found (p.withFound d found).files).2 then (p.withFound d found).touched
      else p.withFound d found := by
  have hf := files_withFound_withFound p d found
  generalize p.withFound d found = q at hf ⊢
  rw [withFound] at hf ⊢
  simp only at hf
  rw [hf]
  split <;> rfl

/-- A snapshot outlives no change that was counted. -/
theorem fresh?_touched (c : Cache) (q : Project) :
    (c.request q.tracked).2.fresh? q.touched.tracked = none := by
  obtain ⟨hh, hs⟩ := Option.filter_eq_some_iff.1 (c.fresh?_request q.tracked)
  simp only [Snapshot.shows, Bool.and_eq_true, beq_iff_eq] at hs
  have hc : (c.request q.tracked).1.snapshot.changes ≠ q.touched.changes := by
    rw [hs.1.2]
    exact Nat.ne_of_lt (Nat.lt_succ_self q.changes)
  refine Option.filter_eq_none_iff.2 fun h hm hshows => ?_
  obtain rfl := Option.some.inj (hh.symm.trans hm)
  simp only [Snapshot.shows, Bool.and_eq_true, beq_iff_eq] at hshows
  exact hc hshows.1.2

theorem isRepeat_withFound (p : Project) (d : Disk) (found : FileSet) :
    IsRepeat d found (p.withFound d found) ((p.withFound d found).withFound d found)
      (refreshFiles d found (p.withFound d found).files).2 := by
  refine ⟨files_withFound_withFound p d found, changed_withFound_iff p d found,
    fun r hr hn => ?_, withFound_withFound p d found, fun c => ?_⟩
  · rw [get?_withFound, if_pos hr] at hn
    exact exists_fault_of_renewed_eq_none hn
  · rw [withFound_withFound]
    cases (refreshFiles d found (p.withFound d found).files).2 with
    | false =>
      simpa using Cache.request_of_fresh? (c.fresh?_request (p.withFound d found).tracked)
    | true =>
      simpa using Cache.request_ne_hit (fresh?_touched c (p.withFound d found)) _

/-- Refreshing twice is refreshing once, for the files; the second report is right unless a file
that was found cannot be read. -/
theorem refresh_again {q : Project} {b : Bool} (h : p.refresh d = .ok (q, b)) :
    ∃ found q' again, scan d p.root p.config = .ok found ∧ q.refresh d = .ok (q', again) ∧
      IsRepeat d found q q' again := by
  obtain ⟨found, hs, rfl, -⟩ := exists_scan_of_refresh h
  exact ⟨found, _, _, hs, refresh_of_scan hs, isRepeat_withFound p d found⟩

end Again

-- One file that can be read beside one that is no text, and a draft of the latter.
namespace Garbled

def root : Path := .ofText "/r"

def config : Config := { Config.standard with scanPaths := ["src"] }

def disk : Disk :=
  (Disk.write default (.ofText "/r/src/a.php") (some "<?php class A {}") 5).write
    (.ofText "/r/src/b.php") none 5

def garbled : Route := (Path.ofText "/r/src/b.php").components

def sources : FileSet := .ofList [((Path.ofText "/r/src/a.php").components, ()), (garbled, ())]

theorem scan_eq : scan disk root config = .ok sources := ok_of_toOption (by decide +kernel)

def project : Project := (empty root config 1).withFound disk sources

def drafted : Project := project.update (.ofText "src/b.php") "<?php class B extends A {}"

theorem reachable : project.Reachable := .onDisk (onDisk_of_scan scan_eq 1)

theorem garbled_missing : sources.contains garbled ∧ project.files.get? garbled = none := by
  have hn : (project.files.get? garbled).isSome = false := by decide +kernel
  exact ⟨by decide +kernel, by simpa using hn⟩

end Garbled

theorem refresh_again_drafted :
    Garbled.drafted.Reachable ∧
      Garbled.drafted.refresh Garbled.disk =
        .ok (Garbled.drafted.withFound Garbled.disk Garbled.sources, false) ∧
      ∃ found q' again,
        scan Garbled.disk Garbled.drafted.root Garbled.drafted.config = .ok found ∧
        (Garbled.drafted.withFound Garbled.disk Garbled.sources).refresh Garbled.disk =
          .ok (q', again) ∧
        IsRepeat Garbled.disk found (Garbled.drafted.withFound Garbled.disk Garbled.sources)
          q' again := by
  have hp : Garbled.drafted.Reachable := .update Garbled.reachable _ _
  have hc : (refreshFiles Garbled.disk Garbled.sources Garbled.drafted.files).2 = false := by
    decide +kernel
  have hr : Garbled.drafted.refresh Garbled.disk =
      .ok (Garbled.drafted.withFound Garbled.disk Garbled.sources, false) := by
    rw [← hc]
    exact refresh_of_scan Garbled.scan_eq
  exact ⟨hp, hr, refresh_again hr⟩

/-- Without it each refresh reports and counts a change, though no file ever changes. -/
theorem refresh_again_garbled :
    Garbled.project.Reachable ∧
      ∃ q q', Garbled.project.refresh Garbled.disk = .ok (q, true) ∧
        q.refresh Garbled.disk = .ok (q', true) ∧ q'.files = q.files ∧
        q'.changes = q.changes + 1 ∧
        (Cache.empty.request q.tracked).2.request q'.tracked ≠
          ((Cache.empty.request q.tracked).1, (Cache.empty.request q.tracked).2.hit) := by
  have missing (p : Project) (h : p.files = Garbled.project.files) :
      ∃ r, Garbled.sources.contains r ∧ p.files.get? r = none :=
    ⟨_, Garbled.garbled_missing.1, h ▸ Garbled.garbled_missing.2⟩
  have first := isRepeat_withFound (empty Garbled.root Garbled.config 1) Garbled.disk
    Garbled.sources
  have hc := first.changed_iff.2 (missing Garbled.project rfl)
  have second := isRepeat_withFound Garbled.project Garbled.disk Garbled.sources
  have hc' := second.changed_iff.2 (missing _ first.files)
  have hr := refresh_of_scan (p := Garbled.project) Garbled.scan_eq
  have hr' := refresh_of_scan (p := Garbled.project.withFound Garbled.disk Garbled.sources)
    Garbled.scan_eq
  refine ⟨Garbled.reachable, _, _, ?_, ?_, second.files, ?_, fun he => ?_⟩
  · rw [hr]
    exact congrArg (fun b => Except.ok (_, b)) hc
  · rw [hr', hc']
  · rw [second.counted, hc']
    rfl
  · have := (second.hit_iff _).1 he
    rw [hc'] at this
    cases this

end ContainerAliases.Project
