import ContainerAliases.Proofs.Project.Rescan
import ContainerAliases.Proofs.Project.Scanning

namespace ContainerAliases.Project

open Disk

variable {d : Disk} {root start : Path} {c : Config} {entry s : String} {r : Route} {top : Location}
  {dirs : List String}

/-- The name stands in the root, or in the scan path. -/
def IsSpelled (root : Path) (entry s : String) : Prop :=
  .name s ∈ root.components ∨ .name s ∈ (Path.ofText entry).components

instance (root : Path) (entry s : String) : Decidable (IsSpelled root entry s) :=
  inferInstanceAs (Decidable (_ ∨ _))

/-- A directory on the way is excluded, without being spelled out. -/
def Trespasses (root : Path) (c : Config) (entry : String) (way : Route) : Prop :=
  ∃ s ∈ c.excludedDirs, .name s ∈ way ∧ ¬ IsSpelled root entry s

instance (root : Path) (c : Config) (entry : String) (way : Route) :
    Decidable (Trespasses root c entry way) := inferInstanceAs (Decidable (∃ _ ∈ _, _))

/-- No directory between the start and the source is excluded. -/
def IsClearBelow (c : Config) (start : Path) (r : Route) : Prop :=
  ∃ names : List String, r = start.components ++ names.map .name ∧
    ∀ s ∈ names.dropLast, s ∉ c.excludedDirs

/-- From a start of the scan path the sources are taken that lie in no excluded directory below it.
If the scan path has no wildcards, none of them lies in an excluded directory that is not spelled
out; else one does only if such a directory is on the way to the start. -/
structure PassesOver (d : Disk) (root : Path) (c : Config) (entry : String) (start : Path) :
    Prop where
  exact : ∀ r, Takes d c start r ↔
    Takes d { c with excludedDirs := [] } start r ∧ IsClearBelow c start r
  plain : entry.toList.any isWildcard = false → ∀ r, Takes d c start r →
    ¬ Trespasses root c entry r.dropLast
  matched : ∀ r, Takes d c start r → (Trespasses root c entry r.dropLast ↔
    Trespasses root c entry (start.components.take (r.length - 1)))

theorem opens_iff : Opens d c top dirs ↔
    Opens d { c with excludedDirs := [] } top dirs ∧ ∀ s ∈ dirs, s ∉ c.excludedDirs := by
  constructor
  · intro h
    induction h with
    | here h => exact ⟨.here h, by simp⟩
    | inside dirs s _ real allowed ih =>
      refine ⟨.inside dirs s ih.1 real (by simp), fun t ht => ?_⟩
      rcases List.mem_append.1 ht with ht | ht
      · exact ih.2 t ht
      · rwa [List.mem_singleton.1 ht]
  · rintro ⟨h, allowed⟩
    induction h with
    | here h => exact .here h
    | inside dirs s _ real _ ih =>
      exact .inside dirs s (ih fun t ht => allowed t (List.mem_append_left _ ht)) real
        (allowed s (by simp))

theorem Takes.isClearBelow (h : Takes d c start r) : IsClearBelow c start r := by
  cases h with
  | file h stem named name => exact ⟨[], by simp, by simp⟩
  | below top place dirs opens stem named file =>
    exact ⟨dirs ++ [stem ++ ".php"], rfl, by simpa using (opens_iff.1 opens).2⟩

theorem takes_iff : Takes d c start r ↔
    Takes d { c with excludedDirs := [] } start r ∧ IsClearBelow c start r := by
  refine ⟨fun h => ⟨h.mono (by simp), h.isClearBelow⟩, ?_⟩
  rintro ⟨h, names, he, allowed⟩
  cases h with
  | file h stem named name => exact .file h stem named name
  | below top place dirs opens stem named file =>
    have same : dirs ++ [stem ++ ".php"] = names :=
      List.map_injective_iff.2 (fun _ _ => Component.name.inj) (List.append_cancel_left he)
    rw [← same, List.dropLast_concat] at allowed
    exact .below top place dirs (opens_iff.2 ⟨opens, allowed⟩) stem named file

theorem name_mem_components (p : Path) :
    .name s ∈ p.components ↔ .name s ∈ p.segments.filterMap Component.ofSegment? := by
  rw [Path.components, List.mem_append, or_iff_right]
  split
  · simp
  · split <;> simp

/-- To the names of the root a scan path adds only its own. -/
theorem isSpelled_of_child (h : .name s ∈ (root.child entry).components) :
    IsSpelled root entry s := by
  cases ha : (Path.ofText entry).isAbsolute with
  | true =>
    rw [Path.child, Path.join, if_pos ha] at h
    exact .inr h
  | false =>
    rw [Path.child, Path.join_of_relative root ha, name_mem_components, List.filterMap_append,
      Path.filterMap_front, List.mem_append, ← name_mem_components, ← name_mem_components] at h
    exact h

theorem trespasses_dropLast_iff (h : Takes d c start r) : Trespasses root c entry r.dropLast ↔
    Trespasses root c entry (start.components.take (r.length - 1)) := by
  obtain ⟨names, rfl, allowed⟩ := h.isClearBelow
  refine exists_congr fun s => and_congr_right fun hs => and_congr_left fun _ => ?_
  have below : (start.components ++ names.map Component.name).length - 1 -
      start.components.length = (names.map Component.name).length - 1 := by
    rw [List.length_append]
    omega
  -- what is below the start is not excluded, so only the way to the start counts
  rw [List.dropLast_eq_take, List.take_append, List.mem_append, or_iff_left]
  rw [below, ← List.dropLast_eq_take, ← List.map_dropLast]
  intro hm
  obtain ⟨t, ht, he⟩ := List.mem_map.1 hm
  exact allowed t ht (Component.name.inj he ▸ hs)

theorem StandsFor.passesOver (h : StandsFor d root entry start) :
    PassesOver d root c entry start where
  exact _ := takes_iff
  plain hw r takes := by
    rw [trespasses_dropLast_iff takes, (h.of_plain hw).1]
    rintro ⟨s, -, hs, unspelled⟩
    exact unspelled (isSpelled_of_child (List.mem_of_mem_take hs))
  matched _ := trespasses_dropLast_iff

/-- Every file that a refresh leaves and that is no buffer was found from some start. -/
theorem exists_takes_of_refresh {p q : Project} {changed : Bool}
    (h : p.refresh d = .ok (q, changed))
    {f : SourceFile} (hf : q.files.get? r = some f) (disk : f.origin ≠ .buffer) :
    ∃ entry ∈ p.config.scanPaths, ∃ start, StandsFor d p.root entry start ∧
      Takes d p.config start r := by
  obtain ⟨found, hs, rfl, -⟩ := exists_scan_of_refresh h
  have hr : found.contains r := by
    by_contra hr
    rw [get?_withFound, if_neg hr] at hf
    exact disk (beq_iff_eq.1 (Option.mem_filter_iff.1 hf).2)
  obtain ⟨start, ⟨entry, he, stands⟩, takes⟩ := (contains_iff_of_scan hs r).1 hr
  exact ⟨entry, he, start, stands, takes⟩

/-- Of the excluded directories, only those are left out that stand below a start. -/
theorem excluded_below_starts {p q : Project} {changed : Bool}
    (h : p.refresh d = .ok (q, changed)) :
    (∀ r f, q.files.get? r = some f → f.origin ≠ .buffer →
      ∃ entry ∈ p.config.scanPaths, ∃ start, StandsFor d p.root entry start ∧
        Takes d p.config start r) ∧
      ∀ entry ∈ p.config.scanPaths, ∀ start, StandsFor d p.root entry start →
        PassesOver d p.root p.config entry start :=
  ⟨fun _ _ => exists_takes_of_refresh h, fun _ _ _ => StandsFor.passesOver⟩

-- A directory whose name is excluded, at the top and further down.
namespace Excluded

def disk : Disk :=
  ["/r/tests/a.php", "/r/app/tests/b.php", "/r/app/c.php"].foldl
    (fun d path => d.write (.ofText path) (some "<?php class A {}") second) default

def base : Path := .ofText "/r"

def config (scanPaths : List String) : Config := { Config.standard with scanPaths }

def project (entry : String) : Project := empty base (config [entry]) 1

def taken (entry : String) : Option (List (String × Bool)) :=
  ((project entry).refresh disk).toOption.map fun (q, _) => q.files.keys.map fun r =>
    (r.fileName?.getD "", decide (Trespasses base (config [entry]) entry r.dropLast))

def found : FileSet := .ofList [((Path.ofText "/r/app/c.php").components, ())]

end Excluded

theorem excluded_below_starts_walked :
    (Excluded.project ".").refresh Excluded.disk =
        .ok ((Excluded.project ".").withFound Excluded.disk Excluded.found, true) ∧
      PassesOver Excluded.disk Excluded.base (Excluded.config ["."]) "." (.ofText "/r/.") := by
  have hs : scan Excluded.disk Excluded.base (Excluded.config ["."]) = .ok Excluded.found :=
    ok_of_toOption (by decide +kernel)
  have hc : (refreshFiles Excluded.disk Excluded.found (Excluded.project ".").files).2 = true := by
    decide +kernel
  have hr : (Excluded.project ".").refresh Excluded.disk =
      .ok ((Excluded.project ".").withFound Excluded.disk Excluded.found, true) := by
    rw [← hc]
    exact refresh_of_scan hs
  exact ⟨hr, (excluded_below_starts hr).2 "." (List.mem_singleton_self _) (.ofText "/r/.")
    ⟨[.ofText "/r/."], ok_of_toOption (by decide +kernel), List.mem_singleton_self _⟩⟩

/-- A walk from the root passes both directories over; a wildcard that matches one of them, or a
source in it, does not. -/
theorem excluded_below_starts_matched :
    Excluded.taken "." = some [("c.php", false)] ∧
      Excluded.taken "*" = some [("c.php", false), ("a.php", true)] ∧
      Excluded.taken "**/*.php" = some [("c.php", false), ("b.php", true), ("a.php", true)] := by
  decide +kernel

end ContainerAliases.Project
