import ContainerAliases.Disk.Edit
import ContainerAliases.Proofs.Glob.Rooted

namespace ContainerAliases.Project

open Disk

variable {d : Disk} {root : Path} {text entry : String}

/-- `r` below the root is what the scan path is about: matched by its patterns, taken, and a
directory if they end with `**` or a slash. -/
structure IsMeant (d : Disk) (root : Path) (entry : String) (patterns : List Glob.Pattern)
    (r : List String) : Prop where
  isMatched : Glob.Matches patterns r
  isTaken : d.isTaken (root.join ⟨false, r⟩).steps
  isDirectory : Glob.endsRecursive patterns ∨ (Path.ofText entry).segments.getLast? = some "" →
    d.isDirectory (root.join ⟨false, r⟩).steps

/-- The scan path is refused, under its own name, if it is no pattern; else it stands for all it is
about below the root, and for nothing else. -/
structure ExpandsBelow (d : Disk) (root : Path) (entry : String) : Prop where
  isOk_iff : (starts d root entry).isOk ↔ (Glob.patterns (.ofText entry)).isOk
  blamed : ∀ e, starts d root entry = .error e → ∃ fault, e = .invalidPattern entry fault
  sound : ∀ patterns qs, Glob.patterns (.ofText entry) = .ok patterns →
    starts d root entry = .ok qs → ∀ q ∈ qs, ∃ r, IsMeant d root entry patterns r ∧
      q.IsSame (root.join ⟨false, r⟩)
  complete : ∀ patterns qs, Glob.patterns (.ofText entry) = .ok patterns →
    starts d root entry = .ok qs → ∀ r, IsMeant d root entry patterns r →
      ∃ q ∈ qs, q.IsSame (root.join ⟨false, r⟩)

theorem starts_of_wildcard (wild : entry.toList.any isWildcard) : starts d root entry =
    (Glob.expand d (root.join (.ofText entry))).mapError (.invalidPattern entry) := if_pos wild

theorem patterns_ne_nil (wild : entry.toList.any isWildcard)
    (relative : (Path.ofText entry).isAbsolute = false) {patterns : List Glob.Pattern}
    (h : Glob.patterns (.ofText entry) = .ok patterns) : patterns ≠ [] := by
  rintro rfl
  have front := List.Forall₂.length_eq (mapM_eq_ok_iff.1 (Glob.patterns_eq_ok_iff.1 h).2)
  have front : (Path.ofText entry).front = [] := List.length_eq_zero_iff.1 front
  -- without patterns the text is empty, so there is no wildcard in it
  have text := Path.text_ofText entry
  rw [← String.toList_inj, Path.toList_text, relative] at text
  rcases (Path.ofText entry).segments_eq_front with hs | hs <;>
    · rw [hs, front] at text
      rw [← text] at wild
      exact absurd wild (by decide)

theorem isPlain_ofText (plain : text.toList.any isWildcard = false) :
    Glob.IsPlain (.ofText text) := by
  intro s hs
  rw [List.any_eq_false] at plain ⊢
  exact fun c hc => plain c ((Path.mem_segments_ofText hs).2 hc)

theorem isSame_rewritten_of_matches (grounded : (Path.ofText text).IsGrounded)
    {patterns : List Glob.Pattern} {r : List String} (h : Glob.Matches patterns r) :
    ((Path.ofText text).rewritten r).IsSame ((Path.ofText text).join ⟨false, r⟩) ∧
      ((Path.ofText text).rewritten r).IsGrounded :=
  Path.isSame_rewritten grounded
    (fun _ hs => (Path.mem_segments_ofText (Path.front_subset _ hs)).1) h.slash_notMem

theorem exists_starts_eq (hd : d.IsWellNamed) (plain : text.toList.any isWildcard = false)
    (grounded : (Path.ofText text).IsGrounded)
    (relative : (Path.ofText entry).isAbsolute = false) (wild : entry.toList.any isWildcard)
    {patterns : List Glob.Pattern} (h : Glob.patterns (.ofText entry) = .ok patterns) :
    ∃ qs, starts d (.ofText text) entry = .ok qs ∧ ∀ q, q ∈ qs ↔
      ∃ r, IsMeant d (.ofText text) entry patterns r ∧ q = (Path.ofText text).rewritten r := by
  obtain ⟨qs, hqs, mem⟩ := Glob.exists_expand_join_eq hd (isPlain_ofText plain) grounded
    (fun _ hs => (Path.mem_segments_ofText (Path.front_subset _ hs)).1) relative
    (fun _ hs => (Path.mem_segments_ofText hs).1) h (patterns_ne_nil wild relative h)
  refine ⟨qs, by rw [starts_of_wildcard wild, hqs]; rfl, fun q => (mem q).trans ?_⟩
  refine exists_congr fun r => ⟨?_, ?_⟩
  · rintro ⟨matched, taken, rfl, directory⟩
    obtain ⟨same, written⟩ := isSame_rewritten_of_matches grounded matched
    rw [same.isTaken_eq written (grounded.join r)] at taken
    rw [same.isDirectory_eq written (grounded.join r)] at directory
    exact ⟨⟨matched, taken, directory⟩, rfl⟩
  · rintro ⟨⟨matched, taken, directory⟩, rfl⟩
    obtain ⟨same, written⟩ := isSame_rewritten_of_matches grounded matched
    rw [← same.isTaken_eq written (grounded.join r)] at taken
    rw [← same.isDirectory_eq written (grounded.join r)] at directory
    exact ⟨matched, taken, rfl, directory⟩

/-- Below a root without wildcards that is absolute or begins with a name or two dots, a scan path
with wildcards is read as it would be on its own. -/
theorem wildcards_relative_to_root (hd : d.IsWellNamed) (plain : text.toList.any isWildcard = false)
    (grounded : (Path.ofText text).IsGrounded)
    (relative : (Path.ofText entry).isAbsolute = false) (wild : entry.toList.any isWildcard) :
    ExpandsBelow d (.ofText text) entry := by
  have exact {patterns : List Glob.Pattern} {qs : List Path}
      (h : Glob.patterns (.ofText entry) = .ok patterns)
      (hqs : starts d (.ofText text) entry = .ok qs) (q : Path) : q ∈ qs ↔
      ∃ r, IsMeant d (.ofText text) entry patterns r ∧ q = (Path.ofText text).rewritten r := by
    obtain ⟨qs', hqs', mem⟩ := exists_starts_eq hd plain grounded relative wild h
    cases hqs.symm.trans hqs'
    exact mem q
  refine ⟨⟨fun h => ?_, fun h => ?_⟩, fun e he => ?_, fun patterns qs h hqs q hq => ?_,
    fun patterns qs h hqs r hr => ?_⟩
  · obtain ⟨qs, hqs⟩ := isOk_iff.1 h
    rw [starts_of_wildcard wild, Glob.expand_eq] at hqs
    cases hp : Glob.patterns ((Path.ofText text).join (.ofText entry)) with
    | error fault =>
      rw [hp] at hqs
      cases hqs
    | ok patterns =>
      obtain ⟨ps, hps, -⟩ := (Glob.patterns_join_iff (isPlain_ofText plain) grounded relative
        (Path.segments_ofText_ne_nil entry)).1 hp
      exact isOk_iff.2 ⟨ps, hps⟩
  · obtain ⟨patterns, h⟩ := isOk_iff.1 h
    obtain ⟨qs, hqs, -⟩ := exists_starts_eq hd plain grounded relative wild h
    exact isOk_iff.2 ⟨qs, hqs⟩
  · rw [starts_of_wildcard wild] at he
    cases hp : Glob.expand d ((Path.ofText text).join (.ofText entry)) with
    | error fault =>
      rw [hp] at he
      exact ⟨fault, (Except.error.inj he).symm⟩
    | ok qs =>
      rw [hp] at he
      cases he
  · obtain ⟨r, meant, rfl⟩ := (exact h hqs q).1 hq
    exact ⟨r, meant, (isSame_rewritten_of_matches grounded meant.isMatched).1⟩
  · exact ⟨_, (exact h hqs _).2 ⟨r, hr, rfl⟩,
      (isSame_rewritten_of_matches grounded hr.isMatched).1⟩

-- Roots with and without wildcards in their names.
namespace Named

def disk : Disk :=
  ["/r/app/a.php", "/r/x/apple/b.php", "/r/x/c.php", "/r/a[b]/app/d.php", "/r/ab/app/e.php",
    "/r/a[/app/f.php"].foldl (fun d path => d.write (.ofText path) (some "<?php class A {}") second)
    default

def found (root entry : String) : Option (List String) :=
  (starts disk (.ofText root) entry).toOption.map fun qs => qs.map Path.text

end Named

theorem wildcards_relative_to_root_nested :
    (Named.disk.IsWellNamed ∧ "/r/x".toList.any isWildcard = false ∧
      (Path.ofText "/r/x").IsGrounded ∧ (Path.ofText "**/ap*").isAbsolute = false ∧
      "**/ap*".toList.any isWildcard) ∧ ExpandsBelow Named.disk (.ofText "/r/x") "**/ap*" ∧
      Named.found "/r/x" "**/ap*" = some ["/r/x/apple"] := by
  have h : Named.disk.IsWellNamed ∧ "/r/x".toList.any isWildcard = false ∧
      (Path.ofText "/r/x").IsGrounded ∧ (Path.ofText "**/ap*").isAbsolute = false ∧
      "**/ap*".toList.any isWildcard := by decide +kernel
  exact ⟨h, wildcards_relative_to_root h.1 h.2.1 h.2.2.1 h.2.2.2.1 h.2.2.2.2, by decide +kernel⟩

/-- Brackets in the name of the root are read as wildcards: a directory beside the root is found in
place of the one below it, or the scan path is refused. -/
theorem wildcards_relative_to_root_bracketed :
    Named.disk.isDirectory (Path.ofText "/r/a[b]/app").steps ∧
      Named.found "/r/a[b]" "ap*" = some ["/r/ab/app"] ∧
      Named.disk.isDirectory (Path.ofText "/r/a[/app").steps ∧
      Named.found "/r/a[" "ap*" = none ∧
      (Glob.patterns (.ofText "ap*")).isOk := by
  decide +kernel

end ContainerAliases.Project
