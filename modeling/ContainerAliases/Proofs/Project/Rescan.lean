import ContainerAliases.Disk.Edit
import ContainerAliases.Project.Query
import ContainerAliases.Proofs.Project.History

namespace ContainerAliases.Project

open Disk

theorem ok_of_toOption {ε α : Type} {x : Except ε α} {a : α} (h : x.toOption = some a) :
    x = .ok a := by
  cases x with
  | error e => cases h
  | ok b => cases h; rfl

/-- Every file that still has the stamp under which it was loaded has the same text too. -/
def Trusts (p : Project) (d : Disk) : Prop :=
  AllFiles (fun r f => (stamp? d r).isSome → f.origin = .disk (stamp? d r) →
    (d.readText r).toOption = some f.text) p

instance (p : Project) (d : Disk) : Decidable (p.Trusts d) :=
  decidable_of_iff (∀ b ∈ p.files.toList, (stamp? d b.1).isSome →
      b.2.origin = .disk (stamp? d b.1) → (d.readText b.1).toOption = some b.2.text)
    ⟨fun h r f hf => h (r, f) ((OrderedMap.mem_toList_iff _ r f).2 hf),
      fun h b hb => h b.1 b.2 ((OrderedMap.mem_toList_iff _ b.1 b.2).1 hb)⟩

def IsUncovered (p : Project) (r : Route) : Prop :=
  ∀ f, p.files.get? r = some f → f.origin ≠ .buffer

theorem get?_withFound_buffer {p : Project} {r : Route} {f : SourceFile}
    (hf : p.files.get? r = some f) (hb : f.origin = .buffer) (d : Disk) (found : FileSet) :
    (p.withFound d found).files.get? r = some f := by
  rw [get?_withFound, hf]
  split
  · simp [renewed, needsReload, hb]
  · simp [Option.filter_some, hb]

/-- A file that is not read again is the one that would be read. -/
theorem renewed_eq_fileOnDisk? {p : Project} (hp : p.Reachable) {d : Disk} (hd : p.Trusts d)
    {r : Route} (hr : p.IsUncovered r) : renewed d r (p.files.get? r) = fileOnDisk? d r := by
  unfold renewed
  split
  · rfl
  · next hn =>
    cases hf : p.files.get? r with
    | none => simp [hf, needsReload] at hn
    | some f =>
      cases ho : f.origin with
      | buffer => exact absurd ho (hr f hf)
      | disk old =>
        have he : old = stamp? d r := by simpa [hf, ho, needsReload] using hn
        -- two missing stamps would be equal as well, but what was loaded has one
        have hs : (stamp? d r).isSome := by
          rw [← he, Option.isSome_iff_ne_none]
          rintro rfl
          exact hp.origin_ne_unstamped r f hf ho
        have ht := hd r f hf hs (by rw [ho, he])
        rw [fileOnDisk?, ht, Option.map_some, ← he, ← ho, ← f.eq_ofText]

theorem get?_withFound_uncovered {p : Project} (hp : p.Reachable) {d : Disk} (hd : p.Trusts d)
    (found : FileSet) (g : Nat) {r : Route} (hr : p.IsUncovered r) :
    (p.withFound d found).files.get? r =
      ((empty p.root p.config g).withFound d found).files.get? r := by
  rw [get?_withFound, get?_withFound_empty, renewed_eq_fileOnDisk? hp hd hr]
  split
  · rfl
  · cases hf : p.files.get? r with
    | none => rfl
    | some f => simp [Option.filter_some, hr f hf]

theorem provider_eq_of_files {p q : Project} (h : p.files = q.files) : p.provider = q.provider := by
  have hd : p.declarations = q.declarations := by rw [declarations, declarations, h]
  have hn : p.classNodes = q.classNodes := by
    funext fqcn
    rw [classNodes, classNodes, hierarchy, hierarchy, hd]
  rw [provider, provider, hn]

/-- After a refresh of `p`, `q` holds the buffers of `p`, and for the other routes what a project
that was just opened holds. Without buffers the two give the same answers. -/
structure IsRescan (p q fresh : Project) : Prop where
  buffer : ∀ r f, p.files.get? r = some f → f.origin = .buffer → q.files.get? r = some f
  uncovered : ∀ r, p.IsUncovered r → q.files.get? r = fresh.files.get? r
  classes : (∀ r, p.IsUncovered r) → q.classes = fresh.classes
  classNodes : (∀ r, p.IsUncovered r) → ∀ fqcn, q.classNodes fqcn = fresh.classNodes fqcn
  aliasMap : (∀ r, p.IsUncovered r) →
    ∀ pattern, q.provider.aliasMap pattern = fresh.provider.aliasMap pattern
  aliasKeys : (∀ r, p.IsUncovered r) →
    ∀ pattern, q.provider.aliasKeys pattern = fresh.provider.aliasKeys pattern

theorem isRescan_withFound {p : Project} (hp : p.Reachable) {d : Disk} (hd : p.Trusts d)
    (found : FileSet) (g : Nat) :
    IsRescan p (p.withFound d found) ((empty p.root p.config g).withFound d found) := by
  have hu (r : Route) (hr : p.IsUncovered r) := get?_withFound_uncovered hp hd found g hr
  have hf (hall : ∀ r, p.IsUncovered r) : (p.withFound d found).files =
      ((empty p.root p.config g).withFound d found).files :=
    OrderedMap.ext_get? fun r => hu r (hall r)
  have hv (hall : ∀ r, p.IsUncovered r) := provider_eq_of_files (hf hall)
  refine ⟨fun r f h hb => get?_withFound_buffer h hb d found, hu, fun hall => ?_,
    fun hall fqcn => ?_, fun hall pattern => ?_, fun hall pattern => ?_⟩
  · rw [Project.classes, Project.classes, declarations, declarations, hf hall]
  · exact congrFun (congrArg Alias.Provider.classes (hv hall)) fqcn
  · rw [hv hall]
  · rw [hv hall]

/-- The disk may have changed in any way, as long as a file that kept its stamp kept its text. -/
theorem refresh_eq_rescan {p q : Project} {d : Disk} {b : Bool} (hp : p.Reachable)
    (hd : p.Trusts d) (h : p.refresh d = .ok (q, b)) (g : Nat) :
    ∃ fresh, onDisk d p.root p.config g = .ok fresh ∧ IsRescan p q fresh := by
  obtain ⟨found, hs, rfl, -⟩ := exists_scan_of_refresh h
  exact ⟨_, onDisk_of_scan hs g, isRescan_withFound hp hd found g⟩

-- A project with a draft, whose disk was edited: one file each has changed, gone, come and become
-- unreadable, and one is as it was.
namespace Edited

def root : Path := .ofText "/r"

def config : Config := { Config.standard with scanPaths := ["src", "*.php"] }

def routes (paths : List String) : FileSet :=
  .ofList (paths.map fun s => ((Path.ofText s).components, ()))

def foundBefore : FileSet := routes ["/r/a.php", "/r/src/b.php", "/r/src/c.php", "/r/src/d.php"]

def foundAfter : FileSet := routes ["/r/a.php", "/r/src/b.php", "/r/src/d.php", "/r/src/e.php"]

def before : Disk :=
  [("/r/a.php", "<?php class A {}"), ("/r/src/b.php", "<?php class B extends A {}"),
    ("/r/src/c.php", "<?php class C {}"), ("/r/src/d.php", "<?php class D {}")].foldl
    (fun d f => d.write (.ofText f.1) (some f.2) 5) default

def after : Disk :=
  (((before.write (.ofText "/r/a.php") (some "<?php class Z {}") second).remove
    (.ofText "/r/src/c.php")).write (.ofText "/r/src/d.php") none 9).write
    (.ofText "/r/src/e.php") (some "<?php class E {}") 5

def project : Project :=
  ((empty root config 1).withFound before foundBefore).update (.ofText "src/draft.php")
    "<?php class Draft extends A {}"

end Edited

theorem refresh_eq_rescan_edited :
    Edited.project.Reachable ∧ Edited.project.Trusts Edited.after ∧
      Edited.project.refresh Edited.after =
        .ok (Edited.project.withFound Edited.after Edited.foundAfter, true) ∧
      ∃ fresh, onDisk Edited.after Edited.project.root Edited.project.config 2 = .ok fresh ∧
        IsRescan Edited.project (Edited.project.withFound Edited.after Edited.foundAfter)
          fresh := by
  have hs : scan Edited.before Edited.root Edited.config = .ok Edited.foundBefore :=
    ok_of_toOption (by decide +kernel)
  have hp : Edited.project.Reachable := .update (.onDisk (onDisk_of_scan hs 1)) _ _
  have ht : Edited.project.Trusts Edited.after := by decide +kernel
  have hf : scan Edited.after Edited.root Edited.config = .ok Edited.foundAfter :=
    ok_of_toOption (by decide +kernel)
  have hc : (refreshFiles Edited.after Edited.foundAfter Edited.project.files).2 = true := by
    decide +kernel
  have hr : Edited.project.refresh Edited.after =
      .ok (Edited.project.withFound Edited.after Edited.foundAfter, true) := by
    rw [← hc]
    exact refresh_of_scan hf
  exact ⟨hp, ht, hr, refresh_eq_rescan hp ht hr 2⟩

end ContainerAliases.Project
