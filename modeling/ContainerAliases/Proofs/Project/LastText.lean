import ContainerAliases.Proofs.Project.Rescan
import ContainerAliases.Proofs.Session.Buffers

namespace ContainerAliases.Project

open Disk

inductive Edit where
  | update (path : Path) (text : String)
  | remove (path : Path)

namespace Edit

def path : Edit → Path
  | update path _ => path
  | remove path => path

/-- The text that the edit leaves, if it leaves the file at all. -/
def text? : Edit → Option String
  | update _ text => some text
  | remove _ => none

def apply (p : Project) : Edit → Project
  | update path text => p.update path text
  | remove path => (p.remove path).1

def concerns (root : Path) (r : Route) (e : Edit) : Bool := (root.join e.path).components == r

end Edit

/-- The sources that a project begins with, and the edits that follow. -/
structure History where
  sources : List (Path × String)
  edits : List Edit

namespace History

def project (h : History) (root : Path) (config : Config) (generation : Nat) : Project :=
  h.edits.foldl Edit.apply (.ofSources root config generation h.sources)

def all (h : History) : List Edit := h.sources.map (fun s => .update s.1 s.2) ++ h.edits

def last? (h : History) (root : Path) (r : Route) : Option Edit :=
  h.all.reverse.find? (Edit.concerns root r)

/-- What the last edit of the file at `path` leaves there. -/
def text? (h : History) (root : Path) (path : Path) : Option String :=
  (h.last? root (root.join path).components).bind Edit.text?

/-- Two histories leave the same text at every path, or nothing. -/
def Agree (root : Path) (h h' : History) : Prop := ∀ path, h.text? root path = h'.text? root path

theorem last?_eq_none {h : History} {root : Path} {r : Route}
    (hr : ∀ e ∈ h.all, (root.join e.path).components ≠ r) : h.last? root r = none := by
  apply List.find?_eq_none.2
  intro e he
  simpa [Edit.concerns] using hr e (List.mem_reverse.1 he)

/-- Only paths that one of the two has touched need to be compared. -/
theorem agree_iff {root : Path} {h h' : History} :
    Agree root h h' ↔ ∀ e ∈ h.all ++ h'.all, h.text? root e.path = h'.text? root e.path := by
  constructor
  · intro ha e _
    exact ha e.path
  · intro ha path
    by_cases touched : ∃ e ∈ h.all ++ h'.all,
        (root.join e.path).components = (root.join path).components
    · obtain ⟨e, he, hp⟩ := touched
      have := ha e he
      rwa [text?, text?, hp] at this
    · push Not at touched
      have hl : h.last? root (root.join path).components = none :=
        last?_eq_none fun e he => touched e (List.mem_append_left _ he)
      have hl' : h'.last? root (root.join path).components = none :=
        last?_eq_none fun e he => touched e (List.mem_append_right _ he)
      rw [text?, text?, hl, hl']

instance (root : Path) (h h' : History) : Decidable (Agree root h h') :=
  decidable_of_iff _ agree_iff.symm

/-- What is held for a file of which `e` is the last edit, and `before` what was held at first. -/
def heldAfter (before : Option SourceFile) : Option Edit → Option SourceFile
  | none => before
  | some e => e.text?.map fun text => .ofText text .buffer

theorem root_apply (p : Project) (e : Edit) : (e.apply p).root = p.root := by
  cases e with
  | update path text => rfl
  | remove path => exact p.root_remove path

theorem get?_apply (p : Project) (e : Edit) (r : Route) :
    (e.apply p).files.get? r =
      heldAfter (p.files.get? r) (if e.concerns p.root r then some e else none) := by
  have concerns : e.concerns p.root r ↔ r = p.key e.path := by
    rw [Edit.concerns, beq_iff_eq, eq_comm]
    rfl
  cases e with
  | update path text =>
    rw [Edit.apply, get?_update]
    by_cases hr : r = p.key path
    · rw [if_pos hr, if_pos (concerns.2 hr)]
      rfl
    · rw [if_neg hr, if_neg (mt concerns.1 hr)]
      rfl
  | remove path =>
    rw [Edit.apply, get?_remove]
    by_cases hr : r = p.key path
    · rw [if_pos hr, if_pos (concerns.2 hr)]
      rfl
    · rw [if_neg hr, if_neg (mt concerns.1 hr)]
      rfl

theorem get?_foldl_apply (p : Project) (es : List Edit) (r : Route) :
    (es.foldl Edit.apply p).files.get? r =
      heldAfter (p.files.get? r) (es.reverse.find? (Edit.concerns p.root r)) := by
  induction es generalizing p with
  | nil => rfl
  | cons e es ih =>
    rw [List.foldl_cons, ih, root_apply, get?_apply, List.reverse_cons, List.find?_append]
    cases hl : es.reverse.find? (Edit.concerns p.root r) with
    | some e' => rfl
    | none =>
      rw [Option.none_or, List.find?_singleton]
      rfl

/-- A project counts no changes while it is put together, but its files are those that updates of
an empty one would leave. -/
theorem files_ofSources (root : Path) (config : Config) (g : Nat) (sources : List (Path × String)) :
    (ofSources root config g sources).files =
      ((sources.map fun s => Edit.update s.1 s.2).foldl Edit.apply (empty root config g)).files ∧
    (ofSources root config g sources).root = root := by
  suffices ∀ p q : Project, p.files = q.files → p.root = q.root →
      (sources.foldl (fun p s => p.putBuffer s.1 s.2) p).files =
        ((sources.map fun s => Edit.update s.1 s.2).foldl Edit.apply q).files ∧
      (sources.foldl (fun p s => p.putBuffer s.1 s.2) p).root = p.root from
    this _ _ rfl rfl
  intro p q hf hr
  -- the two differ in the changes that they have counted
  induction sources generalizing p q with
  | nil => exact ⟨hf, rfl⟩
  | cons s sources ih =>
    apply ih
    · show p.files.insert (p.key s.1) _ = q.files.insert (q.key s.1) _
      rw [hf, key_of_root hr]
    · exact hr

theorem get?_project (h : History) (root : Path) (config : Config) (g : Nat) (r : Route) :
    (h.project root config g).files.get? r = (h.last? root r).bind fun e =>
      e.text?.map fun text => .ofText text .buffer := by
  obtain ⟨files, root_eq⟩ := files_ofSources root config g h.sources
  have start : (ofSources root config g h.sources).files.get? r =
      heldAfter none ((h.sources.map fun s => Edit.update s.1 s.2).reverse.find?
        (Edit.concerns root r)) := by
    rw [files]
    exact get?_foldl_apply (empty root config g) _ r
  rw [project, get?_foldl_apply, root_eq, start, last?, all, List.reverse_append, List.find?_append]
  cases h.edits.reverse.find? (Edit.concerns root r) with
  | some e => rfl
  | none =>
    rw [Option.none_or]
    cases List.find? _ _ <;> rfl

theorem files_eq_of_agree {root : Path} {h h' : History} (ha : Agree root h h') (config : Config)
    (g g' : Nat) : (h.project root config g).files = (h'.project root config g').files := by
  apply OrderedMap.ext_get?
  intro r
  rw [get?_project, get?_project]
  by_cases hr : ∃ path : Path, (root.join path).components = r
  · obtain ⟨path, rfl⟩ := hr
    have := congrArg (Option.map fun text => SourceFile.ofText text .buffer) (ha path)
    rwa [text?, text?, Option.map_bind, Option.map_bind] at this
  · -- no path leads to `r`, so nothing was done there
    push Not at hr
    rw [last?_eq_none fun e _ => hr e.path, last?_eq_none fun e _ => hr e.path]

end History

/-- `p` and `q` answer every question about classes and aliases alike, and hold for each path what
`text` says. -/
structure Mirrors (p q : Project) (text : Path → Option String) : Prop where
  held : ∀ path, (p.files.get? (p.key path)).map SourceFile.text = text path ∧
    (q.files.get? (q.key path)).map SourceFile.text = text path
  classes : p.classes = q.classes
  hierarchy : ∀ fqcn, p.hierarchy fqcn = q.hierarchy fqcn
  classNodes : ∀ fqcn, p.classNodes fqcn = q.classNodes fqcn
  aliasMap : ∀ pattern, p.provider.aliasMap pattern = q.provider.aliasMap pattern
  aliasKeys : ∀ pattern, p.provider.aliasKeys pattern = q.provider.aliasKeys pattern

namespace History

theorem root_project (h : History) (root : Path) (config : Config) (g : Nat) :
    (h.project root config g).root = root := by
  suffices ∀ p : Project, (h.edits.foldl Edit.apply p).root = p.root from
    (this _).trans (files_ofSources root config g h.sources).2
  intro p
  induction h.edits generalizing p with
  | nil => rfl
  | cons e es ih => rw [List.foldl_cons, ih, root_apply]

theorem map_text_project (h : History) (root : Path) (config : Config) (g : Nat) (path : Path) :
    ((h.project root config g).files.get? ((h.project root config g).key path)).map
      SourceFile.text = h.text? root path := by
  rw [key, root_project, get?_project, text?, Option.map_bind]
  congr 1
  funext e
  show (e.text?.map fun text => SourceFile.ofText text .buffer).map SourceFile.text = e.text?
  cases e.text? <;> rfl

/-- Whatever the order of the edits, the earlier texts and the spelling of the paths, histories that
agree on the last text of each path lead to the same answers. -/
theorem last_texts_decide {root : Path} {h h' : History} (agree : Agree root h h')
    (config : Config) (g g' : Nat) :
    Mirrors (h.project root config g) (h'.project root config g') (h.text? root) := by
  have files := files_eq_of_agree agree config g g'
  have provider := provider_eq_of_files files
  have declarations : (h.project root config g).declarations =
      (h'.project root config g').declarations := by
    rw [Project.declarations, Project.declarations, files]
  refine ⟨?_, ?_, ?_, ?_, ?_, ?_⟩
  · intro path
    exact ⟨h.map_text_project root config g path,
      (h'.map_text_project root config g' path).trans (agree path).symm⟩
  · rw [Project.classes, Project.classes, declarations]
  · intro fqcn
    rw [Project.hierarchy, Project.hierarchy, declarations]
  · intro fqcn
    exact congrFun (congrArg Alias.Provider.classes provider) fqcn
  · intro pattern
    rw [provider]
  · intro pattern
    rw [provider]

-- Two ways to the same two files: in another order, with drafts that do not last and with other
-- spellings of the paths.
namespace Detour

def root : Path := .ofText "/r"

def base : String := "<?php class A \x7b\x7d"

def heir : String := "<?php class B extends A \x7b\x7d"

def direct : History := ⟨[(.ofText "a.php", base), (.ofText "b.php", heir)], []⟩

def roundabout : History where
  sources := [(.ofText "./b.php", "<?php class Draft \x7b\x7d"), (.ofText "/r//b.php", heir)]
  edits := [.update (.ofText "c.php") heir, .update (.ofText "a.php/") base,
    .remove (.ofText "/r/./c.php"), .remove (.ofText "d.php")]

end Detour

theorem last_texts_decide_detour :
    Agree Detour.root Detour.direct Detour.roundabout ∧
      Mirrors (Detour.direct.project Detour.root Config.standard 1)
        (Detour.roundabout.project Detour.root Config.standard 2)
        (Detour.direct.text? Detour.root) ∧
      (Detour.roundabout.project Detour.root Config.standard 2).classes.map (·.fqcn) =
        ["A", "B"] := by
  have agree : Agree Detour.root Detour.direct Detour.roundabout := by decide +kernel
  exact ⟨agree, last_texts_decide agree Config.standard 1 2, by decide +kernel⟩

end History

end ContainerAliases.Project
