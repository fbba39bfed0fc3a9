import Mathlib.Data.List.Nodup
import ContainerAliases.Proofs.Disk.Spelling
import ContainerAliases.Proofs.Project.Rescan
import ContainerAliases.Proofs.Session.Transparency

namespace ContainerAliases

open Disk

namespace Project

variable {p : Project} {r : Route}

theorem key_of_root {p q : Project} (h : q.root = p.root) (path : Path) :
    q.key path = p.key path := by
  rw [key, key, h]

theorem get?_update (p : Project) (path : Path) (text : String) (r : Route) :
    (p.update path text).files.get? r =
      if r = p.key path then some (.ofText text .buffer) else p.files.get? r :=
  OrderedMap.get?_insert ..

theorem get?_remove (p : Project) (path : Path) (r : Route) :
    (p.remove path).1.files.get? r = if r = p.key path then none else p.files.get? r := by
  unfold remove
  split
  · exact OrderedMap.get?_erase ..
  · next h =>
    split
    · next hr =>
      rw [← hr] at h
      simpa [OrderedMap.contains] using h
    · rfl

theorem snd_remove (p : Project) (path : Path) :
    (p.remove path).2 = p.files.contains (p.key path) := by
  unfold remove
  split <;> simp_all

theorem root_remove (p : Project) (path : Path) : (p.remove path).1.root = p.root := by
  unfold remove
  split <;> rfl

theorem config_remove (p : Project) (path : Path) : (p.remove path).1.config = p.config := by
  unfold remove
  split <;> rfl

/-- The text is held for the route, in one file, and so are the classes that it declares. -/
structure Covers (p : Project) (r : Route) (text : String) : Prop where
  held : p.files.get? r = some (.ofText text .buffer)
  once : p.files.keys.count r = 1
  indexed : ∃ before after, p.files.toList = before ++ (r, .ofText text .buffer) :: after ∧
    (∀ b ∈ before ++ after, b.1 ≠ r) ∧
    p.classes = before.flatMap (fun b => b.2.classes) ++ Classes.index (Source.parse text).tree ++
      after.flatMap fun b => b.2.classes

theorem classes_eq_flatMap (p : Project) :
    p.classes = p.files.toList.flatMap fun b => b.2.classes := by
  rw [classes, declarations, OrderedMap.values, List.flatMap_map, List.map_flatMap]
  simp [Function.comp_def]

theorem covers_of_get? {text : String} (h : p.files.get? r = some (.ofText text .buffer)) :
    p.Covers r text := by
  have hm := (OrderedMap.mem_toList_iff p.files r _).2 h
  have hk : r ∈ p.files.keys := List.mem_map_of_mem hm
  obtain ⟨before, after, hl⟩ := List.append_of_mem hm
  refine ⟨h, List.count_eq_one_of_mem p.files.nodup_keys hk, before, after, hl, ?_, ?_⟩
  · have hn := p.files.nodup_keys
    rw [OrderedMap.keys, hl, List.map_append, List.map_cons, List.nodup_middle,
      List.nodup_cons, ← List.map_append] at hn
    intro b hb he
    exact hn.1 (List.mem_map.2 ⟨b, hb, he⟩)
  · rw [classes_eq_flatMap, hl, List.flatMap_append, List.flatMap_cons, List.append_assoc]
    rfl

/-- `f` is what the disk has for the route, in a file that is scanned and can be read. -/
def Offers (p : Project) (d : Disk) (r : Route) (f : SourceFile) : Prop :=
  (∃ found, scan d p.root p.config = .ok found ∧ found.contains r) ∧
    ∃ text, d.readText r = .ok text ∧ f = .ofText text (.disk (stamp? d r))

theorem fileOnDisk?_eq_some_iff (d : Disk) (r : Route) (f : SourceFile) :
    fileOnDisk? d r = some f ↔
      ∃ text, d.readText r = .ok text ∧ f = .ofText text (.disk (stamp? d r)) := by
  rw [fileOnDisk?, Option.map_eq_some_iff]
  cases d.readText r <;> simp [Except.toOption, eq_comm]

/-- What was not held before a refresh is held after it as the disk offers it. -/
theorem get?_refresh_of_none {q : Project} {d : Disk} {b : Bool} (hr : p.files.get? r = none)
    (h : p.refresh d = .ok (q, b)) (f : SourceFile) :
    q.files.get? r = some f ↔ p.Offers d r f := by
  obtain ⟨found, hs, rfl, -⟩ := exists_scan_of_refresh h
  have renewed_none : renewed d r none = fileOnDisk? d r := rfl
  have scanned : (∃ found', scan d p.root p.config = .ok found' ∧ found'.contains r) ↔
      found.contains r := by
    rw [hs]
    simp
  rw [get?_withFound, hr, renewed_none, Offers, scanned, ← fileOnDisk?_eq_some_iff]
  split <;> simp_all

end Project

namespace Session

/-- Every step satisfies `P` in the state in which it is taken. -/
def Along (P : Session → Step → Prop) (s : Session) : List Step → Prop
  | [] => True
  | x :: steps => P s x ∧ Along P (x.apply s) steps

/-- No other project is put in the place of `name`. -/
def Step.Keeps (name : String) : Step → Prop
  | .addSources n .. | .openProject n .. => n ≠ name
  | _ => True

/-- What a step makes of the project `p` called `name`, if it keeps it. -/
inductive Step.Turns (d : Disk) (name : String) (p : Project) : Step → Project → Prop where
  | idle (x : Step) : Turns d name p x p
  | update (path : Path) (text : String) :
      Turns d name p (.update name path text) (p.update path text)
  | remove (path : Path) : Turns d name p (.remove name path) (p.remove path).1
  | refresh {found : Project.FileSet} (h : Project.scan d p.root p.config = .ok found) :
      Turns d name p (.refresh name) (p.withFound d found)

theorem project?_withProject {s : Session} {n m : String} {f : Project → Session}
    (hf : ∀ p, (f p).project? m = s.project? m) :
    (s.withProject n f).project? m = s.project? m := by
  unfold withProject
  cases s.project? n with
  | none => rfl
  | some p => exact hf p

theorem project?_refresh_of_ne {s : Session} {n m : String} (h : m ≠ n) (p : Project) :
    (s.refresh n p).2.project? m = s.project? m := by
  rw [Session.refresh]
  split
  · exact project?_setProject_of_ne h _
  · rfl

theorem Step.turns {s : Session} {name : String} {p : Project} (hp : s.project? name = some p)
    {x : Step} (hx : x.Keeps name) :
    ∃ q, (x.apply s).project? name = some q ∧ x.Turns s.disk name p q := by
  have other {n : String} (hn : n ≠ name) (q : Project) :
      (s.setProject n q).project? name = s.project? name :=
    project?_setProject_of_ne hn.symm q
  cases x with
  | changeDisk f => exact ⟨p, hp, .idle _⟩
  | addSources n root config sources => exact ⟨p, (other hx _).trans hp, .idle _⟩
  | openProject n root config =>
    refine ⟨p, ?_, .idle _⟩
    rw [apply, Session.openProject]
    split
    · exact (other hx _).trans hp
    · exact hp
  | update n path text =>
    by_cases hn : n = name
    · subst hn
      refine ⟨p.update path text, ?_, .update path text⟩
      rw [apply, withProject_of_some hp, project?_setProject_self]
    · exact ⟨p, (project?_withProject fun t => other hn _).trans hp, .idle _⟩
  | remove n path =>
    by_cases hn : n = name
    · subst hn
      refine ⟨(p.remove path).1, ?_, .remove path⟩
      rw [apply, withProject_of_some hp, project?_setProject_self]
    · exact ⟨p, (project?_withProject fun t => other hn _).trans hp, .idle _⟩
  | refresh n =>
    by_cases hn : n = name
    · subst hn
      rw [apply, withProject_of_some hp, Session.refresh]
      cases hr : p.refresh s.disk with
      | error e => exact ⟨p, hp, .idle _⟩
      | ok q =>
        obtain ⟨found, hs, hq, -⟩ := Project.exists_scan_of_refresh hr
        exact ⟨q.1, s.project?_setProject_self n q.1, hq ▸ .refresh hs⟩
    · have keeps (t : Project) := project?_refresh_of_ne (s := s) (Ne.symm hn) t
      exact ⟨p, (project?_withProject keeps).trans hp, .idle _⟩
  | ask c n q =>
    have keeps (t : Project) : (s.request c t).2.project? name = s.project? name := rfl
    exact ⟨p, (project?_withProject keeps).trans hp, .idle _⟩
  | invalidate c root => exact ⟨p, hp, .idle _⟩

/-- The step touches neither the project `name` as such nor, by hand, its file at `r`. -/
def Step.Spares (name : String) (root : Path) (r : Route) (x : Step) : Prop :=
  x.Keeps name ∧ match x with
    | .update n path _ | .remove n path => n = name → (root.join path).components ≠ r
    | _ => True

/-- The step brings no file at `r` into the project `name`. Neither does a refresh that fails. -/
def Step.Withholds (name : String) (root : Path) (r : Route) (s : Session) (x : Step) : Prop :=
  x.Keeps name ∧ match x with
    | .update n path _ => n = name → (root.join path).components ≠ r
    | .refresh n => n = name → ∀ p, s.project? name = some p → ∃ e, p.refresh s.disk = .error e
    | _ => True

def Shows (s : Session) (name : String) (p : Project) (r : Route)
    (held : Option Project.SourceFile) : Prop :=
  ∃ q, s.project? name = some q ∧ q.root = p.root ∧ q.config = p.config ∧ q.files.get? r = held

section Shows

variable {s : Session} {name : String} {p : Project} {r : Route}

theorem ne_key_of_root {q : Project} {path : Path} (hroot : q.root = p.root)
    (h : (p.root.join path).components ≠ r) : r ≠ q.key path := by
  rw [Project.key, hroot]
  exact h.symm

theorem Shows.apply_of_spares {f : Project.SourceFile} (hb : f.origin = .buffer)
    (h : s.Shows name p r (some f)) {x : Step} (hx : x.Spares name p.root r) :
    (x.apply s).Shows name p r (some f) := by
  obtain ⟨q, hq, hroot, hconfig, hf⟩ := h
  obtain ⟨q', hq', ht⟩ := Step.turns hq hx.1
  cases ht with
  | idle => exact ⟨q, hq', hroot, hconfig, hf⟩
  | update path text =>
    refine ⟨_, hq', hroot, hconfig, ?_⟩
    rw [Project.get?_update, if_neg (ne_key_of_root hroot (hx.2 rfl)), hf]
  | remove path =>
    refine ⟨_, hq', ?_, ?_, ?_⟩
    · rw [Project.root_remove, hroot]
    · rw [Project.config_remove, hconfig]
    · rw [Project.get?_remove, if_neg (ne_key_of_root hroot (hx.2 rfl)), hf]
  | @refresh found h =>
    exact ⟨_, hq', hroot, hconfig, Project.get?_withFound_buffer hf hb s.disk found⟩

theorem Shows.apply_of_withholds (h : s.Shows name p r none) {x : Step}
    (hx : x.Withholds name p.root r s) : (x.apply s).Shows name p r none := by
  obtain ⟨q, hq, hroot, hconfig, hf⟩ := h
  obtain ⟨q', hq', ht⟩ := Step.turns hq hx.1
  cases ht with
  | idle => exact ⟨q, hq', hroot, hconfig, hf⟩
  | update path text =>
    refine ⟨_, hq', hroot, hconfig, ?_⟩
    rw [Project.get?_update, if_neg (ne_key_of_root hroot (hx.2 rfl)), hf]
  | remove path =>
    refine ⟨_, hq', ?_, ?_, ?_⟩
    · rw [Project.root_remove, hroot]
    · rw [Project.config_remove, hconfig]
    · rw [Project.get?_remove, hf, ite_self]
  | refresh hs =>
    obtain ⟨e, he⟩ := hx.2 rfl q hq
    rw [Project.refresh_of_scan hs] at he
    cases he

theorem Shows.run_of_spares {f : Project.SourceFile} (hb : f.origin = .buffer)
    (h : s.Shows name p r (some f)) {steps : List Step}
    (hs : ∀ x ∈ steps, x.Spares name p.root r) : (s.run steps).Shows name p r (some f) := by
  induction steps generalizing s with
  | nil => exact h
  | cons x steps ih =>
    have ⟨hx, hs⟩ := List.forall_mem_cons.1 hs
    exact ih (h.apply_of_spares hb hx) hs

theorem Shows.run_of_withholds (h : s.Shows name p r none) {steps : List Step}
    (hs : Along (Step.Withholds name p.root r) s steps) : (s.run steps).Shows name p r none := by
  induction steps generalizing s with
  | nil => exact h
  | cons x steps ih => exact ih (h.apply_of_withholds hs.1) hs.2

end Shows

/-- What becomes of the file at `path` of the project `p`, called `name`, after `text` was put into
it and then `steps` were taken. -/
structure BufferWins (s : Session) (name : String) (p : Project) (path : Path) (text : String)
    (steps : List Step) : Prop where
  /-- Spellings of one path, with or without the root in front. -/
  spelling : p.root.IsGiven → ∀ a b : Path, a.isAbsolute = b.isAbsolute → a.words = b.words →
    p.key a = p.key b
  joined : p.root.isAbsolute → ∀ a, p.key (p.root.join a) = p.key a
  covers : ∃ q, (s.run (.update name path text :: steps)).project? name = some q ∧
    q.Covers (p.key path) text
  known : ∀ path', p.key path' = p.key path →
    ∃ q, (s.run (.update name path text :: steps)).project? name = some q ∧
      (q.remove path').2 = true
  forgotten : ∀ path', p.key path' = p.key path → ∀ later,
    Along (Step.Withholds name p.root (p.key path))
      (s.run (.update name path text :: steps ++ [.remove name path'])) later →
    ∃ q, (s.run (.update name path text :: steps ++ .remove name path' :: later)).project? name =
        some q ∧
      q.files.get? (p.key path) = none ∧
      ∀ d q' b, q.refresh d = .ok (q', b) →
        ∀ f, q'.files.get? (p.key path) = some f ↔ p.Offers d (p.key path) f

theorem run_append (s : Session) (xs ys : List Step) : s.run (xs ++ ys) = (s.run xs).run ys :=
  List.foldl_append

theorem shows_update {s : Session} {name : String} {p : Project} (hp : s.project? name = some p)
    (path : Path) (text : String) :
    ((Step.update name path text).apply s).Shows name p (p.key path)
      (some (.ofText text .buffer)) := by
  refine ⟨p.update path text, ?_, rfl, rfl, ?_⟩
  · rw [Step.apply, withProject_of_some hp, project?_setProject_self]
  · rw [Project.get?_update, if_pos rfl]

theorem Shows.remove {s : Session} {name : String} {p : Project} {r : Route}
    {held : Option Project.SourceFile} (h : s.Shows name p r held) {path : Path}
    (hr : p.key path = r) : ((Step.remove name path).apply s).Shows name p r none := by
  obtain ⟨q, hq, hroot, hconfig, hf⟩ := h
  refine ⟨(q.remove path).1, ?_, ?_, ?_, ?_⟩
  · rw [Step.apply, withProject_of_some hq, project?_setProject_self]
  · rw [Project.root_remove, hroot]
  · rw [Project.config_remove, hconfig]
  · rw [Project.get?_remove, if_pos (by rw [Project.key_of_root hroot, hr])]

/-- A buffer wins over the disk until it is removed, in every run and however the disk changes. -/
theorem buffer_wins {s : Session} {name : String} {p : Project} (hp : s.project? name = some p)
    (path : Path) (text : String) {steps : List Step}
    (hs : ∀ x ∈ steps, x.Spares name p.root (p.key path)) :
    BufferWins s name p path text steps := by
  have shows : (s.run (.update name path text :: steps)).Shows name p (p.key path)
      (some (.ofText text .buffer)) := (shows_update hp path text).run_of_spares rfl hs
  refine ⟨fun hroot a b => Project.key_eq_of_words hroot, fun hroot => Project.key_join hroot,
    ?_, fun path' hk => ?_, fun path' hk later hl => ?_⟩
  · obtain ⟨q, hq, -, -, hf⟩ := shows
    exact ⟨q, hq, Project.covers_of_get? hf⟩
  · obtain ⟨q, hq, hroot, -, hf⟩ := shows
    refine ⟨q, hq, ?_⟩
    rw [Project.snd_remove, Project.key_of_root hroot, hk, OrderedMap.contains, hf]
    rfl
  · rw [run_append] at hl
    obtain ⟨q, hq, hroot, hconfig, hf⟩ := (shows.remove hk).run_of_withholds hl
    rw [run_append]
    refine ⟨q, hq, hf, fun d q' b hr f => ?_⟩
    rw [Project.get?_refresh_of_none hf hr, Project.Offers, Project.Offers, hroot, hconfig]

-- A draft of a file that changes on the disk, cannot be read and is deleted, and then written again
-- after the draft is given up.
namespace Drafted

def root : Path := .ofText "/r"

def config : Config := { Config.standard with scanPaths := ["src"] }

def disk : Disk := Disk.write default (.ofText "/r/src/a.php") (some "<?php class Old {}") 5

def project : Project :=
  (Project.empty root config 1).withFound disk
    (.ofList [((Path.ofText "/r/src/a.php").components, ())])

def opened : Session := ((start disk).openProject "p" root config).2

def steps : List Step :=
  [.changeDisk (·.write (.ofText "/r/src/a.php") none 9), .refresh "p",
    .update "p" (.ofText "src/b.php") "<?php class B {}", .ask "c" "p" .map,
    .changeDisk (·.remove (.ofText "/r/src")), .refresh "p", .remove "p" (.ofText "src/b.php")]

theorem project?_opened : opened.project? "p" = some project := by
  have hs : Project.scan disk root config =
      .ok (.ofList [((Path.ofText "/r/src/a.php").components, ())]) :=
    Project.ok_of_toOption (by decide +kernel)
  have opens : (start disk).openProject "p" root config =
      (.ok (), (start disk).grown.setProject "p" project) := by
    rw [openProject, show (start disk).disk = disk from rfl, Project.onDisk_of_scan hs]
    rfl
  rw [opened, opens]
  exact project?_setProject_self ..

theorem spared : ∀ x ∈ steps, x.Spares "p" project.root (project.key (.ofText "src/a.php")) := by
  have other : (project.root.join (.ofText "src/b.php")).components ≠
      project.key (.ofText "src/a.php") := by decide +kernel
  simp [steps, Step.Spares, Step.Keeps, other]

end Drafted

theorem buffer_wins_drafted :
    Drafted.opened.project? "p" = some Drafted.project ∧
      (∀ x ∈ Drafted.steps, x.Spares "p" Drafted.project.root
        (Drafted.project.key (.ofText "src/a.php"))) ∧
      BufferWins Drafted.opened "p" Drafted.project (.ofText "src/a.php") "<?php class New {}"
        Drafted.steps ∧
      Drafted.project.key (.ofText "/r//src/./a.php") =
        Drafted.project.key (.ofText "src/a.php") :=
  ⟨Drafted.project?_opened, Drafted.spared, buffer_wins Drafted.project?_opened _ _ Drafted.spared,
    by decide +kernel⟩

end Session

end ContainerAliases
