import ContainerAliases.CommandLine.Run
import ContainerAliases.Proofs.Alias.LastWrite
import ContainerAliases.Proofs.Classes.Descent
import ContainerAliases.Proofs.Json.RoundTrip
import ContainerAliases.Proofs.Project.Rescan
import ContainerAliases.Proofs.Project.Root

namespace ContainerAliases.CommandLine

open Disk Project

variable {d : Disk} {start r : Path} {args args' : List String} {keysOnly : Bool} {config : Config}
  {p : Project} {g : Nat}

/-- The root of the project around `start`: the nearest marked path on the way up, or `start` if
nothing there is marked. -/
inductive IsRootAround (d : Disk) (start : Path) : Path → Prop where
  | marked (n : Nat) (r : Path) (passes : Passes d start n r) (marked : IsMarked d r)
    (nearest : ∀ m < n, ∀ x, Passes d start m x → ¬ IsMarked d x) : IsRootAround d start r
  | unmarked (h : ∀ n x, Passes d start n x → ¬ IsMarked d x) : IsRootAround d start start

/-- The arguments ask, without watching, for the aliases of the project at `r` or only for their
names. -/
def AsksFor (d : Disk) (args : List String) (keysOnly : Bool) (r : Path) : Prop :=
  ∃ o l, Request.ofArguments args = .run o ∧ o.watch = false ∧ o.keys = keysOnly ∧
    d.locate (Path.ofText (o.path.getD ".")).steps = .ok l ∧ IsRootAround d ⟨true, l⟩ r

/-- The one name is in front of the other, by code points. -/
def IsBefore (a b : String) : Prop := a.toList.map Char.toNat < b.toList.map Char.toNat

/-- The aliases of the project are printed as an object, and their names as a list, in ascending
order and so that they can be read back. -/
structure Prints (p : Project) (keysOnly : Bool) (o : Outcome) : Prop where
  succeeds : o.code = 0 ∧ o.complaint = ""
  ascending : p.aliasMap.keys.Pairwise IsBefore
  aliases : keysOnly = false →
    o.output = String.ofList (Json.lists 0 p.aliasMap.toList ++ ['\n']) ∧
      Json.readAll Json.textLists o.output = .ok p.aliasMap.toList
  names : keysOnly = true → o.output = String.ofList (Json.strings 0 p.aliasMap.keys ++ ['\n']) ∧
    Json.readAll Json.texts o.output = .ok p.aliasMap.keys

/-- Every path that exists belongs to one project, the answer is about that project as its own
configuration shows it, and it is the same for all paths of the project. -/
structure AnswersByRoot (d : Disk) : Prop where
  root : ∀ args o, Request.ofArguments args = .run o → o.watch = false →
    d.reaches (Path.ofText (o.path.getD ".")).steps → ∃! r, AsksFor d args o.keys r
  prints : ∀ args keysOnly r, AsksFor d args keysOnly r → ∀ config, Config.load d r = .ok config →
    ∀ g p, onDisk d r config g = .ok p → Prints p keysOnly (run d args)
  same : ∀ args args' keysOnly r, AsksFor d args keysOnly r → AsksFor d args' keysOnly r →
    run d args = run d args'

theorem isRootAround_iff : IsRootAround d start r ↔ projectRoot d start = r := by
  rw [projectRoot]
  cases h : rootOf? d start with
  | none =>
    have unmarked := rootOf?_eq_none_iff.1 h
    constructor
    · rintro (⟨n, _, passes, marked, -⟩ | -)
      · exact absurd marked (unmarked n r passes)
      · rfl
    · rintro rfl
      exact .unmarked unmarked
  | some q =>
    obtain ⟨n, passes, marked, nearest⟩ := rootOf?_eq_some_iff.1 h
    constructor
    · rintro (⟨m, _, passes', marked', nearest'⟩ | unmarked)
      · have h' := rootOf?_eq_some_iff.2 ⟨m, passes', marked', nearest'⟩
        exact Option.some.inj (h.symm.trans h')
      · exact absurd marked (unmarked n q passes)
    · rintro rfl
      exact .marked n q passes marked nearest

def answer (d : Disk) (keysOnly : Bool) (r : Path) : Outcome :=
  match Config.load d r with
  | .error e => .ofError "Failed to load configuration" e
  | .ok config =>
    match onDisk d r config 0 with
    | .error e => .ofError "Failed to index project" e
    | .ok p => .success (render keysOnly (Cache.empty.request p.tracked).1.snapshot)

/-- The path matters only for the root that it leads to. -/
theorem run_eq_answer (h : AsksFor d args keysOnly r) : run d args = answer d keysOnly r := by
  obtain ⟨o, l, ho, -, rfl, hl, hr⟩ := h
  rw [run, ho]
  simp only [printAliases, resolve, hl, Except.map, isRootAround_iff.1 hr]
  rfl

theorem isBefore_of_compare {a b : String} (h : compare a b = .lt) : IsBefore a b := by
  have before : a.toList < b.toList := String.lt_iff.1 (compareOfLessAndEq_eq_lt.1 h)
  exact List.map_lt (fun _ _ h => h) before

theorem snapshot_request (p : Project) :
    (Cache.empty.request p.tracked).1.snapshot.index = ⟨p.aliasMap, p.aliasKeys⟩ :=
  p.provider.aliasIndex_eq p.pattern

theorem render_request (keysOnly : Bool) (p : Project) :
    render keysOnly (Cache.empty.request p.tracked).1.snapshot = String.ofList
      ((if keysOnly then Json.strings 0 p.aliasMap.keys else Json.lists 0 p.aliasMap.toList) ++
        ['\n']) := by
  rw [render, snapshot_request, aliasMap, p.provider.keys_aliasMap]
  rfl

/-- The generation of a project makes no difference to its aliases. -/
theorem aliasMap_eq_of_onDisk {q : Project} {g' : Nat} (hp : onDisk d r config g = .ok p)
    (hq : onDisk d r config g' = .ok q) : q.aliasMap = p.aliasMap := by
  obtain ⟨found, hs, rfl⟩ := exists_scan_of_onDisk hp
  rw [onDisk_of_scan hs] at hq
  cases hq
  rfl

theorem prints_answer (hc : Config.load d r = .ok config) (hp : onDisk d r config g = .ok p) :
    Prints p keysOnly (answer d keysOnly r) := by
  obtain ⟨found, hs, -⟩ := exists_scan_of_onDisk hp
  have hq := onDisk_of_scan hs 0
  have text : answer d keysOnly r = .success (String.ofList
      ((if keysOnly then Json.strings 0 p.aliasMap.keys else Json.lists 0 p.aliasMap.toList) ++
        ['\n'])) := by
    rw [answer, hc]
    simp only [hq, render_request, aliasMap_eq_of_onDisk hp hq]
  rw [text]
  refine ⟨⟨rfl, rfl⟩, p.aliasMap.increasing_keys.imp isBefore_of_compare, ?_, ?_⟩
  · rintro rfl
    exact ⟨rfl, Json.readAll_lists _⟩
  · rintro rfl
    exact ⟨rfl, Json.readAll_strings _⟩

/-- Wherever the command is pointed in a project, it answers for the project. -/
theorem answers_by_root (d : Disk) : AnswersByRoot d where
  root args o ho watch there := by
    obtain ⟨l, -, hl, -⟩ := reaches_iff.1 there
    refine ⟨projectRoot d ⟨true, l⟩, ⟨o, l, ho, watch, rfl, hl, isRootAround_iff.2 rfl⟩, ?_⟩
    rintro r ⟨o', l', ho', -, -, hl', hr⟩
    cases ho.symm.trans ho'
    cases hl.symm.trans hl'
    exact (isRootAround_iff.1 hr).symm
  prints args keysOnly r h config hc g p hp := by
    rw [run_eq_answer h]
    exact prints_answer hc hp
  same args args' keysOnly r h h' := (run_eq_answer h).trans (run_eq_answer h').symm

theorem classes_of_named {fqcn : String}
    (h : ∀ c ∈ p.declarations, c.2.name = Classes.normalize fqcn) : p.provider.classes fqcn =
      p.declarations.filterMap fun b => (b.2.find? b.1.tree).map .root := by
  change p.classNodes fqcn = _
  rw [classNodes, hierarchy, Classes.hierarchy_of_named h]

-- Two paths of one project, which has a configuration of its own.
namespace Around

def settings : String :=
  "\x7b\"base_class\": \"A\", \"register_method\": \"r\", \"aliases_variable\": \"v\"\x7d"

def source : String :=
  "<?php class A \x7b function r() \x7b $v = ['b' => 'X\\Y', 'a' => []]; \x7d \x7d"

def disk : Disk :=
  [("/r/composer.json", ""), ("/r/artisan", ""), ("/r/.laravel-dic.json", settings),
    ("/r/app/a.php", source)].foldl (fun d f => d.write (.ofText f.1) (some f.2) second) default

def root : Path := .ofText "/r"

def loaded : Config :=
  { Config.standard with baseClass := "A", registerMethod := "r", aliasesVariable := "v" }

def found : FileSet := .ofList [((Path.ofText "/r/app/a.php").components, ())]

def project : Project := (empty root loaded 1).withFound disk found

theorem load_eq : Config.load disk root = .ok loaded := ok_of_toOption (by decide +kernel)

theorem onDisk_eq : onDisk disk root loaded 1 = .ok project :=
  onDisk_of_scan (ok_of_toOption (by decide +kernel)) 1

theorem asksFor_directory : AsksFor disk ["--", "/r/app"] false root := by
  refine ⟨⟨some "/r/app", false, false, none⟩, ["r", "app"], by decide +kernel, rfl, rfl,
    ok_of_toOption (by decide +kernel), ?_⟩
  have itself : Passes disk ⟨true, ["r", "app"]⟩ 0 ⟨true, ["r", "app"]⟩ :=
    .itself (by decide +kernel)
  refine .marked 1 root (.up 0 _ root itself (by decide +kernel)) (by decide +kernel) ?_
  intro m hm x hx
  obtain rfl : m = 0 := by omega
  rw [← itself.unique hx]
  decide +kernel

theorem asksFor_file : AsksFor disk ["--", "/r/artisan"] false root := by
  refine ⟨⟨some "/r/artisan", false, false, none⟩, ["r", "artisan"], by decide +kernel, rfl, rfl,
    ok_of_toOption (by decide +kernel), ?_⟩
  exact .marked 0 root (.holder (by decide +kernel) root (by decide +kernel)) (by decide +kernel)
    fun m hm => absurd hm (Nat.not_lt_zero m)

theorem named : ∀ c ∈ project.declarations,
    c.2.name = Classes.normalize project.pattern.baseClass := by
  decide +kernel

theorem toList_aliasMap : project.aliasMap.toList = [("a", []), ("b", ["X\\Y"])] := by
  rw [aliasMap, Alias.Provider.aliasMap, Alias.Provider.visit, classes_of_named named]
  decide +kernel

end Around

theorem answers_by_root_around :
    run Around.disk ["--", "/r/app"] = run Around.disk ["--", "/r/artisan"] ∧
      Prints Around.project false (run Around.disk ["--", "/r/app"]) ∧
      (run Around.disk ["--", "/r/app"]).output =
        "\x7b\n  \"a\": [],\n  \"b\": [\n    \"X\\\\Y\"\n  ]\n\x7d\n" := by
  have same := (answers_by_root Around.disk).same _ _ _ _ Around.asksFor_directory
    Around.asksFor_file
  have prints := (answers_by_root Around.disk).prints _ _ _ Around.asksFor_directory _
    Around.load_eq _ _ Around.onDisk_eq
  refine ⟨same, prints, (prints.aliases rfl).1.trans ?_⟩
  rw [Around.toList_aliasMap]
  decide +kernel

end ContainerAliases.CommandLine
