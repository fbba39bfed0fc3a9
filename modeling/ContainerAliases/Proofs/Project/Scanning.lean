import Mathlib.Data.List.Nodup
import Mathlib.Data.List.TakeDrop
import ContainerAliases.Disk.Edit
import ContainerAliases.Proofs.Disk.Places
import ContainerAliases.Proofs.Disk.Spelling

namespace ContainerAliases.Project

open Disk

variable {d : Disk} {root : Path} {c c' : Config} {found found' : FileSet} {base start : Path}
  {top l : Location} {dirs names : List String} {s : String} {r : Route}

def StandsFor (d : Disk) (root : Path) (entry : String) (start : Path) : Prop :=
  ∃ ps, starts d root entry = .ok ps ∧ start ∈ ps

def IsStart (d : Disk) (root : Path) (c : Config) (start : Path) : Prop :=
  ∃ entry ∈ c.scanPaths, StandsFor d root entry start

/-- The directories that are gone into from `top`, by the names that lead there. -/
inductive Opens (d : Disk) (c : Config) (top : Location) : List String → Prop where
  | here (h : d.isDirectoryAt top) : Opens d c top []
  | inside (dirs : List String) (s : String) (h : Opens d c top dirs)
    (real : d.isDirectoryAt (top ++ (dirs ++ [s]))) (allowed : s ∉ c.excludedDirs) :
    Opens d c top (dirs ++ [s])

/-- The routes that are taken from a start. -/
inductive Takes (d : Disk) (c : Config) (start : Path) : Route → Prop where
  | file (h : d.isFile start.steps) (stem : String) (named : stem ≠ "")
    (name : start.fileName? = some (stem ++ ".php")) : Takes d c start start.components
  | below (top : Location) (place : d.locate start.steps = .ok top) (dirs : List String)
    (opens : Opens d c top dirs) (stem : String) (named : stem ≠ "")
    (file : d.isFileAt (top ++ (dirs ++ [stem ++ ".php"]))) :
    Takes d c start (start.components ++ (dirs ++ [stem ++ ".php"]).map .name)

/-- `start` leads nowhere, or by the same components as `base` or further ones to what is gone into
from there. -/
inductive LiesIn (d : Disk) (c : Config) (base start : Path) : Prop where
  | nowhere (h : ¬ d.reaches start.steps)
  | same (h : d.reaches base.steps) (hc : start.components = base.components)
  | directory (top : Location) (place : d.locate base.steps = .ok top) (dirs : List String)
    (opens : Opens d c top dirs) (hc : start.components = base.components ++ dirs.map .name)
  | file (top : Location) (place : d.locate base.steps = .ok top) (dirs : List String)
    (opens : Opens d c top dirs) (s : String)
    (h : d.isFileAt (top ++ (dirs ++ [s])))
    (hc : start.components = base.components ++ (dirs ++ [s]).map .name)

/-- The path is written as the place it leads to, without a link or two dots on the way. -/
def IsDirect (d : Disk) (p : Path) : Prop :=
  ∃ l, d.locate p.steps = .ok l ∧ p.components = .root :: l.map .name

/-- The routes that are found, each of them once: a file occurs once for every route by which the
starts lead to it, so only once if all starts are direct. Starts that lie in others add nothing, the
order makes no difference, and with more scan paths and fewer excluded names no less is found. -/
structure Finds (d : Disk) (root : Path) (c : Config) (found : FileSet) : Prop where
  exact : ∀ r, found.contains r ↔ ∃ start, IsStart d root c start ∧ Takes d c start r
  once : ∀ r, found.contains r → found.keys.count r = 1
  direct : (∀ start, IsStart d root c start → d.reaches start.steps → IsDirect d start) →
    ∀ r, found.contains r → ∃ l, r = .root :: l.map .name ∧ d.isFileAt l
  overlap : ∀ c' found', scan d root c' = .ok found' → c.scanPaths ⊆ c'.scanPaths →
    (∀ s, s ∈ c'.excludedDirs ↔ s ∈ c.excludedDirs) →
    (∀ start, IsStart d root c' start → ∃ base, IsStart d root c base ∧ LiesIn d c base start) →
    found' = found
  order : ∀ c', (∀ entry, entry ∈ c'.scanPaths ↔ entry ∈ c.scanPaths) →
    (∀ s, s ∈ c'.excludedDirs ↔ s ∈ c.excludedDirs) → scan d root c' = .ok found
  grows : ∀ c' found', scan d root c' = .ok found' → c.scanPaths ⊆ c'.scanPaths →
    c'.excludedDirs ⊆ c.excludedDirs → ∀ r, found.contains r → found'.contains r

/-- The two scan paths name the same, be it with other slashes and dots, so that neither adds to
what the other finds. -/
structure Respells (root : Path) (entry entry' : String) : Prop where
  plain : entry.toList.any isWildcard = false
  plain' : entry'.toList.any isWildcard = false
  absolute : (Path.ofText entry).isAbsolute = (Path.ofText entry').isAbsolute
  words : (Path.ofText entry).words = (Path.ofText entry').words
  given : root.IsGiven ∨ (Path.ofText entry').isAbsolute

theorem Opens.isDirectoryAt_end (h : Opens d c top dirs) : d.isDirectoryAt (top ++ dirs) := by
  cases h with
  | here h => rwa [List.append_nil]
  | inside dirs s h real allowed => exact real

theorem Opens.isDirectoryAt_top (h : Opens d c top dirs) : d.isDirectoryAt top := by
  induction h with
  | here h => exact h
  | inside dirs s _ _ _ ih => exact ih

theorem Opens.append (h : Opens d c top dirs) (h' : Opens d c (top ++ dirs) names) :
    Opens d c top (dirs ++ names) := by
  induction h' with
  | here _ => rwa [List.append_nil]
  | inside names s _ real allowed ih =>
    rw [← List.append_assoc]
    rw [List.append_assoc, ← List.append_assoc dirs] at real
    exact .inside _ s ih real allowed

theorem Opens.mono (hx : ∀ s, s ∈ c'.excludedDirs → s ∈ c.excludedDirs)
    (h : Opens d c top dirs) : Opens d c' top dirs := by
  induction h with
  | here h => exact .here h
  | inside dirs s _ real allowed ih => exact .inside dirs s ih real fun hs => allowed (hx s hs)

theorem isOpen_singleton (d : Disk) (c : Config) (top : Location) (s : String) :
    isOpen d c top [s] := rfl

theorem isOpen_concat (d : Disk) (c : Config) (top : Location) (dirs : List String)
    (t s : String) : isOpen d c top (dirs ++ [t] ++ [s]) =
      (isOpen d c top (dirs ++ [s]) &&
        (!c.isExcluded t && d.isDirectoryAt (top ++ (dirs ++ [t])))) := by
  -- the directories on the way to the new one do not depend on what stands behind them
  have before : ((List.range dirs.length).all fun n =>
        d.isDirectoryAt (top ++ (dirs ++ [t] ++ [s]).take (n + 1))) =
      (List.range dirs.length).all fun n =>
        d.isDirectoryAt (top ++ (dirs ++ [s]).take (n + 1)) := by
    rw [Bool.eq_iff_iff, List.all_eq_true, List.all_eq_true]
    refine forall₂_congr fun n hn => ?_
    have hn := List.mem_range.1 hn
    rw [List.append_assoc, List.take_append_of_le_length hn, List.take_append_of_le_length hn]
  have last : (dirs ++ [t] ++ [s]).take (dirs.length + 1) = dirs ++ [t] :=
    List.take_left' (by simp)
  have length : (dirs ++ [t] ++ [s]).length - 1 = dirs.length + 1 := by simp
  have length' : (dirs ++ [s]).length - 1 = dirs.length := by simp
  simp only [isOpen, List.dropLast_concat, length, length', List.range_succ, List.all_append,
    before, List.all_cons, List.all_nil, last, Bool.and_true]
  grind

theorem isOpen_iff (ht : d.isDirectoryAt top) :
    isOpen d c top (dirs ++ [s]) ↔ Opens d c top dirs := by
  induction dirs using List.reverseRecOn with
  | nil => exact iff_of_true (isOpen_singleton ..) (.here ht)
  | append_singleton dirs t ih =>
    simp only [isOpen_concat, Bool.and_eq_true, ih, Bool.not_eq_true', Config.isExcluded,
      List.contains_eq_mem, decide_eq_false_iff_not]
    constructor
    · rintro ⟨h, allowed, real⟩
      exact .inside dirs t h real allowed
    · -- the last directory that is gone into has to be `t`, so only one rule applies
      intro h
      generalize he : dirs ++ [t] = ts at h
      cases h with
      | here h => simp at he
      | inside ts u h real allowed =>
        obtain ⟨rfl, hu⟩ := List.append_inj' he rfl
        obtain rfl : t = u := by simpa using hu
        exact ⟨h, allowed, real⟩

theorem isSource_iff : isSource r ↔ ∃ stem, stem ≠ "" ∧ r.fileName? = some (stem ++ ".php") := by
  rw [isSource, beq_iff_eq, Route.extension?, Option.bind_eq_some_iff]
  constructor
  · rintro ⟨s, hs, h⟩
    rw [List.span_eq_takeWhile_dropWhile] at h
    split at h
    · next ext dot c cs he =>
      obtain ⟨hext, hrest⟩ := Prod.mk.inj he
      have dot : dot = '.' := by
        have hne : s.toList.reverse.dropWhile (· != '.') ≠ [] := by simp [hrest]
        have := List.head_dropWhile_not (· != '.') hne
        simpa [hrest] using this
      have back := List.takeWhile_append_dropWhile (p := (· != '.')) (l := s.toList.reverse)
      have php : ext.reverse = "php".toList := by simpa [← String.toList_inj] using h
      rw [hext, hrest, dot, ← List.reverse_eq_iff, List.reverse_append, php] at back
      refine ⟨String.ofList (c :: cs).reverse, by simp [← String.toList_inj], hs.trans ?_⟩
      rw [Option.some.injEq, ← String.toList_inj, ← back]
      simp
    · cases h
  · rintro ⟨stem, hne, hs⟩
    refine ⟨_, hs, ?_⟩
    have back : (stem ++ ".php").toList.reverse = ['p', 'h', 'p', '.'] ++ stem.toList.reverse := by
      simp
    obtain ⟨c, cs, hc⟩ : ∃ c cs, stem.toList.reverse = c :: cs :=
      List.exists_cons_of_ne_nil (by simpa using hne)
    rw [back, hc]
    rfl

theorem fileName?_concat (r : Route) (s : String) :
    Route.fileName? (r ++ [.name s]) = some s := by
  rw [Route.fileName?, List.getLast?_concat]
  rfl

theorem isSource_concat {names : List String} : isSource (r ++ (names ++ [s]).map .name) ↔
    ∃ stem, stem ≠ "" ∧ s = stem ++ ".php" := by
  rw [isSource_iff, List.map_append, ← List.append_assoc]
  simp only [List.map_singleton, fileName?_concat, Option.some.injEq]

theorem mem_sourcesBelow_iff : r ∈ sourcesBelow d c start ↔
    ∃ top dirs stem, d.locate start.steps = .ok top ∧ Opens d c top dirs ∧ stem ≠ "" ∧
      d.isFileAt (top ++ (dirs ++ [stem ++ ".php"])) ∧
      r = start.components ++ (dirs ++ [stem ++ ".php"]).map .name := by
  rw [sourcesBelow]
  cases hl : d.locate start.steps with
  | error e => simp
  | ok top =>
    simp only [Except.ok.injEq]
    by_cases ht : d.isDirectoryAt top
    · rw [if_pos ht]
      simp only [List.mem_filterMap, Prod.exists, mem_below_iff, Option.ite_none_right_eq_some,
        Bool.and_eq_true, Option.some.injEq]
      constructor
      · rintro ⟨names, e, ⟨hn, he⟩, ⟨⟨hf, hs⟩, ho⟩, rfl⟩
        obtain ⟨dirs, s, rfl⟩ := List.eq_nil_or_concat' names |>.resolve_left hn
        obtain ⟨stem, named, rfl⟩ := isSource_concat.1 hs
        exact ⟨top, dirs, stem, rfl, (isOpen_iff ht).1 ho, named,
          by rwa [isFileAt, he], rfl⟩
      · rintro ⟨_, dirs, stem, rfl, opens, named, hf, rfl⟩
        obtain ⟨e, he, hf⟩ := (Option.any_eq_true ..).1 hf
        exact ⟨_, e, ⟨by simp, he⟩, ⟨⟨hf, isSource_concat.2 ⟨stem, named, rfl⟩⟩,
          (isOpen_iff ht).2 opens⟩, rfl⟩
    · rw [if_neg ht]
      simp only [List.not_mem_nil, false_iff]
      rintro ⟨_, dirs, stem, rfl, opens, -⟩
      exact ht opens.isDirectoryAt_top

theorem mem_sourcesAt_iff : r ∈ sourcesAt d c start ↔ Takes d c start r := by
  rw [sourcesAt]
  by_cases hf : d.isFile start.steps
  · obtain ⟨l, hl, he⟩ := isFile_iff.1 hf
    rw [if_pos hf, List.mem_ite_nil_right, isSource_iff, List.mem_singleton]
    constructor
    · rintro ⟨⟨stem, named, name⟩, rfl⟩
      exact .file hf stem named name
    · rintro (⟨-, stem, named, name⟩ | ⟨top, place, dirs, opens, -⟩)
      · exact ⟨⟨stem, named, name⟩, rfl⟩
      · obtain rfl : l = top := Except.ok.inj (hl.symm.trans place)
        exact absurd opens.isDirectoryAt_top (not_isDirectoryAt_of_isFileAt he)
  · rw [if_neg hf, mem_sourcesBelow_iff]
    constructor
    · rintro ⟨top, dirs, stem, place, opens, named, file, rfl⟩
      exact .below top place dirs opens stem named file
    · rintro (⟨h, -⟩ | ⟨top, place, dirs, opens, stem, named, file⟩)
      · exact absurd h hf
      · exact ⟨top, dirs, stem, place, opens, named, file, rfl⟩

theorem Takes.exists_locate (h : Takes d c start r) :
    ∃ l e, d.locate start.steps = .ok l ∧ d.entry? l = some e := by
  cases h with
  | file h stem named name =>
    obtain ⟨l, hl, he⟩ := isFile_iff.1 h
    obtain ⟨e, he, -⟩ := (Option.any_eq_true ..).1 he
    exact ⟨l, e, hl, he⟩
  | below top place dirs opens stem named file =>
    exact ⟨top, .directory, place, beq_iff_eq.1 opens.isDirectoryAt_top⟩

/-- Real directories are followed as they are named. -/
theorem Opens.follow_eq {xs : Route} {n : Nat} {here : Location} (opens : Opens d c top dirs)
    (ht : d.follow true n xs here = .ok top)
    (h : (d.follow true n (xs ++ dirs.map .name) here).isOk) :
    d.follow true n (xs ++ dirs.map .name) here = .ok (top ++ dirs) := by
  induction opens with
  | here _ => rwa [List.map_nil, List.append_nil, List.append_nil]
  | inside dirs s _ real _ ih =>
    rw [List.map_append, ← List.append_assoc] at h ⊢
    obtain ⟨l, -, hl, -⟩ := isOk_follow_concat_iff.1 (isOk_follow_of_through h)
    have hl := ih (isOk_iff.2 ⟨l, hl⟩)
    rw [← List.append_assoc] at real ⊢
    refine follow_concat_name hl (fun t ht => ?_) h
    rw [isDirectoryAt, beq_iff_eq, ht] at real
    cases real

theorem Opens.locate_eq (opens : Opens d c top dirs) (place : d.locate base.steps = .ok top)
    (hc : start.components = base.components ++ dirs.map .name)
    (hs : d.locate start.steps = .ok l) : l = top ++ dirs := by
  have hs := follow_of_locate hs
  rw [hc, Route.moves_append, Route.moves_names] at hs
  rw [opens.follow_eq (follow_of_locate place) (isOk_iff.2 ⟨l, hs⟩)] at hs
  exact (Except.ok.inj hs).symm

theorem Opens.locate_file_eq (opens : Opens d c top dirs) (place : d.locate base.steps = .ok top)
    (file : d.isFileAt (top ++ (dirs ++ [s])))
    (hc : start.components = base.components ++ (dirs ++ [s]).map .name)
    (hs : d.locate start.steps = .ok l) : l = top ++ (dirs ++ [s]) := by
  have hs := follow_of_locate hs
  rw [hc, Route.moves_append, Route.moves_names, List.map_append, ← List.append_assoc] at hs
  obtain ⟨m, -, hm, -⟩ := isOk_follow_concat_iff.1 (isOk_follow_of_through (isOk_iff.2 ⟨l, hs⟩))
  have hm := opens.follow_eq (follow_of_locate place) (isOk_iff.2 ⟨m, hm⟩)
  rw [← List.append_assoc] at file ⊢
  have link (t : Path) : d.entry? (top ++ dirs ++ [s]) ≠ some (.link t) := by
    intro he
    rw [isFileAt, he] at file
    cases file
  rw [List.map_singleton, follow_concat_name hm link (isOk_iff.2 ⟨l, hs⟩)] at hs
  exact (Except.ok.inj hs).symm

theorem Takes.of_same (h : Takes d c start r) (hb : d.reaches base.steps)
    (hc : start.components = base.components) : Takes d c base r := by
  obtain ⟨l, -, hl, -⟩ := h.exists_locate
  obtain ⟨m, -, hm, -⟩ := reaches_iff.1 hb
  obtain rfl : l = m := locate_eq_of_components hc hl hm
  cases h with
  | file h stem named name =>
    obtain ⟨m, hm', hf⟩ := isFile_iff.1 h
    obtain rfl : l = m := Except.ok.inj (hl.symm.trans hm')
    rw [Path.fileName?, hc] at name
    exact hc ▸ .file (isFile_iff.2 ⟨l, hm, hf⟩) stem named name
  | below top place dirs opens stem named file =>
    obtain rfl : l = top := Except.ok.inj (hl.symm.trans place)
    exact hc ▸ .below l hm dirs opens stem named file

theorem Takes.of_directory (h : Takes d c start r) (place : d.locate base.steps = .ok top)
    (opens : Opens d c top dirs)
    (hc : start.components = base.components ++ dirs.map .name) : Takes d c base r := by
  obtain ⟨l, -, hl, -⟩ := h.exists_locate
  obtain rfl : l = top ++ dirs := opens.locate_eq place hc hl
  cases h with
  | file h stem named name =>
    obtain ⟨m, hm, hf⟩ := isFile_iff.1 h
    obtain rfl : top ++ dirs = m := Except.ok.inj (hl.symm.trans hm)
    exact absurd opens.isDirectoryAt_end (not_isDirectoryAt_of_isFileAt hf)
  | below top' place' names opens' stem named file =>
    obtain rfl : top ++ dirs = top' := Except.ok.inj (hl.symm.trans place')
    rw [hc, List.append_assoc, ← List.map_append, ← List.append_assoc dirs]
    refine .below top place (dirs ++ names) (opens.append opens') stem named ?_
    rwa [List.append_assoc, ← List.append_assoc top]

theorem Takes.of_file (h : Takes d c start r) (place : d.locate base.steps = .ok top)
    (opens : Opens d c top dirs) (file : d.isFileAt (top ++ (dirs ++ [s])))
    (hc : start.components = base.components ++ (dirs ++ [s]).map .name) : Takes d c base r := by
  obtain ⟨l, -, hl, -⟩ := h.exists_locate
  obtain rfl : l = top ++ (dirs ++ [s]) := opens.locate_file_eq place file hc hl
  cases h with
  | file _ stem named name =>
    rw [Path.fileName?, hc, List.map_append, ← List.append_assoc] at name
    obtain rfl : s = stem ++ ".php" := Option.some.inj ((fileName?_concat ..).symm.trans name)
    rw [hc]
    exact .below top place dirs opens stem named file
  | below top' place' names opens' stem named _ =>
    obtain rfl : top ++ (dirs ++ [s]) = top' := Except.ok.inj (hl.symm.trans place')
    exact absurd opens'.isDirectoryAt_top (not_isDirectoryAt_of_isFileAt file)

theorem LiesIn.takes (h : LiesIn d c base start) (ht : Takes d c start r) : Takes d c base r := by
  cases h with
  | nowhere h =>
    obtain ⟨l, e, hl, he⟩ := ht.exists_locate
    exact absurd (reaches_iff.2 ⟨l, e, hl, he⟩) h
  | same h hc => exact ht.of_same h hc
  | directory top place dirs opens hc => exact ht.of_directory place opens hc
  | file top place dirs opens s h hc => exact ht.of_file place opens h hc

theorem liesIn_self (d : Disk) (c : Config) (start : Path) : LiesIn d c start start := by
  by_cases h : d.reaches start.steps
  · exact .same h rfl
  · exact .nowhere h

theorem Takes.mono (hx : ∀ s, s ∈ c'.excludedDirs → s ∈ c.excludedDirs)
    (h : Takes d c start r) : Takes d c' start r := by
  cases h with
  | file h stem named name => exact .file h stem named name
  | below top place dirs opens stem named file =>
    exact .below top place dirs (opens.mono hx) stem named file

theorem contains_iff_of_scan (h : scan d root c = .ok found) (r : Route) :
    found.contains r ↔ ∃ start, IsStart d root c start ∧ Takes d c start r := by
  obtain ⟨pss, hp, h⟩ := bind_eq_ok_iff.1 h
  cases h
  rw [OrderedMap.contains_ofList, List.map_map]
  simp only [List.mem_map, List.mem_flatMap, mem_flatten_of_mapM hp, mem_sourcesAt_iff,
    Function.comp_apply, exists_eq_right, IsStart, StandsFor]

theorem isOk_scan_iff :
    (scan d root c).isOk ↔ ∀ entry ∈ c.scanPaths, (starts d root entry).isOk := by
  rw [← isOk_mapM_iff, scan]
  cases c.scanPaths.mapM (starts d root) <;> rfl

theorem IsStart.mono (hs : c.scanPaths ⊆ c'.scanPaths) (h : IsStart d root c start) :
    IsStart d root c' start := by
  obtain ⟨entry, he, h⟩ := h
  exact ⟨entry, hs he, h⟩

theorem contains_mono (h : scan d root c = .ok found) (h' : scan d root c' = .ok found')
    (hs : c.scanPaths ⊆ c'.scanPaths) (hx : c'.excludedDirs ⊆ c.excludedDirs)
    (hr : found.contains r) : found'.contains r := by
  obtain ⟨start, hstart, takes⟩ := (contains_iff_of_scan h r).1 hr
  exact (contains_iff_of_scan h' r).2 ⟨start, hstart.mono hs, takes.mono hx⟩

theorem found_eq_of_contains (h : ∀ r, found.contains r ↔ found'.contains r) : found = found' :=
  OrderedMap.ext_get? fun r => by
    have h := h r
    rw [OrderedMap.contains, OrderedMap.contains] at h
    cases hf : found.get? r <;> cases hf' : found'.get? r <;> simp_all

/-- Starts that lie in others add nothing. -/
theorem scan_eq_of_liesIn (h : scan d root c = .ok found) (h' : scan d root c' = .ok found')
    (hs : c.scanPaths ⊆ c'.scanPaths) (hx : ∀ s, s ∈ c'.excludedDirs ↔ s ∈ c.excludedDirs)
    (lie : ∀ start, IsStart d root c' start →
      ∃ base, IsStart d root c base ∧ LiesIn d c base start) : found' = found := by
  refine found_eq_of_contains fun r => ⟨fun hr => ?_, fun hr => ?_⟩
  · obtain ⟨start, hstart, takes⟩ := (contains_iff_of_scan h' r).1 hr
    obtain ⟨base, hbase, lies⟩ := lie start hstart
    exact (contains_iff_of_scan h r).2 ⟨base, hbase, lies.takes (takes.mono fun s => (hx s).2)⟩
  · exact contains_mono h h' hs (fun s => (hx s).1) hr

theorem scan_congr (h : scan d root c = .ok found)
    (hs : ∀ entry, entry ∈ c'.scanPaths ↔ entry ∈ c.scanPaths)
    (hx : ∀ s, s ∈ c'.excludedDirs ↔ s ∈ c.excludedDirs) : scan d root c' = .ok found := by
  have ok : (scan d root c').isOk := by
    rw [isOk_scan_iff]
    simp only [hs]
    exact isOk_scan_iff.1 (isOk_iff.2 ⟨found, h⟩)
  obtain ⟨found', h'⟩ := isOk_iff.1 ok
  rw [h', scan_eq_of_liesIn h h' (fun e => (hs e).2) hx fun start hstart =>
    ⟨start, hstart.mono fun e => (hs e).1, liesIn_self ..⟩]

theorem Takes.exists_eq_root (direct : IsDirect d start) (h : Takes d c start r) :
    ∃ l, r = .root :: l.map .name ∧ d.isFileAt l := by
  obtain ⟨l, hl, hc⟩ := direct
  cases h with
  | file h stem named name =>
    obtain ⟨m, hm, hf⟩ := isFile_iff.1 h
    obtain rfl : l = m := Except.ok.inj (hl.symm.trans hm)
    exact ⟨l, hc, hf⟩
  | below top place dirs opens stem named file =>
    obtain rfl : l = top := Except.ok.inj (hl.symm.trans place)
    refine ⟨l ++ (dirs ++ [stem ++ ".php"]), ?_, file⟩
    rw [hc, List.cons_append, ← List.map_append]

theorem finds_of_scan (h : scan d root c = .ok found) : Finds d root c found where
  exact := contains_iff_of_scan h
  once r hr := List.count_eq_one_of_mem found.nodup_keys ((OrderedMap.mem_keys_iff ..).2 hr)
  direct direct r hr := by
    obtain ⟨start, hstart, takes⟩ := (contains_iff_of_scan h r).1 hr
    obtain ⟨l, e, hl, he⟩ := takes.exists_locate
    exact takes.exists_eq_root (direct start hstart (reaches_iff.2 ⟨l, e, hl, he⟩))
  overlap _ _ h' hs hx lie := scan_eq_of_liesIn h h' hs hx lie
  order _ hs hx := scan_congr h hs hx
  grows _ _ h' hs hx _ hr := contains_mono h h' hs hx hr

theorem StandsFor.of_plain {entry : String} (hw : entry.toList.any isWildcard = false)
    (h : StandsFor d root entry start) : start = root.child entry ∧ d.reaches start.steps := by
  obtain ⟨ps, hps, hs⟩ := h
  rw [starts, if_neg (by simp [hw])] at hps
  cases hps
  split at hs
  · next hr =>
    obtain rfl := List.mem_singleton.1 hs
    exact ⟨rfl, hr⟩
  · cases hs

theorem Respells.liesIn {entry entry' : String} (h : Respells root entry entry')
    (hb : StandsFor d root entry base) (hs : StandsFor d root entry' start) :
    LiesIn d c base start := by
  obtain ⟨rfl, hb⟩ := hb.of_plain h.plain
  obtain ⟨rfl, -⟩ := hs.of_plain h.plain'
  exact .same hb (Path.components_join_congr h.given h.absolute h.words).symm

/-- A scan succeeds if all scan paths can be read, and finds exactly what is meant; a scan path that
is spelled in two ways finds nothing more by the second. -/
theorem scan_finds_exactly (d : Disk) (root : Path) (c : Config) :
    ((scan d root c).isOk ↔ ∀ entry ∈ c.scanPaths, (starts d root entry).isOk) ∧
      (∀ found, scan d root c = .ok found → Finds d root c found) ∧
      ∀ entry entry', Respells root entry entry' → ∀ base start, StandsFor d root entry base →
        StandsFor d root entry' start → LiesIn d c base start :=
  ⟨isOk_scan_iff, fun _ => finds_of_scan, fun _ _ h _ _ => h.liesIn⟩

-- One file, and two scan paths that lead to it by different routes.
namespace Detour

def file : Location := ["r", "app", "a.php"]

def disk : Disk :=
  { Disk.write default (.ofText "/r/app/a.php") (some "<?php class A {}") second with
    workingDirectory := ["r"] }

def places (root : String) (scanPaths : List String) : Option (List (Option Location)) :=
  (scan disk (.ofText root) { Config.standard with scanPaths }).toOption.map fun found =>
    found.keys.map fun r => (disk.locate r).toOption

end Detour

/-- The file is found twice if the root is the empty path and one scan path has a dot in front, if
the root is a dot, which is left out from what a wildcard finds, and if a scan path goes back. -/
theorem scan_finds_exactly_detour :
    Detour.places "" ["app", "./app"] = some [some Detour.file, some Detour.file] ∧
      Detour.places "." ["app", "ap*"] = some [some Detour.file, some Detour.file] ∧
      Detour.places "/r" ["app", "app/../app"] = some [some Detour.file, some Detour.file] := by
  decide +kernel

end ContainerAliases.Project
