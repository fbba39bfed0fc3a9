import ContainerAliases.Proofs.Project.Edited
import ContainerAliases.Proofs.Source.Parse

namespace ContainerAliases.Project

open Source Classes Disk
open SyntaxTree (Contains)

theorem SourceFile.inRow (f : SourceFile) : ∃ e, InRow 0 e f.tree.children := by
  rw [f.tree_eq]
  exact inRow_parse f.text

theorem find?_of_readIn {method : String} {f : SourceFile} {c : ClassDeclaration}
    {m : Option SyntaxTree} (h : ReadIn method f.tree.children c m) :
    ∃ n, c.find? f.tree = some n ∧ register method n = m := by
  obtain ⟨n, ⟨u, hu, hn⟩, hc, hs, hm⟩ := h
  obtain ⟨e, row⟩ := f.inRow
  exact ⟨n, find?_of_inRow row hu hn hc hs.symm, hm⟩

def SameRegister (method : String) (a b : SourceFile × ClassDeclaration) : Prop :=
  a.2.unplaced = b.2.unplaced ∧ ∃ n m, a.2.find? a.1.tree = some n ∧ b.2.find? b.1.tree = some m ∧
    register method n = register method m

theorem Edited.forall₂_classes {method : String} {f g : SourceFile}
    (h : Edited method f.tree.children g.tree.children) :
    List.Forall₂ (fun c d => SameRegister method (f, c) (g, d)) f.classes g.classes := by
  rw [f.classes_eq, g.classes_eq]
  refine (h.readAlike default).2.imp fun c d hcd => ⟨hcd.unplaced, ?_⟩
  obtain ⟨r, hr, hr'⟩ := hcd.nodes
  obtain ⟨n, hn, rfl⟩ := find?_of_readIn hr
  obtain ⟨m, hm, hnm⟩ := find?_of_readIn hr'
  exact ⟨n, m, hn, hm, hnm.symm⟩

/-- No declaration of the file at the route belongs to the hierarchy of the base class. -/
def Outside (p : Project) (r : Route) : Prop := ∀ x ∈ p.listed p.pattern.baseClass, x.route ≠ r

/-- A declaration without parents and with another name belongs to no hierarchy. -/
theorem outside_of_parentless {p : Project} {r : Route} (h : ∀ x ∈ p.placed, x.route = r →
    x.declaration.name ≠ normalize p.pattern.baseClass ∧ x.declaration.parents = []) :
    p.Outside r := by
  intro x hx hr
  have orphan (n : String) (hp : x.declaration.parents = []) : ¬ x.declaration.HasParent n := by
    simp [ClassDeclaration.HasParent, hp]
  have mem : x ∈ p.placed := by
    rcases mem_hierarchy.1 hx with hx | hx
    · exact hx.1
    · exact (List.mem_filter.1 (subset_descendants _ _ hx)).1
  obtain ⟨name, none⟩ := h x mem hr
  rcases mem_hierarchy.1 hx with hx | hx
  · exact name hx.2
  · have descends : Descends Placed.declaration (normalize p.pattern.baseClass) x :=
      descends_of_mem_descendants (allNormal_target _) (by simp) x hx
    cases descends with
    | named h => exact name h
    | direct h => exact orphan _ none h
    | step _ h => exact orphan _ none h

/-- The projects have one pattern, and each file is outside of both hierarchies or was edited around
its register methods. -/
structure Reworked (p q : Project) : Prop where
  pattern : p.pattern = q.pattern
  files : ∀ r, p.Outside r ∧ q.Outside r ∨
    Option.Rel (fun f g => Edited p.pattern.registerMethod f.tree.children g.tree.children)
      (p.files.get? r) (q.files.get? r)

def keepFiles (p : Project) (keep : Route → Bool) : Project :=
  { p with files := p.files.filter fun r _ => keep r }

theorem placed_keepFiles (p : Project) (keep : Route → Bool) :
    (p.keepFiles keep).placed = p.placed.filter fun x => keep x.route := by
  have file (b : Route × SourceFile) : (placedIn b.1 b.2).filter (fun x => keep x.route) =
      if keep b.1 then placedIn b.1 b.2 else [] := by
    have same : ∀ x ∈ placedIn b.1 b.2, keep x.route = keep b.1 :=
      fun x hx => congrArg keep (route_of_mem_placedIn hx)
    rw [List.filter_congr same]
    split
    · next h => simp [h]
    · next h => simp [h]
  rw [placed, placed, keepFiles, List.filter_flatMap]
  simp only [file]
  change (p.files.toList.filter fun b => keep b.1).flatMap _ = _
  generalize p.files.toList = bs
  induction bs with
  | nil => rfl
  | cons b bs ih =>
    rw [List.flatMap_cons, ← ih, List.filter_cons]
    split <;> simp

theorem listed_keepFiles {p : Project} {keep : Route → Bool} {fqcn : String}
    (h : ∀ x ∈ p.listed fqcn, keep x.route) : (p.keepFiles keep).listed fqcn = p.listed fqcn := by
  rw [listed, placed_keepFiles]
  exact hierarchy_filter (fun x : Placed => keep x.route) h

theorem agrees_of_unplaced {c d : ClassDeclaration} (h : c.unplaced = d.unplaced) : c.Agrees d := by
  simp only [ClassDeclaration.unplaced, ClassDeclaration.mk.injEq] at h
  obtain ⟨fqcn, -, parents, -⟩ := h
  exact ⟨by rw [ClassDeclaration.name, fqcn, ClassDeclaration.name],
    ClassDeclaration.descendsFrom_congr (by rw [parents])⟩

theorem Reworked.forall₂_listed {p q : Project} (h : p.Reworked q) :
    List.Forall₂ (Placed.Rel (SameRegister p.pattern.registerMethod))
      (p.listed p.pattern.baseClass) (q.listed q.pattern.baseClass) := by
  classical
  -- both hierarchies are those of the files that are not outside of both
  let keep (r : Route) : Bool := decide ¬ (p.Outside r ∧ q.Outside r)
  have kept_left : ∀ x ∈ p.listed p.pattern.baseClass, keep x.route :=
    fun x hx => decide_eq_true fun ho => ho.1 x hx rfl
  have kept_right : ∀ x ∈ q.listed q.pattern.baseClass, keep x.route :=
    fun x hx => decide_eq_true fun ho => ho.2 x hx rfl
  have files : ∀ r, Option.Rel
      (fun f g => Edited p.pattern.registerMethod f.tree.children g.tree.children)
      ((p.keepFiles keep).files.get? r) ((q.keepFiles keep).files.get? r) := by
    intro r
    rw [keepFiles, keepFiles, OrderedMap.get?_filter, OrderedMap.get?_filter]
    by_cases ho : p.Outside r ∧ q.Outside r
    · have dropped : keep r = false := decide_eq_false (not_not.2 ho)
      have none (o : Option SourceFile) : (o.filter fun _ => false) = none := by cases o <;> rfl
      rw [dropped, none, none]
      exact .none
    · have kept : keep r = true := decide_eq_true ho
      have same (o : Option SourceFile) : (o.filter fun _ => true) = o := by cases o <;> rfl
      rw [kept, same, same]
      exact (h.files r).resolve_left ho
  have placed : List.Forall₂ (Placed.Rel (SameRegister p.pattern.registerMethod))
      (p.keepFiles keep).placed (q.keepFiles keep).placed :=
    forall₂_placed ((OrderedMap.forall₂_toList files).imp fun a b hab =>
      ⟨hab.1, hab.2.forall₂_classes⟩)
  rw [← listed_keepFiles kept_left, ← listed_keepFiles kept_right, ← h.pattern]
  exact forall₂_hierarchy (fun x y hxy => agrees_of_unplaced hxy.2.1) placed rfl

/-- What two projects have in common that differ in nothing that matters. -/
structure SameVisits (p q : Project) : Prop where
  places : (p.listed p.pattern.baseClass).map Placed.place =
    (q.listed q.pattern.baseClass).map Placed.place
  hierarchy : List.Forall₂ (fun a b => a.2.unplaced = b.2.unplaced)
    (p.hierarchy p.pattern.baseClass) (q.hierarchy q.pattern.baseClass)
  /-- The same keys with the same values, but for where these stand. -/
  visits : (p.provider.entries p.pattern).map (Alias.Entry.map Node.still) =
    (q.provider.entries q.pattern).map (Alias.Entry.map Node.still)
  aliasMap : p.aliasMap = q.aliasMap
  aliasKeys : p.aliasKeys = q.aliasKeys

theorem map_entriesOf_root (p : Project) (pattern : Alias.Pattern) (n : SyntaxTree) :
    (p.provider.entriesOf pattern (.root n)).map (Alias.Entry.map Node.still) =
      (register pattern.registerMethod n).toList.flatMap fun m =>
        Alias.entriesIn (Node.root m) pattern.aliasesVariable := by
  rw [Alias.Provider.entriesOf_eq, register]
  change List.map _ ((method? (.root n) pattern.registerMethod).toList.flatMap _) = _
  cases method? (.root n) pattern.registerMethod with
  | none => rfl
  | some m =>
    rw [Option.map_some, Option.toList_some, Option.toList_some, List.flatMap_singleton,
      List.flatMap_singleton, ← Node.isHom_still.entriesIn]
    exact Alias.entriesIn_congr rfl _

/-- Only the register methods of the hierarchy matter. -/
theorem only_register_methods_matter {p q : Project} (h : p.Reworked q) : SameVisits p q := by
  have listed := h.forall₂_listed
  have visits : (p.provider.entries p.pattern).map (Alias.Entry.map Node.still) =
      (q.provider.entries q.pattern).map (Alias.Entry.map Node.still) := by
    refine Alias.Provider.map_entries_eq ?_
    change List.Forall₂ _ (p.classNodes _) (q.classNodes _)
    rw [classNodes_eq, classNodes_eq]
    refine List.rel_filterMap (fun x y hxy => ?_) listed
    obtain ⟨-, n, m, hn, hm, hnm⟩ := hxy.2
    rw [Placed.node?, Placed.node?, show x.declaration.find? x.file.tree = some n from hn,
      show y.declaration.find? y.file.tree = some m from hm]
    refine .some ?_
    rw [map_entriesOf_root, map_entriesOf_root, ← h.pattern, hnm]
  have aliases := Alias.Provider.aliases_eq Node.isHom_still Node.isHom_still visits
  refine ⟨map_place_eq listed, ?_, visits, aliases.1, aliases.2⟩
  rw [← map_pair_listed, ← map_pair_listed, List.forall₂_map_left_iff, List.forall₂_map_right_iff]
  exact listed.imp fun x y hxy => hxy.2.1

-- Another statement and another member stand around one register method, and a file is taken away.
namespace Reworking

def config : Config := ⟨"B", "r", "v", [], []⟩

def text : String := "<?php 1;class A extends B\x7bvar$o;function r()\x7b$v=['k'=>'V'];\x7d\x7d"

def text' : String := "<?php f();class A extends B\x7bfunction r()\x7b$v=['k'=>'V'];\x7d\x7d"

def aside : String := "<?php class D\x7b\x7d"

def project : Project :=
  .ofSources (.ofText "/r") config 1 [(.ofText "a.php", text), (.ofText "d.php", aside)]

def project' : Project := .ofSources (.ofText "/r") config 1 [(.ofText "a.php", text')]

def key (name : String) : Route := (Project.empty (.ofText "/r") config 1).key (.ofText name)

theorem get?_project (r : Route) : project.files.get? r =
    if r = key "d.php" then some (.ofText aside .buffer)
    else if r = key "a.php" then some (.ofText text .buffer) else none :=
  (OrderedMap.get?_insert ..).trans (congrArg _ (OrderedMap.get?_insert ..))

theorem get?_project' (r : Route) : project'.files.get? r =
    if r = key "a.php" then some (.ofText text' .buffer) else none := OrderedMap.get?_insert ..

theorem edited : Edited "r" (parse text).tree.children (parse text').tree.children :=
  .of_inPlace (by decide +kernel)

theorem outside : project.Outside (key "d.php") ∧ project'.Outside (key "d.php") :=
  ⟨outside_of_parentless (by decide +kernel), outside_of_parentless (by decide +kernel)⟩

theorem reworked : project.Reworked project' where
  pattern := rfl
  files r := by
    by_cases hd : r = key "d.php"
    · exact .inl (hd ▸ outside)
    · rw [get?_project, get?_project', if_neg hd]
      by_cases ha : r = key "a.php"
      · rw [if_pos ha, if_pos ha]
        exact .inr (.some edited)
      · rw [if_neg ha, if_neg ha]
        exact .inr .none

end Reworking

theorem only_register_methods_matter_reworked :
    Reworking.project.Reworked Reworking.project' ∧
      SameVisits Reworking.project Reworking.project' :=
  ⟨Reworking.reworked, only_register_methods_matter Reworking.reworked⟩

end ContainerAliases.Project
