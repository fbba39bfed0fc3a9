import ContainerAliases.Proofs.Classes.Case
import ContainerAliases.Proofs.Project.Lookup

namespace ContainerAliases

open Source Classes

namespace Source.Node

def lowered : Node → Node := relabel SyntaxTree.loweredLabel

end Source.Node

namespace Classes.ClassDeclaration

theorem find?_lowered {c d : ClassDeclaration} (h : d.start = c.start) (t : SyntaxTree) :
    d.find? t.lowered = (c.find? t).map SyntaxTree.lowered := by
  have here : (fun u : SyntaxTree => isClassLike u.kind && u.start == c.start) ∘
      SyntaxTree.lowered = fun u => isClassLike u.kind && u.start == c.start := by
    funext u
    rw [Function.comp_apply, u.kind_lowered, u.start_lowered]
  rw [find?, find?, h, SyntaxTree.lowered, SyntaxTree.spineAt_relabel SyntaxTree.start_loweredLabel
    SyntaxTree.size_loweredLabel, ← List.map_reverse, List.find?_map, ← SyntaxTree.lowered, here]

theorem agrees_of_lowered {c d : ClassDeclaration} (h : c.lowered = d.lowered) : c.Agrees d := by
  have fqcn : lower c.fqcn = lower d.fqcn := congrArg ClassDeclaration.fqcn h
  have parents : c.parents.map lower = d.parents.map lower :=
    congrArg ClassDeclaration.parents h
  have normal (c : ClassDeclaration) :
      c.parents.map normalize = (c.parents.map lower).map normalize := by
    rw [List.map_map]
    exact List.map_congr_left fun n _ => (normalize_lower n).symm
  refine ⟨?_, descendsFrom_congr ?_⟩
  · rw [name, name, ← normalize_lower, fqcn, normalize_lower]
  · rw [normal, normal, parents]

end Classes.ClassDeclaration

namespace Project

open SyntaxTree (keepsWords_loweredLabel)

def SameButCase (a b : SourceFile × ClassDeclaration) : Prop :=
  a.1.tree.lowered = b.1.tree.lowered ∧ a.2.lowered = b.2.lowered

theorem method?_lowered {x y : String} (h : lower x = lower y) (c : Node) :
    method? c.lowered y = (method? c x).map Node.lowered :=
  method?_relabel keepsWords_loweredLabel SyntaxTree.lower_text_loweredLabel h c

/-- The files of both projects, one by one, are equal but for the case of names, and named plainly.
-/
structure Recased (p q : Project) : Prop where
  files : ∀ r, Option.Rel (fun f g => f.tree.lowered = g.tree.lowered ∧ isPlain f.tree ∧
    isPlain g.tree) (p.files.get? r) (q.files.get? r)

theorem forall₂_classes {f g : SourceFile} (h : f.tree.lowered = g.tree.lowered)
    (hf : isPlain f.tree) (hg : isPlain g.tree) :
    List.Forall₂ (fun c d => SameButCase (f, c) (g, d)) f.classes g.classes := by
  have classes :
      f.classes.map ClassDeclaration.lowered = g.classes.map ClassDeclaration.lowered := by
    rw [f.classes_eq, g.classes_eq, ← index_lowered hf, ← index_lowered hg, h]
  rw [← List.forall₂_eq_eq_eq, List.forall₂_map_left_iff, List.forall₂_map_right_iff] at classes
  exact classes.imp fun c d hcd => ⟨h, hcd⟩

theorem Recased.forall₂_listed {p q : Project} (h : p.Recased q) {m n : String}
    (hn : normalize m = normalize n) :
    List.Forall₂ (Placed.Rel SameButCase) (p.listed m) (q.listed n) := by
  have placed : List.Forall₂ (Placed.Rel SameButCase) p.placed q.placed :=
    forall₂_placed ((OrderedMap.forall₂_toList h.files).imp fun a b hab =>
      ⟨hab.1, forall₂_classes hab.2.1 hab.2.2.1 hab.2.2.2⟩)
  exact forall₂_hierarchy (fun x y hxy => ClassDeclaration.agrees_of_lowered hxy.2.2) placed hn

theorem node?_of_sameButCase {x y : Placed} (h : SameButCase x.pair y.pair) :
    x.node?.map Node.lowered = y.node?.map Node.lowered := by
  have start : y.declaration.start = x.declaration.start :=
    (congrArg ClassDeclaration.start h.2).symm
  have found (d : ClassDeclaration) (t : SyntaxTree) :
      ((d.find? t).map Node.root).map Node.lowered = (d.find? t.lowered).map Node.root := by
    rw [ClassDeclaration.find?_lowered rfl, Option.map_map, Option.map_map]
    rfl
  have same :
      x.declaration.find? y.file.tree.lowered = y.declaration.find? y.file.tree.lowered := by
    rw [ClassDeclaration.find?, ClassDeclaration.find?, start]
  have tree : x.file.tree.lowered = y.file.tree.lowered := h.1
  rw [Placed.node?, Placed.node?, found, found, tree, same]

/-- What two projects have in common for the names `m` and `n` of a class. -/
structure CaseBlind (p q : Project) (m n : String) : Prop where
  places : (p.listed m).map Placed.place = (q.listed n).map Placed.place
  hierarchy : List.Forall₂ SameButCase (p.hierarchy m) (q.hierarchy n)
  /-- The classes and their methods are the same nodes but for the case of names. -/
  methods : ∀ x y, lower x = lower y → List.Forall₂ (fun c d => c.lowered = d.lowered ∧
    (method? c x).map Node.lowered = (method? d y).map Node.lowered)
      (p.classNodes m) (q.classNodes n)
  aliases : ∀ pattern pattern' : Alias.Pattern, pattern.baseClass = m → pattern'.baseClass = n →
    lower pattern.registerMethod = lower pattern'.registerMethod →
    pattern.aliasesVariable = pattern'.aliasesVariable →
    p.provider.aliasMap pattern = q.provider.aliasMap pattern' ∧
      p.provider.aliasKeys pattern = q.provider.aliasKeys pattern'

/-- Class and method names are compared without regard to ASCII case, wherever they are written. -/
theorem names_are_case_blind {p q : Project} (h : p.Recased q) {m n : String} (hn : SameName m n) :
    CaseBlind p q m n := by
  have listed := h.forall₂_listed (normalize_eq_of_sameName hn)
  have nodes : List.Forall₂ (fun c d : Node => c.lowered = d.lowered) (p.classNodes m)
      (q.classNodes n) := by
    rw [classNodes_eq, classNodes_eq]
    exact List.rel_filterMap
      (fun x y hxy => Alias.rel_of_map_eq (node?_of_sameButCase hxy.2)) listed
  have methods : ∀ x y, lower x = lower y → List.Forall₂ (fun c d : Node => c.lowered = d.lowered ∧
      (method? c x).map Node.lowered = (method? d y).map Node.lowered) (p.classNodes m)
      (q.classNodes n) := by
    refine fun x y hxy => nodes.imp fun c d hcd => ⟨hcd, ?_⟩
    rw [← method?_lowered (y := x) rfl, ← method?_lowered (y := x) hxy.symm, hcd]
  refine ⟨map_place_eq listed, ?_, methods, ?_⟩
  · rw [← map_pair_listed, ← map_pair_listed, List.forall₂_map_left_iff, List.forall₂_map_right_iff]
    exact listed.imp fun x y hxy => hxy.2
  · rintro pattern pattern' rfl rfl hr hv
    have hom : Alias.SyntaxNode.IsHom Node.lowered := Node.isHom_relabel keepsWords_loweredLabel
    exact Alias.Provider.aliases_eq hom hom (Alias.Provider.map_entries_eq
      ((methods _ _ hr).imp fun c d hcd => Alias.Provider.map_entriesOf_eq hom hom hcd.2 hv))

-- A class that extends another, in two spellings.
namespace Respelled

def text : String := "<?php class A extends B\x7bfunction r()\x7b$v=['k'=>'V'];\x7d\x7d"

def text' : String := "<?php class a extends b\x7bfunction R()\x7b$v=['k'=>'V'];\x7d\x7d"

def project (text : String) : Project :=
  .ofSources (.ofText "/r") .standard 1 [(.ofText "a.php", text)]

theorem get?_project (text : String) (r : Disk.Route) : (project text).files.get? r =
    if r = (Project.empty (.ofText "/r") .standard 1).key (.ofText "a.php") then
      some (.ofText text .buffer)
    else none :=
  OrderedMap.get?_insert ..

theorem trees : (parse text).tree.lowered = (parse text').tree.lowered ∧
    isPlain (parse text).tree ∧ isPlain (parse text').tree := by
  decide +kernel

theorem recased : (project text).Recased (project text') where
  files r := by
    rw [get?_project, get?_project]
    by_cases hr : r = (Project.empty (.ofText "/r") .standard 1).key (.ofText "a.php")
    · rw [if_pos hr, if_pos hr]
      exact .some trees
    · rw [if_neg hr, if_neg hr]
      exact .none

end Respelled

theorem names_are_case_blind_respelled :
    (Respelled.project Respelled.text).Recased (Respelled.project Respelled.text') ∧
      SameName "B" "\\b" ∧
      CaseBlind (Respelled.project Respelled.text) (Respelled.project Respelled.text') "B" "\\b" :=
  ⟨Respelled.recased, by decide, names_are_case_blind Respelled.recased (by decide)⟩

end Project

end ContainerAliases
