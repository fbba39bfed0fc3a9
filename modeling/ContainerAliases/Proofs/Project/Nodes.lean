import ContainerAliases.Proofs.Classes.Outermost
import ContainerAliases.Proofs.Project.Frame
import ContainerAliases.Proofs.Project.Hierarchy

namespace ContainerAliases.Project

open Source Classes
open SyntaxTree (Contains)

/-- No file holds a class where no statement can stand, so its index is exact. -/
theorem SourceFile.exists_indexed (f : SourceFile) : ∃ ns, Indexed f.tree ns := by
  obtain ⟨e, row⟩ := f.inRow
  refine Classes.exists_indexed ?_ row
  rw [f.tree_eq, kind_parse]
  rfl

theorem exists_readAt {f : SourceFile} {c : ClassDeclaration} (h : c ∈ f.classes) :
    ∃ n, Contains n f.tree ∧ ReadAt c n ∧ c.find? f.tree = some n := by
  obtain ⟨e, row⟩ := f.inRow
  obtain ⟨ns, read, sub, -⟩ := readOff_declaredIn f.tree.children default
  have found := found_of_readAt row read sub
  rw [f.classes_eq] at h
  obtain ⟨i, hi, rfl⟩ := List.getElem_of_mem h
  have hn : i < ns.length := found.length_eq ▸ hi
  have inside : ns[i] ∈ f.tree.nodes :=
    (sub.trans (SyntaxTree.nodesOf_children_sublist .here)).subset (List.getElem_mem hn)
  exact ⟨ns[i], SyntaxTree.mem_nodes_iff.1 inside, found.get hi hn⟩

theorem mem_declarations_of_mem_hierarchy {p : Project} {fqcn : String}
    {d : SourceFile × ClassDeclaration} (h : d ∈ p.hierarchy fqcn) : d.2 ∈ d.1.classes := by
  rw [hierarchy_eq_map_order] at h
  obtain ⟨i, -, rfl⟩ := List.mem_map.1 h
  have indexed : p.declarations.get i ∈ p.declarations := List.get_mem ..
  obtain ⟨f, -, hf⟩ := List.mem_flatMap.1 indexed
  obtain ⟨c, hc, heq⟩ := List.mem_map.1 hf
  rw [← heq]
  exact hc

/-- The node stands in the file of the declaration, which was read at it. -/
def IsNodeOf (v : Node) (d : SourceFile × ClassDeclaration) : Prop :=
  ∃ n, v = .root n ∧ Contains n d.1.tree ∧ ReadAt d.2 n

theorem forall₂_classNodes (p : Project) (fqcn : String) :
    List.Forall₂ IsNodeOf (p.classNodes fqcn) (p.hierarchy fqcn) := by
  have members : List.Forall₂ (fun d e => d = e ∧ d.2 ∈ d.1.classes)
      (p.hierarchy fqcn) (p.hierarchy fqcn) :=
    List.forall₂_same.2 fun d hd => ⟨rfl, mem_declarations_of_mem_hierarchy hd⟩
  have nodes : List.Forall₂ IsNodeOf (p.classNodes fqcn) ((p.hierarchy fqcn).filterMap some) := by
    refine List.rel_filterMap (fun d e hde => ?_) members
    obtain ⟨rfl, hd⟩ := hde
    obtain ⟨n, inside, read, found⟩ := exists_readAt hd
    change Option.Rel IsNodeOf ((d.2.find? d.1.tree).map Node.root) (some d)
    rw [found]
    exact .some ⟨n, rfl, inside, read⟩
  rwa [List.filterMap_some] at nodes

/-- No class is lost on the way from the tree to the index and back. -/
theorem indexed_classes_found_again {t : SyntaxTree} (root : isClassLike t.kind = false)
    (ordered : t.every SyntaxTree.fits) (alone : t.every beginsAlone)
    (clear : t.every namesNoClass) (shaped : t.every isShaped) :
    (∃ ns, Indexed t ns) ∧
      ∀ p fqcn, List.Forall₂ IsNodeOf (classNodes p fqcn) (hierarchy p fqcn) :=
  have orderly : isOrderly t :=
    isOrderly_iff_every.2 ⟨⟨ordered, alone⟩, SyntaxTree.every_and_iff.2 ⟨shaped, clear⟩⟩
  ⟨exists_indexed root (.children orderly), forall₂_classNodes⟩

-- Classes in all places where statements stand, and behind an attribute and modifiers.
namespace Scattered

def text : String :=
  "<?php namespace A;if(1)\x7b#[T]final class B\x7bfunction f()\x7bclass X\x7b\x7d\x7d\x7d\x7d
else\x7binterface C\x7b\x7d\x7dfunction g()\x7bclass D extends B\x7b\x7d
new class\x7bfunction h()\x7babstract class E\x7b\x7d\x7d\x7d;\x7d
trait T\x7bfunction i()\x7bclass F\x7b\x7d\x7d\x7denum N\x7bfunction j()\x7bclass G\x7b\x7d\x7d\x7d"

def program : SyntaxTree := (parse text).tree

def project : Project := .ofSources (.ofText "/p") Config.standard 1 [(.ofText "a.php", text)]

theorem facts : isClassLike program.kind = false ∧
    (program.every SyntaxTree.fits ∧ program.every beginsAlone) ∧
    (program.every namesNoClass ∧ program.every isShaped) ∧
    (index program).map (fun c => (c.fqcn, c.line)) =
      [("A\\B", 0), ("A\\C", 1), ("A\\D", 1), ("A\\E", 2), ("A\\F", 3), ("A\\G", 3)] := by
  decide +kernel

end Scattered

theorem indexed_classes_found_again_scattered :
    isClassLike Scattered.program.kind = false ∧
      (Scattered.program.every SyntaxTree.fits ∧ Scattered.program.every beginsAlone) ∧
      (Scattered.program.every namesNoClass ∧ Scattered.program.every isShaped) ∧
      (∃ ns, Indexed Scattered.program ns) ∧
      List.Forall₂ IsNodeOf (Scattered.project.classNodes "A\\B")
        (Scattered.project.hierarchy "A\\B") ∧
      (index Scattered.program).map (fun c => (c.fqcn, c.line)) =
        [("A\\B", 0), ("A\\C", 1), ("A\\D", 1), ("A\\E", 2), ("A\\F", 3), ("A\\G", 3)] := by
  obtain ⟨root, ordered, clear, listed⟩ := Scattered.facts
  obtain ⟨indexed, nodes⟩ :=
    indexed_classes_found_again root ordered.1 ordered.2 clear.1 clear.2
  exact ⟨root, ordered, clear, indexed, nodes _ _, listed⟩

namespace Misplaced

def part (k : Kind) (r : Option Role) (text : String) (start : Nat) (below : List SyntaxTree) :
    SyntaxTree :=
  .node ⟨k, r, text, start, 0⟩ below

def word (text : String) (start : Nat) : SyntaxTree := part (.token text) none text start []

def named (r : Option Role) : SyntaxTree :=
  part .classDeclaration r "class B \x7b\x7d" 12
    [word "class" 12, part .name (some .name) "B" 18 [], part (.other "body") none "\x7b\x7d" 20 []]

def program (below : List SyntaxTree) : SyntaxTree :=
  part .program none "namespace A class B \x7b\x7d;" 0 below

def space (below : List SyntaxTree) : SyntaxTree :=
  program [part .namespaceDefinition none "namespace A class B \x7b\x7d;" 0
    (word "namespace" 0 :: part .namespaceName (some .name) "A" 10 [] :: below)]

def unbraced : SyntaxTree := space [named none, word ";" 22]
def asBody : SyntaxTree := space [named (some .body)]
def inSecondBody : SyntaxTree :=
  space [part (.other "body") (some .body) "" 11 [],
    part (.other "body") (some .body) "class B \x7b\x7d" 12 [named none]]
def belowKeyword : SyntaxTree :=
  program [part (.token "class") none "class B \x7b\x7d" 12 [named none]]
def asRoot : SyntaxTree := named none

def all : List SyntaxTree := [unbraced, asBody, inSecondBody, belowKeyword, asRoot]

theorem facts : ∀ t ∈ all, (t.every SyntaxTree.fits ∧ t.every beginsAlone) ∧
    t.every namesNoClass ∧ index t = [] := by
  decide +kernel

theorem outermost : ∀ t ∈ all, ∃ r, Outermost (named r) t := by
  have below {t c : SyntaxTree} {r : Option Role} (ht : isClassLike t.kind = false)
      (hc : c ∈ t.children) (h : Outermost (named r) c) : Outermost (named r) t := .under ht hc h
  have here (r : Option Role) : Outermost (named r) (named r) := .here rfl
  simp only [all, List.forall_mem_cons]
  refine ⟨⟨none, ?_⟩, ⟨some .body, ?_⟩, ⟨none, ?_⟩, ⟨none, ?_⟩, ⟨none, here none⟩, nofun⟩
  · exact below rfl (.head _) (below rfl (.tail _ (.tail _ (.head _))) (here none))
  · exact below rfl (.head _) (below rfl (.tail _ (.tail _ (.head _))) (here _))
  · exact below rfl (.head _)
      (below rfl (.tail _ (.tail _ (.tail _ (.head _)))) (below rfl (.head _) (here none)))
  · exact below rfl (.head _) (below rfl (.head _) (here none))

end Misplaced

/-- Nodes in order, declarations that begin with a token of their own and names without classes do
not suffice: a class may stand where no statement can. -/
theorem misplaced_classes_not_indexed : Misplaced.all.Forall fun t =>
    (t.every SyntaxTree.fits ∧ t.every beginsAlone) ∧ t.every namesNoClass ∧
      ¬ ∃ ns, Indexed t ns := by
  refine List.forall_iff_forall_mem.2 fun t ht => ?_
  obtain ⟨ordered, clear, missed⟩ := Misplaced.facts t ht
  obtain ⟨r, outermost⟩ := Misplaced.outermost t ht
  exact ⟨ordered, clear, not_indexed missed rfl outermost⟩

end ContainerAliases.Project
