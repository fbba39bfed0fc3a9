import ContainerAliases.Proofs.Classes.Relabel
import ContainerAliases.Proofs.Project.Lookup

namespace ContainerAliases

open Source

namespace Source.SyntaxTree

def stillLabel (t : SyntaxTree) : Label := { t.label with start := 0, line := 0 }

/-- The tree as if all nodes stood at the beginning of the file. -/
def still : SyntaxTree → SyntaxTree := relabel stillLabel

theorem keepsWords_stillLabel : KeepsWords stillLabel :=
  ⟨fun _ => rfl, fun _ => rfl, fun _ _ => rfl⟩

theorem label_still (t : SyntaxTree) : t.still.label = stillLabel t := label_relabel _ t

theorem text_still (t : SyntaxTree) : t.still.text = t.text := by
  rw [text, label_still]
  rfl

theorem kind_still (t : SyntaxTree) : t.still.kind = t.kind := by
  rw [kind, label_still]
  rfl

theorem role_still (t : SyntaxTree) : t.still.role = t.role := by
  rw [role, label_still]
  rfl

theorem children_still (t : SyntaxTree) : t.still.children = t.children.map still :=
  children_relabel _ t

theorem still_eq (t : SyntaxTree) : t.still = .node (stillLabel t) (t.children.map still) :=
  relabel_eq _ t

@[simp] theorem still_still (t : SyntaxTree) : t.still.still = t.still := by
  induction t using induction_children with
  | h t ih =>
    have label : stillLabel t.still = stillLabel t := by rw [stillLabel, label_still]; rfl
    have children : (t.children.map still).map still = t.children.map still := by
      rw [List.map_map]
      exact List.map_congr_left ih
    rw [still_eq t.still, label, children_still, children, ← still_eq]

theorem child?_still (t : SyntaxTree) (r : Role) : t.still.child? r = (t.child? r).map still :=
  child?_relabel keepsWords_stillLabel t r

theorem map_text_still (t : Option SyntaxTree) : (t.map still).map text = t.map text := by
  cases t with
  | none => rfl
  | some t => exact congrArg some (text_still t)

end Source.SyntaxTree

namespace Source.Node

def still : Node → Node := relabel SyntaxTree.stillLabel

theorem isHom_still : Alias.SyntaxNode.IsHom still := isHom_relabel SyntaxTree.keepsWords_stillLabel

end Source.Node

namespace Classes

open SyntaxTree (keepsWords_stillLabel)

namespace Import

theorem bindClause_still (group : Option String) (s : Scope) (clause : SyntaxTree) :
    bindClause group s clause.still = bindClause group s clause := by
  have named : named? clause.still = (named? clause).map SyntaxTree.still :=
    named?_relabel keepsWords_stillLabel clause
  have short : alias? clause.still = (alias? clause).map SyntaxTree.still :=
    alias?_relabel keepsWords_stillLabel clause
  have parts : parts? clause.still = parts? clause := by
    rw [parts?_eq, parts?_eq, named, short, SyntaxTree.map_text_still, Option.map_map]
    refine congrArg (Option.map · _) (funext fun n => ?_)
    rw [Function.comp_apply, n.text_still]
  rw [bindClause, bindClause, parts]

theorem record_still (s : Scope) (t : SyntaxTree) : record s t.still = record s t := by
  have group : groupName? t.still = groupName? t := by
    have name := SyntaxTree.find?_map_relabel keepsWords_stillLabel (· == .namespaceName)
      t.namedChildren
    rw [groupName?, groupName?, SyntaxTree.still, SyntaxTree.namedChildren_relabel
      keepsWords_stillLabel, name, Option.map_map]
    refine congrArg (Option.map · _) (funext fun c => ?_)
    rw [Function.comp_apply, ← SyntaxTree.still, c.text_still]
  have clauses : clausesOf (t.children.map SyntaxTree.still) =
      (clausesOf t.children).map SyntaxTree.still :=
    clausesOf_relabel keepsWords_stillLabel t.children
  have foreign : isForeign t.still = isForeign t := by
    rw [isForeign, isForeign, head, head, t.text_still]
  rw [record, record, foreign, group, t.children_still, clauses, List.foldl_map]
  simp only [bindClause_still]

end Import

def ClassDeclaration.unplaced (d : ClassDeclaration) : ClassDeclaration :=
  { d with start := 0, line := 0 }

end Classes

namespace Project

open Classes

def register (name : String) (t : SyntaxTree) : Option SyntaxTree :=
  (method? (.root t) name).map fun m => m.tree.still

theorem register_still (name : String) (t : SyntaxTree) :
    register name t.still = register name t := by
  have found : method? (Node.root t).still name = (method? (.root t) name).map Node.still :=
    method?_relabel SyntaxTree.keepsWords_stillLabel (fun _ => rfl) rfl (.root t)
  have twice (m : Node) : m.still.tree.still = m.tree.still := m.tree.still_still
  rw [register, register, show Node.root t.still = (Node.root t).still from rfl, found,
    Option.map_map]
  exact congrArg (Option.map · _) (funext twice)

end Project

end ContainerAliases
