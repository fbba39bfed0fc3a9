import ContainerAliases.Proofs.Alias.Correspondence
import ContainerAliases.Proofs.Source.Tree
import ContainerAliases.Proofs.Source.Written

namespace ContainerAliases.Source

open Alias

namespace SyntaxTree

variable (f : SyntaxTree → Label)

mutual
/-- The tree with the label `f u` at every node `u`. -/
def relabel : SyntaxTree → SyntaxTree
  | .node l cs => .node (f (.node l cs)) (relabelAll cs)
def relabelAll : List SyntaxTree → List SyntaxTree
  | [] => []
  | t :: ts => relabel t :: relabelAll ts
end

theorem relabelAll_eq_map (ts : List SyntaxTree) : relabelAll f ts = ts.map (relabel f) := by
  induction ts with
  | nil => rw [relabelAll, List.map_nil]
  | cons t ts ih => rw [relabelAll, ih, List.map_cons]

theorem relabel_eq (t : SyntaxTree) : t.relabel f = .node (f t) (t.children.map (relabel f)) := by
  cases t with
  | node l cs =>
    rw [relabel, relabelAll_eq_map]
    rfl

@[simp] theorem label_relabel (t : SyntaxTree) : (t.relabel f).label = f t := by
  rw [relabel_eq]
  rfl

@[simp] theorem children_relabel (t : SyntaxTree) :
    (t.relabel f).children = t.children.map (relabel f) := by
  rw [relabel_eq]
  rfl

/-- The labels stay as they are but for positions and for texts that are neither literals nor
variables. -/
structure KeepsWords : Prop where
  kind (t : SyntaxTree) : (f t).kind = t.kind
  role (t : SyntaxTree) : (f t).role = t.role
  text (t : SyntaxTree) : t.isText ∨ t.kind = .variableName → (f t).text = t.text

variable {f} (hf : KeepsWords f)
include hf

theorem kind_relabel (t : SyntaxTree) : (t.relabel f).kind = t.kind := by
  rw [kind, label_relabel, hf.kind]

theorem role_relabel (t : SyntaxTree) : (t.relabel f).role = t.role := by
  rw [role, label_relabel, hf.role]

theorem isNamed_relabel (t : SyntaxTree) : (t.relabel f).isNamed = t.isNamed := by
  rw [isNamed, kind_relabel hf, isNamed]

theorem isComment_relabel (t : SyntaxTree) : (t.relabel f).isComment = t.isComment := by
  rw [isComment, kind_relabel hf, isComment]

theorem namedChildren_relabel (t : SyntaxTree) :
    (t.relabel f).namedChildren = t.namedChildren.map (relabel f) := by
  have named : isNamed ∘ relabel f = isNamed := funext (isNamed_relabel hf)
  rw [namedChildren, children_relabel, List.filter_map, named, namedChildren]

theorem child?_relabel (t : SyntaxTree) (r : Role) :
    (t.relabel f).child? r = (t.child? r).map (relabel f) := by
  have plays : (fun c : SyntaxTree => c.role == some r) ∘ relabel f = fun c => c.role == some r :=
    funext fun c => by rw [Function.comp_apply, role_relabel hf]
  rw [child?, children_relabel, List.find?_map, plays, child?]

theorem find?_map_relabel (p : Kind → Bool) (ts : List SyntaxTree) :
    (ts.map (relabel f)).find? (fun c => p c.kind) =
      (ts.find? fun c => p c.kind).map (relabel f) := by
  have h : (fun c : SyntaxTree => p c.kind) ∘ relabel f = fun c => p c.kind :=
    funext fun c => congrArg p (kind_relabel hf c)
  rw [List.find?_map, h]

theorem filter_map_relabel (p : Kind → Bool) (ts : List SyntaxTree) :
    (ts.map (relabel f)).filter (fun c => p c.kind) =
      (ts.filter fun c => p c.kind).map (relabel f) := by
  have h : (fun c : SyntaxTree => p c.kind) ∘ relabel f = fun c => p c.kind :=
    funext fun c => congrArg p (kind_relabel hf c)
  rw [List.filter_map, h]

theorem isText_relabel (t : SyntaxTree) : (t.relabel f).isText = t.isText := by
  have parts : (fun c : SyntaxTree => Node.plainParts.contains c.kind) ∘ relabel f =
      fun c => Node.plainParts.contains c.kind :=
    funext fun c => by rw [Function.comp_apply, kind_relabel hf]
  rw [isText, isText, kind_relabel hf, isPlain, isPlain, namedChildren_relabel hf, List.all_map,
    parts]

omit hf in
/-- Labels that keep what a node covers of the source lead to the same byte on the same way. -/
theorem spineAt_relabel (start : ∀ t, (f t).start = t.start)
    (size : ∀ t, (f t).text.utf8ByteSize = t.text.utf8ByteSize) (t : SyntaxTree) (b : Nat) :
    (t.relabel f).spineAt b = (t.spineAt b).map (relabel f) := by
  have covers : (fun c : SyntaxTree => decide (c.start ≤ b ∧ b < c.stop)) ∘ relabel f =
      fun c => decide (c.start ≤ b ∧ b < c.stop) := by
    funext c
    rw [Function.comp_apply, stop, SyntaxTree.start, text, label_relabel, start, size]
    rfl
  have next (t : SyntaxTree) : (t.relabel f).childAt b = (t.childAt b).map (relabel f) := by
    rw [childAt, children_relabel, List.find?_map, covers, childAt]
  induction t using spineAt.induct b with
  | case1 t h => rw [spineAt_of_eq_none h, spineAt_of_eq_none (by rw [next, h]; rfl)]; rfl
  | case2 t c h ih =>
    rw [spineAt_of_eq_some h, spineAt_of_eq_some (by rw [next, h]; rfl), ih, List.map_cons]

end SyntaxTree

namespace Node

open SyntaxTree (KeepsWords)

variable (f : SyntaxTree → Label)

/-- The node in the tree with other labels. The kind of what stands above stays. -/
def relabel (n : Node) : Node :=
  ⟨n.tree.relabel f, n.above, n.before.map (.relabel f), n.after.map (.relabel f)⟩

theorem row_map_relabel (above : Option Kind) (before ts : List SyntaxTree) :
    row above (before.map (.relabel f)) (ts.map (.relabel f)) =
      (row above before ts).map (relabel f) := by
  induction ts generalizing before with
  | nil => rfl
  | cons t ts ih =>
    rw [List.map_cons, row, row, List.map_cons, ← List.map_cons, ih]
    rfl

variable {f} (hf : KeepsWords f)
include hf

theorem kind_relabel (n : Node) : (n.relabel f).kind = n.kind := SyntaxTree.kind_relabel hf n.tree

theorem isNamed_relabel (n : Node) : (n.relabel f).tree.isNamed = n.tree.isNamed :=
  SyntaxTree.isNamed_relabel hf n.tree

theorem isComment_relabel (n : Node) : (n.relabel f).isComment = n.isComment :=
  SyntaxTree.isComment_relabel hf n.tree

theorem allChildren_relabel (n : Node) :
    (n.relabel f).allChildren = n.allChildren.map (relabel f) := by
  rw [allChildren, kind_relabel hf, allChildren, ← row_map_relabel, relabel,
    SyntaxTree.children_relabel]
  rfl

theorem child?_relabel (n : Node) (r : Role) :
    (n.relabel f).child? r = (n.child? r).map (relabel f) := by
  have plays : (fun c : Node => c.tree.role == some r) ∘ relabel f =
      fun c => c.tree.role == some r :=
    funext fun c => congrArg (· == some r) (SyntaxTree.role_relabel hf c.tree)
  rw [child?, allChildren_relabel hf, List.find?_map, plays, child?]

theorem children_relabel (n : Node) : (n.relabel f).children = n.children.map (relabel f) := by
  have named : (fun c : Node => c.tree.isNamed) ∘ relabel f = fun c => c.tree.isNamed :=
    funext (isNamed_relabel hf)
  rw [children, allChildren_relabel hf, List.filter_map, named, children]

theorem next_relabel (n : Node) : (n.relabel f).next = n.next.map (relabel f) := by
  have solid : (fun s : Node => s.tree.isNamed && !s.isComment) ∘ relabel f =
      fun s => s.tree.isNamed && !s.isComment := by
    funext s
    rw [Function.comp_apply, isNamed_relabel hf, isComment_relabel hf]
  have row : row n.above ((n.relabel f).tree :: (n.relabel f).before) (n.relabel f).after =
      (row n.above (n.tree :: n.before) n.after).map (relabel f) :=
    row_map_relabel f n.above (n.tree :: n.before) n.after
  rw [next, next, show (n.relabel f).above = n.above from rfl, row, List.find?_map, solid]

theorem literal_relabel (n : Node) : (n.relabel f).literal = n.literal := by
  rw [literal, literal, isString_eq, isString_eq, relabel, SyntaxTree.isText_relabel hf]
  split
  · next h => rw [text, text, SyntaxTree.text, SyntaxTree.label_relabel, hf.text _ (.inl h)]
  · rfl

theorem plays_relabel (n : Node) (r : Role) : (n.relabel f).plays r = n.plays r := by
  have others : (fun s : SyntaxTree => s.role != some r) ∘ SyntaxTree.relabel f =
      fun s => s.role != some r :=
    funext fun s => by rw [Function.comp_apply, SyntaxTree.role_relabel hf]
  rw [plays, plays, relabel, SyntaxTree.role_relabel hf, List.all_map, others]

theorem declares_relabel (n : Node) : (n.relabel f).declares = n.declares := by
  have target : (n.relabel f).isTarget = n.isTarget := by
    rw [isTarget, isTarget, plays_relabel hf, plays_relabel hf]
    rfl
  rw [declares, declares, kind_relabel hf, target]
  split
  · next h =>
    have hk : n.tree.kind = .variableName := by simp_all [kind]
    rw [text, text, relabel, SyntaxTree.text, SyntaxTree.label_relabel, hf.text _ (.inr hk)]
  · rfl

theorem element?_relabel (n : Node) :
    (n.relabel f).element? = n.element?.map (ArrayElement.map (relabel f)) := by
  have arrow : (fun c : Node => c.kind != .token "=>") ∘ relabel f =
      fun c => c.kind != .token "=>" :=
    funext fun c => by rw [Function.comp_apply, kind_relabel hf]
  have parts : (fun c : Node => c.kind == .token "=>" || c.tree.isNamed && !c.isComment) ∘
      relabel f = fun c => c.kind == .token "=>" || c.tree.isNamed && !c.isComment := by
    funext c
    rw [Function.comp_apply, kind_relabel hf, isNamed_relabel hf, isComment_relabel hf]
  have arrowParts : (n.relabel f).arrowParts =
      (n.arrowParts.1.map (relabel f), n.arrowParts.2.map (List.map (relabel f))) := by
    rw [Node.arrowParts, Node.arrowParts, allChildren_relabel hf, List.filter_map, parts,
      List.dropWhile_map, arrow]
    generalize n.allChildren.filter _ = ps
    cases h : ps.dropWhile (fun c => c.kind != .token "=>") with
    | nil => simp
    | cons c cs => simp [List.takeWhile_map, List.filter_map, arrow]
  rw [element?, element?, arrowParts]
  rcases n.arrowParts with ⟨_ | ⟨a, as⟩, _ | _ | ⟨b, bs⟩⟩ <;> rfl

theorem elements_relabel (n : Node) :
    (n.relabel f).elements = n.elements.map (ArrayElement.map (relabel f)) := by
  have element : (fun c : Node => c.kind == .arrayElement) ∘ relabel f =
      fun c => c.kind == .arrayElement :=
    funext fun c => by rw [Function.comp_apply, kind_relabel hf]
  rw [elements, elements, isArray, kind_relabel hf, ← isArray]
  split
  · rw [children_relabel hf, List.filter_map, element, List.filterMap_map, List.map_filterMap]
    exact List.filterMap_congr fun c _ => element?_relabel hf c
  · rfl

/-- New labels that keep the words make no difference to the search for aliases. -/
theorem isHom_relabel : SyntaxNode.IsHom (relabel f) where
  children := children_relabel hf
  next := next_relabel hf
  isArray n := congrArg (· == Kind.arrayCreation) (kind_relabel hf n)
  isString n := ((isString_eq _).trans (SyntaxTree.isText_relabel hf n.tree)).trans
    (isString_eq n).symm
  literal := literal_relabel hf
  declares := declares_relabel hf
  elements := elements_relabel hf

end Node

end ContainerAliases.Source
