import ContainerAliases.Source.Tree
import ContainerAliases.Alias.Node

namespace ContainerAliases.Source

open Alias

/-- A tree with what stands around it. -/
structure Node where
  tree : SyntaxTree
  /-- The kind of the node above, missing at the root. -/
  above : Option Kind
  before : List SyntaxTree
  after : List SyntaxTree
  deriving Repr, Inhabited

namespace Node

def root (t : SyntaxTree) : Node := ⟨t, none, [], []⟩

def kind (n : Node) : Kind := n.tree.kind
def text (n : Node) : String := n.tree.text
def line (n : Node) : Nat := n.tree.line

/-- Each of `ts` in its place, with `before` standing in front of the first. -/
def row (above : Option Kind) (before : List SyntaxTree) : List SyntaxTree → List Node
  | [] => []
  | t :: ts => ⟨t, above, before, ts⟩ :: row above (t :: before) ts

theorem map_tree_row (above : Option Kind) (before ts : List SyntaxTree) :
    (row above before ts).map tree = ts := by
  induction ts generalizing before with
  | nil => rfl
  | cons t ts ih => simp [row, ih]

def allChildren (n : Node) : List Node := row (some n.kind) [] n.tree.children

def children (n : Node) : List Node := n.allChildren.filter (·.tree.isNamed)

theorem total_size_children (n : Node) :
    Measure.total (fun c => c.tree.size) n.children < n.tree.size := by
  have h : Measure.total (fun c => c.tree.size) n.children ≤
      Measure.total (fun c => c.tree.size) n.allChildren := Measure.total_filter_le _ _ _
  have e : Measure.total (fun c => c.tree.size) n.allChildren =
      Measure.total SyntaxTree.size n.tree.children := by
    rw [← map_tree_row (some n.kind) [] n.tree.children, Measure.total, Measure.total, List.map_map]
    rfl
  have t := SyntaxTree.total_size_children n.tree
  omega

def isComment (n : Node) : Bool := n.tree.isComment

/-- The nearest named sibling to the right that is no comment. -/
def next (n : Node) : Option Node :=
  (row n.above (n.tree :: n.before) n.after).find? fun s => s.tree.isNamed && !s.isComment

def isArray (n : Node) : Bool := n.kind == .arrayCreation

/-- The parts of a double-quoted text that leave nothing to fill in. -/
def plainParts : List Kind := [.stringContent, .stringValue, .string, .escapeSequence]

def isString (n : Node) : Bool :=
  match n.kind with
  | .string => true
  | .encapsedString => n.children.all fun c => plainParts.contains c.kind
  | _ => false

def dropBinaryMark : List Char → List Char
  | 'b' :: cs => cs
  | 'B' :: cs => cs
  | cs => cs

/-- What stands between two equal quotes that open and close the text. -/
def unquote : List Char → Option (List Char)
  | q :: cs =>
    if (q = '\'' ∨ q = '"') ∧ cs.getLast? = some q then some cs.dropLast else none
  | [] => none

def literal (n : Node) : Option String :=
  if n.isString then (unquote (dropBinaryMark n.text.toList)).map String.ofList else none

/-- The node is the first to play the part `r` above. -/
def plays (n : Node) (r : Role) : Bool :=
  n.tree.role == some r && n.before.all fun s => s.role != some r

/-- What an assignment or a `static` declaration gives a value to. -/
def isTarget (n : Node) : Bool :=
  match n.above with
  | some .assignment | some .referenceAssignment => n.plays .left
  | some .staticVariable => n.plays .name
  | _ => false

def dropDollar : List Char → List Char
  | '$' :: cs => cs
  | cs => cs

def declares (n : Node) : Option String :=
  if n.kind == .variableName && n.isTarget then
    some (String.ofList (dropDollar n.text.toList))
  else none

/-- The parts of an array element: what stands before an arrow and, if there is one, after. -/
def arrowParts (n : Node) : List Node × Option (List Node) :=
  let parts := n.allChildren.filter fun c => c.kind == .token "=>" || c.tree.isNamed && !c.isComment
  let named := List.filter fun c : Node => c.kind != .token "=>"
  match parts.dropWhile (·.kind != .token "=>") with
  | [] => (parts, none)
  | _ :: after => (parts.takeWhile (·.kind != .token "=>"), some (named after))

def element? (n : Node) : Option (ArrayElement Node) :=
  match n.arrowParts with
  | (key :: _, some (value :: _)) => some ⟨some key, value⟩
  | (value :: _, none) => some ⟨none, value⟩
  | _ => none

def elements (n : Node) : List (ArrayElement Node) :=
  if n.isArray then
    (n.children.filter fun c => c.kind == .arrayElement).filterMap element?
  else []

instance : SyntaxNode Node where
  children := children
  next := next
  isArray := isArray
  isString := isString
  literal := literal
  declares := declares
  elements := elements
  size n := n.tree.size
  total_size_children := total_size_children

/-- The node and the named nodes below it that satisfy `p`, in reading order. -/
def select (n : Node) (p : Node → Bool) : List Node :=
  (SyntaxNode.walk [n]).filter p

def child? (n : Node) (r : Role) : Option Node :=
  n.allChildren.find? fun c => c.tree.role == some r

end Node

end ContainerAliases.Source
