import ContainerAliases.Alias.Node
import ContainerAliases.Source.Kind

namespace ContainerAliases.Source

structure Label where
  kind : Kind
  /-- The part played in the node above. -/
  role : Option Role
  /-- The source from the first to the last token, with all that stands between. -/
  text : String
  /-- Bytes of source before the node. -/
  start : Nat
  /-- Lines of source before the one on which the node starts. -/
  line : Nat
  deriving DecidableEq, Repr, Inhabited

inductive SyntaxTree where
  | node (label : Label) (children : List SyntaxTree)
  deriving Repr, Inhabited

namespace SyntaxTree

def label : SyntaxTree → Label
  | node l _ => l

def children : SyntaxTree → List SyntaxTree
  | node _ cs => cs

def kind (t : SyntaxTree) : Kind := t.label.kind
def role (t : SyntaxTree) : Option Role := t.label.role
def text (t : SyntaxTree) : String := t.label.text
def start (t : SyntaxTree) : Nat := t.label.start
def line (t : SyntaxTree) : Nat := t.label.line

/-- The first byte after the node. -/
def stop (t : SyntaxTree) : Nat := t.start + t.text.utf8ByteSize

def isNamed (t : SyntaxTree) : Bool := t.kind.isNamed

def isComment (t : SyntaxTree) : Bool := t.kind == .comment

def namedChildren (t : SyntaxTree) : List SyntaxTree := t.children.filter isNamed

def child? (t : SyntaxTree) (r : Role) : Option SyntaxTree :=
  t.children.find? fun c => c.role == some r

mutual
/-- The number of nodes. -/
def size : SyntaxTree → Nat
  | node _ cs => 1 + sizeAll cs
def sizeAll : List SyntaxTree → Nat
  | [] => 0
  | t :: ts => t.size + sizeAll ts
end

theorem sizeAll_eq_total (ts : List SyntaxTree) : sizeAll ts = Measure.total size ts := by
  induction ts with
  | nil => rfl
  | cons t ts ih => simp [sizeAll, Measure.total, ih]

theorem total_size_children (t : SyntaxTree) : Measure.total size t.children < t.size := by
  cases t with
  | node l cs => simp [size, children, sizeAll_eq_total]

theorem size_lt_of_mem_children {t u : SyntaxTree} (h : u ∈ t.children) : u.size < t.size :=
  Nat.lt_of_le_of_lt (Measure.le_total_of_mem h) (total_size_children t)

mutual
/-- The node and all named nodes below it, a node before those below it and each before what
stands to its right. -/
def preorder : SyntaxTree → List SyntaxTree
  | node l cs => node l cs :: preorderAll cs
def preorderAll : List SyntaxTree → List SyntaxTree
  | [] => []
  | t :: ts => (if t.isNamed then t.preorder else []) ++ preorderAll ts
end

/-- The child in which byte `b` lies. -/
def childAt (t : SyntaxTree) (b : Nat) : Option SyntaxTree :=
  t.children.find? fun c => decide (c.start ≤ b ∧ b < c.stop)

/-- The nodes around byte `b`, from `t` down to the innermost. -/
def spineAt (t : SyntaxTree) (b : Nat) : List SyntaxTree :=
  match _h : t.childAt b with
  | none => [t]
  | some c => t :: c.spineAt b
termination_by t.size
decreasing_by exact size_lt_of_mem_children (List.mem_of_find?_eq_some _h)

end SyntaxTree

end ContainerAliases.Source
