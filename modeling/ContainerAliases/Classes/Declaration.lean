import ContainerAliases.Classes.Name
import ContainerAliases.Source.Tree
import ContainerAliases.Text

namespace ContainerAliases.Classes

open Source

inductive ClassKind where
  | classType
  | interfaceType
  deriving DecidableEq, Repr

def ClassKind.ofKind? : Kind → Option ClassKind
  | .classDeclaration => some .classType
  | .interfaceDeclaration => some .interfaceType
  | _ => none

def isClassLike (k : Kind) : Bool := (ClassKind.ofKind? k).isSome

structure ClassDeclaration where
  /-- The full name, without a leading backslash. -/
  fqcn : String
  kind : ClassKind
  /-- The full names behind `extends` and `implements`, in source order. -/
  parents : List String
  /-- The byte at which the declaration starts; it serves to find the node again. -/
  start : Nat
  line : Nat
  deriving DecidableEq, Repr

namespace ClassDeclaration

def name (d : ClassDeclaration) : String := normalize d.fqcn

def descendsFrom (d : ClassDeclaration) (fqcn : String) : Bool :=
  d.parents.any fun p => normalize p == normalize fqcn

/-- What the node `t` declares in the scope `s`, if it has a name. -/
def ofTree? (s : Scope) (t : SyntaxTree) : Option ClassDeclaration := do
  let kind ← ClassKind.ofKind? t.kind
  let name ← t.child? .name
  let clauses := t.namedChildren.filter fun c =>
    c.kind == .baseClause || c.kind == .interfaceClause
  let written := (clauses.flatMap SyntaxTree.namedChildren).filter fun c =>
    c.kind == .name || c.kind == .qualifiedName
  return {
    fqcn := s.qualify name.text
    kind := kind
    parents := written.map fun c => s.resolve c.text
    start := t.start
    line := t.line }

end ClassDeclaration

namespace Import

/-- The name that a clause imports, and its alias where it differs. -/
def parts? (clause : SyntaxTree) : Option (String × Option String) := do
  let children := clause.namedChildren
  let name ← children.find? fun c =>
    c.kind == .qualifiedName || c.kind == .name || c.kind == .namespaceName
  let wrapped := (children.find? fun c => c.kind == .namespaceAliasingClause).bind fun c =>
    c.namedChildren.find? fun d => d.kind == .name
  let short := ((clause.child? .shortName).or wrapped).map SyntaxTree.text
  return (name.text, short.filter (· ≠ name.text))

mutual
/-- The import clauses at or below a node, last one first. -/
def clauses : SyntaxTree → List SyntaxTree
  | .node l cs =>
    if l.kind == .namespaceUseClause || l.kind == .namespaceUseGroupClause then [.node l cs]
    else clausesOf cs
def clausesOf : List SyntaxTree → List SyntaxTree
  | [] => []
  | t :: ts => clausesOf ts ++ if t.isNamed then clauses t else []
end

/-- What follows the first `n` bytes, if a character ends there. -/
def dropBytes : Nat → List Char → Option (List Char)
  | 0, cs => some cs
  | _ + 1, [] => none
  | n + 1, c :: cs => if c.utf8Size ≤ n + 1 then dropBytes (n + 1 - c.utf8Size) cs else none
termination_by _ cs => cs.length

/-- The text of a declaration after the word `use`, in lower case. -/
def head (declaration : SyntaxTree) : List Char :=
  let rest := (dropBytes 3 (Text.dropBlank declaration.text.toList)).getD []
  (Text.dropBlank rest).map Char.toLower

/-- Imports of functions and constants are told by the first letters. -/
def isForeign (declaration : SyntaxTree) : Bool :=
  "function".toList.isPrefixOf (head declaration) || "const".toList.isPrefixOf (head declaration)

def groupName? (declaration : SyntaxTree) : Option String :=
  (declaration.namedChildren.find? fun c => c.kind == .namespaceName).map fun c =>
    String.ofList (withoutLeading c.text.toList)

def bindClause (group : Option String) (s : Scope) (clause : SyntaxTree) : Scope :=
  match parts? clause with
  | none => s
  | some (name, short) =>
    s.bind (match group with | some g => g ++ "\\" ++ name | none => name) short

/-- Adds what a `use` declaration imports. Clauses are taken from the last to the first. -/
def record (s : Scope) (declaration : SyntaxTree) : Scope :=
  if isForeign declaration then s
  else (clausesOf declaration.children).foldl (bindClause (groupName? declaration)) s

end Import

mutual
def declared (s : Scope) : SyntaxTree → Scope × List ClassDeclaration
  | .node l cs =>
    match l.kind with
    | .namespaceDefinition =>
      let t := SyntaxTree.node l cs
      let inner := Scope.within ((t.child? .name).map SyntaxTree.text)
      if (t.child? .body).isSome then (s, declaredInBody inner cs)
      else (inner, [])
    | .namespaceUseDeclaration => (Import.record s (.node l cs), [])
    | .classDeclaration | .interfaceDeclaration =>
      (s, (ClassDeclaration.ofTree? s (.node l cs)).toList)
    | _ => declaredIn s cs
/-- The nodes are read from left to right, each in the scope that the one before leaves. -/
def declaredIn (s : Scope) : List SyntaxTree → Scope × List ClassDeclaration
  | [] => (s, [])
  | t :: ts =>
    if t.isNamed then
      let (s₁, ds₁) := declared s t
      let (s₂, ds₂) := declaredIn s₁ ts
      (s₂, ds₁ ++ ds₂)
    else declaredIn s ts
/-- The declarations in the first node that is a body. -/
def declaredInBody (s : Scope) : List SyntaxTree → List ClassDeclaration
  | [] => []
  | .node l cs :: ts =>
    if l.role == some .body then (declaredIn s cs).2 else declaredInBody s ts
end

/-- The classes and interfaces of a file in source order. Those inside of others are left out. -/
def index (program : SyntaxTree) : List ClassDeclaration := (declaredIn default program.children).2

/-- The node at which `d` was read. -/
def ClassDeclaration.find? (d : ClassDeclaration) (program : SyntaxTree) : Option SyntaxTree :=
  (program.spineAt d.start).reverse.find? fun t => isClassLike t.kind && t.start == d.start

end ContainerAliases.Classes
