import ContainerAliases.Classes.Declaration
import ContainerAliases.Disk.Basic
import ContainerAliases.Source.Grammar.Statement

namespace ContainerAliases.Project

open Source Classes Disk

inductive Origin where
  /-- The disk, where the file had this stamp. -/
  | disk (stamp : Option Stamp)
  | buffer
  deriving DecidableEq, Repr, Inhabited

/-- A text with its tree and the classes that it declares. -/
structure SourceFile where
  text : String
  origin : Origin
  tree : SyntaxTree
  classes : List ClassDeclaration
  tree_eq : tree = (parse text).tree
  classes_eq : classes = index tree

def SourceFile.ofText (text : String) (origin : Origin) : SourceFile :=
  { text, origin, tree := (parse text).tree, classes := index (parse text).tree
    tree_eq := rfl, classes_eq := rfl }

/-- A buffer is never read again. -/
def needsReload (known : Option Origin) (stamp : Option Stamp) : Bool :=
  match known with
  | some .buffer => false
  | some (.disk old) => old != stamp
  | none => true

end ContainerAliases.Project
