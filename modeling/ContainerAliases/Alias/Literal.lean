import ContainerAliases.Alias.Node
import ContainerAliases.Text

namespace ContainerAliases.Alias

variable {N : Type} [SyntaxNode N]

/-- A key of an alias array and the node that it stands for. -/
structure Entry (N : Type) where
  key : String
  value : N
  deriving Repr, DecidableEq

namespace Entry

def ofElement? (e : ArrayElement N) : Option (Entry N) := do
  let key ← SyntaxNode.literal (← e.key)
  return ⟨key, e.value⟩

def ofArray (array : N) : List (Entry N) := (SyntaxNode.elements array).filterMap ofElement?

end Entry

/-- The element values of an array that are literals; blank ones stay. -/
def literalValues (array : N) : List String :=
  (SyntaxNode.elements array).filterMap fun e => SyntaxNode.literal e.value

def contents? (n : N) : Option String :=
  (SyntaxNode.literal n).filter fun s => !Text.allBlank s

end ContainerAliases.Alias
