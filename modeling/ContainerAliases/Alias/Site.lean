import ContainerAliases.Alias.Node

namespace ContainerAliases.Alias

variable {N : Type} [SyntaxNode N]

/-- A declaration of the alias variable, and the array that it is set to. -/
structure Site (N : Type) where
  declaration : N
  array : Option N
  deriving Repr, DecidableEq

namespace Site

def at? (target : String) (n : N) : Option (Site N) :=
  if SyntaxNode.declares n = some target then
    some ⟨n, (SyntaxNode.next n).filter SyntaxNode.isArray⟩
  else none

/-- The declarations of the variable below `method`, however deeply nested, in reading order. -/
def below (method : N) (target : String) : List (Site N) :=
  (SyntaxNode.walk (SyntaxNode.children method)).filterMap (at? target)

end Site

end ContainerAliases.Alias
