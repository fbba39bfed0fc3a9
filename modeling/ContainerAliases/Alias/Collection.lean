import ContainerAliases.Alias.Discovery
import ContainerAliases.OrderedMap

namespace ContainerAliases.Alias

/-- The names registered for each alias. -/
abbrev AliasMap := OrderedMap String (List String)

abbrev KeySet := OrderedMap String Unit

variable {N : Type} [SyntaxNode N]

/-- The names that a value stands for: one literal that is not blank, the literals of an array, or
none. -/
def namesOf (value : N) : List String :=
  if SyntaxNode.isString value then (contents? value).toList
  else if SyntaxNode.isArray value then literalValues value
  else []

/-- A later entry with the same key replaces the earlier. -/
def AliasMap.visit : Visitor N AliasMap := fun m e => m.insert e.key (namesOf e.value)

def KeySet.visit : Visitor N KeySet := fun s e => s.insert e.key ()

structure AliasIndex where
  map : AliasMap
  keys : KeySet
  deriving Inhabited

def AliasIndex.visit : Visitor N AliasIndex := fun i e =>
  ⟨AliasMap.visit i.map e, KeySet.visit i.keys e⟩

namespace Provider

def aliasMap (p : Provider N) (pattern : Pattern) : AliasMap := p.visit pattern AliasMap.visit ∅

def aliasKeys (p : Provider N) (pattern : Pattern) : KeySet := p.visit pattern KeySet.visit ∅

def aliasIndex (p : Provider N) (pattern : Pattern) : AliasIndex :=
  p.visit pattern AliasIndex.visit ⟨∅, ∅⟩

end Provider

end ContainerAliases.Alias
