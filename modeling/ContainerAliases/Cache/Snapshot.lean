import ContainerAliases.Alias.Collection
import ContainerAliases.Disk.Path

namespace ContainerAliases

/-- A project whose changes are counted. -/
structure Alias.Tracked (N : Type) extends Alias.Provider N where
  root : Disk.Path
  pattern : Alias.Pattern
  /-- Tells the project from all others. -/
  generation : Nat
  /-- Grows with every change of the project. -/
  changes : Nat

structure Snapshot where
  generation : Nat
  changes : Nat
  pattern : Alias.Pattern
  index : Alias.AliasIndex

namespace Snapshot

variable {N : Type} [Alias.SyntaxNode N]

/-- Searches `t`, whose changes were counted before as `changes`. -/
def take (t : Alias.Tracked N) (changes : Nat) : Snapshot :=
  ⟨t.generation, changes, t.pattern, t.aliasIndex t.pattern⟩

def shows (s : Snapshot) (t : Alias.Tracked N) (changes : Nat) : Bool :=
  s.generation == t.generation && s.changes == changes && s.pattern == t.pattern

end Snapshot

end ContainerAliases
