import ContainerAliases.Cache.Snapshot

namespace ContainerAliases

/-- A snapshot that a cache has handed out. No two of one cache have the same ticket. -/
structure Cache.Held where
  snapshot : Snapshot
  ticket : Nat

structure Cache where
  /-- The slots that were ever asked for; an empty one was invalidated. -/
  slots : OrderedMap Disk.Route (Option Cache.Held)
  hits : Nat
  misses : Nat
  deriving Inhabited

namespace Cache

def empty : Cache := ⟨∅, 0, 0⟩

instance : EmptyCollection Cache := ⟨empty⟩

def held? (c : Cache) (root : Disk.Path) : Option Held := (c.slots.get? root.components).join

variable {N : Type} [Alias.SyntaxNode N]

/-- What is held for `t`, if it shows `t` as it is. -/
def fresh? (c : Cache) (t : Alias.Tracked N) : Option Held :=
  (c.held? t.root).filter fun h => h.snapshot.shows t t.changes

def hit (c : Cache) : Cache := { c with hits := c.hits + 1 }

def store (c : Cache) (root : Disk.Path) (s : Snapshot) : Held × Cache :=
  let h := ⟨s, c.misses⟩
  (h, { c with slots := c.slots.insert root.components (some h), misses := c.misses + 1 })

/-- The snapshot of `t`, taken anew unless the one that is held still shows `t`. -/
def request (c : Cache) (t : Alias.Tracked N) : Held × Cache :=
  match c.fresh? t with
  | some h => (h, c.hit)
  | none => c.store t.root (.take t t.changes)

def invalidate (c : Cache) (root : Disk.Path) : Cache :=
  if c.slots.contains root.components then
    { c with slots := c.slots.insert root.components none }
  else c

/-- What is held for a root counts, be it outdated. -/
def isPopulated (c : Cache) (root : Disk.Path) : Bool := (c.held? root).isSome

def requests (c : Cache) (t : Alias.Tracked N) : Nat → List Held × Cache
  | 0 => ([], c)
  | n + 1 =>
    let (h, c) := c.request t
    let (hs, c) := c.requests t n
    (h :: hs, c)

end Cache

end ContainerAliases
