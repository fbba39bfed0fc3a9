import ContainerAliases.Cache.Basic
import ContainerAliases.Proofs.OrderedMap

namespace ContainerAliases.Cache

open Disk

def heldAt (c : Cache) (r : Route) : Option Held := (c.slots.get? r).join

@[simp] theorem heldAt_empty (r : Route) : (∅ : Cache).heldAt r = none := rfl

theorem heldAt_store (c : Cache) (root : Path) (s : Snapshot) (r : Route) :
    (c.store root s).2.heldAt r = if r = root.components then some ⟨s, c.misses⟩
      else c.heldAt r := by
  simp only [heldAt, store, OrderedMap.get?_insert]
  split <;> rfl

theorem heldAt_invalidate (c : Cache) (root : Path) (r : Route) :
    (c.invalidate root).heldAt r = if r = root.components then none else c.heldAt r := by
  unfold invalidate
  by_cases hc : c.slots.contains root.components
  · simp only [hc, if_true, heldAt, OrderedMap.get?_insert]
    split <;> rfl
  · rw [if_neg hc]
    split
    · next hr =>
      have hn : c.slots.get? root.components = none := by simpa [OrderedMap.contains] using hc
      simp [heldAt, hr, hn]
    · rfl

theorem heldAt_of_invalidate {c : Cache} {root : Path} {r : Route} {h : Held}
    (hh : (c.invalidate root).heldAt r = some h) : c.heldAt r = some h := by
  rw [heldAt_invalidate] at hh
  split at hh
  · cases hh
  · exact hh

@[simp] theorem hits_invalidate (c : Cache) (root : Path) : (c.invalidate root).hits = c.hits := by
  unfold invalidate
  split <;> rfl

@[simp] theorem misses_invalidate (c : Cache) (root : Path) :
    (c.invalidate root).misses = c.misses := by
  unfold invalidate
  split <;> rfl

variable {N : Type} [Alias.SyntaxNode N]

/-- A request is answered from the slot of its root or by a new snapshot. -/
theorem request_cases (c : Cache) (t : Alias.Tracked N) :
    (∃ h, c.heldAt t.root.components = some h ∧ h.snapshot.generation = t.generation ∧
      h.snapshot.changes = t.changes ∧ h.snapshot.pattern = t.pattern ∧
      c.request t = (h, c.hit)) ∨
    c.request t = c.store t.root (.take t t.changes) := by
  unfold request
  cases hf : c.fresh? t with
  | none => exact .inr rfl
  | some h =>
    obtain ⟨hh, hs⟩ := Option.filter_eq_some_iff.1 hf
    simp only [Snapshot.shows, Bool.and_eq_true, beq_iff_eq] at hs
    exact .inl ⟨h, hh, hs.1.1, hs.1.2, hs.2, rfl⟩

/-- What a request has answered shows the project until it changes. -/
theorem fresh?_request (c : Cache) (t : Alias.Tracked N) :
    (c.request t).2.fresh? t = some (c.request t).1 := by
  unfold request
  cases hf : c.fresh? t with
  | some h => exact hf
  | none =>
    have hh : ((c.store t.root (.take t t.changes)).2.held? t.root) =
        some (c.store t.root (.take t t.changes)).1 := by
      change (c.store t.root (.take t t.changes)).2.heldAt t.root.components = _
      rw [heldAt_store, if_pos rfl]
      rfl
    simp only [fresh?, hh, Option.filter_some]
    simp [store, Snapshot.shows, Snapshot.take]

theorem request_of_fresh? {c : Cache} {t : Alias.Tracked N} {h : Held} (hf : c.fresh? t = some h) :
    c.request t = (h, c.hit) := by
  rw [request, hf]

theorem request_ne_hit {c : Cache} {t : Alias.Tracked N} (hf : c.fresh? t = none) (h : Held) :
    c.request t ≠ (h, c.hit) := by
  intro he
  have hm := congrArg (fun r => r.2.misses) he
  simp [request, hf, store, hit] at hm

end ContainerAliases.Cache
