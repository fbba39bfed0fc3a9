namespace ContainerAliases

namespace Measure

variable {α : Type}

/-- A measure added up over a list: it bounds a recursion over the children of a node. The zero is
named, since where more is imported another one would be found. -/
def total (f : α → Nat) (l : List α) : Nat := @List.sum Nat _ Zero.ofOfNat0 (l.map f)

theorem le_total_of_mem {f : α → Nat} {l : List α} {a : α} (h : a ∈ l) : f a ≤ total f l := by
  obtain ⟨before, after, rfl⟩ := List.append_of_mem h
  rw [total, List.map_append, List.map_cons, List.sum_append_nat, List.sum_cons]
  omega

theorem total_filter_le (f : α → Nat) (p : α → Bool) (l : List α) :
    total f (l.filter p) ≤ total f l := by
  induction l with
  | nil => simp
  | cons a l ih =>
    simp only [total, List.map_cons, List.sum_cons] at ih ⊢
    cases h : p a
    · rw [List.filter_cons_of_neg (by simp [h])]
      omega
    · rw [List.filter_cons_of_pos h, List.map_cons, List.sum_cons]
      omega

end Measure

namespace Alias

/-- An element of an array; `key` is missing in `['a', 'b']`. -/
structure ArrayElement (N : Type) where
  key : Option N
  value : N
  deriving Repr, DecidableEq

class SyntaxNode (N : Type) where
  /-- Named children, in source order. -/
  children : N → List N
  /-- What comes next beside the node, comments left out. -/
  next : N → Option N
  isArray : N → Bool
  /-- A quoted text with nothing to fill in. -/
  isString : N → Bool
  /-- What stands between the quotes, as written. -/
  literal : N → Option String
  /-- The variable that is assigned at the node, without its `$`. -/
  declares : N → Option String
  elements : N → List (ArrayElement N)
  size : N → Nat
  total_size_children (n : N) : Measure.total size (children n) < size n

namespace SyntaxNode

variable {N : Type} [SyntaxNode N]

theorem size_lt {n c : N} (h : c ∈ children n) : size c < size n :=
  Nat.lt_of_le_of_lt (Measure.le_total_of_mem h) (total_size_children n)

/-- The nodes below `n`, a node before those below it and each before what stands to its right. -/
def descendants (n : N) : List N :=
  (children n).attach.flatMap fun ⟨c, _⟩ => c :: descendants c
termination_by size n
decreasing_by rename_i h; exact size_lt h

/-- Takes nodes off a stack and puts the children of each in its place. -/
def walk : List N → List N
  | [] => []
  | n :: stack => n :: walk (children n ++ stack)
termination_by stack => Measure.total size stack
decreasing_by
  have below := total_size_children n
  simp only [Measure.total, List.map_append, List.map_cons, List.sum_append_nat,
    List.sum_cons] at below ⊢
  omega

end SyntaxNode

end Alias

end ContainerAliases
