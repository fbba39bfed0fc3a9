import Mathlib.Data.List.Basic
import Mathlib.Data.List.Forall2
import ContainerAliases.Proofs.Alias.Descendants
import ContainerAliases.Source.Node

namespace ContainerAliases.Alias

/-- The way down to a node: which of the named children comes next. The order is that of a
dictionary, so what stands above comes before what stands below it. -/
abbrev Address := List Nat

namespace SyntaxNode

variable {N : Type} [SyntaxNode N]

def nodeAt? (n : N) : Address → Option N
  | [] => some n
  | i :: a => (children n)[i]?.bind fun c => nodeAt? c a

theorem nodeAt?_concat (n : N) (a : Address) (i : Nat) :
    nodeAt? n (a ++ [i]) = (nodeAt? n a).bind fun m => (children m)[i]? := by
  induction a generalizing n with
  | nil => simp [nodeAt?]
  | cons j a ih => simp only [List.cons_append, nodeAt?, ih, Option.bind_assoc]

/-- The nodes below `n`, each with its address. -/
def placed (n : N) : List (Address × N) :=
  (children n).zipIdx.attach.flatMap fun ⟨(c, i), _⟩ =>
    ([i], c) :: (placed c).map fun b => (i :: b.1, b.2)
termination_by size n
decreasing_by
  rename_i h
  exact size_lt (List.mem_of_getElem? (List.mem_zipIdx_iff_getElem?.1 h))

theorem placed_eq (n : N) : placed n = (children n).zipIdx.flatMap fun b =>
    ([b.2], b.1) :: (placed b.1).map fun d => (b.2 :: d.1, d.2) := by
  rw [placed, List.flatMap_subtype (fun _ _ => rfl), List.unattach_attach]

theorem mem_children_of_zipIdx {n : N} {b : N × Nat} (h : b ∈ (children n).zipIdx) :
    b.1 ∈ children n := List.mem_of_getElem? (List.mem_zipIdx_iff_getElem?.1 h)

theorem map_snd_placed (n : N) : (placed n).map Prod.snd = descendants n := by
  have below (b : N × Nat) (hb : b ∈ (children n).zipIdx) :
      ((placed b.1).map fun d => (b.2 :: d.1, d.2)).map Prod.snd = descendants b.1 := by
    rw [List.map_map]
    exact map_snd_placed b.1
  calc (placed n).map Prod.snd
      = (children n).zipIdx.flatMap fun b => b.1 :: descendants b.1 := by
        rw [placed_eq, List.map_flatMap]
        exact List.flatMap_congr fun b hb => congrArg (b.1 :: ·) (below b hb)
    _ = ((children n).zipIdx.map Prod.fst).flatMap fun c => c :: descendants c := by
        rw [List.flatMap_map]
    _ = descendants n := by rw [List.zipIdx_map_fst, descendants_eq]
termination_by size n
decreasing_by exact size_lt (mem_children_of_zipIdx hb)

theorem mem_placed_iff {n m : N} {a : Address} :
    (a, m) ∈ placed n ↔ a ≠ [] ∧ nodeAt? n a = some m := by
  have below (c : N) (hc : c ∈ children n) (b : Address) :
      (b, m) ∈ placed c ↔ b ≠ [] ∧ nodeAt? c b = some m := mem_placed_iff
  have here (c : N) (hc : c ∈ children n) (i : Nat) :
      (a, m) ∈ ([i], c) :: (placed c).map (fun d => (i :: d.1, d.2)) ↔
        ∃ b, a = i :: b ∧ nodeAt? c b = some m := by
    rw [List.mem_cons, List.mem_map]
    constructor
    · rintro (h | ⟨⟨b, m⟩, hb, h⟩)
      · cases h
        exact ⟨[], rfl, rfl⟩
      · cases h
        exact ⟨b, rfl, ((below c hc b).1 hb).2⟩
    · rintro ⟨b, rfl, hb⟩
      cases b with
      | nil =>
        cases hb
        exact .inl rfl
      | cons j b => exact .inr ⟨(j :: b, m), (below c hc _).2 ⟨List.cons_ne_nil _ _, hb⟩, rfl⟩
  rw [placed_eq, List.mem_flatMap]
  constructor
  · rintro ⟨⟨c, i⟩, hc, h⟩
    obtain ⟨b, rfl, hb⟩ := (here c (mem_children_of_zipIdx hc) i).1 h
    refine ⟨List.cons_ne_nil _ _, ?_⟩
    rw [nodeAt?, List.mem_zipIdx_iff_getElem?.1 hc]
    exact hb
  · rintro ⟨ha, h⟩
    obtain ⟨i, b, rfl⟩ := List.exists_cons_of_ne_nil ha
    obtain ⟨c, hc, hb⟩ := Option.bind_eq_some_iff.1 h
    have hm : (c, i) ∈ (children n).zipIdx := List.mem_zipIdx_iff_getElem?.2 hc
    exact ⟨(c, i), hm, (here c (mem_children_of_zipIdx hm) i).2 ⟨b, rfl, hb⟩⟩
termination_by size n
decreasing_by exact size_lt hc

theorem pairwise_placed (n : N) : (placed n).Pairwise fun b d => b.1 < d.1 := by
  rw [placed_eq, List.pairwise_flatMap]
  constructor
  · rintro ⟨c, i⟩ hc
    refine List.pairwise_cons.2 ⟨fun d hd => ?_, List.pairwise_map.2 ?_⟩
    · -- a child comes before all that stands below it
      obtain ⟨⟨a, m⟩, ha, rfl⟩ := List.mem_map.1 hd
      obtain ⟨j, a, rfl⟩ := List.exists_cons_of_ne_nil (mem_placed_iff.1 ha).1
      exact List.cons_lt_cons_iff.2 (.inr ⟨rfl, List.nil_lt_cons _ _⟩)
    · have hi := pairwise_placed c
      exact hi.imp fun h => List.cons_lt_cons_iff.2 (.inr ⟨rfl, h⟩)
  · -- all below one child comes before all below the children to its right
    have head (b : N × Nat) {d : Address × N}
        (h : d ∈ ([b.2], b.1) :: (placed b.1).map fun d => (b.2 :: d.1, d.2)) :
        ∃ a, d.1 = b.2 :: a := by
      rcases List.mem_cons.1 h with rfl | h
      · exact ⟨[], rfl⟩
      · obtain ⟨e, -, rfl⟩ := List.mem_map.1 h
        exact ⟨e.1, rfl⟩
    have rising : (children n).zipIdx.Pairwise fun b d => b.2 < d.2 := by
      rw [← List.pairwise_map (f := Prod.snd), List.zipIdx_map_snd]
      exact List.pairwise_lt_range' 1
    refine rising.imp fun {b d} hlt x hx y hy => ?_
    obtain ⟨a, ha⟩ := head b hx
    obtain ⟨a', ha'⟩ := head d hy
    rw [ha, ha']
    exact List.cons_lt_cons_iff.2 (.inl hlt)
termination_by size n
decreasing_by exact size_lt (mem_children_of_zipIdx hc)

end SyntaxNode

open SyntaxNode

/-- `sites` has one site for each declaration of `target` below `method` and no others, in the order
of their addresses. Each has the array that is `beside` it. -/
def InReadingOrder {N : Type} [SyntaxNode N] (method : N) (target : String)
    (beside : Address → N → Option N → Prop) (sites : List (Site N)) : Prop :=
  ∃ addresses : List Address,
    addresses.Pairwise (· < ·) ∧
    (∀ a, a ∈ addresses ↔ a ≠ [] ∧ ∃ n, nodeAt? method a = some n ∧ declares n = some target) ∧
    List.Forall₂ (fun a s => nodeAt? method a = some s.declaration ∧
      beside a s.declaration s.array) addresses sites

theorem inReadingOrder_below {N : Type} [SyntaxNode N] (method : N) (target : String)
    {beside : Address → N → Option N → Prop}
    (h : ∀ a n, a ≠ [] → nodeAt? method a = some n → beside a n ((next n).filter isArray)) :
    InReadingOrder method target beside (Site.below method target) := by
  let found := (placed method).filter fun b => declares b.2 == some target
  have mem (b : Address × N) : b ∈ found ↔
      (b.1 ≠ [] ∧ nodeAt? method b.1 = some b.2) ∧ declares b.2 = some target := by
    rw [List.mem_filter, ← mem_placed_iff, beq_iff_eq]
  have sites : Site.below method target =
      found.map fun b => ⟨b.2, (next b.2).filter isArray⟩ := by
    rw [Site.below_eq_filterMap, ← map_snd_placed, List.filterMap_map, ← List.filterMap_eq_map,
      List.filterMap_filter]
    refine List.filterMap_congr fun b _ => ?_
    rw [Function.comp_apply, Site.at?]
    simp only [beq_iff_eq, Function.comp_apply]
  refine ⟨found.map Prod.fst, ?_, fun a => ?_, ?_⟩
  · exact List.pairwise_map.2 ((pairwise_placed method).filter _)
  · rw [List.mem_map]
    constructor
    · rintro ⟨b, hb, rfl⟩
      obtain ⟨⟨ha, hn⟩, hd⟩ := (mem b).1 hb
      exact ⟨ha, b.2, hn, hd⟩
    · rintro ⟨ha, n, hn, hd⟩
      exact ⟨(a, n), (mem _).2 ⟨⟨ha, hn⟩, hd⟩, rfl⟩
  · rw [sites, List.forall₂_map_left_iff, List.forall₂_map_right_iff, List.forall₂_same]
    intro b hb
    obtain ⟨⟨ha, hn⟩, -⟩ := (mem b).1 hb
    exact ⟨hn, h _ _ ha hn⟩

end ContainerAliases.Alias

namespace ContainerAliases.Source.Node

open Alias SyntaxNode

theorem filter_row_eq_append {above : Option Kind} {before ts : List SyntaxTree} {xs ys : List Node}
    {c : Node} (h : (row above before ts).filter (·.tree.isNamed) = xs ++ c :: ys) :
    (row c.above (c.tree :: c.before) c.after).filter (·.tree.isNamed) = ys := by
  induction ts generalizing before xs with
  | nil => simp [row] at h
  | cons t ts ih =>
    rw [row, List.filter_cons] at h
    split at h
    · cases xs with
      | nil =>
        obtain ⟨rfl, rfl⟩ := List.cons.inj h
        rfl
      | cons x xs => exact ih (List.cons.inj h).2
    · exact ih h

theorem next_of_child {n c : Node} {i : Nat} (h : n.children[i]? = some c) :
    c.next = (n.children.drop (i + 1)).find? fun s => !s.isComment := by
  obtain ⟨hi, rfl⟩ := List.getElem?_eq_some_iff.1 h
  have split : n.children = n.children.take i ++ n.children[i] :: n.children.drop (i + 1) := by
    rw [List.getElem_cons_drop, List.take_append_drop]
  rw [next, ← filter_row_eq_append split, List.find?_filter]
  simp only [Bool.decide_and, Bool.decide_eq_true]

/-- The node `b` is the first child behind the one at `a`, of the same node, that is no comment. -/
def IsNextTo (method : Node) (a : Address) (b : Node) : Prop :=
  ∃ front i j, a = front ++ [i] ∧ i < j ∧ nodeAt? method (front ++ [j]) = some b ∧ ¬ b.isComment ∧
    ∀ k, i < k → k < j → ∀ c, nodeAt? method (front ++ [k]) = some c → c.isComment

theorem next_eq_some_iff {method n b : Node} {a : Address} (ha : a ≠ [])
    (hn : nodeAt? method a = some n) : n.next = some b ↔ IsNextTo method a b := by
  obtain ⟨front, i, rfl⟩ : ∃ front i, a = front ++ [i] :=
    ⟨_, _, (List.dropLast_append_getLast ha).symm⟩
  rw [nodeAt?_concat] at hn
  obtain ⟨m, hm, hc⟩ := Option.bind_eq_some_iff.1 hn
  have at_child (j : Nat) : nodeAt? method (front ++ [j]) = m.children[j]? := by
    rw [nodeAt?_concat, hm, Option.bind_some]
    rfl
  rw [next_of_child hc, List.find?_eq_some_iff_getElem]
  constructor
  · rintro ⟨hb, k, hk, rfl, before⟩
    refine ⟨front, i, i + 1 + k, rfl, by omega, ?_, by simpa using hb, fun l hil hlk c hl => ?_⟩
    · rw [at_child, ← List.getElem?_drop, List.getElem?_eq_getElem]
    · have := before (l - (i + 1)) (by omega)
      rw [at_child] at hl
      obtain ⟨hl', rfl⟩ := List.getElem?_eq_some_iff.1 hl
      simpa [List.getElem_drop, show i + 1 + (l - (i + 1)) = l by omega] using this
  · rintro ⟨front', i', j, he, hij, hb, solid, between⟩
    obtain ⟨rfl, he⟩ := List.append_inj' he rfl
    obtain rfl : i = i' := by simpa using he
    rw [at_child] at hb
    obtain ⟨hj, rfl⟩ := List.getElem?_eq_some_iff.1 hb
    have hk : j - (i + 1) < (m.children.drop (i + 1)).length := by
      rw [List.length_drop]
      omega
    refine ⟨by simpa using solid, j - (i + 1), hk, ?_, fun k hlt => ?_⟩
    · simp [List.getElem_drop, show i + 1 + (j - (i + 1)) = j by omega]
    · have hl : i + 1 + k < m.children.length := by omega
      have := between (i + 1 + k) (by omega) (by omega) m.children[i + 1 + k]
        (by rw [at_child, List.getElem?_eq_getElem hl])
      simpa [List.getElem_drop] using this

structure Locates (method : Node) (target : String) (sites : List (Site Node)) : Prop where
  /-- One site for each declaration, with the array that stands right beside it, if it is one. -/
  located : InReadingOrder method target
    (fun a _ array => ∀ b, array = some b ↔ IsNextTo method a b ∧ b.isArray) sites
  /-- A search through the whole method finds the same declarations, and the method itself if it is
  one. -/
  selected : method.select (fun n => n.declares == some target) =
    (if method.declares = some target then [method] else []) ++ sites.map Site.declaration

theorem locates_below (method : Node) (target : String) :
    Locates method target (Site.below method target) := by
  constructor
  · refine inReadingOrder_below method target fun a n ha hn b => ?_
    rw [Option.filter_eq_some_iff]
    exact and_congr_left fun _ => next_eq_some_iff ha hn
  · have at_declaration (n : Node) : (Site.at? target n).map Site.declaration =
        Option.guard (fun n : Node => n.declares == some target) n := by
      change Option.map _ (if n.declares = some target then _ else _) = _
      by_cases h : n.declares = some target <;> simp [h, Option.guard]
    have found : (Site.below method target).map Site.declaration =
        (descendants method).filter fun n => n.declares == some target := by
      rw [Site.below_eq_filterMap, List.map_filterMap, ← List.filterMap_eq_filter]
      exact List.filterMap_congr fun n _ => at_declaration n
    rw [select, walk_eq_flatMap, List.flatMap_singleton, List.filter_cons, found]
    simp only [beq_iff_eq]
    split <;> rfl

/-- The declarations of a variable below a method are found once each and in reading order, whatever
the front end and however deeply they are nested. -/
theorem declarations_in_reading_order :
    (∀ (N : Type) [SyntaxNode N] (method : N) (target : String),
      InReadingOrder method target
        (fun _ n array => array = (SyntaxNode.next n).filter SyntaxNode.isArray)
        (Site.below method target)) ∧
      ∀ (method : Node) (target : String), Locates method target (Site.below method target) :=
  ⟨fun _ _ method target => inReadingOrder_below method target fun _ _ _ _ => rfl, locates_below⟩

end ContainerAliases.Source.Node
