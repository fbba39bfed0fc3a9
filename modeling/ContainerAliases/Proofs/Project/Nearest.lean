import ContainerAliases.Proofs.Classes.Distance
import ContainerAliases.Proofs.Classes.Outermost
import ContainerAliases.Proofs.Project.Frame
import ContainerAliases.Proofs.Project.Inheritance

namespace ContainerAliases.Project

open Classes Disk

variable {p : Project} {fqcn : String} {i j : p.Position} {k l : Nat}

def IsAt (p : Project) (fqcn : String) (k : Nat) (i : p.Position) : Prop :=
  Classes.IsAt p.declaration (normalize fqcn) k i

/-- The place in the list of the first member whose name is among the parents of `i`. -/
def firstParent (p : Project) (fqcn : String) (i : p.Position) : Nat :=
  firstParentListed p.declaration (List.finRange p.declarations.length) fqcn i

theorem mem_order_iff_isAt : i ∈ p.order fqcn ↔ ∃! k, p.IsAt fqcn k i := by
  rw [mem_order_iff]
  constructor
  · intro h
    obtain ⟨k, hk⟩ := h.exists_isAt
    exact ⟨k, hk, fun l hl => Classes.IsAt.eq hl hk⟩
  · rintro ⟨k, hk, -⟩
    exact Classes.IsAt.descends hk

theorem IsAt.mem_order (h : p.IsAt fqcn k i) : i ∈ p.order fqcn :=
  (p.mem_order_iff fqcn i).2 (Classes.IsAt.descends h)

theorem pairwise_isAt_le : (p.order fqcn).Pairwise fun i j =>
    ∀ k l, p.IsAt fqcn k i → p.IsAt fqcn l j → k ≤ l := by
  refine List.pairwise_iff_getElem.2 fun m n hm hn hmn k l hk hl => ?_
  exact le_of_turn_le List.mem_finRange hk hl (turn_hierarchy_mono (Nat.le_of_lt hmn) hn)

theorem turn_of_isAt (hk : k ≤ 1) (h : p.IsAt fqcn k i) : p.turn fqcn i = k := by
  match k with
  | 0 => exact turn_of_named (isAt_zero_iff.1 h)
  | 1 => exact turn_of_isAt_one h

theorem turn_add_eq (hk : 2 ≤ k) (h : p.IsAt fqcn k i) : p.firstParent fqcn i + 2 =
    p.turn fqcn i + (named p.declaration (normalize fqcn) (List.finRange _)).length := by
  obtain ⟨k, rfl⟩ := Nat.exists_eq_add_of_le' hk
  exact firstParentListed_eq (name_ne_of_isAt h) (not_hasParent_of_isAt h)

theorem before_of_name (hi : (p.declaration i).name = normalize fqcn) (hj : j ∈ p.order fqcn)
    (hn : (p.declaration j).name ≠ normalize fqcn) : p.Before fqcn i j := by
  have hi' : i ∈ p.order fqcn := (p.mem_order_iff fqcn i).2 (.named hi)
  refine (before_iff hi' hj).2 (.inl ?_)
  rw [turn, turn_of_named hi, turn, Classes.turn, if_neg hn]
  exact Nat.succ_pos _

/-- The one stands before the other, by route and then in the text. -/
def Placed.Precedes (x y : Placed) : Prop :=
  compare x.route y.route = .lt ∨ x.route = y.route ∧ x.declaration.start < y.declaration.start

theorem map_declaration_placedIn (r : Route) (f : SourceFile) :
    (placedIn r f).map Placed.declaration = f.classes := by
  rw [placedIn, List.map_map]
  conv_rhs => rw [← List.zipIdx_map_fst 0 f.classes]
  rfl

theorem pairwise_placedIn (r : Route) (f : SourceFile) :
    (placedIn r f).Pairwise Placed.Precedes := by
  obtain ⟨e, row⟩ := f.inRow
  have starts := pairwise_start_declaredIn row default
  change (index f.tree).Pairwise _ at starts
  rw [← f.classes_eq, ← map_declaration_placedIn r, List.pairwise_map] at starts
  refine starts.imp_of_mem fun {x y} hx hy hxy => .inr ⟨?_, hxy⟩
  rw [route_of_mem_placedIn hx, route_of_mem_placedIn hy]

theorem pairwise_placed (p : Project) : p.placed.Pairwise Placed.Precedes := by
  refine List.pairwise_flatMap.2 ⟨fun b _ => pairwise_placedIn b.1 b.2, ?_⟩
  refine p.files.increasing.imp fun {b c} hbc x hx y hy => .inl ?_
  rwa [route_of_mem_placedIn hx, route_of_mem_placedIn hy]

/-- How the hierarchy of `fqcn` is ordered. -/
structure NearestFirst (p : Project) (fqcn : String) : Prop where
  listing : p.hierarchy fqcn = (p.order fqcn).map p.declarations.get
  nodup : (p.order fqcn).Nodup
  mem_iff : ∀ i, i ∈ p.order fqcn ↔ ∃! k, p.IsAt fqcn k i
  rising : (p.order fqcn).Pairwise fun i j =>
    ∀ k l, p.IsAt fqcn k i → p.IsAt fqcn l j → k ≤ l
  /-- The index decides on what is near. -/
  near : ∀ k ≤ 1, ∀ i j, p.IsAt fqcn k i → p.IsAt fqcn k j → (p.Before fqcn i j ↔ i < j)
  /-- What is further away stands as the first of its parents do. -/
  far : ∀ k, 2 ≤ k → ∀ i j, p.IsAt fqcn k i → p.IsAt fqcn k j → (p.Before fqcn i j ↔
    p.firstParent fqcn i < p.firstParent fqcn j ∨
      p.firstParent fqcn i = p.firstParent fqcn j ∧ i < j)
  /-- Those parents are one step nearer. -/
  parent : ∀ k i, p.IsAt fqcn (k + 2) i → ∃ j, (p.order fqcn)[p.firstParent fqcn i]? = some j ∧
    p.Extends i j ∧ p.IsAt fqcn (k + 1) j
  /-- They are the same for two declarations if their names are. -/
  parent_name : ∀ i j c d, (p.order fqcn)[p.firstParent fqcn i]? = some c →
    (p.order fqcn)[p.firstParent fqcn j]? = some d →
    (p.firstParent fqcn i = p.firstParent fqcn j ↔ (p.declaration c).name = (p.declaration d).name)
  base : ∀ i j, (p.declaration i).name = normalize fqcn → j ∈ p.order fqcn →
    (p.declaration j).name ≠ normalize fqcn → p.Before fqcn i j
  /-- The index goes by routes, and in a file by the text. -/
  placed : p.placed.map Placed.pair = p.declarations
  index : p.placed.Pairwise Placed.Precedes

/-- A hierarchy is listed nearest first, in any project. -/
theorem hierarchy_nearest_first (p : Project) (fqcn : String) : p.NearestFirst fqcn where
  listing := p.hierarchy_eq_map_order fqcn
  nodup := p.nodup_order fqcn
  mem_iff _ := mem_order_iff_isAt
  rising := pairwise_isAt_le
  near k hk i j hi hj := by
    rw [before_iff hi.mem_order hj.mem_order, turn_of_isAt hk hi, turn_of_isAt hk hj]
    simp
  far k hk i j hi hj := by
    have turn_i := turn_add_eq hk hi
    have turn_j := turn_add_eq hk hj
    have lt : p.turn fqcn i < p.turn fqcn j ↔ p.firstParent fqcn i < p.firstParent fqcn j := by
      omega
    have eq : p.turn fqcn i = p.turn fqcn j ↔ p.firstParent fqcn i = p.firstParent fqcn j := by
      omega
    rw [before_iff hi.mem_order hj.mem_order, lt, eq]
  parent _ _ h := exists_firstParentListed List.mem_finRange h
  parent_name _ _ _ _ := firstParentListed_eq_iff
  base _ _ := before_of_name
  placed := p.map_pair_placed
  index := p.pairwise_placed

end ContainerAliases.Project
