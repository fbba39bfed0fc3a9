import ContainerAliases.Proofs.Classes.Order
import ContainerAliases.Proofs.Project.Hierarchy

namespace ContainerAliases

/-- In a list sorted by an asymmetric relation, the relation says which member stands first. -/
theorem idxOf_lt_idxOf_iff {α : Type} [DecidableEq α] {S : α → α → Prop}
    (asymm : ∀ a b, S a b → ¬ S b a) {l : List α} (h : l.Pairwise S) {a b : α} (ha : a ∈ l)
    (hb : b ∈ l) : l.idxOf a < l.idxOf b ↔ S a b := by
  have sorted {x y : α} (hx : x ∈ l) (hy : y ∈ l) (hlt : l.idxOf x < l.idxOf y) : S x y := by
    have := List.pairwise_iff_getElem.1 h _ _ (List.idxOf_lt_length_of_mem hx)
      (List.idxOf_lt_length_of_mem hy) hlt
    simpa using this
  refine ⟨sorted ha hb, fun hab => ?_⟩
  rcases Nat.lt_trichotomy (l.idxOf a) (l.idxOf b) with hlt | heq | hgt
  · exact hlt
  · rw [List.idxOf_inj ha] at heq
    subst heq
    exact absurd hab (asymm a a hab)
  · exact absurd hab (asymm b a (sorted hb ha hgt))

namespace Project

open Classes Relation

variable {p : Project} {fqcn : String} {c d : p.Position}

/-- The name of `c` is among the parents of `d`. -/
def Extends (p : Project) (d c : p.Position) : Prop :=
  (p.declaration d).HasParent (p.declaration c).name

instance (d c : p.Position) : Decidable (p.Extends d c) :=
  inferInstanceAs (Decidable ((p.declaration d).HasParent _))

/-- No declaration inherits from itself. -/
def Acyclic (p : Project) : Prop := ∀ d, ¬ TransGen p.Extends d d

theorem acyclic_of_lt (h : ∀ i j, p.Extends i j → i < j) : p.Acyclic := by
  have later {i j : p.Position} (hij : TransGen p.Extends i j) : i < j := by
    induction hij with
    | single hj => exact h _ _ hj
    | tail _ hj ih => exact lt_trans ih (h _ _ hj)
  intro i hi
  exact lt_irrefl i (later hi)

/-- `c` stands before `d` in the hierarchy of `fqcn`. -/
def Before (p : Project) (fqcn : String) (c d : p.Position) : Prop :=
  (p.order fqcn).idxOf c < (p.order fqcn).idxOf d

def turn (p : Project) (fqcn : String) (i : p.Position) : Nat :=
  Classes.turn p.declaration (List.finRange p.declarations.length) fqcn i

/-- In however many steps `d` is reached from `fqcn`, `c` is reached in fewer. -/
def Nearer (p : Project) (fqcn : String) (c d : p.Position) : Prop :=
  ∀ k, ReachedIn p.declaration (normalize fqcn) k d →
    ∃ j < k, ReachedIn p.declaration (normalize fqcn) j c

theorem before_iff (hc : c ∈ p.order fqcn) (hd : d ∈ p.order fqcn) :
    p.Before fqcn c d ↔
      p.turn fqcn c < p.turn fqcn d ∨ p.turn fqcn c = p.turn fqcn d ∧ c < d := by
  refine idxOf_lt_idxOf_iff (fun i j => ?_)
    (pairwise_hierarchy (List.pairwise_lt_finRange _) fqcn) hc hd
  omega

theorem not_before_of_mem {earlier later : List p.Position}
    (h : p.order fqcn = earlier ++ d :: later) {x : p.Position} (hx : x ∈ d :: later) :
    ¬ p.Before fqcn x d := by
  have hn := p.nodup_order fqcn
  rw [h] at hn
  have notEarlier {y : p.Position} (hy : y ∈ d :: later) : y ∉ earlier := by
    intro he
    exact (List.nodup_append.1 hn).2.2 y he y hy rfl
  rw [Before, h, List.idxOf_append_of_notMem (notEarlier hx),
    List.idxOf_append_of_notMem (notEarlier List.mem_cons_self), List.idxOf_cons_self]
  omega

/-- Between those that name the target themselves, inheritance does not count. -/
theorem before_iff_of_direct (hc : (p.declaration c).HasParent (normalize fqcn))
    (hd : (p.declaration d).HasParent (normalize fqcn))
    (hcn : (p.declaration c).name ≠ normalize fqcn)
    (hdn : (p.declaration d).name ≠ normalize fqcn) : p.Before fqcn c d ↔ c < d := by
  rw [before_iff ((p.mem_order_iff fqcn c).2 (.direct hc))
    ((p.mem_order_iff fqcn d).2 (.direct hd)), turn, turn, turn_eq_one hcn hc, turn_eq_one hdn hd]
  simp

theorem before_of_nearer (hc : c ∈ p.order fqcn) (hd : d ∈ p.order fqcn)
    (h : p.Nearer fqcn c d) : p.Before fqcn c d := by
  classical
  have hex : ∃ k, ReachedIn p.declaration (normalize fqcn) k d :=
    ((p.mem_order_iff fqcn d).1 hd).exists_reachedIn
  obtain ⟨j, hj, hr⟩ := h _ (Nat.find_spec hex)
  refine (before_iff hc hd).2 (.inl (Nat.lt_of_not_le fun hle => ?_))
  obtain ⟨i, hi, hd'⟩ := exists_reachedIn_le List.mem_finRange hr d hd hle
  exact Nat.find_min hex (Nat.lt_of_le_of_lt hi hj) hd'

theorem mem_order_of_transGen (h : TransGen p.Extends d c) (hc : c ∈ p.order fqcn) :
    d ∈ p.order fqcn := by
  simp only [mem_order_iff] at hc ⊢
  induction h using TransGen.head_induction_on with
  | single h => exact .step hc h
  | head h _ ih => exact .step ih h

theorem extends_of_named (hc : (p.declaration c).name = normalize fqcn)
    (h : (p.declaration d).HasParent (normalize fqcn)) : p.Extends d c := by
  rwa [Extends, hc]

/-- What is in the hierarchy of `d` bears its name or inherits from it. -/
theorem named_or_transGen (hd : (p.declaration d).name = normalize fqcn)
    (hc : Descends p.declaration (normalize fqcn) c) :
    (p.declaration c).name = normalize fqcn ∨ TransGen p.Extends c d := by
  induction hc with
  | named h => exact .inl h
  | direct h => exact .inr (.single (extends_of_named hd h))
  | @step c b _ h ih =>
    rcases ih with hn | ht
    · rw [hn] at h
      exact .inr (.single (extends_of_named hd h))
    · exact .inr (.head h ht)

/-- Nothing of the base class's name inherits from a member of its hierarchy. -/
theorem Acyclic.name_ne (hp : p.Acyclic) (hc : c ∈ p.order fqcn) (h : TransGen p.Extends d c) :
    (p.declaration d).name ≠ normalize fqcn := by
  intro hd
  rcases named_or_transGen hd ((p.mem_order_iff fqcn c).1 hc) with hn | ht
  · -- what extends `c` extends `d` too, which has the same name
    obtain ⟨b, hb, hlast⟩ := TransGen.tail'_iff.1 h
    rw [Extends, hn] at hlast
    exact hp d (TransGen.tail' hb (extends_of_named hd hlast))
  · exact hp d (h.trans ht)

theorem before_of_named (hp : p.Acyclic) (hc : c ∈ p.order fqcn) (h : TransGen p.Extends d c)
    (hn : (p.declaration c).name = normalize fqcn) : p.Before fqcn c d := by
  refine (before_iff hc (mem_order_of_transGen h hc)).2 (.inl ?_)
  rw [turn, turn_of_named hn, turn, Classes.turn, if_neg (hp.name_ne hc h)]
  exact Nat.succ_pos _

/-- The name is the target, or borne by a member of its hierarchy. -/
def IsNameIn (p : Project) (fqcn name : String) : Prop :=
  name = normalize fqcn ∨ ∃ i ∈ p.order fqcn, (p.declaration i).name = name

/-- No two members of the hierarchy have one name, and none has two parents in it. -/
structure IsTree (p : Project) (fqcn : String) : Prop where
  name_inj : ∀ i ∈ p.order fqcn, ∀ j ∈ p.order fqcn,
    (p.declaration i).name = (p.declaration j).name → i = j
  parent_unique : ∀ i ∈ p.order fqcn, ∀ m n, p.IsNameIn fqcn m → p.IsNameIn fqcn n →
    (p.declaration i).HasParent m → (p.declaration i).HasParent n → m = n

theorem IsTree.nearer_of_extends (ht : p.IsTree fqcn) (hp : p.Acyclic) (hc : c ∈ p.order fqcn)
    (h : p.Extends d c) : p.Nearer fqcn c d := by
  have hd := mem_order_of_transGen (.single h) hc
  intro k hk
  cases hk with
  | named hn => exact absurd hn (hp.name_ne hc (.single h))
  | direct hb =>
    have hn := ht.parent_unique d hd _ _ (.inr ⟨c, hc, rfl⟩) (.inl rfl) h hb
    exact ⟨0, Nat.one_pos, .named hn⟩
  | @step k _ b hr hb =>
    have hm : b ∈ p.order fqcn := (p.mem_order_iff fqcn b).2 hr.descends
    have hn := ht.parent_unique d hd _ _ (.inr ⟨b, hm, rfl⟩) (.inr ⟨c, hc, rfl⟩) hb h
    exact ⟨k, Nat.lt_succ_self k, ht.name_inj b hm c hc hn ▸ hr⟩

theorem Nearer.trans {b : p.Position} (h₁ : p.Nearer fqcn b c) (h₂ : p.Nearer fqcn c d) :
    p.Nearer fqcn b d := by
  intro k hk
  obtain ⟨j, hj, hc⟩ := h₂ k hk
  obtain ⟨i, hi, hb⟩ := h₁ j hc
  exact ⟨i, Nat.lt_trans hi hj, hb⟩

/-- In a tree, all of the way up comes nearer. -/
theorem IsTree.nearer (ht : p.IsTree fqcn) (hp : p.Acyclic) (hc : c ∈ p.order fqcn)
    (h : TransGen p.Extends d c) : p.Nearer fqcn c d := by
  induction h using TransGen.head_induction_on with
  | single h => exact ht.nearer_of_extends hp hc h
  | head h hb ih => exact ih.trans (ht.nearer_of_extends hp (mem_order_of_transGen hb hc) h)

end Project

end ContainerAliases
