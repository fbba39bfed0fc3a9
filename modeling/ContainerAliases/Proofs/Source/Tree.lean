import ContainerAliases.Source.Tree

namespace ContainerAliases.Source.SyntaxTree

mutual
def same : SyntaxTree → SyntaxTree → Bool
  | .node l cs, .node l' cs' => l == l' && sameAll cs cs'
def sameAll : List SyntaxTree → List SyntaxTree → Bool
  | [], [] => true
  | t :: ts, u :: us => same t u && sameAll ts us
  | _, _ => false
end

mutual
theorem same_iff : (t u : SyntaxTree) → (same t u ↔ t = u)
  | .node l cs, .node l' cs' => by
    rw [same, Bool.and_eq_true, beq_iff_eq, sameAll_iff cs cs', SyntaxTree.node.injEq]
theorem sameAll_iff : (ts us : List SyntaxTree) → (sameAll ts us ↔ ts = us)
  | [], [] => by simp [sameAll]
  | [], _ :: _ => by simp [sameAll]
  | _ :: _, [] => by simp [sameAll]
  | t :: ts, u :: us => by
    rw [sameAll, Bool.and_eq_true, same_iff t u, sameAll_iff ts us, List.cons.injEq]
end

instance : DecidableEq SyntaxTree := fun t u => decidable_of_iff _ (same_iff t u)

section Every

variable (p : SyntaxTree → Bool)

mutual
/-- `p` holds at the node and at every node below it. -/
def every : SyntaxTree → Bool
  | .node l cs => p (.node l cs) && everyAll cs
def everyAll : List SyntaxTree → Bool
  | [] => true
  | t :: ts => every t && everyAll ts
end

variable {p}

theorem everyAll_iff {ts : List SyntaxTree} : everyAll p ts ↔ ∀ t ∈ ts, t.every p := by
  induction ts with
  | nil => simp [everyAll]
  | cons t ts ih => rw [everyAll, Bool.and_eq_true, ih, List.forall_mem_cons]

theorem every_iff {t : SyntaxTree} : t.every p ↔ p t ∧ ∀ c ∈ t.children, c.every p := by
  cases t with
  | node l cs => rw [every, Bool.and_eq_true, everyAll_iff, children]

theorem of_every {t : SyntaxTree} (h : t.every p) : p t := (every_iff.1 h).1

theorem every_of_mem {t c : SyntaxTree} (h : t.every p) (hc : c ∈ t.children) : c.every p :=
  (every_iff.1 h).2 c hc

end Every

/-- What holds of a node if it holds of its children holds of every node. -/
theorem induction_children {motive : SyntaxTree → Prop}
    (h : ∀ t, (∀ c ∈ t.children, motive c) → motive t) (t : SyntaxTree) : motive t :=
  h t fun c _ => induction_children h c
termination_by t.size
decreasing_by exact size_lt_of_mem_children ‹_›

theorem every_and_iff {p q : SyntaxTree → Bool} {t : SyntaxTree} :
    (t.every fun u => p u && q u) ↔ t.every p ∧ t.every q := by
  induction t using induction_children with
  | h t ih =>
    rw [every_iff, every_iff (p := p), every_iff (p := q), Bool.and_eq_true, forall₂_congr ih]
    exact ⟨fun ⟨⟨hp, hq⟩, h⟩ => ⟨⟨hp, fun c hc => (h c hc).1⟩, hq, fun c hc => (h c hc).2⟩,
      fun ⟨⟨hp, h⟩, hq, h'⟩ => ⟨⟨hp, hq⟩, fun c hc => ⟨h c hc, h' c hc⟩⟩⟩

theorem spineAt_of_eq_none {t : SyntaxTree} {b : Nat} (h : t.childAt b = none) :
    t.spineAt b = [t] := by
  rw [spineAt]
  split
  · rfl
  · next hc => cases h.symm.trans hc

theorem spineAt_of_eq_some {t c : SyntaxTree} {b : Nat} (h : t.childAt b = some c) :
    t.spineAt b = t :: c.spineAt b := by
  rw [spineAt]
  split
  · next hc => cases h.symm.trans hc
  · next hc =>
    obtain rfl : c = _ := Option.some.inj (h.symm.trans hc)
    rfl

end ContainerAliases.Source.SyntaxTree
