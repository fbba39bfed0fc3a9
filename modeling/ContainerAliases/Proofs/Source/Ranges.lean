import ContainerAliases.Classes.Declaration
import ContainerAliases.Proofs.Source.Tree

namespace ContainerAliases

namespace Source.SyntaxTree

/-- The nodes stand one after the other between the bytes `a` and `b`. -/
def rowFits (a b : Nat) : List SyntaxTree → Bool
  | [] => a ≤ b
  | t :: ts => a ≤ t.start && rowFits t.stop b ts

/-- The children stand in order within the node. -/
def fits (t : SyntaxTree) : Bool := rowFits t.start t.stop t.children

/-- The node `n` is the tree or stands below it. -/
inductive Contains (n : SyntaxTree) : SyntaxTree → Prop
  | here : Contains n n
  | child {t c : SyntaxTree} (hc : c ∈ t.children) (h : Contains n c) : Contains n t

theorem start_le_stop (t : SyntaxTree) : t.start ≤ t.stop := Nat.le_add_right _ _

theorem le_of_rowFits {a b : Nat} {ts : List SyntaxTree} (h : rowFits a b ts) : a ≤ b := by
  induction ts generalizing a with
  | nil => simpa [rowFits] using h
  | cons t ts ih =>
    simp only [rowFits, Bool.and_eq_true, decide_eq_true_eq] at h
    have := ih h.2
    have := t.start_le_stop
    omega

theorem rowFits_append {a b c : Nat} {ts us : List SyntaxTree} (h : rowFits a b ts)
    (h' : rowFits b c us) : rowFits a c (ts ++ us) := by
  induction ts generalizing a with
  | nil =>
    have hab : a ≤ b := le_of_rowFits h
    cases us with
    | nil =>
      simpa [rowFits] using Nat.le_trans hab (le_of_rowFits h')
    | cons u us =>
      simp only [rowFits, Bool.and_eq_true, decide_eq_true_eq, List.nil_append] at h' ⊢
      exact ⟨Nat.le_trans hab h'.1, h'.2⟩
  | cons t ts ih =>
    simp only [rowFits, Bool.and_eq_true, decide_eq_true_eq, List.cons_append] at h ⊢
    exact ⟨h.1, ih h.2⟩

theorem range_of_mem {a b : Nat} {ts : List SyntaxTree} (h : rowFits a b ts) {c : SyntaxTree}
    (hc : c ∈ ts) : a ≤ c.start ∧ c.stop ≤ b := by
  induction ts generalizing a with
  | nil => cases hc
  | cons t ts ih =>
    simp only [rowFits, Bool.and_eq_true, decide_eq_true_eq] at h
    rcases List.mem_cons.1 hc with rfl | hc
    · exact ⟨h.1, le_of_rowFits h.2⟩
    · have := ih h.2 hc
      have := t.start_le_stop
      omega

/-- No other node of a row covers a byte that one of them covers. -/
theorem find?_of_rowFits {a b x : Nat} {ts : List SyntaxTree} (h : rowFits a b ts) {c : SyntaxTree}
    (hc : c ∈ ts) (hx : c.start ≤ x ∧ x < c.stop) :
    ts.find? (fun t => decide (t.start ≤ x ∧ x < t.stop)) = some c := by
  induction ts generalizing a with
  | nil => cases hc
  | cons t ts ih =>
    simp only [rowFits, Bool.and_eq_true, decide_eq_true_eq] at h
    rcases List.mem_cons.1 hc with rfl | hc
    · rw [List.find?_cons_of_pos (by simpa using hx)]
    · have after := range_of_mem h.2 hc
      rw [List.find?_cons_of_neg (by simp; omega), ih h.2 hc]

namespace Contains

variable {n t : SyntaxTree}

theorem trans {m : SyntaxTree} (hn : Contains n m) (h : Contains m t) : Contains n t := by
  induction h with
  | here => exact hn
  | child hc _ ih => exact .child hc ih

theorem every {p : SyntaxTree → Bool} (ht : t.every p) (h : Contains n t) : n.every p := by
  induction h with
  | here => exact ht
  | child hc _ ih => exact ih (every_of_mem ht hc)

theorem range (ht : t.every fits) (h : Contains n t) : t.start ≤ n.start ∧ n.stop ≤ t.stop := by
  induction h with
  | here => exact ⟨Nat.le_refl _, Nat.le_refl _⟩
  | child hc _ ih =>
    have inner := ih (every_of_mem ht hc)
    have outer := range_of_mem (of_every ht) hc
    omega

/-- The way down to the first byte of a node leads through the node. -/
theorem exists_spineAt (ht : t.every fits) (h : Contains n t) (hn : n.start < n.stop) :
    ∃ above, t.spineAt n.start = above ++ n.spineAt n.start := by
  induction h with
  | here => exact ⟨[], rfl⟩
  | @child t c hc h ih =>
    have inner := h.range (every_of_mem ht hc)
    have next : t.childAt n.start = some c := find?_of_rowFits (of_every ht) hc (by omega)
    obtain ⟨above, ha⟩ := ih (every_of_mem ht hc)
    exact ⟨t :: above, by rw [spineAt_of_eq_some next, ha, List.cons_append]⟩

end Contains

theorem every_of_contains {p : SyntaxTree → Bool} {t : SyntaxTree} (h : ∀ u, Contains u t → p u) :
    t.every p := by
  induction t using induction_children with
  | h t ih => exact every_iff.2 ⟨h t .here, fun c hc => ih c hc fun u hu => h u (.child hc hu)⟩

theorem contains_of_mem_spineAt {t u : SyntaxTree} {b : Nat} (h : u ∈ t.spineAt b) :
    Contains u t := by
  induction t using spineAt.induct b with
  | case1 t hc =>
    rw [spineAt_of_eq_none hc, List.mem_singleton] at h
    exact h ▸ .here
  | case2 t c hc ih =>
    rw [spineAt_of_eq_some hc, List.mem_cons] at h
    rcases h with rfl | h
    · exact .here
    · exact .child (List.mem_of_find?_eq_some hc) (ih h)

theorem exists_spineAt_eq_cons (t : SyntaxTree) (b : Nat) :
    ∃ rest, t.spineAt b = t :: rest ∧ ∀ u ∈ rest, ∃ c ∈ t.children, Contains u c := by
  cases h : t.childAt b with
  | none => exact ⟨[], spineAt_of_eq_none h, nofun⟩
  | some c => exact ⟨c.spineAt b, spineAt_of_eq_some h, fun u hu =>
      ⟨c, List.mem_of_find?_eq_some h, contains_of_mem_spineAt hu⟩⟩

/-- Nothing that satisfies `p` begins with the node and stands below it. -/
def opensAlone (p : SyntaxTree → Bool) (t : SyntaxTree) : Bool :=
  t.children.all fun c => c.every fun u => !p u || decide (t.start < u.start)

/-- A node that begins with something of its own is found by its first byte. -/
theorem find?_spineAt {p : SyntaxTree → Bool} {n t : SyntaxTree} (ht : t.every fits)
    (h : Contains n t) (hn : n.start < n.stop) (hp : p n) (alone : n.opensAlone p) :
    (t.spineAt n.start).reverse.find? (fun u => p u && u.start == n.start) = some n := by
  obtain ⟨above, ha⟩ := h.exists_spineAt ht hn
  obtain ⟨rest, hr, below⟩ := n.exists_spineAt_eq_cons n.start
  have none_below : rest.reverse.find? (fun u => p u && u.start == n.start) = none := by
    refine List.find?_eq_none.2 fun u hu => ?_
    obtain ⟨c, hc, hu⟩ := below u (List.mem_reverse.1 hu)
    have later := of_every (hu.every (List.all_eq_true.1 alone c hc))
    simp only [Bool.or_eq_true, Bool.not_eq_true', decide_eq_true_eq] at later
    simp only [Bool.and_eq_true, beq_iff_eq, not_and]
    rintro hpu
    rcases later with hf | hl
    · exact absurd hpu (by simp [hf])
    · omega
  rw [ha, hr, List.reverse_append, List.reverse_cons, List.append_assoc, List.find?_append,
    none_below]
  simp [hp]

end Source.SyntaxTree

namespace Classes

open Source

/-- A declaration begins with a token that belongs to no other declaration. -/
def beginsAlone (t : SyntaxTree) : Bool :=
  !isClassLike t.kind || decide (t.start < t.stop) && t.opensAlone fun u => isClassLike u.kind

/-- No class is declared at the node or below it. -/
def isSealed (t : SyntaxTree) : Bool := t.every fun u => !isClassLike u.kind

/-- No class stands below a keyword. Below a namespace definition, classes stand in the name and in
the body alone, and the body is no class itself. -/
def isShaped (t : SyntaxTree) : Bool :=
  match t.kind with
  | .token _ => t.children.all isSealed
  | .namespaceDefinition =>
    (t.children.eraseP fun c => c.role == some .body).all
        (fun c => c.role == some .name || isSealed c) &&
      (t.child? .body).all fun b => !isClassLike b.kind
  | _ => true

/-- No class stands in the name of a namespace or in an import. -/
def namesNoClass (t : SyntaxTree) : Bool :=
  match t.kind with
  | .namespaceUseDeclaration => t.children.all isSealed
  | .namespaceDefinition => t.children.all fun c => c.role != some .name || isSealed c
  | _ => true

def isTidy (t : SyntaxTree) : Bool := isShaped t && namesNoClass t

theorem isTidy_iff {t : SyntaxTree} : isTidy t ↔ isShaped t ∧ namesNoClass t := by
  rw [isTidy, Bool.and_eq_true]

/-- Nodes of the kind may have any children. -/
def isFree (k : Kind) : Bool :=
  k.isNamed && k != .namespaceDefinition && k != .namespaceUseDeclaration

theorem isTidy_of_isFree {t : SyntaxTree} (h : isFree t.kind) : isTidy t := by
  rw [isTidy_iff, isShaped, namesNoClass]
  cases hk : t.kind <;> simp_all [isFree, Kind.isNamed]

theorem isTidy_leaf {t : SyntaxTree} (h : t.children = []) : isTidy t := by
  rw [isTidy_iff, isShaped, namesNoClass, SyntaxTree.child?, h]
  cases t.kind <;> simp

/-- All nodes stand in order, all declarations begin with something of their own, and classes stand
only where statements do. -/
def isOrderly (t : SyntaxTree) : Bool :=
  t.every fun u => u.fits && beginsAlone u && isTidy u

theorem isOrderly_iff_every {t : SyntaxTree} :
    isOrderly t ↔ (t.every SyntaxTree.fits ∧ t.every beginsAlone) ∧ t.every isTidy := by
  rw [isOrderly, SyntaxTree.every_and_iff (p := fun u => u.fits && beginsAlone u),
    SyntaxTree.every_and_iff]

/-- Orderly nodes one after the other between the bytes `a` and `b`. -/
def InRow (a b : Nat) (ts : List SyntaxTree) : Prop :=
  SyntaxTree.rowFits a b ts ∧ ∀ t ∈ ts, isOrderly t

theorem isOrderly_iff {t : SyntaxTree} :
    isOrderly t ↔ InRow t.start t.stop t.children ∧ beginsAlone t ∧ isTidy t := by
  rw [isOrderly, SyntaxTree.every_iff, Bool.and_eq_true, Bool.and_eq_true]
  exact ⟨fun ⟨⟨⟨hf, hb⟩, ht⟩, h⟩ => ⟨⟨hf, h⟩, hb, ht⟩, fun ⟨⟨hf, h⟩, hb, ht⟩ => ⟨⟨⟨hf, hb⟩, ht⟩, h⟩⟩

namespace InRow

variable {a a' b c : Nat} {t : SyntaxTree} {ts us : List SyntaxTree}

theorem nil (h : a ≤ b) : InRow a b [] := ⟨by simpa [SyntaxTree.rowFits] using h, nofun⟩

theorem cons_iff : InRow a b (t :: ts) ↔ (a ≤ t.start ∧ isOrderly t) ∧ InRow t.stop b ts := by
  simp only [InRow, SyntaxTree.rowFits, Bool.and_eq_true, decide_eq_true_eq, List.forall_mem_cons]
  exact ⟨fun ⟨⟨ha, hr⟩, ht, hts⟩ => ⟨⟨ha, ht⟩, hr, hts⟩,
    fun ⟨⟨ha, ht⟩, hr, hts⟩ => ⟨⟨ha, hr⟩, ht, hts⟩⟩

theorem singleton (ha : a ≤ t.start) (ht : isOrderly t) : InRow a t.stop [t] :=
  cons_iff.2 ⟨⟨ha, ht⟩, nil (Nat.le_refl _)⟩

theorem append (h : InRow a b ts) (h' : InRow b c us) : InRow a c (ts ++ us) :=
  ⟨SyntaxTree.rowFits_append h.1 h'.1, List.forall_mem_append.2 ⟨h.2, h'.2⟩⟩

theorem of_le (ha : a' ≤ a) (h : InRow a b ts) : InRow a' b ts := (nil ha).append h

theorem children (h : isOrderly t) : InRow t.start t.stop t.children := (isOrderly_iff.1 h).1

end InRow

theorem isOrderly_leaf {t : SyntaxTree} (hc : t.children = []) (hk : isClassLike t.kind = false) :
    isOrderly t := by
  rw [isOrderly_iff, hc, beginsAlone, hk]
  exact ⟨.nil t.start_le_stop, rfl, isTidy_leaf hc⟩

/-- The node of a declaration that stands in a row of nodes is found by its first byte. -/
theorem find?_of_inRow {a b : Nat} {t u n : SyntaxTree} (h : InRow a b t.children)
    (hu : u ∈ t.children) (hn : SyntaxTree.Contains n u) (hc : isClassLike n.kind)
    {c : ClassDeclaration} (hs : c.start = n.start) : c.find? t = some n := by
  obtain ⟨⟨fits, alone⟩, -⟩ := isOrderly_iff_every.1 (h.2 u hu)
  have alone := SyntaxTree.of_every (hn.every alone)
  rw [beginsAlone, hc, Bool.not_true, Bool.false_or, Bool.and_eq_true, decide_eq_true_eq] at alone
  have inside := hn.range fits
  have next : t.childAt n.start = some u := SyntaxTree.find?_of_rowFits h.1 hu (by omega)
  rw [ClassDeclaration.find?, hs, SyntaxTree.spineAt_of_eq_some next, List.reverse_cons,
    List.find?_append, SyntaxTree.find?_spineAt fits hn alone.1 hc alone.2, Option.some_or]

end Classes

end ContainerAliases
