import ContainerAliases.Proofs.Source.Ranges
import ContainerAliases.Source.Grammar.Expression

namespace ContainerAliases.Source

open Classes

/-- No class stands in the tree, and it is no body of anything. -/
def isInert (t : SyntaxTree) : Bool := isSealed t && t.role != some .body

theorem isInert_iff {t : SyntaxTree} : isInert t ↔ isSealed t ∧ t.role ≠ some .body := by
  rw [isInert, Bool.and_eq_true, bne_iff_ne]

@[grind →] theorem isSealed_of_isInert {t : SyntaxTree} (h : isInert t) : isSealed t :=
  (isInert_iff.1 h).1

theorem isInert_leaf {t : SyntaxTree} (hc : t.children = []) (hr : t.role = none)
    (hk : isClassLike t.kind = false) : isInert t := by
  rw [isInert_iff, isSealed, SyntaxTree.every_iff, hc, hr, hk]
  exact ⟨⟨rfl, nofun⟩, nofun⟩

/-- The piece begins, with what stands before it, at byte `b`. -/
structure Piece.From (p : Piece) (b : Nat) : Prop where
  start : p.tree.start = b + p.lead.utf8ByteSize
  trivia : InRow b p.tree.start p.trivia
  inert : ∀ t ∈ p.trivia, isInert t
  tree : isOrderly p.tree

/-- The pieces stand one after the other from byte `b` on. -/
def Row (b : Nat) : List Piece → Prop
  | [] => True
  | p :: ps => p.From b ∧ Row p.tree.stop ps

def endOf (b : Nat) : List Piece → Nat
  | [] => b
  | p :: ps => endOf p.tree.stop ps

section Row

variable (b : Nat) (p : Piece) (ps qs : List Piece)

@[grind .] theorem row_nil : Row b [] := trivial

@[grind =] theorem row_cons : Row b (p :: ps) ↔ p.From b ∧ Row p.tree.stop ps := Iff.rfl

@[grind =] theorem endOf_nil : endOf b [] = b := rfl

@[grind =] theorem endOf_cons : endOf b (p :: ps) = endOf p.tree.stop ps := rfl

@[grind =] theorem endOf_append : endOf b (ps ++ qs) = endOf (endOf b ps) qs := by
  induction ps generalizing b with
  | nil => rfl
  | cons p ps ih => exact ih p.tree.stop

@[grind =] theorem row_append : Row b (ps ++ qs) ↔ Row b ps ∧ Row (endOf b ps) qs := by
  induction ps generalizing b with
  | nil => simp [row_nil, endOf_nil]
  | cons p ps ih => rw [List.cons_append, row_cons, row_cons, endOf_cons, ih, and_assoc]

end Row

/-- The texts of pieces and what stands between them make up what they cover. -/
theorem endOf_eq_add {b : Nat} {ps : List Piece} (h : Row b ps) :
    endOf b ps = b + (String.join (ps.map fun p => p.lead ++ p.tree.text)).utf8ByteSize := by
  induction ps generalizing b with
  | nil => simp [endOf]
  | cons p ps ih =>
    have start := h.1.start
    rw [endOf_cons, ih h.2, List.map_cons, String.join_cons, String.utf8ByteSize_append,
      String.utf8ByteSize_append, SyntaxTree.stop, start]
    omega

def treesOf (ps : List Piece) : List SyntaxTree := ps.flatMap fun p => p.trivia ++ [p.tree]

theorem inRow_treesOf {b : Nat} {ps : List Piece} (h : Row b ps) :
    InRow b (endOf b ps) (treesOf ps) := by
  induction ps generalizing b with
  | nil => exact .nil (Nat.le_refl b)
  | cons p ps ih =>
    exact (h.1.trivia.append (.singleton (Nat.le_refl _) h.1.tree)).append (ih h.2)

/-- The trees of the pieces satisfy `q`, whatever stands between them. -/
def AllOf (q : SyntaxTree → Bool) (ps : List Piece) : Prop := ∀ p ∈ ps, q p.tree

section AllOf

variable (q : SyntaxTree → Bool) (p : Piece) (ps qs : List Piece)

@[grind .] theorem allOf_nil : AllOf q [] := nofun

@[grind =] theorem allOf_cons : AllOf q (p :: ps) ↔ q p.tree ∧ AllOf q ps := List.forall_mem_cons

@[grind =] theorem allOf_append : AllOf q (ps ++ qs) ↔ AllOf q ps ∧ AllOf q qs :=
  List.forall_mem_append

end AllOf

@[grind →] theorem AllOf.isSealed {ps : List Piece} (h : AllOf isInert ps) : AllOf isSealed ps :=
  fun p hp => isSealed_of_isInert (h p hp)

theorem forall_mem_treesOf {q : SyntaxTree → Bool} {b : Nat} {ps : List Piece} (h : Row b ps)
    (trivia : ∀ t, isInert t → q t) (trees : AllOf q ps) : ∀ t ∈ treesOf ps, q t := by
  induction ps generalizing b with
  | nil => exact nofun
  | cons p ps ih =>
    obtain ⟨tree, trees⟩ := List.forall_mem_cons.1 trees
    refine List.forall_mem_append.2 ⟨List.forall_mem_append.2 ⟨?_, by simpa⟩, ih h.2 trees⟩
    exact fun t ht => trivia t (h.1.inert t ht)

namespace Piece

variable {k : Kind} {b : Nat} {p : Piece} {ps : List Piece}

@[grind =] theorem kind_join : (join k p ps).tree.kind = k := rfl

theorem start_join : (join k p ps).tree.start = p.tree.start := rfl

theorem text_join : (join k p ps).tree.text =
    p.tree.text ++ String.join (ps.map fun q => q.lead ++ q.tree.text) := rfl

@[grind =] theorem stop_join (h : Row p.tree.stop ps) :
    (join k p ps).tree.stop = endOf p.tree.stop ps := by
  rw [endOf_eq_add h, SyntaxTree.stop, SyntaxTree.stop, start_join, text_join,
    String.utf8ByteSize_append, Nat.add_assoc]

theorem from_join_of_beginsAlone (hp : p.From b) (h : Row p.tree.stop ps)
    (alone : beginsAlone (join k p ps).tree) (tidy : isTidy (join k p ps).tree) :
    (join k p ps).From b := by
  refine ⟨hp.start, hp.trivia, hp.inert, isOrderly_iff.2 ⟨?_, alone, tidy⟩⟩
  have row := (InRow.singleton (Nat.le_refl _) hp.tree).append (inRow_treesOf h)
  rwa [← stop_join h] at row

theorem beginsAlone_join (hk : isClassLike k = false) : beginsAlone (join k p ps).tree := by
  rw [beginsAlone, kind_join, hk]
  rfl

@[grind ←] theorem From.join (hk : isClassLike k = false) (hf : isFree k) (hp : p.From b)
    (h : Row p.tree.stop ps) : (Piece.join k p ps).From b :=
  from_join_of_beginsAlone hp h (beginsAlone_join hk) (isTidy_of_isFree hf)

/-- The tree begins with something, and no declaration with it. -/
structure Opens (p : Piece) : Prop where
  some : p.tree.start < p.tree.stop
  alone : p.tree.every fun u => !isClassLike u.kind || decide (p.tree.start < u.start)

theorem Opens.below (ho : p.Opens) (h : Row p.tree.stop ps) :
    ∀ c ∈ p.tree :: treesOf ps,
      c.every fun u => !isClassLike u.kind || decide (p.tree.start < u.start) := by
  intro c hc
  rcases List.mem_cons.1 hc with rfl | hc
  · exact ho.alone
  · have row := inRow_treesOf h
    have later := (SyntaxTree.range_of_mem row.1 hc).1
    refine SyntaxTree.every_of_contains fun u hu => ?_
    have inside := (hu.range (isOrderly_iff_every.1 (row.2 c hc)).1.1).1
    have := ho.some
    simp only [Bool.or_eq_true, decide_eq_true_eq]
    exact .inr (by omega)

theorem Opens.lt_stop_join (ho : p.Opens) (h : Row p.tree.stop ps) :
    (Piece.join k p ps).tree.start < (Piece.join k p ps).tree.stop := by
  have := SyntaxTree.le_of_rowFits (inRow_treesOf h).1
  have := ho.some
  rw [stop_join h, start_join]
  omega

theorem From.join_of_opens (hf : isFree k) (ho : p.Opens) (hp : p.From b)
    (h : Row p.tree.stop ps) : (Piece.join k p ps).From b := by
  refine from_join_of_beginsAlone hp h ?_ (isTidy_of_isFree hf)
  rw [beginsAlone, SyntaxTree.opensAlone, decide_eq_true (ho.lt_stop_join h), Bool.true_and,
    Bool.or_eq_true]
  exact .inr (List.all_eq_true.2 (ho.below h))

@[grind ←] theorem Opens.join (hk : isClassLike k = false) (ho : p.Opens) (h : Row p.tree.stop ps) :
    (Piece.join k p ps).Opens := by
  refine ⟨ho.lt_stop_join h, SyntaxTree.every_iff.2 ⟨?_, ho.below h⟩⟩
  rw [kind_join, hk]
  rfl

theorem tree_playing (p : Piece) (r : Role) :
    (p.playing r).tree = .node { p.tree.label with role := some r } p.tree.children := by
  obtain ⟨lead, trivia, ⟨l, cs⟩⟩ := p
  rfl

@[grind =] theorem stop_playing (p : Piece) (r : Role) : (p.playing r).tree.stop = p.tree.stop := by
  rw [SyntaxTree.stop, SyntaxTree.start, SyntaxTree.text, tree_playing]
  rfl

end Piece

@[grind =] theorem role_playing (p : Piece) (r : Role) : (p.playing r).tree.role = some r := by
  rw [Piece.tree_playing]
  rfl

@[grind =] theorem kind_playing (p : Piece) (r : Role) :
    (p.playing r).tree.kind = p.tree.kind := by
  rw [Piece.tree_playing]
  rfl

@[grind =] theorem isSealed_playing (p : Piece) (r : Role) :
    isSealed (p.playing r).tree = isSealed p.tree := by
  obtain ⟨lead, trivia, ⟨l, cs⟩⟩ := p
  rfl

@[grind ←] theorem isInert_playing {p : Piece} {r : Role} (hr : r ≠ .body)
    (h : isSealed p.tree) : isInert (p.playing r).tree := by
  rw [isInert_iff, isSealed_playing, role_playing]
  exact ⟨h, by simpa using hr⟩

section Tidy

variable {k : Kind} {p q : Piece} {ps : List Piece}

theorem forall_mem_joined {f : SyntaxTree → Bool} (row : Row p.tree.stop ps)
    (trivia : ∀ t, isInert t → f t) (trees : AllOf f (p :: ps)) :
    ∀ c ∈ p.tree :: treesOf ps, f c :=
  List.forall_mem_cons.2 ⟨((allOf_cons f p ps).1 trees).1,
    forall_mem_treesOf row trivia ((allOf_cons f p ps).1 trees).2⟩

@[grind ←] theorem isSealed_join (hk : isClassLike k = false) (row : Row p.tree.stop ps)
    (h : AllOf isSealed (p :: ps)) : isSealed (Piece.join k p ps).tree := by
  refine SyntaxTree.every_iff.2 ⟨?_, ?_⟩
  · rw [Piece.kind_join, hk]
    rfl
  · exact forall_mem_joined row (fun _ => isSealed_of_isInert) h

theorem isTidy_join_namespaceUseDeclaration (row : Row p.tree.stop ps)
    (h : AllOf isSealed (p :: ps)) : isTidy (Piece.join .namespaceUseDeclaration p ps).tree :=
  isTidy_iff.2 ⟨rfl, List.all_eq_true.2 (forall_mem_joined row
    (fun _ => isSealed_of_isInert) h)⟩

/-- Classes may stand in the body, if that is no class itself. -/
theorem isTidy_of_front {t : SyntaxTree} (hk : t.kind = .namespaceDefinition)
    {front : List SyntaxTree} {b : Option SyntaxTree} (hc : t.children = front ++ b.toList)
    (hf : ∀ c ∈ front, isInert c)
    (hb : ∀ c ∈ b, c.role = some .body ∧ isClassLike c.kind = false) : isTidy t := by
  have other : ∀ c ∈ front, ¬ (c.role == some .body) := fun c hc => by
    simpa using (isInert_iff.1 (hf c hc)).2
  have clear : ∀ c ∈ front, isSealed c := fun c hc => isSealed_of_isInert (hf c hc)
  rw [isTidy_iff, isShaped, namesNoClass, SyntaxTree.child?, hk, hc,
    List.eraseP_append_right _ other, List.find?_append, List.find?_eq_none.2 other]
  cases b with
  | none => simpa using ⟨fun c hc => .inr (clear c hc), fun c hc => .inr (clear c hc)⟩
  | some body =>
    obtain ⟨role, block⟩ := hb body rfl
    simpa [role, block] using ⟨fun c hc => .inr (clear c hc), fun c hc => .inr (clear c hc)⟩

theorem isTidy_join_namespaceDefinition (row : Row p.tree.stop ps)
    (h : AllOf isInert (p :: ps)) : isTidy (Piece.join .namespaceDefinition p ps).tree :=
  isTidy_of_front (b := none) rfl (List.append_nil _).symm
    (forall_mem_joined row (fun _ ht => ht) h) nofun

theorem isTidy_join_namespaceDefinition_body (row : Row p.tree.stop (ps ++ [q]))
    (h : AllOf isInert (p :: ps)) (hr : q.tree.role = some .body)
    (hk : isClassLike q.tree.kind = false) :
    isTidy (Piece.join .namespaceDefinition p (ps ++ [q])).tree := by
  obtain ⟨rest, last, -⟩ := (row_append _ ps [q]).1 row
  have front : (Piece.join .namespaceDefinition p (ps ++ [q])).tree.children =
      (p.tree :: treesOf ps ++ q.trivia) ++ (some q.tree).toList := by
    change p.tree :: treesOf (ps ++ [q]) = _
    simp [treesOf]
  refine isTidy_of_front rfl front (List.forall_mem_append.2 ⟨?_, last.inert⟩) ?_
  · exact forall_mem_joined rest (fun _ ht => ht) h
  · rintro _ ⟨⟩
    exact ⟨hr, hk⟩

end Tidy

/-- Whether a tree is orderly depends on its range, its kind and what is below it. -/
theorem isOrderly_congr {t u : SyntaxTree} (start : t.start = u.start) (stop : t.stop = u.stop)
    (kind : t.kind = u.kind) (children : t.children = u.children) : isOrderly t ↔ isOrderly u := by
  rw [isOrderly_iff, isOrderly_iff, beginsAlone, beginsAlone, SyntaxTree.opensAlone,
    SyntaxTree.opensAlone, isTidy, isTidy, isShaped, isShaped, namesNoClass, namesNoClass,
    SyntaxTree.child?, SyntaxTree.child?, start, stop, kind, children]

@[grind ←] theorem Piece.From.playing {p : Piece} {b : Nat} (h : p.From b) (r : Role) :
    (p.playing r).From b := by
  have tree := p.tree_playing r
  obtain ⟨lead, trivia, ⟨l, cs⟩⟩ := p
  refine ⟨h.start, h.trivia, h.inert, ?_⟩
  rw [tree]
  exact (isOrderly_congr rfl rfl rfl rfl).1 h.tree

/-- If there are pieces, the first of them opens what is made of them. -/
def Opening (ps : List Piece) : Prop := ∀ p ∈ ps.head?, p.Opens

@[grind .] theorem opening_nil : Opening [] := nofun

@[grind =] theorem opening_cons (p : Piece) (ps : List Piece) : Opening (p :: ps) ↔ p.Opens := by
  simp [Opening]

@[grind ←] theorem Opening.append {ps qs : List Piece} (h : Opening ps) (h' : Opening qs) :
    Opening (ps ++ qs) := by
  cases ps with
  | nil => exact h'
  | cons p ps => exact h

theorem Opening.join? {k : Kind} {b : Nat} {ps : List Piece} (hk : isClassLike k = false)
    (row : Row b ps) (h : Opening ps) : Opening (Piece.join? k ps).toList := by
  cases ps with
  | nil => exact opening_nil
  | cons p ps => exact (opening_cons _ _).2 (((opening_cons _ _).1 h).join hk row.2)

namespace Grammar

theorem start_asTarget (t : SyntaxTree) : (asTarget t).start = t.start := by
  cases t with
  | node l cs =>
    rw [asTarget]
    split <;> rfl

theorem stop_asTarget (t : SyntaxTree) : (asTarget t).stop = t.stop := by
  cases t with
  | node l cs =>
    rw [asTarget]
    split <;> rfl

mutual
/-- A target stands where the array stood. -/
theorem isOrderly_asTarget : (t : SyntaxTree) → isOrderly t → isOrderly (asTarget t)
  | .node l cs, h => by
    rw [asTarget]
    split
    · exact isOrderly_iff.2 ⟨inRow_asTargets cs (.children h), rfl, rfl⟩
    · exact h
theorem inRow_asTargets : (ts : List SyntaxTree) → {a b : Nat} → InRow a b ts →
    InRow a b (asTargets ts)
  | [], _, _, h => by rwa [asTargets]
  | .node l cs :: ts, a, b, h => by
    obtain ⟨⟨ha, hn⟩, hts⟩ := InRow.cons_iff.1 h
    rw [asTargets]
    split
    · have parts := inRow_elementTargets (!cs.any fun c => c.kind == .token "=>") cs
        ((InRow.children hn).of_le ha)
      exact parts.append (inRow_asTargets ts hts)
    · exact InRow.cons_iff.2 ⟨⟨ha, hn⟩, inRow_asTargets ts hts⟩
theorem inRow_elementTargets (reached : Bool) : (ts : List SyntaxTree) → {a b : Nat} →
    InRow a b ts → InRow a b (elementTargets reached ts)
  | [], _, _, h => by rwa [elementTargets]
  | t :: ts, a, b, h => by
    obtain ⟨⟨ha, ht⟩, hts⟩ := InRow.cons_iff.1 h
    have rest := inRow_elementTargets (reached || t.kind == .token "=>") ts hts
    rw [elementTargets]
    split
    · rw [InRow.cons_iff, start_asTarget, stop_asTarget]
      exact ⟨⟨ha, isOrderly_asTarget t ht⟩, rest⟩
    · exact InRow.cons_iff.2 ⟨⟨ha, ht⟩, rest⟩
end

@[grind =] theorem stop_tree_asTarget (p : Piece) : (Piece.asTarget p).tree.stop = p.tree.stop :=
  stop_asTarget p.tree

@[grind ←] theorem from_asTarget {p : Piece} {b : Nat} (h : p.From b) :
    (Piece.asTarget p).From b := by
  have start : (Piece.asTarget p).tree.start = p.tree.start := start_asTarget p.tree
  exact ⟨start.trans h.start, start ▸ h.trivia, h.inert, isOrderly_asTarget p.tree h.tree⟩

end Grammar

end ContainerAliases.Source
