import Mathlib
import ContainerAliases.Proofs.Source.Spans

set_option mvcgen.warning false

namespace ContainerAliases.Source

open Std.Do Classes

/-- The tokens follow each other from byte `b` on up to the end of the file, and what stands before
a token are leaves in order. -/
def Consecutive (b : Nat) : List Token → Prop
  | [] => False
  | t :: ts => t.start = b + t.lead.utf8ByteSize ∧
      (InRow b t.start t.trivia ∧ ∀ c ∈ t.trivia, isInert c) ∧
      (t.kind = .finish ∨ Consecutive (t.start + t.text.utf8ByteSize) ts)

namespace Ahead

def next (s : Ahead) : Token := s.tokens.headD default

def place (s : Ahead) : Nat := s.next.start - s.next.lead.utf8ByteSize

def Sound (s : Ahead) : Prop := Consecutive s.place s.tokens

theorem place_of_consecutive {s : Ahead} {b : Nat} (h : Consecutive b s.tokens) : s.place = b := by
  rw [place, next]
  cases ht : s.tokens with
  | nil => simp [ht, Consecutive] at h
  | cons t ts =>
    rw [ht] at h
    have start := h.1
    rw [List.headD_cons]
    omega

theorem sound_of_consecutive {s : Ahead} {b : Nat} (h : Consecutive b s.tokens) : s.Sound := by
  rwa [Sound, place_of_consecutive h]

end Ahead

/-- The pieces were read from `s`, and `s'` is left. -/
@[grind =] def Took (s : Ahead) (ps : List Piece) (s' : Ahead) : Prop :=
  s.Sound → Row s.place ps ∧ s'.Sound ∧ s'.place = endOf s.place ps

/-- Besides, the pieces open what is made of them. -/
@[grind =] def TookOpening (s : Ahead) (ps : List Piece) (s' : Ahead) : Prop :=
  Took s ps s' ∧ (s.Sound → Opening ps)

/-- Besides, no class stands in the pieces. -/
@[grind =] def TookSealed (s : Ahead) (ps : List Piece) (s' : Ahead) : Prop :=
  Took s ps s' ∧ (s.Sound → AllOf isSealed ps)

@[grind =] theorem isClassLike_eq (k : Kind) :
    isClassLike k = decide (k = .classDeclaration ∨ k = .interfaceDeclaration) := by
  cases k <;> rfl

attribute [grind =] isFree Kind.isNamed

namespace Took

variable {s s' : Ahead} {k : Kind} {p : Piece} {ps : List Piece}

theorem refl (s : Ahead) : Took s [] s := fun h => ⟨trivial, h, rfl⟩

theorem append {s₁ : Ahead} {qs : List Piece} (h : Took s ps s₁) (h' : Took s₁ qs s') :
    Took s (ps ++ qs) s' := by
  grind

theorem join_of (hj : ∀ b, p.From b → Row p.tree.stop ps → s.Sound → (Piece.join k p ps).From b)
    (h : Took s (p :: ps) s') : Took s [Piece.join k p ps] s' := by
  intro hs
  obtain ⟨⟨first, rest⟩, sound, place⟩ := h hs
  refine ⟨⟨hj _ first rest hs, trivial⟩, sound, ?_⟩
  rw [endOf_cons, endOf_nil, Piece.stop_join rest, place, endOf_cons]

@[grind ←] theorem join (hk : isClassLike k = false) (hf : isFree k) (h : Took s (p :: ps) s') :
    Took s [Piece.join k p ps] s' :=
  join_of (fun _ first rest _ => first.join hk hf rest) h

@[grind ←] theorem join? (hk : isClassLike k = false) (hf : isFree k) (h : Took s ps s') :
    Took s (Piece.join? k ps).toList s' := by
  cases ps with
  | nil => exact h
  | cons p ps => exact join hk hf h

theorem join_of_opening (hf : isFree k) (ho : s.Sound → Opening (p :: ps))
    (h : Took s (p :: ps) s') : Took s [Piece.join k p ps] s' :=
  join_of (fun _ first rest hs => first.join_of_opens hf ((opening_cons p ps).1 (ho hs)) rest) h

theorem join_of_isTidy (hk : isClassLike k = false)
    (ht : s.Sound → Row p.tree.stop ps → isTidy (Piece.join k p ps).tree)
    (h : Took s (p :: ps) s') : Took s [Piece.join k p ps] s' :=
  join_of (fun _ first rest hs =>
    Piece.from_join_of_beginsAlone first rest (Piece.beginsAlone_join hk) (ht hs rest)) h

theorem join_namespaceDefinition (hi : s.Sound → AllOf isInert (p :: ps))
    (h : Took s (p :: ps) s') : Took s [Piece.join .namespaceDefinition p ps] s' :=
  h.join_of_isTidy rfl fun hs row => isTidy_join_namespaceDefinition row (hi hs)

theorem join_namespaceDefinition_body {q : Piece} (hi : s.Sound → AllOf isInert (p :: ps))
    (hr : q.tree.role = some .body) (hk : isClassLike q.tree.kind = false)
    (h : Took s (p :: (ps ++ [q])) s') :
    Took s [Piece.join .namespaceDefinition p (ps ++ [q])] s' :=
  h.join_of_isTidy rfl fun hs row => isTidy_join_namespaceDefinition_body row (hi hs) hr hk

theorem join_namespaceUseDeclaration (hc : s.Sound → AllOf isSealed (p :: ps))
    (h : Took s (p :: ps) s') : Took s [Piece.join .namespaceUseDeclaration p ps] s' :=
  h.join_of_isTidy rfl fun hs row => isTidy_join_namespaceUseDeclaration row (hc hs)

end Took

theorem TookOpening.refl (s : Ahead) : TookOpening s [] s := ⟨.refl s, fun _ => opening_nil⟩

theorem TookOpening.append {s s₁ s₂ : Ahead} {ps qs : List Piece} (h : TookOpening s ps s₁)
    (h' : TookOpening s₁ qs s₂) : TookOpening s (ps ++ qs) s₂ :=
  ⟨h.1.append h'.1, fun hs => (h.2 hs).append (h'.2 (h.1 hs).2.1)⟩

namespace TookSealed

variable {s s' : Ahead} {k : Kind} {p : Piece} {ps : List Piece}

theorem refl (s : Ahead) : TookSealed s [] s := ⟨.refl s, fun _ => nofun⟩

theorem append {s₁ : Ahead} {qs : List Piece} (h : TookSealed s ps s₁) (h' : TookSealed s₁ qs s') :
    TookSealed s (ps ++ qs) s' :=
  ⟨h.1.append h'.1, fun hs => (allOf_append _ ps qs).2 ⟨h.2 hs, h'.2 (h.1 hs).2.1⟩⟩

theorem of_isInert (h : Took s [p] s') (hp : isInert p.tree) : TookSealed s [p] s' :=
  ⟨h, fun _ => (allOf_cons _ _ _).2 ⟨isSealed_of_isInert hp, nofun⟩⟩

@[grind ←] theorem join (hk : isClassLike k = false) (hf : isFree k)
    (h : TookSealed s (p :: ps) s') : TookSealed s [Piece.join k p ps] s' :=
  ⟨h.1.join hk hf, fun hs => (allOf_cons _ _ _).2 ⟨isSealed_join hk (h.1 hs).1.2 (h.2 hs), nofun⟩⟩

end TookSealed

namespace Piece

variable {t : Token} {k : Kind}

theorem from_ofToken {b : Nat} {ts : List Token} (h : Consecutive b (t :: ts))
    (hk : isClassLike k = false) : (ofToken t k).From b :=
  ⟨h.1, h.2.1.1, h.2.1.2, isOrderly_leaf rfl hk⟩

theorem isInert_ofToken (hk : isClassLike k = false) : isInert (ofToken t k).tree :=
  isInert_leaf rfl rfl hk

theorem opens_ofToken (hk : isClassLike k = false) (ht : t.text ≠ "") : (ofToken t k).Opens := by
  have size : t.text.utf8ByteSize ≠ 0 := fun h => ht (String.utf8ByteSize_eq_zero_iff.1 h)
  refine ⟨Nat.lt_add_of_pos_right (Nat.pos_of_ne_zero size), SyntaxTree.every_iff.2 ⟨?_, nofun⟩⟩
  have kind : (ofToken t k).tree.kind = k := rfl
  rw [kind, hk]
  rfl

end Piece

namespace Reader

/-- A triple speaks of all answers. -/
theorem triple_iff {α : Type} {r : Reader α} {s₀ : Ahead} {Q : α → Ahead → Prop} :
    ⦃fun s => ⌜s = s₀⌝⦄ r ⦃⇓? a s => ⌜Q a s⌝⦄ ↔ ∀ a s, r s₀ = some (a, s) → Q a s := by
  have run : (wp⟦r⟧ (PostCond.mayThrow fun a s => ⌜Q a s⌝) s₀).down ↔
      ∀ a s, r s₀ = some (a, s) → Q a s := by
    change (wp⟦r s₀⟧ (fun x => ⌜Q x.1 x.2⌝, ExceptConds.true)).down ↔ _
    cases r s₀ with
    | none => exact ⟨fun _ => nofun, fun _ => trivial⟩
    | some x => exact ⟨fun h a s e => by cases e; exact h, fun h => h x.1 x.2 rfl⟩
  rw [← run]
  exact ⟨fun h => h s₀ rfl, fun h s e => e ▸ h⟩

variable {s₀ : Ahead}

@[spec] theorem failure_spec {α : Type} {Q : PostCond α (.arg Ahead (.except PUnit .pure))} :
    ⦃fun _ => Q.2.1 ⟨⟩⦄ (failure : Reader α) ⦃Q⦄ := fun _ h => h

@[spec] theorem peek_spec : ⦃fun s => ⌜s = s₀⌝⦄ peek ⦃⇓? t s => ⌜s = s₀ ∧ t = s₀.next⌝⦄ := by
  mvcgen [peek]
  simp_all [Ahead.next]

@[spec] theorem peekSecond_spec : ⦃fun s => ⌜s = s₀⌝⦄ peekSecond ⦃⇓? _ s => ⌜s = s₀⌝⦄ := by
  mvcgen [peekSecond]

@[spec] theorem peekThird_spec : ⦃fun s => ⌜s = s₀⌝⦄ peekThird ⦃⇓? _ s => ⌜s = s₀⌝⦄ := by
  mvcgen [peekThird]

@[spec] theorem atEnd_spec : ⦃fun s => ⌜s = s₀⌝⦄ atEnd ⦃⇓? _ s => ⌜s = s₀⌝⦄ := by
  mvcgen [atEnd]
  grind

@[spec] theorem atKind_spec (k : LexemeKind) :
    ⦃fun s => ⌜s = s₀⌝⦄ atKind k ⦃⇓? _ s => ⌜s = s₀⌝⦄ := by
  mvcgen [atKind]
  grind

@[spec] theorem atMark_spec (m : String) :
    ⦃fun s => ⌜s = s₀⌝⦄ atMark m ⦃⇓? b s => ⌜s = s₀ ∧ (b → s₀.next.text = m)⌝⦄ := by
  mvcgen [atMark]
  grind [Token.isMark]

@[spec] theorem atWord_spec (ws : List String) :
    ⦃fun s => ⌜s = s₀⌝⦄ atWord ws
    ⦃⇓? b s => ⌜s = s₀ ∧ (b → "" ∉ ws → s₀.next.text ≠ "")⌝⦄ := by
  have lowered : "".map Char.toLower = "" := by simp
  mvcgen [atWord]
  grind [Token.isWord]

@[spec] theorem fault_spec : ⦃fun s => ⌜s = s₀⌝⦄ fault ⦃⇓? _ s => ⌜Took s₀ [] s⌝⦄ := by
  mvcgen [fault]
  subst_vars
  exact Took.refl _

/-- What is taken opens something, unless its text is empty. -/
@[spec] theorem leaf_spec {k : Kind} (hk : isClassLike k = false) :
    ⦃fun s => ⌜s = s₀⌝⦄ leaf k
    ⦃⇓? p s => ⌜Took s₀ [p] s ∧ (s₀.next.text ≠ "" → p.Opens) ∧ isInert p.tree⌝⦄ := by
  mvcgen [leaf]
  next s hs t ts tokens more =>
  subst hs
  refine ⟨fun hb => ?_, fun ht => Piece.opens_ofToken hk ?_, Piece.isInert_ofToken hk⟩
  · rw [Ahead.Sound, tokens] at hb
    have rest := hb.2.2.resolve_left (by simpa using more)
    exact ⟨⟨Piece.from_ofToken hb hk, row_nil _⟩, Ahead.sound_of_consecutive rest,
      Ahead.place_of_consecutive rest⟩
  · rwa [Ahead.next, tokens] at ht

@[spec] theorem token_spec :
    ⦃fun s => ⌜s = s₀⌝⦄ token
    ⦃⇓? p s => ⌜Took s₀ [p] s ∧ (s₀.next.text ≠ "" → p.Opens) ∧ isInert p.tree⌝⦄ := by
  mvcgen [token]
  -- rows are joined by the lemmas on `Row` and `endOf`, without arithmetic on bytes
  all_goals grind -linarith

@[spec] theorem mark_spec (m : String) :
    ⦃fun s => ⌜s = s₀⌝⦄ mark m ⦃⇓? p s => ⌜Took s₀ [p] s ∧ isInert p.tree⌝⦄ := by
  mvcgen [mark]
  all_goals grind -linarith

@[spec] theorem word_spec (ws : List String) :
    ⦃fun s => ⌜s = s₀⌝⦄ word ws ⦃⇓? p s => ⌜Took s₀ [p] s⌝⦄ := by
  mvcgen [word]
  all_goals grind -linarith

@[spec] theorem mark?_spec (m : String) :
    ⦃fun s => ⌜s = s₀⌝⦄ mark? m ⦃⇓? ps s => ⌜Took s₀ ps s ∧ AllOf isSealed ps⌝⦄ := by
  mvcgen [mark?]
  all_goals grind -linarith

@[spec] theorem word?_spec (ws : List String) :
    ⦃fun s => ⌜s = s₀⌝⦄ word? ws ⦃⇓? ps s => ⌜Took s₀ ps s⌝⦄ := by
  mvcgen [word?]
  all_goals grind -linarith

section Many

variable {R : Ahead → List Piece → Ahead → Prop}
  (append : ∀ {s s₁ s₂ ps qs}, R s ps s₁ → R s₁ qs s₂ → R s (ps ++ qs) s₂) (refl : ∀ s, R s [] s)

include append refl

section Answers

variable {α : Type} {f : α → List Piece} {r : Reader (Option α)}
  (hr : ∀ s₁, ⦃fun s => ⌜s = s₁⌝⦄ r ⦃⇓? o s => ⌜R s₁ (o.elim [] f) s⌝⦄)

include hr

/-- A relation that holds of each answer and of its absence, and carries over from one answer to the
next, holds of all. -/
theorem many_go_spec (n : Nat) {s₁ : Ahead} :
    ⦃fun s => ⌜s = s₁⌝⦄ many.go r n ⦃⇓? as s => ⌜R s₁ (as.flatMap f) s⌝⦄ := by
  induction n generalizing s₁ with
  | zero =>
    mvcgen [many.go]
    simp_all
  | succ n ih =>
    mvcgen [many.go, hr, ih]
    · simp_all
    · next hs _ _ _ _ first _ _ rest =>
      subst hs
      exact append first rest

theorem many_spec_of :
    ⦃fun s => ⌜s = s₀⌝⦄ many r ⦃⇓? as s => ⌜R s₀ (as.flatMap f) s⌝⦄ := by
  have go := many_go_spec append refl hr
  mvcgen [many, go]

end Answers

theorem many_toList_spec {r : Reader (Option Piece)}
    (hr : ∀ s₁, ⦃fun s => ⌜s = s₁⌝⦄ r ⦃⇓? p s => ⌜R s₁ p.toList s⌝⦄) :
    ⦃fun s => ⌜s = s₀⌝⦄ many r ⦃⇓? ps s => ⌜R s₀ ps s⌝⦄ := by
  have many {s₁ : Ahead} := @many_spec_of s₁ R append refl _ (fun p => [p]) r
  mvcgen [hr, many]
  · simp_all
  · next o _ => cases o <;> simp_all

theorem many_flatten_spec {r : Reader (Option (List Piece))}
    (hr : ∀ s₁, ⦃fun s => ⌜s = s₁⌝⦄ r ⦃⇓? ps s => ⌜R s₁ (ps.getD []) s⌝⦄) :
    ⦃fun s => ⌜s = s₀⌝⦄ many r ⦃⇓? pss s => ⌜R s₀ pss.flatten s⌝⦄ := by
  have many {s₁ : Ahead} := @many_spec_of s₁ R append refl _ (fun ps => ps) r
  mvcgen [hr, many]
  · simp_all
  · next o _ => cases o <;> simp_all

section Lists

variable {item : Reader (List Piece)}
  (single : ∀ {s p s'}, Took s [p] s' → isInert p.tree → R s [p] s')
  (hi : ∀ s₁, ⦃fun s => ⌜s = s₁⌝⦄ item ⦃⇓? ps s => ⌜R s₁ ps s⌝⦄)

include single hi

theorem separated_spec_of (stop : String) :
    ⦃fun s => ⌜s = s₀⌝⦄ separated stop item ⦃⇓? ps s => ⌜R s₀ ps s⌝⦄ := by
  have many {s₁ : Ahead} {r} := @many_flatten_spec s₁ R append refl r
  mvcgen [separated, hi, many]
  all_goals grind -linarith

theorem listed_spec_of (sep : String) :
    ⦃fun s => ⌜s = s₀⌝⦄ listed sep item ⦃⇓? ps s => ⌜R s₀ ps s⌝⦄ := by
  have many {s₁ : Ahead} {r} := @many_flatten_spec s₁ R append refl r
  mvcgen [listed, hi, many]
  all_goals grind -linarith

end Lists

end Many

@[spec] theorem many_pieces_spec {r : Reader (Option Piece)}
    (hr : ∀ s₁, ⦃fun s => ⌜s = s₁⌝⦄ r ⦃⇓? p s => ⌜Took s₁ p.toList s⌝⦄) :
    ⦃fun s => ⌜s = s₀⌝⦄ many r ⦃⇓? ps s => ⌜Took s₀ ps s⌝⦄ :=
  many_toList_spec Took.append Took.refl hr

theorem many_opening_spec {r : Reader (Option Piece)}
    (hr : ∀ s₁, ⦃fun s => ⌜s = s₁⌝⦄ r ⦃⇓? p s => ⌜TookOpening s₁ p.toList s⌝⦄) :
    ⦃fun s => ⌜s = s₀⌝⦄ many r ⦃⇓? ps s => ⌜TookOpening s₀ ps s⌝⦄ :=
  many_toList_spec TookOpening.append TookOpening.refl hr

@[spec] theorem many_lists_spec {r : Reader (Option (List Piece))}
    (hr : ∀ s₁, ⦃fun s => ⌜s = s₁⌝⦄ r ⦃⇓? ps s => ⌜Took s₁ (ps.getD []) s⌝⦄) :
    ⦃fun s => ⌜s = s₀⌝⦄ many r ⦃⇓? pss s => ⌜Took s₀ pss.flatten s⌝⦄ :=
  many_flatten_spec Took.append Took.refl hr

theorem many_sealed_spec {r : Reader (Option (List Piece))}
    (hr : ∀ s₁, ⦃fun s => ⌜s = s₁⌝⦄ r ⦃⇓? ps s => ⌜TookSealed s₁ (ps.getD []) s⌝⦄) :
    ⦃fun s => ⌜s = s₀⌝⦄ many r ⦃⇓? pss s => ⌜TookSealed s₀ pss.flatten s⌝⦄ :=
  many_flatten_spec TookSealed.append TookSealed.refl hr

section Taken

variable {item : Reader (List Piece)}
  (hi : ∀ s₁, ⦃fun s => ⌜s = s₁⌝⦄ item ⦃⇓? ps s => ⌜Took s₁ ps s⌝⦄)

include hi

@[spec] theorem separated_spec (stop : String) :
    ⦃fun s => ⌜s = s₀⌝⦄ separated stop item ⦃⇓? ps s => ⌜Took s₀ ps s⌝⦄ :=
  separated_spec_of Took.append Took.refl (fun h _ => h) hi stop

@[spec] theorem spaced_spec (stop : String) :
    ⦃fun s => ⌜s = s₀⌝⦄ spaced stop item ⦃⇓? ps s => ⌜Took s₀ ps s⌝⦄ := by
  mvcgen [spaced, hi]
  all_goals grind -linarith

@[spec] theorem listed_spec (sep : String) :
    ⦃fun s => ⌜s = s₀⌝⦄ listed sep item ⦃⇓? ps s => ⌜Took s₀ ps s⌝⦄ :=
  listed_spec_of Took.append Took.refl (fun h _ => h) hi sep

end Taken

section TakenSealed

variable {item : Reader (List Piece)}
  (hi : ∀ s₁, ⦃fun s => ⌜s = s₁⌝⦄ item ⦃⇓? ps s => ⌜TookSealed s₁ ps s⌝⦄)

include hi

theorem separated_sealed_spec (stop : String) :
    ⦃fun s => ⌜s = s₀⌝⦄ separated stop item ⦃⇓? ps s => ⌜TookSealed s₀ ps s⌝⦄ :=
  separated_spec_of TookSealed.append TookSealed.refl TookSealed.of_isInert hi stop

theorem listed_sealed_spec (sep : String) :
    ⦃fun s => ⌜s = s₀⌝⦄ listed sep item ⦃⇓? ps s => ⌜TookSealed s₀ ps s⌝⦄ :=
  listed_spec_of TookSealed.append TookSealed.refl TookSealed.of_isInert hi sep

end TakenSealed

section Attempt

variable {R : Ahead → List Piece → Ahead → Prop} (refl : ∀ s, R s [] s)

include refl

theorem attempt_spec_of {α : Type} {f : α → List Piece} {r : Reader α}
    (hr : ⦃fun s => ⌜s = s₀⌝⦄ r ⦃⇓? a s => ⌜R s₀ (f a) s⌝⦄) :
    ⦃fun s => ⌜s = s₀⌝⦄ attempt r
    ⦃⇓? o s => ⌜R s₀ (o.elim [] f) s ∧ (o = none → s = s₀)⌝⦄ := by
  rw [triple_iff] at hr ⊢
  intro o s h
  rw [attempt] at h
  cases hs : r s₀ with
  | none =>
    rw [hs] at h
    cases h
    exact ⟨refl s₀, fun _ => rfl⟩
  | some x =>
    rw [hs] at h
    cases h
    exact ⟨hr _ _ hs, nofun⟩

theorem attempt_getD_spec {r : Reader (List Piece)}
    (hr : ⦃fun s => ⌜s = s₀⌝⦄ r ⦃⇓? ps s => ⌜R s₀ ps s⌝⦄) :
    ⦃fun s => ⌜s = s₀⌝⦄ attempt r
    ⦃⇓? ps s => ⌜R s₀ (ps.getD []) s ∧ (ps = none → s = s₀)⌝⦄ := by
  have attempt := attempt_spec_of (f := fun ps => ps) refl hr
  mvcgen [attempt]
  next o _ => cases o <;> simp_all

end Attempt

@[spec] theorem attempt_piece_spec {r : Reader Piece}
    (hr : ⦃fun s => ⌜s = s₀⌝⦄ r ⦃⇓? p s => ⌜Took s₀ [p] s⌝⦄) :
    ⦃fun s => ⌜s = s₀⌝⦄ attempt r ⦃⇓? p s => ⌜Took s₀ p.toList s ∧ (p = none → s = s₀)⌝⦄ := by
  have attempt := attempt_spec_of Took.refl hr
  mvcgen [attempt]
  next o _ => cases o <;> grind -linarith

@[spec] theorem attempt_pieces_spec {r : Reader (List Piece)}
    (hr : ⦃fun s => ⌜s = s₀⌝⦄ r ⦃⇓? ps s => ⌜Took s₀ ps s⌝⦄) :
    ⦃fun s => ⌜s = s₀⌝⦄ attempt r
    ⦃⇓? ps s => ⌜Took s₀ (ps.getD []) s ∧ (ps = none → s = s₀)⌝⦄ :=
  attempt_getD_spec Took.refl hr

theorem attempt_sealed_spec {r : Reader (List Piece)}
    (hr : ⦃fun s => ⌜s = s₀⌝⦄ r ⦃⇓? ps s => ⌜TookSealed s₀ ps s⌝⦄) :
    ⦃fun s => ⌜s = s₀⌝⦄ attempt r
    ⦃⇓? ps s => ⌜TookSealed s₀ (ps.getD []) s ∧ (ps = none → s = s₀)⌝⦄ :=
  attempt_getD_spec TookSealed.refl hr

end Reader

end ContainerAliases.Source
