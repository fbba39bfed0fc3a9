import ContainerAliases.Proofs.Source.Grammar.Statement

set_option mvcgen.warning false

namespace ContainerAliases.Source

open Std.Do Classes

namespace Token

theorem isClassLike_of_triviaKind {l : LexemeKind} {k : Kind} (h : triviaKind l = some k) :
    isClassLike k = false := by
  cases l <;> simp only [triviaKind, Option.some.injEq, reduceCtorEq] at h <;> exact h ▸ rfl

/-- The token under construction begins, with what stands before it, at byte `b`. -/
structure Front.From (f : Front) (b : Nat) : Prop where
  start : f.start = b + (String.ofList f.lead).utf8ByteSize
  trivia : InRow b f.start f.trivia
  inert : ∀ t ∈ f.trivia, isInert t

theorem Front.from_at (b line : Nat) : (Front.at b line).From b :=
  ⟨by simp [Front.at], .nil (Nat.le_refl b), nofun⟩

theorem Front.From.skip {f : Front} {b : Nat} (h : f.From b) (l : Lexeme) : (f.skip l).From b := by
  constructor
  · have start := h.start
    simp only [Front.skip, String.ofList_append, String.utf8ByteSize_append]
    omega
  · simp only [Front.skip]
    split
    · next k hk =>
      exact h.trivia.append (.singleton (Nat.le_refl _)
        (isOrderly_leaf rfl (isClassLike_of_triviaKind hk)))
    · have gap := InRow.nil (Nat.le_add_right f.start (String.ofList l.chars).utf8ByteSize)
      simpa using h.trivia.append gap
  · simp only [Front.skip]
    split
    · next k hk =>
      exact List.forall_mem_append.2 ⟨h.inert, List.forall_mem_singleton.2
        (isInert_leaf rfl rfl (isClassLike_of_triviaKind hk))⟩
    · simpa using h.inert

theorem consecutive_ofLexemes {f : Front} {b : Nat} (h : f.From b) (ls : List Lexeme) :
    Consecutive b (ofLexemes f ls) := by
  induction ls generalizing f b with
  | nil => exact ⟨h.start, ⟨h.trivia, h.inert⟩, .inl rfl⟩
  | cons l ls ih =>
    rw [ofLexemes]
    split
    · exact ih (h.skip l)
    · exact ⟨h.start, ⟨h.trivia, h.inert⟩, .inr (ih (Front.from_at _ _))⟩

theorem consecutive_ofFile (source : String) : Consecutive 0 (ofFile source) :=
  consecutive_ofLexemes (Front.from_at 0 0) _

end Token

theorem statements_trivia_spec {r : Grammar.Rules} (hr : r.Sound) {s₀ : Ahead} :
    ⦃fun s => ⌜s = s₀⌝⦄
    (do
      let ps ← Grammar.statements r fun _ => false
      return (ps, (← Reader.peek).trivia) : Reader (List Piece × List SyntaxTree))
    ⦃⇓? x s => ⌜Took s₀ x.1 s ∧ x.2 = s.next.trivia⌝⦄ := by
  mvcgen
  grind

theorem kind_parse (source : String) : (parse source).tree.kind = .program := by
  simp only [parse]
  split <;> rfl

/-- The nodes at the top of a file stand one after the other, and so do those below each of them. -/
theorem inRow_parse (source : String) : ∃ e, InRow 0 e (parse source).tree.children := by
  simp only [parse]
  split
  · next ps trivia s h =>
    have all := Reader.triple_iff.1 (statements_trivia_spec (Grammar.sound_rules _)) _ _ h
    have tokens := Token.consecutive_ofFile source
    obtain ⟨row, sound, place⟩ := all.1 (Ahead.sound_of_consecutive tokens)
    have start (faulty : Bool) : Ahead.place ⟨Token.ofFile source, faulty⟩ = 0 :=
      Ahead.place_of_consecutive tokens
    rw [start] at row place
    rw [show trivia = s.next.trivia from all.2]
    cases ts : s.tokens with
    | nil => simp [Ahead.Sound, ts, Consecutive] at sound
    | cons t ts' =>
      rw [Ahead.Sound, ts, place] at sound
      rw [Ahead.next, ts, List.headD_cons]
      exact ⟨t.start, (inRow_treesOf row).append sound.2.1.1⟩
  · exact ⟨0, .nil (Nat.le_refl 0)⟩

end ContainerAliases.Source
