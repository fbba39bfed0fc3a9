import ContainerAliases.Proofs.Source.Reads
import ContainerAliases.Source.Grammar.Rules

set_option mvcgen.warning false

namespace ContainerAliases.Source.Grammar

open Std.Do Classes Reader

variable {s₀ : Ahead} {r : Rules}

/-- The two rules answer with what they have read. -/
structure Rules.Sound (r : Rules) : Prop where
  expression (least : Strength) {s₀ : Ahead} :
    ⦃fun s => ⌜s = s₀⌝⦄ r.expression least ⦃⇓? p s => ⌜Took s₀ [p] s⌝⦄
  statement {s₀ : Ahead} : ⦃fun s => ⌜s = s₀⌝⦄ r.statement ⦃⇓? p s => ⌜Took s₀ [p] s⌝⦄

@[spec] theorem Rules.expression_spec (hr : r.Sound) (least : Strength) :
    ⦃fun s => ⌜s = s₀⌝⦄ r.expression least ⦃⇓? p s => ⌜Took s₀ [p] s⌝⦄ := hr.expression least

@[spec] theorem Rules.statement_spec (hr : r.Sound) :
    ⦃fun s => ⌜s = s₀⌝⦄ r.statement ⦃⇓? p s => ⌜Took s₀ [p] s⌝⦄ := hr.statement

@[spec] theorem Rules.value_spec (hr : r.Sound) :
    ⦃fun s => ⌜s = s₀⌝⦄ r.value ⦃⇓? p s => ⌜Took s₀ [p] s⌝⦄ := hr.expression _

@[grind =] theorem other_eq (name : String) (p : Piece) (ps : List Piece) :
    other name p ps = Piece.join (.other name) p ps := rfl

@[spec] theorem identifier_spec :
    ⦃fun s => ⌜s = s₀⌝⦄ identifier ⦃⇓? p s => ⌜Took s₀ [p] s ∧ isInert p.tree⌝⦄ := by
  mvcgen [identifier]
  all_goals grind -linarith

@[spec] theorem nameTail_spec :
    ⦃fun s => ⌜s = s₀⌝⦄ nameTail ⦃⇓? ps s => ⌜TookSealed s₀ ps s⌝⦄ := by
  mvcgen [nameTail, many_sealed_spec, -many_lists_spec]
  all_goals grind -linarith

@[spec] theorem nameReference_spec :
    ⦃fun s => ⌜s = s₀⌝⦄ nameReference ⦃⇓? p s => ⌜TookSealed s₀ [p] s⌝⦄ := by
  mvcgen [nameReference]
  all_goals grind -linarith

@[spec] theorem namespaceName_spec :
    ⦃fun s => ⌜s = s₀⌝⦄ namespaceName ⦃⇓? p s => ⌜TookSealed s₀ [p] s⌝⦄ := by
  mvcgen [namespaceName]
  all_goals grind -linarith

@[spec] theorem atTypeAnd_spec : ⦃fun s => ⌜s = s₀⌝⦄ atTypeAnd ⦃⇓? _ s => ⌜s = s₀⌝⦄ := by
  mvcgen [atTypeAnd]
  all_goals grind -linarith

theorem typeParts_and_typeEnd_spec (n : Nat) :
    (∀ {s₀ depth}, ⦃fun s => ⌜s = s₀⌝⦄ typeParts n depth ⦃⇓? ps s => ⌜Took s₀ ps s⌝⦄) ∧
      ∀ {s₀ depth}, ⦃fun s => ⌜s = s₀⌝⦄ typeParts.typeEnd n depth ⦃⇓? ps s => ⌜Took s₀ ps s⌝⦄ := by
  induction n with
  | zero =>
    constructor
    · intro s₀ depth
      mvcgen [typeParts]
    · intro s₀ depth
      mvcgen [typeParts.typeEnd]
      grind -linarith
  | succ n ih =>
    obtain ⟨parts, rest⟩ := ih
    constructor
    · intro s₀ depth
      mvcgen [typeParts, parts, rest]
      all_goals grind -linarith
    · intro s₀ depth
      mvcgen [typeParts.typeEnd, parts, rest]
      all_goals grind -linarith

@[spec] theorem typeParts_spec (n depth : Nat) :
    ⦃fun s => ⌜s = s₀⌝⦄ typeParts n depth ⦃⇓? ps s => ⌜Took s₀ ps s⌝⦄ :=
  (typeParts_and_typeEnd_spec n).1

@[spec] theorem type_spec : ⦃fun s => ⌜s = s₀⌝⦄ type ⦃⇓? p s => ⌜Took s₀ [p] s⌝⦄ := by
  mvcgen [type]
  all_goals grind -linarith

@[spec] theorem type?_spec : ⦃fun s => ⌜s = s₀⌝⦄ type? ⦃⇓? ps s => ⌜Took s₀ ps s⌝⦄ := by
  mvcgen [type?]
  all_goals grind -linarith

@[spec] theorem returnType?_spec : ⦃fun s => ⌜s = s₀⌝⦄ returnType? ⦃⇓? ps s => ⌜Took s₀ ps s⌝⦄ := by
  mvcgen [returnType?]
  all_goals grind -linarith

@[spec] theorem semicolon_spec :
    ⦃fun s => ⌜s = s₀⌝⦄ semicolon ⦃⇓? ps s => ⌜Took s₀ ps s ∧ AllOf isInert ps⌝⦄ := by
  mvcgen [semicolon]
  all_goals grind -linarith

@[spec] theorem atStatementEnd_spec : ⦃fun s => ⌜s = s₀⌝⦄ atStatementEnd ⦃⇓? _ s => ⌜s = s₀⌝⦄ := by
  mvcgen [atStatementEnd]
  all_goals grind -linarith

@[spec] theorem closingBrace_spec :
    ⦃fun s => ⌜s = s₀⌝⦄ closingBrace ⦃⇓? ps s => ⌜Took s₀ ps s⌝⦄ := by
  mvcgen [closingBrace]
  all_goals grind -linarith

@[spec] theorem stray_spec : ⦃fun s => ⌜s = s₀⌝⦄ stray ⦃⇓? p s => ⌜Took s₀ [p] s⌝⦄ := by
  mvcgen [stray]
  all_goals grind -linarith

@[spec] theorem statements_spec (hr : r.Sound) (stop : Token → Bool) :
    ⦃fun s => ⌜s = s₀⌝⦄ statements r stop ⦃⇓? ps s => ⌜Took s₀ ps s⌝⦄ := by
  mvcgen [statements]
  all_goals grind -linarith

@[spec] theorem block_spec (hr : r.Sound) :
    ⦃fun s => ⌜s = s₀⌝⦄ block r
    ⦃⇓? p s => ⌜Took s₀ [p] s ∧ isClassLike p.tree.kind = false⌝⦄ := by
  mvcgen [block]
  all_goals grind -linarith

end ContainerAliases.Source.Grammar
