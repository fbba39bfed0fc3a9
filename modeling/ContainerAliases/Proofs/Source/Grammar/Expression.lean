import ContainerAliases.Proofs.Source.Grammar.Members
import ContainerAliases.Source.Grammar.Expression

set_option mvcgen.warning false

namespace ContainerAliases.Source.Grammar

open Std.Do Classes Reader

variable {s₀ : Ahead} {r : Rules}

@[spec] theorem elements_spec (hr : r.Sound) (close : String) :
    ⦃fun s => ⌜s = s₀⌝⦄ elements r close ⦃⇓? ps s => ⌜Took s₀ ps s⌝⦄ := by
  mvcgen [elements]
  all_goals grind -linarith

@[spec] theorem shortArray_spec (hr : r.Sound) :
    ⦃fun s => ⌜s = s₀⌝⦄ shortArray r ⦃⇓? p s => ⌜Took s₀ [p] s⌝⦄ := by
  mvcgen [shortArray]
  all_goals grind -linarith

@[spec] theorem longArray_spec (hr : r.Sound) :
    ⦃fun s => ⌜s = s₀⌝⦄ longArray r ⦃⇓? p s => ⌜Took s₀ [p] s⌝⦄ := by
  mvcgen [longArray]
  all_goals grind -linarith

@[spec] theorem listPattern_spec (hr : r.Sound) :
    ⦃fun s => ⌜s = s₀⌝⦄ listPattern r ⦃⇓? p s => ⌜Took s₀ [p] s⌝⦄ := by
  mvcgen [listPattern]
  all_goals grind -linarith

@[spec] theorem closureUses_spec (hr : r.Sound) :
    ⦃fun s => ⌜s = s₀⌝⦄ closureUses r ⦃⇓? ps s => ⌜Took s₀ ps s⌝⦄ := by
  mvcgen [closureUses]
  all_goals grind -linarith

@[spec] theorem closure_spec (hr : r.Sound) (front : List Piece) :
    ⦃fun s => ⌜s = s₀⌝⦄ closure r front ⦃⇓? p s => ⌜∀ s₁, Took s₁ front s₀ → Took s₁ [p] s⌝⦄ := by
  mvcgen [closure]
  all_goals grind -linarith

@[spec] theorem memberName_spec (hr : r.Sound) :
    ⦃fun s => ⌜s = s₀⌝⦄ memberName r ⦃⇓? ps s => ⌜Took s₀ ps s⌝⦄ := by
  mvcgen [memberName]
  all_goals grind -linarith

@[spec] theorem dynamicVariable_spec (hr : r.Sound) :
    ⦃fun s => ⌜s = s₀⌝⦄ dynamicVariable r ⦃⇓? p s => ⌜Took s₀ [p] s⌝⦄ := by
  mvcgen [dynamicVariable]
  all_goals grind -linarith

@[spec] theorem newTarget_spec (hr : r.Sound) :
    ⦃fun s => ⌜s = s₀⌝⦄ newTarget r ⦃⇓? ps s => ⌜Took s₀ ps s⌝⦄ := by
  mvcgen [newTarget]
  all_goals grind -linarith

@[spec] theorem yieldOperand_spec (hr : r.Sound) :
    ⦃fun s => ⌜s = s₀⌝⦄ yieldOperand r ⦃⇓? ps s => ⌜Took s₀ ps s⌝⦄ := by
  mvcgen [yieldOperand]
  all_goals grind -linarith

@[spec] theorem arms_spec (hr : r.Sound) :
    ⦃fun s => ⌜s = s₀⌝⦄ arms r ⦃⇓? p s => ⌜Took s₀ [p] s⌝⦄ := by
  mvcgen [arms]
  all_goals grind -linarith

@[spec] theorem keywordExpression_spec (hr : r.Sound) (t next : Token) :
    ⦃fun s => ⌜s = s₀⌝⦄ keywordExpression r t next
    ⦃⇓? p s => ⌜Took s₀ p.toList s ∧ (p = none → s = s₀)⌝⦄ := by
  mvcgen [keywordExpression]
  all_goals grind -linarith

@[spec] theorem primary_spec (hr : r.Sound) :
    ⦃fun s => ⌜s = s₀⌝⦄ primary r ⦃⇓? p s => ⌜Took s₀ [p] s⌝⦄ := by
  mvcgen [primary]
  all_goals grind -linarith

@[spec] theorem suffixes_spec (hr : r.Sound) (n : Nat) (p : Piece) :
    ⦃fun s => ⌜s = s₀⌝⦄ suffixes r n p
    ⦃⇓? q s => ⌜∀ s₁, Took s₁ [p] s₀ → Took s₁ [q] s⌝⦄ := by
  induction n generalizing s₀ p with
  | zero =>
    mvcgen [suffixes]
    all_goals grind -linarith
  | succ n ih =>
    mvcgen [suffixes, ih]
    all_goals grind -linarith

@[spec] theorem assignmentTail_spec (hr : r.Sound) (p : Piece) :
    ⦃fun s => ⌜s = s₀⌝⦄ assignmentTail r p ⦃⇓? q s => ⌜∀ s₁, Took s₁ [p] s₀ → Took s₁ [q] s⌝⦄ := by
  mvcgen [assignmentTail]
  all_goals grind -linarith

@[spec] theorem operand_spec (hr : r.Sound) :
    ⦃fun s => ⌜s = s₀⌝⦄ operand r ⦃⇓? p s => ⌜Took s₀ [p] s⌝⦄ := by
  mvcgen [operand]
  all_goals grind -linarith

@[spec] theorem climb_spec (hr : r.Sound) (least : Strength) (n : Nat) (p : Piece) :
    ⦃fun s => ⌜s = s₀⌝⦄ climb r least n p
    ⦃⇓? q s => ⌜∀ s₁, Took s₁ [p] s₀ → Took s₁ [q] s⌝⦄ := by
  induction n generalizing s₀ p with
  | zero =>
    mvcgen [climb]
    all_goals grind -linarith
  | succ n ih =>
    mvcgen [climb, ih]
    all_goals grind -linarith

@[spec] theorem expression_spec (hr : r.Sound) (least : Strength) :
    ⦃fun s => ⌜s = s₀⌝⦄ expression r least ⦃⇓? p s => ⌜Took s₀ [p] s⌝⦄ := by
  mvcgen [expression]
  all_goals grind -linarith

end ContainerAliases.Source.Grammar
