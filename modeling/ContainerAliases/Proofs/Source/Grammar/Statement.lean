import ContainerAliases.Proofs.Source.Grammar.Expression
import ContainerAliases.Source.Grammar.Statement

set_option mvcgen.warning false

namespace ContainerAliases.Source.Grammar

open Std.Do Classes Reader

variable {s₀ : Ahead} {r : Rules}

/-- Pieces that were read become one. A declaration has to begin with something of its own. -/
@[spec] theorem built_spec {k : Kind} (hf : isFree k) (ps : List Piece) :
    ⦃fun s => ⌜s = s₀⌝⦄ built k ps
    ⦃⇓? p s =>
      ⌜(∀ s₁, Took s₁ ps s₀ → (isClassLike k → s₁.Sound → Opening ps) → Took s₁ [p] s) ∧
        ∀ s₁, TookSealed s₁ ps s₀ → isClassLike k = false → TookSealed s₁ [p] s⌝⦄ := by
  mvcgen [built]
  all_goals grind -linarith [Took.join_of_opening]

@[spec] theorem builtOther_spec (name : String) (ps : List Piece) :
    ⦃fun s => ⌜s = s₀⌝⦄ builtOther name ps
    ⦃⇓? p s => ⌜∀ s₁, Took s₁ ps s₀ → Took s₁ [p] s⌝⦄ := by
  mvcgen [builtOther]
  all_goals grind -linarith

@[spec] theorem condition_spec (hr : r.Sound) :
    ⦃fun s => ⌜s = s₀⌝⦄ condition r ⦃⇓? p s => ⌜Took s₀ [p] s⌝⦄ := by
  mvcgen [condition]
  all_goals grind -linarith

@[spec] theorem expressionList_spec (hr : r.Sound) :
    ⦃fun s => ⌜s = s₀⌝⦄ expressionList r ⦃⇓? ps s => ⌜Took s₀ ps s⌝⦄ := by
  mvcgen [expressionList]
  all_goals grind -linarith

@[spec] theorem branch_spec (hr : r.Sound) (ends : List String) :
    ⦃fun s => ⌜s = s₀⌝⦄ branch r ends ⦃⇓? b s => ⌜Took s₀ b.2 s⌝⦄ := by
  mvcgen [branch]
  all_goals grind -linarith

@[spec] theorem closedBranch_spec (hr : r.Sound) (last : String) :
    ⦃fun s => ⌜s = s₀⌝⦄ closedBranch r last ⦃⇓? ps s => ⌜Took s₀ ps s⌝⦄ := by
  mvcgen [closedBranch]
  all_goals grind -linarith

@[spec] theorem ifStatement_spec (hr : r.Sound) :
    ⦃fun s => ⌜s = s₀⌝⦄ ifStatement r ⦃⇓? p s => ⌜Took s₀ [p] s⌝⦄ := by
  mvcgen [ifStatement]
  all_goals grind -linarith

@[spec] theorem whileStatement_spec (hr : r.Sound) :
    ⦃fun s => ⌜s = s₀⌝⦄ whileStatement r ⦃⇓? p s => ⌜Took s₀ [p] s⌝⦄ := by
  mvcgen [whileStatement]
  all_goals grind -linarith

@[spec] theorem doStatement_spec (hr : r.Sound) :
    ⦃fun s => ⌜s = s₀⌝⦄ doStatement r ⦃⇓? p s => ⌜Took s₀ [p] s⌝⦄ := by
  mvcgen [doStatement]
  all_goals grind -linarith

@[spec] theorem forStatement_spec (hr : r.Sound) :
    ⦃fun s => ⌜s = s₀⌝⦄ forStatement r ⦃⇓? p s => ⌜Took s₀ [p] s⌝⦄ := by
  mvcgen [forStatement]
  all_goals grind -linarith

@[spec] theorem foreachTarget_spec (hr : r.Sound) :
    ⦃fun s => ⌜s = s₀⌝⦄ foreachTarget r ⦃⇓? p s => ⌜Took s₀ [p] s⌝⦄ := by
  mvcgen [foreachTarget]
  all_goals grind -linarith

@[spec] theorem foreachStatement_spec (hr : r.Sound) :
    ⦃fun s => ⌜s = s₀⌝⦄ foreachStatement r ⦃⇓? p s => ⌜Took s₀ [p] s⌝⦄ := by
  mvcgen [foreachStatement]
  all_goals grind -linarith

@[spec] theorem switchCase_spec (hr : r.Sound) :
    ⦃fun s => ⌜s = s₀⌝⦄ switchCase r ⦃⇓? p s => ⌜Took s₀ [p] s⌝⦄ := by
  mvcgen [switchCase]
  all_goals grind -linarith

@[spec] theorem switchStatement_spec (hr : r.Sound) :
    ⦃fun s => ⌜s = s₀⌝⦄ switchStatement r ⦃⇓? p s => ⌜Took s₀ [p] s⌝⦄ := by
  mvcgen [switchStatement]
  all_goals grind -linarith

@[spec] theorem tryStatement_spec (hr : r.Sound) :
    ⦃fun s => ⌜s = s₀⌝⦄ tryStatement r ⦃⇓? p s => ⌜Took s₀ [p] s⌝⦄ := by
  mvcgen [tryStatement]
  all_goals grind -linarith

@[spec] theorem declareStatement_spec (hr : r.Sound) :
    ⦃fun s => ⌜s = s₀⌝⦄ declareStatement r ⦃⇓? p s => ⌜Took s₀ [p] s⌝⦄ := by
  mvcgen [declareStatement]
  all_goals grind -linarith

@[spec] theorem jump_spec (hr : r.Sound) (name : String) :
    ⦃fun s => ⌜s = s₀⌝⦄ jump r name ⦃⇓? p s => ⌜Took s₀ [p] s⌝⦄ := by
  mvcgen [jump]
  all_goals grind -linarith

@[spec] theorem listStatement_spec (hr : r.Sound) (name : String) :
    ⦃fun s => ⌜s = s₀⌝⦄ listStatement r name ⦃⇓? p s => ⌜Took s₀ [p] s⌝⦄ := by
  mvcgen [listStatement]
  all_goals grind -linarith

@[spec] theorem staticStatement_spec (hr : r.Sound) :
    ⦃fun s => ⌜s = s₀⌝⦄ staticStatement r ⦃⇓? p s => ⌜Took s₀ [p] s⌝⦄ := by
  mvcgen [staticStatement]
  all_goals grind -linarith

@[spec] theorem gotoStatement_spec :
    ⦃fun s => ⌜s = s₀⌝⦄ gotoStatement ⦃⇓? p s => ⌜Took s₀ [p] s⌝⦄ := by
  mvcgen [gotoStatement]
  all_goals grind -linarith

@[spec] theorem namespaceStatement_spec (hr : r.Sound) :
    ⦃fun s => ⌜s = s₀⌝⦄ namespaceStatement r ⦃⇓? p s => ⌜Took s₀ [p] s⌝⦄ := by
  mvcgen [namespaceStatement]
  all_goals grind -linarith [Took.join_namespaceDefinition, Took.join_namespaceDefinition_body]

@[spec] theorem importAlias_spec :
    ⦃fun s => ⌜s = s₀⌝⦄ importAlias ⦃⇓? ps s => ⌜TookSealed s₀ ps s⌝⦄ := by
  mvcgen [importAlias]
  all_goals grind -linarith

@[spec] theorem importClause.namespaceNameOrName_spec :
    ⦃fun s => ⌜s = s₀⌝⦄ importClause.namespaceNameOrName ⦃⇓? p s => ⌜TookSealed s₀ [p] s⌝⦄ := by
  mvcgen [importClause.namespaceNameOrName]
  all_goals grind -linarith

@[spec] theorem importClause_spec (grouped : Bool) :
    ⦃fun s => ⌜s = s₀⌝⦄ importClause grouped ⦃⇓? p s => ⌜TookSealed s₀ [p] s⌝⦄ := by
  mvcgen [importClause]
  all_goals grind -linarith

@[spec] theorem importGroup_spec :
    ⦃fun s => ⌜s = s₀⌝⦄ importGroup ⦃⇓? ps s => ⌜TookSealed s₀ ps s⌝⦄ := by
  mvcgen [importGroup, separated_sealed_spec, -separated_spec]
  · grind -linarith
  · next s₁ _ o _ _ ps _ _ _ _ c _ s _ =>
    have taken : TookSealed s₁ (o :: (ps ++ [c])) s := by grind -linarith
    have group : TookSealed s₁ [Piece.join .namespaceUseGroup o (ps ++ [c])] s := taken.join rfl rfl
    grind -linarith

@[spec] theorem useStatement_spec :
    ⦃fun s => ⌜s = s₀⌝⦄ useStatement r ⦃⇓? p s => ⌜Took s₀ [p] s⌝⦄ := by
  mvcgen [useStatement, attempt_sealed_spec, listed_sealed_spec, -attempt_pieces_spec, -listed_spec]
  all_goals grind -linarith [Took.join_namespaceUseDeclaration]

@[spec] theorem functionStatement_spec (hr : r.Sound) (front : List Piece) :
    ⦃fun s => ⌜s = s₀⌝⦄ functionStatement r front
    ⦃⇓? p s => ⌜∀ s₁, Took s₁ front s₀ → Took s₁ [p] s⌝⦄ := by
  mvcgen [functionStatement]
  all_goals grind -linarith

/-- A class begins with its attributes, its modifiers or its keyword. -/
@[spec] theorem classStatement_spec (hr : r.Sound) (front : List Piece) :
    ⦃fun s => ⌜s = s₀⌝⦄ classStatement r front
    ⦃⇓? p s => ⌜∀ s₁, TookOpening s₁ front s₀ → Took s₁ [p] s⌝⦄ := by
  mvcgen [classStatement]
  -- of classes and interfaces, what stands before the name has to open them
  case vc2 | vc5 =>
    intro built _ s₁ taken
    refine built s₁ ?_ fun _ _ => ?_ <;> clear built <;> grind -linarith
  all_goals grind -linarith

@[spec] theorem expressionStatement_spec (hr : r.Sound) :
    ⦃fun s => ⌜s = s₀⌝⦄ expressionStatement r ⦃⇓? p s => ⌜Took s₀ [p] s⌝⦄ := by
  mvcgen [expressionStatement]
  all_goals grind -linarith

@[spec] theorem attributable_spec (hr : r.Sound) :
    ⦃fun s => ⌜s = s₀⌝⦄ attributable r ⦃⇓? p s => ⌜Took s₀ [p] s⌝⦄ := by
  mvcgen [attributable]
  all_goals grind -linarith

@[spec] theorem statement_spec (hr : r.Sound) :
    ⦃fun s => ⌜s = s₀⌝⦄ statement r ⦃⇓? p s => ⌜Took s₀ [p] s⌝⦄ := by
  mvcgen [statement]
  all_goals grind -linarith

theorem sound_rules (n : Nat) : (rules n).Sound := by
  -- rules of one depth call only those of the depth below
  induction n with
  | zero => exact ⟨fun _ => triple_iff.2 nofun, triple_iff.2 nofun⟩
  | succ n ih => exact ⟨fun least => expression_spec ih least, statement_spec ih⟩

end ContainerAliases.Source.Grammar
