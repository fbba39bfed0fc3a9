import ContainerAliases.Proofs.Source.Grammar.Parts
import ContainerAliases.Source.Grammar.Members

set_option mvcgen.warning false

namespace ContainerAliases.Source.Grammar

open Std.Do Classes Reader

variable {s₀ : Ahead} {r : Rules}

@[spec] theorem constantElement_spec (hr : r.Sound) :
    ⦃fun s => ⌜s = s₀⌝⦄ constantElement r ⦃⇓? ps s => ⌜Took s₀ ps s⌝⦄ := by
  mvcgen [constantElement]
  all_goals grind -linarith

@[spec] theorem constants_spec (hr : r.Sound) (front : List Piece) :
    ⦃fun s => ⌜s = s₀⌝⦄ constants r front ⦃⇓? p s => ⌜∀ s₁, Took s₁ front s₀ → Took s₁ [p] s⌝⦄ := by
  mvcgen [constants]
  all_goals grind -linarith

@[spec] theorem method_spec (hr : r.Sound) (front : List Piece) :
    ⦃fun s => ⌜s = s₀⌝⦄ method r front ⦃⇓? p s => ⌜∀ s₁, Took s₁ front s₀ → Took s₁ [p] s⌝⦄ := by
  mvcgen [method]
  all_goals grind -linarith

@[spec] theorem propertyElement_spec (hr : r.Sound) :
    ⦃fun s => ⌜s = s₀⌝⦄ propertyElement r ⦃⇓? ps s => ⌜Took s₀ ps s⌝⦄ := by
  mvcgen [propertyElement]
  all_goals grind -linarith

@[spec] theorem property_spec (hr : r.Sound) (front : List Piece) :
    ⦃fun s => ⌜s = s₀⌝⦄ property r front ⦃⇓? p s => ⌜∀ s₁, Took s₁ front s₀ → Took s₁ [p] s⌝⦄ := by
  mvcgen [property]
  all_goals grind -linarith

@[spec] theorem traitRule_spec : ⦃fun s => ⌜s = s₀⌝⦄ traitRule ⦃⇓? p s => ⌜Took s₀ [p] s⌝⦄ := by
  mvcgen [traitRule]
  all_goals grind -linarith

@[spec] theorem traitUse_spec : ⦃fun s => ⌜s = s₀⌝⦄ traitUse ⦃⇓? p s => ⌜Took s₀ [p] s⌝⦄ := by
  mvcgen [traitUse]
  all_goals grind -linarith

@[spec] theorem enumCase_spec (hr : r.Sound) (front : List Piece) :
    ⦃fun s => ⌜s = s₀⌝⦄ enumCase r front ⦃⇓? p s => ⌜∀ s₁, Took s₁ front s₀ → Took s₁ [p] s⌝⦄ := by
  mvcgen [enumCase]
  all_goals grind -linarith

@[spec] theorem member_spec (hr : r.Sound) :
    ⦃fun s => ⌜s = s₀⌝⦄ member r ⦃⇓? p s => ⌜Took s₀ [p] s⌝⦄ := by
  mvcgen [member]
  all_goals grind -linarith

@[spec] theorem memberList_spec (hr : r.Sound) :
    ⦃fun s => ⌜s = s₀⌝⦄ memberList r ⦃⇓? p s => ⌜Took s₀ [p] s⌝⦄ := by
  mvcgen [memberList]
  all_goals grind -linarith

@[spec] theorem heritage_spec {k : Kind} (hk : isClassLike k = false) (hf : isFree k)
    (words : List String) :
    ⦃fun s => ⌜s = s₀⌝⦄ heritage k words ⦃⇓? ps s => ⌜Took s₀ ps s⌝⦄ := by
  mvcgen [heritage]
  all_goals grind -linarith

@[spec] theorem extendsClause_spec :
    ⦃fun s => ⌜s = s₀⌝⦄ extendsClause ⦃⇓? ps s => ⌜Took s₀ ps s⌝⦄ := by
  mvcgen [extendsClause]
  all_goals grind -linarith

@[spec] theorem implementsClause_spec :
    ⦃fun s => ⌜s = s₀⌝⦄ implementsClause ⦃⇓? ps s => ⌜Took s₀ ps s⌝⦄ := by
  mvcgen [implementsClause]
  all_goals grind -linarith

@[spec] theorem body_spec (hr : r.Sound) :
    ⦃fun s => ⌜s = s₀⌝⦄ body r ⦃⇓? ps s => ⌜Took s₀ ps s⌝⦄ := by
  mvcgen [body]
  all_goals grind -linarith

end ContainerAliases.Source.Grammar
