import ContainerAliases.Proofs.Source.Grammar.Rules
import ContainerAliases.Source.Grammar.Parts

set_option mvcgen.warning false

namespace ContainerAliases.Source.Grammar

open Std.Do Classes Reader

variable {s₀ : Ahead} {r : Rules}

@[spec] theorem argument_spec (hr : r.Sound) :
    ⦃fun s => ⌜s = s₀⌝⦄ argument r ⦃⇓? ps s => ⌜Took s₀ ps s⌝⦄ := by
  mvcgen [argument]
  all_goals grind -linarith

@[spec] theorem arguments_spec (hr : r.Sound) :
    ⦃fun s => ⌜s = s₀⌝⦄ arguments r ⦃⇓? p s => ⌜Took s₀ [p] s⌝⦄ := by
  mvcgen [arguments]
  all_goals grind -linarith

@[spec] theorem arguments?_spec (hr : r.Sound) :
    ⦃fun s => ⌜s = s₀⌝⦄ arguments? r ⦃⇓? ps s => ⌜Took s₀ ps s⌝⦄ := by
  mvcgen [arguments?]
  all_goals grind -linarith

@[spec] theorem attributes_spec (hr : r.Sound) :
    ⦃fun s => ⌜s = s₀⌝⦄ attributes r ⦃⇓? ps s => ⌜TookOpening s₀ ps s⌝⦄ := by
  mvcgen [attributes, many_opening_spec, -many_pieces_spec]
  all_goals grind -linarith [Opening.join?]

@[spec] theorem byReference_spec (hr : r.Sound) :
    ⦃fun s => ⌜s = s₀⌝⦄ byReference r ⦃⇓? p s => ⌜Took s₀ [p] s⌝⦄ := by
  mvcgen [byReference]
  all_goals grind -linarith

@[spec] theorem element_spec (hr : r.Sound) :
    ⦃fun s => ⌜s = s₀⌝⦄ element r ⦃⇓? ps s => ⌜Took s₀ ps s⌝⦄ := by
  mvcgen [element]
  all_goals grind -linarith

@[spec] theorem hooks.parameterLike_spec :
    ⦃fun s => ⌜s = s₀⌝⦄ hooks.parameterLike ⦃⇓? ps s => ⌜Took s₀ ps s⌝⦄ := by
  mvcgen [hooks.parameterLike]
  all_goals grind -linarith

@[spec] theorem hooks_spec (hr : r.Sound) :
    ⦃fun s => ⌜s = s₀⌝⦄ hooks r ⦃⇓? p s => ⌜Took s₀ [p] s⌝⦄ := by
  mvcgen [hooks]
  all_goals grind -linarith

@[spec] theorem modifiers_spec :
    ⦃fun s => ⌜s = s₀⌝⦄ modifiers ⦃⇓? ps s => ⌜TookOpening s₀ ps s⌝⦄ := by
  have words : "" ∉ modifierWords := by decide
  mvcgen [modifiers, many_opening_spec, -many_pieces_spec]
  all_goals grind -linarith

@[spec] theorem parameter_spec (hr : r.Sound) :
    ⦃fun s => ⌜s = s₀⌝⦄ parameter r ⦃⇓? ps s => ⌜Took s₀ ps s⌝⦄ := by
  mvcgen [parameter]
  all_goals grind -linarith

@[spec] theorem parameters_spec (hr : r.Sound) :
    ⦃fun s => ⌜s = s₀⌝⦄ parameters r ⦃⇓? p s => ⌜Took s₀ [p] s⌝⦄ := by
  mvcgen [parameters]
  all_goals grind -linarith

@[spec] theorem filling_spec (hr : r.Sound) :
    ⦃fun s => ⌜s = s₀⌝⦄ filling r ⦃⇓? ps s => ⌜Took s₀ ps s⌝⦄ := by
  mvcgen [filling]
  all_goals grind -linarith

@[spec] theorem templateVariable_spec :
    ⦃fun s => ⌜s = s₀⌝⦄ templateVariable ⦃⇓? ps s => ⌜Took s₀ ps s⌝⦄ := by
  mvcgen [templateVariable]
  all_goals grind -linarith

@[spec] theorem template_spec (hr : r.Sound) (close : LexemeKind) :
    ⦃fun s => ⌜s = s₀⌝⦄ template r close ⦃⇓? ps s => ⌜Took s₀ ps s⌝⦄ := by
  mvcgen [template]
  all_goals grind -linarith

end ContainerAliases.Source.Grammar
