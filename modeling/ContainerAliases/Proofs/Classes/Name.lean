import Mathlib
import ContainerAliases.Classes.Declaration

namespace ContainerAliases.Classes

theorem toLower_eq_backslash_iff (c : Char) : c.toLower = '\\' ↔ c = '\\' := by
  by_cases hu : c.isUpper
  · have hl : c.toLower.isLower := by simp [Char.isAlpha, hu]
    constructor
    · intro h
      rw [h] at hl
      cases hl
    · rintro rfl
      cases hu
  · rw [Char.toLower_eq_of_not_isUpper hu]

theorem dropWhile_map_toLower (cs : List Char) :
    (cs.map Char.toLower).dropWhile (· == '\\') =
      (cs.dropWhile (· == '\\')).map Char.toLower := by
  rw [List.dropWhile_map]
  congr 2
  funext c
  rw [Function.comp_apply, Bool.eq_iff_iff, beq_iff_eq, beq_iff_eq, toLower_eq_backslash_iff]

@[simp] theorem normalize_normalize (name : String) :
    normalize (normalize name) = normalize name := by
  have hd : (name.toList.dropWhile (· == '\\')).dropWhile (· == '\\') =
      name.toList.dropWhile (· == '\\') := List.dropWhile_idempotent _ _
  have hl : Char.toLower ∘ Char.toLower = Char.toLower :=
    funext Char.toLower_toLower_eq_toLower
  rw [normalize, normalize, String.toList_ofList, dropWhile_map_toLower, hd, List.map_map, hl]

@[simp] theorem normalize_name (d : ClassDeclaration) : normalize d.name = d.name :=
  normalize_normalize d.fqcn

/-- One of the names behind `extends` and `implements` is the normal name `n`. -/
def ClassDeclaration.HasParent (d : ClassDeclaration) (n : String) : Prop :=
  ∃ p ∈ d.parents, normalize p = n

instance (d : ClassDeclaration) (n : String) : Decidable (d.HasParent n) :=
  inferInstanceAs (Decidable (∃ p ∈ d.parents, normalize p = n))

theorem ClassDeclaration.descendsFrom_iff (d : ClassDeclaration) (n : String) :
    d.descendsFrom n ↔ d.HasParent (normalize n) := by
  simp [descendsFrom, HasParent]

end ContainerAliases.Classes
