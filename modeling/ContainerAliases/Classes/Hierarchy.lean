import ContainerAliases.Classes.Declaration

namespace ContainerAliases.Classes

variable {α : Type} (decl : α → ClassDeclaration)

def heirs (name : String) (all : List α) : List α :=
  all.filter fun a => (decl a).descendsFrom name

def others (name : String) (all : List α) : List α :=
  all.filter fun a => !(decl a).descendsFrom name

theorem length_heirs_add_others (name : String) (all : List α) :
    (heirs decl name all).length + (others decl name all).length = all.length := by
  induction all with
  | nil => rfl
  | cons a all ih =>
    cases h : (decl a).descendsFrom name <;> simp_all [heirs, others] <;> omega

/-- Takes names from a queue. What descends directly from one of them leaves `rest`, and its own
name joins the queue. -/
def descendants (queue : List String) (rest : List α) : List α :=
  match queue with
  | [] => []
  | name :: queue =>
    heirs decl name rest ++
      descendants (queue ++ (heirs decl name rest).map fun a => (decl a).name)
        (others decl name rest)
termination_by (rest.length, queue.length)
decreasing_by
  have h := length_heirs_add_others decl name rest
  cases hf : heirs decl name rest with
  | nil =>
    rw [hf] at h
    simp only [List.length_nil, Nat.zero_add] at h
    rw [h]
    exact Prod.Lex.right _ (by simp)
  | cons a as =>
    rw [hf] at h
    simp only [List.length_cons] at h
    exact Prod.Lex.left _ _ (by omega)

/-- The declarations named `fqcn`, then all that extends or implements them, directly or not. -/
def hierarchy (all : List α) (fqcn : String) : List α :=
  let target := normalize fqcn
  (all.filter fun a => (decl a).name == target) ++
    descendants decl [target] (all.filter fun a => (decl a).name != target)

end ContainerAliases.Classes
