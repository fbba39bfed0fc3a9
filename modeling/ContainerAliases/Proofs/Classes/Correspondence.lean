import ContainerAliases.Proofs.Classes.Descent
import Mathlib.Data.List.Forall2

namespace ContainerAliases.Classes

/-- The declarations compare equal to the same names, and so do their parents. -/
structure ClassDeclaration.Agrees (c d : ClassDeclaration) : Prop where
  name : c.name = d.name
  descendsFrom : c.descendsFrom = d.descendsFrom

theorem ClassDeclaration.descendsFrom_congr {c d : ClassDeclaration}
    (h : c.parents.map normalize = d.parents.map normalize) : c.descendsFrom = d.descendsFrom := by
  have parents (c : ClassDeclaration) (n : String) :
      c.descendsFrom n = (c.parents.map normalize).any (· == normalize n) := by
    rw [descendsFrom, List.any_map]
    rfl
  funext n
  rw [parents, parents, h]

variable {α β : Type} {decl : α → ClassDeclaration} {decl' : β → ClassDeclaration}
  {R : α → β → Prop}

theorem forall₂_filter {f : α → Bool} {g : β → Bool} (hfg : ∀ a b, R a b → f a = g b) {xs : List α}
    {ys : List β} (h : List.Forall₂ R xs ys) : List.Forall₂ R (xs.filter f) (ys.filter g) :=
  List.rel_filter (fun a b hab => iff_of_eq (congrArg (· = true) (hfg a b hab))) h

section Forall₂

variable (hR : ∀ a b, R a b → (decl a).Agrees (decl' b))
include hR

theorem forall₂_descendants (queue : List String) {xs : List α} {ys : List β}
    (h : List.Forall₂ R xs ys) :
    List.Forall₂ R (descendants decl queue xs) (descendants decl' queue ys) := by
  fun_induction descendants decl queue xs generalizing ys with
  | case1 => simp [descendants]
  | case2 xs name queue ih =>
    have heirs : List.Forall₂ R (heirs decl name xs) (heirs decl' name ys) :=
      forall₂_filter (fun a b hab => by rw [(hR a b hab).descendsFrom]) h
    have others : List.Forall₂ R (others decl name xs) (others decl' name ys) :=
      forall₂_filter (fun a b hab => by rw [(hR a b hab).descendsFrom]) h
    have names : (Classes.heirs decl name xs).map (fun a => (decl a).name) =
        (Classes.heirs decl' name ys).map fun b => (decl' b).name := by
      rw [← List.forall₂_eq_eq_eq]
      exact List.rel_map (fun a b hab => (hR a b hab).name) heirs
    rw [descendants, ← names]
    exact List.rel_append heirs (ih others)

theorem forall₂_hierarchy {xs : List α} {ys : List β} (h : List.Forall₂ R xs ys) {m n : String}
    (hn : normalize m = normalize n) :
    List.Forall₂ R (hierarchy decl xs m) (hierarchy decl' ys n) := by
  rw [hierarchy, hierarchy, hn]
  have named := forall₂_filter (f := fun a => (decl a).name == normalize n)
    (g := fun b => (decl' b).name == normalize n) (fun a b hab => by rw [(hR a b hab).name]) h
  have rest := forall₂_filter (f := fun a => (decl a).name != normalize n)
    (g := fun b => (decl' b).name != normalize n) (fun a b hab => by rw [(hR a b hab).name]) h
  exact List.rel_append named (forall₂_descendants hR _ rest)

end Forall₂

section Frame

variable (keep : α → Bool)

theorem descendants_filter {queue : List String} {rest : List α}
    (h : ∀ a ∈ descendants decl queue rest, keep a) :
    descendants decl queue (rest.filter keep) = descendants decl queue rest := by
  fun_induction descendants decl queue rest with
  | case1 => rw [descendants]
  | case2 rest name queue ih =>
    have kept : heirs decl name (rest.filter keep) = heirs decl name rest :=
      (List.filter_comm _ _ _).trans
        (List.filter_eq_self.2 fun a ha => h a (List.mem_append_left _ ha))
    have others : others decl name (rest.filter keep) = (others decl name rest).filter keep :=
      List.filter_comm _ _ _
    rw [descendants, kept, others, ih fun a ha => h a (List.mem_append_right _ ha)]

theorem hierarchy_filter {all : List α} {fqcn : String}
    (h : ∀ a ∈ hierarchy decl all fqcn, keep a) :
    hierarchy decl (all.filter keep) fqcn = hierarchy decl all fqcn := by
  rw [hierarchy, List.filter_comm, List.filter_comm (fun a => (decl a).name != normalize fqcn),
    descendants_filter keep fun a ha => h a (List.mem_append_right _ ha), List.filter_eq_self.2]
  · rfl
  · exact fun a ha => h a (List.mem_append_left _ ha)

end Frame

end ContainerAliases.Classes
