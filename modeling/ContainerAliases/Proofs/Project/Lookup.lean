import ContainerAliases.Proofs.Classes.Correspondence
import ContainerAliases.Proofs.Project.Hierarchy
import ContainerAliases.Proofs.Source.Relabel

namespace ContainerAliases

namespace Project

open Classes Disk

/-- The hierarchy of `fqcn` with the places of its members. -/
def listed (p : Project) (fqcn : String) : List Placed :=
  Classes.hierarchy Placed.declaration p.placed fqcn

theorem map_pair_listed (p : Project) (fqcn : String) :
    (p.listed fqcn).map Placed.pair = p.hierarchy fqcn := by
  rw [hierarchy, ← map_pair_placed, hierarchy_map]
  rfl

theorem classNodes_eq (p : Project) (fqcn : String) :
    p.classNodes fqcn = (p.listed fqcn).filterMap Placed.node? := by
  rw [classNodes, ← map_pair_listed, List.filterMap_map]
  rfl

/-- A method of that name, up to ASCII case. -/
def isMethod (name : String) (m : Source.Node) : Bool :=
  m.kind == .methodDeclaration && (m.child? .name).any fun n => lower n.text == lower name

theorem method?_eq (c : Source.Node) (name : String) :
    method? c name = (c.child? .body).bind fun b => b.children.find? (isMethod name) := rfl

section Relabel

variable {f : Source.SyntaxTree → Source.Label} (hf : Source.SyntaxTree.KeepsWords f)
  (ht : ∀ t, lower (f t).text = lower t.text) {x y : String} (h : lower x = lower y)
include hf ht h

theorem isMethod_relabel (m : Source.Node) : isMethod y (m.relabel f) = isMethod x m := by
  rw [isMethod, isMethod, Source.Node.kind_relabel hf, Source.Node.child?_relabel hf, ← h]
  cases m.child? .name with
  | none => rfl
  | some n =>
    have text : lower (n.relabel f).text = lower n.text := by
      rw [Source.Node.text, Source.Node.relabel, Source.SyntaxTree.text,
        Source.SyntaxTree.label_relabel, ht]
      rfl
    rw [Option.map_some, Option.any_some, Option.any_some, text]

theorem method?_relabel (c : Source.Node) :
    method? (c.relabel f) y = (method? c x).map (.relabel f) := by
  have same : isMethod y ∘ Source.Node.relabel f = isMethod x := funext (isMethod_relabel hf ht h)
  rw [method?_eq, method?_eq, Source.Node.child?_relabel hf]
  cases c.child? .body with
  | none => rfl
  | some b =>
    rw [Option.map_some, Option.bind_some, Option.bind_some, Source.Node.children_relabel hf,
      List.find?_map, same]

end Relabel

theorem forall₂_zipIdx {α β : Type} {R : α → β → Prop} {xs : List α} {ys : List β}
    (h : List.Forall₂ R xs ys) (n : Nat) :
    List.Forall₂ (fun a b => a.2 = b.2 ∧ R a.1 b.1) (xs.zipIdx n) (ys.zipIdx n) := by
  induction h generalizing n with
  | nil => exact .nil
  | cons h _ ih =>
    rw [List.zipIdx_cons, List.zipIdx_cons]
    exact .cons ⟨rfl, h⟩ (ih (n + 1))

/-- The declarations at the same places of both projects are related. -/
def Placed.Rel (R : SourceFile × ClassDeclaration → SourceFile × ClassDeclaration → Prop)
    (x y : Placed) : Prop := x.place = y.place ∧ R x.pair y.pair

theorem forall₂_placed {R : SourceFile × ClassDeclaration → SourceFile × ClassDeclaration → Prop}
    {p q : Project} (h : List.Forall₂ (fun a b => a.1 = b.1 ∧
      List.Forall₂ (fun c d => R (a.2, c) (b.2, d)) a.2.classes b.2.classes)
      p.files.toList q.files.toList) : List.Forall₂ (Placed.Rel R) p.placed q.placed := by
  refine List.rel_flatMap h fun a b hab => ?_
  rw [placedIn, placedIn, List.forall₂_map_left_iff, List.forall₂_map_right_iff]
  refine (forall₂_zipIdx hab.2 0).imp fun c d hcd => ⟨?_, hcd.2⟩
  rw [Placed.place, Placed.place, hab.1, hcd.1]

theorem map_place_eq {R : SourceFile × ClassDeclaration → SourceFile × ClassDeclaration → Prop}
    {xs ys : List Placed} (h : List.Forall₂ (Placed.Rel R) xs ys) :
    xs.map Placed.place = ys.map Placed.place := by
  rw [← List.forall₂_eq_eq_eq, List.forall₂_map_left_iff, List.forall₂_map_right_iff]
  exact h.imp fun _ _ hxy => hxy.1

end Project

end ContainerAliases
