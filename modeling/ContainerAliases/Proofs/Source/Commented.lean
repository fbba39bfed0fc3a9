import ContainerAliases.Proofs.Alias.Descendants
import ContainerAliases.Proofs.Source.Written

namespace ContainerAliases

section Forall₂

variable {α β : Type} {R : α → β → Prop} {as : List α} {bs : List β} (h : List.Forall₂ R as bs)
include h

theorem forall₂_dropWhile {p : α → Bool} {q : β → Bool} (same : ∀ a b, R a b → p a = q b) :
    List.Forall₂ R (as.dropWhile p) (bs.dropWhile q) := by
  induction h with
  | nil => exact .nil
  | cons hab h ih =>
    rw [List.dropWhile_cons, List.dropWhile_cons, same _ _ hab]
    split
    · exact ih
    · exact .cons hab h

theorem forall₂_takeWhile {p : α → Bool} {q : β → Bool} (same : ∀ a b, R a b → p a = q b) :
    List.Forall₂ R (as.takeWhile p) (bs.takeWhile q) := by
  induction h with
  | nil => exact .nil
  | cons hab _ ih =>
    rw [List.takeWhile_cons, List.takeWhile_cons, same _ _ hab]
    split
    · exact .cons hab ih
    · exact .nil

theorem rel_head? : Option.Rel R as.head? bs.head? := by
  cases h with
  | nil => exact .none
  | cons hab _ => exact .some hab

end Forall₂

/-- The members of `bs`, up to `R`, with others between them that are `extra`. -/
inductive Interspersed {α β : Type} (extra : α → Prop) (R : α → β → Prop) :
    List α → List β → Prop
  | nil : Interspersed extra R [] []
  | skip {a : α} {as : List α} {bs : List β} (ha : extra a) (h : Interspersed extra R as bs) :
    Interspersed extra R (a :: as) bs
  | cons {a : α} {b : β} {as : List α} {bs : List β} (hab : R a b)
    (h : Interspersed extra R as bs) : Interspersed extra R (a :: as) (b :: bs)

namespace Interspersed

variable {α β γ δ : Type} {extra : α → Prop} {R : α → β → Prop} {as : List α} {bs : List β}

theorem of_forall₂ (h : List.Forall₂ R as bs) : Interspersed extra R as bs := by
  induction h with
  | nil => exact .nil
  | cons hab _ ih => exact .cons hab ih

theorem of_extra (h : ∀ a ∈ as, extra a) : Interspersed extra R as [] := by
  induction as with
  | nil => exact .nil
  | cons a as ih =>
    obtain ⟨ha, h⟩ := List.forall_mem_cons.1 h
    exact .skip ha (ih h)

theorem append {as' : List α} {bs' : List β} (h : Interspersed extra R as bs)
    (h' : Interspersed extra R as' bs') : Interspersed extra R (as ++ as') (bs ++ bs') := by
  induction h with
  | nil => exact h'
  | skip ha _ ih => exact .skip ha ih
  | cons hab _ ih => exact .cons hab ih

theorem flatMap {extra' : γ → Prop} {S : γ → δ → Prop} {f : α → List γ} {g : β → List δ}
    (h : Interspersed extra R as bs) (he : ∀ a, extra a → ∀ c ∈ f a, extra' c)
    (hr : ∀ a ∈ as, ∀ b, R a b → Interspersed extra' S (f a) (g b)) :
    Interspersed extra' S (as.flatMap f) (bs.flatMap g) := by
  induction h with
  | nil => exact .nil
  | skip ha _ ih =>
    obtain ⟨-, hr⟩ := List.forall_mem_cons.1 hr
    exact (of_extra (he _ ha)).append (ih hr)
  | cons hab _ ih =>
    obtain ⟨hb, hr⟩ := List.forall_mem_cons.1 hr
    exact (hb _ hab).append (ih hr)

theorem filter {p : α → Bool} {q : β → Bool} (h : Interspersed extra R as bs)
    (same : ∀ a b, R a b → p a = q b) : Interspersed extra R (as.filter p) (bs.filter q) := by
  induction h with
  | nil => exact .nil
  | skip ha _ ih =>
    rw [List.filter_cons]
    split
    · exact .skip ha ih
    · exact ih
  | cons hab _ ih =>
    rw [List.filter_cons, List.filter_cons, same _ _ hab]
    split
    · exact .cons hab ih
    · exact ih

theorem forall₂_filterMap {S : γ → δ → Prop} {f : α → Option γ} {g : β → Option δ}
    (h : Interspersed extra R as bs) (he : ∀ a, extra a → f a = none)
    (hr : ∀ a b, R a b → Option.Rel S (f a) (g b)) :
    List.Forall₂ S (as.filterMap f) (bs.filterMap g) := by
  induction h with
  | nil => exact .nil
  | skip ha _ ih => rwa [List.filterMap_cons, he _ ha]
  | @cons a b as bs hab _ ih =>
    have made := hr a b hab
    rw [List.filterMap_cons, List.filterMap_cons]
    generalize f a = c, g b = d at made ⊢
    cases made with
    | none => exact ih
    | some hs => exact .cons hs ih

theorem forall₂_filter {p : α → Bool} {q : β → Bool} (h : Interspersed extra R as bs)
    (he : ∀ a, extra a → p a = false) (hr : ∀ a b, R a b → p a = q b) :
    List.Forall₂ R (as.filter p) (bs.filter q) := by
  rw [← List.filterMap_eq_filter, ← List.filterMap_eq_filter]
  refine h.forall₂_filterMap (fun a ha => by simp [Option.guard, he a ha]) fun a b hab => ?_
  rw [Option.guard, Option.guard, hr a b hab]
  split
  · exact .some hab
  · exact .none

theorem rel_find? {p : α → Bool} {q : β → Bool} (h : Interspersed extra R as bs)
    (he : ∀ a, extra a → p a = false) (hr : ∀ a b, R a b → p a = q b) :
    Option.Rel R (as.find? p) (bs.find? q) := by
  rw [← List.head?_filter, ← List.head?_filter]
  exact rel_head? (h.forall₂_filter he hr)

theorem all_of_all {p : α → Bool} {q : β → Bool} (h : Interspersed extra R as bs)
    (same : ∀ a b, R a b → p a = q b) (hp : as.all p) : bs.all q := by
  rw [List.all_eq_true] at hp ⊢
  induction h with
  | nil => nofun
  | skip _ _ ih => exact ih (List.forall_mem_cons.1 hp).2
  | cons hab _ ih =>
    obtain ⟨ha, hp⟩ := List.forall_mem_cons.1 hp
    exact List.forall_mem_cons.2 ⟨same _ _ hab ▸ ha, ih hp⟩

end Interspersed

namespace Source

open Alias

namespace SyntaxTree

/-- A comment that plays no part. -/
def isRemark (t : SyntaxTree) : Bool := t.isComment && t.role == none && t.children.isEmpty

/-- Every letter of the node counts. -/
def isVerbatim (t : SyntaxTree) : Bool := t.isText || t.kind == .variableName

mutual
/-- The tree is `t` but for comments that were put in. They may stand among the children of all
nodes, literals and variables apart. No other text has to be the same. -/
def isCommentedFrom : SyntaxTree → SyntaxTree → Bool
  | .node l cs, t => l.kind == t.kind && l.role == t.role &&
      if t.isVerbatim then l.text == t.text && areCommentedFrom cs t.children
      else arePutBetween cs t.children
def areCommentedFrom : List SyntaxTree → List SyntaxTree → Bool
  | [], ts => ts.isEmpty
  | _ :: _, [] => false
  | c :: cs, t :: ts => isCommentedFrom c t && areCommentedFrom cs ts
/-- Each node comes from the next one, or else is a comment. -/
def arePutBetween : List SyntaxTree → List SyntaxTree → Bool
  | [], ts => ts.isEmpty
  | c :: cs, [] => c.isRemark && arePutBetween cs []
  | c :: cs, t :: ts => c.isRemark && arePutBetween cs (t :: ts) ||
      isCommentedFrom c t && arePutBetween cs ts
end

theorem areCommentedFrom_iff {cs ts : List SyntaxTree} : areCommentedFrom cs ts ↔
    List.Forall₂ (fun c t => c.isCommentedFrom t = true) cs ts := by
  induction cs generalizing ts with
  | nil => rw [areCommentedFrom, List.isEmpty_iff, List.forall₂_nil_left_iff]
  | cons c cs ih =>
    cases ts with
    | nil => simp [areCommentedFrom]
    | cons t ts => rw [areCommentedFrom, Bool.and_eq_true, ih, List.forall₂_cons]

abbrev Remarked (cs ts : List SyntaxTree) : Prop :=
  Interspersed (fun c => c.isRemark = true) (fun c t => c.isCommentedFrom t = true) cs ts

theorem arePutBetween_iff {cs ts : List SyntaxTree} : arePutBetween cs ts ↔ Remarked cs ts := by
  induction cs generalizing ts with
  | nil =>
    rw [arePutBetween, List.isEmpty_iff]
    constructor
    · rintro rfl
      exact .nil
    · rintro ⟨⟩
      rfl
  | cons c cs ih =>
    cases ts with
    | nil =>
      rw [arePutBetween, Bool.and_eq_true, ih]
      constructor
      · exact fun h => .skip h.1 h.2
      · rintro (_ | ⟨hc, h⟩)
        exact ⟨hc, h⟩
    | cons t ts =>
      rw [arePutBetween, Bool.or_eq_true, Bool.and_eq_true, Bool.and_eq_true, ih, ih]
      constructor
      · rintro (h | h)
        · exact .skip h.1 h.2
        · exact .cons h.1 h.2
      · rintro (_ | ⟨hc, h⟩ | ⟨hct, h⟩)
        · exact .inl ⟨hc, h⟩
        · exact .inr ⟨hct, h⟩

theorem isCommentedFrom_iff {t' t : SyntaxTree} : t'.isCommentedFrom t ↔
    (t'.kind = t.kind ∧ t'.role = t.role) ∧
      if t.isVerbatim then t'.text = t.text ∧
        List.Forall₂ (fun c t => c.isCommentedFrom t = true) t'.children t.children
      else Remarked t'.children t.children := by
  obtain ⟨l, cs⟩ := t'
  rw [isCommentedFrom, Bool.and_eq_true, Bool.and_eq_true, beq_iff_eq, beq_iff_eq]
  refine and_congr Iff.rfl ?_
  split
  · rw [Bool.and_eq_true, beq_iff_eq, areCommentedFrom_iff]
    rfl
  · exact arePutBetween_iff

section Remark

variable {t : SyntaxTree} (h : t.isRemark)
include h

theorem kind_of_isRemark : t.kind = .comment := by
  simp only [isRemark, isComment, Bool.and_eq_true, beq_iff_eq] at h
  exact h.1.1

theorem role_of_isRemark : t.role = none := by
  simp only [isRemark, Bool.and_eq_true, beq_iff_eq] at h
  exact h.1.2

theorem children_of_isRemark : t.children = [] := by
  simp only [isRemark, Bool.and_eq_true] at h
  exact List.isEmpty_iff.1 h.2

theorem not_isSolid_of_isRemark : t.isSolid = false := by
  rw [isSolid, isComment, kind_of_isRemark h, beq_self_eq_true, Bool.not_true, Bool.and_false]

end Remark

namespace IsCommentedFrom

variable {t t' : SyntaxTree} (h : t'.isCommentedFrom t)
include h

theorem kind : t'.kind = t.kind := (isCommentedFrom_iff.1 h).1.1

theorem role : t'.role = t.role := (isCommentedFrom_iff.1 h).1.2

/-- Nothing is put into literals and variables. -/
theorem verbatim (hv : t.isVerbatim) : t'.text = t.text ∧
    List.Forall₂ (fun c t => c.isCommentedFrom t = true) t'.children t.children := by
  have parts := (isCommentedFrom_iff.1 h).2
  rwa [if_pos hv] at parts

theorem children : Remarked t'.children t.children := by
  by_cases hv : t.isVerbatim
  · exact .of_forall₂ (verbatim h hv).2
  · have parts := (isCommentedFrom_iff.1 h).2
    rwa [if_neg hv] at parts

theorem isNamed : t'.isNamed = t.isNamed := by
  rw [SyntaxTree.isNamed, kind h, SyntaxTree.isNamed]

theorem isSolid : t'.isSolid = t.isSolid := by
  rw [SyntaxTree.isSolid, isNamed h, isComment, kind h, SyntaxTree.isSolid, isComment]

theorem isArrow : t'.isArrow = t.isArrow := by rw [SyntaxTree.isArrow, kind h, SyntaxTree.isArrow]

theorem isPlain (hk : t.kind = .encapsedString) : t'.isPlain = t.isPlain := by
  let part (c : SyntaxTree) : Bool := !c.isNamed || Node.plainParts.contains c.kind
  have parts (u : SyntaxTree) : u.isPlain = u.children.all part := by
    rw [SyntaxTree.isPlain, namedChildren, List.all_filter]
  have same (c d : SyntaxTree) (hcd : c.isCommentedFrom d) : part c = part d := by
    simp only [part, isNamed hcd, kind hcd]
  rw [parts, parts, Bool.eq_iff_iff]
  refine ⟨(children h).all_of_all same, fun hp => ?_⟩
  have hv : t.isVerbatim := by
    rw [isVerbatim, isText, hk, parts, hp]
    rfl
  have back : Interspersed (fun _ => False) (fun d c => c.isCommentedFrom d = true)
      t.children t'.children := .of_forall₂ (verbatim h hv).2.flip
  exact back.all_of_all (fun d c hcd => (same c d hcd).symm) hp

theorem isText : t'.isText = t.isText := by
  rw [SyntaxTree.isText, SyntaxTree.isText, kind h]
  cases hk : t.kind == .encapsedString with
  | false => rfl
  | true => rw [isPlain h (beq_iff_eq.1 hk)]

end IsCommentedFrom

end SyntaxTree

namespace Node

open SyntaxTree (Remarked)

structure CommentedFrom (n' n : Node) : Prop where
  tree : n'.tree.isCommentedFrom n.tree
  above : n'.above = n.above
  /-- No part is played by another node before it. -/
  before : ∀ r, (n'.before.all fun s => s.role != some r) = n.before.all fun s => s.role != some r
  after : Remarked n'.after n.after

abbrev RemarkedNodes (ms ns : List Node) : Prop :=
  Interspersed (fun m => m.tree.isRemark = true) CommentedFrom ms ns

theorem remarkedNodes_row (above : Option Kind) {before' before cs ts : List SyntaxTree}
    (hb : ∀ r, (before'.all fun s => s.role != some r) = before.all fun s => s.role != some r)
    (h : Remarked cs ts) : RemarkedNodes (row above before' cs) (row above before ts) := by
  induction h generalizing before' before with
  | nil => exact .nil
  | @skip c cs ts hc h ih =>
    refine .skip hc (ih fun r => ?_)
    rw [List.all_cons, hb, SyntaxTree.role_of_isRemark hc]
    rfl
  | @cons c t cs ts hct h ih =>
    refine .cons ⟨hct, rfl, hb, h⟩ (ih fun r => ?_)
    rw [List.all_cons, List.all_cons, hb, SyntaxTree.IsCommentedFrom.role hct]

namespace CommentedFrom

open SyntaxTree

variable {n' n : Node} (h : n'.CommentedFrom n)
include h

theorem kind : n'.kind = n.kind := IsCommentedFrom.kind h.tree

theorem allChildren : RemarkedNodes n'.allChildren n.allChildren := by
  rw [Node.allChildren, Node.allChildren, h.kind]
  exact remarkedNodes_row _ (fun _ => rfl) (IsCommentedFrom.children h.tree)

theorem children : RemarkedNodes n'.children n.children :=
  h.allChildren.filter fun _ _ hmn => IsCommentedFrom.isNamed hmn.tree

/-- Comments are passed over on the way to the next node. -/
theorem next : Option.Rel CommentedFrom n'.next n.next := by
  rw [Node.next, Node.next, h.above]
  have before (r : Role) : ((n'.tree :: n'.before).all fun s => s.role != some r) =
      (n.tree :: n.before).all fun s => s.role != some r := by
    rw [List.all_cons, List.all_cons, h.before, IsCommentedFrom.role h.tree]
  refine (remarkedNodes_row _ before h.after).rel_find? (fun m hm => ?_) fun m n hmn => ?_
  · exact not_isSolid_of_isRemark hm
  · exact IsCommentedFrom.isSolid hmn.tree

theorem isArray : n'.isArray = n.isArray := by rw [Node.isArray, Node.isArray, h.kind]

theorem isString : n'.isString = n.isString := by
  rw [isString_eq, isString_eq, IsCommentedFrom.isText h.tree]

theorem literal : n'.literal = n.literal := by
  rw [Node.literal, Node.literal, h.isString]
  split
  · next hs =>
    rw [isString_eq] at hs
    have text : n'.text = n.text := (IsCommentedFrom.verbatim h.tree (by simp [isVerbatim, hs])).1
    rw [text]
  · rfl

theorem declares : n'.declares = n.declares := by
  have target : n'.isTarget = n.isTarget := by
    simp only [isTarget, plays, h.above, h.before, IsCommentedFrom.role h.tree]
  rw [Node.declares, Node.declares, h.kind, target]
  split
  · next hd =>
    have hk : n.tree.kind == .variableName := (Bool.and_eq_true_iff.1 hd).1
    have text : n'.text = n.text := (IsCommentedFrom.verbatim h.tree (by simp [isVerbatim, hk])).1
    rw [text]
  · rfl

end CommentedFrom

theorem element?_eq (n : Node) : n.element? =
    match n.parts.dropWhile fun c => !c.tree.isArrow with
    | [] => n.parts.head?.map fun v => ⟨none, v⟩
    | _ :: after => (n.parts.takeWhile fun c => !c.tree.isArrow).head?.bind fun k =>
      (after.filter fun c => !c.tree.isArrow).head?.map fun v => ⟨some k, v⟩ := by
  rw [element?, arrowParts_eq]
  cases n.parts.dropWhile fun c => !c.tree.isArrow with
  | nil => cases n.parts <;> rfl
  | cons arrow after =>
    cases n.parts.takeWhile fun c => !c.tree.isArrow with
    | nil => rfl
    | cons k ks =>
      simp only [List.head?_cons, Option.bind_some]
      cases after.filter fun c => !c.tree.isArrow <;> rfl

structure CommentedElement (e' e : ArrayElement Node) : Prop where
  key : Option.Rel CommentedFrom e'.key e.key
  value : e'.value.CommentedFrom e.value

namespace CommentedFrom

open SyntaxTree

variable {n' n : Node} (h : n'.CommentedFrom n)
include h

theorem parts : List.Forall₂ CommentedFrom n'.parts n.parts := by
  refine h.allChildren.forall₂_filter (fun m hm => ?_) fun m n hmn => ?_
  · rw [not_isSolid_of_isRemark hm, isArrow, kind_of_isRemark hm]
    rfl
  · rw [IsCommentedFrom.isArrow hmn.tree, IsCommentedFrom.isSolid hmn.tree]

theorem element? : Option.Rel CommentedElement n'.element? n.element? := by
  have same (m n : Node) (hmn : m.CommentedFrom n) : (!m.tree.isArrow) = !n.tree.isArrow := by
    rw [IsCommentedFrom.isArrow hmn.tree]
  have parts := h.parts
  have keys := forall₂_takeWhile parts same
  have rest := forall₂_dropWhile parts same
  rw [element?_eq, element?_eq]
  generalize n'.parts.dropWhile _ = after', n.parts.dropWhile _ = after at rest ⊢
  cases rest with
  | nil =>
    have value := rel_head? parts
    simp only
    generalize n'.parts.head? = v', n.parts.head? = v at value ⊢
    cases value with
    | none => exact .none
    | some hv => exact .some ⟨.none, hv⟩
  | @cons _ _ as' as _ rest =>
    have key := rel_head? keys
    have value : Option.Rel CommentedFrom (as'.filter fun c => !c.tree.isArrow).head?
        (as.filter fun c => !c.tree.isArrow).head? :=
      rel_head? (List.rel_filter (fun m n hmn => Bool.eq_iff_iff.1 (same m n hmn)) rest)
    simp only
    generalize (n'.parts.takeWhile _).head? = k', (n.parts.takeWhile _).head? = k at key ⊢
    generalize (as'.filter _).head? = v', (as.filter _).head? = v at value ⊢
    cases key with
    | none => exact .none
    | some hk =>
      cases value with
      | none => exact .none
      | some hv => exact .some ⟨.some hk, hv⟩

theorem elements : List.Forall₂ CommentedElement n'.elements n.elements := by
  have kept : List.Forall₂ CommentedFrom (n'.children.filter fun c => c.kind == .arrayElement)
      (n.children.filter fun c => c.kind == .arrayElement) := by
    refine h.children.forall₂_filter (fun m hm => ?_) fun m n hmn => ?_
    · rw [Node.kind, kind_of_isRemark hm]
      rfl
    · rw [hmn.kind]
  rw [Node.elements, Node.elements, h.isArray]
  split
  · exact List.rel_filterMap (fun m n hmn => hmn.element?) kept
  · exact .nil

end CommentedFrom

theorem CommentedFrom.descendants {n' n : Node} (h : n'.CommentedFrom n) :
    RemarkedNodes (SyntaxNode.descendants n') (SyntaxNode.descendants n) := by
  rw [SyntaxNode.descendants_eq, SyntaxNode.descendants_eq]
  refine h.children.flatMap (fun m hm => ?_) fun m hm n hmn => .cons hmn ?_
  · have leaf : SyntaxNode.descendants m = [] := by
      rw [SyntaxNode.descendants_eq]
      change List.flatMap _ m.children = []
      rw [Node.children, Node.allChildren, SyntaxTree.children_of_isRemark hm]
      rfl
    rw [leaf]
    exact List.forall_mem_singleton.2 hm
  · exact descendants hmn
termination_by SyntaxNode.size n'
decreasing_by exact SyntaxNode.size_lt hm

end Node

end Source

end ContainerAliases
