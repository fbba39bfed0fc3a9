import ContainerAliases.Proofs.Classes.Reading
import ContainerAliases.Proofs.Source.Ranges
import Mathlib.Data.List.Forall2

namespace ContainerAliases

namespace Source.SyntaxTree

mutual
/-- The node and all nodes below it, a node before those below it and each before what stands to its
right. -/
def nodes : SyntaxTree → List SyntaxTree
  | .node l cs => .node l cs :: nodesOf cs
def nodesOf : List SyntaxTree → List SyntaxTree
  | [] => []
  | t :: ts => nodes t ++ nodesOf ts
end

theorem nodes_eq (t : SyntaxTree) : t.nodes = t :: nodesOf t.children := by
  cases t
  rw [nodes, children]

theorem nodesOf_singleton (t : SyntaxTree) : nodesOf [t] = t.nodes := by
  rw [nodesOf, nodesOf, List.append_nil]

theorem nodesOf_append (ts us : List SyntaxTree) :
    nodesOf (ts ++ us) = nodesOf ts ++ nodesOf us := by
  induction ts with
  | nil => rw [nodesOf, List.nil_append, List.nil_append]
  | cons t ts ih => rw [List.cons_append, nodesOf, ih, nodesOf, List.append_assoc]

theorem mem_nodesOf {n : SyntaxTree} {ts : List SyntaxTree} :
    n ∈ nodesOf ts ↔ ∃ t ∈ ts, n ∈ t.nodes := by
  induction ts with
  | nil => simp [nodesOf]
  | cons t ts ih => rw [nodesOf, List.mem_append, ih, List.exists_mem_cons_iff]

theorem mem_nodes_iff {n t : SyntaxTree} : n ∈ t.nodes ↔ Contains n t := by
  induction t using induction_children with
  | h t ih =>
    rw [nodes_eq, List.mem_cons, mem_nodesOf]
    constructor
    · rintro (rfl | ⟨c, hc, hn⟩)
      · exact .here
      · exact .child hc ((ih c hc).1 hn)
    · rintro (_ | ⟨hc, hn⟩)
      · exact .inl rfl
      · exact .inr ⟨_, hc, (ih _ hc).2 hn⟩

theorem sublist_nodesOf {t : SyntaxTree} {ts : List SyntaxTree} (h : t ∈ ts) :
    t.nodes.Sublist (nodesOf ts) := by
  induction ts with
  | nil => cases h
  | cons u ts ih =>
    rw [nodesOf]
    rcases List.mem_cons.1 h with rfl | h
    · exact List.sublist_append_left _ _
    · exact (ih h).trans (List.sublist_append_right _ _)

theorem nodesOf_children_sublist {t b : SyntaxTree} (h : Contains b t) :
    (nodesOf b.children).Sublist t.nodes := by
  induction h with
  | here =>
    rw [nodes_eq b]
    exact List.sublist_cons_self _ _
  | @child t c hc _ ih =>
    rw [nodes_eq t]
    exact (ih.trans (sublist_nodesOf hc)).cons t

end Source.SyntaxTree

namespace Classes

open Source SyntaxTree

/-- The node `n` declares a class, and no node from `t` down to it declares another. -/
inductive Outermost (n : SyntaxTree) : SyntaxTree → Prop
  | here (h : isClassLike n.kind) : Outermost n n
  | under {t c : SyntaxTree} (ht : isClassLike t.kind = false) (hc : c ∈ t.children)
    (h : Outermost n c) : Outermost n t

namespace Outermost

variable {n t : SyntaxTree}

theorem isClassLike (h : Outermost n t) : Classes.isClassLike n.kind := by
  induction h with
  | here h => exact h
  | under _ _ _ ih => exact ih

theorem contains (h : Outermost n t) : Contains n t := by
  induction h with
  | here => exact .here
  | under _ hc _ ih => exact .child hc ih

theorem eq_of_isClassLike (ht : Classes.isClassLike t.kind) : Outermost n t ↔ n = t := by
  constructor
  · rintro (_ | ⟨ht', -, -⟩)
    · rfl
    · cases ht.symm.trans ht'
  · rintro rfl
    exact .here ht

theorem iff_of_not_isClassLike (ht : Classes.isClassLike t.kind = false) :
    Outermost n t ↔ ∃ c ∈ t.children, Outermost n c := by
  constructor
  · rintro (h | ⟨-, hc, h⟩)
    · cases h.symm.trans ht
    · exact ⟨_, hc, h⟩
  · rintro ⟨c, hc, h⟩
    exact .under ht hc h

end Outermost

theorem not_outermost_of_isSealed {n t : SyntaxTree} (h : isSealed t) : ¬ Outermost n t := by
  intro ho
  have := of_every (ho.contains.every h)
  rw [ho.isClassLike] at this
  cases this

section Open

variable {n t : SyntaxTree}

theorem not_outermost_of_all_isSealed (ht : isClassLike t.kind = false)
    (h : t.children.all isSealed) : ¬ Outermost n t := by
  rw [Outermost.iff_of_not_isClassLike ht]
  rintro ⟨c, hc, ho⟩
  exact not_outermost_of_isSealed (List.all_eq_true.1 h c hc) ho

theorem not_outermost_of_not_isNamed (hn : t.isNamed = false) (h : isTidy t) : ¬ Outermost n t := by
  obtain ⟨w, hw⟩ : ∃ w, t.kind = .token w := by
    cases hk : t.kind <;> simp_all [SyntaxTree.isNamed, Kind.isNamed]
  have below := (isTidy_iff.1 h).1
  rw [isShaped, hw] at below
  exact not_outermost_of_all_isSealed (by rw [hw]; rfl) below

theorem not_outermost_of_import (hk : t.kind = .namespaceUseDeclaration) (h : isTidy t) :
    ¬ Outermost n t := by
  have names := (isTidy_iff.1 h).2
  rw [namesNoClass, hk] at names
  exact not_outermost_of_all_isSealed (by rw [hk]; rfl) names

section Namespace

variable (hk : t.kind = .namespaceDefinition) (h : isTidy t)
include hk h

theorem isSealed_of_namespace {c : SyntaxTree}
    (hc : c ∈ t.children.eraseP fun c => c.role == some .body) : isSealed c := by
  obtain ⟨shape, names⟩ := isTidy_iff.1 h
  rw [isShaped, hk, Bool.and_eq_true] at shape
  rw [namesNoClass, hk] at names
  have part := List.all_eq_true.1 shape.1 c hc
  have name := List.all_eq_true.1 names c (List.mem_of_mem_eraseP hc)
  simp only [Bool.or_eq_true, beq_iff_eq, bne_iff_ne, ne_eq] at part name
  exact part.elim (fun hr => name.resolve_left (not_not_intro hr)) id

theorem not_outermost_of_unbraced (hb : t.child? .body = none) : ¬ Outermost n t := by
  refine not_outermost_of_all_isSealed (by rw [hk]; rfl) (List.all_eq_true.2 fun c hc => ?_)
  refine isSealed_of_namespace hk h ?_
  rwa [List.eraseP_of_forall_not (List.find?_eq_none.1 hb)]

/-- In a namespace, classes stand in its body. -/
theorem outermost_iff_of_braced {b : SyntaxTree} (hb : t.child? .body = some b) :
    Outermost n t ↔ ∃ c ∈ b.children, Outermost n c := by
  obtain ⟨hr, before, after, hch, hbefore⟩ := List.find?_eq_some_iff_append.1 hb
  have block : isClassLike b.kind = false := by
    have shape := (isTidy_iff.1 h).1
    rw [isShaped, hk, hb, Bool.and_eq_true] at shape
    simpa using shape.2
  have others : t.children.eraseP (fun c => c.role == some .body) = before ++ after := by
    rw [hch, List.eraseP_append_right _ fun c hc => by simpa using hbefore c hc,
      List.eraseP_cons, hr, cond_true]
  have sealed {c : SyntaxTree} (hc : c ∈ before ++ after) : isSealed c :=
    isSealed_of_namespace hk h (others ▸ hc)
  rw [Outermost.iff_of_not_isClassLike (by rw [hk]; rfl), ← Outermost.iff_of_not_isClassLike block,
    hch]
  constructor
  · rintro ⟨c, hc, ho⟩
    rcases List.mem_append.1 hc with hc | hc
    · exact absurd ho (not_outermost_of_isSealed (sealed (List.mem_append_left _ hc)))
    · rcases List.mem_cons.1 hc with rfl | hc
      · exact ho
      · exact absurd ho (not_outermost_of_isSealed (sealed (List.mem_append_right _ hc)))
  · exact fun ho => ⟨b, by simp, ho⟩

end Namespace

end Open

def ReadAt (c : ClassDeclaration) (n : SyntaxTree) : Prop :=
  ∃ s, ClassDeclaration.ofTree? s n = some c

def hasName (n : SyntaxTree) : Bool := (n.child? .name).isSome

theorem isSome_ofTree? {n : SyntaxTree} (h : isClassLike n.kind) (s : Scope) :
    (ClassDeclaration.ofTree? s n).isSome = hasName n := by
  obtain ⟨k, hk⟩ := Option.isSome_iff_exists.1 h
  rw [ofTree?_eq, hk, Option.bind_some, Option.isSome_map, hasName]

namespace ReadAt

variable {c : ClassDeclaration} {n : SyntaxTree}

theorem start (h : ReadAt c n) : c.start = n.start := by
  obtain ⟨s, h⟩ := h
  exact start_of_ofTree? h

theorem isClassLike (h : ReadAt c n) : Classes.isClassLike n.kind := by
  obtain ⟨s, h⟩ := h
  rw [ofTree?_eq] at h
  obtain ⟨k, hk, -⟩ := Option.bind_eq_some_iff.1 h
  exact Option.isSome_iff_exists.2 ⟨k, hk⟩

end ReadAt

/-- The declarations `cs` were read at nodes of `ts`, in their order; at all of the outermost ones
that have a name, if classes stand only where statements do. -/
def ReadOff (ts : List SyntaxTree) (cs : List ClassDeclaration) : Prop :=
  ∃ ns, List.Forall₂ ReadAt cs ns ∧ ns.Sublist (nodesOf ts) ∧ ((∀ t ∈ ts, t.every isTidy) →
    ∀ n, n ∈ ns ↔ hasName n ∧ ∃ t ∈ ts, Outermost n t)

namespace ReadOff

variable {ts us : List SyntaxTree} {cs ds : List ClassDeclaration} {t b : SyntaxTree}

theorem nil (h : (∀ t ∈ ts, t.every isTidy) → ∀ n, ∀ t ∈ ts, ¬ Outermost n t) : ReadOff ts [] := by
  refine ⟨[], .nil, List.nil_sublist _, fun ho n => ?_⟩
  simpa using fun _ => h ho n

theorem append (h : ReadOff ts cs) (h' : ReadOff us ds) : ReadOff (ts ++ us) (cs ++ ds) := by
  obtain ⟨ns, read, sub, exact⟩ := h
  obtain ⟨ms, read', sub', exact'⟩ := h'
  refine ⟨ns ++ ms, List.rel_append read read', ?_, fun ho n => ?_⟩
  · rw [nodesOf_append]
    exact sub.append sub'
  · have ⟨ho, ho'⟩ := List.forall_mem_append.1 ho
    rw [List.mem_append, exact ho, exact' ho', ← and_or_left]
    simp only [List.mem_append, or_and_right, exists_or]

/-- What is read below `b` is read in any tree in which `b` stands. -/
theorem of_contains (h : ReadOff b.children cs) (hb : Contains b t)
    (same : t.every isTidy → ∀ n, Outermost n t ↔ ∃ c ∈ b.children, Outermost n c) :
    ReadOff [t] cs := by
  obtain ⟨ns, read, sub, exact⟩ := h
  refine ⟨ns, read, ?_, fun ho n => ?_⟩
  · rw [nodesOf_singleton]
    exact sub.trans (nodesOf_children_sublist hb)
  · have ho : t.every isTidy := ho t List.mem_cons_self
    rw [exact fun c hc => every_of_mem (hb.every ho) hc]
    simp only [List.mem_singleton, exists_eq_left, same ho]

theorem of_isClassLike (h : isClassLike t.kind) (s : Scope) :
    ReadOff [t] (ClassDeclaration.ofTree? s t).toList := by
  have named := isSome_ofTree? h s
  cases hc : ClassDeclaration.ofTree? s t with
  | none =>
    rw [hc] at named
    refine ⟨[], .nil, List.nil_sublist _, fun _ n => ?_⟩
    simp only [List.mem_singleton, exists_eq_left, Outermost.eq_of_isClassLike h]
    constructor
    · nofun
    · rintro ⟨hn, rfl⟩
      cases named.trans hn
  | some c =>
    rw [hc] at named
    refine ⟨[t], .cons ⟨s, hc⟩ .nil, ?_, fun _ n => ?_⟩
    · rw [nodesOf_singleton, nodes_eq]
      exact (List.nil_sublist _).cons_cons t
    · simp only [List.mem_singleton, exists_eq_left, Outermost.eq_of_isClassLike h]
      constructor
      · rintro rfl
        exact ⟨named.symm, rfl⟩
      · exact fun hn => hn.2

end ReadOff

theorem readOff_declaredIn_of {ts : List SyntaxTree}
    (h : ∀ t ∈ ts, ∀ s, ReadOff [t] (declared s t).2) (s : Scope) :
    ReadOff ts (declaredIn s ts).2 := by
  induction ts generalizing s with
  | nil =>
    rw [declaredIn_nil]
    exact .nil nofun
  | cons t ts ih =>
    obtain ⟨ht, hts⟩ := List.forall_mem_cons.1 h
    cases hn : t.isNamed with
    | true =>
      rw [declaredIn_cons hn]
      exact (ht s).append (ih hts _)
    | false =>
      -- a keyword holds no class
      have keyword : ReadOff [t] [] := .nil fun ho n u hu => by
        rw [List.mem_singleton.1 hu]
        exact not_outermost_of_not_isNamed hn (of_every (ho t List.mem_cons_self))
      rw [declaredIn_cons_unnamed hn]
      exact keyword.append (ih hts s)

theorem readOff_declared (t : SyntaxTree) : ∀ s, ReadOff [t] (declared s t).2 := by
  induction t using induction_declared with
  | unbraced t hk hb =>
    intro s
    rw [declared_of_unbraced hk hb]
    refine .nil fun ho n u hu => ?_
    rw [List.mem_singleton.1 hu]
    exact not_outermost_of_unbraced hk (of_every (ho t List.mem_cons_self)) hb
  | braced t b hk hb ih =>
    intro s
    rw [declared_of_braced hk hb]
    refine (readOff_declaredIn_of ih _).of_contains
      (.child (List.mem_of_find?_eq_some hb) .here) fun ho n => ?_
    exact outermost_iff_of_braced hk (of_every ho) hb
  | imports t hk =>
    intro s
    rw [declared_of_import hk]
    refine .nil fun ho n u hu => ?_
    rw [List.mem_singleton.1 hu]
    exact not_outermost_of_import hk (of_every (ho t List.mem_cons_self))
  | classLike t hc =>
    intro s
    rw [declared_of_isClassLike hc]
    exact .of_isClassLike hc s
  | other t hd ih =>
    intro s
    rw [declared_of_not_isDeclaring hd]
    refine (readOff_declaredIn_of ih s).of_contains .here fun _ n => ?_
    refine Outermost.iff_of_not_isClassLike ?_
    rw [isDeclaring, Bool.or_eq_false_iff, Bool.or_eq_false_iff] at hd
    exact hd.1.1

theorem readOff_declaredIn (ts : List SyntaxTree) (s : Scope) : ReadOff ts (declaredIn s ts).2 :=
  readOff_declaredIn_of (fun t _ => readOff_declared t) s

section Order

variable {t n : SyntaxTree}

/-- Where nodes stand in order, a declaration takes some room within any node around it. -/
theorem range_of_isClassLike (h : isOrderly t) (hn : Contains n t) (hc : isClassLike n.kind) :
    t.start ≤ n.start ∧ n.start < n.stop ∧ n.stop ≤ t.stop := by
  obtain ⟨⟨fits, alone⟩, -⟩ := isOrderly_iff_every.1 h
  have here := of_every (hn.every alone)
  rw [beginsAlone, hc, Bool.not_true, Bool.false_or, Bool.and_eq_true, decide_eq_true_eq] at here
  obtain ⟨lower, upper⟩ := hn.range fits
  exact ⟨lower, here.1, upper⟩

theorem start_lt_of_contains (h : isOrderly t) (ht : isClassLike t.kind) {c : SyntaxTree}
    (hc : c ∈ t.children) (hn : Contains n c) (hcl : isClassLike n.kind) : t.start < n.start := by
  have alone := (isOrderly_iff.1 h).2.1
  rw [beginsAlone, ht, Bool.not_true, Bool.false_or, Bool.and_eq_true] at alone
  have later := of_every (hn.every (List.all_eq_true.1 alone.2 c hc))
  simpa [hcl] using later

/-- Declarations one after the other in the text. -/
def Rising (ns : List SyntaxTree) : Prop :=
  (ns.filter fun n => isClassLike n.kind).Pairwise fun n m => n.start < m.start

theorem rising_nodesOf {ts : List SyntaxTree} {a b : Nat} (h : InRow a b ts)
    (below : ∀ t ∈ ts, Rising t.nodes) : Rising (nodesOf ts) := by
  induction ts generalizing a with
  | nil => exact .nil
  | cons t ts ih =>
    obtain ⟨⟨-, ht⟩, hts⟩ := InRow.cons_iff.1 h
    obtain ⟨first, rest⟩ := List.forall_mem_cons.1 below
    rw [Rising, nodesOf, List.filter_append]
    refine List.pairwise_append.2 ⟨first, ih hts rest, fun n hn m hm => ?_⟩
    obtain ⟨hn, hcn⟩ := List.mem_filter.1 hn
    obtain ⟨hm, hcm⟩ := List.mem_filter.1 hm
    obtain ⟨u, hu, hm⟩ := mem_nodesOf.1 hm
    have left := range_of_isClassLike ht (mem_nodes_iff.1 hn) hcn
    have right := range_of_isClassLike (hts.2 u hu) (mem_nodes_iff.1 hm) hcm
    have := (range_of_mem hts.1 hu).1
    omega

theorem rising_nodes (h : isOrderly t) : Rising t.nodes := by
  induction t using induction_children with
  | h t ih =>
    have row := InRow.children h
    have below := rising_nodesOf row fun c hc => ih c hc (row.2 c hc)
    rw [Rising, nodes_eq, List.filter_cons]
    split
    · next ht =>
      refine List.pairwise_cons.2 ⟨fun n hn => ?_, below⟩
      obtain ⟨hn, hcn⟩ := List.mem_filter.1 hn
      obtain ⟨c, hc, hn⟩ := mem_nodesOf.1 hn
      exact start_lt_of_contains h ht hc (mem_nodes_iff.1 hn) hcn
    · exact below

theorem pairwise_start_of_readAt {ts ns : List SyntaxTree} {cs : List ClassDeclaration} {a b : Nat}
    (h : InRow a b ts) (read : List.Forall₂ ReadAt cs ns) (sub : ns.Sublist (nodesOf ts)) :
    cs.Pairwise fun c d => c.start < d.start := by
  have classes : ∀ n ∈ ns, isClassLike n.kind := by
    intro n hn
    obtain ⟨i, hi, rfl⟩ := List.getElem_of_mem hn
    exact (List.Forall₂.get read (by rw [read.length_eq]; exact hi) hi).isClassLike
  have sub := sub.filter fun n => isClassLike n.kind
  rw [List.filter_eq_self.2 classes] at sub
  have rising : Rising (nodesOf ts) := rising_nodesOf h fun t ht => rising_nodes (h.2 t ht)
  have starts : cs.map ClassDeclaration.start = ns.map SyntaxTree.start := by
    rw [← List.forall₂_eq_eq_eq, List.forall₂_map_left_iff, List.forall₂_map_right_iff]
    exact read.imp fun _ _ hr => hr.start
  rw [← List.pairwise_map (f := ClassDeclaration.start) (R := (· < ·)), starts, List.pairwise_map]
  exact rising.sublist sub

theorem pairwise_start_declaredIn {ts : List SyntaxTree} {a b : Nat} (h : InRow a b ts)
    (s : Scope) : (declaredIn s ts).2.Pairwise fun c d => c.start < d.start := by
  obtain ⟨ns, read, sub, -⟩ := readOff_declaredIn ts s
  exact pairwise_start_of_readAt h read sub

/-- What is read below a node is found again where it was read. -/
theorem found_of_readAt {t : SyntaxTree} {ns : List SyntaxTree} {cs : List ClassDeclaration}
    {a b : Nat} (h : InRow a b t.children) (read : List.Forall₂ ReadAt cs ns)
    (sub : ns.Sublist (nodesOf t.children)) :
    List.Forall₂ (fun c n => ReadAt c n ∧ c.find? t = some n) cs ns := by
  obtain ⟨length, each⟩ := List.forall₂_iff_zip.1 read
  refine List.forall₂_iff_zip.2 ⟨length, fun {c n} hcn => ⟨each hcn, ?_⟩⟩
  obtain ⟨u, hu, hn⟩ := mem_nodesOf.1 (sub.subset (List.of_mem_zip hcn).2)
  exact find?_of_inRow h hu (mem_nodes_iff.1 hn) (each hcn).isClassLike (each hcn).start

/-- The nodes `ns` are those that declare the index of `t`, and each declaration leads back to the
node at which it was read. -/
structure Indexed (t : SyntaxTree) (ns : List SyntaxTree) : Prop where
  preorder : ns.Sublist t.nodes
  outermost : ∀ n, n ∈ ns ↔ hasName n ∧ Outermost n t
  rising : (index t).Pairwise fun c d => c.start < d.start
  found : List.Forall₂ (fun c n => ReadAt c n ∧ c.find? t = some n) (index t) ns

theorem not_indexed {n : SyntaxTree} (h : index t = []) (hn : hasName n) (ho : Outermost n t) :
    ¬ ∃ ns, Indexed t ns := by
  rintro ⟨ns, indexed⟩
  have found := indexed.found
  rw [h, List.forall₂_nil_left_iff] at found
  have listed := (indexed.outermost n).2 ⟨hn, ho⟩
  rw [found] at listed
  cases listed

theorem exists_indexed {a b : Nat} (root : isClassLike t.kind = false)
    (row : InRow a b t.children) : ∃ ns, Indexed t ns := by
  have tidy : ∀ c ∈ t.children, c.every isTidy := fun c hc => (isOrderly_iff_every.1 (row.2 c hc)).2
  obtain ⟨ns, read, sub, exact⟩ := readOff_declaredIn t.children default
  refine ⟨ns, ?_, fun n => ?_, pairwise_start_declaredIn row default, found_of_readAt row read sub⟩
  · exact sub.trans (nodesOf_children_sublist .here)
  · rw [exact tidy, Outermost.iff_of_not_isClassLike root]

end Order

end Classes

end ContainerAliases
