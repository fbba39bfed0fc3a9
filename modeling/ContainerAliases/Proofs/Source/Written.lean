import ContainerAliases.Alias.Collection
import ContainerAliases.Source.Node
import Mathlib.Data.List.Forall2

namespace ContainerAliases.Source

open Alias

/-- What stands before an arrow. -/
inductive Written.Key where
  | text (raw : String)
  | other
  deriving DecidableEq, Repr

/-- What stands behind an arrow, or alone. -/
inductive Written.Value where
  | text (raw : String)
  | array (elements : List (Option Written.Key × Written.Value))
  | other

/-- A value, with its key if there is one. -/
abbrev Written.Element := Option Written.Key × Written.Value

namespace SyntaxTree

/-- The node can stand for an expression. -/
def isSolid (t : SyntaxTree) : Bool := t.isNamed && !t.isComment

def isArrow (t : SyntaxTree) : Bool := t.kind == .token "=>"

/-- There is nothing to fill in between the quotes. -/
def isPlain (t : SyntaxTree) : Bool := t.namedChildren.all fun c => Node.plainParts.contains c.kind

/-- A quoted text, with any quotes and contents. -/
def isText (t : SyntaxTree) : Bool := t.kind == .string || t.kind == .encapsedString && t.isPlain

/-- The node is `raw` between quotes. One letter may stand in front. -/
def quotes (t : SyntaxTree) (raw : String) : Bool :=
  ["", "b", "B"].any fun mark =>
    t.kind == .string && t.text == mark ++ "'" ++ raw ++ "'" ||
      t.kind == .encapsedString && t.isPlain && t.text == mark ++ "\"" ++ raw ++ "\""

/-- The value, if `t` assigns one to the variable. Comments may stand anywhere. -/
def assigned? (t : SyntaxTree) (name : String) : Option SyntaxTree :=
  match t.children.filter fun c => !c.isComment with
  | [target, equals, value] =>
    if t.kind = .assignment ∧ (∀ c ∈ t.children, c.isComment → c.role = none) ∧
        target.kind = .variableName ∧ target.text = "$" ++ name ∧ target.role = some .left ∧
        equals.kind = .token "=" ∧ value.isNamed then
      some value
    else none
  | _ => none

end SyntaxTree

namespace Written

def Key.raw? : Key → Option String
  | .text raw => some raw
  | .other => none

def Value.raw? : Value → Option String
  | .text raw => some raw
  | _ => none

/-- The names that are meant: a text that is not blank, or all texts of an array. -/
def Value.names : Value → List String
  | .text raw => if raw.toList.all Text.isBlank then [] else [raw]
  | .array es => es.filterMap fun e => e.2.raw?
  | .other => []

def bindings (es : List Element) : List (String × List String) :=
  es.filterMap fun e => (e.1.bind Key.raw?).map fun k => (k, e.2.names)

theorem mem_bindings {es : List Element} {k : String} {ns : List String} :
    (k, ns) ∈ bindings es ↔ ∃ v, (some (.text k), v) ∈ es ∧ v.names = ns := by
  simp only [bindings, List.mem_filterMap, Option.map_eq_some_iff, Prod.mk.injEq]
  constructor
  · rintro ⟨⟨key, v⟩, hm, raw, hk, rfl, hv⟩
    obtain ⟨key, rfl, hk⟩ := Option.bind_eq_some_iff.1 hk
    cases key with
    | text raw' => exact ⟨v, Option.some.inj hk ▸ hm, hv⟩
    | other => cases hk
  · rintro ⟨v, hm, hv⟩
    exact ⟨_, hm, k, rfl, rfl, hv⟩

theorem bindings_append_cons (before : List Element) (k : String) (v : Value)
    (after : List Element) :
    bindings (before ++ (some (.text k), v) :: after) =
      bindings before ++ (k, v.names) :: bindings after := by
  rw [bindings, List.filterMap_append, List.filterMap_cons]
  rfl

def Key.isWrittenAs (t : SyntaxTree) : Key → Bool
  | .text raw => t.quotes raw
  | .other => t.isSolid && !t.isText

mutual

/-- The value may be written as `t`. -/
def Value.isWrittenAs : Value → SyntaxTree → Bool
  | .text raw, t => t.quotes raw
  | .array es, t => t.kind == .arrayCreation && areWrittenAs es (t.children.filter (·.isSolid))
  | .other, t => t.isSolid && !t.isText && t.kind != .arrayCreation

def areWrittenAs : List (Option Key × Value) → List SyntaxTree → Bool
  | [], [] => true
  | e :: es, t :: ts =>
    t.kind == .arrayElement &&
      elementIsWrittenAs e (t.children.filter fun c => c.isArrow || c.isSolid) && areWrittenAs es ts
  | _, _ => false

def elementIsWrittenAs : Option Key × Value → List SyntaxTree → Bool
  | (none, v), [t] => v.isWrittenAs t
  | (some k, v), [s, arrow, t] => k.isWrittenAs s && arrow.isArrow && v.isWrittenAs t
  | _, _ => false

end

end Written

namespace Node

theorem map_tree_allChildren (n : Node) : n.allChildren.map tree = n.tree.children :=
  map_tree_row _ _ _

theorem map_tree_filter (f : SyntaxTree → Bool) (ns : List Node) :
    (ns.filter fun n => f n.tree).map tree = (ns.map tree).filter f := by
  rw [List.filter_map]
  rfl

theorem map_tree_children (n : Node) : n.children.map tree = n.tree.namedChildren := by
  rw [children, map_tree_filter, map_tree_allChildren]
  rfl

theorem isString_eq (n : Node) : n.isString = n.tree.isText := by
  have plain : (n.children.all fun c => plainParts.contains c.kind) = n.tree.isPlain := by
    rw [SyntaxTree.isPlain, ← map_tree_children, List.all_map]
    rfl
  unfold isString SyntaxTree.isText
  rw [plain, kind]
  cases n.tree.kind <;> simp

theorem map_tree_find?_row (above : Option Kind) (before ts : List SyntaxTree)
    (f : SyntaxTree → Bool) :
    ((row above before ts).find? fun s => f s.tree).map tree = ts.find? f := by
  induction ts generalizing before with
  | nil => rfl
  | cons t ts ih =>
    rw [row, List.find?_cons, List.find?_cons]
    cases f t with
    | true => rfl
    | false => exact ih (t :: before)

theorem map_tree_next (n : Node) : n.next.map tree = n.after.find? (·.isSolid) :=
  map_tree_find?_row n.above (n.tree :: n.before) n.after SyntaxTree.isSolid

theorem mem_row (above : Option Kind) (before ts us : List SyntaxTree) (t : SyntaxTree) :
    ⟨t, above, ts.reverse ++ before, us⟩ ∈ row above before (ts ++ t :: us) := by
  induction ts generalizing before with
  | nil => exact List.mem_cons_self
  | cons s ts ih =>
    rw [List.reverse_cons, List.append_assoc]
    exact List.mem_cons_of_mem _ (ih (s :: before))

theorem unquote_append {q : Char} (hq : q = '\'' ∨ q = '"') (cs : List Char) :
    unquote (q :: (cs ++ [q])) = some cs := by
  rw [unquote, if_pos ⟨hq, by simp⟩, List.dropLast_concat]

theorem literal_of_quotes {n : Node} {raw : String} (h : n.tree.quotes raw) :
    n.literal = some raw := by
  obtain ⟨mark, hm, h⟩ := List.any_eq_true.1 h
  have text {q : Char} (hq : q = '\'' ∨ q = '"')
      (ht : n.text.toList = mark.toList ++ q :: (raw.toList ++ [q])) :
      (unquote (dropBinaryMark n.text.toList)).map String.ofList = some raw := by
    have hd : dropBinaryMark n.text.toList = q :: (raw.toList ++ [q]) := by
      rw [ht]
      simp only [List.mem_cons, List.not_mem_nil, or_false] at hm
      rcases hm with rfl | rfl | rfl
      · rcases hq with rfl | rfl <;> rfl
      · rfl
      · rfl
    rw [hd, unquote_append hq, Option.map_some, String.ofList_toList]
  rw [literal, isString_eq]
  simp only [Bool.or_eq_true, Bool.and_eq_true, beq_iff_eq] at h
  rcases h with ⟨hk, ht⟩ | ⟨⟨hk, hp⟩, ht⟩
  · rw [if_pos (by simp [SyntaxTree.isText, hk])]
    refine text (.inl rfl) ?_
    simp [Node.text, ht]
  · rw [if_pos (by simp [SyntaxTree.isText, hk, hp])]
    refine text (.inr rfl) ?_
    simp [Node.text, ht]

theorem isText_of_quotes {t : SyntaxTree} {raw : String} (h : t.quotes raw) : t.isText := by
  obtain ⟨mark, -, h⟩ := List.any_eq_true.1 h
  simp only [Bool.or_eq_true, Bool.and_eq_true, beq_iff_eq] at h
  rcases h with ⟨hk, -⟩ | ⟨⟨hk, hp⟩, -⟩
  · simp [SyntaxTree.isText, hk]
  · simp [SyntaxTree.isText, hk, hp]

theorem isSolid_of_isText {t : SyntaxTree} (h : t.isText) : t.isSolid := by
  simp only [SyntaxTree.isText, Bool.or_eq_true, Bool.and_eq_true, beq_iff_eq] at h
  rcases h with hk | ⟨hk, -⟩ <;>
    simp [SyntaxTree.isSolid, SyntaxTree.isNamed, SyntaxTree.isComment, hk, Kind.isNamed]

theorem literal_of_not_isText {n : Node} (h : n.tree.isText = false) : n.literal = none := by
  rw [literal, isString_eq, h]
  rfl

end Node

namespace SyntaxTree

theorem exists_children_of_assigned? {t value : SyntaxTree} {name : String}
    (h : t.assigned? name = some value) :
    ∃ before target after, t.children = before ++ target :: after ∧ t.kind = .assignment ∧
      (∀ c ∈ before, c.role = none) ∧ target.kind = .variableName ∧ target.text = "$" ++ name ∧
      target.role = some .left ∧ after.find? (·.isSolid) = some value := by
  unfold assigned? at h
  split at h
  · next target equals value' hf =>
    split at h
    · next hs =>
      obtain ⟨hk, hc, hkind, htext, hrole, heq, hn⟩ := hs
      obtain rfl : value' = value := Option.some.inj h
      obtain ⟨before, after, hch, hb, -, hf⟩ := List.filter_eq_cons_iff.1 hf
      obtain ⟨between, rest, rfl, hbetween, -, hf⟩ := List.filter_eq_cons_iff.1 hf
      obtain ⟨late, last, rfl, hlate, hv, -⟩ := List.filter_eq_cons_iff.1 hf
      have comment {cs : List SyntaxTree} (h : ∀ c ∈ cs, ¬ (!c.isComment) = true) :
          cs.find? (·.isSolid) = none := by
        refine List.find?_eq_none.2 fun c hm => ?_
        have hcomment : c.isComment := by simpa using h c hm
        simp [isSolid, hcomment]
      refine ⟨before, target, _, hch, hk, fun c hm => hc c ?_ (by simpa using hb c hm), hkind,
        htext, hrole, ?_⟩
      · rw [hch]
        exact List.mem_append_left _ hm
      · have equals_not_solid : equals.isSolid = false := by
          simp [isSolid, isNamed, heq, Kind.isNamed]
        have value_solid : value'.isSolid := by
          simpa [isSolid, hn] using hv
        simp [comment hbetween, comment hlate, equals_not_solid, value_solid]
    · cases h
  · cases h

end SyntaxTree

namespace Node

theorem exists_declares_of_assigned? {a : Node} {value : SyntaxTree} {name : String}
    (h : a.tree.assigned? name = some value) :
    ∃ d ∈ a.children, d.declares = some name ∧ d.next.map tree = some value := by
  obtain ⟨before, target, after, hch, hk, hb, hkind, htext, hrole, hnext⟩ :=
    SyntaxTree.exists_children_of_assigned? h
  refine ⟨⟨target, some .assignment, before.reverse, after⟩, ?_, ?_, ?_⟩
  · refine List.mem_filter.2 ⟨?_, by simp [SyntaxTree.isNamed, hkind, Kind.isNamed]⟩
    have := mem_row (some a.kind) [] before after target
    rw [List.append_nil] at this
    rw [allChildren, hch, ← hk]
    exact this
  · have plays : Node.plays ⟨target, some .assignment, before.reverse, after⟩ .left := by
      simp only [Node.plays, hrole, beq_self_eq_true, Bool.true_and, List.all_reverse,
        List.all_eq_true]
      intro c hm
      simp [hb c hm]
    have kind : Node.kind ⟨target, some .assignment, before.reverse, after⟩ = .variableName := hkind
    have name_eq : dropDollar target.text.toList = name.toList := by
      rw [htext, String.toList_append]
      rfl
    rw [declares, kind, isTarget, plays]
    simp only [beq_self_eq_true, Bool.and_self, if_true, Node.text, name_eq, String.ofList_toList]
  · rw [map_tree_next]
    exact hnext

end Node

namespace Node

theorem not_isArrow_of_isSolid {t : SyntaxTree} (h : t.isSolid) : t.isArrow = false := by
  by_contra ha
  have hk : t.kind = .token "=>" := by simpa [SyntaxTree.isArrow] using ha
  simp [SyntaxTree.isSolid, SyntaxTree.isNamed, hk, Kind.isNamed] at h

def parts (n : Node) : List Node :=
  n.allChildren.filter fun c => c.tree.isArrow || c.tree.isSolid

theorem map_tree_parts (n : Node) :
    n.parts.map tree = n.tree.children.filter fun c => c.isArrow || c.isSolid := by
  rw [parts, map_tree_filter fun t => t.isArrow || t.isSolid, map_tree_allChildren]

theorem arrowParts_eq (n : Node) :
    n.arrowParts = match n.parts.dropWhile fun c => !c.tree.isArrow with
      | [] => (n.parts, none)
      | _ :: after => (n.parts.takeWhile fun c => !c.tree.isArrow,
        some (after.filter fun c => !c.tree.isArrow)) := rfl

theorem element?_of_single {n x : Node} (h : n.parts = [x]) (hx : x.tree.isArrow = false) :
    n.element? = some ⟨none, x⟩ := by
  have arrowParts : n.arrowParts = ([x], none) := by simp [arrowParts_eq, h, hx]
  rw [element?, arrowParts]

theorem element?_of_arrow {n x y z : Node} (h : n.parts = [x, y, z])
    (hx : x.tree.isArrow = false) (hy : y.tree.isArrow) (hz : z.tree.isArrow = false) :
    n.element? = some ⟨some x, z⟩ := by
  have arrowParts : n.arrowParts = ([x], some [z]) := by simp [arrowParts_eq, h, hx, hy, hz]
  rw [element?, arrowParts]

end Node

namespace Written

theorem Key.literal_eq {k : Key} {n : Node} (h : k.isWrittenAs n.tree) : n.literal = k.raw? := by
  cases k with
  | text raw => exact Node.literal_of_quotes h
  | other =>
    simp only [isWrittenAs, Bool.and_eq_true, Bool.not_eq_true'] at h
    exact Node.literal_of_not_isText h.2

theorem Value.literal_eq {v : Value} {n : Node} (h : v.isWrittenAs n.tree) :
    n.literal = v.raw? := by
  cases v with
  | text raw =>
    rw [isWrittenAs] at h
    exact Node.literal_of_quotes h
  | array es =>
    simp only [isWrittenAs, Bool.and_eq_true, beq_iff_eq] at h
    exact Node.literal_of_not_isText (by simp [SyntaxTree.isText, h.1])
  | other =>
    simp only [isWrittenAs, Bool.and_eq_true, Bool.not_eq_true'] at h
    exact Node.literal_of_not_isText h.1.2

theorem Key.isSolid_of_isWrittenAs {k : Key} {t : SyntaxTree} (h : k.isWrittenAs t) :
    t.isSolid := by
  cases k with
  | text raw => exact Node.isSolid_of_isText (Node.isText_of_quotes h)
  | other =>
    simp only [isWrittenAs, Bool.and_eq_true] at h
    exact h.1

theorem Value.isSolid_of_isWrittenAs {v : Value} {t : SyntaxTree} (h : v.isWrittenAs t) :
    t.isSolid := by
  cases v with
  | text raw =>
    rw [isWrittenAs] at h
    exact Node.isSolid_of_isText (Node.isText_of_quotes h)
  | array es =>
    simp only [isWrittenAs, Bool.and_eq_true, beq_iff_eq] at h
    simp [SyntaxTree.isSolid, SyntaxTree.isNamed, SyntaxTree.isComment, h.1, Kind.isNamed]
  | other =>
    simp only [isWrittenAs, Bool.and_eq_true] at h
    exact h.1.1

/-- The element as it is found in the tree. -/
structure Element.Shows (e : Element) (a : ArrayElement Node) : Prop where
  key : a.key.bind Node.literal = e.1.bind Key.raw?
  value : e.2.isWrittenAs a.value.tree

theorem eq_singleton_of_elementIsWrittenAs {v : Value} {ts : List SyntaxTree}
    (h : elementIsWrittenAs (none, v) ts) : ∃ t, ts = [t] ∧ v.isWrittenAs t := by
  match ts with
  | [t] =>
    rw [elementIsWrittenAs] at h
    exact ⟨t, rfl, h⟩

theorem eq_arrow_of_elementIsWrittenAs {k : Key} {v : Value} {ts : List SyntaxTree}
    (h : elementIsWrittenAs (some k, v) ts) :
    ∃ s arrow t, ts = [s, arrow, t] ∧ k.isWrittenAs s ∧ arrow.isArrow ∧ v.isWrittenAs t := by
  match ts with
  | [s, arrow, t] =>
    simp only [elementIsWrittenAs, Bool.and_eq_true] at h
    exact ⟨s, arrow, t, rfl, h.1.1, h.1.2, h.2⟩

theorem exists_element? {e : Element} {n : Node}
    (h : elementIsWrittenAs e (n.tree.children.filter fun c => c.isArrow || c.isSolid)) :
    ∃ a, n.element? = some a ∧ e.Shows a := by
  rw [← n.map_tree_parts] at h
  obtain ⟨_ | k, v⟩ := e
  · obtain ⟨t, hts, hv⟩ := eq_singleton_of_elementIsWrittenAs h
    obtain ⟨x, hp, rfl⟩ := List.map_eq_singleton_iff.1 hts
    have hx := Node.not_isArrow_of_isSolid (Value.isSolid_of_isWrittenAs hv)
    exact ⟨⟨none, x⟩, Node.element?_of_single hp hx, rfl, hv⟩
  · obtain ⟨s, arrow, t, hts, hk, ha, hv⟩ := eq_arrow_of_elementIsWrittenAs h
    obtain ⟨x, ys, hp, rfl, hys⟩ := List.map_eq_cons_iff.1 hts
    obtain ⟨y, zs, rfl, rfl, hzs⟩ := List.map_eq_cons_iff.1 hys
    obtain ⟨z, rfl, rfl⟩ := List.map_eq_singleton_iff.1 hzs
    have hx := Node.not_isArrow_of_isSolid (Key.isSolid_of_isWrittenAs hk)
    have hz := Node.not_isArrow_of_isSolid (Value.isSolid_of_isWrittenAs hv)
    exact ⟨⟨some x, z⟩, Node.element?_of_arrow hp hx ha hz, Key.literal_eq hk, hv⟩

theorem forall₂_filterMap_element? {es : List Element} {ns : List Node}
    (h : areWrittenAs es (ns.map Node.tree)) :
    List.Forall₂ Element.Shows es (ns.filterMap Node.element?) ∧
      ∀ n ∈ ns, n.kind = .arrayElement := by
  induction es generalizing ns with
  | nil =>
    cases ns with
    | nil => exact ⟨.nil, nofun⟩
    | cons n ns => simp [areWrittenAs] at h
  | cons e es ih =>
    cases ns with
    | nil => simp [areWrittenAs] at h
    | cons n ns =>
      simp only [List.map_cons, areWrittenAs, Bool.and_eq_true, beq_iff_eq] at h
      obtain ⟨⟨hk, he⟩, hes⟩ := h
      obtain ⟨a, ha, hs⟩ := exists_element? he
      obtain ⟨ih, hks⟩ := ih hes
      rw [List.filterMap_cons, ha]
      exact ⟨.cons hs ih, List.forall_mem_cons.2 ⟨hk, hks⟩⟩

/-- The elements of an array are found one by one. -/
theorem forall₂_elements {es : List Element} {n : Node}
    (h : (Value.array es).isWrittenAs n.tree) :
    List.Forall₂ Element.Shows es n.elements := by
  simp only [Value.isWrittenAs, Bool.and_eq_true, beq_iff_eq] at h
  obtain ⟨hk, h⟩ := h
  let solid := n.allChildren.filter fun c => c.tree.isSolid
  have map_solid : solid.map Node.tree = n.tree.children.filter (·.isSolid) := by
    rw [Node.map_tree_filter, Node.map_tree_allChildren]
  rw [← map_solid] at h
  obtain ⟨he, hks⟩ := forall₂_filterMap_element? h
  -- nothing but comments stands beside the elements
  have only : (n.children.filter fun c => c.kind == .arrayElement) = solid := by
    rw [Node.children, List.filter_filter]
    refine List.filter_congr fun c hc => ?_
    cases hs : c.tree.isSolid with
    | true =>
      have hk := hks c (List.mem_filter.2 ⟨hc, hs⟩)
      simp only [SyntaxTree.isSolid, Bool.and_eq_true] at hs
      simp [hk, hs.1]
    | false =>
      have hk : c.kind ≠ .arrayElement := by
        intro hk
        have hk : c.tree.kind = .arrayElement := hk
        simp [SyntaxTree.isSolid, SyntaxTree.isNamed, SyntaxTree.isComment, hk, Kind.isNamed] at hs
      simp [hk]
  have array : n.isArray := by simp [Node.isArray, Node.kind, hk]
  rw [Node.elements, if_pos array, only]
  exact he

theorem literalValues_eq {es : List Element} {as : List (ArrayElement Node)}
    (h : List.Forall₂ Element.Shows es as) :
    as.filterMap (fun a => a.value.literal) = es.filterMap fun e => e.2.raw? := by
  induction h with
  | nil => rfl
  | cons hs _ ih => rw [List.filterMap_cons, List.filterMap_cons, ih, Value.literal_eq hs.value]

theorem Value.namesOf_eq {v : Value} {n : Node} (h : v.isWrittenAs n.tree) :
    namesOf n = v.names := by
  have literal : SyntaxNode.literal n = v.raw? := literal_eq h
  cases v with
  | text raw =>
    rw [isWrittenAs] at h
    have quoted : SyntaxNode.isString n := (Node.isString_eq n).trans (Node.isText_of_quotes h)
    rw [namesOf, if_pos quoted, contents?, literal, raw?, Option.filter_some, names, Text.allBlank]
    cases raw.toList.all Text.isBlank <;> rfl
  | array es =>
    have elements := forall₂_elements h
    simp only [isWrittenAs, Bool.and_eq_true, beq_iff_eq] at h
    have unquoted : ¬ n.isString := by simp [Node.isString_eq, SyntaxTree.isText, h.1]
    have array : n.isArray := by simp [Node.isArray, Node.kind, h.1]
    change (if n.isString then _ else if n.isArray then literalValues n else []) = _
    rw [if_neg unquoted, if_pos array]
    exact literalValues_eq elements
  | other =>
    simp only [isWrittenAs, Bool.and_eq_true, Bool.not_eq_true', bne_iff_ne] at h
    have unquoted : ¬ n.isString := by simp [Node.isString_eq, h.1.2]
    have array : ¬ n.isArray := by simpa [Node.isArray, Node.kind] using h.2
    change (if n.isString then _ else if n.isArray then _ else []) = _
    rw [if_neg unquoted, if_neg array]
    rfl

theorem map_filterMap_ofElement? {es : List Element} {as : List (ArrayElement Node)}
    (h : List.Forall₂ Element.Shows es as) :
    (as.filterMap Entry.ofElement?).map (fun e => (e.key, namesOf e.value)) = bindings es := by
  induction h with
  | nil => rfl
  | @cons e a es as hs _ ih =>
    have entry : Entry.ofElement? a =
        (e.1.bind Key.raw?).map fun k => (⟨k, a.value⟩ : Entry Node) := by
      rw [← hs.key, Entry.ofElement?]
      cases a.key with
      | none => rfl
      | some x => exact Option.map_eq_bind.symm
    rw [bindings, List.filterMap_cons, List.filterMap_cons, entry]
    cases e.1.bind Key.raw? with
    | none => exact ih
    | some k => exact congrArg₂ List.cons (congrArg (Prod.mk k) (Value.namesOf_eq hs.value)) ih

/-- The entries of a written array bind its text keys as they were written. -/
theorem map_ofArray {es : List Element} {n : Node} (h : (Value.array es).isWrittenAs n.tree) :
    (Entry.ofArray n).map (fun e => (e.key, namesOf e.value)) = bindings es :=
  map_filterMap_ofElement? (forall₂_elements h)

end Written

end ContainerAliases.Source
