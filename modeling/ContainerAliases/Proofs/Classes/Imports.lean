import ContainerAliases.Proofs.Classes.Clauses
import ContainerAliases.Source.Grammar.Statement

namespace ContainerAliases.Classes

open Source

/-- The scope `s'` is `s` with these names bound in it. -/
structure Scope.Gains (s s' : Scope) (bindings : List (String × String)) : Prop where
  space : s'.space = s.space
  bound : ∀ b ∈ bindings, s'.imports.lookup b.1 = some b.2
  others : ∀ key, key ∉ bindings.map Prod.fst → s'.imports.lookup key = s.imports.lookup key

theorem Scope.Gains.nil (s : Scope) : s.Gains s [] := ⟨rfl, nofun, fun _ _ => rfl⟩

/-- What was not bound before and is bound now is what was gained. -/
theorem Scope.Gains.eq_of_sublist {s s' : Scope} {bs bs' : List (String × String)}
    (h : s.Gains s' bs) (h' : s.Gains s' bs') (sub : bs'.Sublist bs)
    (distinct : (bs.map Prod.fst).Nodup) (new : ∀ b ∈ bs, s.imports.lookup b.1 = none) :
    bs' = bs := by
  have mem : ∀ b ∈ bs, b ∈ bs' := by
    intro b hb
    have key : b.1 ∈ bs'.map Prod.fst := by
      by_contra hk
      have absent := h'.others b.1 hk
      rw [h.bound b hb, new b hb] at absent
      cases absent
    obtain ⟨b', hb', he⟩ := List.mem_map.1 key
    rwa [← List.inj_on_of_nodup_map distinct (sub.subset hb') hb he]
  have nodup : bs.Nodup := .of_map Prod.fst distinct
  exact sub.eq_of_length_le (nodup.subperm mem).length_le

/-- No later one of the names hides an earlier one. -/
theorem Scope.gains_of_nodup {bindings : List (String × String)}
    (h : (bindings.map Prod.fst).Nodup) (s : Scope) :
    s.Gains { s with imports := bindings ++ s.imports } bindings := by
  refine ⟨rfl, fun b hb => ?_, fun key hk => ?_⟩
  · obtain ⟨before, after, rfl⟩ := List.append_of_mem hb
    rw [List.map_append, List.nodup_append] at h
    have first : (before ++ b :: after).lookup b.1 = some b.2 := by
      refine List.lookup_eq_some_iff.2 ⟨before, after, rfl, fun p hp => ?_⟩
      exact bne_iff_ne.2 (h.2.2 p.1 (List.mem_map_of_mem hp) b.1 List.mem_cons_self).symm
    rw [List.lookup_append, first, Option.some_or]
  · have absent : bindings.lookup key = none := by
      refine List.lookup_eq_none_iff.2 fun p hp => bne_iff_ne.2 ?_
      rintro rfl
      exact hk (List.mem_map_of_mem hp)
    rw [List.lookup_append, absent, Option.none_or]

namespace Import

def startsForeign (cs : List Char) : Bool :=
  "function".toList.isPrefixOf cs || "const".toList.isPrefixOf cs

theorem isForeign_eq (t : SyntaxTree) : isForeign t = startsForeign (head t) := rfl

/-- How the text of a declaration begins. -/
structure Opening (t : SyntaxTree) where
  keyword : String
  gap : String
  /-- The token behind `use`. -/
  first : String
  rest : String
  text_eq : t.text = keyword ++ gap ++ first ++ rest
  keyword_eq : lower keyword = "use"
  /-- What is not white space in the gap begins with no letter. -/
  gap_begins : (Text.dropBlank gap.toList).head?.all (fun c => !c.isAlpha)
  first_visible : first.toList.all Text.isBlank = false
  /-- The token goes as far as letters go. -/
  first_ends : first = "\\" ∨ rest.toList.head?.all (fun c => !c.isAlpha)

def seemsForeign (token : String) : Bool :=
  startsForeign ((Text.dropBlank token.toList).map Char.toLower)

theorem isAlpha_toLower (c : Char) : c.toLower.isAlpha = c.isAlpha :=
  toLower_of_ascii (P := fun c d => d.isAlpha = c.isAlpha) (by decide) (fun _ => rfl) c

/-- A word is not spelled beyond the end of a token. -/
theorem isPrefixOf_append {w a b : List Char} (hw : ∀ c ∈ w, c.isAlpha)
    (hb : b.head?.all fun c => !c.isAlpha) : w.isPrefixOf (a ++ b) = w.isPrefixOf a := by
  rw [Bool.eq_iff_iff, List.isPrefixOf_iff_prefix, List.isPrefixOf_iff_prefix]
  refine ⟨fun h => ?_, List.prefix_append_of_prefix⟩
  by_cases hl : w.length ≤ a.length
  · exact List.prefix_of_prefix_length_le h (List.prefix_append a b) hl
  · -- the word would go on behind `a`, with a letter
    have ha : a <+: w := List.prefix_of_prefix_length_le (List.prefix_append a b) h (by omega)
    obtain ⟨w', rfl⟩ := ha
    rw [List.prefix_append_right_inj] at h
    obtain ⟨b', rfl⟩ := h
    cases w' with
    | nil => simp
    | cons c w' =>
      have letter := hw c (by simp)
      have other : c.isAlpha = false := by simpa using hb
      cases letter.symm.trans other

theorem startsForeign_append {a b : List Char} (hb : b.head?.all fun c => !c.isAlpha) :
    startsForeign (a ++ b) = startsForeign a := by
  have function_letters : ∀ c ∈ "function".toList, c.isAlpha := by simp
  have const_letters : ∀ c ∈ "const".toList, c.isAlpha := by simp
  rw [startsForeign, isPrefixOf_append function_letters hb, isPrefixOf_append const_letters hb,
    startsForeign]

theorem startsForeign_cons_of_not_isAlpha {c : Char} (hc : c.isAlpha = false) (cs : List Char) :
    startsForeign (c :: cs) = false := by
  have letter (d : Char) (hd : d.isAlpha) (ds : List Char) :
      (d :: ds).isPrefixOf (c :: cs) = false := by
    have hne : d ≠ c := by
      rintro rfl
      cases hd.symm.trans hc
    rw [List.isPrefixOf_cons_cons, beq_false_of_ne hne, Bool.false_and]
  rw [startsForeign, Bool.or_eq_false_iff]
  exact ⟨letter 'f' (by decide) _, letter 'c' (by decide) _⟩

namespace Opening

variable {t : SyntaxTree} (o : Opening t)

/-- Nothing but white space stands behind `use`. -/
def isTight : Bool := o.gap.toList.all Text.isBlank

theorem head_eq : head t =
    (Text.dropBlank (o.gap.toList ++ (o.first.toList ++ o.rest.toList))).map Char.toLower := by
  have word : o.keyword.toList.map Char.toLower = ['u', 's', 'e'] := by
    rw [← toList_lower, o.keyword_eq]
    rfl
  obtain ⟨u, us, hk, hu, word⟩ := List.map_eq_cons_iff.1 word
  obtain ⟨s, ss, rfl, hs, word⟩ := List.map_eq_cons_iff.1 word
  obtain ⟨e, rfl, he⟩ := List.map_eq_singleton_iff.1 word
  -- letters may be capital ones, but are of one byte each
  have size {c d : Char} (h : c.toLower = d) (hd : d.utf8Size = 1) : c.utf8Size = 1 := by
    rw [← utf8Size_toLower, h, hd]
  have visible : Text.isBlank u = false := by
    rw [← isBlank_toLower, hu]
    decide
  have text : t.text.toList = u :: s :: e ::
      (o.gap.toList ++ (o.first.toList ++ o.rest.toList)) := by
    rw [o.text_eq]
    simp [hk]
  have start : Text.dropBlank t.text.toList = t.text.toList := by
    rw [text]
    exact List.dropWhile_cons_of_neg (by simp [visible])
  have dropped : dropBytes 3 t.text.toList =
      some (o.gap.toList ++ (o.first.toList ++ o.rest.toList)) := by
    rw [text]
    simp [dropBytes, size hu rfl, size hs rfl, size he rfl]
  rw [head, start, dropped]
  rfl

/-- The letters that count are those of the token behind `use`, if no comment stands between. -/
theorem isForeign_eq : isForeign t = (o.isTight && seemsForeign o.first) := by
  rw [Import.isForeign_eq, o.head_eq, Text.dropBlank, List.dropWhile_append]
  cases ht : o.isTight with
  | true =>
    have gap : o.gap.toList.dropWhile Text.isBlank = [] :=
      List.dropWhile_eq_nil_iff.2 (List.all_eq_true.1 ht)
    have first : (o.first.toList.dropWhile Text.isBlank).isEmpty = false := by
      rw [List.isEmpty_eq_false_iff, Ne, List.dropWhile_eq_nil_iff, ← List.all_eq_true,
        o.first_visible]
      exact Bool.false_ne_true
    rw [gap, List.isEmpty_nil, if_pos rfl, List.dropWhile_append, first,
      if_neg Bool.false_ne_true, List.map_append, Bool.true_and]
    rcases o.first_ends with he | he
    · rw [seemsForeign, he]
      rfl
    · apply startsForeign_append
      have same : (fun c => !c.isAlpha) ∘ Char.toLower = fun c => !c.isAlpha := by
        funext c
        rw [Function.comp_apply, isAlpha_toLower]
      rw [List.head?_map, Option.all_map]
      exact (congrArg (Option.all · _) same).trans he
  | false =>
    -- a comment is where the letters would have to be
    cases gap : o.gap.toList.dropWhile Text.isBlank with
    | nil =>
      have ht' : o.isTight := List.all_eq_true.2 (List.dropWhile_eq_nil_iff.1 gap)
      cases ht.symm.trans ht'
    | cons c cs =>
      have other : c.isAlpha = false := by
        have := o.gap_begins
        rw [Text.dropBlank, gap] at this
        simpa using this
      rw [List.isEmpty_cons, if_neg Bool.false_ne_true, List.cons_append, List.map_cons,
        Bool.false_and]
      apply startsForeign_cons_of_not_isAlpha
      rw [isAlpha_toLower, other]

end Opening

def Use.beginsWith (d : Use) (first : String) : Bool :=
  match d.subject.word?, d.group, d.clauses with
  | some w, _, _ => lower first == w
  | none, some g, _ => first == "\\" || first == g
  | none, none, c :: _ => first == c.name
  | none, none, [] => false

/-- The scope `s'` after imports that were read in `s`. -/
structure Recorded (d : Use) {t : SyntaxTree} (o : Opening t) (s s' : Scope) : Prop where
  /-- Where the letters of `function` or `const` come right behind `use`, nothing is bound, be they
  those of a class name. -/
  dropped : o.isTight → seemsForeign o.first → s' = s
  /-- Anywhere else all clauses are bound, be there a word in a group or behind a comment. -/
  taken : (o.isTight && seemsForeign o.first) = false → s.Gains s' d.bindings
  /-- Classes alone are bound, and all of them, if no clause has a word of its own, a word behind
  `use` is read, and no name is mistaken for one. -/
  exact : (∀ c ∈ d.clauses, c.subject = .types) →
    (if d.subject = .types then seemsForeign o.first = false else o.isTight) →
    s.Gains s' d.typeBindings
  /-- Where the names were not bound before, nothing but the letters can have made it right. -/
  exact_iff : (∀ b ∈ d.bindings, s.imports.lookup b.1 = none) →
    (s.Gains s' d.typeBindings ↔
      d.typeBindings = if o.isTight && seemsForeign o.first then [] else d.bindings)

theorem seemsForeign_of_word {subject : Subject} {w first : String} (hw : subject.word? = some w)
    (h : lower first = w) : seemsForeign first := by
  rw [seemsForeign, ← dropBlank_map_toLower, ← toList_lower, h]
  cases subject <;> cases hw <;> rfl

theorem typeBindings_sublist (d : Use) : d.typeBindings.Sublist d.bindings := by
  unfold Use.typeBindings
  split
  · exact List.filter_sublist.map _
  · exact List.nil_sublist _

theorem typeBindings_of_types {d : Use} (hd : d.subject = .types)
    (hc : ∀ c ∈ d.clauses, c.subject = .types) : d.typeBindings = d.bindings := by
  have all : d.clauses.filter (fun c => c.subject = .types) = d.clauses :=
    List.filter_eq_self.2 fun c hm => decide_eq_true (hc c hm)
  rw [Use.typeBindings, if_pos hd, all, Use.bindings]

theorem typeBindings_of_clear {d : Use} {t : SyntaxTree} {o : Opening t}
    (begins : d.beginsWith o.first) (plain : ∀ c ∈ d.clauses, c.subject = .types)
    (clear : if d.subject = .types then seemsForeign o.first = false else o.isTight) :
    d.typeBindings = if o.isTight && seemsForeign o.first then [] else d.bindings := by
  split at clear
  · next hd =>
    rw [clear, Bool.and_false, if_neg Bool.false_ne_true]
    exact typeBindings_of_types hd plain
  · next hd =>
    obtain ⟨w, hw⟩ : ∃ w, d.subject.word? = some w := by
      cases hs : d.subject with
      | types => exact absurd hs hd
      | functions => exact ⟨_, rfl⟩
      | constants => exact ⟨_, rfl⟩
    have word : lower o.first = w := by
      rw [Use.beginsWith, hw] at begins
      simpa using begins
    rw [clear, seemsForeign_of_word hw word, Use.typeBindings, if_neg hd]
    rfl

/-- The letters behind `use` decide what is imported. -/
theorem letters_decide_imports {d : Use} {t : SyntaxTree} (o : Opening t)
    (written : d.isWrittenAs t) (begins : d.beginsWith o.first)
    (distinct : (d.bindings.map Prod.fst).Nodup) (s : Scope) : Recorded d o s (record s t) := by
  have recorded := record_of_isWrittenAs written s
  rw [o.isForeign_eq] at recorded
  have dropped (h : o.isTight && seemsForeign o.first) : record s t = s := by
    rw [recorded, if_pos h]
  have taken (h : (o.isTight && seemsForeign o.first) = false) :
      s.Gains (record s t) d.bindings := by
    rw [recorded, h, if_neg Bool.false_ne_true]
    exact s.gains_of_nodup distinct
  have gains : s.Gains (record s t)
      (if o.isTight && seemsForeign o.first then [] else d.bindings) := by
    split
    · next h =>
      rw [dropped h]
      exact .nil s
    · next h => exact taken (by simpa using h)
  refine ⟨fun ht hf => dropped (by rw [ht, hf]; rfl), taken, fun plain clear => ?_, fun new => ?_⟩
  · rw [typeBindings_of_clear begins plain clear]
    exact gains
  · refine ⟨fun h => ?_, fun he => he ▸ gains⟩
    have sub := typeBindings_sublist d
    split at gains
    · next hf =>
      have known : (d.typeBindings.map Prod.fst).Nodup := distinct.sublist (sub.map Prod.fst)
      rw [if_pos hf]
      exact (h.eq_of_sublist gains (List.nil_sublist _) known
        fun b hb => new b (sub.subset hb)).symm
    · next hf =>
      rw [if_neg hf]
      exact gains.eq_of_sublist h sub distinct new

-- A group behind a comment with a word inside, functions, plain names, and a name that is mistaken
-- for a word.
namespace Assorted

def declarationOf (source : String) : SyntaxTree := (parse source).tree.children.getD 1 default

def grouped : Use :=
  ⟨.types, some "Shop", [⟨.types, "Cart", some "Basket"⟩, ⟨.functions, "total", none⟩]⟩

def groupedTree : SyntaxTree :=
  declarationOf "<?php use /* a */ \\Shop\\\x7bCart as Basket, # b\n function total\x7d;"

theorem grouped_facts :
    groupedTree.text = "use" ++ " /* a */ " ++ "\\" ++
      "Shop\\\x7bCart as Basket, # b\n function total\x7d;" ∧
    grouped.isWrittenAs groupedTree ∧
    (record default groupedTree).imports =
      [("basket", "Shop\\Cart"), ("total", "Shop\\total")] := by
  decide +kernel

def groupedOpening : Opening groupedTree where
  keyword := "use"
  gap := " /* a */ "
  first := "\\"
  rest := "Shop\\\x7bCart as Basket, # b\n function total\x7d;"
  text_eq := grouped_facts.1
  keyword_eq := by decide +kernel
  gap_begins := by decide +kernel
  first_visible := by decide +kernel
  first_ends := by decide +kernel

def plain : Use :=
  ⟨.types, none, [⟨.types, "Post", none⟩, ⟨.types, "\\Blog\\Author", some "Writer"⟩]⟩

def plainTree : SyntaxTree :=
  declarationOf "<?php use Post, \\Blog\\Author /* c */ as Writer;"

theorem plain_facts :
    plainTree.text = "use" ++ " " ++ "Post" ++ ", \\Blog\\Author /* c */ as Writer;" ∧
    plain.isWrittenAs plainTree ∧
    (record default plainTree).imports = [("post", "Post"), ("writer", "Blog\\Author")] := by
  decide +kernel

def plainOpening : Opening plainTree where
  keyword := "use"
  gap := " "
  first := "Post"
  rest := ", \\Blog\\Author /* c */ as Writer;"
  text_eq := plain_facts.1
  keyword_eq := by decide +kernel
  gap_begins := by decide +kernel
  first_visible := by decide +kernel
  first_ends := by decide +kernel

def foreign : Use := ⟨.functions, none, [⟨.types, "Shop\\price", none⟩]⟩

def foreignTree : SyntaxTree :=
  declarationOf "<?php USE Function Shop\\price;"

theorem foreign_facts :
    foreignTree.text = "USE" ++ " " ++ "Function" ++ " Shop\\price;" ∧
    foreign.isWrittenAs foreignTree ∧
    (record default foreignTree).imports = [] := by
  decide +kernel

def foreignOpening : Opening foreignTree where
  keyword := "USE"
  gap := " "
  first := "Function"
  rest := " Shop\\price;"
  text_eq := foreign_facts.1
  keyword_eq := by decide +kernel
  gap_begins := by decide +kernel
  first_visible := by decide +kernel
  first_ends := by decide +kernel

def mistaken : Use := ⟨.types, none, [⟨.types, "Constants\\Base", none⟩]⟩

def mistakenTree : SyntaxTree :=
  declarationOf "<?php use Constants\\Base;"

theorem mistaken_facts :
    mistakenTree.text = "use" ++ " " ++ "Constants\\Base" ++ ";" ∧
    mistaken.isWrittenAs mistakenTree ∧
    (record default mistakenTree).imports = [] := by
  decide +kernel

def mistakenOpening : Opening mistakenTree where
  keyword := "use"
  gap := " "
  first := "Constants\\Base"
  rest := ";"
  text_eq := mistaken_facts.1
  keyword_eq := by decide +kernel
  gap_begins := by decide +kernel
  first_visible := by decide +kernel
  first_ends := by decide +kernel

end Assorted

section

open Assorted

theorem letters_decide_imports_assorted :
    (grouped.isWrittenAs groupedTree ∧ grouped.beginsWith groupedOpening.first ∧
      (grouped.bindings.map Prod.fst).Nodup ∧
      Recorded grouped groupedOpening default (record default groupedTree)) ∧
    (plain.isWrittenAs plainTree ∧ plain.beginsWith plainOpening.first ∧
      (plain.bindings.map Prod.fst).Nodup ∧
      Recorded plain plainOpening default (record default plainTree)) ∧
    (foreign.isWrittenAs foreignTree ∧ foreign.beginsWith foreignOpening.first ∧
      (foreign.bindings.map Prod.fst).Nodup ∧
      Recorded foreign foreignOpening default (record default foreignTree)) := by
  have grouped_begins : grouped.beginsWith groupedOpening.first := by decide +kernel
  have grouped_distinct : (grouped.bindings.map Prod.fst).Nodup := by decide +kernel
  have plain_begins : plain.beginsWith plainOpening.first := by decide +kernel
  have plain_distinct : (plain.bindings.map Prod.fst).Nodup := by decide +kernel
  have foreign_begins : foreign.beginsWith foreignOpening.first := by decide +kernel
  have foreign_distinct : (foreign.bindings.map Prod.fst).Nodup := by decide +kernel
  exact ⟨⟨grouped_facts.2.1, grouped_begins, grouped_distinct, letters_decide_imports
      groupedOpening grouped_facts.2.1 grouped_begins grouped_distinct default⟩,
    ⟨plain_facts.2.1, plain_begins, plain_distinct, letters_decide_imports
      plainOpening plain_facts.2.1 plain_begins plain_distinct default⟩,
    ⟨foreign_facts.2.1, foreign_begins, foreign_distinct, letters_decide_imports
      foreignOpening foreign_facts.2.1 foreign_begins foreign_distinct default⟩⟩

/-- Not all declarations bind the classes that they import. -/
theorem letters_decide_imports_mistaken :
    ¬ ∀ (d : Use) (t : SyntaxTree) (o : Opening t) (s : Scope), d.isWrittenAs t →
      d.beginsWith o.first → (d.bindings.map Prod.fst).Nodup →
        s.Gains (record s t) d.typeBindings := by
  intro h
  have gains := h mistaken mistakenTree mistakenOpening default mistaken_facts.2.1
    (by decide +kernel) (by decide +kernel)
  have bound := gains.bound ("base", "Constants\\Base") (by decide +kernel)
  rw [mistaken_facts.2.2] at bound
  cases bound

end

end Import

end ContainerAliases.Classes
