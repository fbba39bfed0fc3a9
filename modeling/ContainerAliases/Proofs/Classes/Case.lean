import ContainerAliases.Proofs.Classes.Lower
import ContainerAliases.Proofs.Classes.Relabel
import ContainerAliases.Project.Query

namespace ContainerAliases

open Source

namespace Source.SyntaxTree

def loweredLabel (t : SyntaxTree) : Label :=
  if t.isText || t.kind == .variableName then t.label
  else { t.label with text := String.ofList (t.text.toList.map Char.toLower) }

theorem ofList_map_toLower (s : String) :
    String.ofList (s.toList.map Char.toLower) = Classes.lower s := by
  rw [← Classes.lower_ofList, String.ofList_toList]

/-- The tree without regard to the ASCII case of anything but literals and variables. -/
def lowered : SyntaxTree → SyntaxTree := relabel loweredLabel

theorem keepsWords_loweredLabel : KeepsWords loweredLabel where
  kind t := by
    rw [loweredLabel]
    split <;> rfl
  role t := by
    rw [loweredLabel]
    split <;> rfl
  text t h := by
    have h : (t.isText || t.kind == .variableName) = true := by simpa using h
    rw [loweredLabel, if_pos h]
    rfl

theorem start_loweredLabel (t : SyntaxTree) : (loweredLabel t).start = t.start := by
  rw [loweredLabel]
  split <;> rfl

theorem line_loweredLabel (t : SyntaxTree) : (loweredLabel t).line = t.line := by
  rw [loweredLabel]
  split <;> rfl

theorem text_lowered_or (t : SyntaxTree) :
    t.lowered.text = t.text ∨ t.lowered.text = Classes.lower t.text := by
  rw [lowered, text, label_relabel, loweredLabel]
  split
  · exact .inl rfl
  · exact .inr (ofList_map_toLower t.text)

theorem lower_text_lowered (t : SyntaxTree) :
    Classes.lower t.lowered.text = Classes.lower t.text := by
  rcases t.text_lowered_or with h | h <;> simp [h]

theorem lower_text_loweredLabel (t : SyntaxTree) :
    Classes.lower (loweredLabel t).text = Classes.lower t.text := by
  rw [← lower_text_lowered, lowered, text, label_relabel]

theorem size_loweredLabel (t : SyntaxTree) :
    (loweredLabel t).text.utf8ByteSize = t.text.utf8ByteSize := by
  rw [loweredLabel]
  split
  · rfl
  · exact (congrArg _ (ofList_map_toLower t.text)).trans (Classes.utf8ByteSize_lower t.text)

theorem start_lowered (t : SyntaxTree) : t.lowered.start = t.start := by
  rw [lowered, start, label_relabel, start_loweredLabel]

theorem line_lowered (t : SyntaxTree) : t.lowered.line = t.line := by
  rw [lowered, line, label_relabel, line_loweredLabel]

theorem children_lowered (t : SyntaxTree) : t.lowered.children = t.children.map lowered :=
  children_relabel _ t

theorem kind_lowered (t : SyntaxTree) : t.lowered.kind = t.kind :=
  kind_relabel keepsWords_loweredLabel t

theorem isNamed_lowered (t : SyntaxTree) : t.lowered.isNamed = t.isNamed :=
  isNamed_relabel keepsWords_loweredLabel t

theorem namedChildren_lowered (t : SyntaxTree) :
    t.lowered.namedChildren = t.namedChildren.map lowered :=
  namedChildren_relabel keepsWords_loweredLabel t

theorem child?_lowered (t : SyntaxTree) (r : Role) :
    t.lowered.child? r = (t.child? r).map lowered :=
  child?_relabel keepsWords_loweredLabel t r

theorem map_lower_text_lowered (t : Option SyntaxTree) :
    ((t.map lowered).map text).map Classes.lower = (t.map text).map Classes.lower := by
  cases t with
  | none => rfl
  | some t => exact congrArg some (lower_text_lowered t)

end Source.SyntaxTree

namespace Classes

open SyntaxTree (keepsWords_loweredLabel)

namespace Import

theorem named?_lowered (clause : SyntaxTree) :
    named? clause.lowered = (named? clause).map SyntaxTree.lowered :=
  named?_relabel keepsWords_loweredLabel clause

theorem alias?_lowered (clause : SyntaxTree) :
    alias? clause.lowered = (alias? clause).map SyntaxTree.lowered :=
  alias?_relabel keepsWords_loweredLabel clause

def fullName (group : Option String) (name : String) : String :=
  match group with
  | some g => g ++ "\\" ++ name
  | none => name

theorem lower_fullName (group : Option String) (name : String) :
    lower (fullName group name) = fullName (group.map lower) (lower name) := by
  cases group with
  | none => rfl
  | some g => rw [fullName, lower_append, lower_append, lower_backslash]; rfl

/-- The alias of the clause, if it has one, is a single identifier. -/
def hasPlainAlias (clause : SyntaxTree) : Bool :=
  (alias? clause).all fun a => !a.text.toList.contains '\\'

/-- An alias counts whether or not it repeats the name. -/
theorem bindClause_eq (group : Option String) (s : Scope) {clause : SyntaxTree}
    (h : hasPlainAlias clause) : bindClause group s clause =
      match named? clause with
      | none => s
      | some n => s.bind (fullName group n.text) ((alias? clause).map SyntaxTree.text) := by
  rw [bindClause, parts?_eq]
  cases named? clause with
  | none => rfl
  | some n =>
    change s.bind (fullName group n.text) _ = s.bind (fullName group n.text) _
    rw [hasPlainAlias] at h
    cases hc : alias? clause with
    | none => rfl
    | some a =>
      have ha : '\\' ∉ a.text.toList := by simpa [hc] using h
      rw [Option.map_some, Option.filter_some]
      split
      · rfl
      · next he =>
        have he : a.text = n.text := by simpa using he
        -- the alias is left out where it repeats the name, whose last segment is then that alias
        refine s.bind_of_alias ha ?_
        rw [he]
        cases group with
        | none => exact .inl rfl
        | some g => exact .inr ⟨g.toList, by simp [fullName]⟩

theorem hasPlainAlias_lowered (clause : SyntaxTree) :
    hasPlainAlias clause.lowered = hasPlainAlias clause := by
  rw [hasPlainAlias, hasPlainAlias, alias?_lowered]
  cases alias? clause with
  | none => rfl
  | some a =>
    have h : '\\' ∈ a.lowered.text.toList ↔ '\\' ∈ a.text.toList := by
      rcases a.text_lowered_or with ht | ht
      · rw [ht]
      · rw [ht, toList_lower, backslash_mem_map_toLower]
    simpa using h

theorem bindClause_lowered {s s' : Scope} (hs : s'.lowered = s.lowered) {g g' : Option String}
    (hg : g'.map lower = g.map lower) {clause : SyntaxTree} (h : hasPlainAlias clause) :
    (bindClause g' s' clause.lowered).lowered = (bindClause g s clause).lowered := by
  rw [bindClause_eq _ _ h, bindClause_eq _ _ (hasPlainAlias_lowered clause ▸ h), named?_lowered,
    alias?_lowered]
  cases named? clause with
  | none => exact hs
  | some n =>
    refine Scope.bind_congr hs ?_ (SyntaxTree.map_lower_text_lowered _)
    rw [lower_fullName, lower_fullName, hg, n.lower_text_lowered]

theorem clausesOf_lowered (ts : List SyntaxTree) :
    clausesOf (ts.map SyntaxTree.lowered) = (clausesOf ts).map SyntaxTree.lowered :=
  clausesOf_relabel keepsWords_loweredLabel ts

theorem dropBytes_map_toLower (n : Nat) (cs : List Char) :
    dropBytes n (cs.map Char.toLower) = (dropBytes n cs).map (List.map Char.toLower) := by
  fun_induction dropBytes n cs with
  | case1 cs => rw [dropBytes]; rfl
  | case2 n => rw [List.map_nil, dropBytes]; rfl
  | case3 n c cs h ih => rw [List.map_cons, dropBytes, utf8Size_toLower, if_pos h, ih]
  | case4 n c cs h => rw [List.map_cons, dropBytes, utf8Size_toLower, if_neg h]; rfl

theorem dropBlank_map_toLower (cs : List Char) :
    Text.dropBlank (cs.map Char.toLower) = (Text.dropBlank cs).map Char.toLower := by
  have h : Text.isBlank ∘ Char.toLower = Text.isBlank := funext isBlank_toLower
  rw [Text.dropBlank, List.dropWhile_map, h, Text.dropBlank]

theorem head_lowered (t : SyntaxTree) : head t.lowered = head t := by
  have text (s : String) : (Text.dropBlank ((dropBytes 3 (Text.dropBlank
      (lower s).toList)).getD [])).map Char.toLower =
      (Text.dropBlank ((dropBytes 3 (Text.dropBlank s.toList)).getD [])).map Char.toLower := by
    rw [toList_lower, dropBlank_map_toLower, dropBytes_map_toLower]
    cases dropBytes 3 (Text.dropBlank s.toList) with
    | none => rfl
    | some cs =>
      simp only [Option.map_some, Option.getD_some, dropBlank_map_toLower, List.map_map,
        toLower_comp_toLower]
  rw [head, head]
  rcases t.text_lowered_or with h | h
  · rw [h]
  · rw [h]
    exact text t.text

theorem isForeign_lowered (t : SyntaxTree) : isForeign t.lowered = isForeign t := by
  rw [isForeign, head_lowered, isForeign]

theorem groupName?_lowered (t : SyntaxTree) :
    (groupName? t.lowered).map lower = (groupName? t).map lower := by
  have text (s : String) : lower (String.ofList (withoutLeading s.toList)) =
      String.ofList (withoutLeading (lower s).toList) := by
    rw [lower_ofList, toList_lower, withoutLeading_map_toLower]
  have name : (t.namedChildren.map SyntaxTree.lowered).find? (fun c => c.kind == .namespaceName) =
      (t.namedChildren.find? fun c => c.kind == .namespaceName).map SyntaxTree.lowered :=
    SyntaxTree.find?_map_relabel keepsWords_loweredLabel (· == .namespaceName) _
  rw [groupName?, groupName?, SyntaxTree.namedChildren_lowered, name]
  cases t.namedChildren.find? fun c => c.kind == .namespaceName with
  | none => rfl
  | some c => simp only [Option.map_some, text, SyntaxTree.lower_text_lowered]

theorem foldl_bindClause_lowered {g g' : Option String} (hg : g'.map lower = g.map lower)
    {clauses : List SyntaxTree} (h : ∀ c ∈ clauses, hasPlainAlias c) {s s' : Scope}
    (hs : s'.lowered = s.lowered) :
    ((clauses.map SyntaxTree.lowered).foldl (bindClause g') s').lowered =
      (clauses.foldl (bindClause g) s).lowered := by
  induction clauses generalizing s s' with
  | nil => exact hs
  | cons c clauses ih =>
    have ⟨hc, h⟩ := List.forall_mem_cons.1 h
    exact ih h (bindClause_lowered hs hg hc)

theorem record_lowered {s s' : Scope} (hs : s'.lowered = s.lowered) {t : SyntaxTree}
    (h : ∀ c ∈ clausesOf t.children, hasPlainAlias c) :
    (record s' t.lowered).lowered = (record s t).lowered := by
  rw [record, record, isForeign_lowered, SyntaxTree.children_lowered, clausesOf_lowered]
  split
  · exact hs
  · exact foldl_bindClause_lowered (groupName?_lowered t) h hs

end Import

def ClassDeclaration.lowered (d : ClassDeclaration) : ClassDeclaration :=
  { d with fqcn := lower d.fqcn, parents := d.parents.map lower }

/-- The node, if it is a name, is none below the current namespace, and its alias, if it is a clause
of an import, is a single identifier. -/
def isPlainAt (t : SyntaxTree) : Bool :=
  (!(t.kind == .name || t.kind == .qualifiedName) || Scope.isPlain t.text) &&
    (!isClause t.kind || Import.hasPlainAlias t)

def isPlain (t : SyntaxTree) : Bool := t.every isPlainAt

theorem isPlain_of_mem {t c : SyntaxTree} (h : isPlain t) (hc : c ∈ t.children) : isPlain c :=
  SyntaxTree.every_of_mem h hc

theorem isPlain_of_mem_named {t c : SyntaxTree} (h : isPlain t) (hc : c ∈ t.namedChildren) :
    isPlain c := isPlain_of_mem h (List.mem_filter.1 hc).1

theorem isPlain_text_lowered (t : SyntaxTree) :
    Scope.isPlain t.lowered.text = Scope.isPlain t.text := by
  rw [← Scope.isPlain_lower, t.lower_text_lowered, Scope.isPlain_lower]

theorem writtenParents_lowered (t : SyntaxTree) :
    writtenParents t.lowered = (writtenParents t).map SyntaxTree.lowered :=
  writtenParents_relabel keepsWords_loweredLabel t

theorem isPlain_of_mem_writtenParents {t c : SyntaxTree} (h : isPlain t)
    (hc : c ∈ writtenParents t) : Scope.isPlain c.text := by
  obtain ⟨hc, hk⟩ := List.mem_filter.1 hc
  obtain ⟨clause, hm, hc⟩ := List.mem_flatMap.1 hc
  have here := SyntaxTree.of_every
    (isPlain_of_mem_named (isPlain_of_mem_named h (List.mem_filter.1 hm).1) hc)
  rw [isPlainAt, Bool.and_eq_true, Bool.or_eq_true, hk] at here
  simpa using here.1

theorem ofTree?_lowered {s s' : Scope} (hs : s'.lowered = s.lowered) {t : SyntaxTree}
    (h : isPlain t) :
    (ClassDeclaration.ofTree? s' t.lowered).map ClassDeclaration.lowered =
      (ClassDeclaration.ofTree? s t).map ClassDeclaration.lowered := by
  have parents :
      ((writtenParents t).map SyntaxTree.lowered).map (fun c => lower (s'.resolve c.text)) =
      (writtenParents t).map fun c => lower (s.resolve c.text) := by
    rw [List.map_map]
    refine List.map_congr_left fun c hc => ?_
    have hp := isPlain_of_mem_writtenParents h hc
    exact Scope.resolve_congr hs c.lower_text_lowered (isPlain_text_lowered c ▸ hp) hp
  have name (n : SyntaxTree) : lower (s'.qualify n.lowered.text) = lower (s.qualify n.text) :=
    Scope.qualify_congr hs n.lower_text_lowered
  rw [ofTree?_eq, ofTree?_eq, SyntaxTree.kind_lowered, SyntaxTree.child?_lowered,
    writtenParents_lowered]
  cases ClassKind.ofKind? t.kind with
  | none => rfl
  | some k =>
    cases t.child? .name with
    | none => rfl
    | some n =>
      have label : t.lowered.start = t.start ∧ t.lowered.line = t.line :=
        ⟨t.start_lowered, t.line_lowered⟩
      simp only [Option.bind_some, Option.map_some, ClassDeclaration.lowered, label, name,
        List.map_map, Function.comp_def] at parents ⊢
      rw [parents]

/-- What two readings leave is the same in lower case. -/
def SameReading (a b : Scope × List ClassDeclaration) : Prop :=
  a.1.lowered = b.1.lowered ∧
    a.2.map ClassDeclaration.lowered = b.2.map ClassDeclaration.lowered

def SameIn (t : SyntaxTree) : Prop :=
  ∀ ⦃s s' : Scope⦄, s'.lowered = s.lowered → SameReading (declared s' t.lowered) (declared s t)

theorem sameReading_declaredIn {ts : List SyntaxTree} (h : ∀ t ∈ ts, SameIn t) {s s' : Scope}
    (hs : s'.lowered = s.lowered) :
    SameReading (declaredIn s' (ts.map SyntaxTree.lowered)) (declaredIn s ts) := by
  induction ts generalizing s s' with
  | nil =>
    rw [List.map_nil, declaredIn_nil, declaredIn_nil]
    exact ⟨hs, rfl⟩
  | cons t ts ih =>
    have ⟨ht, h⟩ := List.forall_mem_cons.1 h
    rw [List.map_cons]
    cases hn : t.isNamed with
    | true =>
      have first := ht hs
      have rest := ih h first.1
      rw [declaredIn_cons hn, declaredIn_cons (t.isNamed_lowered.trans hn)]
      refine ⟨rest.1, ?_⟩
      rw [List.map_append, List.map_append, first.2, rest.2]
    | false =>
      rw [declaredIn_cons_unnamed hn, declaredIn_cons_unnamed (t.isNamed_lowered.trans hn)]
      exact ih h hs

theorem hasPlainAlias_of_mem_clauses {t : SyntaxTree} (h : isPlain t) :
    ∀ c ∈ Import.clauses t, Import.hasPlainAlias c := by
  induction t using SyntaxTree.induction_children with
  | h t ih =>
    intro c hc
    rw [Import.clauses_eq] at hc
    split at hc
    · next hk =>
      obtain rfl := List.mem_singleton.1 hc
      have here := SyntaxTree.of_every h
      rw [isPlainAt, hk] at here
      simpa using (Bool.and_eq_true _ _ ▸ here).2
    · obtain ⟨u, hu, hc⟩ := Import.exists_of_mem_clausesOf hc
      exact ih u hu (isPlain_of_mem h hu) c hc

theorem lowered_spaceOf (t : SyntaxTree) : (spaceOf t.lowered).lowered = (spaceOf t).lowered := by
  rw [spaceOf, spaceOf, ← Scope.within_lower, ← Scope.within_lower, SyntaxTree.child?_lowered,
    SyntaxTree.map_lower_text_lowered]

theorem sameIn {t : SyntaxTree} (h : isPlain t) : SameIn t := by
  induction t using induction_declared with
  | unbraced t hk hb =>
    intro s s' hs
    have hb' : t.lowered.child? .body = none := by rw [t.child?_lowered, hb, Option.map_none]
    rw [declared_of_unbraced hk hb, declared_of_unbraced (t.kind_lowered.trans hk) hb']
    exact ⟨lowered_spaceOf t, rfl⟩
  | braced t b hk hb ih =>
    intro s s' hs
    have hb' : t.lowered.child? .body = some b.lowered := by
      rw [t.child?_lowered, hb, Option.map_some]
    have body : isPlain b := isPlain_of_mem h (List.mem_of_find?_eq_some hb)
    have inner : ∀ c ∈ b.children, SameIn c := fun c hc => ih c hc (isPlain_of_mem body hc)
    rw [declared_of_braced hk hb, declared_of_braced (t.kind_lowered.trans hk) hb',
      SyntaxTree.children_lowered]
    exact ⟨hs, (sameReading_declaredIn inner (lowered_spaceOf t)).2⟩
  | imports t hi =>
    intro s s' hs
    rw [declared_of_import hi, declared_of_import (t.kind_lowered.trans hi)]
    refine ⟨Import.record_lowered hs fun c hc => ?_, rfl⟩
    obtain ⟨u, hu, hc⟩ := Import.exists_of_mem_clausesOf hc
    exact hasPlainAlias_of_mem_clauses (isPlain_of_mem h hu) c hc
  | classLike t hc =>
    intro s s' hs
    rw [declared_of_isClassLike hc, declared_of_isClassLike (t.kind_lowered ▸ hc)]
    refine ⟨hs, ?_⟩
    rw [← Option.toList_map, ← Option.toList_map, ofTree?_lowered hs h]
  | other t hd ih =>
    intro s s' hs
    rw [declared_of_not_isDeclaring hd, declared_of_not_isDeclaring (t.kind_lowered ▸ hd),
      SyntaxTree.children_lowered]
    exact sameReading_declaredIn (fun c hc => ih c hc (isPlain_of_mem h hc)) hs

/-- The declarations of a file in lower case, in the same order. -/
theorem index_lowered {t : SyntaxTree} (h : isPlain t) :
    (index t.lowered).map ClassDeclaration.lowered = (index t).map ClassDeclaration.lowered := by
  have below : ∀ c ∈ t.children, SameIn c := fun c hc => sameIn (isPlain_of_mem h hc)
  rw [index, index, SyntaxTree.children_lowered]
  exact (sameReading_declaredIn below rfl).2

end Classes

end ContainerAliases
