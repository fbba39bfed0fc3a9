import ContainerAliases.Proofs.Classes.Case
import ContainerAliases.Proofs.Source.Written

namespace ContainerAliases

open Source

namespace Classes.Import

inductive Subject where
  /-- Classes, interfaces and namespaces, without a word. -/
  | types
  | functions
  | constants
  deriving DecidableEq, Repr

def Subject.word? : Subject → Option String
  | types => none
  | functions => some "function"
  | constants => some "const"

structure Clause where
  /-- What the word in front of the name says; there is none outside of groups. -/
  subject : Subject
  name : String
  short : Option String
  deriving DecidableEq, Repr

structure Use where
  subject : Subject
  /-- What stands in front of the braces of a group. -/
  group : Option String
  clauses : List Clause
  deriving DecidableEq, Repr

namespace Clause

def full (group : Option String) (c : Clause) : String :=
  String.ofList (withoutLeading (fullName group c.name).toList)

/-- The whole name under the alias in lower case, or else under the last segment. -/
def binding (group : Option String) (c : Clause) : String × String :=
  (lower (c.short.getD (String.ofList (lastSegment (c.full group).toList))), c.full group)

end Clause

namespace Use

def bindings (d : Use) : List (String × String) := d.clauses.map (Clause.binding d.group)

/-- The bindings of the clauses that do not import functions or constants. -/
def typeBindings (d : Use) : List (String × String) :=
  if d.subject = .types then
    (d.clauses.filter fun c => c.subject = .types).map (Clause.binding d.group)
  else []

end Use

end Classes.Import

namespace Source.SyntaxTree

/-- The comments right below the node are leaves without a part to play. -/
def hasBareComments (t : SyntaxTree) : Bool :=
  t.children.all fun c => !c.isComment || c.children.isEmpty && c.role == none

def uncommented (t : SyntaxTree) : List SyntaxTree := t.children.filter fun c => !c.isComment

def isKeyword (t : SyntaxTree) : Bool := !t.isNamed && t.role == none

def isNameKind (t : SyntaxTree) : Bool :=
  t.kind == .qualifiedName || t.kind == .name || t.kind == .namespaceName

theorem find?_filter_of_imp {p q : SyntaxTree → Bool} {ts : List SyntaxTree}
    (h : ∀ t ∈ ts, p t → q t) : (ts.filter q).find? p = ts.find? p := by
  induction ts with
  | nil => rfl
  | cons t ts ih =>
    obtain ⟨ht, h⟩ := List.forall_mem_cons.1 h
    rw [List.filter_cons]
    cases hq : q t with
    | true => rw [if_pos rfl, List.find?_cons, List.find?_cons, ih h]
    | false =>
      have hp : p t = false := by
        by_contra hp
        cases hq.symm.trans (ht (by simpa using hp))
      rw [if_neg Bool.false_ne_true, List.find?_cons, hp, ih h]

variable {t : SyntaxTree}

theorem child?_eq_find?_uncommented (h : t.hasBareComments) (r : Role) :
    t.child? r = t.uncommented.find? fun c => c.role == some r := by
  refine (find?_filter_of_imp fun c hc hr => ?_).symm
  have bare := List.all_eq_true.1 h c hc
  by_contra hk
  simp_all

theorem find?_namedChildren (t : SyntaxTree) {p : SyntaxTree → Bool} (hp : ∀ c, p c → c.isSolid) :
    t.namedChildren.find? p = t.uncommented.find? p := by
  rw [namedChildren, uncommented, find?_filter_of_imp, find?_filter_of_imp]
  · intro c _ hc
    exact (Bool.and_eq_true_iff.1 (hp c hc)).2
  · intro c _ hc
    exact (Bool.and_eq_true_iff.1 (hp c hc)).1

theorem find?_namedChildren_isSolid (t : SyntaxTree) {p : SyntaxTree → Bool}
    (hp : ∀ c, p c → c.isSolid) :
    t.namedChildren.find? p = (t.children.filter isSolid).find? p := by
  rw [namedChildren, find?_filter_of_imp, find?_filter_of_imp fun c _ => hp c]
  intro c _ hc
  exact (Bool.and_eq_true_iff.1 (hp c hc)).1

theorem isSolid_of_isNameKind (h : t.isNameKind) : t.isSolid := by
  simp only [isNameKind, Bool.or_eq_true, beq_iff_eq] at h
  rcases h with (h | h) | h <;> simp [isSolid, isNamed, isComment, h, Kind.isNamed]

theorem isSolid_of_kind {k : Kind} (hn : k.isNamed) (hk : k ≠ .comment) (h : t.kind == k) :
    t.isSolid := by
  rw [beq_iff_eq] at h
  simp [isSolid, isNamed, isComment, h, hn, hk]

theorem not_isSolid_of_isKeyword (h : t.isKeyword) : t.isSolid = false := by
  simp only [isKeyword, Bool.and_eq_true, Bool.not_eq_true'] at h
  rw [isSolid, h.1, Bool.false_and]

theorem role_of_isKeyword (h : t.isKeyword) : t.role = none := by
  simp only [isKeyword, Bool.and_eq_true, beq_iff_eq] at h
  exact h.2

theorem find?_append_of_isKeyword {ws : List SyntaxTree} (h : ∀ w ∈ ws, w.isKeyword)
    {p : SyntaxTree → Bool} (hp : ∀ w, w.isKeyword → p w = false) (ts : List SyntaxTree) :
    (ws ++ ts).find? p = ts.find? p := by
  have none : ws.find? p = none := by
    rw [List.find?_eq_none]
    intro w hw
    simp [hp w (h w hw)]
  rw [List.find?_append, none, Option.none_or]

theorem find?_append_of_isSolid {ws : List SyntaxTree} (h : ∀ w ∈ ws, w.isKeyword)
    {p : SyntaxTree → Bool} (hp : ∀ c, p c → c.isSolid) (ts : List SyntaxTree) :
    (ws ++ ts).find? p = ts.find? p := by
  refine find?_append_of_isKeyword h (fun w hw => ?_) ts
  by_contra hk
  cases (not_isSolid_of_isKeyword hw).symm.trans (hp w (by simpa using hk))

end Source.SyntaxTree

namespace Classes.Import

open SyntaxTree

namespace Clause

/-- The alias, if there is one, may be written as these nodes. -/
def isAliasedAs (c : Clause) : List SyntaxTree → Bool
  | [] => c.short == none
  | [a, x] => a.isKeyword && x.kind == .name && x.role == some .shortName &&
      c.short == some x.text && !x.text.toList.contains '\\'
  | _ => false

def isNamedAs (c : Clause) : List SyntaxTree → Bool
  | n :: ts => n.isNameKind && n.role == none && n.text == c.name && c.isAliasedAs ts
  | [] => false

/-- The clause may be written as `t`. Comments may stand anywhere in it. -/
def isWrittenAs (c : Clause) (t : SyntaxTree) : Bool :=
  isClause t.kind && t.hasBareComments &&
    match c.subject.word?, t.uncommented with
    | none, ts => c.isNamedAs ts
    | some w, k :: ts => k.isKeyword && lower k.text == w && c.isNamedAs ts
    | some _, [] => false

end Clause

def areWrittenAs : List Clause → List SyntaxTree → Bool
  | [], [] => true
  | c :: cs, t :: ts => c.isWrittenAs t && areWrittenAs cs ts
  | _, _ => false

/-- The imports may be written as `t`, but for the word behind `use`. -/
def Use.isWrittenAs (d : Use) (t : SyntaxTree) : Bool :=
  t.kind == .namespaceUseDeclaration && t.hasBareComments &&
    match d.group, t.children.filter isSolid with
    | none, ts => (d.clauses.all fun c => c.subject = .types) && areWrittenAs d.clauses ts
    | some g, [n, b] => n.kind == .namespaceName && n.text == g && (clausesOf n.children).isEmpty &&
        b.kind == .namespaceUseGroup && b.hasBareComments &&
        areWrittenAs d.clauses (b.children.filter isSolid)
    | some _, _ => false

namespace Clause

variable {c : Clause} {t : SyntaxTree}

theorem exists_isNamedAs (h : c.isWrittenAs t) : ∃ ws ts, t.uncommented = ws ++ ts ∧
    (∀ w ∈ ws, w.isKeyword) ∧ c.isNamedAs ts := by
  simp only [isWrittenAs, Bool.and_eq_true] at h
  obtain ⟨-, h⟩ := h
  split at h
  · exact ⟨[], _, rfl, nofun, h⟩
  · next k ts hw ht =>
    simp only [Bool.and_eq_true] at h
    exact ⟨[k], ts, ht, by simpa using h.1.1, h.2⟩
  · cases h

theorem hasBareComments_of_isWrittenAs (h : c.isWrittenAs t) : t.hasBareComments := by
  simp only [isWrittenAs, Bool.and_eq_true] at h
  exact h.1.2

theorem isClause_of_isWrittenAs (h : c.isWrittenAs t) : isClause t.kind := by
  simp only [isWrittenAs, Bool.and_eq_true] at h
  exact h.1.1

theorem exists_name (h : c.isWrittenAs t) : ∃ ws n as, t.uncommented = ws ++ n :: as ∧
    (∀ w ∈ ws, w.isKeyword) ∧ n.isNameKind ∧ n.role = none ∧ n.text = c.name ∧
      c.isAliasedAs as := by
  obtain ⟨ws, ts, ht, hws, hts⟩ := exists_isNamedAs h
  cases ts with
  | nil => cases hts
  | cons n as =>
    simp only [isNamedAs, Bool.and_eq_true, beq_iff_eq] at hts
    obtain ⟨⟨⟨hk, hr⟩, hn⟩, ha⟩ := hts
    exact ⟨ws, n, as, ht, hws, hk, hr, hn, ha⟩

theorem named?_of_isWrittenAs (h : c.isWrittenAs t) :
    ∃ n, named? t = some n ∧ n.text = c.name := by
  obtain ⟨ws, n, as, ht, hws, hk, -, hn, -⟩ := exists_name h
  refine ⟨n, ?_, hn⟩
  change t.namedChildren.find? isNameKind = some n
  rw [find?_namedChildren t fun _ => isSolid_of_isNameKind, ht,
    find?_append_of_isSolid hws fun _ => isSolid_of_isNameKind, List.find?_cons, hk]

theorem child?_shortName_of_isWrittenAs (h : c.isWrittenAs t) {ws as : List SyntaxTree}
    {n : SyntaxTree} (ht : t.uncommented = ws ++ n :: as) (hws : ∀ w ∈ ws, w.isKeyword)
    (hr : n.role = none) :
    t.child? .shortName = as.find? fun x => x.role == some .shortName := by
  rw [child?_eq_find?_uncommented (hasBareComments_of_isWrittenAs h), ht,
    find?_append_of_isKeyword hws fun w hw => by simp [role_of_isKeyword hw], List.find?_cons, hr]
  rfl

theorem alias?_of_isWrittenAs (h : c.isWrittenAs t) :
    (alias? t).map SyntaxTree.text = c.short ∧ hasPlainAlias t := by
  obtain ⟨ws, n, as, ht, hws, hk, hr, -, ha⟩ := exists_name h
  have child := child?_shortName_of_isWrittenAs h ht hws hr
  unfold isAliasedAs at ha
  split at ha
  · -- without an alias, nothing wraps one either
    have wrapped : (t.namedChildren.find? fun x => x.kind == .namespaceAliasingClause) = none := by
      have solid (x : SyntaxTree) (hx : x.kind == .namespaceAliasingClause) : x.isSolid :=
        isSolid_of_kind (k := .namespaceAliasingClause) rfl (by decide) hx
      rw [find?_namedChildren t solid, ht, find?_append_of_isSolid hws solid,
        List.find?_singleton]
      simp only [isNameKind, Bool.or_eq_true, beq_iff_eq] at hk
      rcases hk with (hk | hk) | hk <;> simp [hk]
    have none : alias? t = none := by
      rw [alias?, child, wrapped]
      rfl
    refine ⟨?_, ?_⟩
    · rw [none]
      exact (beq_iff_eq.1 ha).symm
    · rw [hasPlainAlias, none]
      rfl
  · next a x =>
    simp only [Bool.and_eq_true, beq_iff_eq] at ha
    obtain ⟨⟨⟨⟨hw, -⟩, hx⟩, hs⟩, hp⟩ := ha
    have found : alias? t = some x := by
      rw [alias?, child]
      simp [role_of_isKeyword hw, hx]
    refine ⟨?_, ?_⟩
    · rw [found, hs]
      rfl
    · rw [hasPlainAlias, found]
      exact hp
  · cases ha

end Clause

/-- Nothing is imported by comments, keywords and punctuation. -/
theorem clausesOf_eq_flatMap_isSolid {t : SyntaxTree} (h : t.hasBareComments) :
    clausesOf t.children = (t.children.filter isSolid).reverse.flatMap clauses := by
  rw [hasBareComments, List.all_eq_true] at h
  generalize t.children = cs at h
  induction cs with
  | nil =>
    rw [clausesOf]
    rfl
  | cons c cs ih =>
    obtain ⟨hc, h⟩ := List.forall_mem_cons.1 h
    rw [clausesOf, ih h, List.filter_cons]
    cases hn : c.isNamed with
    | false =>
      rw [isSolid, hn, Bool.false_and, if_neg Bool.false_ne_true, if_neg Bool.false_ne_true,
        List.append_nil]
    | true =>
      rw [if_pos rfl, isSolid, hn, Bool.true_and]
      cases hk : c.isComment with
      | false => rw [Bool.not_false, if_pos rfl, List.reverse_cons, List.flatMap_append,
          List.flatMap_singleton]
      | true =>
        have kind : c.kind = .comment := by simpa [isComment] using hk
        have bare : c.children = [] := by simpa [hk] using And.left (by simpa [hk] using hc)
        have empty : clauses c = [] := by
          rw [clauses_eq, kind, bare, clausesOf]
          rfl
        rw [empty, Bool.not_true, if_neg Bool.false_ne_true, List.append_nil]

theorem forall₂_of_areWrittenAs {cs : List Clause} {ts : List SyntaxTree}
    (h : areWrittenAs cs ts) :
    List.Forall₂ (fun c t => c.isWrittenAs t = true) cs ts ∧ ∀ t ∈ ts, isClause t.kind := by
  induction cs generalizing ts with
  | nil =>
    cases ts with
    | nil => exact ⟨.nil, nofun⟩
    | cons t ts => cases h
  | cons c cs ih =>
    cases ts with
    | nil => cases h
    | cons t ts =>
      rw [areWrittenAs, Bool.and_eq_true] at h
      obtain ⟨rest, kinds⟩ := ih h.2
      exact ⟨.cons h.1 rest, List.forall_mem_cons.2 ⟨Clause.isClause_of_isWrittenAs h.1, kinds⟩⟩

theorem flatMap_clauses_of_isClause {ts : List SyntaxTree} (h : ∀ t ∈ ts, isClause t.kind) :
    ts.reverse.flatMap clauses = ts.reverse := by
  have each : ∀ t ∈ ts.reverse, clauses t = [t] := by
    intro t ht
    rw [clauses_eq, if_pos (h t (List.mem_reverse.1 ht))]
  rw [List.flatMap_congr each, List.flatMap_singleton']

theorem not_isNamespaceName_of_isClause {t : SyntaxTree} (h : isClause t.kind) :
    (t.kind == .namespaceName) = false := by
  simp only [isClause, Bool.or_eq_true, beq_iff_eq] at h
  rcases h with h | h <;> simp [h]

def keptGroup (group : Option String) : Option String :=
  group.map fun g => String.ofList (withoutLeading g.toList)

/-- The clauses of written imports, last one first, and the name in front of them. -/
theorem exists_clauses_of_isWrittenAs {d : Use} {t : SyntaxTree} (h : d.isWrittenAs t) :
    ∃ ts, clausesOf t.children = ts.reverse ∧
      List.Forall₂ (fun c t => c.isWrittenAs t = true) d.clauses ts ∧
      groupName? t = keptGroup d.group := by
  simp only [Use.isWrittenAs, Bool.and_eq_true] at h
  obtain ⟨⟨-, bare⟩, h⟩ := h
  have name : groupName? t = ((t.children.filter isSolid).find? fun c =>
      c.kind == .namespaceName).map fun c => String.ofList (withoutLeading c.text.toList) := by
    rw [groupName?, find?_namedChildren_isSolid t fun c =>
      isSolid_of_kind (k := .namespaceName) rfl (by decide)]
  rw [clausesOf_eq_flatMap_isSolid bare, name]
  split at h
  · next hg =>
    rw [Bool.and_eq_true] at h
    obtain ⟨written, kinds⟩ := forall₂_of_areWrittenAs h.2
    -- each node below is a clause, so none of them is in front of braces
    have none : (t.children.filter isSolid).find? (fun c => c.kind == .namespaceName) = none := by
      rw [List.find?_eq_none]
      intro c hc
      simp [not_isNamespaceName_of_isClause (kinds c hc)]
    refine ⟨_, flatMap_clauses_of_isClause kinds, written, ?_⟩
    rw [none, hg]
    rfl
  · next g n b hg hs =>
    simp only [Bool.and_eq_true, beq_iff_eq] at h
    obtain ⟨⟨⟨⟨⟨hn, ht⟩, he⟩, hb⟩, bareb⟩, hw⟩ := h
    obtain ⟨written, kinds⟩ := forall₂_of_areWrittenAs hw
    have below : [n, b].reverse.flatMap clauses = clausesOf b.children := by
      have nameless : clauses n = [] := by
        rw [clauses_eq, hn]
        exact List.isEmpty_iff.1 he
      have group : clauses b = clausesOf b.children := by
        rw [clauses_eq, hb]
        rfl
      rw [List.reverse_cons, List.reverse_singleton, List.flatMap_append, List.flatMap_singleton,
        List.flatMap_singleton, nameless, group, List.append_nil]
    refine ⟨b.children.filter isSolid, ?_, written, ?_⟩
    · rw [hs, below, clausesOf_eq_flatMap_isSolid bareb, flatMap_clauses_of_isClause kinds]
    · rw [hs, hg, List.find?_cons, hn, ← ht]
      rfl
  · cases h

/-- Backslashes at the front of a group may be taken away before a name is joined to it. -/
theorem withoutLeading_fullName (group : Option String) (name : String) :
    withoutLeading (fullName (keptGroup group) name).toList =
      withoutLeading (fullName group name).toList := by
  cases group with
  | none => rfl
  | some g =>
    simp only [keptGroup, Option.map_some, fullName, String.toList_append, String.toList_ofList]
    rw [List.append_assoc, List.append_assoc]
    generalize "\\".toList ++ name.toList = rest
    rw [withoutLeading, withoutLeading, withoutLeading, List.dropWhile_append,
      List.dropWhile_append, List.dropWhile_idempotent]

theorem bindClause_of_isWrittenAs {c : Clause} {t : SyntaxTree} (h : c.isWrittenAs t)
    (group : Option String) (s : Scope) :
    bindClause (keptGroup group) s t =
      { s with imports := c.binding group :: s.imports } := by
  obtain ⟨n, hn, name⟩ := Clause.named?_of_isWrittenAs h
  obtain ⟨short, plain⟩ := Clause.alias?_of_isWrittenAs h
  rw [bindClause_eq _ _ plain, hn, short]
  simp only
  rw [name, Scope.bind, Clause.binding, Clause.full]
  simp only [withoutLeading_fullName, String.toList_ofList]

theorem foldl_bindClause {group : Option String} {cs : List Clause} {ts : List SyntaxTree}
    (h : List.Forall₂ (fun c t => c.isWrittenAs t = true) cs ts) (s : Scope) :
    ts.reverse.foldl (bindClause (keptGroup group)) s =
      { s with imports := cs.map (Clause.binding group) ++ s.imports } := by
  rw [List.foldl_reverse]
  induction h with
  | nil => rfl
  | cons hc _ ih => rw [List.foldr_cons, ih, bindClause_of_isWrittenAs hc]; rfl

/-- All clauses are bound, or none. -/
theorem record_of_isWrittenAs {d : Use} {t : SyntaxTree} (h : d.isWrittenAs t) (s : Scope) :
    record s t = if isForeign t then s else { s with imports := d.bindings ++ s.imports } := by
  obtain ⟨ts, clauses, written, group⟩ := exists_clauses_of_isWrittenAs h
  rw [record, clauses, group, foldl_bindClause written]
  rfl

end Classes.Import

end ContainerAliases
