import ContainerAliases.Proofs.Glob.Descent

namespace ContainerAliases.Glob

open Disk

variable {d : Disk} {root e p q : Path} {ps : List Pattern} {s : String} {names r : List String}
  {depth : Nat}

theorem patterns_eq_ok_iff :
    patterns p = .ok ps ↔ (Pattern.ofText p.text).isOk ∧ p.front.mapM Pattern.ofText = .ok ps := by
  change (Pattern.ofText p.text).bind (fun _ => p.front.mapM Pattern.ofText) = .ok ps ↔ _
  rw [bind_eq_ok_iff, isOk_iff, exists_and_right]

theorem intercalate_append {xs ys : List (List Char)} (hx : xs ≠ []) (hy : ys ≠ []) :
    ['/'].intercalate (xs ++ ys) = ['/'].intercalate xs ++ '/' :: ['/'].intercalate ys := by
  induction xs with
  | nil => exact absurd rfl hx
  | cons x xs ih =>
    cases xs with
    | nil =>
      obtain ⟨y, ys, rfl⟩ := List.exists_cons_of_ne_nil hy
      simp
    | cons x' xs =>
      rw [List.cons_append, List.cons_append, List.intercalate_cons_cons, ← List.cons_append,
        ih (List.cons_ne_nil x' xs), List.intercalate_cons_cons]
      simp

theorem any_intercalate {f : Char → Bool} (hf : f '/' = false) {xs : List (List Char)}
    (h : ∀ x ∈ xs, x.any f = false) : (['/'].intercalate xs).any f = false := by
  induction xs with
  | nil => rfl
  | cons x xs ih =>
    obtain ⟨hx, hxs⟩ := List.forall_mem_cons.1 h
    cases xs with
    | nil => simpa using hx
    | cons x' xs =>
      rw [List.intercalate_cons_cons, List.any_append, List.any_append, hx, ih hxs]
      simpa using hf

def IsPlain (p : Path) : Prop := ∀ s ∈ p.segments, s.toList.any Project.isWildcard = false

theorem exists_toList_text_join (plain : IsPlain root) (hr : root.IsGrounded)
    (he : e.isAbsolute = false) (hne : e.segments ≠ []) : ∃ pre : List Char,
      pre.any Project.isWildcard = false ∧
        (root.join e).text.toList = pre ++ '/' :: e.text.toList := by
  have hne : e.segments.map String.toList ≠ [] := by simpa using hne
  have lead : (if root.isAbsolute then ['/'] else []).any Project.isWildcard = false := by
    split <;> rfl
  rw [Path.join_of_relative root he, Path.toList_text, Path.toList_text, List.map_append]
  simp only [he, Bool.false_eq_true, if_false, List.nil_append]
  by_cases hf : root.front = []
  · have ha : root.isAbsolute := by
      refine hr.resolve_right ?_
      rintro ⟨s, hs, hs', -⟩
      have := Path.head?_front ⟨s, List.mem_of_head? hs, hs'⟩ []
      simp [hf, hs] at this
    exact ⟨[], rfl, by simp [hf, ha]⟩
  · refine ⟨(if root.isAbsolute then ['/'] else []) ++
      ['/'].intercalate (root.front.map String.toList), ?_, ?_⟩
    · rw [List.any_append, lead, any_intercalate rfl, Bool.or_self]
      rintro _ hx
      obtain ⟨s, hs, rfl⟩ := List.mem_map.1 hx
      exact plain s (Path.front_subset root hs)
    · rw [intercalate_append (by simpa using hf) hne, List.append_assoc]

theorem front_join (he : e.isAbsolute = false) (hne : e.segments ≠ []) :
    (root.join e).front = root.front ++ e.front := by
  have own : e.front = if e.segments.getLast? = some "" then e.segments.dropLast else e.segments :=
    rfl
  have joined : (root.join e).segments = root.front ++ e.segments := by
    rw [Path.join_of_relative root he]
  rw [own, Path.front, joined, List.getLast?_append_of_ne_nil _ hne,
    List.dropLast_append_of_ne_nil hne]
  split <;> rfl

/-- The patterns below a path without wildcards: its own segments, then those of the rest. -/
theorem patterns_join_iff (plain : IsPlain root) (hr : root.IsGrounded)
    (he : e.isAbsolute = false) (hne : e.segments ≠ []) {qs : List Pattern} :
    patterns (root.join e) = .ok qs ↔
      ∃ ps, patterns e = .ok ps ∧ qs = root.front.map Pattern.plain ++ ps := by
  have whole : (Pattern.ofText (root.join e).text).isOk = (Pattern.ofText e.text).isOk := by
    obtain ⟨pre, hp, ht⟩ := exists_toList_text_join plain hr he hne
    rw [Pattern.ofText, ht, isOk_tokens_append hp, String.ofList_toList]
  have own : root.front.mapM Pattern.ofText = .ok (root.front.map Pattern.plain) := by
    rw [mapM_eq_ok_iff, List.forall₂_map_right_iff, List.forall₂_same]
    exact fun s hs => ofText_of_plain (plain s (Path.front_subset root hs))
  rw [patterns_eq_ok_iff, whole, front_join he hne, mapM_append_eq_ok_iff]
  simp only [own, Except.ok.injEq, patterns_eq_ok_iff]
  constructor
  · rintro ⟨ok, _, ps, rfl, hps, rfl⟩
    exact ⟨ps, ⟨ok, hps⟩, rfl⟩
  · rintro ⟨ps, ⟨ok, hps⟩, rfl⟩
    exact ⟨ok, _, ps, rfl, hps, rfl⟩

theorem matches_plain_append_iff (names : List String) (slash : ∀ s ∈ names, '/' ∉ s.toList) :
    Matches (names.map Pattern.plain ++ ps) r ↔ ∃ r', r = names ++ r' ∧ Matches ps r' := by
  induction names generalizing r with
  | nil => simp
  | cons s names ih =>
    obtain ⟨hs, rest⟩ := List.forall_mem_cons.1 slash
    rw [List.map_cons, List.cons_append, matches_cons_iff (isRecursive_plain s)]
    simp only [fits_plain_iff hs, ih rest]
    constructor
    · rintro ⟨_, _, rfl, rfl, r', rfl, h⟩
      exact ⟨r', rfl, h⟩
    · rintro ⟨r', rfl, h⟩
      exact ⟨s, names ++ r', rfl, rfl, r', rfl, h⟩

theorem endsRecursive_append (qs : List Pattern) (hps : ps ≠ []) :
    endsRecursive (qs ++ ps) = endsRecursive ps := by
  rw [endsRecursive, List.getLast?_append_of_ne_nil _ hps, endsRecursive]

theorem isSegment_plain (hs : '/' ∉ s.toList) : (Pattern.plain s).IsSegment where
  slash h := by
    obtain ⟨c, hc, h⟩ := List.mem_map.1 h
    cases h
    exact hs hc
  recursive h := by
    obtain ⟨c, -, h⟩ := List.mem_map.1 h
    cases h

theorem isSegment_of_patterns (slash : ∀ s ∈ p.segments, '/' ∉ s.toList)
    (h : patterns p = .ok ps) : ∀ pattern ∈ ps, pattern.IsSegment := by
  intro pattern hp
  obtain ⟨s, hs, h⟩ := exists_of_mem_mapM (patterns_eq_ok_iff.1 h).2 hp
  exact isSegment_of_ofText (slash s (Path.front_subset p hs)) h

/-- Names in front of the patterns are gone through as they are. -/
theorem mem_descend_plain_iff (hd : d.IsWellNamed) (hp : p.IsGrounded)
    (slash : ∀ s ∈ names, '/' ∉ s.toList) (segments : ∀ pattern ∈ ps, pattern.IsSegment)
    (hps : ps ≠ []) (enough : depthLimit d (names.map Pattern.plain ++ ps) ≤ depth) :
    q ∈ descend d depth (names.map Pattern.plain ++ ps) p ↔
      ∃ r, Matches ps r ∧ d.isTaken (p.along (names ++ r)).steps ∧ q = p.along (names ++ r) ∧
        (endsRecursive ps → d.isDirectory q.steps) := by
  have all : ∀ pattern ∈ names.map Pattern.plain ++ ps, pattern.IsSegment := by
    intro pattern h
    rcases List.mem_append.1 h with h | h
    · obtain ⟨s, hs, rfl⟩ := List.mem_map.1 h
      exact isSegment_plain (slash s hs)
    · exact segments pattern h
  rw [mem_descend_iff hd hp all enough, endsRecursive_append _ hps]
  have leads {r : List String} (h : Matches ps r) :
      d.Leads p (names ++ r) ↔ d.isTaken (p.along (names ++ r)).steps := by
    obtain ⟨pattern, ps, rfl⟩ := List.exists_cons_of_ne_nil hps
    refine leads_iff hp (fun s hs => ?_) (by simp [h.nonempty])
    exact (List.mem_append.1 hs).elim (slash s) (h.slash_notMem s)
  constructor
  · rintro ⟨_, h, taken, rfl, last⟩
    obtain ⟨r, rfl, hr⟩ := (matches_plain_append_iff names slash).1 h
    exact ⟨r, hr, (leads hr).1 taken, rfl, last⟩
  · rintro ⟨r, h, taken, rfl, last⟩
    exact ⟨names ++ r, (matches_plain_append_iff names slash).2 ⟨r, rfl, h⟩, (leads h).2 taken, rfl,
      last⟩

def origin (isAbsolute : Bool) : Path := if isAbsolute then ⟨true, []⟩ else ⟨false, ["."]⟩

theorem expand_eq (d : Disk) (p : Path) : expand d p = (patterns p).map fun ps =>
    let found := descend d (depthLimit d ps) ps (origin p.isAbsolute)
    if p.segments.getLast? = some "" then found.filter fun q => d.isDirectory q.steps
    else found := rfl

/-- The current directory is left out from the paths that are found below it. -/
theorem entryOf_origin (slash : '/' ∉ s.toList) : entryOf (origin false) s = ⟨false, [s]⟩ := by
  rw [entryOf, if_pos (by rfl), Path.ofText_of_slash_notMem slash]

theorem leadsOn_origin_iff (slash : '/' ∉ s.toList) (hne : s ≠ "") (hd : s ≠ ".") :
    leadsOn d (origin false) s ↔ d.isTaken (Path.steps ⟨false, [s]⟩) := by
  rw [leadsOn, entryOf_origin slash]
  split
  · next h =>
    obtain rfl : s = ".." := by simpa [hd] using h
    have here : d.locate (origin false).steps = d.step .current d.workingDirectory :=
      follow_singleton (x := .current) (by simp) d linkLimit d.workingDirectory
    have up : d.isTaken (Path.steps ⟨false, [".."]⟩) =
        (d.step .parent d.workingDirectory).isOk := by
      rw [isTaken_of_grounded d (Path.isGrounded_singleton hne hd)]
      exact congrArg _ (follow_singleton (x := .parent) (by simp) d linkLimit d.workingDirectory)
    rw [isDirectory_iff, here, up, isOk_iff]
    constructor
    · rintro ⟨l, hl, -⟩
      exact ⟨_, step_parent (isDirectoryAt_of_step (by simp) hl)⟩
    · rintro ⟨l, hl⟩
      have dir := isDirectoryAt_of_step (by simp) hl
      exact ⟨_, step_current dir, dir⟩
  · rfl

theorem mem_descend_origin_iff (hd : d.IsWellNamed) (hr : root.IsGrounded)
    (slash : ∀ s ∈ root.front, '/' ∉ s.toList) (segments : ∀ pattern ∈ ps, pattern.IsSegment)
    (hps : ps ≠ []) {qs : List Pattern} (hqs : qs = root.front.map Pattern.plain ++ ps) :
    q ∈ descend d (depthLimit d qs) qs (origin root.isAbsolute) ↔
      ∃ r, Matches ps r ∧ d.isTaken (root.rewritten r).steps ∧ q = root.rewritten r ∧
        (endsRecursive ps → d.isDirectory q.steps) := by
  subst hqs
  cases ha : root.isAbsolute with
  | true =>
    have start : Path.IsGrounded ⟨true, []⟩ := .inl rfl
    simp only [Path.rewritten, ha, if_true]
    exact mem_descend_plain_iff hd start slash segments hps (Nat.le_refl _)
  | false =>
    obtain ⟨s, names, hf, hne, hdot⟩ := hr.exists_front_eq ha
    have start := Path.isGrounded_singleton hne hdot
    have first : '/' ∉ s.toList := slash s (by simp [hf])
    have rest : ∀ t ∈ names, '/' ∉ t.toList := fun t ht => slash t (by simp [hf, ht])
    have hqs : root.front.map Pattern.plain ++ ps =
        Pattern.plain s :: (names.map Pattern.plain ++ ps) := by simp [hf]
    obtain ⟨depth, hdepth, enough⟩ : ∃ depth,
        depthLimit d (root.front.map Pattern.plain ++ ps) = depth + 1 ∧
          depthLimit d (names.map Pattern.plain ++ ps) ≤ depth := by
      rw [hqs]
      refine ⟨_, Nat.succ_mul .., ?_⟩
      exact Nat.le_add_right ..
    have literal : (Pattern.plain s).literal? = some s := literal?_eq_some_iff.2 rfl
    -- the first step drops the dot, and from there on the path is grounded
    rw [hdepth, hqs, descend]
    simp only [literal, List.mem_ite_nil_right, leadsOn_origin_iff first hne hdot,
      entryOf_origin first, mem_descend_plain_iff hd start rest segments hps enough]
    simp only [Path.rewritten, ha, hf, Bool.false_eq_true, if_false, List.headD_cons,
      List.tail_cons]
    refine and_iff_right_of_imp ?_
    rintro ⟨r, hr', taken, -⟩
    exact isTaken_of_along start (fun t ht => (List.mem_append.1 ht).elim (rest t)
      (hr'.slash_notMem t)) taken

/-- What the patterns of `e` match below a path without wildcards. -/
theorem exists_expand_join_eq (hd : d.IsWellNamed) (plain : IsPlain root) (hr : root.IsGrounded)
    (slash : ∀ s ∈ root.front, '/' ∉ s.toList) (he : e.isAbsolute = false)
    (slash' : ∀ s ∈ e.segments, '/' ∉ s.toList) (hps : patterns e = .ok ps) (hne : ps ≠ []) :
    ∃ qs, expand d (root.join e) = .ok qs ∧ ∀ q, q ∈ qs ↔
      ∃ r, Matches ps r ∧ d.isTaken (root.rewritten r).steps ∧ q = root.rewritten r ∧
        (endsRecursive ps ∨ e.segments.getLast? = some "" → d.isDirectory q.steps) := by
  have given : e.segments ≠ [] := by
    intro h
    rw [patterns_eq_ok_iff, Path.front, h] at hps
    exact hne (Except.ok.inj hps.2).symm
  have closed : (root.join e).segments.getLast? = e.segments.getLast? := by
    rw [Path.join_of_relative root he, List.getLast?_append_of_ne_nil _ given]
  have absolute : (root.join e).isAbsolute = root.isAbsolute := by
    rw [Path.join_of_relative root he]
  have mem_descend (q : Path) := mem_descend_origin_iff (q := q) hd hr slash
    (isSegment_of_patterns slash' hps) hne rfl
  rw [expand_eq, (patterns_join_iff plain hr he given).2 ⟨ps, hps, rfl⟩, closed, absolute]
  refine ⟨_, rfl, fun q => ?_⟩
  split
  · next hc =>
    rw [List.mem_filter, mem_descend q]
    simp only [hc, or_true, true_implies]
    constructor
    · rintro ⟨⟨r, h, taken, hq, -⟩, dir⟩
      exact ⟨r, h, taken, hq, dir⟩
    · rintro ⟨r, h, taken, hq, dir⟩
      exact ⟨⟨r, h, taken, hq, fun _ => dir⟩, dir⟩
  · next hc =>
    simp only [hc, or_false]
    exact mem_descend q

end ContainerAliases.Glob
