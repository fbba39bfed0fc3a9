import ContainerAliases.Proofs.Glob.Matching

namespace ContainerAliases.Glob

open Disk

variable {d : Disk} {p q : Path} {pattern : Pattern} {ps : List Pattern} {s : String}
  {r : List String} {depth : Nat}

theorem entryOf_eq_child (hp : p.IsGrounded) (s : String) : entryOf p s = p.child s := by
  refine if_neg fun h => ?_
  rw [Path.components, hp.startsHere_eq] at h
  cases hsegments : p.segments.filterMap Component.ofSegment? with
  | nil =>
    rw [hsegments] at h
    split at h <;> simp at h
  | cons x xs =>
    have current := Path.current_notMem_filterMap p.segments
    rw [hsegments] at h current
    split at h
    · simp at h
    · obtain rfl := (List.cons.inj h).1
      exact current List.mem_cons_self

theorem mem_entries_iff (hd : d.IsWellNamed) (hp : p.IsGrounded) :
    q ∈ entries d p ↔ ∃ s, IsName s ∧ d.isTaken (p.child s).steps ∧ q = p.child s := by
  rw [entries]
  constructor
  · intro h
    split at h
    · next l hl =>
      obtain ⟨dir, h⟩ := List.mem_ite_nil_right.1 h
      obtain ⟨s, hs, rfl⟩ := List.mem_map.1 h
      have name := isName_of_mem_names hd hs
      exact ⟨s, name, (isTaken_child_name_iff hd hp name).2 ⟨l, hl, dir, hs⟩,
        entryOf_eq_child hp s⟩
    · cases h
  · rintro ⟨s, name, taken, rfl⟩
    obtain ⟨l, hl, dir, hs⟩ := (isTaken_child_name_iff hd hp name).1 taken
    simp only [hl, dir, if_true, List.mem_map]
    exact ⟨s, hs, entryOf_eq_child hp s⟩

theorem leadsOn_iff (hp : p.IsGrounded) : leadsOn d p s ↔ d.isTaken (p.child s).steps := by
  rw [leadsOn]
  split
  · next h =>
    rw [Bool.or_eq_true, beq_iff_eq, beq_iff_eq] at h
    exact (isTaken_child_dots_iff hp h).symm
  · rw [entryOf_eq_child hp]

theorem mem_dots_iff (hp : p.IsGrounded) : q ∈ dots d p pattern ↔
    ∃ s, (s = "." ∨ s = "..") ∧ pattern.head? = some (.char '.') ∧ pattern.covers s.toList ∧
      d.isTaken (p.child s).steps ∧ q = p.child s := by
  rw [dots, List.mem_ite_nil_right]
  simp only [Bool.and_eq_true, beq_iff_eq, List.mem_map, List.mem_filter, List.mem_cons,
    List.not_mem_nil, or_false]
  constructor
  · rintro ⟨⟨dir, head⟩, s, ⟨hs, covers⟩, rfl⟩
    exact ⟨s, hs, head, covers, (isTaken_child_dots_iff hp hs).2 dir, rfl⟩
  · rintro ⟨s, hs, head, covers, taken, rfl⟩
    exact ⟨⟨(isTaken_child_dots_iff hp hs).1 taken, head⟩, s, ⟨hs, covers⟩, rfl⟩

theorem mem_keep_child_iff {go : List Pattern → Path → List Path} (hp : p.IsGrounded)
    (hs : IsName s) :
    q ∈ keep go pattern ps (p.child s) ↔ pattern.covers s.toList ∧ q ∈ go ps (p.child s) := by
  rw [keep, Path.fileName?_child hp hs, Option.any_some, List.mem_ite_nil_right]

/-- A step down from `p` to its child `s`, below which `qs` are left to be matched. `**` goes on in
every directory, ends there, or makes room for the next pattern. -/
inductive Stride (d : Disk) (p : Path) : List Pattern → String → List Pattern → Prop where
  | single {pattern : Pattern} {ps : List Pattern} {s : String}
    (single : pattern.isRecursive = false) (fits : Fits pattern s) :
    Stride d p (pattern :: ps) s ps
  | inside {pattern : Pattern} {ps : List Pattern} {s : String}
    (recursive : pattern.isRecursive) (name : IsName s)
    (dir : d.isDirectory (p.child s).steps) :
    Stride d p (pattern :: ps) s (pattern :: afterRecursive ps)
  | last {pattern : Pattern} {ps : List Pattern} {s : String}
    (recursive : pattern.isRecursive) (name : IsName s)
    (dir : d.isDirectory (p.child s).steps) (rest : afterRecursive ps = []) :
    Stride d p (pattern :: ps) s []
  | next {pattern next : Pattern} {ps qs : List Pattern} {s : String}
    (recursive : pattern.isRecursive) (name : IsName s) (rest : afterRecursive ps = next :: qs)
    (covers : next.covers s.toList) : Stride d p (pattern :: ps) s qs

variable {qs : List Pattern}

theorem Stride.of_single (h : Stride d p (pattern :: ps) s qs)
    (single : pattern.isRecursive = false) : qs = ps ∧ Fits pattern s := by
  cases h with
  | single _ fits => exact ⟨rfl, fits⟩
  | inside recursive | last recursive | next recursive =>
    exact absurd (single.symm.trans recursive) Bool.false_ne_true

theorem mem_choose_iff (hp : p.IsGrounded) (name : IsName s) :
    q ∈ choose d (descend d depth) pattern ps (p.child s) ↔
      ∃ qs, Stride d p (pattern :: ps) s qs ∧ q ∈ descend d depth qs (p.child s) := by
  simp only [choose]
  cases recursive : pattern.isRecursive with
  | false =>
    rw [if_neg Bool.false_ne_true, mem_keep_child_iff hp name]
    constructor
    · rintro ⟨covers, h⟩
      exact ⟨ps, .single recursive ⟨covers, .inl name⟩, h⟩
    · rintro ⟨_, stride, h⟩
      obtain ⟨rfl, fits⟩ := stride.of_single recursive
      exact ⟨fits.1, h⟩
  | true =>
    rw [if_pos rfl, List.mem_append, List.mem_ite_nil_right]
    constructor
    · rintro (⟨dir, h⟩ | h)
      · exact ⟨_, .inside recursive name dir, h⟩
      · split at h
        · next he =>
          obtain ⟨dir, h⟩ := List.mem_ite_nil_right.1 h
          exact ⟨[], .last recursive name dir he, by simpa only [descend] using h⟩
        · next next qs he =>
          obtain ⟨covers, h⟩ := (mem_keep_child_iff hp name).1 h
          exact ⟨qs, .next recursive name he covers, h⟩
    · rintro ⟨_, stride, h⟩
      cases stride with
      | single single => simp [recursive] at single
      | inside _ _ dir => exact .inl ⟨dir, h⟩
      | last _ _ dir he =>
        rw [descend] at h
        exact .inr (by simpa only [he, dir, if_true] using h)
      | next _ _ he covers =>
        simp only [he]
        exact .inr ((mem_keep_child_iff hp name).2 ⟨covers, h⟩)

theorem mem_descend_succ_iff (hd : d.IsWellNamed) (hp : p.IsGrounded)
    (segment : pattern.IsSegment) : q ∈ descend d (depth + 1) (pattern :: ps) p ↔
      ∃ s qs, Stride d p (pattern :: ps) s qs ∧ d.isTaken (p.child s).steps ∧
        q ∈ descend d depth qs (p.child s) := by
  rw [descend]
  cases hl : pattern.literal? with
  | some t =>
    obtain rfl := literal?_eq_some_iff.1 hl
    have fits_iff (s : String) : Fits (.plain t) s ↔ s = t :=
      fits_plain_iff fun h => segment.slash (List.mem_map_of_mem h)
    simp only [List.mem_ite_nil_right, leadsOn_iff hp, entryOf_eq_child hp]
    constructor
    · rintro ⟨taken, h⟩
      exact ⟨t, ps, .single (isRecursive_plain t) ((fits_iff t).2 rfl), taken, h⟩
    · rintro ⟨s, _, stride, taken, h⟩
      obtain ⟨rfl, fits⟩ := stride.of_single (isRecursive_plain t)
      exact (fits_iff s).1 fits ▸ ⟨taken, h⟩
  | none =>
    simp only [List.mem_append, List.mem_flatMap, mem_entries_iff hd hp, mem_dots_iff hp]
    constructor
    · rintro (⟨_, ⟨s, name, taken, rfl⟩, h⟩ | ⟨_, ⟨s, hs, head, covers, taken, rfl⟩, h⟩)
      · obtain ⟨qs, stride, h⟩ := (mem_choose_iff hp name).1 h
        exact ⟨s, qs, stride, taken, h⟩
      · have single : pattern.isRecursive = false := by
          rw [Bool.eq_false_iff]
          intro recursive
          simp [segment.recursive (List.contains_iff_mem.1 recursive)] at head
        exact ⟨s, ps, .single single ⟨covers, .inr (.inl ⟨hs, head⟩)⟩, taken, h⟩
    · rintro ⟨s, qs, stride, taken, h⟩
      by_cases name : IsName s
      · exact .inl ⟨_, ⟨s, name, taken, rfl⟩, (mem_choose_iff hp name).2 ⟨qs, stride, h⟩⟩
      cases stride with
      | single _ fits =>
        obtain ⟨covers, named | ⟨hs, head⟩ | ⟨rfl, rfl⟩⟩ := fits
        · exact absurd named name
        · exact .inr ⟨_, ⟨s, hs, head, covers, taken, rfl⟩, h⟩
        · cases hl
      | inside _ named | last _ named | next _ named => exact absurd named name

/-- `**` at the end stands for directories only. -/
def endsRecursive (ps : List Pattern) : Bool := ps.getLast?.any Pattern.isRecursive

theorem endsRecursive_cons (pattern : Pattern) (hps : ps ≠ []) :
    endsRecursive (pattern :: ps) = endsRecursive ps := by
  obtain ⟨q, qs, rfl⟩ := List.exists_cons_of_ne_nil hps
  rw [endsRecursive, List.getLast?_cons_cons, ← endsRecursive]

theorem endsRecursive_of_single (single : pattern.isRecursive = false) :
    endsRecursive (pattern :: ps) = endsRecursive ps := by
  cases ps with
  | nil => simp [endsRecursive, single]
  | cons q qs => exact endsRecursive_cons pattern (List.cons_ne_nil q qs)

theorem endsRecursive_afterRecursive (recursive : pattern.isRecursive) :
    endsRecursive (pattern :: afterRecursive ps) = endsRecursive (pattern :: ps) := by
  induction ps with
  | nil => rfl
  | cons q ps ih =>
    rw [afterRecursive, List.dropWhile_cons]
    split
    · next hq =>
      rw [← afterRecursive, ih, endsRecursive_cons pattern (List.cons_ne_nil q ps)]
      cases ps with
      | nil => simp [endsRecursive, recursive, hq]
      | cons => rfl
    · rfl

theorem isRecursive_of_mem_head? {q : Pattern} (h : q ∈ (afterRecursive ps).head?) :
    q.isRecursive = false := by
  have := List.head?_dropWhile_not Pattern.isRecursive ps
  rw [← afterRecursive, Option.mem_def.1 h] at this
  simpa using this

/-- `**` as the search goes by it, which drops any further `**` right behind this one. -/
theorem matches_recursive_iff_afterRecursive (recursive : pattern.isRecursive) :
    Matches (pattern :: ps) r ↔ ∃ s r', r = s :: r' ∧ IsName s ∧
      (Matches (pattern :: afterRecursive ps) r' ∨ (afterRecursive ps = [] ∧ r' = []) ∨
        ∃ next qs, afterRecursive ps = next :: qs ∧ next.covers s.toList ∧ Matches qs r') := by
  rw [← matches_afterRecursive recursive]
  exact matches_recursive_iff recursive fun _ => isRecursive_of_mem_head?

theorem forall_mem_afterRecursive {P : Pattern → Prop} (h : ∀ p ∈ ps, P p) :
    ∀ p ∈ afterRecursive ps, P p := fun p hp =>
  h p ((List.dropWhile_suffix Pattern.isRecursive).subset hp)

theorem Fits.slash_notMem (h : Fits pattern s) : '/' ∉ s.toList := by
  obtain ⟨-, name | ⟨rfl | rfl, -⟩ | ⟨rfl, -⟩⟩ := h
  · exact name.slash
  all_goals decide

theorem Matches.slash_notMem (h : Matches ps r) : ∀ s ∈ r, '/' ∉ s.toList := by
  induction h with
  | done => simp
  | segment p ps s r single fits rest ih => exact List.forall_mem_cons.2 ⟨fits.slash_notMem, ih⟩
  | directories p ps names r recursive named nonempty rest ih =>
    intro s hs
    rcases List.mem_append.1 hs with hs | hs
    · exact (named s (List.mem_append_left _ hs)).slash
    · exact ih s hs

theorem isDirectory_of_leads (hp : p.IsGrounded) (hr : r ≠ []) (slash : ∀ s ∈ r, '/' ∉ s.toList)
    (h : d.Leads p r) : d.isDirectory p.steps := by
  obtain ⟨s, r, rfl⟩ := List.exists_cons_of_ne_nil hr
  obtain ⟨l, m, hl, hm⟩ := (isTaken_child_iff hp (slash s List.mem_cons_self)).1 h.1
  exact isDirectory_iff.2 ⟨l, hl, isDirectoryAt_of_step (Path.step_ne_root s) hm⟩

namespace Stride

theorem slash_notMem (h : Stride d p ps s qs) : '/' ∉ s.toList := by
  cases h with
  | single _ fits => exact fits.slash_notMem
  | inside _ name | last _ name | next _ name => exact name.slash

theorem forall_mem {P : Pattern → Prop} (h : Stride d p ps s qs) (hps : ∀ p ∈ ps, P p) :
    ∀ p ∈ qs, P p := by
  cases h with
  | single => exact (List.forall_mem_cons.1 hps).2
  | inside =>
    obtain ⟨first, rest⟩ := List.forall_mem_cons.1 hps
    exact List.forall_mem_cons.2 ⟨first, forall_mem_afterRecursive rest⟩
  | last => simp
  | next _ _ he =>
    have rest := forall_mem_afterRecursive (List.forall_mem_cons.1 hps).2
    rw [he] at rest
    exact (List.forall_mem_cons.1 rest).2

theorem matches_cons (h : Stride d p ps s qs) (hr : Matches qs r) : Matches ps (s :: r) := by
  cases h with
  | single single fits => exact .segment _ _ s r single fits hr
  | inside recursive name =>
    exact (matches_recursive_iff_afterRecursive recursive).2 ⟨s, r, rfl, name, .inl hr⟩
  | last recursive name _ he =>
    exact (matches_recursive_iff_afterRecursive recursive).2
      ⟨s, r, rfl, name, .inr (.inl ⟨he, matches_nil_iff.1 hr⟩)⟩
  | next recursive name he covers =>
    exact (matches_recursive_iff_afterRecursive recursive).2
      ⟨s, r, rfl, name, .inr (.inr ⟨_, qs, he, covers, hr⟩)⟩

/-- Below a step the patterns end as before, unless nothing is left to be matched in a directory. -/
theorem endsRecursive_eq (h : Stride d p ps s qs) :
    endsRecursive qs = endsRecursive ps ∨ qs = [] ∧ d.isDirectory (p.child s).steps := by
  cases h with
  | single single => exact .inl (endsRecursive_of_single single).symm
  | inside recursive => exact .inl (endsRecursive_afterRecursive recursive)
  | last _ _ dir => exact .inr ⟨rfl, dir⟩
  | @next pattern next ps _ _ recursive _ he =>
    have head : next ∈ (afterRecursive ps).head? := by simp [he]
    have single : next.isRecursive = false := isRecursive_of_mem_head? head
    rw [← endsRecursive_afterRecursive recursive, he,
      endsRecursive_cons pattern (List.cons_ne_nil next qs), endsRecursive_of_single single]
    exact .inl rfl

end Stride

/-- The patterns lead from `p` to `q` along the segments `r`. -/
structure Reaches (d : Disk) (ps : List Pattern) (p : Path) (r : List String) (q : Path) :
    Prop where
  matched : Matches ps r
  leads : d.Leads p r
  along : q = p.along r
  last : endsRecursive ps → d.isDirectory q.steps

theorem reaches_nil_iff : Reaches d [] p r q ↔ r = [] ∧ q = p := by
  constructor
  · rintro ⟨hr, -, rfl, -⟩
    obtain rfl := matches_nil_iff.1 hr
    exact ⟨rfl, rfl⟩
  · rintro ⟨rfl, rfl⟩
    exact ⟨.done, trivial, rfl, nofun⟩

/-- What the patterns lead to is reached by one step down and what is left to be matched. -/
theorem reaches_cons_iff (hp : p.IsGrounded) : Reaches d (pattern :: ps) p r q ↔
    ∃ s r' qs, r = s :: r' ∧ Stride d p (pattern :: ps) s qs ∧ d.isTaken (p.child s).steps ∧
      Reaches d qs (p.child s) r' q := by
  constructor
  · rintro ⟨hr, leads, along, last⟩
    cases single : pattern.isRecursive with
    | false =>
      obtain ⟨s, r, rfl, fits, hr⟩ := (matches_cons_iff single).1 hr
      rw [endsRecursive_of_single single] at last
      exact ⟨s, r, ps, rfl, .single single fits, leads.1, hr, leads.2, along, last⟩
    | true =>
      obtain ⟨s, r, rfl, name, h⟩ := (matches_recursive_iff_afterRecursive single).1 hr
      rw [← endsRecursive_afterRecursive single] at last
      refine ⟨s, r, ?_⟩
      rcases h with h | ⟨he, rfl⟩ | ⟨next, qs, he, covers, h⟩
      · -- there is more to come below `s`
        have dir := isDirectory_of_leads (hp.child name.slash) h.nonempty h.slash_notMem leads.2
        exact ⟨_, rfl, .inside single name dir, leads.1, h, leads.2, along, last⟩
      · obtain rfl : q = p.child s := along
        have dir : d.isDirectory (p.child s).steps := last (by simp [he, endsRecursive, single])
        exact ⟨[], rfl, .last single name dir he, leads.1, .done, trivial, rfl, nofun⟩
      · have stride : Stride d p (pattern :: ps) s qs := .next single name he covers
        refine ⟨qs, rfl, stride, leads.1, h, leads.2, along, fun hl => last ?_⟩
        rcases stride.endsRecursive_eq with ends | ⟨rfl, -⟩
        · rw [endsRecursive_afterRecursive single, ← ends, hl]
        · cases hl
  · rintro ⟨s, r, qs, rfl, stride, taken, hr, leads, rfl, last⟩
    refine ⟨stride.matches_cons hr, ⟨taken, leads⟩, rfl, fun hl => ?_⟩
    rcases stride.endsRecursive_eq with ends | ⟨rfl, dir⟩
    · exact last (ends ▸ hl)
    · obtain rfl := matches_nil_iff.1 hr
      exact dir

/-- The search finds what the patterns lead to along no more segments than it may take steps. -/
theorem mem_descend_iff_exists_le (hd : d.IsWellNamed) (hp : p.IsGrounded)
    (segments : ∀ pattern ∈ ps, pattern.IsSegment) :
    q ∈ descend d depth ps p ↔ ∃ r, r.length ≤ depth ∧ Reaches d ps p r q := by
  induction depth generalizing ps p with
  | zero =>
    cases ps with
    | nil => simp [descend, reaches_nil_iff]
    | cons pattern ps =>
      refine iff_of_false List.not_mem_nil ?_
      rintro ⟨r, hr, h⟩
      exact h.matched.nonempty (List.length_eq_zero_iff.1 (Nat.le_zero.1 hr))
  | succ depth ih =>
    cases ps with
    | nil => simp [descend, reaches_nil_iff]
    | cons pattern ps =>
      rw [mem_descend_succ_iff hd hp (segments pattern List.mem_cons_self)]
      constructor
      · rintro ⟨s, qs, stride, taken, h⟩
        obtain ⟨r, hr, h⟩ := (ih (hp.child stride.slash_notMem) (stride.forall_mem segments)).1 h
        exact ⟨s :: r, Nat.succ_le_succ hr,
          (reaches_cons_iff hp).2 ⟨s, r, qs, rfl, stride, taken, h⟩⟩
      · rintro ⟨r, hr, h⟩
        obtain ⟨s, r, qs, rfl, stride, taken, h⟩ := (reaches_cons_iff hp).1 h
        exact ⟨s, qs, stride, taken, (ih (hp.child stride.slash_notMem)
          (stride.forall_mem segments)).2 ⟨r, Nat.le_of_succ_le_succ hr, h⟩⟩

/-- As many steps are enough as the patterns are given. -/
theorem length_le_depthLimit (hp : p.IsGrounded) (hr : Matches ps r) (leads : d.Leads p r) :
    r.length ≤ depthLimit d ps := by
  induction hr generalizing p with
  | done => exact Nat.zero_le _
  | segment pattern ps s r single fits rest ih =>
    have := ih (hp.child fits.slash_notMem) leads.2
    rw [depthLimit] at this ⊢
    rw [List.length_cons, List.length_cons, Nat.succ_mul]
    omega
  | directories pattern ps names r recursive named nonempty rest ih =>
    have named : ∀ s ∈ names, IsName s := fun s hs => named s (List.mem_append_left _ hs)
    obtain ⟨down, leads⟩ := leads_append.1 leads
    have := length_le_of_leads hp named down
    have := ih (hp.along fun s hs => (named s hs).slash) leads
    rw [depthLimit] at this ⊢
    rw [List.length_append, List.length_cons, Nat.succ_mul]
    omega

theorem mem_descend_iff (hd : d.IsWellNamed) (hp : p.IsGrounded)
    (segments : ∀ pattern ∈ ps, pattern.IsSegment) (enough : depthLimit d ps ≤ depth) :
    q ∈ descend d depth ps p ↔ ∃ r, Matches ps r ∧ d.Leads p r ∧ q = p.along r ∧
      (endsRecursive ps → d.isDirectory q.steps) := by
  rw [mem_descend_iff_exists_le hd hp segments]
  constructor
  · rintro ⟨r, -, hr, leads, along, last⟩
    exact ⟨r, hr, leads, along, last⟩
  · rintro ⟨r, hr, leads, along, last⟩
    have steps : r.length ≤ depthLimit d ps := length_le_depthLimit hp hr leads
    exact ⟨r, Nat.le_trans steps enough, hr, leads, along, last⟩

end ContainerAliases.Glob
