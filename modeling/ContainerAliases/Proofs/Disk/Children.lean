import ContainerAliases.Proofs.Disk.Places
import ContainerAliases.Proofs.Disk.Spelling

namespace ContainerAliases.Disk

/-- The text is the name of something, so that a path can lead through it. -/
structure IsName (s : String) : Prop where
  nonempty : s ≠ ""
  ne_dot : s ≠ "."
  ne_dots : s ≠ ".."
  slash : '/' ∉ s.toList

instance (s : String) : Decidable (IsName s) :=
  decidable_of_iff (s ≠ "" ∧ s ≠ "." ∧ s ≠ ".." ∧ '/' ∉ s.toList)
    ⟨fun ⟨h₁, h₂, h₃, h₄⟩ => ⟨h₁, h₂, h₃, h₄⟩, fun h => ⟨h.1, h.2, h.3, h.4⟩⟩

/-- Everything on the disk stands under names, none of them too long. -/
def IsWellNamed (d : Disk) : Prop :=
  ∀ l ∈ d.entries.keys, ∀ s ∈ l, IsName s ∧ s.utf8ByteSize ≤ nameLimit

instance (d : Disk) : Decidable d.IsWellNamed := inferInstanceAs (Decidable (∀ l ∈ _, _))

variable {d : Disk} {p q : Path} {s text : String} {ss r : List String} {l : Location}

namespace Path

/-- The path is absolute, or begins with a name or two dots. -/
def IsGrounded (p : Path) : Prop :=
  p.isAbsolute ∨ ∃ s, p.segments.head? = some s ∧ s ≠ "" ∧ s ≠ "."

instance (p : Path) : Decidable p.IsGrounded :=
  decidable_of_iff (p.isAbsolute ∨ (p.segments.head?.any fun s => s != "" && s != ".") = true) <| by
    simp [IsGrounded, Option.any_eq_true]

theorem IsGrounded.isGiven (h : p.IsGrounded) : p.IsGiven := by
  rcases h with h | ⟨s, hs, hne, -⟩
  · exact .inl h
  · exact .inr ⟨s, List.mem_of_head? hs, hne⟩

theorem IsGrounded.startsHere_eq (h : p.IsGrounded) : p.startsHere = false := by
  rcases h with h | ⟨s, hs, -, hne⟩
  · simp [startsHere, h]
  · simp [startsHere, hs, hne]

def lead (p : Path) : Route := if p.isAbsolute then [.root] else []

theorem steps_eq (h : p.isAbsolute ∨ p.segments ≠ [""]) :
    p.steps = p.lead ++ p.segments.map steps.step := by
  rw [steps, lead]
  split_ifs with ha hs
  · rfl
  · exact absurd hs (h.resolve_left ha)
  · rfl

theorem IsGrounded.steps_eq (h : p.IsGrounded) : p.steps = p.lead ++ p.segments.map steps.step := by
  refine Path.steps_eq (h.imp_right ?_)
  rintro ⟨s, hs, hne, -⟩ he
  rw [he] at hs
  exact hne (Option.some.inj hs).symm

theorem IsGrounded.join (h : p.IsGrounded) (r : List String) :
    IsGrounded (p.join ⟨false, r⟩) := by
  rw [join_of_relative p rfl]
  refine h.imp_right ?_
  rintro ⟨s, hs, hne, hd⟩
  exact ⟨s, (head?_front ⟨s, List.mem_of_head? hs, hne⟩ r).trans hs, hne, hd⟩

theorem IsGrounded.child (h : p.IsGrounded) (hs : '/' ∉ s.toList) : (p.child s).IsGrounded := by
  rw [Path.child, ofText_of_slash_notMem hs]
  exact h.join [s]

def along (p : Path) (r : List String) : Path := r.foldl child p

theorem IsGrounded.along (h : p.IsGrounded) (hr : ∀ s ∈ r, '/' ∉ s.toList) :
    (p.along r).IsGrounded := by
  induction r generalizing p with
  | nil => exact h
  | cons s r ih =>
    obtain ⟨hs, hr⟩ := List.forall_mem_cons.1 hr
    exact ih (h.child hs) hr

end Path

/-- The two routes lead the same way on every disk, also if more steps follow. -/
def Route.Alike (a b : Route) : Prop :=
  ∀ (d : Disk) (through : Bool) (n : Nat) (here : Location) (rest : Route),
    d.follow through n (a ++ rest) here = d.follow through n (b ++ rest) here

namespace Route.Alike

variable {a b c : Route} {x : Component}

theorem refl (a : Route) : Alike a a := fun _ _ _ _ _ => rfl

theorem trans (h : Alike a b) (h' : Alike b c) : Alike a c := fun d through n here rest =>
  (h d through n here rest).trans (h' d through n here rest)

theorem symm (h : Alike a b) : Alike b a := fun d through n here rest =>
  (h d through n here rest).symm

theorem append (h : Alike a b) (c : Route) : Alike (a ++ c) (b ++ c) := by
  intro d through n here rest
  rw [List.append_assoc, List.append_assoc]
  exact h d through n here (c ++ rest)

theorem follow_eq (h : Alike a b) (d : Disk) (through : Bool) (n : Nat) (here : Location) :
    d.follow through n a here = d.follow through n b here := by
  simpa using h d through n here []

theorem drop_current (a : Route) (hx : x ≠ .root) : Alike (a ++ [.current] ++ [x]) (a ++ [x]) := by
  intro d through n here rest
  rw [List.append_assoc, List.append_assoc, List.append_assoc]
  exact follow_append_current through hx

end Route.Alike

namespace Path

theorem step_ne_root (s : String) : steps.step s ≠ .root := fun h =>
  root_notMem_map_step [s] (List.mem_map.2 ⟨s, List.mem_singleton_self s, h⟩)

theorem step_of_isName (h : IsName s) : steps.step s = .name s := by
  simp [steps.step, Component.ofSegment?, Component.isIdle, h.nonempty, h.ne_dot, h.ne_dots]

theorem IsGrounded.alike_join (h : p.IsGrounded) (hr : r ≠ []) :
    Route.Alike (p.join ⟨false, r⟩).steps (p.steps ++ r.map steps.step) := by
  rw [(h.join r).steps_eq, h.steps_eq, join_of_relative p rfl]
  obtain ⟨s, r, rfl⟩ := List.exists_cons_of_ne_nil hr
  rcases p.segments_eq_front with hs | hs
  · rw [hs, List.map_append, List.append_assoc]
    exact .refl _
  · -- the slash at the end asks for a directory, as the step that follows does
    have drop := (Route.Alike.drop_current (p.lead ++ p.front.map steps.step)
      (step_ne_root s)).symm.append (r.map steps.step)
    rw [hs]
    simpa [steps.step, Component.ofSegment?, Component.isIdle, lead] using drop

theorem IsGrounded.alike_child (h : p.IsGrounded) (hs : '/' ∉ s.toList) :
    Route.Alike (p.child s).steps (p.steps ++ [steps.step s]) := by
  rw [Path.child, ofText_of_slash_notMem hs]
  exact h.alike_join (List.cons_ne_nil s [])

theorem IsGrounded.alike_along (h : p.IsGrounded) (hr : ∀ s ∈ r, '/' ∉ s.toList) :
    Route.Alike (p.along r).steps (p.steps ++ r.map steps.step) := by
  induction r generalizing p with
  | nil =>
    rw [List.map_nil, List.append_nil]
    exact .refl _
  | cons s r ih =>
    obtain ⟨hs, hr⟩ := List.forall_mem_cons.1 hr
    have rest := (h.alike_child hs).append (r.map steps.step)
    rw [List.append_assoc] at rest
    exact (ih (h.child hs) hr).trans rest

theorem components_join_segments (h : p.IsGiven) (r : List String) :
    (p.join ⟨false, r⟩).components = p.components ++ r.filterMap Component.ofSegment? := by
  rw [components_join h rfl, filterMap_words]

theorem components_along (h : p.IsGrounded) (hr : ∀ s ∈ r, '/' ∉ s.toList) :
    (p.along r).components = p.components ++ r.filterMap Component.ofSegment? := by
  induction r generalizing p with
  | nil => exact (List.append_nil _).symm
  | cons s r ih =>
    obtain ⟨hs, hr⟩ := List.forall_mem_cons.1 hr
    have child : (p.child s).components = p.components ++ [s].filterMap Component.ofSegment? := by
      rw [Path.child, ofText_of_slash_notMem hs, components_join_segments h.isGiven]
    rw [along, List.foldl_cons, ← along, ih (h.child hs) hr, child, List.append_assoc,
      ← List.filterMap_append]
    rfl

theorem fileName?_child (h : p.IsGrounded) (hs : IsName s) : (p.child s).fileName? = some s := by
  have named : [s].filterMap Component.ofSegment? = [.name s] := by
    simp [Component.ofSegment?, Component.isIdle, hs.nonempty, hs.ne_dot, hs.ne_dots]
  rw [fileName?, Path.child, ofText_of_slash_notMem hs.slash, components_join_segments h.isGiven,
    named, Route.fileName?, List.getLast?_concat]
  rfl

end Path

theorem Path.IsGrounded.isEmpty_steps (h : p.IsGrounded) : p.steps.isEmpty = false := by
  rw [h.steps_eq, Path.lead]
  rcases h with h | ⟨s, hs, -⟩
  · simp [h]
  · obtain ⟨ss, hss⟩ := List.head?_eq_some_iff.1 hs
    simp [hss]

theorem locate_of_grounded (d : Disk) (h : p.IsGrounded) :
    d.locate p.steps = d.follow true linkLimit p.steps d.workingDirectory := by
  simp [locate, h.isEmpty_steps]

theorem isTaken_of_grounded (d : Disk) (h : p.IsGrounded) :
    d.isTaken p.steps = (d.follow false linkLimit p.steps d.workingDirectory).isOk := by
  simp [isTaken, h.isEmpty_steps]

theorem isTaken_child_iff (h : p.IsGrounded) (hs : '/' ∉ s.toList) :
    d.isTaken (p.child s).steps ↔
      ∃ l m, d.locate p.steps = .ok l ∧ d.step (Path.steps.step s) l = .ok m := by
  rw [isTaken_of_grounded d (h.child hs), locate_of_grounded d h,
    (h.alike_child hs).follow_eq, isOk_follow_concat_iff]

theorem isTaken_child_dots_iff (h : p.IsGrounded) (hs : s = "." ∨ s = "..") :
    d.isTaken (p.child s).steps ↔ d.isDirectory p.steps := by
  have slash : '/' ∉ s.toList := by rcases hs with rfl | rfl <;> decide
  rw [isTaken_child_iff h slash, isDirectory_iff]
  refine exists_congr fun l => ⟨?_, fun ⟨hl, hd⟩ => ?_⟩
  · rintro ⟨m, hl, hm⟩
    exact ⟨hl, isDirectoryAt_of_step (Path.step_ne_root s) hm⟩
  · rcases hs with rfl | rfl
    · exact ⟨l, hl, step_current hd⟩
    · exact ⟨_, hl, step_parent hd⟩

theorem isTaken_child_name_iff (hd : d.IsWellNamed) (h : p.IsGrounded) (hs : IsName s) :
    d.isTaken (p.child s).steps ↔
      ∃ l, d.locate p.steps = .ok l ∧ d.isDirectoryAt l ∧ s ∈ d.names l := by
  rw [isTaken_child_iff h hs.slash, Path.step_of_isName hs]
  refine exists_congr fun l => ?_
  rw [mem_names_iff, OrderedMap.mem_keys_iff]
  constructor
  · rintro ⟨m, hl, hm⟩
    have dir := isDirectoryAt_of_step (by simp) hm
    exact ⟨hl, dir, ((step_name_eq_ok_iff dir).1 hm).2.1⟩
  · rintro ⟨hl, dir, he⟩
    have key : l ++ [s] ∈ d.entries.keys := (OrderedMap.mem_keys_iff ..).2 he
    exact ⟨_, hl, (step_name_eq_ok_iff dir).2 ⟨(hd _ key s (by simp)).2, he, rfl⟩⟩

theorem isName_of_mem_names (hd : d.IsWellNamed) (h : s ∈ d.names l) : IsName s :=
  (hd _ (mem_names_iff.1 h) s (by simp)).1

/-- Each segment leads on to something, be it a link that leads nowhere. -/
def Leads (d : Disk) (p : Path) : List String → Prop
  | [] => True
  | s :: r => d.isTaken (p.child s).steps ∧ d.Leads (p.child s) r

theorem leads_append {r' : List String} :
    d.Leads p (r ++ r') ↔ d.Leads p r ∧ d.Leads (p.along r) r' := by
  induction r generalizing p with
  | nil => exact (and_iff_right trivial).symm
  | cons s r ih =>
    rw [List.cons_append, Leads, ih, Leads, and_assoc]
    rfl

/-- What is taken has been reached through all that stands before it. -/
theorem isTaken_of_along (h : p.IsGrounded) (hr : ∀ s ∈ r, '/' ∉ s.toList)
    (taken : d.isTaken (p.along r).steps) : d.isTaken p.steps := by
  cases r with
  | nil => exact taken
  | cons s r =>
    rw [isTaken_of_grounded d (h.along hr), (h.alike_along hr).follow_eq] at taken
    obtain ⟨l, m, hl, -⟩ := exists_follow_of_append taken
    rw [isTaken_of_grounded d h]
    exact isOk_follow_of_through (isOk_iff.2 ⟨l, hl⟩)

theorem leads_iff (h : p.IsGrounded) (hr : ∀ s ∈ r, '/' ∉ s.toList) (hne : r ≠ []) :
    d.Leads p r ↔ d.isTaken (p.along r).steps := by
  induction r generalizing p with
  | nil => exact absurd rfl hne
  | cons s r ih =>
    obtain ⟨hs, hr⟩ := List.forall_mem_cons.1 hr
    have hc := h.child hs
    cases r with
    | nil => exact and_iff_left trivial
    | cons t r =>
      rw [Leads, ih hc hr (List.cons_ne_nil t r)]
      exact and_iff_right_of_imp (isTaken_of_along hc hr)

theorem length_le_of_leads (h : p.IsGrounded) (hr : ∀ s ∈ r, IsName s) (leads : d.Leads p r) :
    r.length ≤ (linkLimit + 1) * d.entries.size + 1 := by
  cases r using List.reverseRecOn with
  | nil => exact Nat.zero_le _
  | append_singleton ns s =>
    have slash : ∀ t ∈ ns ++ [s], '/' ∉ t.toList := fun t ht => (hr t ht).slash
    have names : (ns ++ [s]).map Path.steps.step = ns.map .name ++ [.name s] := by
      rw [List.map_append, List.map_singleton, Path.step_of_isName (hr s (by simp))]
      exact congrArg (· ++ _) (List.map_congr_left fun t ht =>
        Path.step_of_isName (hr t (List.mem_append_left _ ht)))
    have taken := (leads_iff h slash (by simp)).1 leads
    rw [isTaken_of_grounded d (h.along slash), (h.alike_along slash).follow_eq, names,
      ← List.append_assoc] at taken
    obtain ⟨l, -, hl, -⟩ := isOk_follow_concat_iff.1 taken
    have := length_le_of_follow (isOk_iff.2 ⟨l, hl⟩)
    simpa using this

namespace Path

/-- The paths have the same components, and lead the same way on every disk. -/
structure IsSame (p q : Path) : Prop where
  components : p.components = q.components
  steps : Route.Alike p.steps q.steps

theorem IsSame.isTaken_eq (h : p.IsSame q) (hp : p.IsGrounded) (hq : q.IsGrounded) (d : Disk) :
    d.isTaken p.steps = d.isTaken q.steps := by
  rw [isTaken_of_grounded d hp, isTaken_of_grounded d hq, h.steps.follow_eq]

theorem IsSame.isDirectory_eq (h : p.IsSame q) (hp : p.IsGrounded) (hq : q.IsGrounded) (d : Disk) :
    d.isDirectory p.steps = d.isDirectory q.steps := by
  rw [isDirectory, isDirectory, find?, find?, locate_of_grounded d hp, locate_of_grounded d hq,
    h.steps.follow_eq]

/-- The path and what stands below it, written anew segment after segment. -/
def rewritten (p : Path) (r : List String) : Path :=
  if p.isAbsolute then along ⟨true, []⟩ (p.front ++ r)
  else along ⟨false, [p.front.headD ""]⟩ (p.front.tail ++ r)

theorem IsGrounded.exists_front_eq (h : p.IsGrounded) (hp : p.isAbsolute = false) :
    ∃ s ss, p.front = s :: ss ∧ s ≠ "" ∧ s ≠ "." := by
  obtain ⟨s, hs, hne, hd⟩ := h.resolve_left (by simp [hp])
  have head := head?_front ⟨s, List.mem_of_head? hs, hne⟩ []
  rw [List.append_nil, hs] at head
  obtain ⟨ss, hss⟩ := List.head?_eq_some_iff.1 head
  exact ⟨s, ss, hss, hne, hd⟩

theorem isGrounded_singleton (hne : s ≠ "") (hd : s ≠ ".") : IsGrounded ⟨false, [s]⟩ :=
  .inr ⟨s, rfl, hne, hd⟩

theorem isSame_rewritten (h : p.IsGrounded) (hp : ∀ s ∈ p.front, '/' ∉ s.toList)
    (hr : ∀ s ∈ r, '/' ∉ s.toList) :
    (p.rewritten r).IsSame (p.join ⟨false, r⟩) ∧ (p.rewritten r).IsGrounded := by
  have lead : p.components = (if p.isAbsolute then [.root] else []) ++
      p.front.filterMap Component.ofSegment? := by
    rw [components, h.startsHere_eq, filterMap_front]
    rfl
  have joined := components_join_segments h.isGiven r
  have steps := (h.join r).steps_eq
  have all : ∀ s ∈ p.front ++ r, '/' ∉ s.toList := fun s hs =>
    (List.mem_append.1 hs).elim (hp s) (hr s)
  rw [join_of_relative p rfl] at joined steps ⊢
  cases ha : p.isAbsolute with
  | true =>
    have start : IsGrounded ⟨true, []⟩ := .inl rfl
    rw [ha] at joined steps
    rw [rewritten, if_pos ha]
    refine ⟨⟨?_, ?_⟩, start.along all⟩
    · rw [components_along start all, joined, lead, ha, List.filterMap_append, ← List.append_assoc]
      rfl
    · rw [steps]
      exact start.alike_along all
  | false =>
    obtain ⟨s, ss, hf, hne, hd⟩ := h.exists_front_eq ha
    have start := isGrounded_singleton hne hd
    rw [ha, hf] at joined steps
    rw [hf] at all
    have rest : ∀ t ∈ ss ++ r, '/' ∉ t.toList := fun t ht => all t (List.mem_cons_of_mem s ht)
    rw [rewritten, if_neg (by simp [ha]), hf, List.headD_cons, List.tail_cons]
    refine ⟨⟨?_, ?_⟩, start.along rest⟩
    · have first : components ⟨false, [s]⟩ = [s].filterMap Component.ofSegment? := by
        rw [components, start.startsHere_eq]
        rfl
      rw [components_along start rest, joined, lead, ha, hf, first, ← List.filterMap_append]
      simp only [Bool.false_eq_true, if_false, List.nil_append, ← List.filterMap_append]
      rfl
    · rw [steps]
      have along := start.alike_along rest
      rw [start.steps_eq] at along
      exact along

end Path

end ContainerAliases.Disk
