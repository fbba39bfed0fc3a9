import Mathlib.Data.List.DropRight
import ContainerAliases.Proofs.Disk.Children

namespace ContainerAliases.Disk

variable {d : Disk} {p q : Path} {s : String} {ss : List String} {cs : Route}

namespace Path

theorem trim_eq (ss : List String) : trim ss = ss.rdropWhile Component.isIdle := rfl

theorem ofSegment?_eq_none_iff : Component.ofSegment? s = none ↔ Component.isIdle s := by
  rw [Component.ofSegment?]
  split_ifs with h <;> simp [h]

theorem filterMap_trim (ss : List String) :
    (trim ss).filterMap Component.ofSegment? = ss.filterMap Component.ofSegment? := by
  induction ss using List.reverseRecOn with
  | nil => rfl
  | append_singleton ss s ih =>
    rw [trim_eq, List.rdropWhile_concat, ← trim_eq]
    split
    · next h => simp [ih, ofSegment?_eq_none_iff.2 h]
    · rfl

theorem trim_eq_nil_iff : trim ss = [] ↔ ss.filterMap Component.ofSegment? = [] := by
  rw [trim_eq, List.rdropWhile_eq_nil_iff, List.filterMap_eq_nil_iff]
  simp only [ofSegment?_eq_none_iff]

theorem filterMap_dropLast_trim (h : trim ss ≠ []) :
    (trim (trim ss).dropLast).filterMap Component.ofSegment? =
      (ss.filterMap Component.ofSegment?).dropLast := by
  have last : ¬ Component.isIdle ((trim ss).getLast h) := List.rdropWhile_last_not _ ss h
  obtain ⟨c, hc⟩ := Option.ne_none_iff_exists'.1 (mt ofSegment?_eq_none_iff.1 last)
  rw [filterMap_trim, ← filterMap_trim ss]
  conv_rhs => rw [← List.dropLast_append_getLast h]
  simp [hc]

theorem exists_eq_of_startsHere (h : p.startsHere) : ∃ ss, p = ⟨false, "." :: ss⟩ := by
  obtain ⟨isAbsolute, segments⟩ := p
  obtain ⟨ha, hs⟩ : isAbsolute = false ∧ segments.head? = some "." := by simpa [startsHere] using h
  obtain ⟨ss, rfl⟩ := List.head?_eq_some_iff.1 hs
  exact ⟨ss, by rw [ha]⟩

theorem components_dot (ss : List String) :
    components ⟨false, "." :: ss⟩ = .current :: ss.filterMap Component.ofSegment? := by
  simp [components, startsHere, Component.ofSegment?, Component.isIdle]

theorem components_of_not_startsHere (h : p.startsHere = false) :
    p.components = p.lead ++ p.segments.filterMap Component.ofSegment? := by
  simp [components, lead, h]

theorem parent_dot (ss : List String) : parent ⟨false, "." :: ss⟩ =
    some ⟨false, if trim ss = [] then [] else "." :: trim (trim ss).dropLast⟩ := by
  cases h : trim ss <;> simp [parent, startsHere, h]

theorem parent_of_not_startsHere (h : p.startsHere = false) : p.parent =
    if trim p.segments = [] then none
    else some ⟨p.isAbsolute, trim (trim p.segments).dropLast⟩ := by
  cases ht : trim p.segments <;> simp [parent, h, ht]

theorem startsHere_of_prefix (h : p.startsHere = false) (hs : ss <+: p.segments) :
    startsHere ⟨p.isAbsolute, ss⟩ = false := by
  cases ss with
  | nil => simp [startsHere]
  | cons s ss =>
    obtain ⟨rest, hrest⟩ := hs
    rw [startsHere, ← hrest] at h
    exact h

theorem trim_dropLast_trim_initial (ss : List String) : trim (trim ss).dropLast <+: ss :=
  ((List.rdropWhile_prefix _ _).trans (List.dropLast_prefix _)).trans (List.rdropWhile_prefix _ _)

theorem components_of_parent (h : p.parent = some q) :
    q.isAbsolute = p.isAbsolute ∧ q.components = p.components.dropLast := by
  cases hs : p.startsHere with
  | true =>
    obtain ⟨ss, rfl⟩ := exists_eq_of_startsHere hs
    rw [parent_dot] at h
    obtain rfl := Option.some.inj h
    refine ⟨rfl, ?_⟩
    rw [components_dot]
    split
    · next ht =>
      rw [trim_eq_nil_iff.1 ht]
      rfl
    · next ht =>
      rw [components_dot, filterMap_dropLast_trim ht,
        List.dropLast_cons_of_ne_nil (mt trim_eq_nil_iff.2 ht)]
  | false =>
    rw [parent_of_not_startsHere hs] at h
    obtain ⟨ht, h⟩ := Option.ite_none_left_eq_some.1 h
    obtain rfl := Option.some.inj h
    refine ⟨rfl, ?_⟩
    have here := startsHere_of_prefix hs (trim_dropLast_trim_initial p.segments)
    rw [components_of_not_startsHere here, components_of_not_startsHere hs,
      filterMap_dropLast_trim ht, List.dropLast_append_of_ne_nil (mt trim_eq_nil_iff.2 ht)]
    rfl

/-- The way up ends at the root of the disk, or where a relative path starts from. -/
theorem parent_eq_none_iff : p.parent = none ↔ p.components = p.lead := by
  cases hs : p.startsHere with
  | true =>
    obtain ⟨ss, rfl⟩ := exists_eq_of_startsHere hs
    rw [parent_dot, components_dot]
    simp [lead]
  | false =>
    rw [parent_of_not_startsHere hs, components_of_not_startsHere hs, List.append_right_eq_self,
      ← trim_eq_nil_iff]
    simp

theorem ancestors_eq (p : Path) : p.ancestors = p :: p.parent.elim [] ancestors := by
  rw [ancestors]
  cases p.parent <;> rfl

def up : Nat → Path → Option Path
  | 0, p => some p
  | n + 1, p => p.parent.bind (up n)

theorem up_succ (n : Nat) (p : Path) : up (n + 1) p = (up n p).bind parent := by
  induction n generalizing p with
  | zero => exact Option.bind_fun_some p.parent
  | succ n ih =>
    rw [up, up]
    cases p.parent with
    | none => rfl
    | some q => exact ih q

theorem getElem?_ancestors (p : Path) (n : Nat) : p.ancestors[n]? = up n p := by
  induction n generalizing p with
  | zero =>
    rw [ancestors_eq]
    rfl
  | succ n ih =>
    rw [ancestors_eq, List.getElem?_cons_succ, up]
    cases p.parent with
    | none => rfl
    | some q => exact ih q

/-- `p` goes on from the components of `q`. -/
structure IsBelow (p q : Path) : Prop where
  isAbsolute : p.isAbsolute = q.isAbsolute
  components : ∃ r ≠ [], p.components = q.components ++ r

theorem length_lead_le (p : Path) : p.lead.length ≤ p.components.length := by
  rw [lead]
  split
  · next h =>
    rw [components_of_isAbsolute h]
    simp
  · exact Nat.zero_le _

theorem IsBelow.exists_parent (h : p.IsBelow q) : ∃ p', p.parent = some p' := by
  obtain ⟨ha, r, hr, hc⟩ := h
  refine Option.ne_none_iff_exists'.1 fun hp => hr ?_
  have lead : p.lead = q.lead := by rw [lead, lead, ha]
  have length := congrArg List.length (hc.symm.trans (parent_eq_none_iff.1 hp))
  rw [lead, List.length_append] at length
  have := q.length_lead_le
  exact List.length_eq_zero_iff.1 (by omega)

/-- The way up from a path below another passes the other, and before that only what is below it. -/
theorem exists_up_eq {r : Route} (ha : p.isAbsolute = q.isAbsolute)
    (hc : p.components = q.components ++ r) :
    ∃ p', up r.length p = some p' ∧ p'.components = q.components ∧
      ∀ m < r.length, ∀ x, up m p = some x → x.IsBelow q := by
  induction r using List.reverseRecOn generalizing p with
  | nil => exact ⟨p, rfl, by simpa using hc, fun m hm => absurd hm (Nat.not_lt_zero m)⟩
  | append_singleton r c ih =>
    have below : p.IsBelow q := ⟨ha, r ++ [c], by simp, hc⟩
    obtain ⟨p₁, hp₁⟩ := below.exists_parent
    obtain ⟨ha₁, hc₁⟩ := components_of_parent hp₁
    rw [hc, ← List.append_assoc, List.dropLast_concat] at hc₁
    obtain ⟨p', hup, hp', before⟩ := ih (ha₁.trans ha) hc₁
    have step (n : Nat) : up (n + 1) p = up n p₁ := by rw [up, hp₁, Option.bind_some]
    rw [List.length_append, List.length_singleton, step]
    refine ⟨p', hup, hp', fun m hm x hx => ?_⟩
    cases m with
    | zero =>
      obtain rfl := Option.some.inj hx
      exact below
    | succ m =>
      rw [step] at hx
      exact before m (by omega) x hx

theorem length_le_of_up {n : Nat} (h : up n p = some q) : n ≤ p.components.length := by
  induction n generalizing p with
  | zero => exact Nat.zero_le _
  | succ n ih =>
    obtain ⟨p₁, hp₁, h⟩ := Option.bind_eq_some_iff.1 h
    have hne : p.components ≠ [] := by
      intro hc
      have hl := p.length_lead_le
      rw [hc, List.length_nil, Nat.le_zero, List.length_eq_zero_iff] at hl
      rw [parent_eq_none_iff.2 (hc.trans hl.symm)] at hp₁
      cases hp₁
    have hle := ih h
    rw [(components_of_parent hp₁).2, List.length_dropLast] at hle
    have := List.length_pos_iff.2 hne
    omega

/-- Segments that name nothing can be left out in front of a name. -/
theorem alike_filterMap (xs : Route) (ss : List String) (s : String) :
    Route.Alike (xs ++ ss.map steps.step ++ [.name s])
      (xs ++ ss.filterMap Component.ofSegment? ++ [.name s]) := by
  induction ss generalizing xs with
  | nil => exact .refl _
  | cons t ss ih =>
    cases ht : Component.ofSegment? t with
    | some c =>
      have step : steps.step t = c := by rw [steps.step, ht]; rfl
      simpa [step, ht] using ih (xs ++ [c])
    | none =>
      have step : steps.step t = .current := by rw [steps.step, ht]; rfl
      rw [List.map_cons, step, List.filterMap_cons_none ht]
      refine .trans ?_ (ih xs)
      -- the step that stays in place is followed by another, be it that to the name
      cases ss with
      | nil => simpa using Route.Alike.drop_current xs (x := .name s) (by simp)
      | cons u us =>
        have drop := (Route.Alike.drop_current xs (step_ne_root u)).append
          (us.map steps.step ++ [.name s])
        simpa using drop

theorem steps_child (p : Path) (hs : IsName s) :
    (p.child s).steps = p.lead ++ p.front.map steps.step ++ [.name s] := by
  have hne : p.front ++ [s] ≠ [""] := by
    intro h
    have := congrArg List.getLast? h
    simp [hs.nonempty] at this
  rw [Path.child, ofText_of_slash_notMem hs.slash, join_of_relative p rfl, steps_eq (.inr hne),
    List.map_append, List.map_singleton, step_of_isName hs, ← List.append_assoc]
  rfl

theorem alike_child_components (p : Path) (hs : IsName s) :
    Route.Alike (p.child s).steps (p.components ++ [.name s]) := by
  rw [steps_child p hs]
  cases hh : p.startsHere with
  | false =>
    have alike := alike_filterMap p.lead p.front s
    rw [filterMap_front] at alike
    rw [components_of_not_startsHere hh]
    exact alike
  | true =>
    obtain ⟨ss, rfl⟩ := exists_eq_of_startsHere hh
    -- the dot at the front is a component, so it stays
    obtain ⟨fs, hf⟩ : ∃ fs, Path.front ⟨false, "." :: ss⟩ = "." :: fs := by
      have head := head?_front (p := ⟨false, "." :: ss⟩) ⟨".", by simp, by decide⟩ []
      rw [List.append_nil] at head
      exact List.head?_eq_some_iff.1 head
    have named : fs.filterMap Component.ofSegment? = ss.filterMap Component.ofSegment? := by
      have all := filterMap_front ⟨false, "." :: ss⟩
      rw [hf] at all
      simpa [Component.ofSegment?, Component.isIdle] using all
    rw [components_dot, hf, ← named]
    exact alike_filterMap [.current] fs s

end Path

theorem locate_child (d : Disk) (p : Path) (hs : IsName s) : d.locate (p.child s).steps =
    d.follow true linkLimit (p.child s).steps d.workingDirectory := by
  rw [locate, if_neg]
  simp [p.steps_child hs]

theorem find?_child_congr (d : Disk) (hc : p.components = q.components) (hs : IsName s) :
    d.find? (p.child s).steps = d.find? (q.child s).steps := by
  have alike := p.alike_child_components hs
  rw [hc] at alike
  rw [find?, find?, locate_child d p hs, locate_child d q hs,
    (alike.trans (q.alike_child_components hs).symm).follow_eq]

/-- Only a directory holds something; the empty path stands for the working directory. -/
theorem isDirectory_of_reaches_child (hs : IsName s) (h : d.reaches (p.child s).steps) :
    p.steps = [] ∨ d.isDirectory p.steps := by
  obtain ⟨m, -, hm, -⟩ := reaches_iff.1 h
  rw [locate_child d p hs, p.steps_child hs] at hm
  obtain ⟨l, m, hl, hstep⟩ :=
    isOk_follow_concat_iff.1 (isOk_follow_of_through (isOk_iff.2 ⟨m, hm⟩))
  have dir := isDirectoryAt_of_step (by simp) hstep
  by_cases none : p.steps = []
  · exact .inl none
  have given : p.isAbsolute ∨ p.segments ≠ [""] := by
    by_contra! h
    exact none (by simp [Path.steps, h])
  refine .inr (isDirectory_iff.2 ⟨l, ?_, dir⟩)
  rw [locate, if_neg (by simpa using none), Path.steps_eq given]
  rcases p.segments_eq_front with hf | hf
  · rw [hf]
    exact hl
  · -- the slash at the end asks for a directory, and there is one
    rw [hf, List.map_append, ← List.append_assoc]
    exact (follow_concat (x := .current) (by simp) ..).trans
      (bind_eq_ok_iff.2 ⟨l, hl, step_current dir⟩)

end ContainerAliases.Disk
