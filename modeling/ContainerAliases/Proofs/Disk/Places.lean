import ContainerAliases.Proofs.Disk.Following

namespace ContainerAliases.Disk

variable {d : Disk} {n : Nat} {here l m : Location} {p q : Path} {xs ys : Route}

def Route.moves (r : Route) : Route := r.filter (· != .current)

theorem Route.moves_append (xs ys : Route) :
    Route.moves (xs ++ ys) = Route.moves xs ++ Route.moves ys := List.filter_append ..

@[simp] theorem Route.moves_names (ns : List String) :
    Route.moves (ns.map .name) = ns.map .name := by
  simp [moves, List.filter_eq_self]

namespace Path

theorem moves_map_step (segments : List String) : Route.moves (segments.map steps.step) =
    segments.filterMap Component.ofSegment? := by
  induction segments with
  | nil => rfl
  | cons s segments ih =>
    have idle : Component.ofSegment? s ≠ some .current := by
      simp only [Component.ofSegment?]
      split_ifs <;> simp
    rw [List.map_cons, List.filterMap_cons, ← ih, steps.step]
    cases h : Component.ofSegment? s with
    | none => rfl
    | some x =>
      rw [h, Ne, Option.some.injEq] at idle
      simp [Route.moves, idle]

theorem moves_steps (p : Path) : Route.moves p.steps = Route.moves p.components := by
  have segments := moves_map_step p.segments
  have named : Route.moves (p.segments.filterMap Component.ofSegment?) =
      p.segments.filterMap Component.ofSegment? := by
    rw [← segments, Route.moves, Route.moves, List.filter_filter]
    simp
  rw [components, Route.moves_append, named, ← segments, steps]
  by_cases ha : p.isAbsolute
  · rw [if_pos ha, if_pos ha]
    rfl
  · have lead : Route.moves (if p.startsHere then [.current] else []) = [] := by
      split <;> rfl
    rw [if_neg ha, if_neg ha, lead, List.nil_append]
    split
    · next hs =>
      rw [hs]
      rfl
    · rfl

theorem current_notMem_filterMap (segments : List String) :
    Component.current ∉ segments.filterMap Component.ofSegment? := by
  rw [← moves_map_step]
  simp [Route.moves]

theorem root_notMem_map_step (segments : List String) :
    Component.root ∉ segments.map steps.step := by
  intro h
  obtain ⟨s, -, hs⟩ := List.mem_map.1 h
  simp only [steps.step, Component.ofSegment?] at hs
  split_ifs at hs <;> simp at hs

end Path

theorem follow_moves (xs : Route) (hr : .root ∉ ys)
    (h : d.follow true n (xs ++ ys) here = .ok l) :
    d.follow true n (xs ++ Route.moves ys) here = .ok l := by
  -- by the steps still to be gone through, those that were kept moving over to `xs`
  induction ys generalizing xs with
  | nil => exact h
  | cons y ys ih =>
    have rest : .root ∉ ys := fun hm => hr (List.mem_cons_of_mem _ hm)
    by_cases hc : y = .current
    · subst hc
      refine ih xs rest ?_
      cases ys with
      | nil => rw [List.append_nil]; exact (follow_of_append_current h).1
      | cons z zs =>
        have hz : z ≠ .root := fun hz => rest (hz ▸ List.mem_cons_self)
        rwa [follow_append_current true hz] at h
    · have moves : Route.moves (y :: ys) = [y] ++ Route.moves ys :=
        List.filter_cons_of_pos (by simpa using hc)
      rw [moves, ← List.append_assoc]
      exact ih (xs ++ [y]) rest (by rwa [List.append_assoc])

/-- The place that a path leads to is where its components lead. -/
theorem follow_of_locate (h : d.locate p.steps = .ok l) :
    d.follow true linkLimit (Route.moves p.components) d.workingDirectory = .ok l := by
  rw [locate] at h
  split at h
  · cases h
  · rw [← p.moves_steps]
    unfold Path.steps at h ⊢
    split_ifs at h ⊢
    · exact follow_moves [.root] (Path.root_notMem_map_step _) h
    · exact h
    · exact follow_moves [] (Path.root_notMem_map_step _) h

theorem locate_eq_of_components (hc : p.components = q.components)
    (hp : d.locate p.steps = .ok l) (hq : d.locate q.steps = .ok m) : l = m := by
  have hp := follow_of_locate hp
  rw [hc, follow_of_locate hq] at hp
  exact (Except.ok.inj hp).symm

theorem find?_eq_some_iff {r : Route} {e : Entry} :
    d.find? r = some e ↔ ∃ l, d.locate r = .ok l ∧ d.entry? l = some e := by
  rw [find?]
  cases d.locate r <;> simp [Except.toOption]

def isFileAt (d : Disk) (l : Location) : Bool := d.entry? l |>.any Entry.isFile

theorem isFile_iff {r : Route} : d.isFile r ↔ ∃ l, d.locate r = .ok l ∧ d.isFileAt l := by
  rw [isFile, find?]
  cases d.locate r <;> simp [Except.toOption, isFileAt]

theorem reaches_iff {r : Route} :
    d.reaches r ↔ ∃ l e, d.locate r = .ok l ∧ d.entry? l = some e := by
  rw [reaches, Option.isSome_iff_exists, exists_comm]
  exact exists_congr fun e => find?_eq_some_iff

theorem isDirectory_iff {r : Route} :
    d.isDirectory r ↔ ∃ l, d.locate r = .ok l ∧ d.isDirectoryAt l := by
  rw [isDirectory, find?]
  cases d.locate r <;> simp [Except.toOption, isDirectoryAt]

theorem not_isDirectoryAt_of_isFileAt (h : d.isFileAt l) : ¬ d.isDirectoryAt l := by
  intro hd
  rw [isDirectoryAt, beq_iff_eq] at hd
  rw [isFileAt, hd] at h
  cases h

theorem mem_names_iff {s : String} : s ∈ d.names l ↔ l ++ [s] ∈ d.entries.keys := by
  rw [names, List.mem_filterMap]
  constructor
  · rintro ⟨k, hk, h⟩
    obtain ⟨rfl, hs⟩ := Option.ite_none_right_eq_some.1 h
    rwa [List.dropLast_append_getLast? s hs]
  · intro h
    exact ⟨l ++ [s], h, by simp⟩

theorem mem_below_iff {top names : Location} {e : Entry} :
    (names, e) ∈ d.below top ↔ names ≠ [] ∧ d.entry? (top ++ names) = some e := by
  simp only [below, List.mem_filterMap, Prod.exists, OrderedMap.mem_toList_iff,
    Option.bind_eq_bind, Option.bind_eq_some_iff, List.isPrefixOf?_eq_some_iff_append_eq,
    Option.ite_none_left_eq_some, List.isEmpty_iff, Option.some.injEq, Prod.mk.injEq]
  have entry (hn : names ≠ []) : d.entry? (top ++ names) = d.entries.get? (top ++ names) :=
    if_neg (by simp [hn])
  constructor
  · rintro ⟨k, e', hk, rest, rfl, hr, rfl, rfl⟩
    exact ⟨hr, (entry hr).trans hk⟩
  · rintro ⟨hn, he⟩
    exact ⟨_, _, (entry hn).symm.trans he, _, rfl, hn, rfl, rfl⟩

end ContainerAliases.Disk
