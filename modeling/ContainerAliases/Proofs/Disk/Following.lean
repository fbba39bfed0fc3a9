import Mathlib.Data.List.Induction
import ContainerAliases.Proofs.OrderedMap
import ContainerAliases.Proofs.Traversal
import ContainerAliases.Disk.Basic

namespace ContainerAliases.Disk

variable {d : Disk} {n : Nat} {here l m : Location} {x y : Component} {s : String} {xs ys : Route}
  {jump jump' : Route → Location → Except Fault Location}

theorem entry?_concat (d : Disk) (l : Location) (s : String) :
    d.entry? (l ++ [s]) = d.entries.get? (l ++ [s]) := if_neg (by simp)

/-- What a step can come to: it is refused, it goes on from another place, or it meets a link. -/
inductive Turn (d : Disk) (here : Location) (x : Component) : Prop where
  | refused (e : Fault)
    (h : ∀ through jump rest, d.walk through jump (x :: rest) here = .error e)
  | on (next : Location)
    (h : ∀ through jump rest, d.walk through jump (x :: rest) here = d.walk through jump rest next)
  | link (s : String) (target : Path) (hx : x = .name s)
    (he : d.entry? (here ++ [s]) = some (.link target))
    (h : ∀ through jump rest, d.walk through jump (x :: rest) here =
      if rest.isEmpty && !through then .ok (here ++ [s]) else jump (target.steps ++ rest) here)

theorem walk_of_not_directory (hx : x ≠ .root) (hd : ¬ d.isDirectoryAt here) (through : Bool)
    (jump : Route → Location → Except Fault Location) (rest : Route) :
    d.walk through jump (x :: rest) here = .error .notDirectory := by
  cases x <;> simp_all [walk]

/-- What a step by a name can come to in a directory. -/
inductive NameTurn (d : Disk) (here : Location) (s : String) : Prop where
  | refused (e : Fault) (hs : nameLimit < s.utf8ByteSize ∨ d.entry? (here ++ [s]) = none)
    (h : ∀ through jump rest, d.walk through jump (.name s :: rest) here = .error e)
  | on (e : Entry) (hs : s.utf8ByteSize ≤ nameLimit) (he : d.entry? (here ++ [s]) = some e)
    (h : ∀ through jump rest,
      d.walk through jump (.name s :: rest) here = d.walk through jump rest (here ++ [s]))
  | link (target : Path) (hs : s.utf8ByteSize ≤ nameLimit)
    (he : d.entry? (here ++ [s]) = some (.link target))
    (h : ∀ through jump rest, d.walk through jump (.name s :: rest) here =
      if rest.isEmpty && !through then .ok (here ++ [s]) else jump (target.steps ++ rest) here)

theorem nameTurn (hd : d.isDirectoryAt here) (s : String) : NameTurn d here s := by
  by_cases hs : nameLimit < s.utf8ByteSize
  · exact .refused .nameTooLong (.inl hs) fun _ _ _ => by simp [walk, hd, hs]
  cases he : d.entry? (here ++ [s]) with
  | none => exact .refused .missing (.inr he) fun _ _ _ => by simp [walk, hd, hs, he]
  | some e =>
    cases e with
    | link target =>
      exact .link target (Nat.not_lt.1 hs) he fun _ _ _ => by simp [walk, hd, hs, he]
    | directory => exact .on _ (Nat.not_lt.1 hs) he fun _ _ _ => by simp [walk, hd, hs, he]
    | file content modified =>
      exact .on _ (Nat.not_lt.1 hs) he fun _ _ _ => by simp [walk, hd, hs, he]

theorem turn (d : Disk) (here : Location) (x : Component) : Turn d here x := by
  by_cases hx : x = .root
  · subst hx
    exact .on [] fun _ _ _ => rfl
  by_cases hd : d.isDirectoryAt here
  · cases x with
    | root => exact absurd rfl hx
    | current => exact .on here fun _ _ _ => if_pos hd
    | parent => exact .on here.dropLast fun _ _ _ => if_pos hd
    | name s =>
      cases nameTurn hd s with
      | refused e hs h => exact .refused e h
      | on e hs he h => exact .on _ h
      | link target hs he h => exact .link s target rfl he h
  · exact .refused .notDirectory (walk_of_not_directory hx hd)

/-- One step from a place, to a link and not through it. -/
def step (d : Disk) (x : Component) (here : Location) : Except Fault Location :=
  d.follow false 0 [x] here

theorem isDirectoryAt_of_step (hx : x ≠ .root) (h : d.step x here = .ok l) :
    d.isDirectoryAt here := by
  refine Decidable.of_not_not fun hd => ?_
  rw [step, follow, walk_of_not_directory hx hd] at h
  cases h

theorem step_current (hd : d.isDirectoryAt here) : d.step .current here = .ok here := if_pos hd

theorem step_parent (hd : d.isDirectoryAt here) : d.step .parent here = .ok here.dropLast :=
  if_pos hd

theorem step_name_eq_ok_iff (hd : d.isDirectoryAt here) : d.step (.name s) here = .ok l ↔
    s.utf8ByteSize ≤ nameLimit ∧ d.entries.contains (here ++ [s]) ∧ l = here ++ [s] := by
  rw [step, follow, OrderedMap.contains, ← entry?_concat]
  cases nameTurn hd s with
  | refused e hs h =>
    rw [h]
    rcases hs with hs | hs
    · simp [Nat.not_le.2 hs]
    · simp [hs]
  | on e hs he h =>
    rw [h]
    simp [walk, hs, he, eq_comm]
  | link target hs he h =>
    rw [h]
    simp [hs, he, eq_comm]

theorem follow_nil (d : Disk) (through : Bool) (n : Nat) (here : Location) :
    d.follow through n [] here = .ok here := by
  cases n <;> rfl

theorem walk_concat {through : Bool} (hx : through → ∀ s, x ≠ .name s)
    (hj : ∀ xs here, jump (xs ++ [x]) here = (jump' xs here).bind (d.step x)) (xs : Route)
    (here : Location) :
    d.walk through jump (xs ++ [x]) here = (d.walk true jump' xs here).bind (d.step x) := by
  induction xs generalizing here with
  | nil =>
    change d.walk through jump [x] here = d.walk false _ [x] here
    obtain ⟨e, h⟩ | ⟨next, h⟩ | ⟨s, target, rfl, -, h⟩ := d.turn here x
    · rw [h, h]
    · rw [h, h]
      rfl
    · cases through with
      | false =>
        rw [h, h]
        rfl
      | true => exact absurd rfl (hx rfl s)
  | cons z xs ih =>
    rw [List.cons_append]
    obtain ⟨e, h⟩ | ⟨next, h⟩ | ⟨s, target, -, -, h⟩ := d.turn here z
    · rw [h, h]
      rfl
    · rw [h, h, ih]
    · -- neither of the two stops at this link
      rw [h, h, if_neg (by simp), if_neg (by simp), ← hj, List.append_assoc]

/-- Only the links before the last step are followed, unless the last step is to go through one. -/
theorem follow_concat {through : Bool} (hx : through → ∀ s, x ≠ .name s) (d : Disk) (n : Nat)
    (xs : Route) (here : Location) :
    d.follow through n (xs ++ [x]) here = (d.follow true n xs here).bind (d.step x) := by
  induction n generalizing xs here with
  | zero => exact walk_concat hx (fun _ _ => rfl) xs here
  | succ n ih => exact walk_concat hx ih xs here

theorem follow_singleton {through : Bool} (hx : through → ∀ s, x ≠ .name s) (d : Disk) (n : Nat)
    (here : Location) : d.follow through n [x] here = d.step x here := by
  have h := follow_concat hx d n [] here
  rwa [List.nil_append, follow_nil] at h

theorem isOk_walk (hj : ∀ xs here, (jump xs here).isOk → (jump' xs here).isOk)
    (h : (d.walk true jump xs here).isOk) : (d.walk false jump' xs here).isOk := by
  induction xs generalizing here with
  | nil => rfl
  | cons z xs ih =>
    obtain ⟨e, hz⟩ | ⟨next, hz⟩ | ⟨s, target, -, -, hz⟩ := d.turn here z
    · rw [hz] at h
      cases h
    · rw [hz] at h ⊢
      exact ih h
    · rw [hz, if_neg (by simp)] at h
      rw [hz]
      split
      · rfl
      · exact hj _ _ h

theorem isOk_follow_of_through (h : (d.follow true n xs here).isOk) :
    (d.follow false n xs here).isOk := by
  induction n generalizing xs here with
  | zero => exact isOk_walk (fun _ _ h => h) h
  | succ n ih => exact isOk_walk (fun _ _ => ih) h

theorem isOk_follow_concat_iff :
    (d.follow false n (xs ++ [x]) here).isOk ↔
      ∃ l m, d.follow true n xs here = .ok l ∧ d.step x l = .ok m := by
  rw [follow_concat (by simp), isOk_iff, exists_comm]
  exact exists_congr fun m => bind_eq_ok_iff

/-- A route that can be followed can be followed as far as any part of it in front. -/
theorem exists_follow_of_append (h : (d.follow false n (xs ++ y :: ys) here).isOk) :
    ∃ l m, d.follow true n xs here = .ok l ∧ d.step y l = .ok m := by
  induction ys using List.reverseRecOn with
  | nil => exact isOk_follow_concat_iff.1 h
  | append_singleton ys z ih =>
    rw [← List.cons_append, ← List.append_assoc] at h
    obtain ⟨l, m, hl, -⟩ := isOk_follow_concat_iff.1 h
    exact ih (isOk_follow_of_through (isOk_iff.2 ⟨l, hl⟩))

theorem walk_through (hj : ∀ xs here, jump xs here = .ok l → jump' xs here = .ok l)
    (hl : ∀ t, d.entry? l ≠ some (.link t)) (h : d.walk false jump xs here = .ok l) :
    d.walk true jump' xs here = .ok l := by
  induction xs generalizing here with
  | nil => exact h
  | cons z xs ih =>
    obtain ⟨e, hz⟩ | ⟨next, hz⟩ | ⟨s, target, -, he, hz⟩ := d.turn here z
    · rw [hz] at h
      cases h
    · rw [hz] at h ⊢
      exact ih h
    · rw [hz] at h
      rw [hz, if_neg (by simp)]
      split at h
      · cases h
        exact absurd he (hl target)
      · exact hj _ _ h

theorem follow_through_of_not_link (hl : ∀ t, d.entry? l ≠ some (.link t))
    (h : d.follow false n xs here = .ok l) : d.follow true n xs here = .ok l := by
  induction n generalizing xs here with
  | zero => exact walk_through (fun _ _ h => h) hl h
  | succ n ih => exact walk_through (fun _ _ => ih) hl h

theorem follow_concat_name (hl : d.follow true n xs here = .ok l)
    (he : ∀ t, d.entry? (l ++ [s]) ≠ some (.link t))
    (h : (d.follow true n (xs ++ [.name s]) here).isOk) :
    d.follow true n (xs ++ [.name s]) here = .ok (l ++ [s]) := by
  obtain ⟨l', m, hl', hm⟩ := isOk_follow_concat_iff.1 (isOk_follow_of_through h)
  obtain rfl : l' = l := Except.ok.inj (hl'.symm.trans hl)
  refine follow_through_of_not_link he ?_
  rw [follow_concat (by simp)]
  have hd := isDirectoryAt_of_step (by simp) hm
  obtain ⟨hs, hi, rfl⟩ := (step_name_eq_ok_iff hd).1 hm
  exact bind_eq_ok_iff.2 ⟨l', hl, hm⟩

theorem walk_append_current (through : Bool)
    (hj : ∀ xs here, jump (xs ++ .current :: y :: ys) here = jump (xs ++ y :: ys) here)
    (hy : y ≠ .root) (xs : Route) (here : Location) :
    d.walk through jump (xs ++ .current :: y :: ys) here =
      d.walk through jump (xs ++ y :: ys) here := by
  induction xs generalizing here with
  | nil =>
    by_cases hd : d.isDirectoryAt here
    · exact if_pos hd
    · rw [List.nil_append, List.nil_append, walk_of_not_directory (by simp) hd,
        walk_of_not_directory hy hd]
  | cons z xs ih =>
    rw [List.cons_append, List.cons_append]
    obtain ⟨e, h⟩ | ⟨next, h⟩ | ⟨s, target, -, -, h⟩ := d.turn here z
    · rw [h, h]
    · rw [h, h, ih]
    · rw [h, h, if_neg (by simp), if_neg (by simp), ← List.append_assoc, hj, List.append_assoc]

/-- A step that stays in place can be left out if another follows. -/
theorem follow_append_current (through : Bool) (hy : y ≠ .root) :
    d.follow through n (xs ++ .current :: y :: ys) here =
      d.follow through n (xs ++ y :: ys) here := by
  induction n generalizing xs here with
  | zero => exact walk_append_current through (fun _ _ => rfl) hy xs here
  | succ n ih => exact walk_append_current through (fun _ _ => ih) hy xs here

/-- At the end of a route such a step only asks for a directory. -/
theorem follow_of_append_current (h : d.follow true n (xs ++ [.current]) here = .ok l) :
    d.follow true n xs here = .ok l ∧ d.isDirectoryAt l := by
  rw [follow_concat (by simp)] at h
  obtain ⟨m, hm, h⟩ := bind_eq_ok_iff.1 h
  have hd := isDirectoryAt_of_step (by simp) h
  obtain rfl : m = l := by simpa [step_current hd] using h
  exact ⟨hm, hd⟩

theorem contains_of_entry {e : Entry} (h : d.entry? (l ++ [s]) = some e) :
    d.entries.contains (l ++ [s]) := by
  rw [entry?_concat] at h
  rw [OrderedMap.contains, h]
  rfl

/-- How many entries stand deeper than `here`. -/
def room (d : Disk) (here : Location) : Nat :=
  d.entries.keys.countP fun k => here.length < k.length

theorem room_le (d : Disk) (here : Location) : d.room here ≤ d.entries.size :=
  Nat.le_trans List.countP_le_length (Nat.le_of_eq (List.length_map ..))

theorem room_lt (h : d.entries.contains (here ++ [s])) :
    d.room (here ++ [s]) < d.room here := by
  have key : here ++ [s] ∈ d.entries.keys := (OrderedMap.mem_keys_iff _ _).2 h
  obtain ⟨before, after, hk⟩ := List.append_of_mem key
  have fewer (ks : List Location) : ks.countP (fun k => (here ++ [s]).length < k.length) ≤
      ks.countP fun k => here.length < k.length := by
    refine List.countP_mono_left fun k _ hlt => ?_
    simp only [List.length_append, List.length_singleton, decide_eq_true_eq] at hlt ⊢
    omega
  have hb := fewer before
  have ha := fewer after
  rw [room, room, hk, List.countP_append, List.countP_append, List.countP_cons_of_neg (by simp),
    List.countP_cons_of_pos (by simp)]
  omega

theorem length_le_of_walk {k : Nat} {ns : List String}
    (hj : ∀ xs (ns : List String) here, (jump (xs ++ ns.map .name) here).isOk → ns.length ≤ k)
    (h : (d.walk true jump (ns.map .name) here).isOk) : ns.length ≤ d.room here + k := by
  induction ns generalizing here with
  | nil => exact Nat.zero_le _
  | cons s ns ih =>
    rw [List.map_cons] at h
    have hd : d.isDirectoryAt here := by
      refine Decidable.of_not_not fun hd => ?_
      rw [walk_of_not_directory (by simp) hd] at h
      cases h
    rw [List.length_cons]
    cases nameTurn hd s with
    | refused e hs hw =>
      rw [hw] at h
      cases h
    | on e hs he hw =>
      rw [hw] at h
      have := ih h
      have := room_lt (contains_of_entry he)
      omega
    | link target hs he hw =>
      rw [hw, if_neg (by simp)] at h
      have := hj _ ns here h
      have := room_lt (contains_of_entry he)
      omega

theorem length_le_of_walk_append {k : Nat} {ns : List String}
    (hj : ∀ xs (ns : List String) here, (jump (xs ++ ns.map .name) here).isOk → ns.length ≤ k)
    (h : (d.walk true jump (xs ++ ns.map .name) here).isOk) : ns.length ≤ d.entries.size + k := by
  induction xs generalizing here with
  | nil =>
    have := length_le_of_walk hj h
    have := d.room_le here
    omega
  | cons z xs ih =>
    rw [List.cons_append] at h
    obtain ⟨e, hz⟩ | ⟨next, hz⟩ | ⟨s, target, -, -, hz⟩ := d.turn here z
    · rw [hz] at h
      cases h
    · rw [hz] at h
      exact ih h
    · rw [hz, if_neg (by simp), ← List.append_assoc] at h
      have := hj _ ns here h
      omega

/-- Each name in a row leads deeper, until a link is met. -/
theorem length_le_of_follow {ns : List String}
    (h : (d.follow true n (xs ++ ns.map .name) here).isOk) :
    ns.length ≤ (n + 1) * d.entries.size := by
  induction n generalizing xs ns here with
  | zero =>
    have := length_le_of_walk_append (k := 0) (fun _ _ _ h => by cases h) h
    omega
  | succ n ih =>
    have := length_le_of_walk_append (fun _ _ _ => ih) h
    rw [Nat.succ_mul]
    omega

end ContainerAliases.Disk
