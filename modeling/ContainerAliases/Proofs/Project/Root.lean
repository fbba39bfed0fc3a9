import ContainerAliases.Disk.Edit
import ContainerAliases.Project.Root
import ContainerAliases.Proofs.Disk.Climbing

namespace ContainerAliases.Project

open Disk

variable {d : Disk} {p q start : Path} {n : Nat}

/-- `composer.json` stands in the directory, together with `artisan` or with both directories `app`
and `vendor`. -/
def IsMarked (d : Disk) (p : Path) : Prop :=
  d.reaches (p.child "composer.json").steps ∧
    (d.reaches (p.child "artisan").steps ∨
      d.isDirectory (p.child "app").steps ∧ d.isDirectory (p.child "vendor").steps)

instance (d : Disk) (p : Path) : Decidable (IsMarked d p) := inferInstanceAs (Decidable (_ ∧ _))

/-- The paths on the way up from `p`, by the number of steps. -/
inductive Passes (d : Disk) (p : Path) : Nat → Path → Prop where
  | itself (h : ¬ d.isFile p.steps) : Passes d p 0 p
  | holder (h : d.isFile p.steps) (q : Path) (hq : p.parent = some q) : Passes d p 0 q
  | up (n : Nat) (q r : Path) (h : Passes d p n q) (hr : q.parent = some r) : Passes d p (n + 1) r

/-- The search from `p` ends, with the first marked path on the way up, which is a directory and its
own root; the empty path stands for the working directory. From below a marked path it leads there,
if nothing before is marked on the way, and that includes `p`. -/
structure FindsNearest (d : Disk) (p : Path) : Prop where
  ends : ∀ n q, Passes d p n q → n ≤ p.components.length
  first : ∀ q, rootOf? d p = some q ↔
    ∃ n, Passes d p n q ∧ IsMarked d q ∧ ∀ m < n, ∀ x, Passes d p m x → ¬ IsMarked d x
  none : rootOf? d p = none ↔ ∀ n q, Passes d p n q → ¬ IsMarked d q
  directory : ∀ q, rootOf? d p = some q → q.steps = [] ∨ d.isDirectory q.steps
  again : ∀ q, rootOf? d p = some q → rootOf? d q = some q
  below : ∀ q, IsMarked d q → p.IsBelow q →
    (∀ n x, Passes d p n x → x.IsBelow q → ¬ IsMarked d x) →
    ∃ r, rootOf? d p = some r ∧ r.components = q.components

theorem isRoot_iff : isRoot d p ↔ IsMarked d p := by
  simp only [isRoot, IsMarked, Bool.and_eq_true, Bool.or_eq_true]

theorem isMarked_congr (hc : p.components = q.components) : IsMarked d p ↔ IsMarked d q := by
  have same (s : String) (hs : IsName s) := find?_child_congr d hc hs
  simp only [IsMarked, reaches, isDirectory, same "composer.json" (by decide),
    same "artisan" (by decide), same "app" (by decide), same "vendor" (by decide)]

theorem passes_iff :
    Passes d p n q ↔ ∃ start, searchStart? d p = some start ∧ start.up n = some q := by
  have zero (x : Path) : Passes d p 0 x ↔ searchStart? d p = some x := by
    rw [searchStart?]
    constructor
    · rintro (h | ⟨h, _, hq⟩)
      · exact if_neg h
      · rw [if_pos h, hq]
    · split
      · next h => exact fun hq => .holder h x hq
      · next h =>
        rintro ⟨⟩
        exact .itself h
  induction n generalizing q with
  | zero => simp [zero, Path.up]
  | succ n ih =>
    simp only [Path.up_succ, Option.bind_eq_some_iff]
    constructor
    · rintro (_ | _ | ⟨_, x, _, h, hr⟩)
      obtain ⟨start, hs, hu⟩ := ih.1 h
      exact ⟨start, hs, x, hu, hr⟩
    · rintro ⟨start, hs, x, hu, hr⟩
      exact .up n x q (ih.2 ⟨start, hs, hu⟩) hr

theorem Passes.unique (h : Passes d p n q) {q' : Path} (h' : Passes d p n q') : q = q' := by
  obtain ⟨start, hs, hu⟩ := passes_iff.1 h
  obtain ⟨start', hs', hu'⟩ := passes_iff.1 h'
  obtain rfl := Option.some.inj (hs.symm.trans hs')
  exact Option.some.inj (hu.symm.trans hu')

theorem rootOf?_eq_some_iff : rootOf? d p = some q ↔
    ∃ n, Passes d p n q ∧ IsMarked d q ∧ ∀ m < n, ∀ x, Passes d p m x → ¬ IsMarked d x := by
  rw [rootOf?, Option.bind_eq_some_iff]
  constructor
  · rintro ⟨start, hs, hf⟩
    obtain ⟨root, n, hn, hq, before⟩ := List.find?_eq_some_iff_getElem.1 hf
    refine ⟨n, passes_iff.2 ⟨start, hs, ?_⟩, isRoot_iff.1 root, fun m hm x hx => ?_⟩
    · rw [← Path.getElem?_ancestors, List.getElem?_eq_getElem hn, hq]
    · obtain ⟨start', hs', hu⟩ := passes_iff.1 hx
      obtain rfl := Option.some.inj (hs.symm.trans hs')
      rw [← Path.getElem?_ancestors, List.getElem?_eq_getElem (hm.trans hn)] at hu
      rw [← isRoot_iff, ← Option.some.inj hu]
      simpa using before m hm
  · rintro ⟨n, hp, marked, before⟩
    obtain ⟨start, hs, hu⟩ := passes_iff.1 hp
    rw [← Path.getElem?_ancestors] at hu
    obtain ⟨hn, hq⟩ := List.getElem?_eq_some_iff.1 hu
    refine ⟨start, hs, List.find?_eq_some_iff_getElem.2
      ⟨isRoot_iff.2 marked, n, hn, hq, fun m hm => ?_⟩⟩
    have unmarked := before m hm _ (passes_iff.2 ⟨start, hs,
      (Path.getElem?_ancestors start m).symm.trans (List.getElem?_eq_getElem (hm.trans hn))⟩)
    rw [← isRoot_iff, Bool.not_eq_true] at unmarked
    rw [unmarked, Bool.not_false]

theorem rootOf?_eq_none_iff : rootOf? d p = none ↔ ∀ n q, Passes d p n q → ¬ IsMarked d q := by
  simp only [rootOf?, Option.bind_eq_none_iff, List.find?_eq_none, isRoot_iff,
    List.mem_iff_getElem?, Path.getElem?_ancestors, passes_iff]
  constructor
  · rintro h n q ⟨start, hs, hu⟩
    exact h start hs q ⟨n, hu⟩
  · rintro h start hs q ⟨n, hu⟩
    exact h n q ⟨start, hs, hu⟩

theorem length_le_of_passes (h : Passes d p n q) : n ≤ p.components.length := by
  obtain ⟨start, hs, hu⟩ := passes_iff.1 h
  refine (Path.length_le_of_up hu).trans ?_
  rw [searchStart?] at hs
  split at hs
  · rw [(Path.components_of_parent hs).2, List.length_dropLast]
    exact Nat.sub_le ..
  · rw [Option.some.inj hs]

theorem isDirectory_of_isMarked (h : IsMarked d p) : p.steps = [] ∨ d.isDirectory p.steps :=
  isDirectory_of_reaches_child (by decide) h.1

/-- A marked path is no file, so its search starts at itself. -/
theorem rootOf?_of_isMarked (h : IsMarked d p) : rootOf? d p = some p := by
  have noFile : ¬ d.isFile p.steps := by
    intro hf
    obtain ⟨l, hl, file⟩ := isFile_iff.1 hf
    rcases isDirectory_of_isMarked h with hs | hd
    · rw [hs] at hl
      cases hl
    · obtain ⟨m, hm, dir⟩ := isDirectory_iff.1 hd
      obtain rfl := Except.ok.inj (hl.symm.trans hm)
      exact not_isDirectoryAt_of_isFileAt file dir
  exact rootOf?_eq_some_iff.2 ⟨0, .itself noFile, h, fun m hm => absurd hm (Nat.not_lt_zero m)⟩

/-- The search passes every path that `p` is below, and before that only what is below it too. -/
theorem exists_passes_of_isBelow (h : p.IsBelow q) : ∃ n x, Passes d p n x ∧
    x.components = q.components ∧ ∀ m < n, ∀ y, Passes d p m y → y.IsBelow q := by
  obtain ⟨ha, r, hr, hc⟩ := h
  obtain ⟨start, r, hs, ha, hc⟩ : ∃ start r, searchStart? d p = some start ∧
      start.isAbsolute = q.isAbsolute ∧ start.components = q.components ++ r := by
    rw [searchStart?]
    split
    · obtain ⟨p', hp'⟩ := Path.IsBelow.exists_parent ⟨ha, r, hr, hc⟩
      obtain ⟨ha', hc'⟩ := Path.components_of_parent hp'
      refine ⟨p', r.dropLast, hp', ha'.trans ha, ?_⟩
      rw [hc', hc, List.dropLast_append_of_ne_nil hr]
    · exact ⟨p, r, rfl, ha, hc⟩
  obtain ⟨x, hx, hxc, before⟩ := Path.exists_up_eq ha hc
  refine ⟨r.length, x, passes_iff.2 ⟨start, hs, hx⟩, hxc, fun m hm y hy => ?_⟩
  obtain ⟨start', hs', hu⟩ := passes_iff.1 hy
  obtain rfl := Option.some.inj (hs.symm.trans hs')
  exact before m hm y hu

/-- From every path the nearest root above it is found. -/
theorem nearest_root_found (d : Disk) (p : Path) : FindsNearest d p where
  ends _ _ := length_le_of_passes
  first _ := rootOf?_eq_some_iff
  none := rootOf?_eq_none_iff
  directory q h := by
    obtain ⟨-, -, marked, -⟩ := rootOf?_eq_some_iff.1 h
    exact isDirectory_of_isMarked marked
  again q h := by
    obtain ⟨-, -, marked, -⟩ := rootOf?_eq_some_iff.1 h
    exact rootOf?_of_isMarked marked
  below q marked hb before := by
    obtain ⟨n, x, hx, hc, below⟩ := exists_passes_of_isBelow (d := d) hb
    exact ⟨x, rootOf?_eq_some_iff.2 ⟨n, hx, (isMarked_congr hc).2 marked,
      fun m hm y hy => before m y hy (below m hm y hy)⟩, hc⟩

-- A project inside another.
namespace Nested

def disk : Disk :=
  ["/r/composer.json", "/r/artisan", "/r/sub/composer.json", "/r/sub/artisan"].foldl
    (fun d path => d.write (.ofText path) (some "") second) default

def outer : Path := .ofText "/r"

def inner : Path := .ofText "/r/sub"

end Nested

/-- Nothing stands between the two, but the one that is inside is its own root. -/
theorem nearest_root_found_nested :
    IsMarked Nested.disk Nested.outer ∧ Nested.inner.IsBelow Nested.outer ∧
      (¬ ∃ x : Path, Nested.inner.IsBelow x ∧ x.IsBelow Nested.outer) ∧
      rootOf? Nested.disk Nested.inner = some Nested.inner ∧
      Nested.inner.components ≠ Nested.outer.components := by
  have marked : IsMarked Nested.disk Nested.inner := by decide +kernel
  refine ⟨by decide +kernel, ⟨rfl, [.name "sub"], by simp, by decide⟩, ?_,
    rootOf?_of_isMarked marked, by decide⟩
  rintro ⟨x, ⟨-, r, hr, hc⟩, ⟨-, r', hr', hc'⟩⟩
  have length : Nested.inner.components.length = Nested.outer.components.length + 1 := by decide
  rw [hc, hc', List.append_assoc, List.length_append, List.length_append] at length
  have := List.length_pos_iff.2 hr
  have := List.length_pos_iff.2 hr'
  omega

end ContainerAliases.Project
