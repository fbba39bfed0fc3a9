import ContainerAliases.Project.Basic

namespace ContainerAliases

namespace Disk.Path

theorem slash_notMem_splitOn {cs piece : List Char} (h : piece ∈ cs.splitOn '/') :
    '/' ∉ piece ∧ piece ⊆ cs := by
  induction cs generalizing piece with
  | nil =>
    obtain rfl : piece = [] := by simpa using h
    simp
  | cons c cs ih =>
    rw [List.splitOn_cons_eq_if_modifyHead] at h
    split at h
    · rcases List.mem_cons.1 h with rfl | h
      · simp
      · exact ⟨(ih h).1, List.subset_cons_of_subset c (ih h).2⟩
    · next hc =>
      cases hs : cs.splitOn '/' with
      | nil => exact absurd hs (List.splitOn_ne_nil _ _)
      | cons first pieces =>
        rw [hs, List.modifyHead_cons, List.mem_cons] at h
        rw [hs] at ih
        rcases h with rfl | h
        · have ⟨no, sub⟩ := ih List.mem_cons_self
          refine ⟨fun hm => ?_, List.cons_subset_cons c sub⟩
          rcases List.mem_cons.1 hm with rfl | hm
          · exact hc (beq_self_eq_true '/')
          · exact no hm
        · have ⟨no, sub⟩ := ih (List.mem_cons_of_mem _ h)
          exact ⟨no, List.subset_cons_of_subset c sub⟩

theorem ofText_cases (text : String) :
    (∃ cs, text.toList = '/' :: cs ∧ ofText text = ⟨true, (cs.splitOn '/').map String.ofList⟩) ∨
      ofText text = ⟨false, (text.toList.splitOn '/').map String.ofList⟩ := by
  unfold ofText
  split
  · next cs h => exact .inl ⟨cs, h, rfl⟩
  · exact .inr rfl

theorem exists_segments_ofText (text : String) :
    ∃ cs ⊆ text.toList, (ofText text).segments = (cs.splitOn '/').map String.ofList := by
  obtain ⟨cs, hcs, h⟩ | h := ofText_cases text
  · exact ⟨cs, by simp [hcs], by rw [h]⟩
  · exact ⟨text.toList, List.Subset.refl _, by rw [h]⟩

theorem segments_ofText_ne_nil (text : String) : (ofText text).segments ≠ [] := by
  obtain ⟨cs, -, h⟩ := exists_segments_ofText text
  simp [h]

theorem mem_segments_ofText {s text : String} (h : s ∈ (ofText text).segments) :
    '/' ∉ s.toList ∧ s.toList ⊆ text.toList := by
  obtain ⟨cs, sub, hs⟩ := exists_segments_ofText text
  rw [hs] at h
  obtain ⟨piece, hp, rfl⟩ := List.mem_map.1 h
  rw [String.toList_ofList]
  exact (slash_notMem_splitOn hp).imp_right fun h => List.Subset.trans h sub

theorem ofText_of_slash_notMem {s : String} (h : '/' ∉ s.toList) : ofText s = ⟨false, [s]⟩ := by
  obtain ⟨cs, hcs, -⟩ | ht := ofText_cases s
  · simp [hcs] at h
  · rw [ht, List.splitOn_eq_singleton h]
    simp

theorem toList_text (p : Path) : p.text.toList =
    (if p.isAbsolute then ['/'] else []) ++ ['/'].intercalate (p.segments.map String.toList) := by
  rw [text, String.toList_append, String.toList_intercalate]
  cases p.isAbsolute <;> rfl

theorem text_ofText (t : String) : (ofText t).text = t := by
  rw [← String.toList_inj, toList_text]
  obtain ⟨cs, hcs, ht⟩ | ht := ofText_cases t
  · simp [ht, hcs, Function.comp_def, List.intercalate_splitOn]
  · simp [ht, Function.comp_def, List.intercalate_splitOn]

def words (p : Path) : List String := p.segments.filter fun s => !Component.isIdle s

/-- The path is not the empty one, which adds nothing in front of another. -/
def IsGiven (p : Path) : Prop := p.isAbsolute ∨ ∃ s ∈ p.segments, s ≠ ""

instance (p : Path) : Decidable p.IsGiven := inferInstanceAs (Decidable (_ ∨ _))

/-- The segments that stand before those of a path that is joined to `p`. -/
def front (p : Path) : List String :=
  if p.segments.getLast? = some "" then p.segments.dropLast else p.segments

theorem segments_eq_front (p : Path) : p.segments = p.front ∨ p.segments = p.front ++ [""] := by
  unfold front
  split
  · next h =>
    obtain ⟨ss, hs⟩ := List.getLast?_eq_some_iff.1 h
    exact .inr (by rw [hs, List.dropLast_concat])
  · exact .inl rfl

theorem front_subset (p : Path) : p.front ⊆ p.segments := by
  rcases p.segments_eq_front with h | h <;> simp [h]

theorem join_of_relative (p : Path) {q : Path} (hq : q.isAbsolute = false) :
    p.join q = ⟨p.isAbsolute, p.front ++ q.segments⟩ := by
  rw [join, hq]
  rfl

theorem filterMap_words (p : Path) :
    p.words.filterMap Component.ofSegment? = p.segments.filterMap Component.ofSegment? := by
  rw [words, List.filterMap_filter]
  congr 1
  funext s
  cases h : Component.isIdle s <;> simp [Component.ofSegment?, h]

theorem filterMap_front (p : Path) :
    p.front.filterMap Component.ofSegment? = p.segments.filterMap Component.ofSegment? := by
  unfold front
  split
  · next h =>
    obtain ⟨ss, hs⟩ := List.getLast?_eq_some_iff.1 h
    rw [hs, List.dropLast_concat, List.filterMap_append]
    simp [Component.ofSegment?, Component.isIdle]
  · rfl

theorem head?_front {p : Path} (h : ∃ s ∈ p.segments, s ≠ "") (ss : List String) :
    (p.front ++ ss).head? = p.segments.head? := by
  obtain ⟨s, hs, hne⟩ := h
  unfold front
  split
  · next hl =>
    obtain ⟨ts, ht⟩ := List.getLast?_eq_some_iff.1 hl
    rw [ht, List.mem_append, List.mem_singleton, or_iff_left hne] at hs
    rw [ht, List.dropLast_concat]
    cases ts with
    | nil => cases hs
    | cons t ts => rfl
  · cases hp : p.segments with
    | nil => simp [hp] at hs
    | cons t ts => rfl

theorem components_of_isAbsolute {p : Path} (h : p.isAbsolute) :
    p.components = .root :: p.words.filterMap Component.ofSegment? := by
  rw [components, if_pos h, filterMap_words]
  rfl

/-- What is joined to a path adds the names of its segments. -/
theorem components_join {p q : Path} (hp : p.IsGiven) (hq : q.isAbsolute = false) :
    (p.join q).components = p.components ++ q.words.filterMap Component.ofSegment? := by
  have lead : (if p.isAbsolute then [Component.root]
      else if startsHere ⟨p.isAbsolute, p.front ++ q.segments⟩ then [.current] else []) =
      if p.isAbsolute then [.root] else if p.startsHere then [.current] else [] := by
    rcases hp with ha | hs
    · simp [ha]
    · have starts : startsHere ⟨p.isAbsolute, p.front ++ q.segments⟩ = p.startsHere := by
        rw [startsHere, startsHere, head?_front hs]
      rw [starts]
  rw [join_of_relative p hq, components, components, lead, filterMap_words]
  simp only [List.filterMap_append, filterMap_front, List.append_assoc]

theorem components_join_congr {p a b : Path} (hp : p.IsGiven ∨ b.isAbsolute)
    (ha : a.isAbsolute = b.isAbsolute) (hw : a.words = b.words) :
    (p.join a).components = (p.join b).components := by
  cases hb : b.isAbsolute with
  | true =>
    rw [hb] at ha
    rw [Path.join, Path.join, if_pos ha, if_pos hb, Path.components_of_isAbsolute ha,
      Path.components_of_isAbsolute hb, hw]
  | false =>
    rw [hb] at ha hp
    have hp := hp.resolve_right Bool.false_ne_true
    rw [Path.components_join hp ha, Path.components_join hp hb, hw]

end Disk.Path

namespace Project

open Disk

/-- Two paths that name the same one after the other, both from the root of the disk or both from
that of the project, have one file. -/
theorem key_eq_of_words {p : Project} (hp : p.root.IsGiven) {a b : Path}
    (ha : a.isAbsolute = b.isAbsolute) (hw : a.words = b.words) : p.key a = p.key b :=
  Path.components_join_congr (.inl hp) ha hw

/-- A path may be written with the root of the project in front, if that is absolute. -/
theorem key_join {p : Project} (hp : p.root.isAbsolute) (a : Path) :
    p.key (p.root.join a) = p.key a := by
  unfold key
  cases ha : a.isAbsolute with
  | true => simp only [Path.join, ha, if_true]
  | false =>
    have hj : (p.root.join a).isAbsolute := by rw [Path.join_of_relative _ ha]; exact hp
    rw [Path.join, if_pos hj]

end Project

end ContainerAliases
