import ContainerAliases.Proofs.Classes.Name
import ContainerAliases.Text

namespace ContainerAliases.Classes

theorem toLower_of_ascii {P : Char → Char → Prop}
    (ascii : ∀ n : Fin 128, P (Char.ofNat n) (Char.ofNat n).toLower) (same : ∀ c, P c c)
    (c : Char) :
    P c c.toLower := by
  by_cases hu : c.isUpper
  · have hc : c.toNat < 128 := by
      simp only [Char.isUpper, decide_eq_true_eq, UInt32.le_iff_toNat_le] at hu
      exact Nat.lt_of_le_of_lt hu.2 (by decide)
    have h := ascii ⟨c.toNat, hc⟩
    rwa [Char.ofNat_toNat] at h
  · rw [Char.toLower_eq_of_not_isUpper hu]
    exact same c

theorem utf8Size_toLower (c : Char) : c.toLower.utf8Size = c.utf8Size :=
  toLower_of_ascii (P := fun c d => d.utf8Size = c.utf8Size) (by decide) (fun _ => rfl) c

theorem isBlank_toLower (c : Char) : Text.isBlank c.toLower = Text.isBlank c :=
  toLower_of_ascii (P := fun c d => Text.isBlank d = Text.isBlank c) (by decide) (fun _ => rfl) c

theorem toLower_comp_toLower : Char.toLower ∘ Char.toLower = Char.toLower :=
  funext Char.toLower_toLower_eq_toLower

@[simp] theorem toList_lower (s : String) : (lower s).toList = s.toList.map Char.toLower :=
  String.toList_map

theorem lower_ofList (cs : List Char) :
    lower (String.ofList cs) = String.ofList (cs.map Char.toLower) := by
  rw [← String.toList_inj, toList_lower, String.toList_ofList, String.toList_ofList]

@[simp] theorem lower_lower (s : String) : lower (lower s) = lower s := by
  rw [← String.toList_inj, toList_lower, toList_lower, List.map_map, toLower_comp_toLower]

theorem lower_append (s t : String) : lower (s ++ t) = lower s ++ lower t := by
  rw [← String.toList_inj]
  simp

theorem lower_backslash : lower "\\" = "\\" := by
  rw [← String.toList_inj, toList_lower]
  rfl

theorem lower_eq_empty_iff (s : String) : lower s = "" ↔ s = "" := by
  rw [← String.toList_inj, ← String.toList_inj, toList_lower]
  simp

theorem utf8Len_map_toLower (cs : List Char) :
    String.utf8Len (cs.map Char.toLower) = String.utf8Len cs := by
  induction cs with
  | nil => rfl
  | cons c cs ih =>
    rw [List.map_cons, String.utf8Len_cons, String.utf8Len_cons, ih, utf8Size_toLower]

theorem utf8ByteSize_eq_utf8Len (s : String) : s.utf8ByteSize = String.utf8Len s.toList := by
  rw [← String.utf8ByteSize_ofList, String.ofList_toList]

theorem utf8ByteSize_lower (s : String) : (lower s).utf8ByteSize = s.utf8ByteSize := by
  rw [utf8ByteSize_eq_utf8Len, utf8ByteSize_eq_utf8Len, toList_lower, utf8Len_map_toLower]

@[simp] theorem normalize_lower (name : String) : normalize (lower name) = normalize name := by
  rw [normalize, toList_lower, dropWhile_map_toLower, List.map_map, toLower_comp_toLower, normalize]

/-- The names differ only in ASCII case and in leading backslashes. -/
def SameName (a b : String) : Prop :=
  (withoutLeading a.toList).map Char.toLower = (withoutLeading b.toList).map Char.toLower

instance (a b : String) : Decidable (SameName a b) := inferInstanceAs (Decidable (_ = _))

theorem normalize_eq_of_sameName {a b : String} (h : SameName a b) : normalize a = normalize b :=
  congrArg String.ofList h

theorem backslash_mem_map_toLower (cs : List Char) :
    '\\' ∈ cs.map Char.toLower ↔ '\\' ∈ cs := by
  simp [List.mem_map, toLower_eq_backslash_iff]

theorem withoutLeading_map_toLower (cs : List Char) :
    withoutLeading (cs.map Char.toLower) = (withoutLeading cs).map Char.toLower :=
  dropWhile_map_toLower cs

theorem lastSegment_map_toLower (cs : List Char) :
    lastSegment (cs.map Char.toLower) = (lastSegment cs).map Char.toLower := by
  have h : (fun c : Char => decide (c ≠ '\\')) ∘ Char.toLower = fun c => decide (c ≠ '\\') := by
    funext c
    simp [toLower_eq_backslash_iff]
  rw [lastSegment, lastSegment, ← List.map_reverse, List.takeWhile_map, h, List.map_reverse]

theorem splitFirst_map_toLower (cs : List Char) : splitFirst (cs.map Char.toLower) =
    ((splitFirst cs).1.map Char.toLower, (splitFirst cs).2.map (List.map Char.toLower)) := by
  induction cs with
  | nil => rfl
  | cons c cs ih =>
    rw [List.map_cons, splitFirst, splitFirst]
    by_cases hc : c = '\\'
    · rw [if_pos hc, if_pos ((toLower_eq_backslash_iff c).2 hc)]
      rfl
    · rw [if_neg hc, if_neg (mt (toLower_eq_backslash_iff c).1 hc), ih]
      rfl

section SingleSegment

variable {a : List Char} (ha : '\\' ∉ a)
include ha

theorem withoutLeading_of_not_mem : withoutLeading a = a := by
  cases a with
  | nil => rfl
  | cons c cs =>
    have hc : c ≠ '\\' := fun h => ha (h ▸ List.mem_cons_self)
    exact List.dropWhile_cons_of_neg (by simpa using hc)

theorem ne_backslash_of_mem_reverse : ∀ c ∈ a.reverse, decide (c ≠ '\\') = true := by
  intro c hc
  simpa using fun h : c = '\\' => ha (h ▸ List.mem_reverse.1 hc)

theorem lastSegment_of_not_mem : lastSegment a = a := by
  rw [lastSegment, List.takeWhile_eq_self_iff.2 (ne_backslash_of_mem_reverse ha),
    List.reverse_reverse]

theorem lastSegment_append (front : List Char) : lastSegment (front ++ '\\' :: a) = a := by
  rw [lastSegment, List.reverse_append, List.reverse_cons, List.append_assoc,
    List.takeWhile_append_of_pos (ne_backslash_of_mem_reverse ha)]
  simp

theorem lastSegment_withoutLeading (front : List Char) :
    lastSegment (withoutLeading (front ++ '\\' :: a)) = a := by
  rw [withoutLeading, List.dropWhile_append]
  split
  · rw [List.dropWhile_cons_of_pos (by simp), ← withoutLeading, withoutLeading_of_not_mem ha,
      lastSegment_of_not_mem ha]
  · exact lastSegment_append ha _

end SingleSegment

namespace Scope

def lowered (s : Scope) : Scope :=
  ⟨s.space.map lower, s.imports.map fun b => (b.1, lower b.2)⟩

theorem within_lower (space : Option String) :
    within (space.map lower) = (within space).lowered := by
  cases space with
  | none => rfl
  | some ns =>
    rw [within, lowered, within, Option.map_some, Option.filter_some, Option.filter_some]
    have same : decide (lower ns ≠ "") = decide (ns ≠ "") := by
      rw [decide_eq_decide, Ne, lower_eq_empty_iff]
    rw [same]
    split <;> rfl

theorem qualify_lowered (s : Scope) (name : String) :
    s.lowered.qualify (lower name) = lower (s.qualify name) := by
  obtain ⟨_ | ns, imports⟩ := s
  · rfl
  · rw [qualify, lowered, qualify]
    simp only [Option.map_some, lower_append, lower_backslash]

theorem imported?_lowered (s : Scope) (short : String) :
    s.lowered.imported? (lower short) = (s.imported? short).map lower := by
  rw [imported?, imported?, lower_lower, lowered]
  generalize s.imports = imports
  induction imports with
  | nil => rfl
  | cons b imports ih =>
    rw [List.map_cons, List.lookup_cons, List.lookup_cons]
    cases lower short == b.1 with
    | true => rfl
    | false => exact ih

/-- The name is not written as one below the current namespace, in whatever case. -/
def isPlain (name : String) : Bool :=
  !"namespace\\".toList.isPrefixOf (name.toList.map Char.toLower)

theorem isPrefixOf?_of_isPlain {name : String} (h : isPlain name) :
    "namespace\\".toList.isPrefixOf? name.toList = none := by
  rw [Option.eq_none_iff_forall_ne_some]
  intro relative hr
  have hn : "namespace\\".toList <+: name.toList.map Char.toLower :=
    ⟨relative.map Char.toLower, by
      rw [← List.append_eq_of_isPrefixOf?_eq_some hr, List.map_append]
      rfl⟩
  rw [isPlain, List.isPrefixOf_iff_prefix.2 hn] at h
  cases h

theorem isPlain_lower (name : String) : isPlain (lower name) = isPlain name := by
  rw [isPlain, toList_lower, List.map_map, toLower_comp_toLower, isPlain]

theorem resolve_of_absolute (s : Scope) {name : String} {cs : List Char}
    (h : name.toList = '\\' :: cs) : s.resolve name = String.ofList cs := by
  rw [resolve, h]
  rfl

theorem resolve_of_isPlain (s : Scope) {name : String} (hn : isPlain name)
    (h : name.toList.head? ≠ some '\\') :
    s.resolve name = match s.imported? (String.ofList (splitFirst name.toList).1),
        (splitFirst name.toList).2 with
      | some full, some rest => full ++ "\\" ++ String.ofList rest
      | some full, none => full
      | none, _ => s.qualify name := by
  unfold resolve
  split
  · next cs hc => simp [hc] at h
  · rewrite [isPrefixOf?_of_isPlain hn]
    rfl

theorem resolve_lowered (s : Scope) {name : String} (hn : isPlain name) :
    s.lowered.resolve (lower name) = lower (s.resolve name) := by
  by_cases h : name.toList.head? = some '\\'
  · obtain ⟨cs, hc⟩ : ∃ cs, name.toList = '\\' :: cs := List.head?_eq_some_iff.1 h
    have hl : (lower name).toList = '\\' :: cs.map Char.toLower := by
      rw [toList_lower, hc, List.map_cons]
      rfl
    rw [s.resolve_of_absolute hc, s.lowered.resolve_of_absolute hl, lower_ofList]
  · have hl : (lower name).toList.head? ≠ some '\\' := by
      rw [toList_lower, List.head?_map]
      intro he
      obtain ⟨c, hc, hb⟩ := Option.map_eq_some_iff.1 he
      exact h (hc.trans (congrArg some ((toLower_eq_backslash_iff c).1 hb)))
    rw [s.resolve_of_isPlain hn h, s.lowered.resolve_of_isPlain (isPlain_lower name ▸ hn) hl,
      toList_lower, splitFirst_map_toLower, ← lower_ofList, imported?_lowered]
    cases s.imported? (String.ofList (splitFirst name.toList).1) with
    | none => exact qualify_lowered s name
    | some full =>
      cases (splitFirst name.toList).2 with
      | none => rfl
      | some rest => simp [lower_append, lower_ofList, lower_backslash]

theorem bind_lowered (s : Scope) (name : String) (short : Option String) :
    s.lowered.bind (lower name) (short.map lower) = (s.bind name short).lowered := by
  have key : lower ((short.map lower).getD (String.ofList (lastSegment
      (withoutLeading (lower name).toList)))) =
      lower (short.getD (String.ofList (lastSegment (withoutLeading name.toList)))) := by
    cases short with
    | none =>
      rw [toList_lower, withoutLeading_map_toLower, lastSegment_map_toLower, ← lower_ofList]
      exact lower_lower _
    | some a => exact lower_lower a
  rw [bind, bind, lowered]
  simp only [key]
  rw [toList_lower, withoutLeading_map_toLower, ← lower_ofList]
  rfl

section Congr

variable {s s' : Scope} (hs : s.lowered = s'.lowered) {a b : String} (hab : lower a = lower b)
include hs hab

theorem qualify_congr : lower (s.qualify a) = lower (s'.qualify b) := by
  rw [← qualify_lowered, ← qualify_lowered, hs, hab]

theorem resolve_congr (ha : isPlain a) (hb : isPlain b) :
    lower (s.resolve a) = lower (s'.resolve b) := by
  rw [← resolve_lowered _ ha, ← resolve_lowered _ hb, hs, hab]

theorem bind_congr {x y : Option String} (hxy : x.map lower = y.map lower) :
    (s.bind a x).lowered = (s'.bind b y).lowered := by
  rw [← bind_lowered, ← bind_lowered, hs, hab, hxy]

end Congr

/-- An alias that repeats the imported name need not be written. -/
theorem bind_of_alias (s : Scope) {a : String} (ha : '\\' ∉ a.toList) {full : String}
    (hf : full = a ∨ ∃ front, full.toList = front ++ '\\' :: a.toList) :
    s.bind full none = s.bind full (some a) := by
  have last : lastSegment (withoutLeading full.toList) = a.toList := by
    rcases hf with rfl | ⟨front, hf⟩
    · exact (congrArg lastSegment (withoutLeading_of_not_mem ha)).trans (lastSegment_of_not_mem ha)
    · rw [hf, lastSegment_withoutLeading ha]
  rw [bind, bind]
  simp only [last, String.ofList_toList, Option.getD]

end Scope

end ContainerAliases.Classes
