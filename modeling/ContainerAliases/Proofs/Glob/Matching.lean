import ContainerAliases.Project.Scan
import ContainerAliases.Proofs.Disk.Children

namespace ContainerAliases.Glob

open Disk

/-- The pattern matches the segment. One or two dots are only matched by what begins with a dot, and
nothing at all only by nothing. -/
def Fits (p : Pattern) (s : String) : Prop :=
  p.covers s.toList ∧
    (IsName s ∨ (s = "." ∨ s = "..") ∧ p.head? = some (.char '.') ∨ s = "" ∧ p = [])

/-- The patterns match the segments. After `**` comes a name, or the end if there are directories
already. -/
inductive Matches : List Pattern → List String → Prop where
  | done : Matches [] []
  | segment (p : Pattern) (ps : List Pattern) (s : String) (r : List String)
    (single : p.isRecursive = false) (fits : Fits p s) (rest : Matches ps r) :
    Matches (p :: ps) (s :: r)
  | directories (p : Pattern) (ps : List Pattern) (names r : List String)
    (recursive : p.isRecursive) (named : ∀ s ∈ names ++ r.take 1, IsName s)
    (nonempty : names ++ r ≠ []) (rest : Matches ps r) : Matches (p :: ps) (names ++ r)

variable {p q : Pattern} {ps : List Pattern} {s : String} {r names : List String}

theorem Matches.nonempty (h : Matches (p :: ps) r) : r ≠ [] := by
  cases h with
  | segment => simp
  | directories _ _ _ _ _ _ nonempty _ => exact nonempty

theorem matches_nil_iff : Matches [] r ↔ r = [] := by
  constructor
  · rintro ⟨⟩
    rfl
  · rintro rfl
    exact .done

theorem matches_cons_iff (single : p.isRecursive = false) :
    Matches (p :: ps) r ↔ ∃ s r', r = s :: r' ∧ Fits p s ∧ Matches ps r' := by
  constructor
  · intro h
    cases h with
    | segment _ _ s r _ fits rest => exact ⟨s, r, rfl, fits, rest⟩
    | directories _ _ _ _ recursive => simp [single] at recursive
  · rintro ⟨s, r, rfl, fits, rest⟩
    exact .segment p ps s r single fits rest

theorem mem_append_take_of_mem_take (h : s ∈ (names ++ r).take 1) : s ∈ names ++ r.take 1 := by
  cases names with
  | nil => exact h
  | cons t names =>
    obtain rfl := List.mem_singleton.1 h
    exact List.mem_append_left _ List.mem_cons_self

/-- `**` twice in a row is no more than once. -/
theorem matches_recursive_cons (hp : p.isRecursive) (hq : q.isRecursive) :
    Matches (p :: q :: ps) r ↔ Matches (p :: ps) r := by
  constructor
  · intro h
    cases h with
    | segment _ _ _ _ single => simp [single] at hp
    | directories _ _ names r _ named nonempty rest =>
      cases rest with
      | segment _ _ _ _ single => simp [single] at hq
      | directories _ _ names' r' _ named' _ rest =>
        rw [← List.append_assoc] at nonempty ⊢
        refine .directories p ps (names ++ names') r' hp (fun s hs => ?_) nonempty rest
        rw [List.append_assoc, List.mem_append] at hs
        exact hs.elim (fun hs => named s (List.mem_append_left _ hs)) (named' s)
  · intro h
    cases h with
    | segment _ _ _ _ single => simp [single] at hp
    | directories _ _ names r _ named nonempty rest =>
      exact .directories p (q :: ps) [] (names ++ r) hp
        (fun s hs => named s (mem_append_take_of_mem_take hs)) nonempty
        (.directories q ps names r hq named nonempty rest)

theorem matches_afterRecursive (hp : p.isRecursive) :
    Matches (p :: afterRecursive ps) r ↔ Matches (p :: ps) r := by
  induction ps with
  | nil => exact .rfl
  | cons q ps ih =>
    rw [afterRecursive, List.dropWhile_cons]
    split
    · next hq => rw [matches_recursive_cons hp hq, ← ih, afterRecursive]
    · exact .rfl

/-- The first segment that is matched by `**` and what follows: a directory on the way, the last
one, or what the next pattern is about. -/
theorem matches_recursive_iff (hp : p.isRecursive)
    (next : ∀ q ∈ ps.head?, q.isRecursive = false) : Matches (p :: ps) r ↔
      ∃ s r', r = s :: r' ∧ IsName s ∧ (Matches (p :: ps) r' ∨ (ps = [] ∧ r' = []) ∨
        ∃ q qs, ps = q :: qs ∧ q.covers s.toList ∧ Matches qs r') := by
  constructor
  · intro h
    cases h with
    | segment _ _ _ _ single => simp [single] at hp
    | directories _ _ names r _ named nonempty rest =>
      cases names with
      | cons s names =>
        refine ⟨s, names ++ r, rfl, named s (by simp), ?_⟩
        by_cases hr : names ++ r = []
        · obtain ⟨rfl, rfl⟩ := List.append_eq_nil_iff.1 hr
          cases ps with
          | nil => exact .inr (.inl ⟨rfl, rfl⟩)
          | cons q qs => exact absurd rfl rest.nonempty
        · exact .inl (.directories p ps names r hp
            (fun t ht => named t (List.mem_cons_of_mem s ht)) hr rest)
      | nil =>
        cases ps with
        | nil => exact absurd (matches_nil_iff.1 rest) nonempty
        | cons q qs =>
          obtain ⟨s, r, rfl, fits, rest⟩ := (matches_cons_iff (next q rfl)).1 rest
          exact ⟨s, r, rfl, named s (by simp), .inr (.inr ⟨q, qs, rfl, fits.1, rest⟩)⟩
  · rintro ⟨s, r, rfl, hs, h | ⟨rfl, rfl⟩ | ⟨q, qs, rfl, covers, rest⟩⟩
    · cases h with
      | segment _ _ _ _ single => simp [single] at hp
      | directories _ _ names r _ named nonempty rest =>
        refine .directories p ps (s :: names) r hp (fun t ht => ?_) (by simp) rest
        rcases List.mem_cons.1 ht with rfl | ht
        · exact hs
        · exact named t ht
    · exact .directories p [] [s] [] hp (by simpa using hs) (by simp) .done
    · exact .directories p (q :: qs) [] (s :: r) hp (by simpa using hs) (by simp)
        (.segment q qs s r (next q rfl) ⟨covers, .inl hs⟩ rest)

def Pattern.plain (s : String) : Pattern := s.toList.map .char

theorem covers_map_char (cs ds : List Char) :
    Pattern.covers (cs.map .char) ds = true ↔ ds = cs := by
  induction cs generalizing ds with
  | nil => cases ds <;> simp [Pattern.covers]
  | cons c cs ih =>
    cases ds with
    | nil => simp [Pattern.covers, Token.isSequence]
    | cons d ds => simp [Pattern.covers, Token.isSequence, Token.accepts, ih]

theorem covers_plain_iff {t : String} : (Pattern.plain s).covers t.toList ↔ t = s := by
  rw [Pattern.plain, covers_map_char, String.toList_inj]

@[simp] theorem isRecursive_plain (s : String) : (Pattern.plain s).isRecursive = false := by
  simp [Pattern.plain, Pattern.isRecursive]

theorem mapM_char?_eq_some_iff {cs : List Char} :
    p.mapM Token.char? = some cs ↔ p = cs.map .char := by
  induction p generalizing cs with
  | nil => cases cs <;> simp
  | cons t p ih =>
    rw [List.mapM_cons]
    cases t <;> cases cs <;> simp [Token.char?, Option.bind_eq_some_iff, ih, and_comm]

theorem literal?_eq_some_iff : p.literal? = some s ↔ p = .plain s := by
  rw [Pattern.literal?, Option.map_eq_some_iff, Pattern.plain]
  constructor
  · rintro ⟨cs, hcs, rfl⟩
    rw [String.toList_ofList]
    exact mapM_char?_eq_some_iff.1 hcs
  · intro h
    exact ⟨s.toList, mapM_char?_eq_some_iff.2 h, String.ofList_toList⟩

theorem fits_plain_iff {t : String} (hs : '/' ∉ s.toList) : Fits (.plain s) t ↔ t = s := by
  rw [Fits, covers_plain_iff]
  refine and_iff_left_of_imp ?_
  rintro rfl
  by_cases hd : t = "." ∨ t = ".."
  · refine .inr (.inl ⟨hd, ?_⟩)
    rcases hd with rfl | rfl <;> rfl
  · obtain ⟨h₁, h₂⟩ := not_or.1 hd
    by_cases h₀ : t = ""
    · subst h₀
      exact .inr (.inr ⟨rfl, rfl⟩)
    · exact .inl ⟨h₀, h₁, h₂, hs⟩

variable {position : Nat} {before : Option Char} {cs : List Char}

/-- What reading a pattern comes to at its first character, `slash` telling whether a slash or
nothing stands before: a token is read and the rest goes on after `c`, the last character of the
token. -/
inductive Turn (slash : Bool) (cs : List Char) : Prop where
  | refused (h : ∀ position before, before.all (· == '/') = slash →
      ∃ e, tokens position before cs = .error e)
  | done (h : cs = [])
  | last (hs : slash) (h : ∀ position before, before.all (· == '/') = slash →
      tokens position before cs = .ok [.directories])
  | token (t : Token) (c : Char) (rest : List Char) (suffix : c :: rest <:+ cs)
    (char : ∀ d, t = .char d → d = c) (directories : t = .directories → c = '/')
    (h : ∀ position before, before.all (· == '/') = slash → ∃ position',
      tokens position before cs = (tokens position' (some c) rest).map (t :: ·))

theorem bracket?_eq {cs inner rest : List Char} (h : bracket? cs = some (inner, rest)) :
    cs = inner ++ ']' :: rest := by
  cases cs with
  | nil => cases h
  | cons c cs =>
    rw [bracket?] at h
    split at h
    · next b r hd =>
      cases h
      have hb : b = ']' := by
        have hne : cs.dropWhile (· != ']') ≠ [] := by simp [hd]
        have := List.head_dropWhile_not (· != ']') hne
        simpa [hd] using this
      rw [List.cons_append, ← hb, ← hd, hb, List.takeWhile_append_dropWhile]
    · cases h

theorem turn_stars (slash : Bool) (cs : List Char) : Turn slash ('*' :: '*' :: cs) := by
  rcases cs with _ | ⟨c, cs⟩
  · cases slash with
    | true => exact .last rfl fun position before hb => by rw [tokens, hb]; rfl
    | false => exact .refused fun position before hb => ⟨_, by rw [tokens, hb]; rfl⟩
  by_cases star : c = '*'
  · subst star
    exact .refused fun position before _ => ⟨_, by rw [tokens]⟩
  by_cases end_ : c = '/'
  · subst end_
    cases slash with
    | true =>
      exact .token .directories '/' cs ⟨['*', '*'], rfl⟩ (by simp) (by simp)
        fun position before hb => ⟨position + 3, by rw [tokens, hb]; rfl⟩
    | false => exact .refused fun position before hb => ⟨_, by rw [tokens, hb]; rfl⟩
  · refine .refused fun position before _ => ?_
    have other (d : Char) (hd : c ≠ d) (tail : List Char) : c :: cs ≠ d :: tail := by simp [hd]
    rw [tokens.eq_6 _ _ _ (other '*' star) (by simp) (other '/' end_)]
    split <;> exact ⟨_, rfl⟩

theorem tokens_except {inner rest : List Char} (hb : bracket? cs = some (inner, rest)) :
    tokens position before ('[' :: '!' :: cs) =
      (tokens (position + inner.length + 3) (some ']') rest).map (.except (spans inner) :: ·) := by
  rw [tokens]
  split
  · next h =>
    cases hb.symm.trans h
    rfl
  · next h => cases hb.symm.trans h

theorem tokens_within {inner rest : List Char} (hc : ∀ tail, cs ≠ '!' :: tail)
    (hb : bracket? cs = some (inner, rest)) : tokens position before ('[' :: cs) =
      (tokens (position + inner.length + 2) (some ']') rest).map (.within (spans inner) :: ·) := by
  rw [tokens.eq_9 _ _ _ hc]
  split
  · next h =>
    cases hb.symm.trans h
    rfl
  · next h => cases hb.symm.trans h

theorem turn_bracket (slash : Bool) (cs : List Char) : Turn slash ('[' :: cs) := by
  by_cases except : cs.head? = some '!'
  · obtain ⟨tail, rfl⟩ := List.head?_eq_some_iff.1 except
    cases hb : bracket? tail with
    | none =>
      refine .refused fun position before _ => ⟨⟨position, .range⟩, ?_⟩
      rw [tokens]
      split
      · next h => cases hb.symm.trans h
      · rfl
    | some b =>
      refine .token (.except (spans b.1)) ']' b.2 ⟨'[' :: '!' :: b.1, ?_⟩ (by simp) (by simp)
        fun position before _ => ⟨_, tokens_except hb⟩
      rw [bracket?_eq hb]
      rfl
  · have except : ∀ tail, cs ≠ '!' :: tail := fun tail h => except (by simp [h])
    cases hb : bracket? cs with
    | none =>
      refine .refused fun position before _ => ⟨⟨position, .range⟩, ?_⟩
      rw [tokens.eq_9 _ _ _ except]
      split
      · next h => cases hb.symm.trans h
      · rfl
    | some b =>
      refine .token (.within (spans b.1)) ']' b.2 ⟨'[' :: b.1, ?_⟩ (by simp) (by simp)
        fun position before _ => ⟨_, tokens_within except hb⟩
      rw [bracket?_eq hb]
      rfl

theorem turn (slash : Bool) (cs : List Char) : Turn slash cs := by
  rcases cs with _ | ⟨c, cs⟩
  · exact .done rfl
  by_cases question : c = '?'
  · subst question
    exact .token .anyChar '?' cs (List.suffix_refl _) (by simp) (by simp)
      fun position before _ => ⟨position + 1, by rw [tokens]; rfl⟩
  by_cases star : c = '*'
  · subst star
    by_cases second : cs.head? = some '*'
    · obtain ⟨tail, rfl⟩ := List.head?_eq_some_iff.1 second
      exact turn_stars slash tail
    · have second : ∀ tail, cs ≠ '*' :: tail := fun tail h => second (by simp [h])
      exact .token .anySequence '*' cs (List.suffix_refl _) (by simp) (by simp)
        fun position before _ => ⟨position + 1, by
          rw [tokens.eq_7 _ _ _ (fun _ => second _) second]; rfl⟩
  by_cases bracket : c = '['
  · subst bracket
    exact turn_bracket slash cs
  · exact .token (.char c) c cs (List.suffix_refl _) (by simp) (by simp)
      fun position before _ => ⟨position + 1, by rw [tokens] <;> first | rfl | simp [*]⟩

theorem toOption_map {ε α β : Type} (x : Except ε α) (g : α → β) :
    (x.map g).toOption = x.toOption.map g := by
  cases x <;> rfl

/-- What is read does not depend on the position, and on what stands before only by whether that is
a slash. -/
theorem toOption_tokens {position position' : Nat} {before before' : Option Char} {cs : List Char}
    (h : before.all (· == '/') = before'.all (· == '/')) :
    (tokens position before cs).toOption = (tokens position' before' cs).toOption := by
  obtain h' | rfl | ⟨-, h'⟩ | ⟨t, c, rest, suffix, -, -, h'⟩ := turn (before'.all (· == '/')) cs
  · obtain ⟨e, he⟩ := h' position before h
    obtain ⟨e', he'⟩ := h' position' before' rfl
    rw [he, he']
    rfl
  · rw [tokens, tokens]
  · rw [h' position before h, h' position' before' rfl]
  · have shorter := suffix.length_le
    obtain ⟨n, hn⟩ := h' position before h
    obtain ⟨n', hn'⟩ := h' position' before' rfl
    -- both go on after the same character, so what stood before no longer counts
    rw [hn, hn', toOption_map, toOption_map, toOption_tokens rfl]
termination_by cs.length
decreasing_by simp at shorter; omega

theorem tokens_cons_of_plain {c : Char} (hc : Project.isWildcard c = false) :
    tokens position before (c :: cs) = (tokens (position + 1) (some c) cs).map (.char c :: ·) := by
  simp only [Project.isWildcard, Bool.or_eq_false_iff, beq_eq_false_iff_ne] at hc
  obtain ⟨⟨h₁, h₂⟩, h₃⟩ := hc
  rw [tokens] <;> first | rfl | simp [h₁, h₂, h₃]

/-- A text without wildcards and a slash in front of a pattern leave it as it is. -/
theorem isOk_tokens_append {pre : List Char} (hp : pre.any Project.isWildcard = false) :
    (tokens position before (pre ++ '/' :: cs)).isOk =
      (Pattern.ofText (String.ofList cs)).isOk := by
  have isOk_map {α β : Type} (x : Except Fault α) (g : α → β) : (x.map g).isOk = x.isOk := by
    cases x <;> rfl
  have isOk_eq {α : Type} (x : Except Fault α) : x.isOk = x.toOption.isSome := by
    cases x <;> rfl
  induction pre generalizing position before with
  | nil =>
    rw [List.nil_append, tokens_cons_of_plain rfl, isOk_map, isOk_eq, isOk_eq, Pattern.ofText,
      String.toList_ofList, toOption_tokens]
    rfl
  | cons c pre ih =>
    rw [List.any_cons, Bool.or_eq_false_iff] at hp
    rw [List.cons_append, tokens_cons_of_plain hp.1, isOk_map, ih hp.2]

theorem tokens_of_plain (h : cs.any Project.isWildcard = false) :
    tokens position before cs = .ok (cs.map .char) := by
  induction cs generalizing position before with
  | nil => rw [tokens]; rfl
  | cons c cs ih =>
    rw [List.any_cons, Bool.or_eq_false_iff] at h
    rw [tokens_cons_of_plain h.1, ih h.2]
    rfl

theorem ofText_of_plain (h : s.toList.any Project.isWildcard = false) :
    Pattern.ofText s = .ok (.plain s) :=
  tokens_of_plain h

/-- What is read from a text between slashes: no slash, and `**` only on its own. -/
structure Pattern.IsSegment (p : Pattern) : Prop where
  slash : .char '/' ∉ p
  recursive : .directories ∈ p → p = [.directories]

theorem isSegment_of_tokens {position : Nat} {before : Option Char} {cs : List Char} {p : Pattern}
    (hs : '/' ∉ cs) (h : tokens position before cs = .ok p) :
    p.IsSegment ∧ (.directories ∈ p → before.all (· == '/')) := by
  obtain h' | rfl | ⟨slash, h'⟩ | ⟨t, c, rest, suffix, char, directories, h'⟩ :=
    turn (before.all (· == '/')) cs
  · obtain ⟨e, he⟩ := h' position before rfl
    rw [he] at h
    cases h
  · rw [tokens] at h
    cases h
    exact ⟨⟨by simp, by simp⟩, by simp⟩
  · rw [h' position before rfl] at h
    cases h
    exact ⟨⟨by simp, by simp⟩, fun _ => slash⟩
  · have shorter := suffix.length_le
    have hc : c ≠ '/' := fun h => hs (h ▸ suffix.subset List.mem_cons_self)
    have hr : '/' ∉ rest := fun h => hs (suffix.subset (List.mem_cons_of_mem c h))
    obtain ⟨n, hn⟩ := h' position before rfl
    rw [hn] at h
    cases hts : tokens n (some c) rest with
    | error e =>
      rw [hts] at h
      cases h
    | ok ts =>
      rw [hts] at h
      cases h
      obtain ⟨segment, single⟩ := isSegment_of_tokens hr hts
      -- `**` needs a slash before it or behind it, and there is none
      have no : Token.directories ∉ t :: ts := by
        intro hm
        rcases List.mem_cons.1 hm with ht | hm
        · exact hc (directories ht.symm)
        · exact hc (by simpa using single hm)
      refine ⟨⟨fun hm => ?_, fun hm => absurd hm no⟩, fun hm => absurd hm no⟩
      rcases List.mem_cons.1 hm with ht | hm
      · exact hc (char _ ht.symm).symm
      · exact segment.slash hm
termination_by cs.length
decreasing_by simp at shorter; omega

theorem isSegment_of_ofText (hs : '/' ∉ s.toList) (h : Pattern.ofText s = .ok p) : p.IsSegment :=
  (isSegment_of_tokens hs h).1

end ContainerAliases.Glob
