import Mathlib.Data.List.Basic
import ContainerAliases.Json.Pretty
import ContainerAliases.Json.Sequence

namespace ContainerAliases.Json

open Reader

variable {α β : Type} {r : Reader α} {f : α → Reader β} {a : α} {b : β} {c : Char}
  {t t' t'' cs blanks : List Char} {s : String} {n : Nat}

/-- In front of the text `t` the reader gives `a` and leaves `t'`, at whatever byte `t` begins. -/
def Reads (r : Reader α) (t : List Char) (a : α) (t' : List Char) : Prop :=
  ∀ n, ∃ m, StateT.run r ⟨t, n⟩ = .ok (a, ⟨t', m⟩)

/-- The members of an object of lists up to its end, at most so many. -/
def listsFrom (first : Bool) : Nat → Reader (List (String × List String))
  | 0 => return []
  | n + 1 => do
    if !(← hasMember first) then return []
    skip
    let key ← string
    colon
    let value ← texts
    return (key, value) :: (← listsFrom false n)

def textLists : Reader (List (String × List String)) := do
  match ← glance with
  | none => failNext .endInValue
  | some '{' =>
    skip
    let l ← listsFrom true ((← get).rest.length + 1)
    skip
    return l
  | some _ => failType "a map"

/-- Reads a text that holds nothing else. -/
def readAll (r : Reader α) (source : String) : Except Fault α :=
  (do let a ← r; finish; return a : Reader α).run' ⟨source.toList, 0⟩

theorem Reads.bind (h : Reads r t a t') (hf : Reads (f a) t' b t'') : Reads (r >>= f) t b t'' := by
  intro n
  obtain ⟨m, hm⟩ := h n
  obtain ⟨k, hk⟩ := hf m
  exact ⟨k, by simp only [StateT.run_bind, hm, ← hk]; rfl⟩

theorem reads_pure (a : α) (t : List Char) : Reads (pure a) t a t := fun n => ⟨n, rfl⟩

theorem reads_peek (t : List Char) : Reads peek t t.head? t := fun n => ⟨n, rfl⟩

theorem reads_skip (c : Char) (t : List Char) : Reads skip (c :: t) () t := fun _ => ⟨_, rfl⟩

theorem reads_get {f : Cursor → Reader β} (h : ∀ n, Reads (f ⟨t, n⟩) t b t') :
    Reads (get >>= f) t b t' := fun n => h n n

theorem reads_run {p : Char → Bool} (hp : ∀ c ∈ cs, p c) (ht : ∀ c ∈ t.head?, p c = false) :
    Reads (run p) (cs ++ t) cs t := by
  have rest : t.takeWhile p = [] := by
    cases t with
    | nil => rfl
    | cons c t => exact List.takeWhile_cons_of_neg (by simp [ht c rfl])
  have taken : (cs ++ t).takeWhile p = cs := by
    rw [List.takeWhile_append_of_pos hp, rest, List.append_nil]
  refine fun n => ⟨n + byteCount cs, ?_⟩
  change Except.ok ((cs ++ t).takeWhile p, (⟨(cs ++ t).drop ((cs ++ t).takeWhile p).length,
    n + byteCount ((cs ++ t).takeWhile p)⟩ : Cursor)) = _
  rw [taken, List.drop_left]

theorem reads_glance (hb : ∀ c ∈ blanks, isBlank c) (ht : ∀ c ∈ t.head?, isBlank c = false) :
    Reads glance (blanks ++ t) t.head? t := (reads_run hb ht).bind (reads_peek t)

theorem reads_hexEscape {w x y z : Char} {i j k l : Nat}
    (h : [w, x, y, z].mapM hexValue = some [i, j, k, l]) :
    Reads hexEscape (w :: x :: y :: z :: t) (((i * 16 + j) * 16 + k) * 16 + l) t := by
  have enough : ¬ byteCount (w :: x :: y :: z :: t) < 4 := by
    have := Char.utf8Size_pos w
    have := Char.utf8Size_pos x
    have := Char.utf8Size_pos y
    have := Char.utf8Size_pos z
    simp only [byteCount, List.foldr_cons]
    omega
  refine reads_get fun n => ?_
  have front : (w :: x :: y :: z :: t).take 4 = [w, x, y, z] := rfl
  simp only [if_neg enough, front, h]
  exact fun _ => ⟨_, rfl⟩

theorem hexPadded_eq (hn : n < 0x20) : Text.hexPadded 4 n =
    ['0', '0', Nat.digitChar (n / 16), Nat.digitChar (n % 16)] := by
  have all : ∀ n < 0x20, Text.hexPadded 4 n =
      ['0', '0', Nat.digitChar (n / 16), Nat.digitChar (n % 16)] := by decide
  exact all n hn

theorem hexValue_digitChar (hn : n < 16) : hexValue (Nat.digitChar n) = some n := by
  have all : ∀ n < 16, hexValue (Nat.digitChar n) = some n := by decide
  exact all n hn

/-- What is written with digits is a control character, so it is half of no pair. -/
theorem reads_hexCharacter (hn : n < 0x20) :
    Reads hexCharacter (Text.hexPadded 4 n ++ t) (Char.ofNat n) t := by
  have digits : ['0', '0', Nat.digitChar (n / 16), Nat.digitChar (n % 16)].mapM hexValue =
      some [0, 0, n / 16, n % 16] := by
    simp [hexValue_digitChar (show n / 16 < 16 by omega),
      hexValue_digitChar (Nat.mod_lt n (by decide)), show hexValue '0' = some 0 by decide]
  have value : ((0 * 16 + 0) * 16 + n / 16) * 16 + n % 16 = n := by omega
  have unpaired : isTrailing n = false ∧ isLeading n = false := by
    simp [isTrailing, isLeading]
    omega
  have h := reads_hexEscape (t := t) digits
  rw [value] at h
  rw [hexPadded_eq hn]
  refine h.bind ?_
  rw [unpaired.1, unpaired.2]
  exact reads_pure (Char.ofNat n) t

theorem reads_escape_letter {d : Char} (hu : c ≠ 'u') (hd : escapes.lookup c = some d) :
    Reads (escape id hexCharacter) (c :: t) d t := by
  refine (reads_peek (c :: t)).bind ?_
  simp only [List.head?_cons, hd]
  exact (reads_skip c t).bind (reads_pure d t)

theorem reads_escape_digits (hc : c.toNat < 0x20) :
    Reads (escape id hexCharacter) ('u' :: Text.hexPadded 4 c.toNat ++ t) c t := by
  refine (reads_peek _).bind ?_
  have h := reads_hexCharacter (t := t) hc
  rw [Char.ofNat_toNat] at h
  exact (reads_skip _ _).bind h

theorem exists_escapeChar_eq (hc : isPlain c = false) : ∃ cs, escapeChar c = '\\' :: cs ∧
    ∀ t, Reads (escape id hexCharacter) (cs ++ t) c t := by
  unfold escapeChar
  split
  case h_8 =>
    have low : c.toNat < 0x20 := by
      simp_all [isPlain, isControl]
    rw [if_pos low]
    exact ⟨_, rfl, fun t => reads_escape_digits low⟩
  all_goals exact ⟨_, rfl, fun t => reads_escape_letter (by decide) rfl⟩

theorem escapeChar_of_isPlain (hc : isPlain c) : escapeChar c = [c] := by
  unfold escapeChar
  split
  case h_8 =>
    have high : ¬ c.toNat < 0x20 := by simp_all [isPlain, isControl]
    exact if_neg high
  all_goals simp [isPlain, isControl] at hc

theorem flatMap_escapeChar_of_isPlain (h : ∀ c ∈ cs, isPlain c) : cs.flatMap escapeChar = cs := by
  induction cs with
  | nil => rfl
  | cons c cs ih =>
    rw [List.flatMap_cons, escapeChar_of_isPlain (h c List.mem_cons_self),
      ih fun d hd => h d (List.mem_cons_of_mem _ hd)]
    rfl

/-- Every escape spends a unit, and there are no more escapes than characters. -/
theorem reads_stringRest {control : Reader Unit} (hn : cs.length < n) :
    Reads (stringRest id hexCharacter control n) (cs.flatMap escapeChar ++ '"' :: t) cs t := by
  induction n generalizing cs with
  | zero => exact absurd hn (Nat.not_lt_zero _)
  | succ n ih =>
    obtain ⟨front, rest, rfl, hf, hr⟩ : ∃ front rest, cs = front ++ rest ∧
        (∀ c ∈ front, isPlain c) ∧ ∀ c ∈ rest.head?, isPlain c = false := by
      refine ⟨_, _, (List.takeWhile_append_dropWhile (p := isPlain)).symm,
        List.all_eq_true.1 List.all_takeWhile, fun c hc => ?_⟩
      have := List.head?_dropWhile_not isPlain cs
      rw [hc] at this
      simpa using this
    rw [List.flatMap_append, flatMap_escapeChar_of_isPlain hf, List.append_assoc]
    cases rest with
    | nil =>
      rw [List.append_nil]
      refine (reads_run hf (by simp [isPlain])).bind ((reads_peek _).bind ?_)
      simp only [List.flatMap_nil, List.nil_append, List.head?_cons, List.map_id]
      exact (reads_skip _ _).bind (reads_pure _ _)
    | cons c rest =>
      obtain ⟨es, he, reads⟩ := exists_escapeChar_eq (hr c rfl)
      have shorter : rest.length < n := by
        simp only [List.length_append, List.length_cons] at hn
        omega
      rw [List.flatMap_cons, he, List.cons_append, List.cons_append, List.append_assoc]
      refine (reads_run hf (by simp [isPlain])).bind ((reads_peek _).bind ?_)
      simp only [List.head?_cons, List.map_id]
      exact (reads_skip _ _).bind ((reads _).bind ((ih shorter).bind (reads_pure _ _)))

theorem length_le_flatMap {α : Type} {l : List α} {f : α → List Char} (hf : ∀ a ∈ l, f a ≠ []) :
    l.length ≤ (l.flatMap f).length := by
  induction l with
  | nil => exact Nat.le_refl _
  | cons a l ih =>
    have := List.length_pos_iff.2 (hf a List.mem_cons_self)
    have := ih fun b hb => hf b (List.mem_cons_of_mem _ hb)
    simp only [List.flatMap_cons, List.length_append, List.length_cons]
    omega

theorem escapeChar_ne_nil (c : Char) : escapeChar c ≠ [] := by
  cases hc : isPlain c with
  | true => simp [escapeChar_of_isPlain hc]
  | false =>
    obtain ⟨cs, h, -⟩ := exists_escapeChar_eq hc
    simp [h]

theorem reads_escapeLimit (t : List Char) : Reads escapeLimit t (t.length + 1) t :=
  fun n => ⟨n, rfl⟩

theorem reads_string (s : String) (t : List Char) :
    Reads string (s.toList.flatMap escapeChar ++ '"' :: t) s t := by
  have enough := length_le_flatMap (l := s.toList) fun c _ => escapeChar_ne_nil c
  refine (reads_escapeLimit _).bind ((reads_stringRest ?_).bind ?_)
  · rw [List.length_append]
    omega
  · rw [String.ofList_toList]
    exact reads_pure s t

theorem quote_append (s : String) (t : List Char) :
    quote s ++ t = '"' :: (s.toList.flatMap escapeChar ++ '"' :: t) := by
  simp [quote]

def line (level : Nat) (e : List Char) : List Char := '\n' :: indent (level + 1) ++ e

/-- What follows the first element. -/
def further (level : Nat) (closing : Char) (es : List (List Char)) : List Char :=
  es.flatMap (fun e => ',' :: line level e) ++ '\n' :: indent level ++ [closing]

theorem bracketed_cons (level : Nat) (o c : Char) (e : List Char) (es : List (List Char)) :
    bracketed level o c (e :: es) = o :: (line level e ++ further level c es) := by
  have join (x : List Char) (xs : List (List Char)) :
      [','].intercalate (x :: xs) = x ++ xs.flatMap (',' :: ·) := by
    induction xs generalizing x with
    | nil => simp
    | cons y xs ih => rw [List.intercalate_cons_cons, ih]; simp
  simp only [bracketed, List.isEmpty_cons, Bool.false_eq_true, if_false, List.map_cons, join,
    List.flatMap_map, further, line, List.append_assoc, List.cons_append]

theorem isBlank_of_mem_indent {level : Nat} (h : c ∈ '\n' :: indent level) : isBlank c := by
  rcases List.mem_cons.1 h with rfl | h
  · rfl
  · rw [List.eq_of_mem_replicate h]
    rfl

theorem reads_glance_cons (hb : ∀ c ∈ blanks, isBlank c) (hc : isBlank c = false) (t : List Char) :
    Reads glance (blanks ++ c :: t) (some c) (c :: t) :=
  reads_glance hb fun d hd => by rwa [← Option.some.inj hd]

theorem reads_glance_here (hc : isBlank c = false) (t : List Char) :
    Reads glance (c :: t) (some c) (c :: t) := reads_glance_cons (List.forall_mem_nil _) hc t

theorem reads_glance_line (level : Nat) {e : List Char} (he : e.head? = some '"')
    (t : List Char) : Reads glance (line level e ++ t) (some '"') (e ++ t) := by
  obtain ⟨e, rfl⟩ := List.head?_eq_some_iff.1 he
  rw [line, List.append_assoc]
  exact reads_glance_cons (fun _ => isBlank_of_mem_indent) rfl (e ++ t)

theorem head?_quote (s : String) (t : List Char) : (quote s ++ t).head? = some '"' := by
  rw [quote_append]
  rfl

theorem reads_hasElement_first (level : Nat) {e : List Char} (he : e.head? = some '"')
    (t : List Char) : Reads (hasElement true) (line level e ++ t) true (e ++ t) :=
  (reads_glance_line level he t).bind (reads_pure _ _)

theorem reads_hasElement_next (level : Nat) {e : List Char} (he : e.head? = some '"')
    (t : List Char) : Reads (hasElement false) (',' :: (line level e ++ t)) true (e ++ t) :=
  (reads_glance_here rfl _).bind <| (reads_skip _ _).bind <|
    (reads_glance_line level he t).bind (reads_pure _ _)

theorem reads_hasElement_end (first : Bool) (blanks : List Char) (hb : ∀ c ∈ blanks, isBlank c)
    (t : List Char) :
    Reads (hasElement first) (blanks ++ ']' :: t) false (']' :: t) :=
  (reads_glance_cons hb rfl _).bind (reads_pure _ _)

theorem reads_text (s : String) (t : List Char) : Reads text (quote s ++ t) s t := by
  rw [quote_append]
  exact (reads_glance_here rfl _).bind
    ((reads_skip _ _).bind (reads_string s t))

theorem further_nil (level : Nat) (c : Char) (t : List Char) :
    further level c [] ++ t = '\n' :: indent level ++ c :: t := by
  simp [further]

theorem further_cons (level : Nat) (c : Char) (e : List Char) (es : List (List Char))
    (t : List Char) : further level c (e :: es) ++ t =
      ',' :: (line level e ++ (further level c es ++ t)) := by
  simp [further]

/-- A text is longer than the number of elements that it holds after the first. -/
theorem length_lt_append_further (level : Nat) (c : Char) (es : List (List Char))
    (cs t : List Char) : es.length < (cs ++ (further level c es ++ t)).length := by
  have := length_le_flatMap (l := es) (f := fun e => ',' :: line level e) (by simp)
  simp only [further, List.length_append, List.length_cons]
  omega

theorem reads_textsFrom (level : Nat) {l : List String} (hn : l.length < n) (t : List Char) :
    Reads (textsFrom false n) (further level ']' (l.map quote) ++ t) l (']' :: t) := by
  induction l generalizing n with
  | nil =>
    obtain ⟨n, rfl⟩ := Nat.exists_eq_add_of_lt hn
    rw [List.map_nil, further_nil]
    exact (reads_hasElement_end false _ (fun _ => isBlank_of_mem_indent) t).bind (reads_pure _ _)
  | cons s l ih =>
    obtain ⟨n, rfl⟩ : ∃ m, n = m + 1 := ⟨n - 1, by omega⟩
    rw [List.map_cons, further_cons]
    exact (reads_hasElement_next level (by simpa using head?_quote s []) _).bind <|
      (reads_text s _).bind <| (ih (by simpa using hn)).bind (reads_pure _ _)

theorem reads_endList (t : List Char) : Reads endList (']' :: t) () t :=
  (reads_glance_here rfl _).bind (reads_skip _ _)

theorem reads_textsFrom_nil (n : Nat) (t : List Char) :
    Reads (textsFrom true (n + 1)) (']' :: t) [] (']' :: t) :=
  (reads_hasElement_end true [] (List.forall_mem_nil _) t).bind (reads_pure _ _)

theorem reads_textsFrom_cons (level : Nat) (s : String) {l : List String} (hn : l.length < n)
    (t : List Char) : Reads (textsFrom true (n + 1))
      (line level (quote s) ++ (further level ']' (l.map quote) ++ t)) (s :: l) (']' :: t) :=
  (reads_hasElement_first level (by simpa using head?_quote s []) _).bind <|
    (reads_text s _).bind <| (reads_textsFrom level hn t).bind (reads_pure _ _)

theorem reads_texts (blanks : List Char) (hb : ∀ c ∈ blanks, isBlank c) (level : Nat)
    (l : List String)
    (t : List Char) : Reads texts (blanks ++ (strings level l ++ t)) l t := by
  rw [strings]
  cases l with
  | nil =>
    exact (reads_glance_cons hb rfl _).bind <| (reads_skip _ _).bind <| reads_get fun _ =>
      (reads_textsFrom_nil _ t).bind <| (reads_endList t).bind (reads_pure _ _)
  | cons s l =>
    rw [List.map_cons, bracketed_cons, List.cons_append, List.append_assoc]
    have enough := length_lt_append_further level ']' (l.map quote) (line level (quote s)) t
    rw [List.length_map] at enough
    exact (reads_glance_cons hb rfl _).bind <| (reads_skip _ _).bind <| reads_get fun _ =>
      (reads_textsFrom_cons level s enough t).bind <| (reads_endList t).bind (reads_pure _ _)

def member (level : Nat) (m : String × List String) : List Char :=
  quote m.1 ++ ':' :: ' ' :: strings (level + 1) m.2

theorem lists_eq (level : Nat) (l : List (String × List String)) :
    lists level l = bracketed level '{' '}' (l.map (member level)) := rfl

theorem reads_hasMember_first (level : Nat) {e : List Char} (he : e.head? = some '"')
    (t : List Char) : Reads (hasMember true) (line level e ++ t) true (e ++ t) :=
  (reads_glance_line level he t).bind (reads_pure _ _)

theorem reads_hasMember_next (level : Nat) {e : List Char} (he : e.head? = some '"')
    (t : List Char) : Reads (hasMember false) (',' :: (line level e ++ t)) true (e ++ t) :=
  (reads_glance_here rfl _).bind <| (reads_skip _ _).bind <|
    (reads_glance_line level he t).bind (reads_pure _ _)

theorem reads_hasMember_end (first : Bool) (blanks : List Char) (hb : ∀ c ∈ blanks, isBlank c)
    (t : List Char) :
    Reads (hasMember first) (blanks ++ '}' :: t) false ('}' :: t) :=
  (reads_glance_cons hb rfl _).bind (reads_pure _ _)

theorem reads_colon (t : List Char) : Reads colon (':' :: t) () t :=
  (reads_glance_here rfl _).bind (reads_skip _ _)

theorem reads_member (level : Nat) (m : String × List String) {rest : List (String × List String)}
    (h : Reads (listsFrom false n) t rest t') :
    Reads (do
      skip
      let key ← string
      colon
      let value ← texts
      return (key, value) :: (← listsFrom false n)) (member level m ++ t) (m :: rest) t' := by
  rw [member, List.append_assoc, quote_append]
  exact (reads_skip _ _).bind <| (reads_string _ _).bind <| (reads_colon _).bind <|
    (reads_texts [' '] (by simp [isBlank]) _ _ _).bind <| h.bind (reads_pure _ _)

theorem head?_member (level : Nat) (m : String × List String) :
    (member level m).head? = some '"' := head?_quote ..

theorem reads_listsFrom (level : Nat) {l : List (String × List String)} (hn : l.length < n)
    (t : List Char) :
    Reads (listsFrom false n) (further level '}' (l.map (member level)) ++ t) l ('}' :: t) := by
  induction l generalizing n with
  | nil =>
    obtain ⟨n, rfl⟩ := Nat.exists_eq_add_of_lt hn
    rw [List.map_nil, further_nil]
    exact (reads_hasMember_end false _ (fun _ => isBlank_of_mem_indent) t).bind (reads_pure _ _)
  | cons m l ih =>
    obtain ⟨n, rfl⟩ : ∃ m, n = m + 1 := ⟨n - 1, by omega⟩
    rw [List.map_cons, further_cons]
    exact (reads_hasMember_next level (head?_member level m) _).bind
      (reads_member level m (ih (by simpa using hn)))

theorem reads_listsFrom_nil (n : Nat) (t : List Char) :
    Reads (listsFrom true (n + 1)) ('}' :: t) [] ('}' :: t) :=
  (reads_hasMember_end true [] (List.forall_mem_nil _) t).bind (reads_pure _ _)

theorem reads_listsFrom_cons (level : Nat) (m : String × List String)
    {l : List (String × List String)} (hn : l.length < n) (t : List Char) :
    Reads (listsFrom true (n + 1))
      (line level (member level m) ++ (further level '}' (l.map (member level)) ++ t)) (m :: l)
      ('}' :: t) :=
  (reads_hasMember_first level (head?_member level m) _).bind
    (reads_member level m (reads_listsFrom level hn t))

theorem reads_textLists (level : Nat) (l : List (String × List String)) (t : List Char) :
    Reads textLists (lists level l ++ t) l t := by
  rw [lists_eq]
  cases l with
  | nil =>
    exact (reads_glance_here rfl _).bind <| (reads_skip _ _).bind <| reads_get fun _ =>
      (reads_listsFrom_nil _ t).bind <| (reads_skip _ t).bind (reads_pure _ _)
  | cons m l =>
    rw [List.map_cons, bracketed_cons, List.cons_append, List.append_assoc]
    have enough := length_lt_append_further level '}' (l.map (member level))
      (line level (member level m)) t
    rw [List.length_map] at enough
    exact (reads_glance_here rfl _).bind <| (reads_skip _ _).bind <| reads_get fun _ =>
      (reads_listsFrom_cons level m enough t).bind <| (reads_skip _ t).bind (reads_pure _ _)

theorem readAll_eq_of_reads (h : Reads r t a blanks) (hb : ∀ c ∈ blanks, isBlank c) :
    readAll r (String.ofList t) = .ok a := by
  have ends : Reads finish blanks () [] := by
    have h := reads_glance (t := []) hb (by simp)
    rw [List.append_nil] at h
    exact h.bind (reads_pure _ _)
  have all : Reads (do let a ← r; finish; return a) t a [] :=
    h.bind (ends.bind (reads_pure a []))
  obtain ⟨m, hm⟩ := all 0
  rw [readAll, String.toList_ofList]
  exact congrArg (Except.map Prod.fst) hm

theorem readAll_strings (l : List String) :
    readAll texts (String.ofList (strings 0 l ++ ['\n'])) = .ok l :=
  readAll_eq_of_reads (reads_texts [] (List.forall_mem_nil _) 0 l ['\n']) (by simp [isBlank])

example : String.ofList (strings 0 ["\x01\"/", "ü\t"] ++ ['\n']) =
    "[\n  \"\\u0001\\\"/\",\n  \"ü\\t\"\n]\n" := by
  decide +kernel

theorem readAll_lists (l : List (String × List String)) :
    readAll textLists (String.ofList (lists 0 l ++ ['\n'])) = .ok l :=
  readAll_eq_of_reads (reads_textLists 0 l ['\n']) (by simp [isBlank])

end ContainerAliases.Json
