namespace ContainerAliases.Glob

structure Span where
  first : Char
  last : Char
  deriving DecidableEq, Repr

def Span.contains (s : Span) (c : Char) : Bool := s.first ≤ c && c ≤ s.last

inductive Token where
  | char (c : Char)
  | anyChar
  | anySequence
  /-- `**`: directories to any depth. -/
  | directories
  | within (spans : List Span)
  | except (spans : List Span)
  deriving DecidableEq, Repr

def Token.char? : Token → Option Char
  | .char c => some c
  | _ => none

inductive Problem where
  | wildcards
  | component
  | range
  deriving DecidableEq, Repr

/-- What is wrong with a pattern, and at which character. -/
structure Fault where
  position : Nat
  problem : Problem
  deriving DecidableEq, Repr

def Problem.message : Problem → String
  | wildcards => "wildcards are either regular `*` or recursive `**`"
  | component => "recursive wildcards must form a single path component"
  | range => "invalid range pattern"

def Fault.message (f : Fault) : String :=
  s!"Pattern syntax error near position {f.position}: {f.problem.message}"

def spans : List Char → List Span
  | a :: '-' :: b :: cs => ⟨a, b⟩ :: spans cs
  | c :: cs => ⟨c, c⟩ :: spans cs
  | [] => []

/-- What stands in a bracket and what follows it; a bracket at once in front is no closing one. -/
def bracket? : List Char → Option (List Char × List Char)
  | [] => none
  | c :: cs =>
    match cs.dropWhile (· != ']') with
    | _ :: rest => some (c :: cs.takeWhile (· != ']'), rest)
    | [] => none

theorem length_bracket?_lt {cs inner rest : List Char} (h : bracket? cs = some (inner, rest)) :
    rest.length < cs.length := by
  cases cs with
  | nil => simp [bracket?] at h
  | cons c cs =>
    rw [bracket?] at h
    split at h
    · next b r he =>
      cases h
      have hs := (List.dropWhile_suffix (· != ']') (l := cs)).length_le
      rw [he] at hs
      simp only [List.length_cons] at hs ⊢
      omega
    · simp at h

abbrev Pattern := List Token

/-- Reads a pattern from the character at `position` on, which stands after `before`. -/
def tokens (position : Nat) (before : Option Char) : List Char → Except Fault Pattern
  | [] => .ok []
  | '?' :: cs => return .anyChar :: (← tokens (position + 1) (some '?') cs)
  | '*' :: '*' :: '*' :: _ => .error ⟨position + 2, .wildcards⟩
  | '*' :: '*' :: cs =>
    if before.all (· == '/') then
      match cs with
      | [] => .ok [.directories]
      | '/' :: rest => return .directories :: (← tokens (position + 3) (some '/') rest)
      | _ => .error ⟨position + 2, .component⟩
    else .error ⟨position - 1, .component⟩
  | '*' :: cs => return .anySequence :: (← tokens (position + 1) (some '*') cs)
  | '[' :: '!' :: cs =>
    match _h : bracket? cs with
    | some (inner, rest) =>
      return .except (spans inner) :: (← tokens (position + inner.length + 3) (some ']') rest)
    | none => .error ⟨position, .range⟩
  | '[' :: cs =>
    match _h : bracket? cs with
    | some (inner, rest) =>
      return .within (spans inner) :: (← tokens (position + inner.length + 2) (some ']') rest)
    | none => .error ⟨position, .range⟩
  | c :: cs => return .char c :: (← tokens (position + 1) (some c) cs)
termination_by cs => cs.length
decreasing_by
  all_goals simp_wf
  all_goals first
    | omega
    | have := length_bracket?_lt _h; omega

namespace Pattern

def ofText (text : String) : Except Fault Pattern := tokens 0 none text.toList

def literal? (p : Pattern) : Option String :=
  (p.mapM Token.char?).map String.ofList

def isRecursive (p : Pattern) : Bool := p.contains .directories

end Pattern

def Token.accepts (c : Char) : Token → Bool
  | .char d => c == d
  | .within s => s.any (·.contains c)
  | .except s => !s.any (·.contains c)
  | _ => true

def Token.isSequence (t : Token) : Bool := t == .anySequence || t == .directories

/-- `p` holds of the list or of what is left of it further on. -/
def anyTail (p : List Char → Bool) : List Char → Bool
  | [] => p []
  | c :: cs => p (c :: cs) || anyTail p cs

def Pattern.covers : Pattern → List Char → Bool
  | [], cs => cs.isEmpty
  | t :: ts, cs =>
    if t.isSequence then anyTail (covers ts) cs
    else match cs with
      | [] => false
      | c :: rest => t.accepts c && covers ts rest

end ContainerAliases.Glob
