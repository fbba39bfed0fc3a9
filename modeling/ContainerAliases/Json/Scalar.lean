import ContainerAliases.Json.Reader

namespace ContainerAliases.Json

open Reader

/-- Integers are exact up to this one. -/
def wordLimit : Nat := 0x10000000000000000

def digitValue (c : Char) : Nat := c.toNat - '0'.toNat

def numberOf (digits : List Char) : Nat := digits.foldl (fun n c => n * 10 + digitValue c) 0

/-- The number `significand * 10 ^ exponent`; an integer has no point, no exponent and fits. -/
structure Parts where
  significand : Nat
  exponent : Int
  isInteger : Bool

/-- Appends digits as long as the number fits; the rest of the digits is returned. -/
def accumulate (significand : Nat) : List Char → Nat × List Char
  | [] => (significand, [])
  | c :: cs =>
    let n := significand * 10 + digitValue c
    if n < wordLimit then accumulate n cs else (significand, c :: cs)

/-- The digits of an exponent count up to this one. -/
def exponentLimit : Nat := 0x80000000

def exponent (p : Parts) : Reader Parts := do
  skip
  let negative ← match ← peek with
    | some '-' => skip; pure true
    | some '+' => skip; pure false
    | _ => pure false
  match ← peek with
  | none => failNext .endInValue
  | some c => if !c.isDigit then failNext .badNumber
  let start ← get
  let digits ← run Char.isDigit
  let e := numberOf digits
  if e < exponentLimit then
    return ⟨p.significand, p.exponent + (if negative then -(e : Int) else e), false⟩
  else if p.significand ≠ 0 && !negative then
    -- the fault is at the digit that is too many
    let fitting := (List.range digits.length).takeWhile fun n =>
      numberOf (digits.take (n + 1)) < exponentLimit
    throw ⟨.hugeNumber, start.offset + fitting.length + 1⟩
  else return ⟨0, 0, false⟩

def atExponent : Reader Bool := do
  let c ← peek
  return c == some 'e' || c == some 'E'

def fraction (p : Parts) : Reader Parts := do
  skip
  let digits ← run Char.isDigit
  if digits.isEmpty then
    match ← peek with
    | none => failNext .endInValue
    | some _ => failNext .badNumber
  let (significand, rest) := accumulate p.significand digits
  let p := ⟨significand, p.exponent - (digits.length - rest.length : Nat), false⟩
  if ← atExponent then exponent p else return p

def parts : Reader Parts := do
  match ← peek with
  | none => failNext .endInValue
  | some '0' =>
    skip
    if (← peek).any Char.isDigit then failNext .badNumber
    finish ⟨0, 0, true⟩
  | some c =>
    if !c.isDigit then failNext .badNumber
    let (significand, rest) := accumulate 0 (← run Char.isDigit)
    finish ⟨significand, rest.length, rest.isEmpty⟩
where
  finish (p : Parts) : Reader Parts := do
    if (← peek) == some '.' then fraction p
    else if ← atExponent then exponent p
    else return p

def powerLimit : Nat := 308

def tenTo (n : Nat) : Float := Float.ofScientific 1 false n

/-- Multiplies by a power of ten, or divides in steps; `none` where nothing finite is left. -/
def scaled (f : Float) (e : Int) : Option Float :=
  if e ≥ 0 then
    if e.toNat ≤ powerLimit then
      let g := f * tenTo e.toNat
      if g.isInf then none else some g
    else if f == 0 then some f else none
  else
    let n := e.natAbs
    if n ≤ powerLimit then some (f / tenTo n)
    else
      let g := f / tenTo powerLimit
      if n - powerLimit ≤ powerLimit then some (g / tenTo (n - powerLimit))
      else some (g / tenTo powerLimit)

def number (negative : Bool) : Reader Found := do
  let p ← parts
  if p.isInteger && !(negative && (p.significand = 0 || p.significand > wordLimit / 2)) then
    return .integer (if negative then -p.significand else p.significand)
  else match scaled p.significand.toFloat p.exponent with
    | some f => return .float (if negative then -f else f)
    | none => failHere .hugeNumber

def hexValue (c : Char) : Option Nat :=
  if c.isDigit then some (digitValue c)
  else if 'a' ≤ c && c ≤ 'f' then some (c.toNat - 'a'.toNat + 10)
  else if 'A' ≤ c && c ≤ 'F' then some (c.toNat - 'A'.toNat + 10)
  else none

def hexEscape : Reader Nat := do
  let s ← get
  if byteCount s.rest < 4 then throw ⟨.endInString, s.offset + byteCount s.rest⟩
  match (s.rest.take 4).mapM hexValue with
  | some [a, b, c, d] =>
    set (⟨s.rest.drop 4, s.offset + 4⟩ : Cursor)
    return ((a * 16 + b) * 16 + c) * 16 + d
  | _ => throw ⟨.badEscape, s.offset + 4⟩

def isLeading (n : Nat) : Bool := 0xd800 ≤ n && n ≤ 0xdbff
def isTrailing (n : Nat) : Bool := 0xdc00 ≤ n && n ≤ 0xdfff

/-- The second half of a pair has an escape of its own. -/
def secondHalf : List Char → Reader Unit
  | [] => return
  | c :: cs => do
    match ← peek with
    | none => failHere .endInString
    | some d => if c == d then skip; secondHalf cs else failNext .brokenSurrogate

def hexCharacter : Reader Char := do
  let n ← hexEscape
  if isTrailing n then failHere .loneSurrogate
  else if isLeading n then
    secondHalf ['\\', 'u']
    let m ← hexEscape
    if !isTrailing m then failHere .loneSurrogate
    return Char.ofNat ((n - 0xd800) * 0x400 + (m - 0xdc00) + 0x10000)
  else return Char.ofNat n

/-- The letter after a backslash and what it stands for. -/
def escapes : List (Char × Char) :=
  [('"', '"'), ('\\', '\\'), ('/', '/'), ('b', '\x08'), ('f', '\x0c'), ('n', '\n'), ('r', '\r'),
   ('t', '\t')]

/-- After a backslash; `hex` reads an escape with digits. -/
def escape {α : Type} (plain : Char → α) (hex : Reader α) : Reader α := do
  match ← peek with
  | none => failHere .endInString
  | some 'u' => skip; hex
  | some c =>
    match escapes.lookup c with
    | some d => skip; return plain d
    | none => failNext .badEscape

def isControl (c : Char) : Bool := c.toNat < 0x20

def isPlain (c : Char) : Bool := c != '"' && c != '\\' && !isControl c

/-- The rest of a string after its opening quote, at most so many escapes of it. -/
def stringRest {α : Type} (plain : Char → α) (hex : Reader α) (control : Reader Unit) :
    Nat → Reader (List α)
  | 0 => failHere .endInString
  | n + 1 => do
    let front := (← run isPlain).map plain
    match ← peek with
    | none => failHere .endInString
    | some '"' => skip; return front
    | some '\\' =>
      skip
      let c ← escape plain hex
      return front ++ c :: (← stringRest plain hex control n)
    | some _ => control; return front

def escapeLimit : Reader Nat := return (← get).rest.length + 1

def string : Reader String := do
  return String.ofList (← stringRest id hexCharacter (failNext .controlCharacter) (← escapeLimit))

/-- Passes over the rest of a string, in which surrogates need not be paired. -/
def skipString : Reader Unit := do
  let _ ← stringRest (fun _ => ()) (do let _ ← hexEscape) (failHere .controlCharacter)
    (← escapeLimit)

def found : Reader Found := do
  match ← peek with
  | some 'n' => skip; word "ull".toList; return .null
  | some 't' => skip; word "rue".toList; return .boolean true
  | some 'f' => skip; word "alse".toList; return .boolean false
  | some '-' => skip; number true
  | some '"' => skip; return .string (← string)
  | some '[' => return .sequence
  | some '{' => return .map
  | some c => if c.isDigit then number false else failNext .noValue
  | none => failNext .noValue

def failType {α : Type} (expected : String) : Reader α := do
  failHere (.wrongType (← found) expected)

end ContainerAliases.Json
