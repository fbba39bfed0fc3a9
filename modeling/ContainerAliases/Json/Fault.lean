import ContainerAliases.Json.Number
import ContainerAliases.Text

namespace ContainerAliases.Json

/-- A value of the wrong type, as far as it is described. -/
inductive Found where
  | null
  | boolean (b : Bool)
  | integer (n : Int)
  | float (f : Float)
  | string (s : String)
  | sequence
  | map

def Found.message : Found → String
  | null => "null"
  | boolean b => s!"boolean `{b}`"
  | integer n => s!"integer `{n}`"
  | float f => s!"floating point `{floatText f}`"
  | string s => "string " ++ Text.quoted s
  | sequence => "sequence"
  | map => "map"

inductive Problem where
  | endInList
  | endInObject
  | endInString
  | endInValue
  | noColon
  | noListSeparator
  | noObjectSeparator
  | noIdent
  | noValue
  | badEscape
  | badNumber
  | hugeNumber
  | controlCharacter
  | keyNotString
  | loneSurrogate
  | brokenSurrogate
  | trailingComma
  | trailingCharacters
  | wrongType (found : Found) (expected : String)
  | duplicateField (name : String)
  | tooLong (length : Nat)

def Problem.message : Problem → String
  | endInList => "EOF while parsing a list"
  | endInObject => "EOF while parsing an object"
  | endInString => "EOF while parsing a string"
  | endInValue => "EOF while parsing a value"
  | noColon => "expected `:`"
  | noListSeparator => "expected `,` or `]`"
  | noObjectSeparator => "expected `,` or `\x7d`"
  | noIdent => "expected ident"
  | noValue => "expected value"
  | badEscape => "invalid escape"
  | badNumber => "invalid number"
  | hugeNumber => "number out of range"
  | controlCharacter => "control character (\\u0000-\\u001F) found while parsing a string"
  | keyNotString => "key must be a string"
  | loneSurrogate => "lone leading surrogate in hex escape"
  | brokenSurrogate => "unexpected end of hex escape"
  | trailingComma => "trailing comma"
  | trailingCharacters => "trailing characters"
  | wrongType found expected => s!"invalid type: {found.message}, expected {expected}"
  | duplicateField name => s!"duplicate field `{name}`"
  | tooLong n => s!"invalid length {n}, expected fewer elements in array"

/-- A problem behind the given number of bytes. -/
structure Fault where
  problem : Problem
  offset : Nat

/-- The lines that end before the byte `offset` of the text, and the bytes since the last of
them. -/
def place (offset : Nat) : List Char → Nat × Nat
  | [] => (0, offset)
  | c :: cs =>
    if offset = 0 then (0, 0)
    else
      let (lines, bytes) := place (offset - c.utf8Size) cs
      if c == '\n' then (lines + 1, bytes)
      else (lines, if lines = 0 then bytes + min offset c.utf8Size else bytes)

/-- Lines count from one, columns in bytes. -/
def Fault.message (f : Fault) (source : String) : String :=
  let (lines, bytes) := place f.offset source.toList
  s!"{f.problem.message} at line {lines + 1} column {bytes}"

end ContainerAliases.Json
