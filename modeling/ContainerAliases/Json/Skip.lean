import ContainerAliases.Json.Scalar

namespace ContainerAliases.Json

open Reader

def skipExponent : Reader Unit := do
  skip
  let c ← peek
  if c == some '+' || c == some '-' then skip
  if (← run Char.isDigit).isEmpty then failNext .badNumber

def skipNumber : Reader Unit := do
  match ← peek with
  | some '0' =>
    skip
    if (← peek).any Char.isDigit then failNext .badNumber
  | _ => if (← run Char.isDigit).isEmpty then failNext .badNumber
  if (← peek) == some '.' then
    skip
    if (← run Char.isDigit).isEmpty then failNext .badNumber
  if ← atExponent then skipExponent

def skipItems (value : Reader Unit) : Nat → Reader Unit
  | 0 => failNext .endInList
  | n + 1 => do
    value
    match ← glance with
    | none => failNext .endInList
    | some ',' => skip; skipItems value n
    | some ']' => skip
    | some _ => failNext .noListSeparator

def skipKey : Reader Unit := do
  match ← glance with
  | none => failNext .endInObject
  | some '"' => skip; skipString
  | some _ => failNext .keyNotString
  match ← glance with
  | none => failNext .endInObject
  | some ':' => skip
  | some _ => failNext .noColon

def skipMembers (value : Reader Unit) : Nat → Reader Unit
  | 0 => failNext .endInObject
  | n + 1 => do
    skipKey
    value
    match ← glance with
    | none => failNext .endInObject
    | some ',' => skip; skipMembers value n
    | some '}' => skip
    | some _ => failNext .noObjectSeparator

/-- A value nested at most so deep, with at most so many parts in each. -/
def skipNested : Nat → Reader Unit
  | 0 => failNext .endInValue
  | n + 1 => do
    match ← glance with
    | none => failNext .endInValue
    | some 'n' => skip; word "ull".toList
    | some 't' => skip; word "rue".toList
    | some 'f' => skip; word "alse".toList
    | some '-' => skip; skipNumber
    | some '"' => skip; skipString
    | some '[' =>
      skip
      match ← glance with
      | none => failNext .endInList
      | some ']' => skip
      | some _ => skipItems (skipNested n) n
    | some '{' =>
      skip
      match ← glance with
      | none => failNext .endInObject
      | some '}' => skip
      | some _ => skipMembers (skipNested n) n
    | some c => if c.isDigit then skipNumber else failNext .noValue

/-- The rest of the text limits both depth and number. -/
def skipValue : Reader Unit := do skipNested ((← get).rest.length + 1)

end ContainerAliases.Json
