import ContainerAliases.Json.Skip

namespace ContainerAliases.Json

open Reader

/-- A comma in front of the element is taken. -/
def hasElement (first : Bool) : Reader Bool := do
  match ← glance with
  | none => failNext .endInList
  | some ']' => return false
  | some c =>
    if first then return true
    else if c == ',' then
      skip
      match ← glance with
      | none => failNext .endInValue
      | some ']' => failNext .trailingComma
      | some _ => return true
    else failNext .noListSeparator

/-- The end of a list after the last element that was asked for. -/
def endList : Reader Unit := do
  match ← glance with
  | none => failNext .endInList
  | some ']' => skip
  | some ',' =>
    skip
    if (← glance) == some ']' then failNext .trailingComma else failNext .trailingCharacters
  | some _ => failNext .trailingCharacters

def hasMember (first : Bool) : Reader Bool := do
  match ← glance with
  | none => failNext .endInObject
  | some '}' => return false
  | some c =>
    if first then
      if c == '"' then return true else failNext .keyNotString
    else if c == ',' then
      skip
      match ← glance with
      | none => failNext .endInValue
      | some '"' => return true
      | some '}' => failNext .trailingComma
      | some _ => failNext .keyNotString
    else failNext .noObjectSeparator

def colon : Reader Unit := do
  match ← glance with
  | none => failNext .endInObject
  | some ':' => skip
  | some _ => failNext .noColon

def text : Reader String := do
  match ← glance with
  | none => failNext .endInValue
  | some '"' => skip; string
  | some _ => failType "a string"

/-- The strings of a list up to its end, at most so many. -/
def textsFrom (first : Bool) : Nat → Reader (List String)
  | 0 => return []
  | n + 1 => do
    if ← hasElement first then
      let s ← text
      return s :: (← textsFrom false n)
    else return []

def texts : Reader (List String) := do
  match ← glance with
  | none => failNext .endInValue
  | some '[' =>
    skip
    let l ← textsFrom true ((← get).rest.length + 1)
    endList
    return l
  | some _ => failType "a sequence"

def finish : Reader Unit := do
  if (← glance).isSome then failNext .trailingCharacters

end ContainerAliases.Json
