import ContainerAliases.Json.Fault

namespace ContainerAliases.Json

structure Cursor where
  rest : List Char
  /-- The bytes in front of `rest`. -/
  offset : Nat
  deriving DecidableEq, Repr

abbrev Reader := StateT Cursor (Except Fault)

namespace Reader

def failHere {α : Type} (p : Problem) : Reader α := do
  throw ⟨p, (← get).offset⟩

/-- A fault at the next byte, which is counted if there is one. -/
def failNext {α : Type} (p : Problem) : Reader α := do
  let c ← get
  throw ⟨p, if c.rest.isEmpty then c.offset else c.offset + 1⟩

def peek : Reader (Option Char) := return (← get).rest.head?

def take (c : Char) : Cursor → Cursor := fun s => ⟨s.rest.drop 1, s.offset + c.utf8Size⟩

def next : Reader (Option Char) := do
  match ← peek with
  | some c => modify (take c); return some c
  | none => return none

def skip : Reader Unit := do
  let _ ← next

def byteCount (cs : List Char) : Nat := cs.foldr (fun c n => c.utf8Size + n) 0

def run (p : Char → Bool) : Reader (List Char) := do
  let cs := (← get).rest.takeWhile p
  modify fun s => ⟨s.rest.drop cs.length, s.offset + byteCount cs⟩
  return cs

def isBlank (c : Char) : Bool := c == ' ' || c == '\n' || c == '\t' || c == '\r'

/-- The next character after blanks. -/
def glance : Reader (Option Char) := do
  let _ ← run isBlank
  peek

def word : List Char → Reader Unit
  | [] => return
  | c :: cs => do
    match ← peek with
    | none => failHere .endInValue
    | some d => if c == d then skip; word cs else failNext .noIdent

end Reader

end ContainerAliases.Json
