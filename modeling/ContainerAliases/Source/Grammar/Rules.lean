import ContainerAliases.Source.Piece

namespace ContainerAliases.Source.Grammar

open Reader

structure Rules where
  /-- An expression whose operators bind at least as tightly as the given strength. -/
  expression : Nat → Reader Piece
  statement : Reader Piece

def Rules.none : Rules := ⟨fun _ => failure, failure⟩

abbrev Strength := Nat

namespace Strength

def loosest : Strength := 0
def assignment : Strength := 4
def ternary : Strength := 5
def coalesce : Strength := 6
def power : Strength := 18
def sign : Strength := 19
def instanceOf : Strength := 20
def operand : Strength := 21

end Strength

def Rules.value (r : Rules) : Reader Piece := r.expression Strength.loosest

/-- A kind of node that decides nothing here. -/
def other (name : String) (first : Piece) (rest : List Piece) : Piece :=
  .join (.other name) first rest

def identifier : Reader Piece := do
  if ← atKind .name then leaf .name else failure

/-- The rest of a name: a backslash and a word, again and again. -/
def nameTail : Reader (List Piece) := do
  let parts ← many do
    if (← atMark "\\") && (← peekSecond).kind == .name then
      let s ← token
      return some [s, ← identifier]
    else return none
  return parts.flatten

/-- A name of a class, function or constant: bare, qualified, or relative to the namespace. -/
def nameReference : Reader Piece := do
  if ← atMark "\\" then
    let s ← token
    let n ← identifier
    return .join .qualifiedName s (n :: (← nameTail))
  else if (← atWord ["namespace"]) && (← peekSecond).isMark "\\" then
    let w ← token
    return .join .relativeName w (← nameTail)
  else
    let n ← identifier
    match ← nameTail with
    | [] => return n
    | ps => return .join .qualifiedName n ps

def namespaceName : Reader Piece := do
  let n ← identifier
  return .join .namespaceName n (← nameTail)

/-- An ampersand here is part of a type, not the mark of a reference. -/
def atTypeAnd : Reader Bool := do
  let next ← peekSecond
  return (← atMark "&") && next.kind != .variable && !next.isMark "..." && !next.isMark "&"

/-- The parts of a type from here on, with `depth` parentheses open. -/
def typeParts : Nat → Nat → Reader (List Piece)
  | 0, _ => failure
  | n + 1, depth => do
    if ← atMark "?" then
      let p ← token
      return p :: (← typeParts n depth)
    else if ← atMark "(" then
      let p ← token
      return p :: (← typeParts n (depth + 1))
    else
      let p ← nameReference
      return p :: (← typeEnd n depth)
where
  typeEnd : Nat → Nat → Reader (List Piece)
    | 0, _ => return []
    | n + 1, depth => do
      if (← atMark "|") || (← atTypeAnd) then
        let p ← token
        return p :: (← typeParts n depth)
      else if depth > 0 && (← atMark ")") then
        let p ← token
        return p :: (← typeEnd n (depth - 1))
      else return []

def type : Reader Piece := do
  match ← typeParts ((← get).tokens.length) 0 with
  | [] => failure
  | p :: ps => return other "type" p ps

def type? : Reader (List Piece) := do
  let t ← peek
  if t.kind == .name || t.isMark "?" || t.isMark "(" || t.isMark "\\" then
    return [← type]
  else return []

def returnType? : Reader (List Piece) := do
  if ← atMark ":" then
    let c ← token
    return [c, ← type]
  else return []

/-- The end of a statement: a semicolon or a closing tag. At the end of the file it is missed. -/
def semicolon : Reader (List Piece) := do
  let t ← peek
  if t.broken then return []
  else if t.isMark ";" then return [← token]
  else if t.kind == .finish then
    fault
    return []
  else failure

def atStatementEnd : Reader Bool := do
  let t ← peek
  return t.broken || t.kind == .finish || t.isMark ";"

def closingBrace : Reader (List Piece) := do
  if ← atEnd then
    fault
    return []
  else return [← mark closeBrace]

def stray : Reader Piece := do
  fault
  leaf (.other "ERROR")

/-- Statements up to a token that satisfies `stop`; what cannot be read is passed over one token at
a time. -/
def statements (r : Rules) (stop : Token → Bool) : Reader (List Piece) :=
  many do
    let t ← peek
    if t.kind == .finish || stop t then return none
    else match ← attempt r.statement with
      | some p => return some p
      | none => return some (← stray)

def block (r : Rules) : Reader Piece := do
  let o ← mark openBrace
  let ps ← statements r (·.isMark closeBrace)
  return other "compound_statement" o (ps ++ (← closingBrace))

end ContainerAliases.Source.Grammar
