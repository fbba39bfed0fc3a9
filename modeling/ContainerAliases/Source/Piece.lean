import ContainerAliases.Source.Token

/-!
Pieces of a tree under construction, and the reading of tokens in order. A piece keeps what stands
before its first token until it has a neighbour: comments between two tokens belong to the
innermost node around both.
-/

namespace ContainerAliases.Source

/-- A finished tree and what stands between it and the token before. -/
structure Piece where
  lead : String
  trivia : List SyntaxTree
  tree : SyntaxTree
  deriving Inhabited

namespace Piece

def ofToken (t : Token) (k : Kind) : Piece :=
  ⟨t.lead, t.trivia, .node ⟨k, none, t.text, t.start, t.line⟩ []⟩

def kind (p : Piece) : Kind := p.tree.kind

def playing (p : Piece) (r : Role) : Piece :=
  match p.tree with
  | .node l cs => { p with tree := .node { l with role := some r } cs }

def join (k : Kind) (first : Piece) (rest : List Piece) : Piece :=
  let l := first.tree.label
  { lead := first.lead
    trivia := first.trivia
    tree := .node
      { kind := k, role := none, start := l.start, line := l.line
        text := l.text ++ String.join (rest.map fun p => p.lead ++ p.tree.text) }
      (first.tree :: rest.flatMap fun p => p.trivia ++ [p.tree]) }

def join? (k : Kind) : List Piece → Option Piece
  | [] => none
  | p :: ps => some (join k p ps)

end Piece

/-- The tokens ahead, and whether something could not be read. -/
structure Ahead where
  tokens : List Token
  faulty : Bool

/-- Reading fails without a trace, or moves on. -/
abbrev Reader := StateT Ahead Option

namespace Reader

def peek : Reader Token := do return (← get).tokens.headD default

def peekSecond : Reader Token := do return ((← get).tokens.drop 1).headD default

def peekThird : Reader Token := do return ((← get).tokens.drop 2).headD default

def atEnd : Reader Bool := do return (← peek).kind == .finish

def fault : Reader Unit := modify fun s => { s with faulty := true }

/-- Takes the next token as a leaf of kind `k`; the end of the file cannot be taken. -/
def leaf (k : Kind) : Reader Piece := do
  let s ← get
  match s.tokens with
  | t :: ts =>
    if t.kind == .finish then failure
    else
      set { s with tokens := ts }
      return .ofToken t k
  | [] => failure

def token : Reader Piece := do leaf (.token (← peek).text)

def atMark (s : String) : Reader Bool := do return (← peek).isMark s

def atWord (ss : List String) : Reader Bool := do return (← peek).isWord ss

def atKind (k : LexemeKind) : Reader Bool := do return (← peek).kind == k

def mark (s : String) : Reader Piece := do
  if ← atMark s then token else failure

def word (ss : List String) : Reader Piece := do
  if ← atWord ss then token else failure

def mark? (s : String) : Reader (List Piece) := do
  if ← atMark s then return [← token] else return []

def word? (ss : List String) : Reader (List Piece) := do
  if ← atWord ss then return [← token] else return []

/-- Runs `r` and goes back if it fails. -/
def attempt {α : Type} (r : Reader α) : Reader (Option α) := fun s =>
  match r s with
  | some (a, s') => some (some a, s')
  | none => some (none, s)

/-- Repeats `r` until it answers `none`, at most once for each token ahead. -/
def many {α : Type} (r : Reader (Option α)) : Reader (List α) := do
  go r ((← get).tokens.length + 1)
where
  go (r : Reader (Option α)) : Nat → Reader (List α)
    | 0 => return []
    | n + 1 => do
      match ← r with
      | none => return []
      | some a => return a :: (← go r n)

/-- Pieces read by `item` with commas between them; the list ends before the mark `stop`, and a
comma may stand last. -/
def separated (stop : String) (item : Reader (List Piece)) : Reader (List Piece) := do
  let parts ← many do
    let t ← peek
    if t.kind == .finish || t.isMark stop then return none
    else
      let ps ← item
      let next ← peek
      if next.isMark "," then return some (ps ++ [← token])
      else if next.isMark stop then return some ps
      else failure
  return parts.flatten

/-- The same with pieces that may be left out. -/
def spaced (stop : String) (item : Reader (List Piece)) : Reader (List Piece) := do
  let parts ← many do
    let t ← peek
    if t.kind == .finish || t.isMark stop then return none
    else if t.isMark "," then return some [← token]
    else
      let ps ← item
      let next ← peek
      if next.isMark "," || next.isMark stop then return some ps else failure
  return parts.flatten

/-- Pieces read by `item`, one at least, with `sep` between them. -/
def listed (sep : String) (item : Reader (List Piece)) : Reader (List Piece) := do
  let first ← item
  let rest ← many do
    if ← atMark sep then
      let s ← token
      return some (s :: (← item))
    else return none
  return first ++ rest.flatten

end Reader

end ContainerAliases.Source
