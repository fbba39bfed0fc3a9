import ContainerAliases.Source.Grammar.Members

namespace ContainerAliases.Source.Grammar

open Reader

mutual
/-- An array in the place of a target: a list of targets. -/
def asTarget : SyntaxTree → SyntaxTree
  | .node l cs =>
    if l.kind == .arrayCreation then .node { l with kind := .listLiteral } (asTargets cs)
    else .node l cs
/-- The elements of such an array are spread out into their parts. -/
def asTargets : List SyntaxTree → List SyntaxTree
  | [] => []
  | .node l cs :: ts =>
    if l.kind == .arrayElement then
      elementTargets (!cs.any fun c => c.kind == .token "=>") cs ++ asTargets ts
    else .node l cs :: asTargets ts
/-- The parts of an element; those after the arrow, if there is one, are targets. -/
def elementTargets (reached : Bool) : List SyntaxTree → List SyntaxTree
  | [] => []
  | t :: ts =>
    (if reached then asTarget t else t) :: elementTargets (reached || t.kind == .token "=>") ts
end

def Piece.asTarget (p : Piece) : Piece := { p with tree := Grammar.asTarget p.tree }

/-- Elements between an opening that is read and the mark `close`. -/
def elements (r : Rules) (close : String) : Reader (List Piece) := do
  let ps ← spaced close (element r)
  return ps ++ [← mark close]

def shortArray (r : Rules) : Reader Piece := do
  let o ← mark "["
  return .join .arrayCreation o (← elements r "]")

def longArray (r : Rules) : Reader Piece := do
  let w ← token
  let o ← mark "("
  return .join .arrayCreation w (o :: (← elements r ")"))

def listPattern (r : Rules) : Reader Piece := do
  let w ← token
  let o ← mark "("
  let p := Piece.join .arrayCreation w (o :: (← elements r ")"))
  return Piece.asTarget p

def closureUses (r : Rules) : Reader (List Piece) := do
  if ← atWord ["use"] then
    let w ← token
    let o ← mark "("
    let ps ← separated ")" do
      if ← atMark "&" then return [← byReference r]
      else return [← leaf .variableName]
    return [other "anonymous_function_use_clause" w (o :: ps ++ [← mark ")"])]
  else return []

/-- A closure after its attributes and `static`. -/
def closure (r : Rules) (front : List Piece) : Reader Piece := do
  let w ← word ["function", "fn"]
  let ref ← mark? "&"
  let ps ← parameters r
  if w.tree.text.length == 2 then
    let t ← returnType?
    let a ← mark "=>"
    let e ← r.value
    match front ++ [w] ++ ref ++ [ps] ++ t ++ [a, e] with
    | [] => failure
    | p :: ps => return other "arrow_function" p ps
  else
    let us ← closureUses r
    let t ← returnType?
    let b ← block r
    match front ++ [w] ++ ref ++ [ps] ++ us ++ t ++ [b] with
    | [] => failure
    | p :: ps => return other "anonymous_function" p ps

/-- A closure stands here, `static` left out. -/
def atClosure (t next : Token) : Bool :=
  t.isWord ["function"] || t.isWord ["fn"] && (next.isMark "(" || next.isMark "&")

def memberName (r : Rules) : Reader (List Piece) := do
  if ← atMark openBrace then
    let o ← token
    let e ← r.value
    return [o, e, ← mark closeBrace]
  else if ← atKind .variable then return [← leaf .variableName]
  else return [← identifier]

/-- A variable with a computed name: `$$a` or `${…}`. A blank after the `$` hides no name. -/
def dynamicVariable (r : Rules) : Reader Piece := do
  let d ← mark "$"
  if ← atKind .name then return .join .variableName d [← identifier]
  let more ← many do
    if ← atMark "$" then return some (← token) else return none
  let target ←
    if ← atKind .variable then pure [← leaf .variableName]
    else
      let o ← mark openBrace
      let e ← r.value
      pure [o, e, ← mark closeBrace]
  return other "dynamic_variable_name" d (more ++ target)

def newTarget (r : Rules) : Reader (List Piece) := do
  let attrs ← attributes r
  let mods ← modifiers
  if ← atWord ["class"] then
    let w ← token
    let args ← arguments? r
    let ext ← extendsClause
    let impl ← implementsClause
    let b ← body r
    return attrs ++ mods ++ [w] ++ args ++ ext ++ impl ++ b
  else
    let base ← match mods with
      | [] =>
        if ← atMark "(" then
          let o ← token
          let e ← r.value
          pure (other "parenthesized_expression" o [e, ← mark ")"])
        else if ← atKind .variable then leaf .variableName
        else if ← atMark "$" then dynamicVariable r
        else nameReference
      | [w] => pure w
      | _ => failure
    let path ← many do
      if (← atMark "->") || (← atMark "?->") || (← atMark "::") then
        let a ← token
        return some (a :: (← memberName r))
      else if ← atMark "[" then
        let o ← token
        let e ← r.value
        return some [o, e, ← mark "]"]
      else return none
    let target := match path.flatten with
      | [] => base
      | ps => other "member_access_expression" base ps
    return attrs ++ target :: (← arguments? r)

def yieldOperand (r : Rules) : Reader (List Piece) := do
  let t ← peek
  if (← atStatementEnd) || [")", "]", closeBrace, ","].any t.isMark then return []
  else if t.isWord ["from"] && !(← peekSecond).isMark "(" then
    let w ← token
    return [w, ← r.value]
  else
    let e ← r.value
    if ← atMark "=>" then
      let a ← token
      return [e, a, ← r.value]
    else return [e]

def arms (r : Rules) : Reader Piece := do
  let o ← mark openBrace
  let ps ← separated closeBrace do
    let conditions ←
      if (← atWord ["default"]) then
        let w ← token
        pure (w :: (← mark? ","))
      else separated "=>" (do return [← r.value])
    let a ← mark "=>"
    let e ← r.value
    return (Piece.join? (.other "match_conditional_expression") (conditions ++ [a, e])).toList
  return other "match_block" o (ps ++ [← mark closeBrace])

def prefixMarks : List String := ["!", "+", "-", "~", "@"]

def keywordExpression (r : Rules) (t next : Token) : Reader (Option Piece) := do
  if atClosure t next then return some (← closure r [])
  else if t.isWord ["static"] && (next.isWord ["function"] || next.isWord ["fn"]) then
    let w ← token
    return some (← closure r [w])
  else if t.isWord ["new"] then
    let w ← token
    return some (other "object_creation_expression" w (← newTarget r))
  else if t.isWord ["clone"] && !next.isMark "(" then
    let w ← token
    return some (other "clone_expression" w [← r.expression Strength.operand])
  else if t.isWord ["print", "include", "include_once", "require", "require_once", "throw"] then
    let w ← token
    return some (other (t.text ++ "_expression") w [← r.value])
  else if t.isWord ["yield"] then
    let w ← token
    return some (other "yield_expression" w (← yieldOperand r))
  else if t.isWord ["match"] && next.isMark "(" then
    let w ← token
    let o ← token
    let e ← r.value
    let c ← mark ")"
    let condition := other "parenthesized_expression" o [e, c]
    return some (other "match_expression" w [condition, ← arms r])
  else return none

/-- An expression without operators around it. -/
def primary (r : Rules) : Reader Piece := do
  let t ← peek
  let next ← peekSecond
  match t.kind with
  | .variable => leaf .variableName
  | .number => leaf (.other "number")
  | .string => leaf .string
  | .nowdoc => leaf (.other "nowdoc")
  | .quoteOpen =>
    let o ← token
    return .join .encapsedString o (← template r .quoteClose)
  | .backtickOpen =>
    let o ← token
    return other "shell_command_expression" o (← template r .backtickClose)
  | .heredocOpen =>
    let o ← token
    return other "heredoc" o (← template r .heredocClose)
  | .name =>
    if t.isWord ["array"] && next.isMark "(" then longArray r
    else if t.isWord ["list"] && next.isMark "(" then listPattern r
    else match ← keywordExpression r t next with
      | some p => return p
      | none => if t.isWord ["array", "list", "fn", "match"] then failure else nameReference
  | .mark =>
    if t.text == "[" then shortArray r
    else if t.text == "(" then
      let o ← token
      let e ← r.value
      return other "parenthesized_expression" o [e, ← mark ")"]
    else if t.text == "\\" then nameReference
    else if t.text == "$" then dynamicVariable r
    else if t.text == "#[" then
      let attrs ← attributes r
      let s ← word? ["static"]
      closure r (attrs ++ s)
    else failure
  | _ => failure

/-- What may follow an expression without an operator between: subscripts, members, calls. -/
def suffixes (r : Rules) : Nat → Piece → Reader Piece
  | 0, p => return p
  | n + 1, p => do
    if (← peek).broken then return p
    else if ← atMark "[" then
      let o ← token
      let e ← if ← atMark "]" then pure [] else pure [← r.value]
      suffixes r n (other "subscript_expression" p (o :: e ++ [← mark "]"]))
    else if (← atMark "->") || (← atMark "?->") then
      let a ← token
      let m ← memberName r
      suffixes r n (other "member_access_expression" p (a :: m))
    else if ← atMark "::" then
      let c ← token
      let m ← if ← atMark "$" then pure [← dynamicVariable r] else memberName r
      suffixes r n (other "scoped_property_access_expression" p (c :: m))
    else if ← atMark "(" then
      suffixes r n (other "call_expression" p [← arguments r])
    else if (← atMark "++") || (← atMark "--") then
      return other "update_expression" p [← token]
    else return p

def assignmentMarks : List String :=
  ["+=", "-=", "*=", "/=", ".=", "%=", "&=", "|=", "^=", "<<=", ">>=", "**=", "??="]

def isAssignable (p : Piece) : Bool :=
  [.variableName, .listLiteral, .arrayCreation, .other "dynamic_variable_name",
   .other "subscript_expression", .other "member_access_expression",
   .other "scoped_property_access_expression", .other "call_expression"].contains p.kind

def assignmentTail (r : Rules) (p : Piece) : Reader Piece := do
  if !isAssignable p || (← peek).broken then return p
  else if ← atMark "=" then
    let e ← token
    let left := (Piece.asTarget p).playing .left
    if ← atMark "&" then
      let a ← token
      let v ← r.expression Strength.assignment
      return .join .referenceAssignment left [e, a, v.playing .right]
    else
      let v ← r.expression Strength.assignment
      return .join .assignment left [e, v.playing .right]
  else if p.kind == .arrayCreation || p.kind == .listLiteral then return p
  else if assignmentMarks.any (← peek).isMark then
    let o ← token
    let v ← r.expression Strength.assignment
    return other "augmented_assignment_expression" (p.playing .left) [o, v.playing .right]
  else return p

/-- An expression up to its first binary operator. -/
def operand (r : Rules) : Reader Piece := do
  let t ← peek
  if prefixMarks.any t.isMark then
    let o ← token
    return other "unary_op_expression" o [← r.expression Strength.sign]
  else if t.isMark "++" || t.isMark "--" then
    let o ← token
    return other "update_expression" o [← r.expression Strength.operand]
  else if t.kind == .cast then
    let c ← token
    return other "cast_expression" c [← r.expression Strength.sign]
  else
    let p ← primary r
    let p ← suffixes r (← get).tokens.length p
    assignmentTail r p

/-- How tightly a binary operator binds, and how tightly what stands to its right must. -/
def binaryStrength (t : Token) : Option (Strength × Strength) :=
  if t.kind == .name then
    match t.text.map Char.toLower with
    | "or" => some (1, 2)
    | "xor" => some (2, 3)
    | "and" => some (3, 4)
    | "instanceof" => some (Strength.instanceOf, Strength.operand)
    | _ => none
  else if t.kind == .mark then
    match t.text with
    | "??" => some (Strength.coalesce, Strength.coalesce)
    | "||" => some (7, 8)
    | "&&" => some (8, 9)
    | "|" => some (9, 10)
    | "^" => some (10, 11)
    | "&" => some (11, 12)
    | "==" | "!=" | "===" | "!==" | "<>" | "<=>" => some (12, 13)
    | "<" | ">" | "<=" | ">=" => some (13, 14)
    | "." | "|>" => some (14, 15)
    | "<<" | ">>" => some (15, 16)
    | "+" | "-" => some (16, 17)
    | "*" | "/" | "%" => some (17, 18)
    | "**" => some (Strength.power, Strength.power)
    | _ => none
  else none

/-- Adds to `left` the operators that bind at least as tightly as `least`. -/
def climb (r : Rules) (least : Strength) : Nat → Piece → Reader Piece
  | 0, left => return left
  | n + 1, left => do
    let t ← peek
    if t.broken then return left
    else if t.isMark "?" && least ≤ Strength.ternary then
      let q ← token
      let yes ← if ← atMark ":" then pure [] else pure [← r.value]
      let c ← mark ":"
      let no ← r.expression (Strength.ternary + 1)
      climb r least n (other "conditional_expression" left (q :: yes ++ [c, no]))
    else match binaryStrength t with
      | some (s, right) =>
        if least ≤ s then
          let o ← token
          climb r least n (other "binary_expression" left [o, ← r.expression right])
        else return left
      | none => return left

def expression (r : Rules) (least : Strength) : Reader Piece := do
  climb r least (← get).tokens.length (← operand r)

end ContainerAliases.Source.Grammar
