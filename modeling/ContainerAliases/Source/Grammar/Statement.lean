import ContainerAliases.Source.Grammar.Expression

namespace ContainerAliases.Source.Grammar

open Reader

/-- A node over `ps`, of which there has to be one. -/
def built (k : Kind) (ps : List Piece) : Reader Piece :=
  match ps with
  | [] => failure
  | p :: ps => return .join k p ps

def builtOther (name : String) (ps : List Piece) : Reader Piece := built (.other name) ps

def condition (r : Rules) : Reader Piece := do
  let o ← mark "("
  let e ← r.value
  return other "parenthesized_expression" o [e, ← mark ")"]

def expressionList (r : Rules) : Reader (List Piece) := listed "," (do return [← r.value])

def branch (r : Rules) (ends : List String) : Reader (Bool × List Piece) := do
  if ← atMark ":" then
    let c ← token
    return (true, c :: (← statements r (·.isWord ends)))
  else return (false, [← r.statement])

def closedBranch (r : Rules) (last : String) : Reader (List Piece) := do
  let (alternative, ps) ← branch r [last]
  if alternative then
    let w ← word [last]
    return ps ++ w :: (← semicolon)
  else return ps

def ifStatement (r : Rules) : Reader Piece := do
  let w ← token
  let c ← condition r
  let ends := ["elseif", "else", "endif"]
  let (alternative, ps) ← branch r ends
  let more ← many do
    if ← atWord ["elseif"] then
      let w ← token
      let c ← condition r
      let (_, ps) ← branch r ends
      return some (other "else_if_clause" w (c :: ps))
    else return none
  let last ←
    if ← atWord ["else"] then
      let w ← token
      let (_, ps) ← branch r ["endif"]
      pure [other "else_clause" w ps]
    else pure []
  let tail ←
    if alternative then
      let w ← word ["endif"]
      pure (w :: (← semicolon))
    else pure []
  return other "if_statement" w (c :: ps ++ more ++ last ++ tail)

def whileStatement (r : Rules) : Reader Piece := do
  let w ← token
  let c ← condition r
  return other "while_statement" w (c :: (← closedBranch r "endwhile"))

def doStatement (r : Rules) : Reader Piece := do
  let d ← token
  let s ← r.statement
  let w ← word ["while"]
  let c ← condition r
  return other "do_statement" d ([s, w, c] ++ (← semicolon))

def forStatement (r : Rules) : Reader Piece := do
  let w ← token
  let o ← mark "("
  let part := fun close => do
    let ps ← if ← atMark close then pure [] else expressionList r
    return ps ++ [← mark close]
  let a ← part ";"
  let b ← part ";"
  let c ← part ")"
  return other "for_statement" w (o :: a ++ b ++ c ++ (← closedBranch r "endfor"))

/-- A target of `foreach`; an array there is a list of targets. -/
def foreachTarget (r : Rules) : Reader Piece := do
  if ← atMark "&" then byReference r
  else
    let p ← r.value
    return Piece.asTarget p

def foreachStatement (r : Rules) : Reader Piece := do
  let w ← token
  let o ← mark "("
  let e ← r.value
  let a ← word ["as"]
  let reference ← atMark "&"
  let first ← if reference then byReference r else r.value
  let targets ←
    if ← atMark "=>" then
      let arrow ← token
      pure [other "pair" first [arrow, ← foreachTarget r]]
    else pure [if reference then first else Piece.asTarget first]
  let c ← mark ")"
  return other "foreach_statement" w
    ([o, e, a] ++ targets ++ c :: (← closedBranch r "endforeach"))

def switchCase (r : Rules) : Reader Piece := do
  let w ← word ["case", "default"]
  let e ← if w.tree.text.length == 4 then pure [← r.value] else pure []
  let c ← if ← atMark ";" then token else mark ":"
  let ps ← statements r fun t => t.isMark closeBrace || t.isWord ["case", "default", "endswitch"]
  return other "case_statement" w (e ++ c :: ps)

def switchStatement (r : Rules) : Reader Piece := do
  let w ← token
  let c ← condition r
  let cases := many do
    if ← atMark ";" then return some (← token)
    else if ← atWord ["case", "default"] then return some (← switchCase r)
    else return none
  if ← atMark ":" then
    let o ← token
    let ps ← cases
    let e ← word ["endswitch"]
    let s ← semicolon
    return other "switch_statement" w [c, other "switch_block" o (ps ++ e :: s)]
  else
    let o ← mark openBrace
    let ps ← cases
    return other "switch_statement" w [c, other "switch_block" o (ps ++ (← closingBrace))]

def tryStatement (r : Rules) : Reader Piece := do
  let w ← token
  let b ← block r
  let clauses ← many do
    if ← atWord ["catch"] then
      let w ← token
      let o ← mark "("
      let t ← type
      let v ← if ← atKind .variable then pure [← leaf .variableName] else pure []
      let c ← mark ")"
      return some (other "catch_clause" w ([o, t] ++ v ++ [c, ← block r]))
    else if ← atWord ["finally"] then
      let w ← token
      return some (other "finally_clause" w [← block r])
    else return none
  if clauses.isEmpty then failure
  return other "try_statement" w (b :: clauses)

def declareStatement (r : Rules) : Reader Piece := do
  let w ← token
  let o ← mark "("
  let ps ← separated ")" do
    let n ← identifier
    let e ← mark "="
    return [other "declare_directive" n [e, ← r.value]]
  let c ← mark ")"
  let rest ←
    if ← atStatementEnd then semicolon else closedBranch r "enddeclare"
  return other "declare_statement" w (o :: ps ++ c :: rest)

/-- A keyword followed by at most one expression. -/
def jump (r : Rules) (name : String) : Reader Piece := do
  let w ← token
  let e ← if ← atStatementEnd then pure [] else pure [← r.value]
  return other name w (e ++ (← semicolon))

def listStatement (r : Rules) (name : String) : Reader Piece := do
  let w ← token
  let ps ← expressionList r
  return other name w (ps ++ (← semicolon))

def staticStatement (r : Rules) : Reader Piece := do
  let w ← token
  let ps ← listed "," do
    if !(← atKind .variable) then failure
    let v := (← leaf .variableName).playing .name
    if ← atMark "=" then
      let e ← token
      let x ← r.value
      return [.join .staticVariable v [e, x.playing .value]]
    else return [.join .staticVariable v []]
  return other "function_static_declaration" w (ps ++ (← semicolon))

def gotoStatement : Reader Piece := do
  let w ← token
  let n ← identifier
  return other "goto_statement" w (n :: (← semicolon))

def namespaceStatement (r : Rules) : Reader Piece := do
  let w ← token
  let n ← if ← atKind .name then pure [(← namespaceName).playing .name] else pure []
  if ← atMark openBrace then
    let b ← block r
    return .join .namespaceDefinition w (n ++ [b.playing .body])
  else
    if n.isEmpty then failure
    return .join .namespaceDefinition w (n ++ (← semicolon))

def importAlias : Reader (List Piece) := do
  if ← atWord ["as"] then
    let w ← token
    return [w, (← identifier).playing .shortName]
  else return []

def importClause (grouped : Bool) : Reader Piece := do
  let next ← peekSecond
  let t ←
    if grouped && (← atWord ["function", "const"]) && next.kind == .name &&
        !next.isWord ["as"] then
      pure [← token]
    else pure []
  let n ← if grouped then namespaceNameOrName else nameReference
  built .namespaceUseClause (t ++ n :: (← importAlias))
where
  namespaceNameOrName : Reader Piece := do
    if ← atMark "\\" then nameReference
    else
      let n ← identifier
      match ← nameTail with
      | [] => return n
      | ps => return .join .namespaceName n ps

def importGroup : Reader (List Piece) := do
  let lead ← mark? "\\"
  let n ← namespaceName
  let s ← mark "\\"
  let o ← mark openBrace
  let ps ← separated closeBrace (do return [← importClause true])
  if ps.isEmpty then failure
  let c ← mark closeBrace
  let g := Piece.join .namespaceUseGroup o (ps ++ [c])
  return lead ++ [n, s, g.playing .body]

/-- Imports: names with a comma between, or a group of names below one. -/
def useStatement (_ : Rules) : Reader Piece := do
  let w ← token
  let second ← peekSecond
  let t ←
    if (← atWord ["function", "const"]) && (second.kind == .name || second.isMark "\\") then
      pure [← token]
    else pure []
  let ps ← match ← attempt importGroup with
    | some ps => pure ps
    | none => listed "," (do return [← importClause false])
  return .join .namespaceUseDeclaration w (t ++ ps ++ (← semicolon))

def functionStatement (r : Rules) (front : List Piece) : Reader Piece := do
  let w ← word ["function"]
  let ref ← mark? "&"
  let n ← identifier
  let ps ← parameters r
  let t ← returnType?
  let b ← block r
  builtOther "function_definition"
    (front ++ [w] ++ ref ++ [n.playing .name, ps] ++ t ++ [b.playing .body])

def classStatement (r : Rules) (front : List Piece) : Reader Piece := do
  let mods ← modifiers
  let front := front ++ mods
  if ← atWord ["class"] then
    let w ← token
    let n ← identifier
    let ext ← extendsClause
    let impl ← implementsClause
    let b ← body r
    built .classDeclaration (front ++ [w, n.playing .name] ++ ext ++ impl ++ b)
  else if ← atWord ["interface"] then
    let w ← token
    let n ← identifier
    let ext ← extendsClause
    let b ← body r
    built .interfaceDeclaration (front ++ [w, n.playing .name] ++ ext ++ b)
  else if ← atWord ["trait"] then
    let w ← token
    let n ← identifier
    let b ← body r
    builtOther "trait_declaration" (front ++ [w, n.playing .name] ++ b)
  else
    let w ← word ["enum"]
    let n ← identifier
    let t ← returnType?
    let impl ← implementsClause
    let b ← body r
    builtOther "enum_declaration" (front ++ [w, n.playing .name] ++ t ++ impl ++ b)

def expressionStatement (r : Rules) : Reader Piece := do
  let e ← r.value
  return other "expression_statement" e (← semicolon)

def atClass (t next : Token) : Bool :=
  t.isWord ["class", "interface", "trait", "enum"] && next.kind == .name ||
    t.isWord ["abstract", "final", "readonly"] &&
      next.isWord ["abstract", "final", "readonly", "class"]

def attributable (r : Rules) : Reader Piece := do
  let front ← attributes r
  let t ← peek
  let next ← peekSecond
  if atClass t next then classStatement r front
  else if t.isWord ["const"] then constants r front
  else if t.isWord ["function"] &&
      (next.kind == .name || next.isMark "&" && (← peekThird).kind == .name) then
    functionStatement r front
  else failure

def statement (r : Rules) : Reader Piece := do
  let t ← peek
  let next ← peekSecond
  if t.isMark openBrace then block r
  else if t.isMark ";" then return other "empty_statement" (← token) []
  else if t.isMark "#[" then
    match ← attempt (attributable r) with
    | some p => return p
    | none => expressionStatement r
  else if t.kind != .name then expressionStatement r
  else if atClass t next || t.isWord ["const"] then attributable r
  else if next.isMark ":" && !t.isWord ["default", "else", "parent", "self", "static"] then
    let n ← identifier
    return other "named_label_statement" n [← token]
  else
    match t.text.map Char.toLower with
    | "function" =>
      match ← attempt (attributable r) with
      | some p => return p
      | none => expressionStatement r
    | "namespace" =>
      if next.isMark "\\" then expressionStatement r else namespaceStatement r
    | "use" => useStatement r
    | "if" => ifStatement r
    | "while" => whileStatement r
    | "do" => doStatement r
    | "for" => forStatement r
    | "foreach" => foreachStatement r
    | "switch" => switchStatement r
    | "try" => tryStatement r
    | "declare" => declareStatement r
    | "return" => jump r "return_statement"
    | "break" => jump r "break_statement"
    | "continue" => jump r "continue_statement"
    | "echo" => listStatement r "echo_statement"
    | "global" => listStatement r "global_declaration"
    | "goto" => gotoStatement
    | "static" =>
      if next.kind == .variable then staticStatement r else expressionStatement r
    | "abstract" | "final" | "class" | "interface" | "trait" | "case" | "default" | "else"
    | "elseif" | "catch" | "finally" | "endif" | "endwhile" | "endfor" | "endforeach"
    | "endswitch" => failure
    | _ => expressionStatement r

/-- The rules that may nest `n` deep. -/
def rules : Nat → Rules
  | 0 => .none
  | n + 1 => let r := rules n; ⟨expression r, statement r⟩

end Grammar

open Grammar Reader

/-- An element is left out of an array. Only a list of targets may have gaps. -/
def isGapped (t : SyntaxTree) : Bool :=
  let cs := t.children.filter fun c => !c.isComment
  t.kind == .arrayCreation && (cs.zip cs.tail).any fun (a, b) =>
    b.kind == .token "," && !a.isNamed

structure Parsed where
  tree : SyntaxTree
  /-- Something was passed over or missed. -/
  faulty : Bool
  deriving Inhabited

/-- Reads a file. Each nesting takes a token, so as many levels as there are tokens suffice. -/
def parse (source : String) : Parsed :=
  let tokens := Token.ofFile source
  let r := Grammar.rules (2 * tokens.length + 8)
  let run : Reader (List Piece × List SyntaxTree) := do
    let ps ← statements r fun _ => false
    return (ps, (← peek).trivia)
  let label : Label := ⟨.program, none, source, 0, 0⟩
  match run ⟨tokens, tokens.any (·.kind == .invalid)⟩ with
  | some ((ps, trivia), s) =>
    let tree := .node label ((ps.flatMap fun p => p.trivia ++ [p.tree]) ++ trivia)
    ⟨tree, s.faulty || tree.preorder.any isGapped⟩
  | none => ⟨.node label [], true⟩

end ContainerAliases.Source
