import ContainerAliases.Source.Grammar.Rules

namespace ContainerAliases.Source.Grammar

open Reader

def argument (r : Rules) : Reader (List Piece) := do
  let label ←
    if (← atKind .name) && (← peekSecond).isMark ":" then
      let n ← identifier
      pure [n, ← token]
    else pure []
  let value ←
    if ← atMark "..." then
      let d ← token
      if (← atMark ")") || (← atMark ",") then pure [other "variadic_placeholder" d []]
      else pure [other "variadic_unpacking" d [← r.value]]
    else if ← atMark "&" then
      let a ← token
      pure [a, ← r.value]
    else pure [← r.value]
  return (Piece.join? (.other "argument") (label ++ value)).toList

def arguments (r : Rules) : Reader Piece := do
  let o ← mark "("
  let ps ← separated ")" (argument r)
  return other "arguments" o (ps ++ [← mark ")"])

def arguments? (r : Rules) : Reader (List Piece) := do
  if ← atMark "(" then return [← arguments r] else return []

/-- The attributes `#[…]` here, none or more of their groups. -/
def attributes (r : Rules) : Reader (List Piece) := do
  let groups ← many do
    if ← atMark "#[" then
      let o ← token
      let ps ← separated "]" do
        let n ← nameReference
        return [other "attribute" n (← arguments? r)]
      if ps.isEmpty then failure
      return some (other "attribute_group" o (ps ++ [← mark "]"]))
    else return none
  return (Piece.join? (.other "attribute_list") groups).toList

def byReference (r : Rules) : Reader Piece := do
  let a ← mark "&"
  return other "by_ref" a [← r.expression Strength.operand]

/-- An array element: `v`, `k => v`, either with `&` before `v`, or `...v`. -/
def element (r : Rules) : Reader (List Piece) := do
  if ← atMark "..." then
    let d ← token
    let u := other "variadic_unpacking" d [← r.value]
    return [.join .arrayElement u []]
  else if ← atMark "&" then
    return [.join .arrayElement (← byReference r) []]
  else
    let k ← r.value
    if ← atMark "=>" then
      let a ← token
      let v ← if ← atMark "&" then byReference r else r.value
      return [.join .arrayElement k [a, v]]
    else return [.join .arrayElement k []]

def hooks (r : Rules) : Reader Piece := do
  let o ← mark openBrace
  let ps ← many do
    if (← atMark closeBrace) || (← atEnd) then return none
    let attrs ← attributes r
    let final ← word? ["final"]
    let ref ← mark? "&"
    let name ← identifier
    let params ← parameterLike
    let body ←
      if ← atMark "=>" then
        let a ← token
        let e ← r.value
        pure (a :: e :: (← semicolon))
      else if ← atMark openBrace then pure [← block r]
      else semicolon
    return Piece.join? (.other "property_hook") (attrs ++ final ++ ref ++ [name] ++ params ++ body)
  return other "property_hook_list" o (ps ++ [← mark closeBrace])
where
  parameterLike : Reader (List Piece) := do
    if ← atMark "(" then
      let o ← token
      let ps ← separated ")" do
        let t ← type?
        let ref ← mark? "&"
        return t ++ ref ++ [← leaf .variableName]
      return [other "formal_parameters" o (ps ++ [← mark ")"])]
    else return []

def modifierWords : List String :=
  ["public", "protected", "private", "static", "abstract", "final", "readonly", "var"]

def modifiers : Reader (List Piece) :=
  many do
    if ← atWord modifierWords then
      let w ← token
      if (← atMark "(") && (← peekSecond).isWord ["set"] then
        let o ← token
        let s ← token
        return some (other "visibility_modifier" w [o, s, ← mark ")"])
      else return some (other "modifier" w [])
    else return none

def parameter (r : Rules) : Reader (List Piece) := do
  let attrs ← attributes r
  let mods ← modifiers
  let t ← type?
  let ref ← mark? "&"
  let rest ← mark? "..."
  if !(← atKind .variable) then failure
  let v ← leaf .variableName
  let value ←
    if ← atMark "=" then
      let e ← token
      pure [e, ← r.value]
    else pure []
  let hs ← if ← atMark openBrace then pure [← hooks r] else pure []
  return (Piece.join? (.other "simple_parameter")
    (attrs ++ mods ++ t ++ ref ++ rest ++ [v.playing .name] ++ value ++ hs)).toList

def parameters (r : Rules) : Reader Piece := do
  let o ← mark "("
  let ps ← separated ")" (parameter r)
  return other "formal_parameters" o (ps ++ [← mark ")"])

def filling (r : Rules) : Reader (List Piece) := do
  let o ← token
  let e ← r.value
  if ← atKind .braceClose then return [o, e, ← token] else failure

def templateVariable : Reader (List Piece) := do
  let v ← leaf .variableName
  if ← atMark "[" then
    let o ← token
    let t ← peek
    let key ←
      if t.kind == .name then leaf .name
      else if t.kind == .variable then leaf .variableName
      else if t.kind == .number then leaf (.other "integer")
      else failure
    return [other "subscript_expression" v [o, key, ← mark "]"]]
  else if (← atMark "->") || (← atMark "?->") then
    let a ← token
    return [other "member_access_expression" v [a, ← identifier]]
  else return [v]

/-- The parts of a template up to a token of kind `close`, and that token. -/
def template (r : Rules) (close : LexemeKind) : Reader (List Piece) := do
  let parts ← many do
    let t ← peek
    if t.kind == .content then return some [← leaf .stringContent]
    else if t.kind == .variable then return some (← templateVariable)
    else if t.kind == .braceOpen then return some (← filling r)
    else return none
  if ← atKind close then return parts.flatten ++ [← token] else failure

end ContainerAliases.Source.Grammar
