import ContainerAliases.Source.Grammar.Parts

namespace ContainerAliases.Source.Grammar

open Reader

def constantElement (r : Rules) : Reader (List Piece) := do
  let n ← identifier
  let e ← mark "="
  return [other "const_element" n [e, ← r.value]]

def constants (r : Rules) (front : List Piece) : Reader Piece := do
  let w ← word ["const"]
  let t ← if (← peekSecond).isMark "=" then pure [] else pure [← type]
  let ps ← listed "," (constantElement r)
  let s ← semicolon
  match front ++ [w] ++ t ++ ps ++ s with
  | [] => failure
  | p :: ps => return other "const_declaration" p ps

def method (r : Rules) (front : List Piece) : Reader Piece := do
  let w ← word ["function"]
  let ref ← mark? "&"
  let n ← identifier
  let ps ← parameters r
  let t ← returnType?
  let body ←
    if ← atMark openBrace then pure [(← block r).playing .body] else semicolon
  match front ++ [w] ++ ref ++ [n.playing .name, ps] ++ t ++ body with
  | [] => failure
  | p :: ps => return .join .methodDeclaration p ps

def propertyElement (r : Rules) : Reader (List Piece) := do
  if !(← atKind .variable) then failure
  let v := (← leaf .variableName).playing .name
  if ← atMark "=" then
    let e ← token
    return [other "property_element" v [e, ← r.value]]
  else return [other "property_element" v []]

def property (r : Rules) (front : List Piece) : Reader Piece := do
  let t ← type?
  let ps ← listed "," (propertyElement r)
  let tail ← if ← atMark openBrace then pure [← hooks r] else semicolon
  match front ++ t ++ ps ++ tail with
  | [] => failure
  | p :: ps => return other "property_declaration" p ps

/-- One rule for a method of a trait: `A::f insteadof B;` or `f as protected g;`. -/
def traitRule : Reader Piece := do
  let n ← nameReference
  let selected ←
    if ← atMark "::" then
      let c ← token
      pure [c, ← identifier]
    else pure []
  let w ← word ["insteadof", "as"]
  let names ← listed "," (do return [← nameReference])
  let renamed ← if ← atKind .name then pure [← identifier] else pure []
  let s ← semicolon
  return other "use_clause" n (selected ++ [w] ++ names ++ renamed ++ s)

def traitUse : Reader Piece := do
  let w ← word ["use"]
  let names ← listed "," (do return [← nameReference])
  if ← atMark openBrace then
    let o ← token
    let rules ← many do
      if (← atMark closeBrace) || (← atEnd) then return none
      return some (← traitRule)
    let c ← mark closeBrace
    return other "use_declaration" w (names ++ [other "use_list" o (rules ++ [c])])
  else
    let s ← semicolon
    return other "use_declaration" w (names ++ s)

def enumCase (r : Rules) (front : List Piece) : Reader Piece := do
  let w ← word ["case"]
  let n ← identifier
  let value ←
    if ← atMark "=" then
      let e ← token
      pure [e, ← r.value]
    else pure []
  let s ← semicolon
  match front ++ [w, n.playing .name] ++ value ++ s with
  | [] => failure
  | p :: ps => return other "enum_case" p ps

def member (r : Rules) : Reader Piece := do
  let attrs ← attributes r
  let mods ← modifiers
  let front := attrs ++ mods
  if ← atWord ["function"] then method r front
  else if ← atWord ["const"] then constants r front
  else if ← atWord ["case"] then enumCase r front
  else if !mods.isEmpty then property r front
  else if ← atWord ["use"] then
    let p ← traitUse
    if front.isEmpty then return p else failure
  else failure

/-- Members in braces; what cannot be read is passed over one token at a time. -/
def memberList (r : Rules) : Reader Piece := do
  let o ← mark openBrace
  let ps ← many do
    if (← atMark closeBrace) || (← atEnd) then return none
    match ← attempt (member r) with
    | some p => return some p
    | none => return some (← stray)
  return other "declaration_list" o (ps ++ (← closingBrace))

/-- The names after `extends` or `implements`; a clause without a name is faulty. -/
def heritage (k : Kind) (words : List String) : Reader (List Piece) := do
  if ← atWord words then
    let w ← token
    match ← attempt (listed "," (do return [← nameReference])) with
    | some ps => return [.join k w ps]
    | none =>
      fault
      return [.join (.other "ERROR") w []]
  else return []

def extendsClause : Reader (List Piece) := heritage .baseClause ["extends"]

def implementsClause : Reader (List Piece) := heritage .interfaceClause ["implements"]

def body (r : Rules) : Reader (List Piece) := do
  if ← atMark openBrace then return [(← memberList r).playing .body]
  else
    fault
    return []

end ContainerAliases.Source.Grammar
