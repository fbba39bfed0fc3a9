/-!
A PHP file cut into lexemes. Nothing is lost: the texts of the lexemes make up the file again.
Text in double quotes, in backticks and in a heredoc is a template, in which plain runs alternate
with variables and with code in braces.
-/

namespace ContainerAliases.Source

/-- What a lexeme is. Those up to `interpolation` may stand between any two tokens. -/
inductive LexemeKind where
  | blank
  | comment
  /-- Text in front of the first opening tag. -/
  | markup
  | openTag
  /-- A closing tag, the text after it and the next opening tag. -/
  | interpolation
  | name
  | variable
  | number
  /-- A text in single quotes. -/
  | string
  | nowdoc
  | quoteOpen
  | quoteClose
  | backtickOpen
  | backtickClose
  | heredocOpen
  | heredocClose
  /-- A plain run in a template. -/
  | content
  /-- `{` or `${` in a template. -/
  | braceOpen
  | braceClose
  | cast
  | mark
  | invalid
  | finish
  deriving DecidableEq, Repr, Inhabited

structure Lexeme where
  kind : LexemeKind
  chars : List Char
  deriving DecidableEq, Repr, Inhabited

inductive Closer where
  | quote
  | backtick
  | label (name : List Char)
  deriving DecidableEq, Repr

/-- Where in the file the next character stands. -/
inductive Mode where
  /-- In code, with the braces that are open since it began. -/
  | code (braces : Nat)
  | template (closer : Closer)
  /-- Between the brackets of `$x[…]` in a template. -/
  | offset
  /-- After the arrow of `$x->…` in a template. -/
  | member
  deriving DecidableEq, Repr

namespace Lexeme

def isBlank (c : Char) : Bool :=
  c == ' ' || ('\t' ≤ c && c ≤ '\r') || c == '\u00a0' || c == '\u200b' || c == '\u2060' ||
    c == '\ufeff'

def isNameStart (c : Char) : Bool :=
  c.isAlpha || c == '_' || (c.val ≥ 0x80 && !isBlank c)

def isNamePart (c : Char) : Bool := isNameStart c || c.isDigit

def startsLike : List Char → List Char → Bool
  | [], _ => true
  | s :: ss, c :: cs => c.toLower == s && startsLike ss cs
  | _ :: _, [] => false

def openTagLength (cs : List Char) : Option Nat :=
  if startsLike "<?php".toList cs then some 5
  else if "<?=".toList.isPrefixOf cs then some 3
  else if "<?".toList.isPrefixOf cs then some 2
  else none

/-- The text up to an opening tag, the tag, and what follows it. -/
def splitMarkup : List Char → List Char × List Char × List Char
  | [] => ([], [], [])
  | c :: cs =>
    match openTagLength (c :: cs) with
    | some n => ([], (c :: cs).take n, (c :: cs).drop n)
    | none => let (m, t, r) := splitMarkup cs; (c :: m, t, r)

/-- Splits after a comment that runs to the end of the line or to a closing tag. -/
def splitLine : List Char → List Char × List Char
  | [] => ([], [])
  | '?' :: '>' :: cs => ([], '?' :: '>' :: cs)
  | '\n' :: cs => ([], '\n' :: cs)
  | '\r' :: cs => ([], '\r' :: cs)
  | c :: cs => let (a, b) := splitLine cs; (c :: a, b)

def splitBlock : List Char → Option (List Char × List Char)
  | [] => none
  | '*' :: '/' :: cs => some (['*', '/'], cs)
  | c :: cs => (splitBlock cs).map fun (a, b) => (c :: a, b)

def splitQuoted : List Char → Option (List Char × List Char)
  | [] => none
  | '\'' :: cs => some (['\''], cs)
  | '\\' :: c :: cs => (splitQuoted cs).map fun (a, b) => ('\\' :: c :: a, b)
  | c :: cs => (splitQuoted cs).map fun (a, b) => (c :: a, b)

/-- At the line break before the closing label of a heredoc: the break with the blanks that indent
the label, and what follows the label. -/
def closingLabel? (label : List Char) : List Char → Option (List Char × List Char)
  | '\n' :: cs =>
    let indent := cs.takeWhile fun c => c == ' ' || c == '\t'
    let rest := cs.drop indent.length
    if label.isPrefixOf rest && !((rest.drop label.length).head?.any isNamePart) then
      some ('\n' :: indent, rest.drop label.length)
    else none
  | '\r' :: '\n' :: cs =>
    (closingLabel? label ('\n' :: cs)).map fun (a, b) => ('\r' :: a, b)
  | _ => none

def splitNowdoc (label : List Char) : List Char → Option (List Char × List Char)
  | [] => none
  | c :: cs =>
    match closingLabel? label (c :: cs) with
    | some (indent, rest) => some (indent ++ label, rest)
    | none => (splitNowdoc label cs).map fun (a, b) => (c :: a, b)

def startsFilling : List Char → Bool
  | '$' :: '{' :: _ => true
  | '{' :: '$' :: _ => true
  | '$' :: c :: _ => isNameStart c
  | _ => false

def atCloser (closer : Closer) : List Char → Bool
  | [] => true
  | c :: cs =>
    match closer with
    | .quote => c == '"'
    | .backtick => c == '\x60'
    | .label l => (closingLabel? l (c :: cs)).isSome

def splitContent (closer : Closer) : List Char → List Char × List Char
  | [] => ([], [])
  | '\\' :: c :: cs =>
    if closingLabelAt closer (c :: cs) then (['\\'], c :: cs)
    else let (a, b) := splitContent closer cs; ('\\' :: c :: a, b)
  | c :: cs =>
    if atCloser closer (c :: cs) || startsFilling (c :: cs) then ([], c :: cs)
    else let (a, b) := splitContent closer cs; (c :: a, b)
where
  closingLabelAt (closer : Closer) (cs : List Char) : Bool :=
    match closer with
    | .label l => (closingLabel? l cs).isSome
    | _ => false

/-- The label of a heredoc or nowdoc: quote, name, and the whole opening. -/
def splitDocOpening (cs : List Char) : Option (Option Char × List Char × List Char × List Char) :=
  if "<<<".toList.isPrefixOf cs then
    let gap := (cs.drop 3).takeWhile fun c => c == ' ' || c == '\t'
    let rest := cs.drop (3 + gap.length)
    let quote := rest.head?.filter fun c => c == '"' || c == '\''
    let body := if quote.isSome then rest.drop 1 else rest
    let label := body.takeWhile isNamePart
    let after := body.drop label.length
    let closed := match quote with
      | some q => after.head? == some q
      | none => true
    let after := if quote.isSome then after.drop 1 else after
    let atBreak := match after with
      | '\n' :: _ => true
      | '\r' :: '\n' :: _ => true
      | _ => false
    if label.head?.any isNameStart && closed && atBreak then
      some (quote, label, cs.take (cs.length - after.length), after)
    else none
  else none

def castTypes : List String :=
  ["int", "integer", "float", "double", "real", "string", "binary", "array", "object", "bool",
   "boolean", "unset"]

/-- The length of a cast such as `(int)` at the front. -/
def castLength : List Char → Option Nat
  | '(' :: cs =>
    let isGap := fun c : Char => c == ' ' || c == '\t'
    let gap := cs.takeWhile isGap
    let word := (cs.drop gap.length).takeWhile Char.isAlpha
    let rest := cs.drop (gap.length + word.length)
    let gap' := rest.takeWhile isGap
    if castTypes.contains (String.ofList (word.map Char.toLower)) &&
        (rest.drop gap'.length).head? == some ')' then
      some (gap.length + word.length + gap'.length + 2)
    else none
  | _ => none

def marks : List (List Char) :=
  ["<<<", "<=>", "**=", "...", "<<=", ">>=", "===", "!==", "??=", "?->", "++", "--", "->", "=>",
   "==", "!=", "<>", "<=", ">=", "&&", "||", "??", "::", "+=", "-=", "*=", "/=", ".=", "%=", "&=",
   "|=", "^=", "<<", ">>", "**", "|>", "#["].map String.toList

def singleMarks : List Char := "+-*/%=<>!.&|^~?:;,()[]\x7b\x7d@$\\".toList

def digitsLength (digit : Char → Bool) : List Char → Nat
  | [] => 0
  | ['_'] => 0
  | '_' :: d :: cs => if digit d then 1 + digitsLength digit (d :: cs) else 0
  | c :: cs => if digit c then 1 + digitsLength digit cs else 0

def isHexDigit (c : Char) : Bool :=
  c.isDigit || ('a' ≤ c && c ≤ 'f') || ('A' ≤ c && c ≤ 'F')

/-- The digits that go with the letter after a leading zero. -/
def digitOf? (letter : Char) : Option (Char → Bool) :=
  match letter.toLower with
  | 'x' => some isHexDigit
  | 'b' => some fun c => c == '0' || c == '1'
  | 'o' => some fun c => '0' ≤ c && c ≤ '7'
  | _ => none

def numberLength (cs : List Char) : Nat :=
  match cs with
  | '0' :: x :: d :: rest =>
    match digitOf? x with
    | some digit => if digit d then 2 + digitsLength digit (d :: rest) else 1
    | none => decimal cs
  | _ => decimal cs
where
  decimal (cs : List Char) : Nat :=
    let whole := digitsLength Char.isDigit cs
    let rest := cs.drop whole
    let fraction := match rest with
      | '.' :: '.' :: _ => 0
      | '.' :: r => 1 + digitsLength Char.isDigit r
      | _ => 0
    let rest := rest.drop fraction
    let exponent := match rest with
      | e :: s :: r =>
        if e == 'e' || e == 'E' then
          if s.isDigit then 1 + digitsLength Char.isDigit (s :: r)
          else if (s == '+' || s == '-') && r.head?.any Char.isDigit then
            2 + digitsLength Char.isDigit r
          else 0
        else 0
      | _ => 0
    whole + fraction + exponent

/-- One step of the cutting: lexemes, the modes after them, and the rest. -/
abbrev Step := List Lexeme × List Mode × List Char

def single (k : LexemeKind) (n : Nat) (modes : List Mode) (cs : List Char) : Step :=
  ([⟨k, cs.take n⟩], modes, cs.drop n)

/-- What cannot be read takes the rest of the file with it. -/
def unreadable (modes : List Mode) (cs : List Char) : Step := ([⟨.invalid, cs⟩], modes, [])

def quotedStep (opening : List Char) (modes : List Mode) (cs : List Char) : Step :=
  match splitQuoted (cs.drop opening.length) with
  | some (a, rest) => ([⟨.string, opening ++ a⟩], modes, rest)
  | none => unreadable modes cs

def markStep (modes : List Mode) (cs : List Char) : Step :=
  match marks.find? fun m => m.isPrefixOf cs with
  | some m => single .mark m.length modes cs
  | none =>
    if cs.head?.any singleMarks.contains then single .mark 1 modes cs
    else single .invalid 1 modes cs

def docStep (modes : List Mode) (cs : List Char) : Step :=
  match splitDocOpening cs with
  | none => markStep modes cs
  | some (some '\'', label, opening, rest) =>
    match splitNowdoc label rest with
    | some (a, rest) => ([⟨.nowdoc, opening ++ a⟩], modes, rest)
    | none => unreadable modes cs
  | some (_, label, opening, rest) =>
    ([⟨.heredocOpen, opening⟩], .template (.label label) :: modes, rest)

def codeStep (braces : Nat) (outer : List Mode) (cs : List Char) : Step :=
  let modes := .code braces :: outer
  match cs with
  | [] => ([], modes, [])
  | '?' :: '>' :: rest =>
    let (text, tag, rest) := splitMarkup rest
    ([⟨.interpolation, '?' :: '>' :: text ++ tag⟩], modes, rest)
  | '/' :: '/' :: rest =>
    let (a, b) := splitLine rest
    ([⟨.comment, '/' :: '/' :: a⟩], modes, b)
  | '#' :: '[' :: _ => single .mark 2 modes cs
  | '#' :: rest =>
    let (a, b) := splitLine rest
    ([⟨.comment, '#' :: a⟩], modes, b)
  | '/' :: '*' :: rest =>
    match splitBlock rest with
    | some (a, b) => ([⟨.comment, '/' :: '*' :: a⟩], modes, b)
    | none => unreadable modes cs
  | '\'' :: _ => quotedStep ['\''] modes cs
  | 'b' :: '\'' :: _ => quotedStep ['b', '\''] modes cs
  | 'B' :: '\'' :: _ => quotedStep ['B', '\''] modes cs
  | '"' :: _ => single .quoteOpen 1 (.template .quote :: modes) cs
  | 'b' :: '"' :: _ => single .quoteOpen 2 (.template .quote :: modes) cs
  | 'B' :: '"' :: _ => single .quoteOpen 2 (.template .quote :: modes) cs
  | '\x60' :: _ => single .backtickOpen 1 (.template .backtick :: modes) cs
  | '<' :: '<' :: '<' :: _ => docStep modes cs
  | '{' :: _ => single .mark 1 (.code (braces + 1) :: outer) cs
  | '}' :: _ =>
    match braces, outer with
    | 0, .template c :: o => single .braceClose 1 (.template c :: o) cs
    | n, _ => single .mark 1 (.code (n - 1) :: outer) cs
  | c :: rest =>
    if isBlank c then single .blank (cs.takeWhile isBlank).length modes cs
    else if isNameStart c then single .name (cs.takeWhile isNamePart).length modes cs
    else if c == '$' && rest.head?.any isNameStart then
      single .variable (1 + (rest.takeWhile isNamePart).length) modes cs
    else if c.isDigit || c == '.' && rest.head?.any Char.isDigit then
      single .number (numberLength cs) modes cs
    else match castLength cs with
      | some n => single .cast n modes cs
      | none => markStep modes cs

def templateStep (closer : Closer) (outer : List Mode) (cs : List Char) : Step :=
  let modes := .template closer :: outer
  match closer, cs with
  | .quote, '"' :: _ => single .quoteClose 1 outer cs
  | .backtick, '\x60' :: _ => single .backtickClose 1 outer cs
  | _, '$' :: '{' :: _ => single .braceOpen 2 (.code 0 :: modes) cs
  | _, '{' :: '$' :: _ => single .braceOpen 1 (.code 0 :: modes) cs
  | _, '$' :: c :: rest =>
    if isNameStart c then
      let (v, _, after) := single .variable (1 + ((c :: rest).takeWhile isNamePart).length) modes cs
      match after with
      | '[' :: _ => (v, .offset :: modes, after)
      | '-' :: '>' :: d :: _ => (v, if isNameStart d then .member :: modes else modes, after)
      | '?' :: '-' :: '>' :: d :: _ => (v, if isNameStart d then .member :: modes else modes, after)
      | _ => (v, modes, after)
    else run modes closer outer cs
  | _, _ => run modes closer outer cs
where
  /-- A plain run, and the closing label of a heredoc if the run ends there. -/
  run (modes : List Mode) (closer : Closer) (outer : List Mode) (cs : List Char) : Step :=
    let (a, rest) := splitContent closer cs
    let content : List Lexeme := if a.isEmpty then [] else [⟨.content, a⟩]
    match closer with
    | .label l =>
      match closingLabel? l rest with
      | some (indent, after) =>
        (content ++ [⟨.content, indent⟩, ⟨.heredocClose, l⟩], outer, after)
      | none => (content, modes, rest)
    | _ => (content, modes, rest)

def offsetStep (outer : List Mode) (cs : List Char) : Step :=
  let modes := .offset :: outer
  match cs with
  | [] => ([], modes, [])
  | ']' :: _ => single .mark 1 outer cs
  | '[' :: _ => single .mark 1 modes cs
  | c :: rest =>
    if isNameStart c then single .name (cs.takeWhile isNamePart).length modes cs
    else if c == '$' && rest.head?.any isNameStart then
      single .variable (1 + (rest.takeWhile isNamePart).length) modes cs
    else if c.isDigit then single .number (numberLength cs) modes cs
    else if c == '-' && rest.head?.any Char.isDigit then
      single .number (1 + numberLength rest) modes cs
    else single .invalid 1 outer cs

def memberStep (outer : List Mode) (cs : List Char) : Step :=
  match cs with
  | '-' :: '>' :: _ => single .mark 2 (.member :: outer) cs
  | '?' :: '-' :: '>' :: _ => single .mark 3 (.member :: outer) cs
  | _ => single .name (cs.takeWhile isNamePart).length outer cs

def step (modes : List Mode) (cs : List Char) : Step :=
  match modes with
  | [] => codeStep 0 [] cs
  | .code n :: outer => codeStep n outer cs
  | .template c :: outer => templateStep c outer cs
  | .offset :: outer => offsetStep outer cs
  | .member :: outer => memberStep outer cs

/-- Cuts `cs`; what no step shortens is one invalid lexeme. -/
def cut (modes : List Mode) (cs : List Char) : List Lexeme :=
  if cs.isEmpty then
    -- a template that is still open has no end
    if modes.length > 1 then [⟨.invalid, []⟩] else []
  else
    let s := step modes cs
    if _h : s.2.2.length < cs.length then s.1 ++ cut s.2.1 s.2.2 else [⟨.invalid, cs⟩]
termination_by cs.length

/-- The lexemes of a file, which begins outside of the code. -/
def ofFile (source : String) : List Lexeme :=
  let (text, tag, rest) := splitMarkup source.toList
  let front : List Lexeme := if text.isEmpty then [] else [⟨.markup, text⟩]
  if tag.isEmpty then front else front ++ ⟨.openTag, tag⟩ :: cut [.code 0] rest

end Lexeme

end ContainerAliases.Source
