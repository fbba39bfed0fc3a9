import ContainerAliases.Source.Lexeme
import ContainerAliases.Source.Tree

namespace ContainerAliases.Source

structure Token where
  kind : LexemeKind
  text : String
  /-- The blanks, comments and tags between the token before and this one. -/
  lead : String
  /-- The comments and tags among them. -/
  trivia : List SyntaxTree
  /-- A closing tag stands among them; it ends a statement as `;` does. -/
  broken : Bool
  start : Nat
  line : Nat
  deriving Repr, Inhabited

def openBrace : String := "\x7b"
def closeBrace : String := "\x7d"

namespace Token

def breaks (cs : List Char) : Nat := cs.count '\n'

/-- The kind of tree that a lexeme between two tokens leaves behind. -/
def triviaKind : LexemeKind → Option Kind
  | .comment => some .comment
  | .markup => some (.other "text")
  | .openTag => some (.other "php_tag")
  | .interpolation => some .textInterpolation
  | _ => none

def isTrivia (k : LexemeKind) : Bool := k == .blank || (triviaKind k).isSome

/-- The token under construction: all but its own text. -/
structure Front where
  lead : List Char
  trivia : List SyntaxTree
  broken : Bool
  start : Nat
  line : Nat

def Front.at (start line : Nat) : Front := ⟨[], [], false, start, line⟩

def Front.token (f : Front) (k : LexemeKind) (text : String) : Token :=
  ⟨k, text, String.ofList f.lead, f.trivia, f.broken, f.start, f.line⟩

def Front.skip (f : Front) (l : Lexeme) : Front :=
  let text := String.ofList l.chars
  { lead := f.lead ++ l.chars
    trivia := match triviaKind l.kind with
      | some k => f.trivia ++ [.node ⟨k, none, text, f.start, f.line⟩ []]
      | none => f.trivia
    broken := f.broken || l.kind == .interpolation
    start := f.start + text.utf8ByteSize
    line := f.line + breaks l.chars }

/-- The tokens of `ls` after the start `f` of the first; the last one marks the end. -/
def ofLexemes (f : Front) : List Lexeme → List Token
  | [] => [f.token .finish ""]
  | l :: ls =>
    if isTrivia l.kind then ofLexemes (f.skip l) ls
    else
      let text := String.ofList l.chars
      f.token l.kind text ::
        ofLexemes (.at (f.start + text.utf8ByteSize) (f.line + breaks l.chars)) ls

def ofFile (source : String) : List Token := ofLexemes (.at 0 0) (Lexeme.ofFile source)

def isMark (t : Token) (s : String) : Bool := t.kind == .mark && t.text == s

/-- One of the keywords `ss`, up to ASCII case. -/
def isWord (t : Token) (ss : List String) : Bool :=
  t.kind == .name && ss.contains (t.text.map Char.toLower)

end Token

end ContainerAliases.Source
