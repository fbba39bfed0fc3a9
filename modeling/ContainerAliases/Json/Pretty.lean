import ContainerAliases.Text

namespace ContainerAliases.Json

def escapeChar (c : Char) : List Char :=
  match c with
  | '"' => ['\\', '"']
  | '\\' => ['\\', '\\']
  | '\x08' => ['\\', 'b']
  | '\x0c' => ['\\', 'f']
  | '\n' => ['\\', 'n']
  | '\r' => ['\\', 'r']
  | '\t' => ['\\', 't']
  | c => if c.toNat < 0x20 then ['\\', 'u'] ++ Text.hexPadded 4 c.toNat else [c]

def quote (s : String) : List Char := '"' :: s.toList.flatMap escapeChar ++ ['"']

def indent (level : Nat) : List Char := List.replicate (2 * level) ' '

/-- Written elements on lines of their own, between brackets; nothing stands in empty ones. -/
def bracketed (level : Nat) (opening closing : Char) (elements : List (List Char)) : List Char :=
  if elements.isEmpty then [opening, closing]
  else
    let lines := elements.map fun e => '\n' :: indent (level + 1) ++ e
    opening :: [','].intercalate lines ++ '\n' :: indent level ++ [closing]

def strings (level : Nat) (l : List String) : List Char := bracketed level '[' ']' (l.map quote)

def lists (level : Nat) (l : List (String × List String)) : List Char :=
  bracketed level '{' '}' <|
    l.map fun (k, v) => quote k ++ ':' :: ' ' :: strings (level + 1) v

end ContainerAliases.Json
