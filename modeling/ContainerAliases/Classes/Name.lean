namespace ContainerAliases.Classes

/-- The form in which names are compared: ASCII case and leading backslashes do not count. -/
def normalize (name : String) : String :=
  String.ofList ((name.toList.dropWhile (· == '\\')).map Char.toLower)

def lower (s : String) : String := s.map Char.toLower

/-- A name cut at its first backslash. -/
def splitFirst : List Char → List Char × Option (List Char)
  | [] => ([], none)
  | c :: cs =>
    if c = '\\' then ([], some cs)
    else let (a, b) := splitFirst cs; (c :: a, b)

def lastSegment (name : List Char) : List Char :=
  (name.reverse.takeWhile (· ≠ '\\')).reverse

def withoutLeading (name : List Char) : List Char := name.dropWhile (· == '\\')

/-- The namespace and the imports that hold at a point of a file. -/
structure Scope where
  /-- Missing in the global namespace. -/
  space : Option String
  /-- Imported names by lower-case alias, latest first. -/
  imports : List (String × String)
  deriving DecidableEq, Repr, Inhabited

namespace Scope

/-- A scope without imports; the empty name stands for the global namespace. -/
def within (space : Option String) : Scope := ⟨space.filter (· ≠ ""), []⟩

def qualify (s : Scope) (name : String) : String :=
  match s.space with
  | some ns => ns ++ "\\" ++ name
  | none => name

def imported? (s : Scope) (short : String) : Option String := s.imports.lookup (lower short)

/-- The full name that is meant by `name`, without a leading backslash. -/
def resolve (s : Scope) (name : String) : String :=
  match name.toList with
  | '\\' :: absolute => String.ofList absolute
  | cs =>
    match "namespace\\".toList.isPrefixOf? cs with
    | some relative => s.qualify (String.ofList relative)
    | none =>
      let (first, rest) := splitFirst cs
      match s.imported? (String.ofList first), rest with
      | some full, some rest => full ++ "\\" ++ String.ofList rest
      | some full, none => full
      | none, _ => s.qualify name

/-- Imports `name` under `short`, or under its own last segment. -/
def bind (s : Scope) (name : String) (short : Option String) : Scope :=
  let full := withoutLeading name.toList
  let key := short.getD (String.ofList (lastSegment full))
  { s with imports := (lower key, String.ofList full) :: s.imports }

end Scope

end ContainerAliases.Classes
