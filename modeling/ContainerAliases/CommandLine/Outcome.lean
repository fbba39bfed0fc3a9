namespace ContainerAliases.CommandLine

structure Outcome where
  code : Nat
  output : String
  /-- The report of a failure. What the program logs while it runs is no part of it. -/
  complaint : String
  deriving DecidableEq, Repr, Inhabited

def Outcome.success (output : String) : Outcome := ⟨0, output, ""⟩

def indented (first further : String) (text : String) : String :=
  first ++ ("\n" ++ further).intercalate (text.splitOn "\n")

def numbered (causes : List String) : List String :=
  causes.zipIdx.map fun (c, n) => indented s!"    {n}: " "       " c

/-- What went wrong, and below it why; several causes are numbered. -/
def report (context : String) (causes : List String) : String :=
  let lines := match causes with
    | [c] => [indented "    " "    " c]
    | cs => numbered cs
  "\n".intercalate ([s!"Error: {context}", "", "Caused by:"] ++ lines) ++ "\n"

def Outcome.failure (context : String) (causes : List String) : Outcome :=
  ⟨1, "", report context causes⟩

end ContainerAliases.CommandLine
