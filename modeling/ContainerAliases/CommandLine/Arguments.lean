namespace ContainerAliases.CommandLine

structure Options where
  path : Option String
  keys : Bool
  watch : Bool
  /-- Milliseconds. -/
  interval : Option Nat
  deriving DecidableEq, Repr, Inhabited

inductive Request where
  | run (options : Options)
  | help
  | version
  | misused
  deriving DecidableEq, Repr

def intervalLimit : Nat := 0x10000000000000000

/-- Decimal digits, perhaps after a plus. -/
def number? (s : String) : Option Nat :=
  let digits := match s.toList with
    | '+' :: cs => cs
    | cs => cs
  if digits.isEmpty || !digits.all Char.isDigit then none
  else
    let n := digits.foldl (fun n c => n * 10 + (c.toNat - '0'.toNat)) 0
    if n < intervalLimit then some n else none

def Options.takePath (o : Options) (s : String) : Option Options :=
  if s.isEmpty || o.path.isSome then none else some { o with path := some s }

def Options.takeInterval (o : Options) (s : String) : Option Options :=
  if o.interval.isSome then none else (number? s).map fun n => { o with interval := some n }

def Options.takeKeys (o : Options) : Option Options :=
  if o.keys then none else some { o with keys := true }

def Options.takeWatch (o : Options) : Option Options :=
  if o.watch then none else some { o with watch := true }

def paths (o : Options) : List String → Request
  | [] => .run o
  | a :: as =>
    match o.takePath a with
    | some o => paths o as
    | none => .misused

def isOption (s : String) : Bool := s.startsWith "-" && s != "-"

/-- Reads the arguments from left to right; the first that makes no sense, or that asks for help or
the version, decides. -/
def arguments (o : Options) : List String → Request
  | [] => .run o
  | "--" :: as => paths o as
  | "--help" :: _ => .help
  | "--version" :: _ => .version
  | "--keys" :: as =>
    match o.takeKeys with
    | some o => arguments o as
    | none => .misused
  | "--watch" :: as =>
    match o.takeWatch with
    | some o => arguments o as
    | none => .misused
  | "--interval-ms" :: v :: as =>
    if isOption v then .misused
    else match o.takeInterval v with
      | some o => arguments o as
      | none => .misused
  | a :: as =>
    if a.startsWith "-h" then .help
    else if a.startsWith "-V" then .version
    else if a.startsWith "--interval-ms=" then
      match o.takeInterval (String.ofList (a.toList.drop "--interval-ms=".length)) with
      | some o => arguments o as
      | none => .misused
    else if isOption a then .misused
    else match o.takePath a with
      | some o => arguments o as
      | none => .misused

def Request.ofArguments (as : List String) : Request := arguments default as

end ContainerAliases.CommandLine
