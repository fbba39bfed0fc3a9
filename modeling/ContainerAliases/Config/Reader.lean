import ContainerAliases.Config.Basic
import ContainerAliases.Error
import ContainerAliases.Json.Sequence

namespace ContainerAliases.Config

open Json.Reader

/-- A field given twice is noticed at its second name; the fault stands where the object is left. -/
def failTwice {α : Type} (f : Field) : Json.Reader α := do
  if (← glance) == some '}' then skip
  failHere (.duplicateField f.name)

/-- The members of an object, at most so many; the fields in `seen` have been given. -/
def members (first : Bool) (seen : List Field) (c : Config) : Nat → Json.Reader Config
  | 0 => return c
  | n + 1 => do
    if !(← Json.hasMember first) then return c
    skip
    match Field.ofName? (← Json.string) with
    | none =>
      Json.colon
      Json.skipValue
      members false seen c n
    | some f =>
      if seen.contains f then failTwice f
      Json.colon
      members false (f :: seen) (← c.replace Json.text Json.texts f) n

def elements (first : Bool) (c : Config) : List Field → Json.Reader Config
  | [] => return c
  | f :: fs => do
    if ← Json.hasElement first then elements false (← c.replace Json.text Json.texts f) fs
    else return c

def reader : Json.Reader Config := do
  match ← glance with
  | none => failNext .endInValue
  | some '[' =>
    skip
    let c ← elements true standard Field.all
    Json.endList
    return c
  | some '{' =>
    skip
    let c ← members true [] standard ((← get).rest.length + 1)
    skip
    return c
  | some _ => Json.failType expected

def ofText (source : String) : Except Json.Fault Config :=
  (do let c ← reader; Json.finish; return c : Json.Reader Config).run' ⟨source.toList, 0⟩

def fileName : String := ".laravel-dic.json"

/-- Reads the configuration of the project at `root`; without a file it is the standard one. -/
def load (d : Disk) (root : Disk.Path) : Except Error Config :=
  let path := root.child fileName
  if !d.reaches path.steps then .ok standard
  else match d.readText path.steps with
    | .error f => .error (.unreadable path f)
    | .ok source => (ofText source).mapError (.invalidConfig path source)

end ContainerAliases.Config
