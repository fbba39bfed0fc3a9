import ContainerAliases.Disk.Path
import ContainerAliases.OrderedMap

namespace ContainerAliases.Disk

/-- Nanoseconds since the first moment of 1970. -/
abbrev Moment := Int

def second : Int := 1000000000

structure Stamp where
  seconds : Nat
  nanoseconds : Nat
  deriving DecidableEq, Repr, Inhabited

/-- Moments before 1970 all have the stamp of its first. -/
def Stamp.ofMoment (t : Moment) : Stamp :=
  if t < 0 then ⟨0, 0⟩ else ⟨(t / second).toNat, (t % second).toNat⟩

/-- The names that lead from the root to a place, none of them a link. -/
abbrev Location := List String

inductive Entry where
  | directory
  /-- A file; one whose bytes are not UTF-8 has no content that could be read. -/
  | file (content : Option String) (modified : Moment)
  | link (target : Path)
  deriving DecidableEq, Repr, Inhabited

def Entry.isFile : Entry → Bool
  | .file .. => true
  | _ => false

inductive Fault where
  | missing
  | notDirectory
  | isDirectory
  | nameTooLong
  | tooManyLinks
  | notText
  deriving DecidableEq, Repr

def Fault.message : Fault → String
  | missing => "No such file or directory (os error 2)"
  | notDirectory => "Not a directory (os error 20)"
  | isDirectory => "Is a directory (os error 21)"
  | nameTooLong => "File name too long (os error 36)"
  | tooManyLinks => "Too many levels of symbolic links (os error 40)"
  | notText => "stream did not contain valid UTF-8"

end Disk

/-- Entries by place, and the directory that relative paths start from. -/
structure Disk where
  entries : OrderedMap Disk.Location Disk.Entry
  workingDirectory : Disk.Location
  deriving Inhabited

namespace Disk

/-- The entry at a place; the root is always there. -/
def entry? (d : Disk) (l : Location) : Option Entry :=
  if l = [] then some .directory else d.entries.get? l

def isDirectoryAt (d : Disk) (l : Location) : Bool := d.entry? l == some .directory

def linkLimit : Nat := 40

def nameLimit : Nat := 255

/-- Follows `steps` from `here`, and a link at the end only if `through` says so. From a link `jump`
goes on. -/
def walk (d : Disk) (through : Bool) (jump : Route → Location → Except Fault Location) :
    Route → Location → Except Fault Location
  | [], here => .ok here
  | .root :: rest, _ => d.walk through jump rest []
  | .current :: rest, here =>
    if d.isDirectoryAt here then d.walk through jump rest here else .error .notDirectory
  | .parent :: rest, here =>
    if d.isDirectoryAt here then d.walk through jump rest here.dropLast else .error .notDirectory
  | .name s :: rest, here =>
    if !d.isDirectoryAt here then .error .notDirectory
    else if s.utf8ByteSize > nameLimit then .error .nameTooLong
    else match d.entry? (here ++ [s]) with
      | none => .error .missing
      | some (.link target) =>
        if rest.isEmpty && !through then .ok (here ++ [s]) else jump (target.steps ++ rest) here
      | some _ => d.walk through jump rest (here ++ [s])

/-- Follows `steps` from `here` through at most so many links. -/
def follow (d : Disk) (through : Bool) : Nat → Route → Location → Except Fault Location
  | 0 => d.walk through fun _ _ => .error .tooManyLinks
  | links + 1 => d.walk through (d.follow through links)

def locate (d : Disk) (steps : Route) : Except Fault Location :=
  if steps.isEmpty then .error .missing else d.follow true linkLimit steps d.workingDirectory

def find? (d : Disk) (steps : Route) : Option Entry := (d.locate steps).toOption.bind d.entry?

/-- Something stands there, be it a link that leads nowhere. -/
def isTaken (d : Disk) (steps : Route) : Bool :=
  !steps.isEmpty && (d.follow false linkLimit steps d.workingDirectory).isOk

def reaches (d : Disk) (steps : Route) : Bool := (d.find? steps).isSome

def isFile (d : Disk) (steps : Route) : Bool := (d.find? steps).any Entry.isFile

def isDirectory (d : Disk) (steps : Route) : Bool := d.find? steps == some .directory

def modified? (d : Disk) (steps : Route) : Option Moment :=
  match d.find? steps with
  | some (.file _ t) => some t
  | _ => none

def readText (d : Disk) (steps : Route) : Except Fault String := do
  match d.entry? (← d.locate steps) with
  | some (.file (some text) _) => .ok text
  | some (.file none _) => .error .notText
  | some .directory => .error .isDirectory
  | _ => .error .missing

def names (d : Disk) (l : Location) : List String :=
  d.entries.keys.filterMap fun k => if k.dropLast = l then k.getLast? else none

def below (d : Disk) (l : Location) : List (Location × Entry) :=
  d.entries.toList.filterMap fun (k, e) => do
    let rest ← l.isPrefixOf? k
    if rest.isEmpty then none else some (rest, e)

end Disk

end ContainerAliases
