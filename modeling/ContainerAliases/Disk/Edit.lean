import ContainerAliases.Disk.Basic

namespace ContainerAliases.Disk

def put (d : Disk) (l : Location) (e : Entry) : Disk := { d with entries := d.entries.insert l e }

/-- Follows `steps` and makes the directories that are missing; the place is `none` if something
stands in the way. -/
def settle (jump : Disk → Route → Location → Disk × Option Location) (d : Disk) :
    Route → Location → Disk × Option Location
  | [], here => (d, some here)
  | .root :: rest, _ => settle jump d rest []
  | .current :: rest, here => settle jump d rest here
  | .parent :: rest, here => settle jump d rest here.dropLast
  | .name s :: rest, here =>
    match d.entry? (here ++ [s]) with
    | none => settle jump (d.put (here ++ [s]) .directory) rest (here ++ [s])
    | some .directory => settle jump d rest (here ++ [s])
    | some (.link target) => jump d (target.steps ++ rest) here
    | some (.file ..) => (d, none)

def settleThrough : Nat → Disk → Route → Location → Disk × Option Location
  | 0 => settle fun d _ _ => (d, none)
  | links + 1 => settle (settleThrough links)

def makeDirectories (d : Disk) (p : Path) : Disk :=
  (settleThrough linkLimit d p.steps d.workingDirectory).1

/-- Puts a new entry at `p`, in directories made for it. -/
def place (d : Disk) (p : Path) (e : Entry) : Disk :=
  match p.steps.getLast?, settleThrough linkLimit d p.steps.dropLast d.workingDirectory with
  | some (.name s), (d, some here) =>
    if d.isDirectoryAt (here ++ [s]) then d else d.put (here ++ [s]) e
  | _, (d, _) => d

/-- Writes a file, the one that `p` leads to if there is one. -/
def write (d : Disk) (p : Path) (content : Option String) (modified : Moment) : Disk :=
  match d.locate p.steps with
  | .ok l => if d.isDirectoryAt l then d else d.put l (.file content modified)
  | .error _ => d.place p (.file content modified)

def touch (d : Disk) (p : Path) (modified : Moment) : Disk :=
  match d.locate p.steps with
  | .ok l =>
    match d.entry? l with
    | some (.file content _) => d.put l (.file content modified)
    | _ => d
  | .error _ => d

def link (d : Disk) (target p : Path) : Disk :=
  if d.isTaken p.steps then d else d.place p (.link target)

/-- Removes what stands at `p` with everything below it, but not what a link leads to. -/
def remove (d : Disk) (p : Path) : Disk :=
  match d.follow false linkLimit p.steps d.workingDirectory with
  | .ok l => if p.steps.isEmpty then d else
    { d with entries := d.entries.filter fun k _ => !l.isPrefixOf k }
  | .error _ => d

end ContainerAliases.Disk
