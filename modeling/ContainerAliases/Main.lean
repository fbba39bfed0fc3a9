import ContainerAliases.CommandLine.Run
import ContainerAliases.Disk.Edit

/-!
The command on a real disk. What it may look at is copied first: the way to the path it is given,
the marks of a root above it, the configuration, and all that the scan paths can lead to.
-/

namespace ContainerAliases.CommandLine

open Disk

def locationOf (text : String) : Location := (text.splitOn "/").filter (· ≠ "")

def momentOf (t : IO.FS.SystemTime) : Moment := t.sec * second + t.nsec.toNat

/-- A name that no file has. -/
def nowhere : Path := ⟨true, ["\x00"]⟩

def withDirectories (d : Disk) (l : Location) : Disk :=
  (List.range l.length).foldl (fun d n => d.put (l.take (n + 1)) .directory) d

/-- Copies one entry as it is, a link together with what it leads to. -/
partial def copyEntry (d : Disk) (parent : String) (name : String) : IO Disk := do
  let real ← IO.FS.realPath parent
  let place := real / name
  let parents := locationOf real.toString
  let d := withDirectories d parents
  let l := parents ++ [name]
  try
    let data ← place.symlinkMetadata
    match data.type with
    | .dir => return d.put l .directory
    | .symlink =>
      try
        let target ← IO.FS.realPath place
        let d := d.put l (.link (.ofText target.toString))
        match target.parent, target.fileName with
        | some above, some name => copyEntry d above.toString name
        | _, _ => return d
      catch _ => return d.put l (.link nowhere)
    | .file =>
      let bytes ← IO.FS.readBinFile place
      return d.put l (.file (String.fromUTF8? bytes) (momentOf data.modified))
    | .other => return d.put l (.file (some "") (momentOf data.modified))
  catch _ => return d

def copyWay (d : Disk) (p : Path) : IO Disk := do
  let mut d := d
  for n in List.range p.segments.length do
    let front : Path := ⟨p.isAbsolute, p.segments.take n⟩
    match p.segments[n]? with
    | some s =>
      if !Component.isIdle s && s != ".." then
        try d ← copyEntry d (if front.text.isEmpty then "." else front.text) s
        catch _ => pure ()
    | none => pure ()
  return d

/-- Copies everything below a directory, also through links, once. -/
partial def copyBelow (d : Disk) (seen : List String) (place : String) :
    IO (Disk × List String) := do
  try
    let real ← IO.FS.realPath place
    if seen.contains real.toString then return (d, seen)
    let mut state := (d, real.toString :: seen)
    for e in ← real.readDir do
      let d ← copyEntry state.1 real.toString e.fileName
      state ← copyBelow d state.2 e.path.toString
    return state
  catch _ => return (d, seen)

/-- What a scan path names in front of its first wildcard. -/
def fixedPart (root : Path) (entry : String) : Path :=
  let full := root.child entry
  if entry.toList.any Project.isWildcard then
    ⟨full.isAbsolute, full.segments.takeWhile fun s => !s.toList.any Project.isWildcard⟩
  else full

def survey (args : List String) : IO Disk := do
  let here ← IO.currentDir
  let mut d := withDirectories default (locationOf here.toString)
  d := { d with workingDirectory := locationOf here.toString }
  match Request.ofArguments args with
  | .run o =>
    let path := Path.ofText (o.path.getD ".")
    d ← copyWay d path
    match resolve d path with
    | .error _ => return d
    | .ok start =>
      for above in start.ancestors do
        for mark in ["composer.json", "artisan", "app", "vendor"] do
          d ← copyWay d (above.child mark)
      let root := projectRoot d start
      d ← copyWay d (root.child Config.fileName)
      match Config.load d root with
      | .error _ => return d
      | .ok config =>
        let mut seen := []
        for entry in config.scanPaths do
          let top := fixedPart root entry
          d ← copyWay d top
          (d, seen) ← copyBelow d seen top.text
        return d
  | _ => return d

end ContainerAliases.CommandLine

def main (args : List String) : IO UInt32 := do
  let disk ← ContainerAliases.CommandLine.survey args
  let outcome := ContainerAliases.CommandLine.run disk args
  (← IO.getStdout).putStr outcome.output
  (← IO.getStderr).putStr outcome.complaint
  return outcome.code.toUInt32
