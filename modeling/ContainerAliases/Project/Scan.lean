import ContainerAliases.Config.Basic
import ContainerAliases.Error
import ContainerAliases.Glob.Expansion

namespace ContainerAliases.Project

open Disk

abbrev FileSet := OrderedMap Route Unit

def isWildcard (c : Char) : Bool := c == '*' || c == '?' || c == '['

/-- What a scan path stands for. -/
def starts (d : Disk) (root : Path) (entry : String) : Except Error (List Path) :=
  let full := root.child entry
  if entry.toList.any isWildcard then (Glob.expand d full).mapError (.invalidPattern entry)
  else .ok (if d.reaches full.steps then [full] else [])

def isSource (r : Route) : Bool := r.extension? == some "php"

/-- Every directory strictly between `top` and the entry at `names` below it is a real one, and none
of them excluded. -/
def isOpen (d : Disk) (c : Config) (top : Location) (names : List String) : Bool :=
  names.dropLast.all (!c.isExcluded ·) &&
    (List.range (names.length - 1)).all fun n => d.isDirectoryAt (top ++ names.take (n + 1))

/-- The sources below a directory that is reached by `start`. -/
def sourcesBelow (d : Disk) (c : Config) (start : Path) : List Route :=
  match d.locate start.steps with
  | .error _ => []
  | .ok top =>
    if d.isDirectoryAt top then
      (d.below top).filterMap fun (names, e) =>
        let r := start.components ++ names.map .name
        if e.isFile && isSource r && isOpen d c top names then some r else none
    else []

def sourcesAt (d : Disk) (c : Config) (start : Path) : List Route :=
  if d.isFile start.steps then
    if isSource start.components then [start.components] else []
  else sourcesBelow d c start

/-- All sources under the scan paths. The first scan path that is no pattern is the error. -/
def scan (d : Disk) (root : Path) (c : Config) : Except Error FileSet := do
  let found ← c.scanPaths.mapM (starts d root)
  return .ofList ((found.flatten.flatMap (sourcesAt d c)).map fun r => (r, ()))

end ContainerAliases.Project
