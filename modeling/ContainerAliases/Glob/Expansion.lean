import ContainerAliases.Disk.Basic
import ContainerAliases.Glob.Pattern

/-!
What a pattern between slashes stands for on a disk. Each segment is matched against the names in
the directories reached so far; a segment without wildcards is looked up, and `**` leads into
directories at any depth.
-/

namespace ContainerAliases.Glob

open Disk

/-- The entry of a directory; what is in the current one is written without the dot. -/
def entryOf (p : Path) (name : String) : Path :=
  if p.components = [.current] then .ofText name else p.child name

def entries (d : Disk) (p : Path) : List Path :=
  match d.locate p.steps with
  | .ok l => if d.isDirectoryAt l then (d.names l).map (entryOf p) else []
  | .error _ => []

def leadsOn (d : Disk) (p : Path) (segment : String) : Bool :=
  if segment == "." || segment == ".." then d.isDirectory p.steps
  else d.isTaken (entryOf p segment).steps

/-- The two dots of a directory are found only by a pattern that begins with a dot. -/
def dots (d : Disk) (p : Path) (pattern : Pattern) : List Path :=
  if d.isDirectory p.steps && pattern.head? == some (.char '.') then
    ([".", ".."].filter fun s => pattern.covers s.toList).map p.child
  else []

/-- The patterns after those that are recursive too: in a row they say no more than one does. -/
def afterRecursive (ps : List Pattern) : List Pattern := ps.dropWhile Pattern.isRecursive

def keep (go : List Pattern → Path → List Path) (pattern : Pattern) (rest : List Pattern)
    (p : Path) : List Path :=
  if p.fileName?.any fun s => pattern.covers s.toList then go rest p else []

/-- What the patterns lead to if the first is about `p` itself. -/
def choose (d : Disk) (go : List Pattern → Path → List Path) (pattern : Pattern)
    (rest : List Pattern) (p : Path) : List Path :=
  if pattern.isRecursive then
    let rest := afterRecursive rest
    let inside := d.isDirectory p.steps
    (if inside then go (pattern :: rest) p else []) ++
      match rest with
      | [] => if inside then [p] else []
      | next :: rest => keep go next rest p
  else keep go pattern rest p

/-- What the patterns lead to from `p`. One unit of `depth` is spent on each step down. -/
def descend (d : Disk) : Nat → List Pattern → Path → List Path
  | _, [], p => [p]
  | 0, _ :: _, _ => []
  | depth + 1, pattern :: rest, p =>
    match pattern.literal? with
    | some s => if leadsOn d p s then descend d depth rest (entryOf p s) else []
    | none =>
      (entries d p).flatMap (choose d (descend d depth) pattern rest) ++
        (dots d p pattern).flatMap (descend d depth rest)

/-- No more steps lead down along the patterns: each is about one name, or is `**` and about names
in a row, and between two links at most all entries are passed. -/
def depthLimit (d : Disk) (patterns : List Pattern) : Nat :=
  patterns.length * ((linkLimit + 1) * d.entries.size + 1)

def patterns (p : Path) : Except Fault (List Pattern) := do
  let _ ← Pattern.ofText p.text
  (if p.segments.getLast? = some "" then p.segments.dropLast else p.segments).mapM Pattern.ofText

/-- The paths that match `p`. A slash at the end asks for directories. -/
def expand (d : Disk) (p : Path) : Except Fault (List Path) := do
  let patterns ← patterns p
  let start : Path := if p.isAbsolute then ⟨true, []⟩ else ⟨false, ["."]⟩
  let found := descend d (depthLimit d patterns) patterns start
  return if p.segments.getLast? = some "" then found.filter fun q => d.isDirectory q.steps
    else found

end ContainerAliases.Glob
