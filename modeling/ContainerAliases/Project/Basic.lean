import ContainerAliases.Project.File
import ContainerAliases.Project.Scan

namespace ContainerAliases

open Disk

/-- Files by route: however a path is spelled, it has one file. -/
abbrev Project.FileMap := OrderedMap Route Project.SourceFile

structure Project where
  root : Path
  config : Config
  files : Project.FileMap
  /-- Tells this project from all others that were ever opened. -/
  generation : Nat
  changes : Nat

namespace Project

def empty (root : Path) (config : Config) (generation : Nat) : Project :=
  ⟨root, config, ∅, generation, 0⟩

def pattern (p : Project) : Alias.Pattern := p.config.pattern

/-- What a path is known by: a relative one starts at the root. -/
def key (p : Project) (path : Path) : Route := (p.root.join path).components

def putBuffer (p : Project) (path : Path) (text : String) : Project :=
  { p with files := p.files.insert (p.key path) (.ofText text .buffer) }

/-- A project of buffers; the disk is not looked at. -/
def ofSources (root : Path) (config : Config) (generation : Nat)
    (sources : List (Path × String)) : Project :=
  sources.foldl (fun p s => p.putBuffer s.1 s.2) (empty root config generation)

def touched (p : Project) : Project := { p with changes := p.changes + 1 }

/-- The text of a buffer hides what is on the disk. -/
def update (p : Project) (path : Path) (text : String) : Project := (p.putBuffer path text).touched

/-- Forgets a file, and tells whether it was known. -/
def remove (p : Project) (path : Path) : Project × Bool :=
  if p.files.contains (p.key path) then
    ({ p with files := p.files.erase (p.key path) }.touched, true)
  else (p, false)

/-- A file of the disk that is no longer found there. Buffers stay. -/
def isGone (found : FileSet) (r : Route) (f : SourceFile) : Bool :=
  f.origin != .buffer && !found.contains r

/-- Reads a file; one that cannot be read is forgotten. -/
def reload (d : Disk) (files : FileMap) (r : Route) (stamp : Option Stamp) : FileMap :=
  match d.readText r with
  | .ok text => files.insert r (.ofText text (.disk stamp))
  | .error _ => files.erase r

/-- Brings one file up to date, and notes whether anything had to be done. -/
def refreshFile (d : Disk) (s : FileMap × Bool) (r : Route) : FileMap × Bool :=
  let stamp := (d.modified? r).map Stamp.ofMoment
  if needsReload ((s.1.get? r).map SourceFile.origin) stamp then (reload d s.1 r stamp, true) else s

def refreshFiles (d : Disk) (found : FileSet) (files : FileMap) : FileMap × Bool :=
  let kept := files.filter fun r f => !isGone found r f
  found.keys.foldl (refreshFile d) (kept, kept.size != files.size)

/-- Brings the files that come from the disk up to date, and tells whether anything changed. -/
def refresh (p : Project) (d : Disk) : Except Error (Project × Bool) := do
  let found ← scan d p.root p.config
  let (files, changed) := refreshFiles d found p.files
  let q := { p with files }
  return (if changed then q.touched else q, changed)

def onDisk (d : Disk) (root : Path) (config : Config) (generation : Nat) :
    Except Error Project :=
  return (← (empty root config generation).refresh d).1

end Project

end ContainerAliases
