import ContainerAliases.Session

namespace ContainerAliases.Session

inductive Question where
  | snapshot
  | map
  | keys

inductive Answer where
  | snapshot (s : Snapshot)
  | map (m : Alias.AliasMap)
  | keys (k : Alias.KeySet)

inductive Step where
  | changeDisk (f : Disk → Disk)
  | addSources (name : String) (root : Disk.Path) (config : Config)
      (sources : List (Disk.Path × String))
  | openProject (name : String) (root : Disk.Path) (config : Config)
  | update (name : String) (path : Disk.Path) (text : String)
  | remove (name : String) (path : Disk.Path)
  | refresh (name : String)
  | ask (cacheName name : String) (q : Question)
  | invalidate (cacheName : String) (root : Disk.Path)

def Question.read (s : Snapshot) : Question → Answer
  | .snapshot => .snapshot s
  | .map => .map s.index.map
  | .keys => .keys s.index.keys

/-- The answer without a cache: what is discovered in `p` as it is, and the present stamp. -/
def Question.uncached (p : Project) : Question → Answer
  | .snapshot => .snapshot ⟨p.generation, p.changes, p.pattern, ⟨p.aliasMap, p.aliasKeys⟩⟩
  | .map => .map p.aliasMap
  | .keys => .keys p.aliasKeys

def withProject (s : Session) (name : String) (f : Project → Session) : Session :=
  (s.project? name).elim s f

def Step.apply (s : Session) : Step → Session
  | .changeDisk f => s.changeDisk f
  | .addSources name root config sources => s.addSources name root config sources
  | .openProject name root config => (s.openProject name root config).2
  | .update name path text => s.withProject name fun p => s.setProject name (p.update path text)
  | .remove name path => s.withProject name fun p => s.setProject name (p.remove path).1
  | .refresh name => s.withProject name fun p => (s.refresh name p).2
  | .ask cacheName name _ => s.withProject name fun p => (s.request cacheName p).2
  | .invalidate cacheName root => s.invalidate cacheName root

def run (s : Session) (steps : List Step) : Session := steps.foldl (fun s x => x.apply s) s

/-- What the cache answers. Only questions about a project that is there have an answer. -/
def Step.answer? (s : Session) : Step → Option Answer
  | .ask cacheName name q =>
    (s.project? name).map fun p => q.read (s.request cacheName p).1.snapshot
  | _ => none

def Step.discovery? (s : Session) : Step → Option Answer
  | .ask _ name q => (s.project? name).map q.uncached
  | _ => none

/-- The answers that `answer` gives along a run, each in the state in which its step is taken. -/
def answers (answer : Session → Step → Option Answer) (s : Session) : List Step → List Answer
  | [] => []
  | x :: steps => (answer s x).toList ++ answers answer (x.apply s) steps

end ContainerAliases.Session
