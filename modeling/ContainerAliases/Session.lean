import ContainerAliases.CommandLine.Run
import ContainerAliases.Disk.Edit

namespace ContainerAliases

structure Session where
  disk : Disk
  projects : OrderedMap String Project
  caches : OrderedMap String Cache
  nextGeneration : Nat
  deriving Inhabited

namespace Session

def start (disk : Disk) : Session := ⟨disk, ∅, ∅, 1⟩

def project? (s : Session) (name : String) : Option Project := s.projects.get? name

/-- A cache that was never used is empty. -/
def cache (s : Session) (name : String) : Cache := (s.caches.get? name).getD ∅

def setProject (s : Session) (name : String) (p : Project) : Session :=
  { s with projects := s.projects.insert name p }

def setCache (s : Session) (name : String) (c : Cache) : Session :=
  { s with caches := s.caches.insert name c }

def changeDisk (s : Session) (f : Disk → Disk) : Session := { s with disk := f s.disk }

def grown (s : Session) : Session := { s with nextGeneration := s.nextGeneration + 1 }

/-- A project of buffers under `name`, which takes the place of the one before. -/
def addSources (s : Session) (name : String) (root : Disk.Path) (config : Config)
    (sources : List (Disk.Path × String)) : Session :=
  s.grown.setProject name (.ofSources root config s.nextGeneration sources)

/-- The project on the disk at `root` under `name`. After an error the name keeps its project. -/
def openProject (s : Session) (name : String) (root : Disk.Path) (config : Config) :
    Except Error Unit × Session :=
  match Project.onDisk s.disk root config s.nextGeneration with
  | .ok p => (.ok (), s.grown.setProject name p)
  | .error e => (.error e, s.grown)

/-- Refreshes a project, and tells whether anything changed. -/
def refresh (s : Session) (name : String) (p : Project) : Except Error Bool × Session :=
  match p.refresh s.disk with
  | .ok (q, changed) => (.ok changed, s.setProject name q)
  | .error e => (.error e, s)

def request (s : Session) (cacheName : String) (p : Project) : Cache.Held × Session :=
  let (h, c) := (s.cache cacheName).request p.tracked
  (h, s.setCache cacheName c)

def invalidate (s : Session) (cacheName : String) (root : Disk.Path) : Session :=
  s.setCache cacheName ((s.cache cacheName).invalidate root)

end Session

end ContainerAliases
