import ContainerAliases.Cache.Basic
import ContainerAliases.CommandLine.Arguments
import ContainerAliases.CommandLine.Outcome
import ContainerAliases.Config.Reader
import ContainerAliases.Json.Pretty
import ContainerAliases.Project.Query
import ContainerAliases.Project.Root

namespace ContainerAliases

def Project.tracked (p : Project) : Alias.Tracked Source.Node :=
  { toProvider := p.provider
    root := p.root
    pattern := p.pattern
    generation := p.generation
    changes := p.changes }

namespace CommandLine

open Disk

def versionText : String := "laravel-dic 0.1.0\n"

def helpText : String :=
  "Static discovery of Laravel service-container aliases for editor tooling

Usage: laravel-dic [OPTIONS] [PATH]

Arguments:
  [PATH]  Project directory, or any file or directory inside it [default: .]

Options:
      --keys                       Print only the alias names
      --watch                      Keep running and print again whenever the aliases change
      --interval-ms <INTERVAL_MS>  Polling interval for --watch, in milliseconds [default: 1000]
  -h, --help                       Print help
  -V, --version                    Print version
"

/-- The aliases with their names, or the aliases alone. -/
def render (keysOnly : Bool) (s : Snapshot) : String :=
  String.ofList <|
    (if keysOnly then Json.strings 0 s.index.keys.keys else Json.lists 0 s.index.map.toList) ++
      ['\n']

def Outcome.ofError (context : String) (e : Error) : Outcome :=
  .failure context (e.message :: e.cause?.toList)

/-- The place that a path names, written from the root on. -/
def resolve (d : Disk) (p : Path) : Except Disk.Fault Path :=
  (d.locate p.steps).map fun l => ⟨true, l⟩

/-- The root of the project that `p` belongs to; without one `p` is taken for it. -/
def projectRoot (d : Disk) (p : Path) : Path := (Project.rootOf? d p).getD p

def printAliases (d : Disk) (o : Options) : Outcome :=
  let path := Path.ofText (o.path.getD ".")
  match resolve d path with
  | .error f => .failure s!"Failed to resolve {path}" [f.message]
  | .ok start =>
    let root := projectRoot d start
    match Config.load d root with
    | .error e => .ofError "Failed to load configuration" e
    | .ok config =>
      match Project.onDisk d root config 0 with
      | .error e => .ofError "Failed to index project" e
      | .ok p => .success (render o.keys (Cache.empty.request p.tracked).1.snapshot)

def run (d : Disk) (args : List String) : Outcome :=
  match Request.ofArguments args with
  | .run o => printAliases d o
  | .help => .success helpText
  | .version => .success versionText
  | .misused => ⟨2, "", ""⟩

end CommandLine

end ContainerAliases
