import ContainerAliases.Disk.Basic
import ContainerAliases.Glob.Pattern
import ContainerAliases.Json.Fault

namespace ContainerAliases

inductive Error where
  | unreadable (path : Disk.Path) (fault : Disk.Fault)
  | invalidConfig (path : Disk.Path) (source : String) (fault : Json.Fault)
  | invalidPattern (entry : String) (fault : Glob.Fault)

namespace Error

def cause? : Error → Option String
  | unreadable _ f => some f.message
  | invalidConfig _ source f => some (f.message source)
  | invalidPattern .. => none

def message : Error → String
  | unreadable p f => s!"failed to read {p}: {f.message}"
  | invalidConfig p source f => s!"invalid config file {p}: {f.message source}"
  | invalidPattern entry f => "invalid scan path pattern '" ++ entry ++ "': " ++ f.message

end Error

end ContainerAliases
