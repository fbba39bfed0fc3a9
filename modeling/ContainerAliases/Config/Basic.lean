import ContainerAliases.Alias.Discovery

namespace ContainerAliases

structure Config where
  baseClass : String
  registerMethod : String
  aliasesVariable : String
  /-- Directories and files below the root, with or without wildcards. -/
  scanPaths : List String
  excludedDirs : List String
  deriving DecidableEq, Repr

namespace Config

def standard : Config where
  baseClass := Alias.Pattern.standard.baseClass
  registerMethod := Alias.Pattern.standard.registerMethod
  aliasesVariable := Alias.Pattern.standard.aliasesVariable
  scanPaths := ["vendor/laravel/framework/src/Illuminate/Foundation", "app", "bootstrap"]
  excludedDirs := ["node_modules", "tests", "Tests", ".git"]

instance : Inhabited Config := ⟨standard⟩

def pattern (c : Config) : Alias.Pattern := ⟨c.baseClass, c.registerMethod, c.aliasesVariable⟩

def isExcluded (c : Config) (name : String) : Bool := c.excludedDirs.contains name

inductive Field where
  | baseClass
  | registerMethod
  | aliasesVariable
  | scanPaths
  | excludedDirs
  deriving DecidableEq, Repr

/-- The fields in the order in which a list gives them. -/
def Field.all : List Field :=
  [.baseClass, .registerMethod, .aliasesVariable, .scanPaths, .excludedDirs]

def Field.name : Field → String
  | baseClass => "base_class"
  | registerMethod => "register_method"
  | aliasesVariable => "aliases_variable"
  | scanPaths => "scan_paths"
  | excludedDirs => "excluded_dirs"

def Field.ofName? (s : String) : Option Field := Field.all.find? fun f => f.name == s

def replace {m : Type → Type} [Monad m] (c : Config) (text : m String) (texts : m (List String)) :
    Field → m Config
  | .baseClass => return { c with baseClass := ← text }
  | .registerMethod => return { c with registerMethod := ← text }
  | .aliasesVariable => return { c with aliasesVariable := ← text }
  | .scanPaths => return { c with scanPaths := ← texts }
  | .excludedDirs => return { c with excludedDirs := ← texts }

def expected : String := "struct DicConfig"

end Config

end ContainerAliases
