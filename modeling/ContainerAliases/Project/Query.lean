import ContainerAliases.Alias.Collection
import ContainerAliases.Classes.Hierarchy
import ContainerAliases.Project.Basic
import ContainerAliases.Source.Node

namespace ContainerAliases.Project

open Source Classes

/-- Every declaration with the file it stands in, by route and then in source order. -/
def declarations (p : Project) : List (SourceFile × ClassDeclaration) :=
  p.files.values.flatMap fun f => f.classes.map fun c => (f, c)

def classes (p : Project) : List ClassDeclaration := p.declarations.map Prod.snd

/-- The declarations named `fqcn` and all that extends or implements them. -/
def hierarchy (p : Project) (fqcn : String) : List (SourceFile × ClassDeclaration) :=
  Classes.hierarchy Prod.snd p.declarations fqcn

def classNodes (p : Project) (fqcn : String) : List Node :=
  (p.hierarchy fqcn).filterMap fun (f, c) => (c.find? f.tree).map .root

/-- The first method of that name, up to ASCII case, in the body of the class. -/
def method? (c : Node) (name : String) : Option Node := do
  let body ← c.child? .body
  body.children.find? fun m =>
    m.kind == .methodDeclaration && (m.child? .name).any fun n => lower n.text == lower name

def provider (p : Project) : Alias.Provider Node := ⟨p.classNodes, method?⟩

def aliasMap (p : Project) : Alias.AliasMap := p.provider.aliasMap p.pattern

def aliasKeys (p : Project) : Alias.KeySet := p.provider.aliasKeys p.pattern

end ContainerAliases.Project
