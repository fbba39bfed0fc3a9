import ContainerAliases.Alias.Literal
import ContainerAliases.Alias.Site

namespace ContainerAliases.Alias

/-- Names that say where the alias array stands. -/
structure Pattern where
  baseClass : String
  registerMethod : String
  aliasesVariable : String
  deriving DecidableEq, Repr

def Pattern.standard : Pattern where
  baseClass := "Illuminate\\Foundation\\Application"
  registerMethod := "registerCoreContainerAliases"
  aliasesVariable := "aliases"

instance : Inhabited Pattern := ⟨.standard⟩

/-- A project in which classes and their methods can be looked up. -/
structure Provider (N : Type) where
  /-- Every class or interface that is, extends or implements the named one. -/
  classes : String → List N
  method : N → String → Option N

/-- What is done with one entry after another. -/
abbrev Visitor (N : Type) (σ : Type) := σ → Entry N → σ

namespace Provider

variable {N : Type} [SyntaxNode N] {σ : Type}

/-- Hands every alias entry to the visitor: by class, then declaration, then array position. -/
def visit (p : Provider N) (pattern : Pattern) (v : Visitor N σ) (s : σ) : σ :=
  (p.classes pattern.baseClass).foldl (fun s c =>
    match p.method c pattern.registerMethod with
    | none => s
    | some m =>
      (Site.below m pattern.aliasesVariable).foldl (fun s site =>
        match site.array with
        | none => s
        | some a => (Entry.ofArray a).foldl v s) s) s

def entries (p : Provider N) (pattern : Pattern) : List (Entry N) :=
  (p.classes pattern.baseClass).flatMap fun c =>
    (p.method c pattern.registerMethod).toList.flatMap fun m =>
      (Site.below m pattern.aliasesVariable).flatMap fun site =>
        site.array.toList.flatMap Entry.ofArray

theorem visit_eq_foldl (p : Provider N) (pattern : Pattern) (v : Visitor N σ) (s : σ) :
    p.visit pattern v s = (p.entries pattern).foldl v s := by
  have site (s : σ) (t : Site N) :
      (t.array.toList.flatMap Entry.ofArray).foldl v s =
        match t.array with
        | none => s
        | some a => (Entry.ofArray a).foldl v s := by
    cases t.array <;> simp
  have method (s : σ) (m : Option N) :
      (m.toList.flatMap fun m => (Site.below m pattern.aliasesVariable).flatMap fun t =>
        t.array.toList.flatMap Entry.ofArray).foldl v s =
        match m with
        | none => s
        | some m => (Site.below m pattern.aliasesVariable).foldl (fun s t =>
          match t.array with
          | none => s
          | some a => (Entry.ofArray a).foldl v s) s := by
    cases m <;> simp [List.foldl_flatMap, site]
  simp only [visit, entries, List.foldl_flatMap, method]

end Provider

end ContainerAliases.Alias
