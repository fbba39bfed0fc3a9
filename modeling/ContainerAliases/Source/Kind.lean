namespace ContainerAliases.Source

/-- What a node stands for. The constructs that decide nothing here share `other`. -/
inductive Kind where
  | program
  | classDeclaration
  | interfaceDeclaration
  | methodDeclaration
  | namespaceDefinition
  | namespaceUseDeclaration
  | namespaceUseClause
  | namespaceUseGroup
  | namespaceUseGroupClause
  | namespaceAliasingClause
  | namespaceName
  | qualifiedName
  | relativeName
  | name
  | baseClause
  | interfaceClause
  | variableName
  | assignment
  | referenceAssignment
  | staticVariable
  | arrayCreation
  | arrayElement
  | listLiteral
  | string
  | encapsedString
  | stringContent
  | stringValue
  | escapeSequence
  | comment
  | textInterpolation
  | other (name : String)
  /-- A keyword or a punctuation mark. -/
  | token (text : String)
  deriving DecidableEq, Repr, Inhabited

namespace Kind

/-- The kinds with a name of their own. -/
def named : List (Kind × String) :=
  [(program, "program"),
   (classDeclaration, "class_declaration"),
   (interfaceDeclaration, "interface_declaration"),
   (methodDeclaration, "method_declaration"),
   (namespaceDefinition, "namespace_definition"),
   (namespaceUseDeclaration, "namespace_use_declaration"),
   (namespaceUseClause, "namespace_use_clause"),
   (namespaceUseGroup, "namespace_use_group"),
   (namespaceUseGroupClause, "namespace_use_group_clause"),
   (namespaceAliasingClause, "namespace_aliasing_clause"),
   (namespaceName, "namespace_name"),
   (qualifiedName, "qualified_name"),
   (relativeName, "relative_name"),
   (name, "name"),
   (baseClause, "base_clause"),
   (interfaceClause, "class_interface_clause"),
   (variableName, "variable_name"),
   (assignment, "assignment_expression"),
   (referenceAssignment, "reference_assignment_expression"),
   (staticVariable, "static_variable_declaration"),
   (arrayCreation, "array_creation_expression"),
   (arrayElement, "array_element_initializer"),
   (listLiteral, "list_literal"),
   (string, "string"),
   (encapsedString, "encapsed_string"),
   (stringContent, "string_content"),
   (stringValue, "string_value"),
   (escapeSequence, "escape_sequence"),
   (comment, "comment"),
   (textInterpolation, "text_interpolation")]

def toString : Kind → String
  | other s => s
  | token s => s
  | k => (named.lookup k).getD ""

instance : ToString Kind := ⟨toString⟩

def ofName (s : String) : Kind :=
  ((named.find? fun p => p.2 == s).map Prod.fst).getD (other s)

/-- Keywords and punctuation are the only nodes without a name. -/
def isNamed : Kind → Bool
  | token _ => false
  | _ => true

end Kind

inductive Role where
  | name
  | body
  | shortName
  | left
  | right
  | value
  deriving DecidableEq, Repr

end ContainerAliases.Source
