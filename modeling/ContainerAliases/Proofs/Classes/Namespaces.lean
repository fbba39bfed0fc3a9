import ContainerAliases.Proofs.Classes.Reading
import ContainerAliases.Source.Grammar.Statement

namespace ContainerAliases.Classes

open Source

theorem index_node (l : Label) (ts : List SyntaxTree) :
    index (.node l ts) = (declaredIn default ts).2 := rfl

/-- The index of a program with the namespace `n` between `before` and `after`. -/
structure Separates (l : Label) (before : List SyntaxTree) (n : SyntaxTree)
    (after : List SyntaxTree) : Prop where
  /-- A namespace without a body ends all that holds before it. -/
  unbraced : n.child? .body = none → index (.node l (before ++ n :: after)) =
    index (.node l before) ++ index (.node l (n :: after))
  /-- One with a body stands for itself, and the rest is as if it were not there. -/
  braced : n.child? .body ≠ none → ∃ rest,
    index (.node l (before ++ after)) = index (.node l before) ++ rest ∧
    index (.node l (before ++ n :: after)) =
      index (.node l before) ++ index (.node l [n]) ++ rest

/-- Namespaces do not leak into each other. -/
theorem namespace_separates (l : Label) (before after : List SyntaxTree) {n : SyntaxTree}
    (hn : n.kind = .namespaceDefinition) : Separates l before n after := by
  have named := isNamed_of_namespace hn
  refine ⟨fun hb => ?_, fun hb => ?_⟩
  · -- what follows is read in the scope of `n`, with or without `before`
    have follows (s : Scope) :
        (declaredIn s (n :: after)).2 = (declaredIn (spaceOf n) after).2 := by
      rw [declaredIn_cons named, declared_of_unbraced hn hb, List.nil_append]
    simp only [index_node, declaredIn_append, follows]
  · obtain ⟨b, hb⟩ := Option.ne_none_iff_exists'.1 hb
    have inserted (s : Scope) (ts : List SyntaxTree) : declaredIn s (n :: ts) =
        ((declaredIn s ts).1, (declaredIn (spaceOf n) b.children).2 ++ (declaredIn s ts).2) := by
      rw [declaredIn_cons named, declared_of_braced hn hb]
    refine ⟨(declaredIn (declaredIn default before).1 after).2, ?_, ?_⟩
    · rw [index_node, declaredIn_append, index_node]
    · simp only [index_node, declaredIn_append, inserted, declaredIn_nil, List.append_nil,
        List.append_assoc]

-- Imports before, inside and after a namespace with a body, and one without behind it.
namespace Mixed

def program : SyntaxTree :=
  (parse "<?php use X\\Y; class P extends Y \x7b\x7d
    namespace B \x7b use Z\\Y; class Q extends Y \x7b\x7d \x7d
    class R extends Y \x7b\x7d namespace C; class S extends Y \x7b\x7d").tree

def space (k : Nat) : SyntaxTree := program.children.getD k default

theorem kinds : (space 3).kind = .namespaceDefinition ∧ ((space 3).child? .body).isSome ∧
    (space 5).kind = .namespaceDefinition ∧ (space 5).child? .body = none := by
  decide +kernel

end Mixed

theorem namespace_separates_mixed :
    (Mixed.space 3).kind = .namespaceDefinition ∧ (Mixed.space 5).kind = .namespaceDefinition ∧
      Separates Mixed.program.label (Mixed.program.children.take 3) (Mixed.space 3)
        (Mixed.program.children.drop 4) ∧
      Separates Mixed.program.label (Mixed.program.children.take 5) (Mixed.space 5)
        (Mixed.program.children.drop 6) ∧
      (index Mixed.program).map (fun c => (c.fqcn, c.parents)) =
        [("P", ["X\\Y"]), ("B\\Q", ["Z\\Y"]), ("R", ["X\\Y"]), ("C\\S", ["C\\Y"])] :=
  ⟨Mixed.kinds.1, Mixed.kinds.2.2.1, namespace_separates _ _ _ Mixed.kinds.1,
    namespace_separates _ _ _ Mixed.kinds.2.2.1, by decide +kernel⟩

end ContainerAliases.Classes
