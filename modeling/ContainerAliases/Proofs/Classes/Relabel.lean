import ContainerAliases.Proofs.Classes.Reading
import ContainerAliases.Proofs.Source.Relabel

namespace ContainerAliases.Classes

open Source
open SyntaxTree (KeepsWords relabel)

variable {f : SyntaxTree → Label} (hf : KeepsWords f)
include hf

namespace Import

theorem named?_relabel (clause : SyntaxTree) :
    named? (clause.relabel f) = (named? clause).map (relabel f) := by
  rw [named?, named?, SyntaxTree.namedChildren_relabel hf]
  exact SyntaxTree.find?_map_relabel hf
    (fun k => k == .qualifiedName || k == .name || k == .namespaceName) _

theorem alias?_relabel (clause : SyntaxTree) :
    alias? (clause.relabel f) = (alias? clause).map (relabel f) := by
  have wrapper := SyntaxTree.find?_map_relabel hf (· == .namespaceAliasingClause)
    clause.namedChildren
  have wrapped (c : SyntaxTree) := SyntaxTree.find?_map_relabel hf (· == .name) c.namedChildren
  rw [alias?, alias?, SyntaxTree.namedChildren_relabel hf, SyntaxTree.child?_relabel hf, wrapper]
  cases clause.child? .shortName with
  | some t => rfl
  | none =>
    cases clause.namedChildren.find? fun c => c.kind == .namespaceAliasingClause with
    | none => rfl
    | some c =>
      simp only [Option.map_none, Option.none_or, Option.map_some, Option.bind_some,
        SyntaxTree.namedChildren_relabel hf]
      exact wrapped c

theorem clausesOf_relabel_of {ts : List SyntaxTree}
    (h : ∀ t ∈ ts, clauses (t.relabel f) = (clauses t).map (relabel f)) :
    clausesOf (ts.map (relabel f)) = (clausesOf ts).map (relabel f) := by
  rw [clausesOf_eq, clausesOf_eq, ← List.map_reverse, List.flatMap_map, List.map_flatMap]
  refine List.flatMap_congr fun t ht => ?_
  rw [SyntaxTree.isNamed_relabel hf, h t (List.mem_reverse.1 ht)]
  split <;> rfl

theorem clauses_relabel (t : SyntaxTree) :
    clauses (t.relabel f) = (clauses t).map (relabel f) := by
  induction t using SyntaxTree.induction_children with
  | h t ih =>
    rw [clauses_eq, clauses_eq, SyntaxTree.kind_relabel hf, SyntaxTree.children_relabel,
      clausesOf_relabel_of hf ih]
    split <;> rfl

theorem clausesOf_relabel (ts : List SyntaxTree) :
    clausesOf (ts.map (relabel f)) = (clausesOf ts).map (relabel f) :=
  clausesOf_relabel_of hf fun t _ => clauses_relabel hf t

end Import

theorem writtenParents_relabel (t : SyntaxTree) :
    writtenParents (t.relabel f) = (writtenParents t).map (relabel f) := by
  have clauses := SyntaxTree.filter_map_relabel hf
    (fun k => k == .baseClause || k == .interfaceClause) t.namedChildren
  rw [writtenParents, SyntaxTree.namedChildren_relabel hf, clauses, List.flatMap_map]
  simp only [SyntaxTree.namedChildren_relabel hf]
  rw [← List.map_flatMap]
  exact SyntaxTree.filter_map_relabel hf (fun k => k == .name || k == .qualifiedName) _

end ContainerAliases.Classes
