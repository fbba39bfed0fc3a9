import ContainerAliases.Project.Query
import ContainerAliases.Proofs.Alias.Descendants
import ContainerAliases.Proofs.Alias.LastWrite
import ContainerAliases.Proofs.Classes.Descent
import ContainerAliases.Proofs.Source.Written

namespace ContainerAliases.Project

open Source Alias Written

/-- The elements are written as an array that the method assigns to the variable, and nothing below
the method declares the variable again. -/
structure Writes (method : Node) (target : String) (es : List Element) : Prop where
  assigned : ∃ a ∈ SyntaxNode.descendants method, ∃ t, a.tree.assigned? target = some t ∧
    (Value.array es).isWrittenAs t
  once : (SyntaxNode.descendants method).countP
    (fun n => SyntaxNode.declares n == some target) ≤ 1

theorem Writes.below_eq {m : Node} {target : String} {es : List Element}
    (h : Writes m target es) :
    ∃ d array, Site.below m target = [⟨d, some array⟩] ∧
      (Value.array es).isWrittenAs array.tree := by
  obtain ⟨⟨a, ha, t, ht, hes⟩, once⟩ := h
  obtain ⟨d, hd, declares, next⟩ := Node.exists_declares_of_assigned? ht
  obtain ⟨array, hnext, rfl⟩ := Option.map_eq_some_iff.1 next
  have isArray : array.isArray := by
    simp only [Value.isWrittenAs, Bool.and_eq_true] at hes
    exact hes.1
  refine ⟨d, array, ?_, hes⟩
  rw [Site.below_eq_singleton (SyntaxNode.mem_descendants_of_child ha hd) declares once]
  change [(⟨d, d.next.filter Node.isArray⟩ : Site Node)] = _
  rw [hnext, Option.filter_some, if_pos isArray]

/-- What the project finds binds the text keys as they were written. -/
theorem map_entries_of_writes {p : Project} {c m : Node} {es : List Element}
    (hc : p.classNodes p.pattern.baseClass = [c])
    (hm : method? c p.pattern.registerMethod = some m)
    (h : Writes m p.pattern.aliasesVariable es) :
    (p.provider.entries p.pattern).map (fun e => (e.key, namesOf e.value)) = bindings es := by
  obtain ⟨d, array, hsite, hes⟩ := h.below_eq
  have classes : p.provider.classes p.pattern.baseClass = [c] := hc
  have method : p.provider.method c p.pattern.registerMethod = some m := hm
  rw [← map_ofArray hes, Provider.entries, classes]
  simp only [List.flatMap_singleton, method, Option.toList_some, hsite]

/-- The map has the text keys of the elements, and a key means what its last element says. -/
structure Decodes (map : AliasMap) (es : List Element) : Prop where
  keys : ∀ k, map.contains k ↔ ∃ v, (some (.text k), v) ∈ es
  last : ∀ before k v after, es = before ++ (some (.text k), v) :: after →
    (∀ e ∈ after, e.1 ≠ some (.text k)) → map.get? k = some v.names

/-- An alias array means what was written, however it was written. -/
theorem aliasMap_decodes {p : Project} {c m : Node} {es : List Element}
    (hc : p.classNodes p.pattern.baseClass = [c])
    (hm : method? c p.pattern.registerMethod = some m)
    (h : Writes m p.pattern.aliasesVariable es) : Decodes p.aliasMap es := by
  have entries := map_entries_of_writes hc hm h
  refine ⟨fun k => ?_, fun before k v after hes last => ?_⟩
  · have key : (∃ e ∈ p.provider.entries p.pattern, e.key = k) ↔ ∃ ns, (k, ns) ∈ bindings es := by
      rw [← entries]
      simp
    rw [aliasMap, Provider.contains_aliasMap_iff, key]
    simp [mem_bindings]
  · rw [hes, bindings_append_cons] at entries
    obtain ⟨es₁, rest, he, -, hr⟩ := List.map_eq_append_iff.1 entries
    obtain ⟨e, es₂, rfl, hk, ha⟩ := List.map_eq_cons_iff.1 hr
    obtain ⟨rfl, hv⟩ := Prod.mk.inj hk
    have later : ∀ e' ∈ es₂, e'.key ≠ e.key := by
      intro e' hm hek
      have hb : (e.key, namesOf e'.value) ∈ bindings after := by
        rw [← ha, ← hek]
        exact List.mem_map_of_mem hm
      obtain ⟨v', hv', -⟩ := mem_bindings.1 hb
      exact last _ hv' rfl
    rw [aliasMap, Provider.get?_aliasMap_of_last he later, hv]

instance (method : Node) (target : String) (es : List Element) :
    Decidable (Writes method target es) :=
  decidable_of_iff
    (((SyntaxNode.descendants method).any fun a =>
        (a.tree.assigned? target).any (Value.array es).isWrittenAs) ∧
      (SyntaxNode.descendants method).countP
        (fun n => SyntaxNode.declares n == some target) ≤ 1) <| by
    simp only [List.any_eq_true, Option.any_eq_true]
    exact ⟨fun h => ⟨h.1, h.2⟩, fun h => ⟨h.assigned, h.once⟩⟩

-- An array with everything in it: both quotes, both ways to write an array, marks, comments, a key
-- written twice, and elements that register nothing.
namespace Potpourri

def config : Config :=
  { Config.standard with baseClass := "A", registerMethod := "r", aliasesVariable := "v" }

def text : String :=
  "<?php class A \x7b function r() \x7b $v /* all */ = array('db' => b'Db\\Old', \"log\" => [ // two
    'Log', K => \" \", ['x'], $w], 'blank' => B\" \", K => 'unseen', 'alone', 'ref' => &$w,
    'db' => \"D\\\"b\", ...$w); \x7d \x7d"

def elements : List Element :=
  [(some (.text "db"), .text "Db\\Old"),
    (some (.text "log"), .array [(none, .text "Log"), (some .other, .text " "),
      (none, .array [(none, .text "x")]), (none, .other)]),
    (some (.text "blank"), .text " "), (some .other, .text "unseen"), (none, .text "alone"),
    (some (.text "ref"), .other), (some (.text "db"), .text "D\\\"b"), (none, .other)]

def project : Project := .ofSources (.ofText "/p") config 1 [(.ofText "a.php", text)]

theorem reading : project.declarations.map (fun d => (d.2.name,
      (d.2.find? d.1.tree).any fun c =>
        (method? (.root c) "r").any fun m => decide (Writes m "v" elements))) =
    [(Classes.normalize "A", true)] := by
  decide +kernel

theorem exists_writes : ∃ c m, project.classNodes "A" = [c] ∧ method? c "r" = some m ∧
    Writes m "v" elements := by
  obtain ⟨d, hd, hread⟩ := List.map_eq_singleton_iff.1 reading
  obtain ⟨name, hread⟩ := Prod.mk.inj hread
  obtain ⟨c, hc, hread⟩ := (Option.any_eq_true _ _).1 hread
  obtain ⟨m, hm, hread⟩ := (Option.any_eq_true _ _).1 hread
  refine ⟨.root c, m, ?_, hm, of_decide_eq_true hread⟩
  rw [classNodes, hierarchy, Classes.hierarchy_of_named (by simpa [hd] using name), hd]
  simp [hc]

end Potpourri

theorem aliasMap_decodes_potpourri :
    ∃ c m, Potpourri.project.classNodes Potpourri.project.pattern.baseClass = [c] ∧
      method? c Potpourri.project.pattern.registerMethod = some m ∧
      Writes m Potpourri.project.pattern.aliasesVariable Potpourri.elements ∧
      Decodes Potpourri.project.aliasMap Potpourri.elements ∧
      Potpourri.project.aliasMap.get? "db" = some ["D\\\"b"] ∧
      Potpourri.project.aliasMap.get? "log" = some ["Log", " "] ∧
      Potpourri.project.aliasMap.get? "blank" = some [] := by
  obtain ⟨c, m, hc, hm, hw⟩ := Potpourri.exists_writes
  have decodes := aliasMap_decodes (p := Potpourri.project) hc hm hw
  refine ⟨c, m, hc, hm, hw, decodes, ?_, ?_, ?_⟩
  · exact decodes.last (Potpourri.elements.take 6) "db" _ _ rfl (by decide)
  · exact decodes.last (Potpourri.elements.take 1) "log" _ _ rfl (by decide)
  · exact decodes.last (Potpourri.elements.take 2) "blank" _ _ rfl (by decide)

end ContainerAliases.Project
