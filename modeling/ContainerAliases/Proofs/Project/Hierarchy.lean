import ContainerAliases.Project.Query
import ContainerAliases.Proofs.Classes.Descent
import ContainerAliases.Proofs.OrderedMap

namespace ContainerAliases.Project

open Classes Disk

structure Placed where
  route : Route
  /-- How many declarations stand before it in the file. -/
  number : Nat
  file : SourceFile
  declaration : ClassDeclaration

namespace Placed

def place (x : Placed) : Route × Nat := (x.route, x.number)

def pair (x : Placed) : SourceFile × ClassDeclaration := (x.file, x.declaration)

def node? (x : Placed) : Option Source.Node := (x.declaration.find? x.file.tree).map .root

end Placed

def placedIn (r : Route) (f : SourceFile) : List Placed :=
  f.classes.zipIdx.map fun c => ⟨r, c.2, f, c.1⟩

def placed (p : Project) : List Placed := p.files.toList.flatMap fun b => placedIn b.1 b.2

theorem map_pair_placed (p : Project) : p.placed.map Placed.pair = p.declarations := by
  rw [placed, declarations, OrderedMap.values, List.map_flatMap, List.flatMap_map]
  refine List.flatMap_congr fun b _ => ?_
  rw [placedIn, List.map_map]
  conv_rhs => rw [← List.zipIdx_map_fst 0 b.2.classes, List.map_map]
  rfl

theorem route_of_mem_placedIn {r : Route} {f : SourceFile} {x : Placed} (h : x ∈ placedIn r f) :
    x.route = r := by
  obtain ⟨c, -, rfl⟩ := List.mem_map.1 h
  rfl

theorem nodup_map_place (p : Project) : (p.placed.map Placed.place).Nodup := by
  have numbers (f : SourceFile) : (f.classes.zipIdx.map Prod.snd).Nodup := by
    rw [List.zipIdx_map_snd]
    exact List.nodup_range'
  have places (r : Route) (f : SourceFile) : (placedIn r f).map Placed.place =
      (f.classes.zipIdx.map Prod.snd).map (Prod.mk r) := by
    rw [placedIn, List.map_map, List.map_map]
    rfl
  rw [placed, List.map_flatMap]
  refine List.nodup_flatMap.2 ⟨fun b _ => ?_, ?_⟩
  · rw [places]
    exact (numbers b.2).map (Prod.mk_right_injective b.1)
  · have routes : p.files.toList.Pairwise fun a b => a.1 ≠ b.1 :=
      List.pairwise_map.1 p.files.nodup_keys
    refine routes.imp fun {a b} hab x ha hb => ?_
    obtain ⟨y, hy, rfl⟩ := List.mem_map.1 ha
    obtain ⟨z, hz, hyz⟩ := List.mem_map.1 hb
    have same : z.route = y.route := congrArg Prod.fst hyz
    rw [route_of_mem_placedIn hy, route_of_mem_placedIn hz] at same
    exact hab same.symm

abbrev Position (p : Project) := Fin p.declarations.length

def declaration (p : Project) (i : p.Position) : ClassDeclaration := (p.declarations.get i).2

/-- The positions of the hierarchy of `fqcn`, in the order in which it is listed. -/
def order (p : Project) (fqcn : String) : List p.Position :=
  Classes.hierarchy p.declaration (List.finRange p.declarations.length) fqcn

theorem hierarchy_eq_map_order (p : Project) (fqcn : String) :
    p.hierarchy fqcn = (p.order fqcn).map p.declarations.get := by
  rw [hierarchy, order]
  conv_lhs => rw [← List.map_get_finRange p.declarations]
  exact hierarchy_map p.declarations.get _ fqcn

theorem nodup_order (p : Project) (fqcn : String) : (p.order fqcn).Nodup :=
  nodup_hierarchy (List.nodup_finRange _) fqcn

theorem mem_order_iff (p : Project) (fqcn : String) (i : p.Position) :
    i ∈ p.order fqcn ↔ Descends p.declaration (normalize fqcn) i :=
  mem_hierarchy_iff List.mem_finRange

/-- The positions are the places in the files. Of these the hierarchy lists the members of the least
set, each once, in any project: with cycles, with several declarations of one name and with names
that are declared nowhere. -/
theorem hierarchy_lists_descendants (p : Project) (fqcn : String) :
    (p.placed.map Placed.pair = p.declarations ∧ (p.placed.map Placed.place).Nodup) ∧
      ∃ order : List p.Position, p.hierarchy fqcn = order.map p.declarations.get ∧ order.Nodup ∧
        ∀ i, i ∈ order ↔ Descends p.declaration (normalize fqcn) i :=
  ⟨⟨p.map_pair_placed, p.nodup_map_place⟩,
    p.order fqcn, p.hierarchy_eq_map_order fqcn, p.nodup_order fqcn, p.mem_order_iff fqcn⟩

end ContainerAliases.Project
