import ContainerAliases.Proofs.Alias.Collection
import ContainerAliases.Proofs.Project.Inheritance

namespace ContainerAliases.Project

open Classes Relation

variable {p : Project} {c d : p.Position}

def registered (p : Project) (pattern : Alias.Pattern) (i : p.Position) :
    List (Alias.Entry Source.Node) :=
  (((p.declaration i).find? (p.declarations.get i).1.tree).map Source.Node.root).toList.flatMap
    (p.provider.entriesOf pattern)

theorem entries_eq_flatMap_registered (p : Project) (pattern : Alias.Pattern) :
    p.provider.entries pattern =
      (p.order pattern.baseClass).flatMap (p.registered pattern) := by
  have classes : p.provider.classes pattern.baseClass = p.classNodes pattern.baseClass := rfl
  rw [Alias.Provider.entries_eq_flatMap, classes, classNodes, hierarchy_eq_map_order,
    List.filterMap_map, List.filterMap_eq_flatMap_toList, List.flatMap_assoc]
  rfl

theorem visit_eq_foldl_order {σ : Type} (p : Project) (pattern : Alias.Pattern)
    (v : Alias.Visitor Source.Node σ) (s : σ) :
    p.provider.visit pattern v s =
      (p.order pattern.baseClass).foldl (fun s i => (p.registered pattern i).foldl v s) s := by
  rw [Alias.Provider.visit_eq_foldl, entries_eq_flatMap_registered, List.foldl_flatMap]

def registers (p : Project) (pattern : Alias.Pattern) (i : p.Position) :
    List (String × List String) :=
  (p.registered pattern i).map fun e => (e.key, Alias.namesOf e.value)

/-- The names of a key come from a member that is not visited before any that registers it. -/
theorem exists_registers_get?_aliasMap (pattern : Alias.Pattern)
    (hd : d ∈ p.order pattern.baseClass) {k : String} {ns : List String}
    (hk : (k, ns) ∈ p.registers pattern d) :
    ∃ x ∈ p.order pattern.baseClass, ¬ p.Before pattern.baseClass x d ∧
      ∃ ms, (k, ms) ∈ p.registers pattern x ∧
        (p.provider.aliasMap pattern).get? k = some ms := by
  obtain ⟨e, he, hek⟩ := List.mem_map.1 hk
  obtain ⟨rfl, rfl⟩ := Prod.mk.inj hek
  obtain ⟨earlier, later, ho⟩ := List.append_of_mem hd
  have hes : p.provider.entries pattern = earlier.flatMap (p.registered pattern) ++
      (d :: later).flatMap (p.registered pattern) := by
    rw [entries_eq_flatMap_registered, ho, List.flatMap_append]
  have hed : e ∈ (d :: later).flatMap (p.registered pattern) :=
    List.mem_flatMap.2 ⟨d, List.mem_cons_self, he⟩
  obtain ⟨e', he', hkey, hget⟩ := Alias.Provider.exists_get?_aliasMap hes hed
  obtain ⟨x, hx, hr⟩ := List.mem_flatMap.1 he'
  refine ⟨x, ho ▸ List.mem_append_right earlier hx, not_before_of_mem ho hx, _, ?_, hget⟩
  rw [← hkey]
  exact List.mem_map_of_mem hr

theorem get?_aliasMap_of_last (pattern : Alias.Pattern) (hd : d ∈ p.order pattern.baseClass)
    (last : ∀ x, x ≠ d → p.Before pattern.baseClass x d) {k : String} {ns : List String}
    (hk : p.registers pattern d = [(k, ns)]) :
    (p.provider.aliasMap pattern).get? k = some ns := by
  obtain ⟨x, -, hx, ms, hm, hget⟩ :=
    exists_registers_get?_aliasMap pattern hd (hk ▸ List.mem_singleton_self (k, ns))
  have hxd : x = d := by
    by_contra hne
    exact hx (last x hne)
  subst hxd
  rw [hk, List.mem_singleton, Prod.mk.injEq] at hm
  rw [hget, hm.2]

/-- What the order of visits makes of a member `c` and one, `d`, that inherits from it. -/
structure Precedence (p : Project) (pattern : Alias.Pattern) (c d : p.Position) : Prop where
  visits : ∀ {σ : Type} (v : Alias.Visitor Source.Node σ) (s : σ), p.provider.visit pattern v s =
    (p.order pattern.baseClass).foldl (fun s i => (p.registered pattern i).foldl v s) s
  before_iff : p.Before pattern.baseClass c d ↔
    p.turn pattern.baseClass c < p.turn pattern.baseClass d ∨
      p.turn pattern.baseClass c = p.turn pattern.baseClass d ∧ c < d
  before_of_nearer : p.Nearer pattern.baseClass c d → p.Before pattern.baseClass c d
  after_of_nearer : p.Nearer pattern.baseClass d c → p.Before pattern.baseClass d c
  before_of_named : (p.declaration c).name = normalize pattern.baseClass →
    p.Before pattern.baseClass c d
  before_of_isTree : p.IsTree pattern.baseClass → p.Before pattern.baseClass c d
  overrides : p.Before pattern.baseClass c d → ∀ k ns, (k, ns) ∈ p.registers pattern d →
    ∃ x ∈ p.order pattern.baseClass, x ≠ c ∧ ¬ p.Before pattern.baseClass x d ∧
      ∃ ms, (k, ms) ∈ p.registers pattern x ∧ (p.provider.aliasMap pattern).get? k = some ms

/-- Distance from the base class decides who overrides whom; with inheritance in a tree, what
inherits overrides. -/
theorem overriding_goes_by_distance {p : Project} (hp : p.Acyclic) {pattern : Alias.Pattern}
    {c d : p.Position} (hc : c ∈ p.order pattern.baseClass) (h : TransGen p.Extends d c) :
    p.Precedence pattern c d := by
  have hd := mem_order_of_transGen h hc
  refine ⟨p.visit_eq_foldl_order pattern, Project.before_iff hc hd, Project.before_of_nearer hc hd,
    Project.before_of_nearer hd hc, Project.before_of_named hp hc h,
    fun ht => Project.before_of_nearer hc hd (ht.nearer hp hc h), fun hb k ns hk => ?_⟩
  obtain ⟨x, hx, hn, hr⟩ := exists_registers_get?_aliasMap pattern hd hk
  refine ⟨x, hx, ?_, hn, hr⟩
  rintro rfl
  exact hn hb

-- A class that extends another and names the base interface once more.
namespace Shortcut

def config : Config :=
  { Config.standard with baseClass := "I", registerMethod := "r", aliasesVariable := "v" }

def register (name : String) : String :=
  " implements I \x7b function r() \x7b $v = ['k' => '" ++ name ++ "']; \x7d \x7d"

def project : Project :=
  .ofSources (.ofText "/p") config 1
    [(.ofText "a.php", "<?php class D extends A" ++ register "d"),
      (.ofText "b.php", "<?php class A" ++ register "a"),
      (.ofText "c.php", "<?php interface I \x7b\x7d")]

theorem length_declarations : project.declarations.length = 3 := by decide +kernel

def sub : project.Position := ⟨0, by simp [length_declarations]⟩

def super : project.Position := ⟨1, by simp [length_declarations]⟩

def base : project.Position := ⟨2, by simp [length_declarations]⟩

theorem reading :
    (∀ i j, project.Extends i j → i < j) ∧ project.Extends sub super ∧
      (project.declaration base).name = normalize "I" ∧
      (∀ i ∈ [sub, super], (project.declaration i).name ≠ normalize "I" ∧
        (project.declaration i).HasParent (normalize "I")) ∧
      project.registers config.pattern sub = [("k", ["d"])] ∧
      project.registers config.pattern super = [("k", ["a"])] := by
  decide +kernel

theorem acyclic : project.Acyclic := acyclic_of_lt reading.1

theorem base_named : (project.declaration base).name = normalize "I" := reading.2.2.1

theorem direct {i : project.Position} (h : i ∈ [sub, super]) :
    (project.declaration i).name ≠ normalize "I" ∧
      (project.declaration i).HasParent (normalize "I") := reading.2.2.2.1 i h

theorem sub_before_super : project.Before "I" sub super := by
  have hs := direct (i := sub) (by simp)
  have ht := direct (i := super) (by simp)
  exact (before_iff_of_direct hs.2 ht.2 hs.1 ht.1).2 (by decide)

theorem base_mem : base ∈ project.order "I" :=
  (project.mem_order_iff "I" base).2 (.named base_named)

theorem super_mem : super ∈ project.order "I" :=
  (project.mem_order_iff "I" super).2 (.direct (direct (by simp)).2)

theorem super_extends_base : project.Extends super base :=
  extends_of_named base_named (direct (by simp)).2

theorem before_super {i : project.Position} (h : i ≠ super) : project.Before "I" i super := by
  have hi : i = sub ∨ i = base := by
    have := i.isLt
    simp only [length_declarations, sub, super, base, Fin.ext_iff, ne_eq] at this h ⊢
    omega
  rcases hi with rfl | rfl
  · exact sub_before_super
  · exact before_of_named acyclic base_mem (.single super_extends_base) base_named

end Shortcut

theorem overriding_goes_by_distance_shortcut :
    Shortcut.project.Acyclic ∧ Shortcut.base ∈ Shortcut.project.order "I" ∧
      TransGen Shortcut.project.Extends Shortcut.sub Shortcut.base ∧
      Shortcut.project.Precedence Shortcut.config.pattern Shortcut.base Shortcut.sub := by
  have h := TransGen.head Shortcut.reading.2.1 (.single Shortcut.super_extends_base)
  exact ⟨Shortcut.acyclic, Shortcut.base_mem, h,
    overriding_goes_by_distance Shortcut.acyclic Shortcut.base_mem h⟩

/-- The subclass is visited first, and its superclass overrides it. -/
theorem superclass_overrides_shortcut :
    Shortcut.project.Acyclic ∧ Shortcut.super ∈ Shortcut.project.order "I" ∧
      Shortcut.sub ∈ Shortcut.project.order "I" ∧
      Shortcut.project.Extends Shortcut.sub Shortcut.super ∧
      ¬ Shortcut.project.Before "I" Shortcut.super Shortcut.sub ∧
      Shortcut.project.registers Shortcut.config.pattern Shortcut.sub = [("k", ["d"])] ∧
      Shortcut.project.registers Shortcut.config.pattern Shortcut.super = [("k", ["a"])] ∧
      (Shortcut.project.provider.aliasMap Shortcut.config.pattern).get? "k" = some ["a"] := by
  obtain ⟨-, hext, -, -, hs, ht⟩ := Shortcut.reading
  refine ⟨Shortcut.acyclic, Shortcut.super_mem,
    mem_order_of_transGen (.single hext) Shortcut.super_mem, hext, ?_, hs, ht, ?_⟩
  · exact Nat.lt_asymm Shortcut.sub_before_super
  · exact get?_aliasMap_of_last Shortcut.config.pattern Shortcut.super_mem
      (fun _ => Shortcut.before_super) ht

end ContainerAliases.Project
