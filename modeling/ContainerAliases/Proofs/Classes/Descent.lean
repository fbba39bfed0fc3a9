import ContainerAliases.Classes.Hierarchy
import ContainerAliases.Proofs.Classes.Name

namespace ContainerAliases.Classes

variable {α : Type} (decl : α → ClassDeclaration)

/-- The least set that holds the declarations named `target` and whatever extends or implements
`target` or the name of one of its members. -/
inductive Descends (target : String) : α → Prop where
  | named {a : α} (h : (decl a).name = target) : Descends target a
  | direct {a : α} (h : (decl a).HasParent target) : Descends target a
  | step {a b : α} (hb : Descends target b) (h : (decl a).HasParent (decl b).name) :
      Descends target a

variable {decl}

theorem mem_heirs {name : String} {all : List α} {a : α} :
    a ∈ heirs decl name all ↔ a ∈ all ∧ (decl a).HasParent (normalize name) := by
  rw [heirs, List.mem_filter, ClassDeclaration.descendsFrom_iff]

theorem mem_others {name : String} {all : List α} {a : α} :
    a ∈ others decl name all ↔ a ∈ all ∧ ¬ (decl a).HasParent (normalize name) := by
  rw [others, List.mem_filter, Bool.not_eq_true', Bool.eq_false_iff, Ne,
    ClassDeclaration.descendsFrom_iff]

def AllNormal (queue : List String) : Prop := ∀ n ∈ queue, normalize n = n

theorem AllNormal.tail {n : String} {queue : List String} (h : AllNormal (n :: queue))
    (as : List α) : AllNormal (queue ++ as.map fun a => (decl a).name) := by
  intro m hm
  rcases List.mem_append.1 hm with hm | hm
  · exact h m (List.mem_cons_of_mem n hm)
  · obtain ⟨a, -, rfl⟩ := List.mem_map.1 hm
    exact normalize_name (decl a)

theorem subset_descendants (queue : List String) (rest : List α) :
    descendants decl queue rest ⊆ rest := by
  fun_induction descendants decl queue rest with
  | case1 => simp
  | case2 rest name queue ih =>
    intro a ha
    rcases List.mem_append.1 ha with ha | ha
    · exact (mem_heirs.1 ha).1
    · exact (mem_others.1 (ih ha)).1

theorem nodup_descendants (queue : List String) {rest : List α} (h : rest.Nodup) :
    (descendants decl queue rest).Nodup := by
  fun_induction descendants decl queue rest with
  | case1 => simp
  | case2 rest name queue ih =>
    refine List.nodup_append.2 ⟨h.filter _, ih (h.filter _), ?_⟩
    rintro a ha b hb rfl
    exact (mem_others.1 (subset_descendants _ _ hb)).2 (mem_heirs.1 ha).2

/-- What is found from names that are the target or borne by members of the set is in the set. -/
theorem descends_of_mem_descendants {target : String} {queue : List String} {rest : List α}
    (hq : AllNormal queue) (hs : ∀ n ∈ queue, n = target ∨ ∃ b, Descends decl target b ∧
      (decl b).name = n) : ∀ a ∈ descendants decl queue rest, Descends decl target a := by
  fun_induction descendants decl queue rest with
  | case1 => simp
  | case2 rest name queue ih =>
    have heir : ∀ a ∈ heirs decl name rest, Descends decl target a := by
      intro a ha
      have hp := (mem_heirs.1 ha).2
      rw [hq name List.mem_cons_self] at hp
      rcases hs name List.mem_cons_self with rfl | ⟨b, hb, rfl⟩
      · exact .direct hp
      · exact .step hb hp
    intro a ha
    rcases List.mem_append.1 ha with ha | ha
    · exact heir a ha
    · refine ih (hq.tail _) (fun n hn => ?_) a ha
      rcases List.mem_append.1 hn with hn | hn
      · exact hs n (List.mem_cons_of_mem name hn)
      · obtain ⟨b, hb, rfl⟩ := List.mem_map.1 hn
        exact .inr ⟨b, heir b hb, rfl⟩

def taken (decl : α → ClassDeclaration) (queue : List String) (rest : List α) : List String :=
  queue ++ (descendants decl queue rest).map fun a => (decl a).name

theorem taken_cons (name : String) (queue : List String) (rest : List α) :
    taken decl (name :: queue) rest =
      name :: taken decl (queue ++ (heirs decl name rest).map fun a => (decl a).name)
        (others decl name rest) := by
  rw [taken, descendants, taken]
  simp

/-- Whatever extends or implements a name that is taken is found. -/
theorem mem_descendants_of_hasParent {queue : List String} {rest : List α} (hq : AllNormal queue)
    {a : α} (ha : a ∈ rest) {n : String} (hn : n ∈ taken decl queue rest)
    (hp : (decl a).HasParent n) : a ∈ descendants decl queue rest := by
  fun_induction descendants decl queue rest with
  | case1 rest => simp [taken, descendants] at hn
  | case2 rest name queue ih =>
    -- either `a` leaves `rest` at this name, or it is still there when `n` is taken
    have hname : normalize name = name := hq name List.mem_cons_self
    by_cases h : (decl a).HasParent name
    · exact List.mem_append_left _ (mem_heirs.2 ⟨ha, hname.symm ▸ h⟩)
    · rw [taken_cons] at hn
      rcases List.mem_cons.1 hn with rfl | hn
      · exact absurd hp h
      · exact List.mem_append_right _
          (ih (hq.tail _) (mem_others.2 ⟨ha, hname.symm ▸ h⟩) hn)

def unnamed (decl : α → ClassDeclaration) (target : String) (all : List α) : List α :=
  all.filter fun a => (decl a).name != target

theorem mem_hierarchy {all : List α} {fqcn : String} {a : α} :
    a ∈ hierarchy decl all fqcn ↔ a ∈ all ∧ (decl a).name = normalize fqcn ∨
      a ∈ descendants decl [normalize fqcn] (unnamed decl (normalize fqcn) all) := by
  simp [hierarchy, unnamed]

theorem allNormal_target (fqcn : String) : AllNormal [normalize fqcn] := by
  simp [AllNormal]

theorem nodup_hierarchy {all : List α} (h : all.Nodup) (fqcn : String) :
    (hierarchy decl all fqcn).Nodup := by
  refine List.nodup_append.2 ⟨h.filter _, nodup_descendants _ (h.filter _), ?_⟩
  rintro a ha b hb rfl
  have hn := (List.mem_filter.1 (subset_descendants _ _ hb)).2
  simp_all

/-- Whatever extends or implements the target or the name of a listed member is listed. -/
theorem mem_hierarchy_of_hasParent {all : List α} {fqcn : String} {a : α} (ha : a ∈ all)
    (hp : (decl a).HasParent (normalize fqcn) ∨
      ∃ b ∈ hierarchy decl all fqcn, (decl a).HasParent (decl b).name) :
    a ∈ hierarchy decl all fqcn := by
  by_cases hn : (decl a).name = normalize fqcn
  · exact mem_hierarchy.2 (.inl ⟨ha, hn⟩)
  · have hr : a ∈ unnamed decl (normalize fqcn) all := by simp [unnamed, ha, hn]
    have target : normalize fqcn ∈
        taken decl [normalize fqcn] (unnamed decl (normalize fqcn) all) := by
      simp [taken]
    have found {n : String} (hn : n ∈ taken decl [normalize fqcn] _) :=
      mem_descendants_of_hasParent (allNormal_target fqcn) hr hn
    refine mem_hierarchy.2 (.inr ?_)
    rcases hp with hp | ⟨b, hb, hp⟩
    · exact found target hp
    · rcases mem_hierarchy.1 hb with hb | hb
      · exact found target (hb.2 ▸ hp)
      · exact found (List.mem_append_right _ (List.mem_map_of_mem hb)) hp

theorem mem_hierarchy_iff {all : List α} (hall : ∀ a, a ∈ all) {fqcn : String} {a : α} :
    a ∈ hierarchy decl all fqcn ↔ Descends decl (normalize fqcn) a := by
  constructor
  · intro h
    rcases mem_hierarchy.1 h with h | h
    · exact .named h.2
    · exact descends_of_mem_descendants (allNormal_target fqcn) (by simp) a h
  · -- the list is closed under what makes up the set, which is the least such
    intro h
    induction h with
    | named h => exact mem_hierarchy.2 (.inl ⟨hall _, h⟩)
    | direct h => exact mem_hierarchy_of_hasParent (hall _) (.inl h)
    | step _ h ih => exact mem_hierarchy_of_hasParent (hall _) (.inr ⟨_, ih, h⟩)

theorem descendants_nil (queue : List String) : descendants decl queue [] = [] := by
  induction queue with
  | nil => rw [descendants]
  | cons name queue ih =>
    rw [descendants]
    simpa [heirs, others] using ih

theorem hierarchy_of_named {all : List α} {fqcn : String}
    (h : ∀ a ∈ all, (decl a).name = normalize fqcn) : hierarchy decl all fqcn = all := by
  have all_named : (all.filter fun a => (decl a).name == normalize fqcn) = all := by
    simpa [List.filter_eq_self] using h
  have none_other : (all.filter fun a => (decl a).name != normalize fqcn) = [] := by
    simpa [List.filter_eq_nil_iff] using h
  rw [hierarchy, all_named, none_other, descendants_nil, List.append_nil]

theorem descendants_map {β : Type} (f : β → α) (queue : List String) (rest : List β) :
    descendants decl queue (rest.map f) =
      (descendants (fun b => decl (f b)) queue rest).map f := by
  fun_induction descendants (fun b => decl (f b)) queue rest with
  | case1 => simp [descendants]
  | case2 rest name queue ih =>
    have hh : heirs decl name (rest.map f) = (heirs (fun b => decl (f b)) name rest).map f := by
      simp [heirs, List.filter_map, Function.comp_def]
    have ho : others decl name (rest.map f) = (others (fun b => decl (f b)) name rest).map f := by
      simp [others, List.filter_map, Function.comp_def]
    rw [descendants, hh, ho, List.map_map, Function.comp_def, ih, List.map_append]

theorem hierarchy_map {β : Type} (f : β → α) (all : List β) (fqcn : String) :
    hierarchy decl (all.map f) fqcn = (hierarchy (fun b => decl (f b)) all fqcn).map f := by
  simp [hierarchy, List.filter_map, Function.comp_def, descendants_map]

end ContainerAliases.Classes
