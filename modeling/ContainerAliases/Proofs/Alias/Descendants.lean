import ContainerAliases.Alias.Site

namespace ContainerAliases.Alias

variable {N : Type} [SyntaxNode N]

namespace SyntaxNode

theorem descendants_eq (n : N) :
    descendants n = (children n).flatMap fun c => c :: descendants c := by
  rw [descendants, List.flatMap_subtype (fun _ _ => rfl), List.unattach_attach]

theorem walk_eq_flatMap (stack : List N) :
    walk stack = stack.flatMap fun n => n :: descendants n := by
  fun_induction walk stack with
  | case1 => rfl
  | case2 n stack ih =>
    rw [ih, List.flatMap_append, ← descendants_eq, List.flatMap_cons, List.cons_append]

theorem walk_children (n : N) : walk (children n) = descendants n := by
  rw [walk_eq_flatMap, ← descendants_eq]

theorem mem_descendants_of_mem_children {n c : N} (h : c ∈ children n) : c ∈ descendants n := by
  rw [descendants_eq]
  exact List.mem_flatMap.2 ⟨c, h, List.mem_cons_self⟩

theorem mem_descendants_of_child {n m c : N} (hm : m ∈ descendants n) (hc : c ∈ children m) :
    c ∈ descendants n := by
  rw [descendants_eq] at hm ⊢
  obtain ⟨k, hk, hm⟩ := List.mem_flatMap.1 hm
  refine List.mem_flatMap.2 ⟨k, hk, List.mem_cons_of_mem _ ?_⟩
  rcases List.mem_cons.1 hm with rfl | hm
  · exact mem_descendants_of_mem_children hc
  · exact mem_descendants_of_child hm hc
termination_by size n
decreasing_by exact size_lt hk

end SyntaxNode

namespace Site

theorem below_eq_filterMap (method : N) (target : String) :
    below method target = (SyntaxNode.descendants method).filterMap (at? target) := by
  rw [below, SyntaxNode.walk_children]

theorem below_eq_singleton {method d : N} {target : String}
    (hd : d ∈ SyntaxNode.descendants method) (declares : SyntaxNode.declares d = some target)
    (only : (SyntaxNode.descendants method).countP
      (fun n => SyntaxNode.declares n == some target) ≤ 1) :
    below method target = [⟨d, (SyntaxNode.next d).filter SyntaxNode.isArray⟩] := by
  obtain ⟨before, after, h⟩ := List.append_of_mem hd
  rw [h, List.countP_append, List.countP_cons_of_pos (by simpa using declares)] at only
  have none_at {ns : List N} (hn : ns.countP (fun n => SyntaxNode.declares n == some target) = 0) :
      ns.filterMap (at? target) = [] := by
    refine List.filterMap_eq_nil_iff.2 fun n hm => ?_
    have := List.countP_eq_zero.1 hn n hm
    rw [at?, if_neg (by simpa using this)]
  rw [below_eq_filterMap, h, List.filterMap_append, List.filterMap_cons, none_at (by omega),
    none_at (by omega), at?, if_pos declares]
  rfl

end Site

end ContainerAliases.Alias
