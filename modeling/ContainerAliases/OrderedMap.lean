namespace ContainerAliases

universe u v

/-- At most one binding for a key, in increasing key order. -/
structure OrderedMap (κ : Type u) (ν : Type v) [Ord κ] where
  toList : List (κ × ν)
  increasing : toList.Pairwise fun a b => compare a.1 b.1 = .lt

namespace OrderedMap

variable {κ : Type u} {ν : Type v} [Ord κ]

def empty : OrderedMap κ ν := ⟨[], .nil⟩

instance : EmptyCollection (OrderedMap κ ν) := ⟨empty⟩
instance : Inhabited (OrderedMap κ ν) := ⟨empty⟩

instance [DecidableEq κ] [DecidableEq ν] : DecidableEq (OrderedMap κ ν) := fun a b =>
  decidable_of_iff (a.toList = b.toList) <| by
    cases a; cases b; simp

def keys (m : OrderedMap κ ν) : List κ := m.toList.map Prod.fst

def values (m : OrderedMap κ ν) : List ν := m.toList.map Prod.snd

def size (m : OrderedMap κ ν) : Nat := m.toList.length

def get? (m : OrderedMap κ ν) (k : κ) : Option ν :=
  (m.toList.find? fun b => compare k b.1 == .eq).map Prod.snd

def contains (m : OrderedMap κ ν) (k : κ) : Bool := (m.get? k).isSome

/-- Binds `k` in a list of bindings, at its place in the order. -/
def put (k : κ) (v : ν) : List (κ × ν) → List (κ × ν)
  | [] => [(k, v)]
  | b :: r => match compare k b.1 with
    | .lt => (k, v) :: b :: r
    | .eq => (k, v) :: r
    | .gt => b :: put k v r

theorem mem_put {k : κ} {v : ν} {l : List (κ × ν)} {b : κ × ν} (h : b ∈ put k v l) :
    b = (k, v) ∨ b ∈ l := by
  induction l with
  | nil => simpa [put] using h
  | cons c r ih =>
    rw [put] at h
    split at h <;> grind

variable [Std.TransOrd κ]

theorem put_increasing (k : κ) (v : ν) {l : List (κ × ν)}
    (h : l.Pairwise fun a b => compare a.1 b.1 = .lt) :
    (put k v l).Pairwise fun a b => compare a.1 b.1 = .lt := by
  induction l with
  | nil => simp [put]
  | cons c r ih =>
    have ⟨hc, hr⟩ := List.pairwise_cons.1 h
    rw [put]
    split
    · next hk =>
      refine List.pairwise_cons.2 ⟨fun b hb => ?_, h⟩
      rcases List.mem_cons.1 hb with rfl | hb
      · exact hk
      · exact Std.TransCmp.lt_trans hk (hc b hb)
    · next hk =>
      exact List.pairwise_cons.2
        ⟨fun b hb => Std.TransCmp.lt_of_eq_of_lt hk (hc b hb), hr⟩
    · next hk =>
      refine List.pairwise_cons.2 ⟨fun b hb => ?_, ih hr⟩
      rcases mem_put hb with rfl | hb
      · exact Std.OrientedCmp.lt_of_gt hk
      · exact hc b hb

/-- Binds `k` to `v`; an earlier binding of `k` is lost. -/
def insert (m : OrderedMap κ ν) (k : κ) (v : ν) : OrderedMap κ ν :=
  ⟨put k v m.toList, put_increasing k v m.increasing⟩

omit [Std.TransOrd κ] in
def erase (m : OrderedMap κ ν) (k : κ) : OrderedMap κ ν :=
  ⟨m.toList.filter fun b => compare k b.1 != .eq, m.increasing.filter _⟩

omit [Std.TransOrd κ] in
def filter (m : OrderedMap κ ν) (p : κ → ν → Bool) : OrderedMap κ ν :=
  ⟨m.toList.filter fun b => p b.1 b.2, m.increasing.filter _⟩

/-- Later pairs win. -/
def ofList (l : List (κ × ν)) : OrderedMap κ ν :=
  l.foldl (fun m b => m.insert b.1 b.2) ∅

end OrderedMap

end ContainerAliases
