/-!
Paths as they are written, and the components by which they are compared: repeated slashes, dots
inside and a slash at the end make no difference, two dots do.
-/

namespace ContainerAliases.Disk

inductive Component where
  | root
  /-- A dot at the very front. -/
  | current
  | parent
  | name (text : String)
  deriving DecidableEq, Repr, Inhabited

namespace Component

def rank : Component → Nat
  | root => 0
  | current => 1
  | parent => 2
  | name _ => 3

def name? : Component → Option String
  | name s => some s
  | _ => none

def label (c : Component) : String := c.name?.getD ""

/-- The root first, then the two kinds of dots, then names by code point. -/
instance : Ord Component := ⟨compareLex (compareOn rank) (compareOn label)⟩

instance : Std.TransOrd Component :=
  inferInstanceAs (Std.TransCmp (compareLex (compareOn rank) (compareOn label)))

theorem eq_of_rank_label {a b : Component} (hr : a.rank = b.rank) (hl : a.label = b.label) :
    a = b := by
  cases a <;> cases b <;> simp_all [rank, label, name?]

instance : Std.LawfulEqOrd Component where
  eq_of_compare {a b} h := by
    have h : compareLex (compareOn rank) (compareOn label) a b = .eq := h
    obtain ⟨hr, hl⟩ := compareLex_eq_eq.1 h
    exact eq_of_rank_label (Std.LawfulEqOrd.eq_of_compare hr) (Std.LawfulEqOrd.eq_of_compare hl)

def isIdle (segment : String) : Bool := segment == "" || segment == "."

def ofSegment? (segment : String) : Option Component :=
  if isIdle segment then none else if segment == ".." then some .parent else some (.name segment)

end Component

/-- What a path is compared by. -/
abbrev Route := List Component

namespace Route

def fileName? (r : Route) : Option String := r.getLast?.bind Component.name?

/-- What follows the last dot of the last name, if anything stands before that dot. -/
def extension? (r : Route) : Option String :=
  r.fileName?.bind fun s =>
    match s.toList.reverse.span (· != '.') with
    | (ext, _ :: _ :: _) => some (String.ofList ext.reverse)
    | _ => none

end Route

/-- A path: what stands between its slashes, after the slash of an absolute path. -/
structure Path where
  isAbsolute : Bool
  segments : List String
  deriving DecidableEq, Repr, Inhabited

namespace Path

def ofText (text : String) : Path :=
  match text.toList with
  | '/' :: cs => ⟨true, (cs.splitOn '/').map String.ofList⟩
  | cs => ⟨false, (cs.splitOn '/').map String.ofList⟩

def text (p : Path) : String := (if p.isAbsolute then "/" else "") ++ "/".intercalate p.segments

instance : ToString Path := ⟨text⟩

/-- A relative path that begins with a dot of its own. -/
def startsHere (p : Path) : Bool := !p.isAbsolute && p.segments.head? == some "."

def components (p : Path) : Route :=
  (if p.isAbsolute then [.root] else if p.startsHere then [.current] else []) ++
    p.segments.filterMap Component.ofSegment?

/-- What is followed to reach the path: a segment that names nothing asks for a directory. The
empty path leads nowhere. -/
def steps (p : Path) : Route :=
  if p.isAbsolute then .root :: p.segments.map step
  else if p.segments = [""] then []
  else p.segments.map step
where
  step (segment : String) : Component := (Component.ofSegment? segment).getD .current

def fileName? (p : Path) : Option String := Route.fileName? p.components

def join (p q : Path) : Path :=
  if q.isAbsolute then q
  else ⟨p.isAbsolute, (if p.segments.getLast? = some "" then p.segments.dropLast else p.segments) ++
    q.segments⟩

def child (p : Path) (name : String) : Path := p.join (.ofText name)

/-- Drops the segments at the end that name nothing. -/
def trim (segments : List String) : List String :=
  (segments.reverse.dropWhile Component.isIdle).reverse

theorem length_trim_le (l : List String) : (trim l).length ≤ l.length := by
  simpa [trim] using (List.dropWhile_suffix Component.isIdle (l := l.reverse)).length_le

/-- The path without its last component; a dot of its own counts as one. -/
def parent (p : Path) : Option Path :=
  let front := p.segments.take (if p.startsHere then 1 else 0)
  match trim (p.segments.drop front.length) with
  | [] => if p.startsHere then some ⟨false, []⟩ else none
  | s :: ss => some ⟨p.isAbsolute, front ++ trim (s :: ss).dropLast⟩

theorem length_parent_lt {p q : Path} (h : p.parent = some q) :
    q.segments.length < p.segments.length := by
  simp only [parent] at h
  split at h
  · split at h
    · next hs =>
      simp only [startsHere, Bool.and_eq_true, beq_iff_eq] at hs
      cases h
      cases hp : p.segments with
      | nil => simp [hp] at hs
      | cons a l => simp
    · simp at h
  · next s ss ht =>
    cases h
    have h₁ := length_trim_le (p.segments.drop (p.segments.take
      (if p.startsHere then 1 else 0)).length)
    have h₂ := length_trim_le (s :: ss).dropLast
    rw [ht] at h₁
    simp only [List.length_append, List.length_drop, List.length_cons,
      List.length_dropLast] at h₁ h₂ ⊢
    omega

def ancestors (p : Path) : List Path :=
  p :: match _h : p.parent with
    | none => []
    | some q => q.ancestors
termination_by p.segments.length
decreasing_by exact length_parent_lt _h

end Path

end ContainerAliases.Disk
