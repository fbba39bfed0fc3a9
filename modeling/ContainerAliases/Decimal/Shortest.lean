/-!
The shortest decimal that reads back as a given binary floating-point number. On the grids of one,
two, three digits and so on the two neighbours of the number are tried; the first grid with one that
reads back wins, and of two the nearer, in a tie the even one.
-/

namespace ContainerAliases.Decimal

/-- The number `mantissa * 2 ^ exponent`. -/
structure Binary where
  mantissa : Nat
  exponent : Int
  /-- The next smaller number is half as far away as the next larger. -/
  isTight : Bool
  deriving DecidableEq, Repr

/-- The bit in front of the fraction of a double, which is not stored. -/
def leadingBit : Nat := 0x10000000000000

/-- The size of the double with the given bits, which is finite. -/
def Binary.ofBits (bits : Nat) : Binary :=
  let fraction := bits % leadingBit
  let power : Nat := bits / leadingBit % 0x800
  if power = 0 then ⟨fraction, -1074, false⟩
  else ⟨fraction + leadingBit, (power : Int) - 1075, fraction = 0 ∧ power > 1⟩

/-- The number `coefficient * 10 ^ exponent`. -/
structure Scaled where
  coefficient : Nat
  exponent : Int
  deriving DecidableEq, Repr

/-- The grid of the multiples of `10 ^ exponent`: a quarter of the last binary place is
`fine / coarse` of its distance. -/
structure Grid where
  exponent : Int
  fine : Nat
  coarse : Nat

def Binary.grid (b : Binary) (exponent : Int) : Grid :=
  let two := b.exponent - 2
  { exponent
    fine := Nat.pow 2 two.toNat * Nat.pow 10 (-exponent).toNat
    coarse := Nat.pow 2 (-two).toNat * Nat.pow 10 exponent.toNat }

/-- The grid point `c` reads back as the number. The ends of the interval do if the mantissa is
even. -/
def Binary.readsBack (b : Binary) (g : Grid) (c : Nat) : Bool :=
  let low := (4 * b.mantissa - if b.isTight then 1 else 2) * g.fine
  let high := (4 * b.mantissa + 2) * g.fine
  let point := c * g.coarse
  if b.mantissa % 2 = 0 then low ≤ point && point ≤ high else low < point && point < high

def Binary.neighbour? (b : Binary) (g : Grid) : Option Nat :=
  let value := 4 * b.mantissa * g.fine
  let c := value / g.coarse
  match b.readsBack g c, b.readsBack g (c + 1) with
  | false, false => none
  | true, false => some c
  | false, true => some (c + 1)
  | true, true =>
    let below := 2 * (value - c * g.coarse)
    if below < g.coarse || (below = g.coarse && c % 2 = 0) then some c else some (c + 1)

def Binary.leading (b : Binary) : Int :=
  let g := b.grid 0
  let value := 4 * b.mantissa * g.fine
  if value ≥ g.coarse then (Nat.toDigits 10 (value / g.coarse)).length - 1
  else
    let e : Int := -((Nat.toDigits 10 (g.coarse / value)).length - 1 : Nat)
    let h := b.grid e
    if 4 * b.mantissa * h.fine ≥ h.coarse then e else e - 1

/-- Tries so many grids, each ten times as fine as the one before. -/
def Binary.search (b : Binary) : Nat → Int → Scaled
  | 0, exponent => ⟨0, exponent⟩
  | n + 1, exponent =>
    match b.neighbour? (b.grid exponent) with
    | some c => ⟨c, exponent⟩
    | none => b.search n (exponent - 1)

/-- Seventeen digits are always enough. -/
def Binary.shortest (b : Binary) : Scaled := b.search 17 b.leading

end ContainerAliases.Decimal
