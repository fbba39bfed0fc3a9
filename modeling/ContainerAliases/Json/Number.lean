import ContainerAliases.Decimal.Shortest

namespace ContainerAliases.Json

open Decimal

/-- Which exponents of the leading digit are written without an exponent. -/
structure NumberStyle where
  least : Int
  beyond : Int
  /-- The fewest digits of a written exponent. -/
  exponentDigits : Nat

def numberStyle : NumberStyle := ⟨-5, 16, 2⟩

def zeros (n : Int) : List Char := List.replicate n.toNat '0'

def exponentText (style : NumberStyle) (e : Int) : List Char :=
  let digits := Nat.toDigits 10 e.natAbs
  'e' :: (if e < 0 then '-' else '+') :: zeros (style.exponentDigits - digits.length) ++ digits

/-- Digits with a point: behind all of them, between two, or in front. The leading digit counts
`10 ^ leading`. -/
def pointed (digits : List Char) (leading : Int) : List Char :=
  let whole := (leading + 1).toNat
  if digits.length ≤ whole then digits ++ zeros (whole - digits.length) ++ ['.', '0']
  else if leading ≥ 0 then digits.take whole ++ '.' :: digits.drop whole
  else '0' :: '.' :: zeros (-leading - 1) ++ digits

def scientific (style : NumberStyle) (digits : List Char) (leading : Int) : List Char :=
  (match digits with
    | [d] => [d]
    | d :: ds => d :: '.' :: ds
    | [] => []) ++ exponentText style leading

def scaledText (s : Scaled) : List Char :=
  let all := Nat.toDigits 10 s.coefficient
  let leading := s.exponent + all.length - 1
  let digits := (all.reverse.dropWhile (· == '0')).reverse
  if numberStyle.least ≤ leading && leading < numberStyle.beyond then pointed digits leading
  else scientific numberStyle digits leading

def floatText (f : Float) : String :=
  let bits := f.toBits.toNat
  let sign := if bits / 0x8000000000000000 = 1 then ['-'] else []
  let b := Binary.ofBits bits
  String.ofList (sign ++ if b.mantissa = 0 then "0.0".toList else scaledText b.shortest)

end ContainerAliases.Json
