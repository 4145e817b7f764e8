/-!
Decimal text of a number that is given by its digits and the place of its point.
-/

namespace DocMarkup

/-- The number `digits * 10 ^ exponent`. -/
structure Decimal where
  digits : Nat
  exponent : Int
  deriving DecidableEq, Repr, Inhabited

namespace Decimal

/-- The most places written in front of the point before an exponent is used. -/
def mostPlaces : Nat := 21

/-- The most zeros written between the point and the first digit before an exponent is used. -/
def mostZeros : Nat := 5

def zeros (n : Nat) : List Char := List.replicate n '0'

/-- The first digit, the others behind a point, and the power of ten. -/
def scientific (written : List Char) (power : Int) : List Char :=
  let significant := (written.reverse.dropWhile (· == '0')).reverse
  let mantissa :=
    match significant with
    | first :: c :: rest => first :: '.' :: c :: rest
    | short => short
  let sign := if power < 0 then '-' else '+'
  mantissa ++ 'e' :: sign :: (Nat.repr power.natAbs).toList

/-- The text of a decimal.  Digits are written in place unless that takes too many zeros. -/
def write (d : Decimal) : String :=
  let written := (Nat.repr d.digits).toList
  let point : Int := written.length + d.exponent
  String.ofList <|
    if 0 ≤ d.exponent && point ≤ mostPlaces then written ++ zeros d.exponent.toNat
    else if 0 < point && point ≤ mostPlaces then
      written.take point.toNat ++ '.' :: written.drop point.toNat
    else if point ≤ 0 && -point ≤ mostZeros then '0' :: '.' :: (zeros (-point).toNat ++ written)
    else scientific written (point - 1)

end Decimal

end DocMarkup
