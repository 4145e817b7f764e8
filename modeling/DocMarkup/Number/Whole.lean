import DocMarkup.Number.Decimal
import DocMarkup.Text.Units

/-!
Whole numbers kept to fifty-three significant bits.  Numbers below `2 ^ 53` are exact, larger ones
are rounded to the nearest multiple of a power of two, ties to an even multiple, and from
`2 ^ 1024` on only the sign is kept.  Numbers written in markup, table spans and list numbers are
of this kind.
-/

namespace DocMarkup

/-- A whole number of at most fifty-three significant bits, or an infinity. -/
inductive Whole where
  | finite (value : Int)
  | infinite (negative : Bool)
  deriving DecidableEq, Repr, Inhabited

namespace Whole

/-- Every natural number below this one fits in fifty-three bits and is exact. -/
def exactBound : Nat := Nat.pow 2 53

/-- From this number on only the sign is kept. -/
def finiteBound : Nat := Nat.pow 2 1024

/-- The quotient rounded to a natural number, ties to even. -/
def roundDiv (n d : Nat) : Nat :=
  let kept := n / d
  let dropped := n % d
  if d < 2 * dropped || (2 * dropped == d && kept % 2 == 1) then kept + 1 else kept

/-- The nearest natural number with at most fifty-three significant bits, ties to even. -/
def roundNat (n : Nat) : Nat :=
  if n < exactBound then n
  else
    let step := Nat.pow 2 (n.log2 - 52)
    roundDiv n step * step

/-- A magnitude with a sign. -/
def signed (negative : Bool) (magnitude : Nat) : Int :=
  if negative then -(magnitude : Int) else magnitude

/-- The whole number nearest to an integer. -/
def ofInt (n : Int) : Whole :=
  let magnitude := roundNat n.natAbs
  if magnitude < finiteBound then .finite (signed (n < 0) magnitude) else .infinite (n < 0)

def ofNat (n : Nat) : Whole := ofInt n

instance (n : Nat) : OfNat Whole n := ⟨ofNat n⟩

/-- The sum, rounded.  Infinities of opposite sign never meet in the sums formed here; their sum
is taken to be the first. -/
def add : Whole → Whole → Whole
  | .finite a, .finite b => ofInt (a + b)
  | .infinite s, _ => .infinite s
  | _, .infinite s => .infinite s

instance : Add Whole := ⟨add⟩

/-- One less, rounded. -/
def pred (n : Whole) : Whole := n + .finite (-1)

def lt : Whole → Whole → Bool
  | .finite a, .finite b => a < b
  | .infinite s, .infinite t => s && !t
  | .infinite s, .finite _ => s
  | .finite _, .infinite t => !t

def le (a b : Whole) : Bool := !lt b a

/-- The larger of two numbers, the first of equals. -/
def max (a b : Whole) : Whole := if lt a b then b else a

def isNegative (n : Whole) : Bool := lt n 0

/-- The natural number that a finite number is; zero for a negative one. -/
def toNat : Whole → Nat
  | finite n => n.toNat
  | infinite _ => 0

/-- The number that decimal digits write. -/
def natOfDigits (digits : Text) : Nat :=
  digits.foldl (fun n u => n * 10 + CodeUnit.digitValue u) 0

/-- The number that hexadecimal digits write. -/
def natOfHexDigits (digits : Text) : Nat :=
  digits.foldl (fun n u => n * 16 + CodeUnit.digitValue u) 0

def ofDigits (digits : Text) : Whole := ofNat (natOfDigits digits)

/-- The fewest leading digits that single out `n` among the numbers of fifty-three bits.  A
neighbour of `n` on the grid of multiples of a power of ten reads back as `n` when it lies within
half a step; the coarsest grid with such a neighbour gives the digits, of two neighbours the
nearer. -/
def shortest (n : Nat) : Decimal :=
  let rec search : Nat → Decimal
    | 0 => ⟨n, 0⟩
    | e + 1 =>
      let grid := Nat.pow 10 (e + 1)
      let below := n / grid
      let above := below + 1
      let lowFits := 0 < below && roundNat (below * grid) == n
      let highFits := roundNat (above * grid) == n
      if lowFits && (!highFits || n - below * grid ≤ above * grid - n) then ⟨below, e + 1⟩
      else if highFits then ⟨above, e + 1⟩
      else search e
  search (Nat.repr n).length

/-- Decimal text of a natural number of fifty-three bits. -/
def natDecimal (n : Nat) : String :=
  if n < exactBound then Nat.repr n else (shortest n).write

def decimal : Whole → String
  | .finite n => if n < 0 then "-" ++ natDecimal n.natAbs else natDecimal n.natAbs
  | .infinite true => "-Infinity"
  | .infinite false => "Infinity"

end Whole

end DocMarkup
