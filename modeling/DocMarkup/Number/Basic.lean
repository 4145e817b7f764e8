import DocMarkup.Number.Whole

/-!
Numbers of fifty-three significant bits, whole or not.  They are multiples of `2 ^ -1074`, and what
is computed with them is rounded to the nearest such number, ties to even.  Line numbers and the
numbers of raw settings are of this kind.
-/

namespace DocMarkup

/-- A number of at most fifty-three significant bits, or an infinity. -/
inductive Number where
  | whole (value : Whole)
  /-- A number that is not whole, counted in steps of `2 ^ -1074`. -/
  | fraction (steps : Int)
  deriving DecidableEq, Repr, Inhabited

namespace Number

/-- How many steps make one. -/
def stepsInOne : Nat := Nat.pow 2 1074

/-- The number of so many steps, of which there are at most fifty-three significant bits. -/
def ofSteps (steps : Int) : Number :=
  if steps % stepsInOne == 0 then .whole (Whole.ofInt (steps / stepsInOne)) else .fraction steps

/-- The quotient rounded to fifty-three significant bits, and to a natural number at least. -/
def roundQuotient (n d : Nat) : Nat :=
  let step := Nat.pow 2 ((n / d).log2 - 52)
  Whole.roundDiv n (d * step) * step

/-- The number nearest to a ratio. -/
def ofRatio (numerator : Int) (denominator : Nat) : Number :=
  ofSteps (Whole.signed (numerator < 0) (roundQuotient (numerator.natAbs * stepsInOne) denominator))

def ofNat (n : Nat) : Number := .whole (Whole.ofNat n)

instance : NatCast Number := ⟨ofNat⟩

instance (n : Nat) : OfNat Number n := ⟨ofNat n⟩

/-- The steps a finite number is made of. -/
def steps? : Number → Option Int
  | whole (.finite n) => some (n * stepsInOne)
  | whole (.infinite _) => none
  | fraction steps => some steps

/-- The sum, rounded; of two infinities it is the first. -/
def add : Number → Number → Number
  | whole a, whole b => whole (a + b)
  | a, b =>
    match a.steps?, b.steps? with
    | some s, some t => ofSteps (Whole.signed (s + t < 0) (Whole.roundNat (s + t).natAbs))
    | none, _ => a
    | _, none => b

instance : Add Number := ⟨add⟩

/-- One less, rounded. -/
def pred (n : Number) : Number := n + whole (.finite (-1))

def isWhole : Number → Bool
  | whole (.finite _) => true
  | _ => false

/-- The greatest whole number that is not above a number. -/
def floor : Number → Whole
  | whole n => n
  | fraction steps => Whole.ofInt (steps / stepsInOne)

def lt : Number → Number → Bool
  | whole a, whole b => a.lt b
  | whole a, fraction t => a.le (fraction t).floor
  | fraction s, whole b => (fraction s).floor.lt b
  | fraction s, fraction t => s < t

/-- The decimal of a fraction with the fewest places that reads back as the fraction.  Of two such
decimals the nearer is taken, and the even one when both are as near. -/
def shortest (steps : Nat) : Decimal :=
  let rec search (places : Nat) : Nat → Decimal
    | 0 => ⟨steps * Nat.pow 10 places / stepsInOne, -places⟩
    | more + 1 =>
      let grid := Nat.pow 10 places
      let scaled := steps * grid
      let below := scaled / stepsInOne
      let above := below + 1
      let fits (digits : Nat) : Bool := roundQuotient (digits * stepsInOne) grid == steps
      let low := scaled - below * stepsInOne
      let high := above * stepsInOne - scaled
      let lowNearer := low < high || (low == high && below % 2 == 0)
      if fits below && (!fits above || lowNearer) then ⟨below, -places⟩
      else if fits above then ⟨above, -places⟩
      else search (places + 1) more
  search 1 1074

def decimal : Number → String
  | whole n => n.decimal
  | fraction steps => (if steps < 0 then "-" else "") ++ (shortest steps.natAbs).write

end Number

end DocMarkup
