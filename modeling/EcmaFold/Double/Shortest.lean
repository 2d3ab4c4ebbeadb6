import EcmaFold.Double.Dyadic

/-!
The shortest decimal that reads back to a double: of all decimals that round to it those with the fewest
digits, and of these the nearest.
-/

namespace EcmaFold

/-- The digits of a positive decimal and the power of ten of the first one: `d.ddd * 10 ^ power`. -/
structure Decimal where
  digits : Nat
  power : Int
  deriving DecidableEq, Repr

namespace Decimal

def digitCount (n : Nat) : Nat := (Nat.toDigits 10 n).length

/-- The power of ten just not above the fraction `num / den`. -/
def powerOf (num den : Nat) : Int :=
  if den ≤ num then (digitCount (num / den) : Int) - 1
  else
    let below := digitCount (den / num)
    if den ≤ num * Nat.pow 10 (below - 1) then -((below - 1 : Nat) : Int) else -(below : Int)

/-- `n * 10 ^ power` over a common denominator: the fraction's two parts. -/
def scaleTen (num den : Nat) (power : Int) : Nat × Nat :=
  match power with
  | .ofNat up => (num * Nat.pow 10 up, den)
  | .negSucc down => (num, den * Nat.pow 10 (down + 1))

/-- The interval of the numbers that round to a positive double, over one denominator. -/
structure Interval where
  low : Nat
  mid : Nat
  high : Nat
  den : Nat
  /-- Whether the two ends round to the double as well. -/
  closed : Bool

/-- The interval of a positive double: half way to its neighbours. Below a power of two the neighbour
is nearer. -/
def interval (d : Dyadic) : Interval :=
  let nearer := d.mantissa = Dyadic.hiddenBit ∧ Dyadic.leastExponent < d.exponent
  let low := 4 * d.mantissa - (if nearer then 1 else 2)
  let mid := 4 * d.mantissa
  let high := 4 * d.mantissa + 2
  let closed := d.mantissa % 2 = 0
  match d.exponent - 2 with
  | .ofNat up => ⟨low <<< up, mid <<< up, high <<< up, 1, closed⟩
  | .negSucc down => ⟨low, mid, high, 1 <<< (down + 1), closed⟩

/-- Whether `digits * 10 ^ unit` lies in the interval. -/
def fits (i : Interval) (digits : Nat) (unit : Int) : Bool :=
  let (num, den) := scaleTen digits 1 unit
  if i.closed then i.low * den ≤ num * i.den && num * i.den ≤ i.high * den
  else i.low * den < num * i.den && num * i.den < i.high * den

/-- The best decimal with `count` digits, if one lies in the interval: of the two neighbours on that
grid those that do, and of these the nearer one; a tie goes to the even digit. -/
def candidate (i : Interval) (power : Int) (count : Nat) : Option Nat :=
  let unit := power - (count : Int) + 1
  let (num, den) := scaleTen i.mid i.den (-unit)
  let below := num / den
  let rest := num % den
  let belowFits := fits i below unit
  let aboveFits := fits i (below + 1) unit
  if belowFits && aboveFits then
    some (if 2 * rest < den || (2 * rest = den && below % 2 = 0) then below else below + 1)
  else if belowFits then some below
  else if aboveFits then some (below + 1)
  else none

/-- The first of the digit counts, from `count` on and `fuel` further, for which there is a decimal. -/
def search (i : Interval) (power : Int) : (fuel count : Nat) → Decimal
  | 0, count => ⟨(candidate i power count).getD 0, power⟩
  | fuel + 1, count =>
    match candidate i power count with
    | some digits =>
      -- a carry into a further digit moves the point
      if digits = Nat.pow 10 count then ⟨1, power + 1⟩ else ⟨digits, power⟩
    | none => search i power fuel (count + 1)

/-- The shortest decimal of a positive double; seventeen digits always suffice. -/
def shortest (d : Dyadic) : Decimal :=
  let i := interval d
  search i (powerOf i.mid i.den) 16 1

end Decimal

end EcmaFold
