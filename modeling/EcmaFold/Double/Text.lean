import EcmaFold.Double.Shortest
import EcmaFold.Text.Bytes

/-!
The text of a double: the shortest digits that read back, positional for moderate sizes.
-/

namespace EcmaFold.Double

/-- Powers of ten from `-4` up to `5` are written positionally, others with an exponent. -/
def isPositional (power : Int) : Bool := -4 ≤ power && power < 6

/-- An exponent with its sign and at least two digits. -/
def exponentText (power : Int) : Bytes :=
  (if power < 0 then utf8 "e-" else utf8 "e+") ++ Bytes.padLeft 48 2 (Bytes.ofNat power.natAbs)

/-- Digits with the point behind the first one, and the exponent. -/
def scientific (digits : Bytes) (power : Int) : Bytes :=
  let fraction := digits.drop 1
  digits.take 1 ++ (if fraction.isEmpty then [] else 46 :: fraction) ++ exponentText power

/-- Digits at their places. -/
def positional (digits : Bytes) (power : Int) : Bytes :=
  if power < 0 then utf8 "0." ++ List.replicate (-power - 1).toNat 48 ++ digits
  else
    let whole := power.toNat + 1
    let fraction := digits.drop whole
    digits.take whole ++ List.replicate (whole - digits.length) 48 ++
      (if fraction.isEmpty then utf8 ".0" else 46 :: fraction)

/-- The text of a positive double. -/
def magnitudeText (d : Dyadic) : Bytes :=
  let decimal := Decimal.shortest d
  let digits := Bytes.ofNat decimal.digits
  if isPositional decimal.power then positional digits decimal.power
  else scientific digits decimal.power

/-- The text of a double. A number always shows a point or an exponent. -/
def text (value : Float) : Bytes :=
  match Dyadic.ofFloat? value with
  | none =>
    if value.isNaN then utf8 "nan" else if value < 0 then utf8 "-inf" else utf8 "inf"
  | some d =>
    (if d.negative then utf8 "-" else []) ++
      (if d.mantissa = 0 then utf8 "0.0" else magnitudeText d)

end EcmaFold.Double
