/-!
Doubles as exact numbers: an integer times a power of two, with a sign. The integer arithmetic on them
is exact, so that a remainder or a conversion rounds nowhere.
-/

namespace EcmaFold

/-- The number `mantissa * 2 ^ exponent`, negated if `negative` is set; zero keeps its sign. -/
structure Dyadic where
  negative : Bool
  mantissa : Nat
  exponent : Int
  deriving DecidableEq, Repr

namespace Dyadic

/-- The exponent of the least positive double. -/
def leastExponent : Int := -1074

/-- The weight of the sign in the bits of a double: the 63rd power of two. -/
def signBit : Nat := 0x8000000000000000

/-- The leading one that the bits of a double leave out: the 52nd power of two. -/
def hiddenBit : Nat := 0x10000000000000

/-- The exponent field of what is not finite. -/
def nonFiniteField : Nat := 0x7FF

/-- A finite double as an exact number. -/
def ofFloat? (value : Float) : Option Dyadic :=
  let bits := value.toBits.toNat
  let negative := decide (signBit ≤ bits)
  let field := bits % signBit / hiddenBit
  let fraction := bits % hiddenBit
  if field = nonFiniteField then none
  else if field = 0 then some ⟨negative, fraction, leastExponent⟩
  else some ⟨negative, hiddenBit + fraction, leastExponent + (field - 1 : Nat)⟩

/-- The integer part, which is nearer to zero. -/
def truncate (d : Dyadic) : Int :=
  let magnitude := match d.exponent with
    | .ofNat up => d.mantissa <<< up
    | .negSucc down => d.mantissa >>> (down + 1)
  if d.negative then -(magnitude : Int) else magnitude

/-- The mantissa for an exponent that is not larger. -/
def scaled (d : Dyadic) (exponent : Int) : Nat := d.mantissa <<< (d.exponent - exponent).toNat

/-- The double with this exact value, for a value that is one. -/
def toFloat (d : Dyadic) : Float :=
  let size : Int := if d.mantissa = 0 then 0 else Nat.log2 d.mantissa + 1
  let exponent := max (d.exponent + size - 53) leastExponent
  let mantissa :=
    if d.exponent ≤ exponent then d.mantissa >>> (exponent - d.exponent).toNat
    else d.mantissa <<< (d.exponent - exponent).toNat
  let magnitude :=
    if mantissa < hiddenBit then mantissa
    else ((exponent - leastExponent).toNat + 1) * hiddenBit + (mantissa - hiddenBit)
  Float.ofBits (magnitude + if d.negative then signBit else 0).toUInt64

/-- The remainder of a division whose quotient is truncated; it has the sign of the dividend. -/
def remainder (x y : Dyadic) : Dyadic :=
  let exponent := min x.exponent y.exponent
  ⟨x.negative, x.scaled exponent % y.scaled exponent, exponent⟩

end Dyadic

/-- An integer modulo the 32nd power of two, as a number with a sign. -/
def wrap32 (i : Int) : Int := Int.bmod i 0x100000000

namespace Double

def nan : Float := Float.ofBits 0x7FF8000000000000

/-- The exact remainder with the sign of the dividend. There is none of an infinite dividend or a zero
divisor; an infinite divisor leaves the dividend. -/
def remainder (x y : Float) : Float :=
  match Dyadic.ofFloat? x, Dyadic.ofFloat? y with
  | some dx, some dy => if dy.mantissa = 0 then nan else (dx.remainder dy).toFloat
  | some _, none => if y.isNaN then nan else x
  | none, _ => nan

/-- The integer part wrapped to 32 bits with a sign. What is not finite counts as zero. -/
def toInt32 (x : Float) : Int :=
  match Dyadic.ofFloat? x with
  | some d => wrap32 d.truncate
  | none => 0

end Double

end EcmaFold
