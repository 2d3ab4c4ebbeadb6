import EcmaFold.Text.Bytes

/-!
Dates, perhaps with a time of day: `2001-12-14`, `2001-12-14 21:59:43.10` and `2001-12-14T21:59:43.10-05:00`.
A month, day, hour, minute or second may be written with one digit.
-/

namespace EcmaFold.Timestamp

/-- One or two digits at the head, and what follows them. -/
def number? (text : Bytes) : Option (Nat × Bytes) :=
  let digits := (text.take 2).takeWhile Bytes.isDigit
  if digits.isEmpty then none else some (Bytes.digitsValue 10 digits, text.drop digits.length)

/-- What follows a byte. -/
def after? (b : UInt8) : Bytes → Option Bytes
  | first :: rest => if first = b then some rest else none
  | [] => none

def isLeapYear (year : Nat) : Bool := year % 4 = 0 && (year % 100 ≠ 0 || year % 400 = 0)

def daysIn (year month : Nat) : Nat :=
  if month = 2 then if isLeapYear year then 29 else 28
  else if [4, 6, 9, 11].contains month then 30
  else 31

/-- What follows a date. -/
def date? (text : Bytes) : Option Bytes := do
  let year := text.takeWhile Bytes.isDigit
  guard (year.length = 4)
  let rest ← after? 0x2D (text.drop 4)
  let (month, rest) ← number? rest
  guard (1 ≤ month && month ≤ 12)
  let rest ← after? 0x2D rest
  let (day, rest) ← number? rest
  guard (1 ≤ day && day ≤ daysIn (Bytes.digitsValue 10 year) month)
  return rest

/-- What follows a fraction of a second, if there is one. -/
def afterFraction : Bytes → Bytes
  | mark :: digit :: rest =>
    if (mark = 0x2E || mark = 0x2C) && Bytes.isDigit digit then rest.dropWhile Bytes.isDigit
    else mark :: digit :: rest
  | text => text

/-- What follows a time of day. -/
def time? (text : Bytes) : Option Bytes := do
  let (hour, rest) ← number? text
  guard (hour < 24)
  let rest ← after? 0x3A rest
  let (minute, rest) ← number? rest
  guard (minute < 60)
  let rest ← after? 0x3A rest
  let (second, rest) ← number? rest
  guard (second < 60)
  return afterFraction rest

/-- Whether a text is a time zone: `Z`, or hours and minutes with a sign. -/
def isZone : Bytes → Bool
  | [0x5A] => true
  | [sign, a, b, 0x3A, c, d] =>
    (sign = 0x2B || sign = 0x2D) && [a, b, c, d].all Bytes.isDigit &&
      Bytes.digitsValue 10 [a, b] ≤ 24 && Bytes.digitsValue 10 [c, d] ≤ 60
  | _ => false

/-- Whether a text is a date with or without a time of day. A time after a space has no zone. -/
def isTimestamp (text : Bytes) : Bool :=
  match date? text with
  | none => false
  | some [] => true
  | some (mark :: rest) =>
    if mark = 0x54 || mark = 0x74 then (time? rest).any isZone
    else mark = 0x20 && (time? (rest.dropWhile (· = 0x20))).any List.isEmpty

end EcmaFold.Timestamp
