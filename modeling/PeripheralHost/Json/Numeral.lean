import PeripheralHost.Json.Reader

/-!
# Numbers

A numeral is an optional minus sign, digits without a needless leading zero,
and optionally a fraction and an exponent (`numeral`). Settings are natural
numbers below `2 ^ 64`, so of a numeral's value only this much is of interest:
is it such a number, and if not, is it a number at all (`number`)?

The second question has an answer because a numeral of another kind stands for
a binary floating point number of double precision, and one beyond the range
of these is not accepted as JSON. Such a numeral is measured as follows. Its
digits are gathered into a significand below `2 ^ 64`; digits that do not fit
are dropped, those before the point with one power of ten each
(`Measure.ofParts`). The significand and the power of ten are rounded to 53
binary digits, and the numeral is out of range if their product would be
rounded to `2 ^ 1024` or above (`Measure.inRange`).
-/

namespace PeripheralHost.Json

open Reader

/-- The parts of a numeral. -/
structure Numeral where
  /-- Whether there is a minus sign. -/
  negative : Bool
  /-- The digits before the point. -/
  whole : List Char
  /-- The digits behind the point, if there is one. -/
  fraction : Option (List Char)
  /-- Whether the exponent is negative, and its digits, if there is one. -/
  exponent : Option (Bool × List Char)
  deriving DecidableEq, Repr

namespace Numeral

/-- The value of a decimal digit. -/
def digit (c : Char) : Nat := c.toNat - '0'.toNat

/-- The number written by decimal digits. -/
def ofDigits (digits : List Char) : Nat := digits.foldl (fun n c => 10 * n + digit c) 0

/-! ## Range -/

/-- A significand and a power of ten. -/
structure Measure where
  /-- The significand. -/
  significand : Nat
  /-- The power of ten. -/
  exponent : Int
  deriving DecidableEq, Repr

namespace Measure

/-- Gathers digits into a significand while it stays below `2 ^ 64`: the
significand, how many digits went into it, and how many did not. -/
def gather : (significand taken : Nat) → List Char → Nat × Nat × Nat
  | significand, taken, [] => (significand, taken, 0)
  | significand, taken, c :: rest =>
      let grown := 10 * significand + digit c
      if grown < 2 ^ 64 then gather grown (taken + 1) rest
      else (significand, taken, rest.length + 1)

/-- The largest exponent that is taken at its value; a numeral with a larger
one is zero or out of range by the sign of the exponent alone. -/
def exponentLimit : Nat := 2 ^ 31 - 1

/-- The measure of a numeral, or nothing if its exponent is beyond the limit
and makes it small. -/
def ofParts (parts : Numeral) : Option Measure :=
  let (significand, _, dropped) := gather 0 0 parts.whole
  let (significand, taken, _) := gather significand 0 (parts.fraction.getD [])
  let base : Int := (dropped : Int) - (taken : Int)
  match parts.exponent with
  | none => some ⟨significand, base⟩
  | some (negative, digits) =>
      let size := ofDigits digits
      if size > exponentLimit && negative then none
      else some ⟨significand, if negative then base - size else base + size⟩

/-- Rounds to 53 binary digits, to the nearest, ties to even. -/
def roundTo53 (n : Nat) : Nat :=
  if n < 2 ^ 53 then n
  else
    let shift := n.log2 - 52
    let kept := n / 2 ^ shift
    let lost := n % 2 ^ shift
    let half := 2 ^ (shift - 1)
    (if lost > half || (lost = half && kept % 2 = 1) then kept + 1 else kept) * 2 ^ shift

/-- Whether the product of the rounded parts is in the range of double
precision. -/
def inRange (measure : Measure) : Bool :=
  if measure.significand = 0 || measure.exponent < 0 then true
  else if measure.exponent > 308 then false
  else
    roundTo53 measure.significand * roundTo53 (10 ^ measure.exponent.toNat) <
      2 ^ 1024 - 2 ^ 970

end Measure

/-- What a setting can make of a number. -/
inductive Reading where
  /-- A natural number below `2 ^ 64`. -/
  | natural (value : Nat)
  /-- Any other number. -/
  | other
  deriving DecidableEq, Repr

/-- The reading of a numeral; nothing if it is out of range. -/
def reading (parts : Numeral) : Option Reading :=
  if parts.fraction.isNone && parts.exponent.isNone && ofDigits parts.whole < 2 ^ 64 then
    some (if parts.negative then .other else .natural (ofDigits parts.whole))
  else
    match Measure.ofParts parts with
    | none => some .other
    | some measure => if measure.inRange then some .other else none

end Numeral

namespace Reader

/-! ## Reading -/

/-- One or more digits. A text that ends before the first is faulty in the way
given; anything else in its place is malformed. -/
def digits (ended : Fault) : Reader (List Char) := do
  let found ← takeWhile Char.isDigit
  if found.isEmpty then
    match ← peek with
    | none => fail ended
    | some _ => fail .malformed
  else return found

/-- The mark of an exponent, if it comes next. -/
def exponentMark : Reader Bool := do
  if ← accept 'e' then return true else accept 'E'

/-- The sign of an exponent, if it comes next: whether it is a minus sign. -/
def exponentSign : Reader Bool := do
  if ← accept '-' then return true
  else
    let _ ← accept '+'
    return false

/-- A numeral. A text that ends inside it is faulty in the way given. -/
def numeral (ended : Fault) : Reader Numeral := do
  let negative ← accept '-'
  let whole ← digits ended
  if whole.head? = some '0' && whole.length > 1 then fail .malformed
  else
    let fraction ← do
      if ← accept '.' then some <$> digits ended else pure none
    let exponent ← do
      if ← exponentMark then
        let negative ← exponentSign
        let digits ← digits ended
        pure (some (negative, digits))
      else pure none
    return { negative, whole, fraction, exponent }

/-- A number. -/
def number : Reader Numeral.Reading := do
  match (← numeral .truncated).reading with
  | some value => return value
  | none => fail .malformed

end Reader

end PeripheralHost.Json
