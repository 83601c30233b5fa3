import PeripheralHost.Bytes

/-!
# Octets as hexadecimal text

Two spellings are in use. A message names a single octet as `0x2f`: two
lower-case digits behind a marker (`Hex.tagged`). The log shows a whole byte
string as `02 2F 00`: two upper-case digits an octet, one blank between
octets (`Hex.dump`). Both always write both digits.
-/

namespace PeripheralHost.Hex

/-- The two digits of an octet, high half first, in the given digit case. -/
def digits (digit : Nat → Char) (b : UInt8) : List Char :=
  [digit (b.toNat / 16), digit (b.toNat % 16)]

/-- The digit of a value below sixteen, in lower case. -/
def lowerDigit (value : Nat) : Char :=
  "0123456789abcdef".toList.getD value '0'

/-- The digit of a value below sixteen, in upper case. -/
def upperDigit (value : Nat) : Char :=
  "0123456789ABCDEF".toList.getD value '0'

/-- One octet as `0x` and two lower-case digits. -/
def tagged (b : UInt8) : String :=
  String.ofList ('0' :: 'x' :: digits lowerDigit b)

/-- The characters of a dump. -/
def dumpChars : Bytes → List Char
  | [] => []
  | b :: rest => digits upperDigit b ++ rest.flatMap fun next => ' ' :: digits upperDigit next

/-- A byte string as pairs of upper-case digits, a blank between octets. -/
def dump (bytes : Bytes) : String := String.ofList (dumpChars bytes)

end PeripheralHost.Hex
