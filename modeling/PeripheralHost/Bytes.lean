/-!
# Byte strings

Everything this library puts on a line or takes off one is a finite list of
octets. Lists, rather than packed arrays, are the carrier: a frame is a
concatenation of a few short parts, a stream is cut at arbitrary places, and
every law worth stating is an equation between appends.

Two facts about octets are shared by all the formats above this module.

* A frame is closed by the exclusive or of its payload (`checksum`).
* Every number on the line is written with its most significant octet first
  (`bigEndian`), and is read back by `ofBigEndian`.

## Main results

* `checksum_append` — the checksum of a concatenation is the exclusive or of
  the checksums, so a receiver may check header and body apart.
* `length_bigEndian` — the written width is the width asked for.
* `ofBigEndian_bigEndian` — a number that fits its width is read back; one
  that does not is read back modulo `256 ^ width`.
-/

namespace PeripheralHost

-- Powers of numbers are the core library's in every module, also behind an import that
-- declares powers in monoids.
attribute [scoped instance (1100), default_instance (10001)] instPowNat

/-- A string of octets, first octet first. -/
abbrev Bytes := List UInt8

namespace Bytes

/-! ## Checksum -/

/-- Exclusive or of every octet; zero for the empty string. -/
def checksum (bytes : Bytes) : UInt8 := bytes.foldl (· ^^^ ·) 0

private theorem foldl_xor (bytes : Bytes) (start : UInt8) :
    bytes.foldl (· ^^^ ·) start = start ^^^ bytes.foldl (· ^^^ ·) 0 := by
  induction bytes generalizing start with
  | nil => simp
  | cons b rest ih =>
      rw [List.foldl_cons, ih, List.foldl_cons, ih (0 ^^^ b)]
      simp [UInt8.xor_assoc]

@[simp] theorem checksum_nil : checksum [] = 0 := rfl

@[simp] theorem checksum_cons (b : UInt8) (rest : Bytes) :
    checksum (b :: rest) = b ^^^ checksum rest := by
  rw [checksum, List.foldl_cons, foldl_xor]
  simp [checksum]

theorem checksum_append (left right : Bytes) :
    checksum (left ++ right) = checksum left ^^^ checksum right := by
  induction left with
  | nil => simp
  | cons b rest ih => simp [ih, UInt8.xor_assoc]

/-! ## Numbers, most significant octet first -/

/-- The low `8 * width` bits of `n` in `width` octets, most significant first. -/
def bigEndian : (width n : Nat) → Bytes
  | 0, _ => []
  | width + 1, n => UInt8.ofNat (n / 256 ^ width) :: bigEndian width n

/-- The number written by a string of octets, most significant first. -/
def ofBigEndian (bytes : Bytes) : Nat :=
  bytes.foldl (fun n b => 256 * n + b.toNat) 0

@[simp] theorem length_bigEndian (width n : Nat) :
    (bigEndian width n).length = width := by
  induction width with
  | zero => rfl
  | succ width ih => simp [bigEndian, ih]

private theorem foldl_bigEndian (width n start : Nat) :
    (bigEndian width n).foldl (fun n b => 256 * n + b.toNat) start =
      256 ^ width * start + n % 256 ^ width := by
  induction width generalizing start with
  | zero => simp [bigEndian, Nat.mod_one]
  | succ width ih =>
      rw [bigEndian, List.foldl_cons, ih]
      have split : n % 256 ^ (width + 1) =
          n % 256 ^ width + 256 ^ width * (n / 256 ^ width % 256) := by
        rw [Nat.pow_succ, Nat.mod_mul]
      have octet : (UInt8.ofNat (n / 256 ^ width)).toNat =
          n / 256 ^ width % 256 := by simp
      rw [octet, split, Nat.mul_add, Nat.pow_succ, Nat.mul_assoc]
      omega

theorem ofBigEndian_bigEndian (width n : Nat) :
    ofBigEndian (bigEndian width n) = n % 256 ^ width := by
  simp [ofBigEndian, foldl_bigEndian]

private theorem foldl_ofBigEndian (bytes : Bytes) (start : Nat) :
    bytes.foldl (fun n b => 256 * n + b.toNat) start =
      256 ^ bytes.length * start + ofBigEndian bytes := by
  induction bytes generalizing start with
  | nil => simp [ofBigEndian]
  | cons b rest ih =>
      have tail : ofBigEndian (b :: rest) = 256 ^ rest.length * b.toNat + ofBigEndian rest := by
        rw [ofBigEndian, List.foldl_cons, ih]
        simp
      rw [List.foldl_cons, ih, tail, List.length_cons, Nat.pow_succ, Nat.mul_add, Nat.mul_assoc]
      omega

theorem ofBigEndian_cons (b : UInt8) (rest : Bytes) :
    ofBigEndian (b :: rest) = 256 ^ rest.length * b.toNat + ofBigEndian rest := by
  rw [ofBigEndian, List.foldl_cons, foldl_ofBigEndian]
  simp

theorem ofBigEndian_lt (bytes : Bytes) : ofBigEndian bytes < 256 ^ bytes.length := by
  induction bytes with
  | nil => simp [ofBigEndian]
  | cons b rest ih =>
      have octet := b.toNat_lt
      have bound : 256 ^ rest.length * (b.toNat + 1) ≤ 256 ^ rest.length * 256 :=
        Nat.mul_le_mul_left _ octet
      rw [ofBigEndian_cons, List.length_cons, Nat.pow_succ]
      rw [Nat.mul_add, Nat.mul_one] at bound
      omega

theorem bigEndian_ofBigEndian (bytes : Bytes) :
    bigEndian bytes.length (ofBigEndian bytes) = bytes := by
  suffices general : ∀ high,
      bigEndian bytes.length (256 ^ bytes.length * high + ofBigEndian bytes) =
      bytes by
    simpa using general 0
  induction bytes with
  | nil => intro high; rfl
  | cons b rest ih =>
      intro high
      have unit : 0 < 256 ^ rest.length := Nat.pow_pos (by decide)
      have regroup : 256 ^ (rest.length + 1) * high + (256 ^ rest.length * b.toNat +
          ofBigEndian rest) =
          256 ^ rest.length * (256 * high + b.toNat) + ofBigEndian rest := by
        rw [Nat.pow_succ, Nat.mul_add, Nat.mul_assoc]
        omega
      have octet : UInt8.ofNat (256 * high + b.toNat) = b := by
        apply UInt8.toNat_inj.mp
        have := b.toNat_lt
        simp only [UInt8.toNat_ofNat']
        omega
      rw [ofBigEndian_cons, List.length_cons, regroup, bigEndian, ih,
        Nat.mul_add_div unit, Nat.div_eq_of_lt (ofBigEndian_lt rest), Nat.add_zero, octet]

end Bytes

end PeripheralHost
