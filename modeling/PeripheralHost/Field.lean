import PeripheralHost.Bytes
import PeripheralHost.Frame.Error

/-!
# Length-marked fields

The parameters of a request and the data of a reply are often a row of
fields, each behind a mark that gives its length. The mark is one octet for a
*short* field and two for a *long* one, most significant octet first. The two
kinds differ in nothing else, so one definition with the kind as a parameter
serves both.

`Field.encode` refuses octets too many for the mark. `Field.split` takes one
field off the front of a buffer and says, when it cannot, how many octets
would have been needed and how many there were. A row of fields is written by
`Field.putAll`, which passes over a field that does not fit and goes on, and
read by `Field.splitAll`, which stops at the first field it cannot read.

## Main results

* `split_encode_append` — a written field is split off again, whatever
  follows it.
-/

namespace PeripheralHost

namespace Field

/-- The kinds of field, by the width of their length mark. -/
inductive Kind where
  /-- One octet of length. -/
  | short
  /-- Two octets of length. -/
  | long
  deriving DecidableEq, Repr

/-- Octets of the length mark. -/
def Kind.markSize : Kind → Nat
  | short => 1
  | long => 2

/-- The longest field the mark can measure. -/
def Kind.limit : Kind → Nat
  | short => 255
  | long => 65535

/-- The written form of a field. -/
def encode (kind : Kind) (bytes : Bytes) : Except FrameError Bytes :=
  if bytes.length > kind.limit then .error (.fieldTooLong bytes.length kind.limit)
  else .ok (Bytes.bigEndian kind.markSize bytes.length ++ bytes)

/-- Takes one field off the front of a buffer: the field and what follows. -/
def split (kind : Kind) (buffer : Bytes) : Except FrameError (Bytes × Bytes) :=
  if buffer.length < kind.markSize then
    .error (.truncatedField kind.markSize buffer.length)
  else
    let length := Bytes.ofBigEndian (buffer.take kind.markSize)
    let rest := buffer.drop kind.markSize
    if rest.length < length then
      .error (.truncatedField (kind.markSize + length) (kind.markSize + rest.length))
    else .ok (rest.take length, rest.drop length)

/-- Reads the field at the front of a buffer and ignores what follows. -/
def decode (kind : Kind) (buffer : Bytes) : Except FrameError Bytes :=
  match split kind buffer with
  | .ok (field, _) => .ok field
  | .error fault => .error fault

/-! ## Rows of fields -/

/-- Appends fields to a buffer in order. Each answers the length of the buffer
after it, or the error for which it was passed over. -/
def putAll : List (Kind × Bytes) → Bytes → List (Except FrameError Nat) × Bytes
  | [], buffer => ([], buffer)
  | (kind, bytes) :: rest, buffer =>
      match encode kind bytes with
      | .ok written =>
          let buffer := buffer ++ written
          let (answers, after) := putAll rest buffer
          (.ok buffer.length :: answers, after)
      | .error fault =>
          let (answers, after) := putAll rest buffer
          (.error fault :: answers, after)

/-- Splits fields of the given kinds off a buffer: the fields, the error that
ended the splitting if there was one, and what was left before it. -/
def splitAll : List Kind → Bytes → List Bytes × Option FrameError × Bytes
  | [], buffer => ([], none, buffer)
  | kind :: kinds, buffer =>
      match split kind buffer with
      | .ok (field, rest) =>
          let (fields, fault, left) := splitAll kinds rest
          (field :: fields, fault, left)
      | .error fault => ([], some fault, buffer)

/-! ## Splitting what was written -/

theorem Kind.limit_lt (kind : Kind) : kind.limit < 256 ^ kind.markSize := by
  cases kind <;> decide

theorem split_encode_append {kind : Kind} {bytes written : Bytes} (rest : Bytes)
    (h : encode kind bytes = .ok written) :
    split kind (written ++ rest) = .ok (bytes, rest) := by
  unfold encode at h
  split at h
  · simp at h
  · next fits =>
      simp only [Except.ok.injEq] at h
      subst h
      have small : bytes.length % 256 ^ kind.markSize = bytes.length :=
        Nat.mod_eq_of_lt (Nat.lt_of_le_of_lt (Nat.not_lt.mp fits) kind.limit_lt)
      simp only [split, List.append_assoc, List.length_append, Bytes.length_bigEndian,
        List.take_left', List.drop_left', Bytes.ofBigEndian_bigEndian, small]
      rw [if_neg (by omega), if_neg (by omega)]

end Field

end PeripheralHost
