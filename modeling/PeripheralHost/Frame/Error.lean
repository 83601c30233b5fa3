import PeripheralHost.Text.Hex
import PeripheralHost.Link.Error

/-!
# What can go wrong with a frame

One type holds every cause for which a frame, or a field inside one, cannot
be taken in or sent out. The first four are verdicts on received octets: a
frame that started and did not hold up. The next two stop a request on its
way out, the two after them are about length-marked fields, and the last
passes on a failure of the link beneath.
-/

namespace PeripheralHost

/-- The causes for which a frame or a field is refused. -/
inductive FrameError where
  /-- The octet after the body was `found` and not the end mark. -/
  | badTrailer (found : UInt8)
  /-- The checksum received is not the one the payload has. -/
  | badChecksum (expected found : UInt8)
  /-- The body is longer than `max`. -/
  | bodyTooLarge (size max : Nat)
  /-- A started frame was given up after `received` octets. -/
  | incomplete (received : Nat)
  /-- The parameters of a request do not fit the length of a body. -/
  | paramsTooLarge (size : Nat)
  /-- The link reports another count than the length of the frame. -/
  | shortWrite (written expected : Nat)
  /-- A field claims more octets than there are. -/
  | truncatedField (needed available : Nat)
  /-- A field is too long for its length mark. -/
  | fieldTooLong (length max : Nat)
  /-- The link failed. -/
  | link (cause : LinkError)
  deriving DecidableEq, Repr, Inhabited

namespace FrameError

/-- The error as a sentence. -/
def message : FrameError → String
  | badTrailer found => s!"expected ETX (0x03) after body, found {Hex.tagged found}"
  | badChecksum expected found =>
      s!"checksum mismatch (expected {Hex.tagged expected}, found {Hex.tagged found})"
  | bodyTooLarge size max => s!"frame body too large ({size} bytes, max {max})"
  | incomplete received => s!"incomplete frame abandoned after {received} bytes"
  | paramsTooLarge size => s!"request parameters too large ({size} bytes, max 65535)"
  | shortWrite written expected => s!"short write ({written} of {expected} bytes accepted)"
  | truncatedField needed available =>
      s!"truncated field (needed {needed} bytes, {available} available)"
  | fieldTooLong length max => s!"field too long ({length} bytes, max {max})"
  | link cause => s!"link error: {cause.message}"

/-- The texts of the causes behind the error, outermost first. -/
def sources : FrameError → List String
  | link cause => cause.message :: cause.sources
  | _ => []

end FrameError

end PeripheralHost
