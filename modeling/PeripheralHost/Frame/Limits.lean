import PeripheralHost.Duration
import PeripheralHost.Frame.Basic

/-!
# Limits on taking in frames

How long a body may be, how many octets are asked of the link at once, and how
long a started frame may stay incomplete.
-/

namespace PeripheralHost

/-- The limits within which frames are taken in. -/
structure FrameLimits where
  /-- The longest body accepted; a frame that declares more is refused. -/
  maxBody : Nat := Frame.maxBody
  /-- Octets asked of the link per read; zero counts as one. -/
  readChunk : Nat := 1024
  /-- How long a started frame may stay incomplete. -/
  frameTimeout : Duration := .ofMillis 500
  deriving DecidableEq, Repr, Inhabited

namespace FrameLimits

/-- The octets asked of the link per read. -/
def chunk (limits : FrameLimits) : Nat := max limits.readChunk 1

theorem chunk_pos (limits : FrameLimits) : 0 < limits.chunk := by
  simp only [chunk]
  omega

end FrameLimits

end PeripheralHost
