import PeripheralHost.Frame.Limits

/-!
# Settings

What a session is told before it starts: the port and its speed, how long a
request waits for its reply, how long the receiver sleeps when there is
nothing to read, how many frames a mailbox keeps, and the limits on taking in
frames. Every setting has a default, and the record with nothing given is the
default for the reference terminal.
-/

namespace PeripheralHost

/-- Settings of a serial port. -/
structure SerialSettings where
  /-- Path of the device. -/
  path : String := "/dev/ttyS1"
  /-- Line speed in baud. -/
  baudRate : UInt32 := 460800
  /-- How long one read or write of the port may take. -/
  timeout : Duration := .ofMillis 500
  deriving DecidableEq, Repr, Inhabited

/-- Settings of a session. -/
structure SessionSettings where
  /-- The port. -/
  serial : SerialSettings := {}
  /-- How long a request waits for its reply. -/
  replyTimeout : Duration := .ofMillis 2000
  /-- How long the receiver sleeps when there is nothing to read. -/
  pollInterval : Duration := .ofMillis 20
  /-- Frames kept per mailbox; zero is no limit. -/
  queueCapacity : UInt64 := 64
  /-- Limits on taking in frames; not part of the stored form. -/
  frame : FrameLimits := {}
  deriving DecidableEq, Repr, Inhabited

namespace SessionSettings

/-- The defaults for a controller at `path`. -/
def forPath (path : String) : SessionSettings := { serial := { path } }

/-- Whether nothing differs from the defaults. -/
def isDefault (settings : SessionSettings) : Bool := settings = {}

end SessionSettings

namespace SerialSettings

/-- Whether nothing differs from the defaults. -/
def isDefault (settings : SerialSettings) : Bool := settings = {}

end SerialSettings

end PeripheralHost
