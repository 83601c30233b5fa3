import PeripheralHost.Bytes

/-!
# Frames

A frame is the unit the host and the controller exchange: a command code, a
marker that tells requests from replies, and a body. On the line it stands
between a start mark and an end mark, with the length of the body in front of
the body and a checksum behind it (`PeripheralHost.Frame.Encode`); none of
these is kept once the frame has been taken in.

A request's body is its parameters. A reply's body begins with a status code,
four octets in two's complement, zero for success; result data follows.

## Main results

* `status_reply`, `resultData_reply` — what a reply is built from is read
  back from it, for every status and all data.
-/

namespace PeripheralHost

/-- One verified unit exchanged over the line. -/
structure Frame where
  /-- Command code, the same in a request and its reply. -/
  command : UInt8
  /-- Tells requests from replies and events. -/
  marker : UInt8
  /-- Parameters of a request; status and result data of a reply. -/
  body : Bytes
  deriving DecidableEq, Repr, Inhabited

namespace Frame

/-! ## Layout constants -/

/-- Start mark of a frame. -/
def startMark : UInt8 := 0x02

/-- End mark of a payload; the checksum follows it. -/
def endMark : UInt8 := 0x03

/-- Marker of a request from the host. -/
def requestMarker : UInt8 := 0x2F

/-- Marker of a reply or an event from the controller. -/
def replyMarker : UInt8 := 0x4F

/-- Octets of a payload ahead of its body: command, marker, body length. -/
def headerSize : Nat := 4

/-- Octets around a payload: start mark, end mark, checksum. -/
def overhead : Nat := 3

/-- Octets of the status code that begins a reply's body. -/
def statusSize : Nat := 4

/-- The longest body whose length two octets can write. -/
def maxBody : Nat := 65535

/-! ## Building and reading frames -/

/-- A request of the host. -/
def request (command : UInt8) (params : Bytes) : Frame := ⟨command, requestMarker, params⟩

/-- A reply of the controller. -/
def reply (command : UInt8) (status : Int32) (data : Bytes) : Frame :=
  ⟨command, replyMarker, Bytes.bigEndian statusSize status.toUInt32.toNat ++ data⟩

/-- Whether the frame carries the reply marker. -/
def isReply (frame : Frame) : Bool := frame.marker = replyMarker

/-- Whether the frame is a reply to `command`. -/
def answers (frame : Frame) (command : UInt8) : Bool :=
  frame.command = command && frame.isReply

/-- The status code at the head of the body, if the body is long enough. -/
def status (frame : Frame) : Option Int32 :=
  if frame.body.length < statusSize then none
  else some (UInt32.ofNat (Bytes.ofBigEndian (frame.body.take statusSize))).toInt32

/-- What follows the status code; nothing if the body ends with it or before. -/
def resultData (frame : Frame) : Bytes := frame.body.drop statusSize

/-- Length of the frame on the line. -/
def wireSize (frame : Frame) : Nat := overhead + headerSize + frame.body.length

/-! ## Reading back a reply -/

@[simp] theorem isReply_reply (command : UInt8) (code : Int32) (data : Bytes) :
    (reply command code data).isReply = true := rfl

theorem status_reply (command : UInt8) (code : Int32) (data : Bytes) :
    (reply command code data).status = some code := by
  have head : (Bytes.bigEndian statusSize code.toUInt32.toNat ++ data).take statusSize =
      Bytes.bigEndian statusSize code.toUInt32.toNat := by
    simp
  have fits : code.toUInt32.toNat % 256 ^ statusSize = code.toUInt32.toNat :=
    Nat.mod_eq_of_lt (by simpa [statusSize] using code.toUInt32.toNat_lt)
  simp [status, reply, head, Bytes.ofBigEndian_bigEndian, fits]

theorem resultData_reply (command : UInt8) (code : Int32) (data : Bytes) :
    (reply command code data).resultData = data := by
  simp [resultData, reply]

end Frame

end PeripheralHost
