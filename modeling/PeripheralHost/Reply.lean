import PeripheralHost.Session.Error

/-!
# Replies

A reply is what a caller reads out of a reply frame: the command it answers,
the status code, and the result data. Data counts only on success; a reply
with another status than zero has none, whatever follows the status code in
the frame.

## Main results

* `ofFrame_reply` — reading the frame of a reply gives back its status, and
  its data on success.
-/

namespace PeripheralHost

/-- A reply of the controller, read out of its frame. -/
structure Reply where
  /-- The command answered. -/
  command : UInt8
  /-- Zero for success. -/
  status : Int32
  /-- The result data; empty unless the status is zero. -/
  data : Bytes
  deriving DecidableEq, Repr, Inhabited

namespace Reply

/-- Reads a reply out of a frame. -/
def ofFrame (frame : Frame) : Except SessionError Reply :=
  match frame.status with
  | none => .error (.malformedReply frame.command frame.body.length)
  | some status =>
      .ok ⟨frame.command, status, if status = 0 then frame.resultData else []⟩

/-- Whether the status is zero. -/
def isOk (reply : Reply) : Bool := reply.status = 0

/-- The result data, or the status as an error. -/
def result (reply : Reply) : Except SessionError Bytes :=
  if reply.isOk then .ok reply.data else .error (.refused reply.command reply.status)

theorem ofFrame_reply (command : UInt8) (status : Int32) (data : Bytes) :
    ofFrame (Frame.reply command status data) =
      .ok ⟨command, status, if status = 0 then data else []⟩ := by
  rw [ofFrame, Frame.status_reply, Frame.resultData_reply]
  rfl

end Reply

end PeripheralHost
