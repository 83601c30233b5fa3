import PeripheralHost.Duration
import PeripheralHost.Frame.Error
import PeripheralHost.Topic

/-!
# What can go wrong in a session

The errors a caller of a session meets. Two pass on what went wrong beneath.
Two say that time ran out, for a reply or for an event. One is the
controller's own verdict, a status code other than zero; one says that a reply
was too short to hold a status code. The last two concern the session itself:
its receiver could not be started, or it is closed.

## Result codes

Some callers keep the convention of one integer for every result: zero for
success, the controller's status code as it is, and a few negative codes for
what went wrong on the host's side (`SessionError.code`).

## Main results

* `code_refused` — a status code passes through unchanged.
* `code_ne_zero` — an error has the code of success only if the controller
  itself reported zero as a failure, which no reply does.
-/

namespace PeripheralHost

/-- The causes for which an operation of a session fails. -/
inductive SessionError where
  /-- The link failed, or could not be acquired. -/
  | link (cause : LinkError)
  /-- A frame could not be sent. -/
  | frame (cause : FrameError)
  /-- No reply to `command` arrived in time. -/
  | noReply (command : UInt8) (after : Duration)
  /-- No event of the topic arrived in time. -/
  | noEvent (topic : Topic) (after : Duration)
  /-- The controller answered with a status other than zero. -/
  | refused (command : UInt8) (status : Int32)
  /-- The body of a reply is too short for a status. -/
  | malformedReply (command : UInt8) (length : Nat)
  /-- The receiver could not be started. -/
  | receiverNotStarted (cause : String)
  /-- The session is closed. -/
  | closed
  deriving DecidableEq, Repr, Inhabited

namespace SessionError

/-- The error as a sentence. -/
def message : SessionError → String
  | link cause => s!"transport error: {cause.message}"
  | frame cause => s!"frame error: {cause.message}"
  | noReply command after => s!"no reply to command {Hex.tagged command} within {after.text}"
  | noEvent topic after => s!"no {topic.name} event within {after.text}"
  | refused command status =>
      s!"command {Hex.tagged command} failed with status {status.toInt}"
  | malformedReply command length =>
      s!"reply to command {Hex.tagged command} has a {length}-byte body (status needs 4)"
  | receiverNotStarted cause => s!"failed to start receiver thread: {cause}"
  | closed => "device is closed"

/-- The texts of the causes behind the error, outermost first. -/
def sources : SessionError → List String
  | link cause => cause.message :: cause.sources
  | frame cause => cause.message :: cause.sources
  | receiverNotStarted cause => [cause]
  | _ => []

/-! ## Kinds of error -/

/-- Whether time ran out. -/
def isTimeout : SessionError → Bool
  | noReply _ _ => true
  | noEvent _ _ => true
  | _ => false

/-- Whether the device could not be acquired. -/
def isLinkUnavailable : SessionError → Bool
  | link cause => cause.isUnavailable
  | _ => false

/-- Whether the link reported another count than the length of the frame. -/
def isShortWrite : SessionError → Bool
  | frame (.shortWrite _ _) => true
  | _ => false

/-- Whether the link or the session is closed. -/
def isLinkClosed : SessionError → Bool
  | closed => true
  | link .closed => true
  | frame (.link .closed) => true
  | _ => false

/-- The controller's status code, if that is the error. -/
def status : SessionError → Option Int32
  | refused _ status => some status
  | _ => none

end SessionError

/-! ## Result codes -/

namespace ResultCode

/-- Success. -/
def ok : Int32 := 0

/-- A failure with no code of its own. -/
def failure : Int32 := -1

/-- Parameters or fields that do not fit. -/
def badParameters : Int32 := -2

/-- The link is closed or not there. -/
def linkNotOpen : Int32 := -110

/-- The operation was called off. -/
def cancelled : Int32 := -120

/-- Time ran out, or a reply could not be read. -/
def timeout : Int32 := -121

end ResultCode

/-- The result code of an error. -/
def SessionError.code (error : SessionError) : Int32 :=
  match error with
  | .refused _ status => status
  | .noReply _ _ => ResultCode.timeout
  | .noEvent _ _ => ResultCode.timeout
  | .malformedReply _ _ => ResultCode.timeout
  | .frame (.paramsTooLarge _) => ResultCode.badParameters
  | .frame (.fieldTooLong _ _) => ResultCode.badParameters
  | .frame (.truncatedField _ _) => ResultCode.badParameters
  | error =>
      if error.isLinkClosed || error.isLinkUnavailable then ResultCode.linkNotOpen
      else ResultCode.failure

/-- The result code of a result. -/
def ResultCode.ofResult {α : Type} : Except SessionError α → Int32
  | .ok _ => ResultCode.ok
  | .error error => error.code

namespace SessionError

@[simp] theorem code_refused (command : UInt8) (status : Int32) :
    (refused command status).code = status := rfl

theorem code_ne_zero {error : SessionError} (h : error.status ≠ some 0) : error.code ≠ 0 := by
  unfold code
  split
  · simpa [status] using h
  · decide
  · decide
  · decide
  · decide
  · decide
  · decide
  · split <;> decide

end SessionError

end PeripheralHost
