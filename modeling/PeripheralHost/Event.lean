import PeripheralHost.Command
import PeripheralHost.Link.Loopback
import PeripheralHost.Session.Exchange

/-!
# Events for the log

Operations do not write a log. They answer what they did, and this module says
which of these facts are worth an entry, how grave it is, and how it reads.
The functions from facts to events keep the order in which things happened.

Commands are shown by name and code, octets as a dump, errors as sentences;
counts stay numbers. Entries that tell of no operation are left out: that a
thread or a port came up or went down, and how long an operation took.
-/

namespace PeripheralHost

/-- Something worth an entry in the log. -/
inductive Event where
  /-- A frame was written whole. -/
  | frameSent (link : String) (bytes : Bytes)
  /-- The link reported another count than the length of the frame. -/
  | shortWrite (link : String) (written expected : Nat) (bytes : Bytes)
  /-- A verified frame was taken in. -/
  | frameReceived (frame : Frame)
  /-- A started frame was refused. -/
  | frameRefused (link : String) (fault : FrameError)
  /-- The link in memory was closed. -/
  | lineClosed
  /-- A full mailbox gave up its oldest frame. -/
  | frameEvicted (topic : Topic) (command : UInt8) (capacity : Nat)
  /-- A frame ahead of a reply was dropped. -/
  | frameSkipped (topic : Topic) (wanted : UInt8) (dropped : Frame)
  /-- A frame was about to be filed. -/
  | frameFiled (topic : Topic) (command : UInt8)
  /-- Time ran out before the reply arrived. -/
  | replyOverdue (command : UInt8) (budget : Duration)
  /-- A poll failed. -/
  | pollFailed (link : String) (fault : FrameError)
  deriving DecidableEq, Repr

namespace Event

/-! ## How an event reads -/

/-- How grave an event is. -/
inductive Level where
  /-- Of interest to those who look closely. -/
  | debug
  /-- Something was lost, or did not happen. -/
  | warn
  deriving DecidableEq, Repr

/-- A detail of an event. -/
inductive Detail where
  /-- Shown as it is. -/
  | text (value : String)
  /-- A count. -/
  | count (value : Nat)
  deriving DecidableEq, Repr

/-- The level of an event. -/
def level : Event → Level
  | frameSent _ _ | frameReceived _ | lineClosed | frameSkipped _ _ _ | frameFiled _ _ => .debug
  | shortWrite _ _ _ _ | frameRefused _ _ | frameEvicted _ _ _ | replyOverdue _ _
  | pollFailed _ _ => .warn

/-- What happened, in words. -/
def message : Event → String
  | frameSent _ _ => "frame sent"
  | shortWrite _ _ _ _ => "short write"
  | frameReceived _ => "frame received"
  | frameRefused _ _ => "discarding malformed frame"
  | lineClosed => "loopback link closed"
  | frameEvicted _ _ _ => "queue full, dropping oldest frame"
  | frameSkipped _ _ _ => "discarding frame ahead of reply"
  | frameFiled _ _ => "frame routed"
  | replyOverdue _ _ => "reply timed out"
  | pollFailed _ _ => "receive failed"

/-- The details of an event, by name. -/
def details : Event → List (String × Detail)
  | frameSent link bytes => [("link", .text link), ("bytes", .text (Hex.dump bytes))]
  | shortWrite link written expected bytes =>
      [("link", .text link), ("written", .count written), ("expected", .count expected),
        ("bytes", .text (Hex.dump bytes))]
  | frameReceived frame =>
      [("command", .text (Command.label frame.command)), ("marker", .count frame.marker.toNat),
        ("body", .text (Hex.dump frame.body))]
  | frameRefused link fault => [("link", .text link), ("error", .text fault.message)]
  | lineClosed => []
  | frameEvicted topic command capacity =>
      [("category", .text topic.name), ("command", .text (Command.label command)),
        ("capacity", .count capacity)]
  | frameSkipped topic wanted dropped =>
      [("category", .text topic.name), ("wanted", .text (Command.label wanted)),
        ("dropped", .text (Command.label dropped.command)), ("marker", .count dropped.marker.toNat)]
  | frameFiled topic command =>
      [("category", .text topic.name), ("command", .text (Command.label command))]
  | replyOverdue command budget =>
      [("command", .text (Command.label command)),
        ("category", .text (Topic.ofCommand command).name),
        ("budget_ms", .count (budget.wholeMillis % 2 ^ 64))]
  | pollFailed link fault => [("link", .text link), ("error", .text fault.message)]

/-! ## Events of the operations -/

/-- Sending a frame: `sender` is the sender afterwards. -/
def ofSend (link : String) (sender : Sender) : Except FrameError Unit → List Event
  | .ok () => [frameSent link sender.buffer]
  | .error (.shortWrite written expected) => [shortWrite link written expected sender.buffer]
  | .error _ => []

/-- One outcome of a poll. -/
def ofOutcome (link : String) : Outcome → Event
  | .ok frame => frameReceived frame
  | .error fault => frameRefused link fault

/-- A poll: its outcomes in order, or nothing if it failed. -/
def ofPoll (link : String) : Except LinkError (List Outcome) → List Event
  | .ok outcomes => outcomes.map (ofOutcome link)
  | .error _ => []

/-- Filing into a mailbox of the given capacity. -/
def ofPush (topic : Topic) (capacity : Nat) (evicted : Option Frame) : List Event :=
  evicted.toList.map fun frame => frameEvicted topic frame.command capacity

/-- Filing a frame in the mailroom, which has the given capacity per mailbox. -/
def ofFiling (capacity : Nat) (frame : Frame) (filing : Filing) : List Event :=
  frameFiled filing.topic frame.command :: ofPush filing.topic capacity filing.evicted

/-- Looking for the reply to `wanted`. -/
def ofSkipped (topic : Topic) (wanted : UInt8) (skipped : List Frame) : List Event :=
  skipped.map (frameSkipped topic wanted)

/-- Closing a line in memory: `line` is the line before. -/
def ofClose (line : Loopback) : List Event := if line.closed then [] else [lineClosed]

/-- A visit of the receiver. That the link is closed is no failure to report. -/
def ofProgress (link : String) (capacity : Nat) : Session.Progress → List Event
  | .polled (.error .closed) => []
  | .polled (.error fault) => [pollFailed link (.link fault)]
  | .polled (.ok outcomes) => ofPoll link (.ok outcomes)
  | .filed frame filing => ofFiling capacity frame filing
  | .halted => []

/-- Waiting for the reply to `command`. -/
def ofWait {α : Type} (command : UInt8) (skipped : List Frame) :
    Except SessionError α → List Event
  | .error (.noReply _ budget) =>
      ofSkipped (Topic.ofCommand command) command skipped ++ [replyOverdue command budget]
  | _ => ofSkipped (Topic.ofCommand command) command skipped

end Event

end PeripheralHost
