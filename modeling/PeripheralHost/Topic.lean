import PeripheralHost.Command
import PeripheralHost.Frame.Basic

/-!
# Topics

Every frame that comes in is filed under exactly one of five topics. A
command code alone determines the topic a caller has in mind (`Topic.ofCommand`).
A frame is filed by its code only if it carries the reply marker
(`Topic.ofFrame`); anything else, such as the echo of a request, is general.

The two agree where it matters: a frame that answers a command is filed under
the topic on which the caller of that command waits (`ofFrame_eq_of_answers`).
-/

namespace PeripheralHost

/-- Where a frame is filed. -/
inductive Topic where
  /-- Key presses. -/
  | keyboard
  /-- Results of a card search. -/
  | cardSearch
  /-- Touches of the panel. -/
  | touch
  /-- State of the card slot. -/
  | cardSlot
  /-- Everything else. -/
  | general
  deriving DecidableEq, Repr, Inhabited

namespace Topic

/-- The topics, in the order in which they are listed. -/
def all : List Topic := [keyboard, cardSearch, touch, cardSlot, general]

/-- The topic of a command code. -/
def ofCommand (command : UInt8) : Topic :=
  if command = Command.keyPress then keyboard
  else if command = Command.cardSearch then cardSearch
  else if command = Command.touch then touch
  else if command = Command.cardSlot then cardSlot
  else general

/-- The topic under which a frame is filed. -/
def ofFrame (frame : Frame) : Topic :=
  if frame.isReply then ofCommand frame.command else general

/-- The name of a topic. -/
def name : Topic → String
  | keyboard => "keyboard-input"
  | cardSearch => "search-card-status"
  | touch => "touch-input"
  | cardSlot => "ic-status"
  | general => "generic"

theorem mem_all (topic : Topic) : topic ∈ all := by cases topic <;> decide

theorem ofFrame_eq_of_answers {frame : Frame} {command : UInt8} (h : frame.answers command = true) :
    ofFrame frame = ofCommand command := by
  simp only [Frame.answers, Bool.and_eq_true, decide_eq_true_eq] at h
  simp [ofFrame, h.1, h.2]

end Topic

end PeripheralHost
