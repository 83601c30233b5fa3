import PeripheralHost.Mailbox

/-!
# The mailroom

One mailbox for each topic, all of one capacity. A frame that comes in is
filed in exactly one of them, the one of its topic, and operations on
different mailboxes do not see each other (`box_onBox_ne`).
-/

namespace PeripheralHost

/-- One mailbox per topic. -/
structure Mailroom where
  /-- Key presses. -/
  keyboard : Mailbox
  /-- Results of a card search. -/
  cardSearch : Mailbox
  /-- Touches of the panel. -/
  touch : Mailbox
  /-- State of the card slot. -/
  cardSlot : Mailbox
  /-- Everything else. -/
  general : Mailbox
  deriving DecidableEq, Repr, Inhabited

/-- What filing a frame did. -/
structure Filing where
  /-- Where the frame was filed. -/
  topic : Topic
  /-- The frame given up to make room, if there was one. -/
  evicted : Option Frame
  deriving DecidableEq, Repr

namespace Mailroom

/-- Empty mailboxes, each of the given capacity; zero is no limit. -/
def ofCapacity (capacity : Nat) : Mailroom where
  keyboard := { topic := .keyboard, capacity }
  cardSearch := { topic := .cardSearch, capacity }
  touch := { topic := .touch, capacity }
  cardSlot := { topic := .cardSlot, capacity }
  general := { topic := .general, capacity }

/-- The mailbox of a topic. -/
def box (room : Mailroom) : Topic → Mailbox
  | .keyboard => room.keyboard
  | .cardSearch => room.cardSearch
  | .touch => room.touch
  | .cardSlot => room.cardSlot
  | .general => room.general

/-- Puts another mailbox in place of that of a topic. -/
def replace (room : Mailroom) (topic : Topic) (box : Mailbox) : Mailroom :=
  match topic with
  | .keyboard => { room with keyboard := box }
  | .cardSearch => { room with cardSearch := box }
  | .touch => { room with touch := box }
  | .cardSlot => { room with cardSlot := box }
  | .general => { room with general := box }

/-- Runs an operation on the mailbox of a topic. -/
def onBox {α : Type} (topic : Topic) (operation : Mailbox → α × Mailbox) (room : Mailroom) :
    α × Mailroom :=
  let (answer, box) := operation (room.box topic)
  (answer, room.replace topic box)

/-- Files a frame under its topic. -/
def file (frame : Frame) (room : Mailroom) : Filing × Mailroom :=
  let topic := Topic.ofFrame frame
  let (evicted, room) := room.onBox topic (Mailbox.push frame)
  (⟨topic, evicted⟩, room)

/-- The number of frames kept, topic by topic. -/
def sizes (room : Mailroom) : List Nat := Topic.all.map fun topic => (room.box topic).size

@[simp] theorem box_replace_self (room : Mailroom) (topic : Topic) (box : Mailbox) :
    (room.replace topic box).box topic = box := by
  cases topic <;> rfl

theorem box_replace_ne (room : Mailroom) {topic other : Topic} (box : Mailbox)
    (h : other ≠ topic) : (room.replace topic box).box other = room.box other := by
  cases topic <;> cases other <;> first | rfl | exact absurd rfl h

@[simp] theorem box_onBox_self {α : Type} (topic : Topic) (operation : Mailbox → α × Mailbox)
    (room : Mailroom) :
    (room.onBox topic operation).2.box topic = (operation (room.box topic)).2 :=
  room.box_replace_self topic _

theorem box_onBox_ne {α : Type} {topic other : Topic} (operation : Mailbox → α × Mailbox)
    (room : Mailroom) (h : other ≠ topic) :
    (room.onBox topic operation).2.box other = room.box other :=
  room.box_replace_ne _ h

@[simp] theorem box_file_self (frame : Frame) (room : Mailroom) :
    (room.file frame).2.box (Topic.ofFrame frame) =
      ((room.box (Topic.ofFrame frame)).push frame).2 :=
  room.box_onBox_self (Topic.ofFrame frame) (Mailbox.push frame)

theorem box_file_ne {frame : Frame} {topic : Topic} (room : Mailroom)
    (h : Topic.ofFrame frame ≠ topic) : (room.file frame).2.box topic = room.box topic :=
  room.box_onBox_ne (Mailbox.push frame) (Ne.symm h)

end Mailroom

end PeripheralHost
