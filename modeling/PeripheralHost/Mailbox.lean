import PeripheralHost.Duration
import PeripheralHost.Topic

/-!
# Mailboxes

A mailbox keeps the frames filed under one topic, oldest first. It may have a
capacity; a full mailbox makes room for a new frame by giving up its oldest.

Callers take frames out by age (`popOldest`, `takeLatest`) or look for the
reply to a command (`search`). A search goes from the oldest frame on. It
takes out every frame that is no such reply and stops behind the first that
is: a frame ahead of the reply is of no use to the caller, who may have only
one request under way per topic.

A caller may also wait. Between two looks a waiting caller sleeps, and while
it sleeps frames may be filed, or nothing may happen; when it looks in vain it
reads the clock, and gives up once the deadline is reached. A *wake-up* is one
such round: the reading of the clock after a look in vain, and the frames
filed before the next look. `awaitReply` and `awaitLatest` follow a row of
wake-ups.

## Main results

* `size_push_le` — a mailbox with a capacity never exceeds it.
* `search_append` — what a search skips, finds and leaves is the old content.
-/

namespace PeripheralHost

/-- The frames filed under one topic. -/
structure Mailbox where
  /-- The topic. -/
  topic : Topic
  /-- The most frames kept; zero is no limit. -/
  capacity : Nat := 0
  /-- The frames, oldest first. -/
  frames : List Frame := []
  deriving DecidableEq, Repr, Inhabited

namespace Mailbox

/-- The number of frames kept. -/
def size (box : Mailbox) : Nat := box.frames.length

/-- Whether no frame is kept. -/
def isEmpty (box : Mailbox) : Bool := box.frames.isEmpty

/-- Whether a new frame costs the oldest. -/
def isFull (box : Mailbox) : Bool := decide (0 < box.capacity ∧ box.capacity ≤ box.size)

/-- Files a frame and answers the one given up for it, if any. -/
def push (frame : Frame) (box : Mailbox) : Option Frame × Mailbox :=
  if box.isFull then
    (box.frames.head?, { box with frames := box.frames.tail ++ [frame] })
  else (none, { box with frames := box.frames ++ [frame] })

/-- Takes out the oldest frame. -/
def popOldest (box : Mailbox) : Option Frame × Mailbox :=
  (box.frames.head?, { box with frames := box.frames.tail })

/-- Takes out the newest frame and drops all others. -/
def takeLatest (box : Mailbox) : Option Frame × Mailbox :=
  (box.frames.getLast?, { box with frames := [] })

/-- Drops all frames. -/
def clear (box : Mailbox) : Mailbox := { box with frames := [] }

/-- Takes out all frames, oldest first. -/
def drainAll (box : Mailbox) : List Frame × Mailbox := (box.frames, box.clear)

/-! ## Searching -/

/-- What a search took out. -/
structure Search where
  /-- The frames ahead of the reply, oldest first. -/
  skipped : List Frame
  /-- The reply, if there was one. -/
  found : Option Frame
  deriving DecidableEq, Repr

/-- Takes out the first reply to `command` and every frame ahead of it; all
frames if there is no such reply. -/
def search (command : UInt8) (box : Mailbox) : Search × Mailbox :=
  let ahead := box.frames.takeWhile fun frame => !frame.answers command
  let rest := box.frames.dropWhile fun frame => !frame.answers command
  (⟨ahead, rest.head?⟩, { box with frames := rest.tail })

/-! ## Waiting -/

/-- A round of a wait. -/
structure Wakeup where
  /-- The clock after a look in vain. -/
  reading : Duration
  /-- The frames filed before the next look. -/
  arrived : List Frame
  deriving DecidableEq, Repr

/-- How a wait stands. -/
inductive Wait where
  /-- The frame waited for was taken out. -/
  | served (frame : Frame)
  /-- The deadline was reached. -/
  | expired
  /-- The caller is still asleep. -/
  | asleep
  deriving DecidableEq, Repr

/-- The frame of a wait that was served. -/
def Wait.frame : Wait → Option Frame
  | served frame => some frame
  | _ => none

/-- Files frames one after the other. -/
def pushAll (frames : List Frame) (box : Mailbox) : Mailbox :=
  frames.foldl (fun box frame => (box.push frame).2) box

/-- Waits for the reply to `command`. Answers how the wait stands behind the
last wake-up, the frames skipped on the way, and the mailbox. The deadline is
the budget of the caller added to the reading at which he began to wait; that
the clock can show this sum is up to him. -/
def awaitReply (command : UInt8) (deadline : Duration) :
    List Wakeup → Mailbox → Wait × List Frame × Mailbox
  | wakeups, box =>
      match box.search command with
      | (⟨skipped, some frame⟩, box) => (.served frame, skipped, box)
      | (⟨skipped, none⟩, box) =>
          match wakeups with
          | [] => (.asleep, skipped, box)
          | wakeup :: later =>
              if deadline ≤ wakeup.reading then (.expired, skipped, box)
              else
                let (wait, further, box) :=
                  awaitReply command deadline later (box.pushAll wakeup.arrived)
                (wait, skipped ++ further, box)

/-- Waits until there is a frame, then takes out the newest and drops all
others. -/
def awaitLatest (deadline : Duration) : List Wakeup → Mailbox → Wait × Mailbox
  | wakeups, box =>
      match box.takeLatest with
      | (some frame, box) => (.served frame, box)
      | (none, box) =>
          match wakeups with
          | [] => (.asleep, box)
          | wakeup :: later =>
              if deadline ≤ wakeup.reading then (.expired, box)
              else awaitLatest deadline later (box.pushAll wakeup.arrived)

/-- The wake-ups of a wait in which nothing is filed: the caller sleeps until
the deadline. -/
def undisturbed (deadline : Duration) : List Wakeup := [⟨deadline, []⟩]

/-! ## Laws of one operation -/

theorem size_push_le {box : Mailbox} (frame : Frame) (h : box.size ≤ box.capacity)
    (limited : 0 < box.capacity) : (box.push frame).2.size ≤ box.capacity := by
  unfold size at h
  unfold push isFull size
  split
  · simp only [List.length_append, List.length_tail, List.length_cons, List.length_nil]
    omega
  · next room =>
      simp only [decide_eq_true_eq, not_and, Nat.not_le] at room
      have := room limited
      simp only [List.length_append, List.length_cons, List.length_nil]
      omega

theorem popOldest_append (box : Mailbox) :
    box.popOldest.1.toList ++ box.popOldest.2.frames = box.frames := by
  cases h : box.frames <;> simp [popOldest, h]

theorem takeLatest_append (box : Mailbox) :
    box.frames.dropLast ++ box.takeLatest.1.toList = box.frames := by
  cases h : box.frames with
  | nil => simp [takeLatest, h]
  | cons frame rest =>
      simp [takeLatest, h, List.getLast?_eq_some_getLast, List.dropLast_concat_getLast]

theorem search_append (command : UInt8) (box : Mailbox) :
    (box.search command).1.skipped ++ (box.search command).1.found.toList ++
      (box.search command).2.frames = box.frames := by
  simp only [search]
  have whole := List.takeWhile_append_dropWhile
    (p := fun frame : Frame => !frame.answers command) (l := box.frames)
  generalize box.frames.dropWhile (fun frame => !frame.answers command) = rest at *
  cases rest with
  | nil => simpa using whole
  | cons frame rest => simpa using whole

theorem answers_of_search {command : UInt8} {box : Mailbox} {frame : Frame}
    (h : (box.search command).1.found = some frame) : frame.answers command = true := by
  have hhead : (box.frames.dropWhile fun frame => !frame.answers command).head? = some frame := h
  have hkept := List.head?_dropWhile_not (fun frame : Frame => !frame.answers command) box.frames
  rw [hhead] at hkept
  simpa using hkept

end Mailbox

end PeripheralHost
