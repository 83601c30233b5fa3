import PeripheralHost.Link.Loopback

/-!
# A link that misbehaves on cue

`Scripted` wraps a line in memory with a script of misbehaviour, so that a
session can be rehearsed against every fault a driver or a controller can
produce: availability reported wrongly, reads that return little, reads and
writes that fail at a chosen moment, writes whose count is misreported, a
line that is unplugged, and a controller that answers what it is sent.

The script is consulted before the line. A scripted failure of a read or a
write leaves the line untouched. A report of availability that is to be
falsified asks the line first: if the line fails, the false report waits for
the next question.
-/

namespace PeripheralHost

/-- A line in memory and the script for it. -/
structure Scripted where
  /-- The line itself. -/
  line : Loopback := {}
  /-- Counts to report in place of the true availability, one a question. -/
  reports : List Nat := []
  /-- The most octets one read returns, if there is a limit. -/
  readLimit : Option Nat := none
  /-- Fails the read that brings this count from one to zero; zero is no
  failure. -/
  readsToFailure : Nat := 0
  /-- Whether the next write fails. -/
  failWrite : Bool := false
  /-- A count the next write that does not fail claims to have accepted. -/
  writeClaim : Option Nat := none
  /-- Answers to inject, one for each write that does not fail. -/
  answers : List Bytes := []
  /-- Answers injected for every write of a frame with the given command. -/
  commandAnswers : List (UInt8 × Bytes) := []
  /-- Whether the line has been pulled out. -/
  unplugged : Bool := false
  deriving DecidableEq, Repr, Inhabited

namespace Scripted

/-! ## The host's end -/

/-- Runs an operation of the line inside the script. -/
private def onLine {α : Type} (script : Scripted) (operation : Loopback → LinkResult Loopback α) :
    LinkResult Scripted α :=
  let (answer, line) := operation script.line
  (answer, { script with line })

/-- The scripted report if there is one, else the true count. -/
def available (script : Scripted) : LinkResult Scripted Nat :=
  if script.unplugged then (.error .closed, script)
  else
    match script.onLine Loopback.available, script.reports with
    | (.error fault, script), _ => (.error fault, script)
    | (.ok count, script), [] => (.ok count, script)
    | (.ok _, script), report :: reports => (.ok report, { script with reports })

/-- How many octets a read that asks for `want` may return. -/
def readable (script : Scripted) (want : Nat) : Nat :=
  match script.readLimit with
  | some limit => min want limit
  | none => want

theorem readable_le (script : Scripted) (want : Nat) : script.readable want ≤ want := by
  unfold readable
  split
  · exact Nat.min_le_left _ _
  · exact Nat.le_refl _

/-- Reads from the line, unless this is the read that is to fail. -/
def read (want : Nat) (script : Scripted) : LinkResult Scripted Bytes :=
  if script.readsToFailure = 1 then
    (.error (.io "read failed"), { script with readsToFailure := 0 })
  else
    { script with readsToFailure := script.readsToFailure - 1 }.onLine
      (Loopback.read (script.readable want))

/-- What the controller injects on seeing a write of `bytes`: the next queued
answer, then every answer to the command in the second octet. -/
def responses (script : Scripted) (bytes : Bytes) : Bytes :=
  let toCommand := script.commandAnswers.filter fun answer => bytes[1]? = some answer.1
  script.answers.head?.getD [] ++ toCommand.flatMap (·.2)

/-- Writes to the line and injects the controller's answers, unless this is
the write that is to fail. -/
def write (bytes : Bytes) (script : Scripted) : LinkResult Scripted Nat :=
  if script.failWrite then
    (.error (.io "write failed"), { script with failWrite := false })
  else
    match script.onLine (Loopback.write bytes) with
    | (.error fault, script) => (.error fault, script)
    | (.ok count, script) =>
        (.ok (script.writeClaim.getD count),
          { script with
            line := script.line.inject (script.responses bytes)
            answers := script.answers.tail
            writeClaim := none })

/-- Closes the line. -/
def close (script : Scripted) : LinkResult Scripted Unit := script.onLine Loopback.close

instance : Link Scripted where
  name script := Link.name script.line
  isOpen script := !script.unplugged && Link.isOpen script.line
  available := available
  read := read
  write := write
  close := close
  length_read_le := by
    intro want script next got h
    unfold read at h
    split at h
    · simp at h
    · simp only [onLine, Prod.mk.injEq] at h
      have bound : ∀ {line : Loopback} {count : Nat},
          (Loopback.read count line).1 = .ok got → got.length ≤ count := fun {line count} hread =>
        Link.length_read_le (show Link.read count line = (.ok got, (Loopback.read count line).2) from
          Prod.ext hread rfl)
      exact Nat.le_trans (bound h.1) (script.readable_le want)

/-! ## The script -/

/-- Lets the peer act on the line. -/
def onPeer (script : Scripted) (act : Loopback → Loopback) : Scripted :=
  { script with line := act script.line }

/-- Takes everything the host has written. -/
def takeWritten (script : Scripted) : Bytes × Scripted :=
  let (bytes, line) := script.line.takeWritten
  (bytes, { script with line })

/-- Queues a false report of availability. -/
def reportNext (count : Nat) (script : Scripted) : Scripted :=
  { script with reports := script.reports ++ [count] }

/-- Queues an answer to a write. -/
def answerNext (bytes : Bytes) (script : Scripted) : Scripted :=
  { script with answers := script.answers ++ [bytes] }

/-- Adds a standing answer to a command. -/
def answerCommand (command : UInt8) (bytes : Bytes) (script : Scripted) : Scripted :=
  { script with commandAnswers := script.commandAnswers ++ [(command, bytes)] }

end Scripted

end PeripheralHost
