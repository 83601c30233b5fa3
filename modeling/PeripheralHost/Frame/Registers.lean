import PeripheralHost.Frame.Assembler

/-!
# An assembler in registers

A `Stage` has a constructor for each place at which an assembler may stand, and each
constructor holds just what is known there. Here the same is kept in registers of a fixed
layout: the phase, an array for the four octets of a header with a count of those that are in,
a buffer for the body with the length it is to reach, and a log of every octet since the start
mark. All of these are there in every phase, and only the steps keep them together.

Some of them outlive their use. The array for the header is never cleared: the octets of an
earlier header stay until those of the next overwrite them, one by one.

When a frame is refused, the log goes back in front of a queue of octets to be taken again,
and this queue goes ahead of the input. `Registers.Loop` is the loop with its queue, one octet
to a turn. A refusal makes the queue longer, so the queue and the input are no measure of what
is left to do. What the loop holds in all, the started frame with its start mark included,
never grows, and a refusal takes the start mark from it (`Loop.effort_turn`).

Registers and stages do the same, octet by octet: `PeripheralHost.Proofs.Lockstep`.

## Main results

* `Registers.Loop.effort_turn` — each turn lessens the effort that is left.
-/

namespace PeripheralHost

/-- What an assembler in registers waits for. -/
inductive Phase where
  /-- A start mark. -/
  | hunting
  /-- An octet of the header. -/
  | header
  /-- An octet of the body. -/
  | body
  /-- The end mark. -/
  | trailer
  /-- The checksum. -/
  | checksum
  deriving DecidableEq, Repr, Inhabited

/-- The header with one of its octets overwritten. There is none behind the fourth; that none is
ever written there is for the count to see to. -/
def Header.write (index : Nat) (b : UInt8) (header : Header) : Header :=
  match index with
  | 0 => { header with command := b }
  | 1 => { header with marker := b }
  | 2 => { header with high := b }
  | 3 => { header with low := b }
  | _ => header

/-- Assembles frames whose bodies have at most `limit` octets. -/
structure Registers where
  /-- The longest body accepted. -/
  limit : Nat := Frame.maxBody
  /-- What is waited for. -/
  phase : Phase := .hunting
  /-- The header, as far as it is in; behind that, what was there before. -/
  header : Header := ⟨0, 0, 0, 0⟩
  /-- How many octets of the header are in. -/
  headerLength : Nat := 0
  /-- The body, as far as it is in. -/
  body : Bytes := []
  /-- The length that the header declares. -/
  bodyLength : Nat := 0
  /-- Every octet since the start mark. -/
  log : Bytes := []
  deriving DecidableEq, Repr, Inhabited

namespace Registers

/-- Whether no frame has started. -/
def isIdle (registers : Registers) : Bool := registers.phase = .hunting

/-- The octets of the started frame, start mark included. -/
def pending (registers : Registers) : Bytes :=
  if registers.isIdle then [] else Frame.startMark :: registers.log

/-- Forgets the started frame. The header stays in its array. -/
def reset (registers : Registers) : Registers :=
  { registers with phase := .hunting, headerLength := 0, body := [], bodyLength := 0, log := [] }

/-- Takes an octet of the header. With the last, the length of the body is known. -/
def takeHeader (b : UInt8) (registers : Registers) :
    Except FrameError (Option Frame) × Registers :=
  let taken :=
    { registers with
      header := registers.header.write registers.headerLength b
      headerLength := registers.headerLength + 1 }
  if taken.headerLength < Frame.headerSize then (.ok none, taken)
  else
    let length := taken.header.bodyLength
    if length > taken.limit then (.error (.bodyTooLarge length taken.limit), taken)
    else
      let phase := if length = 0 then .trailer else .body
      (.ok none, { taken with phase, body := [], bodyLength := length })

/-- Takes an octet of the body. -/
def takeBody (b : UInt8) (registers : Registers) : Registers :=
  let taken := { registers with body := registers.body ++ [b] }
  if taken.body.length = taken.bodyLength then { taken with phase := .trailer } else taken

/-- Compares the checksum, and delivers the frame if it is right. -/
def takeChecksum (b : UInt8) (registers : Registers) :
    Except FrameError (Option Frame) × Registers :=
  let expected := Bytes.checksum registers.header.bytes ^^^ Bytes.checksum registers.body
  if b ≠ expected then (.error (.badChecksum expected b), registers)
  else
    (.ok (some ⟨registers.header.command, registers.header.marker, registers.body⟩),
      registers.reset)

/-- Takes one octet. A refusal leaves the registers as they are, for the log to be taken out of
them. -/
def step (b : UInt8) : StateM Registers (Except FrameError (Option Frame)) := fun registers =>
  let logged := { registers with log := registers.log ++ [b] }
  match registers.phase with
  | .hunting =>
      (.ok none,
        if b = Frame.startMark then { registers with phase := .header, log := [] } else registers)
  | .header => logged.takeHeader b
  | .body => (.ok none, logged.takeBody b)
  | .trailer =>
      if b ≠ Frame.endMark then (.error (.badTrailer b), logged)
      else (.ok none, { logged with phase := .checksum })
  | .checksum => logged.takeChecksum b

@[simp] theorem limit_reset (registers : Registers) : registers.reset.limit = registers.limit := rfl

@[simp] theorem pending_reset (registers : Registers) : registers.reset.pending = [] := rfl

theorem pending_of_busy {registers : Registers} (h : registers.isIdle = false) :
    registers.pending = Frame.startMark :: registers.log := by
  simp [pending, h]

theorem limit_step (b : UInt8) (registers : Registers) :
    (step b registers).2.limit = registers.limit := by
  unfold step takeHeader takeBody takeChecksum
  grind [limit_reset]

/-! ## The loop -/

/-- A loop that takes octets, between two turns. -/
structure Loop where
  /-- The registers. -/
  registers : Registers
  /-- The octets to be taken again, ahead of the input. -/
  again : Bytes := []
  /-- The octets of the input that are left. -/
  input : Bytes
  /-- What was settled, oldest first. -/
  settled : List Outcome := []
  deriving DecidableEq, Repr

namespace Loop

/-- Takes the next octet off the queue, or off the input if the queue is empty. -/
def next (loop : Loop) : Option (UInt8 × Loop) :=
  match loop.again, loop.input with
  | b :: again, _ => some (b, { loop with again })
  | [], b :: input => some (b, { loop with input })
  | [], [] => none

/-- One turn: takes the next octet. A refusal puts the log back in front of the queue. Nothing
when there is no octet left. -/
def turn (loop : Loop) : Option Loop :=
  match loop.next with
  | none => none
  | some (b, rest) =>
      match step b rest.registers with
      | (.ok none, registers) => some { rest with registers }
      | (.ok (some frame), registers) =>
          some { rest with registers, settled := rest.settled ++ [.ok frame] }
      | (.error fault, registers) =>
          some { rest with
            registers := registers.reset
            again := registers.log ++ rest.again
            settled := rest.settled ++ [.error fault] }

/-- The loop after some turns; it stands still when there is no octet left. -/
def after : Nat → Loop → Loop
  | 0, loop => loop
  | turns + 1, loop =>
      match loop.turn with
      | none => loop
      | some later => later.after turns

/-- The octets that are left to be taken. -/
def queued (loop : Loop) : Bytes := loop.again ++ loop.input

/-- How many octets the loop holds in all: those of the started frame, and those left. -/
def held (loop : Loop) : Nat := loop.registers.pending.length + loop.queued.length

/-- An upper bound of the turns that are left. -/
def effort (loop : Loop) : Nat := loop.held * loop.held + loop.queued.length

theorem queued_of_next {loop rest : Loop} {b : UInt8} (h : loop.next = some (b, rest)) :
    loop.queued = b :: rest.queued ∧ rest.registers = loop.registers ∧
      rest.settled = loop.settled := by
  unfold next at h
  split at h
  · next hagain =>
      cases h
      simp [queued, hagain]
  · next hagain hinput =>
      cases h
      simp [queued, hagain, hinput]
  · simp at h

theorem next_eq_none_iff {loop : Loop} : loop.next = none ↔ loop.queued = [] := by
  unfold next
  split <;> simp_all [queued]

theorem turn_eq_none_iff {loop : Loop} : loop.turn = none ↔ loop.queued = [] := by
  rw [← next_eq_none_iff]
  unfold turn
  split
  · next hnext => simp [hnext]
  · next hnext =>
      rw [hnext]
      split <;> simp

/-- What one turn can do. -/
theorem turn_cases {loop later : Loop} (h : loop.turn = some later) :
    ∃ (b : UInt8) (rest : Loop) (registers : Registers),
      loop.queued = b :: rest.queued ∧ rest.settled = loop.settled ∧
        ((step b loop.registers = (.ok none, registers) ∧ later = { rest with registers }) ∨
          (∃ frame, step b loop.registers = (.ok (some frame), registers) ∧
            later = { rest with registers, settled := rest.settled ++ [.ok frame] }) ∨
          (∃ fault, step b loop.registers = (.error fault, registers) ∧
            later = { rest with
              registers := registers.reset
              again := registers.log ++ rest.again
              settled := rest.settled ++ [.error fault] })) := by
  unfold turn at h
  split at h
  · simp at h
  next b rest hnext =>
  obtain ⟨hqueued, hregisters, hsettled⟩ := queued_of_next hnext
  rw [hregisters] at h
  split at h
  · next registers hstep =>
      exact ⟨b, rest, registers, hqueued, hsettled, .inl ⟨hstep, (Option.some.inj h).symm⟩⟩
  · next frame registers hstep =>
      exact ⟨b, rest, registers, hqueued, hsettled,
        .inr (.inl ⟨frame, hstep, (Option.some.inj h).symm⟩)⟩
  · next fault registers hstep =>
      exact ⟨b, rest, registers, hqueued, hsettled,
        .inr (.inr ⟨fault, hstep, (Option.some.inj h).symm⟩)⟩

end Loop

/-! ## The end of the loop -/

theorem length_pending_step (b : UInt8) (registers : Registers) :
    (step b registers).2.pending.length ≤ registers.pending.length + 1 := by
  unfold step takeHeader takeBody takeChecksum
  cases hphase : registers.phase <;> grind [pending, isIdle, reset]

/-- A refusal comes only when a frame has started, and with its last octet in the log. -/
theorem log_of_refuse {b : UInt8} {registers refused : Registers} {fault : FrameError}
    (h : step b registers = (.error fault, refused)) :
    registers.isIdle = false ∧ refused.log = registers.log ++ [b] := by
  unfold step takeHeader takeBody takeChecksum at h
  cases hphase : registers.phase <;> grind [isIdle]

namespace Loop

theorem effort_turn {loop later : Loop} (h : loop.turn = some later) :
    later.effort < loop.effort := by
  obtain ⟨b, rest, registers, hqueued, -, hcase⟩ := turn_cases h
  have hlength : loop.queued.length = rest.queued.length + 1 := by rw [hqueued, List.length_cons]
  -- What is held never grows. If it stays the same, there is an octet less to be taken.
  have hlater : later.held < loop.held ∨
      later.held ≤ loop.held ∧ later.queued.length < loop.queued.length := by
    have hpending := length_pending_step b loop.registers
    rcases hcase with ⟨hstep, rfl⟩ | ⟨frame, hstep, rfl⟩ | ⟨fault, hstep, rfl⟩
    · right
      simp only [hstep, held, queued] at hlength hpending ⊢
      omega
    · right
      simp only [hstep, held, queued] at hlength hpending ⊢
      omega
    · obtain ⟨hbusy, hlog⟩ := log_of_refuse hstep
      left
      simp only [held, queued, pending_reset, hlog, pending_of_busy hbusy, List.length_append,
        List.length_cons, List.length_nil] at hlength ⊢
      omega
  rcases hlater with hless | ⟨hheld, hqueue⟩
  · have hsquare := Nat.mul_le_mul hless hless
    have hqueue : later.queued.length ≤ later.held := Nat.le_add_left _ _
    simp only [effort, Nat.succ_mul, Nat.mul_succ] at hsquare ⊢
    omega
  · have hsquare := Nat.mul_le_mul hheld hheld
    simp only [effort]
    omega

/-- Takes turns until no octet is left. -/
def drive (loop : Loop) : Loop :=
  match _h : loop.turn with
  | none => loop
  | some later => drive later
termination_by loop.effort
decreasing_by exact effort_turn _h

/-- The loop ends, within as many turns as its effort says. -/
theorem exists_after (loop : Loop) :
    ∃ turns ≤ loop.effort, (loop.after turns).turn = none ∧ loop.after turns = loop.drive := by
  fun_induction drive loop with
  | case1 loop h => exact ⟨0, Nat.zero_le _, h, rfl⟩
  | case2 loop later h ih =>
      obtain ⟨turns, hturns, hended, hafter⟩ := ih
      have hlast : loop.after (turns + 1) = later.after turns := by rw [after, h]
      have heffort := effort_turn h
      exact ⟨turns + 1, by omega, by rw [hlast]; exact hended, by rw [hlast]; exact hafter⟩

end Loop

/-! ## Calls -/

/-- Takes a piece of input and answers all it settles, in order. -/
def feed (bytes : Bytes) : StateM Registers (List Outcome) := fun registers =>
  let driven := Loop.drive { registers, input := bytes }
  (driven.settled, driven.registers)

/-- Gives up the started frame and takes all octets behind its start mark again. Does nothing
when no frame has started. -/
def abandon : StateM Registers (List Outcome) := fun registers =>
  if registers.isIdle then ([], registers)
  else
    let driven := Loop.drive
      { registers := registers.reset
        again := registers.log
        input := []
        settled := [.error (.incomplete (registers.log.length + 1))] }
    (driven.settled, driven.registers)

end Registers

end PeripheralHost
