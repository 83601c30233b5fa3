import PeripheralHost.Frame.Registers
import PeripheralHost.Proofs.Placement

/-!
# Registers keep in step with stages

An assembler in registers has seven of them, and most of what they could hold together makes no
sense. What a reachable one holds is a stage, spread over the registers (`Registers.Holds`): in
each of the five phases the log, the header with its count, and the body with its length are
bound to each other, and what is stale is not looked at. An octet takes the registers from one
stage to the next as it takes the assembler (`Registers.Holds.step`), so a loop over them
settles from any point on what the assembler would settle there (`Registers.Loop.Heads`).

From this the registers inherit all that is known of stages. The octets pending are a suffix of
what was fed, they are as many as the declared length allows, and they determine what comes
next: two assemblers in registers with the same octets pending answer every row of calls alike,
whatever else is left over in their registers.

## Main results

* `Registers.Holds.step` — one octet, in registers and at a stage.
* `Registers.Loop.Heads.turn` — a turn changes nothing in what will have been settled.
* `Registers.Mirrors.perform` — a row of calls, in registers and on an assembler.
* `Registers.determined_by_pending` — what a reachable state holds, and that no row of calls
  tells it from a new one that is fed its pending octets.
-/

namespace PeripheralHost

/-- An octet of a header at a stage, with the header in its array. -/
theorem Stage.step_header_of_room (limit : Nat) (header : Header) (b : UInt8) {index : Nat}
    (h : index < Frame.headerSize) :
    step limit (.header (header.bytes.take index)) b =
      if index + 1 < Frame.headerSize then
        .advance (.header ((header.write index b).bytes.take (index + 1)))
      else afterHeader limit (header.write index b) := by
  match index with
  | 0 | 1 | 2 | 3 => rfl
  | index + 4 => exact absurd h (Nat.not_lt.mpr (Nat.le_add_left _ _))

theorem Header.bytes_take_write (header : Header) (b : UInt8) {index : Nat}
    (h : index < Frame.headerSize) :
    (header.write index b).bytes.take (index + 1) = header.bytes.take index ++ [b] := by
  match index with
  | 0 | 1 | 2 | 3 => rfl
  | index + 4 => exact absurd h (Nat.not_lt.mpr (Nat.le_add_left _ _))

namespace Registers

/-! ## Stages in registers -/

/-- The header is whole, it declares the length of the body, and the length is accepted. -/
structure Declares (registers : Registers) : Prop where
  length_eq : registers.bodyLength = registers.header.bodyLength
  length_le : registers.bodyLength ≤ registers.limit

/-- The registers hold a stage. -/
inductive Holds (registers : Registers) : Stage → Prop where
  /-- The count of header octets is back at zero; the octets themselves may be stale. -/
  | hunting (phase : registers.phase = .hunting) (cleared : registers.headerLength = 0) :
      Holds registers .idle
  /-- The log is the part of the header that is in. -/
  | header (phase : registers.phase = .header)
      (room : registers.headerLength < Frame.headerSize)
      (log : registers.log = registers.header.bytes.take registers.headerLength) :
      Holds registers (.header registers.log)
  /-- The log is the header and the body, which is yet to reach its length. -/
  | body (phase : registers.phase = .body) (declares : registers.Declares)
      (room : registers.body.length < registers.bodyLength)
      (log : registers.log = registers.header.bytes ++ registers.body) :
      Holds registers (.body registers.header registers.body.reverse
        (registers.bodyLength - registers.body.length))
  /-- The log is the header and the whole body. -/
  | trailer (phase : registers.phase = .trailer) (declares : registers.Declares)
      (whole : registers.body.length = registers.bodyLength)
      (log : registers.log = registers.header.bytes ++ registers.body) :
      Holds registers (.trailer registers.header registers.body.reverse)
  /-- The log is the header, the whole body and the end mark. -/
  | checksum (phase : registers.phase = .checksum) (declares : registers.Declares)
      (whole : registers.body.length = registers.bodyLength)
      (log : registers.log = registers.header.bytes ++ registers.body ++ [Frame.endMark]) :
      Holds registers (.checksum registers.header registers.body.reverse)

variable {registers : Registers} {stage : Stage}

theorem holds_new (limit : Nat) : Holds { limit } .idle := .hunting rfl rfl

theorem holds_reset (registers : Registers) : registers.reset.Holds .idle := .hunting rfl rfl

theorem Holds.pending (h : registers.Holds stage) : registers.pending = stage.pending := by
  cases h with
  | hunting phase cleared => simp [Registers.pending, isIdle, phase]
  | header phase room log | body phase declares room log | trailer phase declares whole log
  | checksum phase declares whole log =>
      simp [Registers.pending, isIdle, phase, Stage.pending, log]

theorem Holds.isIdle_iff (h : registers.Holds stage) :
    registers.isIdle = true ↔ stage = .idle := by
  cases h with
  | hunting phase | header phase | body phase | trailer phase | checksum phase =>
      simp [isIdle, phase]

/-- An octet of a header that is waited for has a place in the array. -/
theorem Holds.headerLength_lt (h : registers.Holds stage) (hphase : registers.phase = .header) :
    registers.headerLength < Frame.headerSize := by
  cases h with
  | header phase room log => exact room
  | hunting phase | body phase | trailer phase | checksum phase =>
      rw [phase] at hphase
      cases hphase

/-- A started frame has its marks, its header and a body within the limit, and is not
complete. -/
theorem Holds.length_pending_le (h : registers.Holds stage) :
    registers.pending.length ≤ min registers.limit Frame.maxBody + 6 := by
  have hbody : registers.Declares → registers.bodyLength ≤ min registers.limit Frame.maxBody := by
    intro declares
    have hmax := registers.header.bodyLength_le
    rw [← declares.length_eq] at hmax
    exact Nat.le_min.mpr ⟨declares.length_le, hmax⟩
  rw [h.pending]
  cases h with
  | hunting phase cleared => simp
  | header phase room log =>
      simp only [Stage.pending, log, List.length_cons, List.length_take]
      simp only [Frame.headerSize] at room
      omega
  | body phase declares room log =>
      have := hbody declares
      simp only [Stage.pending, Header.bytes, List.length_cons, List.length_append,
        List.length_reverse, List.length_nil]
      omega
  | trailer phase declares whole log | checksum phase declares whole log =>
      have := hbody declares
      simp only [Stage.pending, Header.bytes, List.length_cons, List.length_append,
        List.length_reverse, List.length_nil]
      omega

/-! ## One octet -/

/-- What registers answer to an octet, and hold behind it, follows the verdict of a stage. -/
def Follows (taken : Except FrameError (Option Frame) × Registers) : Stage.Verdict → Prop
  | .advance next => taken.1 = .ok none ∧ taken.2.Holds next
  | .accept frame => taken.1 = .ok (some frame) ∧ taken.2.Holds .idle
  | .refuse fault => taken.1 = .error fault

namespace Follows

variable {verdict : Stage.Verdict}

theorem exists_advance (h : Follows (.ok none, registers) verdict) :
    ∃ next, verdict = .advance next ∧ registers.Holds next := by
  cases verdict with
  | advance next => exact ⟨next, rfl, h.2⟩
  | accept frame => cases h.1
  | refuse fault => cases h

theorem eq_accept {frame : Frame} (h : Follows (.ok (some frame), registers) verdict) :
    verdict = .accept frame ∧ registers.Holds .idle := by
  cases verdict with
  | advance next => cases h.1
  | accept frame =>
      cases h.1
      exact ⟨rfl, h.2⟩
  | refuse fault => cases h

theorem eq_refuse {fault : FrameError} (h : Follows (.error fault, registers) verdict) :
    verdict = .refuse fault := by
  cases verdict with
  | advance next => cases h.1
  | accept frame => cases h.1
  | refuse fault =>
      cases h
      rfl

end Follows

theorem takeHeader_of_more (b : UInt8) (hphase : registers.phase = .header)
    (hmore : registers.headerLength + 1 < Frame.headerSize)
    (hlog : registers.log =
      (registers.header.write registers.headerLength b).bytes.take (registers.headerLength + 1)) :
    Follows (registers.takeHeader b) (.advance (.header registers.log)) := by
  simp only [takeHeader, hmore, if_true]
  exact ⟨rfl, .header hphase hmore hlog⟩

/-- With the last octet of a header, the length it declares is judged as at a stage. -/
theorem takeHeader_of_last (b : UInt8) (hlast : registers.headerLength + 1 = Frame.headerSize)
    (hlog : registers.log = (registers.header.write registers.headerLength b).bytes) :
    Follows (registers.takeHeader b) (Stage.afterHeader registers.limit
      (registers.header.write registers.headerLength b)) := by
  simp only [takeHeader, Stage.afterHeader, hlast, Nat.lt_irrefl, if_false]
  generalize registers.header.write registers.headerLength b = whole at hlog ⊢
  by_cases hbig : whole.bodyLength > registers.limit
  · simp only [hbig, if_true]
    rfl
  have hlimit := Nat.not_lt.mp hbig
  by_cases hempty : whole.bodyLength = 0
  · simp only [hempty, if_true]
    exact ⟨rfl, .trailer rfl ⟨hempty.symm, Nat.zero_le _⟩ rfl (by simp [hlog])⟩
  · simp only [hbig, hempty, if_false]
    exact ⟨rfl, .body rfl ⟨rfl, hlimit⟩ (Nat.pos_of_ne_zero hempty) (by simp [hlog])⟩

/-- An octet in registers does what it does at the stage they hold. -/
theorem Holds.step (h : registers.Holds stage) (b : UInt8) :
    Follows (Registers.step b registers) (Stage.step registers.limit stage b) := by
  cases h with
  | hunting phase cleared =>
      by_cases hmark : b = Frame.startMark
      · simp only [Stage.step, Registers.step, phase, hmark, if_true]
        exact ⟨rfl, .header rfl (by rw [cleared]; decide) (by simp [cleared])⟩
      · simp only [Stage.step, Registers.step, phase, hmark, if_false]
        exact ⟨rfl, .hunting phase cleared⟩
  | header phase room log =>
      have hwrite := registers.header.bytes_take_write b room
      have hlogged : registers.log ++ [b] =
          (registers.header.write registers.headerLength b).bytes.take
            (registers.headerLength + 1) := by rw [hwrite, log]
      rw [log, Stage.step_header_of_room registers.limit registers.header b room]
      simp only [Registers.step, phase]
      by_cases hmore : registers.headerLength + 1 < Frame.headerSize
      · rw [if_pos hmore, ← hlogged]
        exact takeHeader_of_more b rfl hmore hlogged
      · have hlast : registers.headerLength + 1 = Frame.headerSize := by omega
        rw [if_neg hmore]
        exact takeHeader_of_last b hlast (by rw [hlogged, hlast]; rfl)
  | body phase declares room log =>
      have hlogged : registers.log ++ [b] = registers.header.bytes ++ (registers.body ++ [b]) := by
        rw [log, List.append_assoc]
      have hlength : (registers.body ++ [b]).length = registers.body.length + 1 := by simp
      have htaken : b :: registers.body.reverse = (registers.body ++ [b]).reverse := by simp
      simp only [Stage.step, Registers.step, phase, takeBody, hlength, htaken]
      by_cases hlast : registers.body.length + 1 = registers.bodyLength
      · rw [if_pos hlast, if_pos (by omega)]
        exact ⟨rfl, .trailer rfl ⟨declares.length_eq, declares.length_le⟩
          (hlength.trans hlast) hlogged⟩
      · rw [if_neg hlast, if_neg (by omega), Nat.sub_sub, ← hlength]
        exact ⟨rfl, .body rfl ⟨declares.length_eq, declares.length_le⟩ (by simp; omega) hlogged⟩
  | trailer phase declares whole log =>
      by_cases hmark : b = Frame.endMark
      · simp only [Stage.step, Registers.step, phase, hmark, ne_eq, not_true, if_true, if_false]
        exact ⟨rfl, .checksum rfl ⟨declares.length_eq, declares.length_le⟩ whole (by simp [log])⟩
      · simp only [Stage.step, Registers.step, phase, hmark, ne_eq, not_false_eq_true, if_true,
          if_false]
        rfl
  | checksum phase declares whole log =>
      simp only [Stage.step, Registers.step, phase, takeChecksum, List.reverse_reverse]
      by_cases hright : b = Bytes.checksum registers.header.bytes ^^^ Bytes.checksum registers.body
      · rw [if_pos hright, if_neg (not_not_intro hright)]
        exact ⟨rfl, holds_reset _⟩
      · rw [if_neg hright, if_pos hright]
        rfl

/-! ## The loop -/

namespace Loop

/-- From where it stands, the loop comes to these outcomes and to this stage. -/
def Heads (limit : Nat) (goal : List Outcome × Stage) (loop : Loop) : Prop :=
  ∃ stage, loop.registers.Holds stage ∧ loop.registers.limit = limit ∧
    stage.drive limit loop.queued loop.settled.reverse = goal

variable {limit : Nat} {goal : List Outcome × Stage} {loop : Loop}

/-- A turn changes nothing in what the loop comes to. -/
theorem Heads.turn (h : Heads limit goal loop) {later : Loop} (hturn : loop.turn = some later) :
    Heads limit goal later := by
  obtain ⟨stage, hholds, hlimit, hgoal⟩ := h
  obtain ⟨b, rest, registers, hqueued, hsettled, hcase⟩ := turn_cases hturn
  have hkept := limit_step b loop.registers
  have hfollows := hholds.step b
  rw [hlimit] at hkept hfollows
  rw [hqueued] at hgoal
  rcases hcase with ⟨hstep, rfl⟩ | ⟨frame, hstep, rfl⟩ | ⟨fault, hstep, rfl⟩
  · rw [hstep] at hkept hfollows
    obtain ⟨next, hverdict, hnext⟩ := hfollows.exists_advance
    rw [Stage.drive_of_advance _ _ hverdict, ← hsettled] at hgoal
    exact ⟨next, hnext, hkept, hgoal⟩
  · rw [hstep] at hkept hfollows
    obtain ⟨hverdict, hnext⟩ := hfollows.eq_accept
    rw [Stage.drive_of_accept _ _ hverdict, ← hsettled] at hgoal
    exact ⟨.idle, hnext, hkept, by simpa [queued] using hgoal⟩
  · obtain ⟨hbusy, hlog⟩ := log_of_refuse hstep
    rw [hstep] at hkept hfollows
    rw [Stage.drive_of_refuse _ _ hfollows.eq_refuse, ← hsettled, ← hholds.pending,
      pending_of_busy hbusy, List.tail_cons] at hgoal
    exact ⟨.idle, holds_reset _, hkept, by simpa [queued, hlog] using hgoal⟩

theorem Heads.after (h : Heads limit goal loop) (turns : Nat) :
    Heads limit goal (loop.after turns) := by
  induction turns generalizing loop with
  | zero => exact h
  | succ turns ih =>
      unfold Loop.after
      split
      · exact h
      · next later hturn => exact ih (h.turn hturn)

/-- Where the loop ends it has come to what it was heading for. -/
theorem Heads.ended (h : Heads limit goal loop) (hended : loop.turn = none) :
    loop.settled = goal.1 ∧ loop.registers.Holds goal.2 ∧ loop.registers.limit = limit := by
  obtain ⟨stage, hholds, hlimit, rfl⟩ := h
  rw [turn_eq_none_iff.mp hended, Stage.drive, List.reverse_reverse]
  exact ⟨rfl, hholds, hlimit⟩

theorem Heads.drive (h : Heads limit goal loop) :
    loop.drive.settled = goal.1 ∧ loop.drive.registers.Holds goal.2 ∧
      loop.drive.registers.limit = limit := by
  obtain ⟨turns, -, hended, hdrive⟩ := loop.exists_after
  rw [← hdrive]
  exact (h.after turns).ended hended

end Loop

/-! ## Calls -/

/-- Makes a call. -/
def call : Assembler.Call → Registers → List Outcome × Registers
  | .feed bytes, registers => Registers.feed bytes registers
  | .abandon, registers => Registers.abandon registers
  | .reset, registers => ([], registers.reset)

/-- Makes calls one after the other and joins what they settle. -/
def perform : List Assembler.Call → Registers → List Outcome × Registers
  | [], registers => ([], registers)
  | first :: calls, registers =>
      let settled := call first registers
      let later := perform calls settled.2
      (settled.1 ++ later.1, later.2)

/-- The registers hold what the assembler stands for. -/
structure Mirrors (registers : Registers) (assembler : Assembler) : Prop where
  limit : registers.limit = assembler.limit
  holds : registers.Holds assembler.stage

namespace Mirrors

variable {assembler : Assembler}

theorem pending (h : registers.Mirrors assembler) : registers.pending = assembler.pending :=
  h.holds.pending

theorem isIdle (h : registers.Mirrors assembler) : registers.isIdle = assembler.isIdle := by
  rw [Bool.eq_iff_iff, h.holds.isIdle_iff]
  simp [Assembler.isIdle]

theorem feed (h : registers.Mirrors assembler) (bytes : Bytes) :
    (Registers.feed bytes registers).1 = (Assembler.feed bytes assembler).1 ∧
      (Registers.feed bytes registers).2.Mirrors (Assembler.feed bytes assembler).2 := by
  have hheads : Loop.Heads assembler.limit (assembler.stage.drive assembler.limit bytes [])
      { registers, input := bytes } := ⟨assembler.stage, h.holds, h.limit, rfl⟩
  obtain ⟨hsettled, hholds, hlimit⟩ := hheads.drive
  exact ⟨hsettled, hlimit, hholds⟩

theorem abandon (h : registers.Mirrors assembler) :
    (Registers.abandon registers).1 = (Assembler.abandon assembler).1 ∧
      (Registers.abandon registers).2.Mirrors (Assembler.abandon assembler).2 := by
  by_cases hidle : registers.isIdle = true
  · have hnone : assembler.pending = [] := by rw [← h.pending]; simp [Registers.pending, hidle]
    simp only [Registers.abandon, Assembler.abandon, hidle, hnone, if_true, true_and]
    exact h
  · have hbusy : registers.isIdle = false := by simpa using hidle
    have hpending := h.pending
    rw [pending_of_busy hbusy] at hpending
    have hheads : Loop.Heads assembler.limit
        (Stage.idle.drive assembler.limit registers.log
          [.error (.incomplete (registers.log.length + 1))])
        { registers := registers.reset
          again := registers.log
          input := []
          settled := [.error (.incomplete (registers.log.length + 1))] } :=
      ⟨.idle, holds_reset _, h.limit, by simp [Loop.queued]⟩
    obtain ⟨hsettled, hholds, hlimit⟩ := hheads.drive
    rw [Stage.drive_outcomes] at hsettled hholds
    simp only [Registers.abandon, Assembler.abandon, hbusy, ← hpending, Bool.false_eq_true,
      if_false]
    exact ⟨hsettled, hlimit, hholds⟩

theorem call (h : registers.Mirrors assembler) (call : Assembler.Call) :
    (Registers.call call registers).1 = (Assembler.call call assembler).1 ∧
      (Registers.call call registers).2.Mirrors (Assembler.call call assembler).2 := by
  cases call with
  | feed bytes => exact h.feed bytes
  | abandon => exact h.abandon
  | reset => exact ⟨rfl, h.limit, holds_reset _⟩

/-- Registers answer a row of calls as the assembler does for which they stand. -/
theorem perform (h : registers.Mirrors assembler) (calls : List Assembler.Call) :
    (Registers.perform calls registers).1 = (Assembler.perform calls assembler).1 ∧
      (Registers.perform calls registers).2.Mirrors (Assembler.perform calls assembler).2 := by
  induction calls generalizing registers assembler with
  | nil => exact ⟨rfl, h⟩
  | cons first calls ih =>
      obtain ⟨hfirst, hnext⟩ := h.call first
      obtain ⟨hlater, hlast⟩ := ih hnext
      exact ⟨by rw [Registers.perform, Assembler.perform, hfirst, hlater], hlast⟩

end Mirrors

/-! ## What is pending determines what follows -/

/-- No row of calls tells the two apart: both settle the same outcomes, and stand idle at the
same time. -/
def Alike (left right : Registers) : Prop :=
  ∀ calls, (perform calls left).1 = (perform calls right).1 ∧
    (perform calls left).2.isIdle = (perform calls right).2.isIdle

theorem alike_of_mirrors {left right : Registers} {assembler : Assembler}
    (hleft : left.Mirrors assembler) (hright : right.Mirrors assembler) : left.Alike right := by
  intro calls
  obtain ⟨hsettled, hlast⟩ := hleft.perform calls
  obtain ⟨hsettled', hlast'⟩ := hright.perform calls
  exact ⟨hsettled.trans hsettled'.symm, hlast.isIdle.trans hlast'.isIdle.symm⟩

theorem mirrors_new (limit : Nat) : Mirrors { limit } { limit } := ⟨rfl, holds_new limit⟩

/-- New registers that are fed the pending octets settle nothing and stand for the same
assembler. -/
theorem Mirrors.renewed {assembler : Assembler} (h : registers.Mirrors assembler)
    (hresumable : assembler.Resumable) :
    (Registers.feed registers.pending { limit := assembler.limit }).1 = [] ∧
      (Registers.feed registers.pending { limit := assembler.limit }).2.Mirrors assembler := by
  have hfed : Assembler.feed assembler.pending { limit := assembler.limit } = ([], assembler) := by
    simp only [Assembler.feed]
    rw [show Stage.drive assembler.limit .idle assembler.pending [] = ([], assembler.stage) from
      hresumable]
  obtain ⟨hsettled, hlast⟩ := (mirrors_new assembler.limit).feed registers.pending
  rw [h.pending, hfed] at hsettled hlast
  rw [h.pending]
  exact ⟨hsettled, hlast⟩

/-- **What is pending determines what follows**: in registers, every row of calls settles what
it settles on an assembler. Whatever state it leads to, an octet of a header is only ever
written inside the array, now and at any turn of a loop that starts there. If a frame has
started, the start mark and the log are a suffix of all that was fed, no longer than the limit
allows and as long as an abandonment reports; and new registers that are fed just these octets
settle nothing, and no row of calls tells them apart from there on. If none has started, no row
of calls tells the state from a new one. -/
theorem determined_by_pending (limit : Nat) (calls : List Assembler.Call) :
    let registers := (perform calls { limit }).2
    let assembler := (Assembler.perform calls { limit }).2
    ((perform calls { limit }).1 = (Assembler.perform calls { limit }).1 ∧
        registers.isIdle = assembler.isIdle ∧ registers.pending = assembler.pending) ∧
      (∀ again input turns,
        let passed := (Loop.after turns { registers, again, input }).registers
        passed.phase = .header → passed.headerLength < Frame.headerSize) ∧
      (registers.isIdle = false →
        let pending := Frame.startMark :: registers.log
        let renewed := feed pending { limit }
        pending <:+ Assembler.octets calls ∧
          pending.length ≤ min limit Frame.maxBody + 6 ∧
          (abandon registers).1.head? = some (.error (.incomplete pending.length)) ∧
          renewed.1 = [] ∧ renewed.2.Alike registers) ∧
      (registers.isIdle = true → Alike { limit } registers) := by
  intro registers assembler
  obtain ⟨hsettled, hmirrors⟩ := (mirrors_new limit).perform calls
  have hlimit : assembler.limit = limit := Assembler.limit_perform calls { limit }
  have hresumable : assembler.Resumable := (Assembler.resumable_new limit).perform calls
  refine ⟨⟨hsettled, hmirrors.isIdle, hmirrors.pending⟩, ?_, ?_, ?_⟩
  · intro again input turns passed hphase
    have hheads : Loop.Heads limit _ { registers, again, input } :=
      ⟨assembler.stage, hmirrors.holds, hmirrors.limit.trans hlimit, rfl⟩
    obtain ⟨stage, hholds, -⟩ := hheads.after turns
    exact hholds.headerLength_lt hphase
  · intro hbusy pending renewed
    have hpending : registers.pending = pending := pending_of_busy hbusy
    have hassembler : assembler.pending = pending := by rw [← hmirrors.pending, hpending]
    obtain ⟨hnothing, hrenewed⟩ := hmirrors.renewed hresumable
    rw [hlimit, hpending] at hnothing hrenewed
    refine ⟨?_, ?_, ?_, hnothing, alike_of_mirrors hrenewed hmirrors⟩
    · obtain ⟨done, -, hstream, -⟩ :=
        Assembler.exists_perform_places (Assembler.resumable_new limit) calls []
      rw [← hassembler]
      exact ⟨done, hstream.symm⟩
    · have hlength := hmirrors.holds.length_pending_le
      rw [hpending, hmirrors.limit, hlimit] at hlength
      exact hlength
    · rw [hmirrors.abandon.1, (Prod.mk.inj (Assembler.abandon_of_pending hassembler)).1]
      rfl
  · intro hidle
    have hstage : assembler.stage = .idle := hmirrors.holds.isIdle_iff.mp hidle
    refine alike_of_mirrors (mirrors_new limit) ⟨hmirrors.limit.trans hlimit, ?_⟩
    rw [← hstage]
    exact hmirrors.holds

/-- A header is refused when its last octet is in, and another one begins within its octets.
The array holds the refused header still, behind the octets of the one that has begun. New
registers fed with those octets hold something else there, and all the same answer alike. -/
theorem renewed_beside_stale_header :
    let calls : List Assembler.Call := [.feed [0xFF, 0x02, 0x20, 0x02, 0x41, 0x4F]]
    let registers := (perform calls { limit := 16 }).2
    let renewed := (feed [0x02, 0x41, 0x4F] { limit := 16 }).2
    registers.isIdle = false ∧ registers.log = [0x41, 0x4F] ∧
      registers.header ≠ renewed.header ∧ renewed.Alike registers := by
  intro calls registers renewed
  have hbusy : registers.isIdle = false := by decide +kernel
  have hlog : registers.log = [0x41, 0x4F] := by decide +kernel
  obtain ⟨-, -, hpending, -⟩ := determined_by_pending 16 calls
  obtain ⟨-, -, -, -, halike⟩ := hpending hbusy
  rw [show Registers.log _ = _ from hlog] at halike
  exact ⟨hbusy, hlog, by decide +kernel, halike⟩

end Registers

end PeripheralHost
