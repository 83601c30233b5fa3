import PeripheralHost.Frame.Encode

/-!
# Assembling frames from octets

Octets arrive in pieces that have nothing to do with the boundaries of
frames. An `Assembler` takes them one at a time, in whatever pieces, and
answers a verified frame or a refusal whenever an octet settles the matter.
Between octets it stands at a `Stage`: hunting for a start mark, or somewhere
inside a frame that has started.

A start mark may be a lie. The octet that looks like one may lie inside the
body of a frame whose beginning was lost, and a corrupted length can make a
frame claim everything that follows it. So a refused frame costs its start
mark only: every octet after that mark is looked at again, ahead of whatever
input is left. The octets taken since the start mark need no buffer of their
own, because the stage determines them (`Stage.pending`).

`Stage.drive` is the whole loop. It ends although it may put octets back: a
refusal drops one octet, the start mark, from what is pending and to come,
and every other step takes an octet from the input without adding to that
total.

A frame whose length is corrupted upwards may wait for octets that never
come. `Assembler.abandon` gives such a frame up by hand, as refused, and
looks again at what it had swallowed.

## Main results

* `pending_advance` — an octet that settles nothing is appended to what is
  pending, except that a hunt drops it.
* `drive_outcomes` — what a drive has answered before does not influence what
  it answers next.
-/

namespace PeripheralHost

/-- What an octet may settle: a verified frame, or the reason a started frame
was refused. -/
abbrev Outcome := Except FrameError Frame

namespace Outcome

instance : DecidableEq Outcome
  | .ok left, .ok right => decidable_of_iff (left = right) (by simp)
  | .error left, .error right => decidable_of_iff (left = right) (by simp)
  | .ok _, .error _ => isFalse (by simp)
  | .error _, .ok _ => isFalse (by simp)

/-- The verified frames among outcomes, in order. -/
def frames (outcomes : List Outcome) : List Frame := outcomes.filterMap Except.toOption

/-- Whether an outcome is a refusal. -/
def isRefusal : Outcome → Bool
  | .ok _ => false
  | .error _ => true

/-- The number of refusals among outcomes. -/
def refusals (outcomes : List Outcome) : Nat := outcomes.countP isRefusal

@[simp] theorem frames_nil : frames [] = [] := rfl

@[simp] theorem frames_ok (frame : Frame) (outcomes : List Outcome) :
    frames (.ok frame :: outcomes) = frame :: frames outcomes := rfl

@[simp] theorem frames_error (fault : FrameError) (outcomes : List Outcome) :
    frames (.error fault :: outcomes) = frames outcomes := rfl

@[simp] theorem frames_append (earlier later : List Outcome) :
    frames (earlier ++ later) = frames earlier ++ frames later :=
  List.filterMap_append

@[simp] theorem frames_map_ok (taken : List Frame) : frames (taken.map .ok) = taken := by
  induction taken with
  | nil => rfl
  | cons frame taken ih => rw [List.map_cons, frames_ok, ih]

@[simp] theorem refusals_append (earlier later : List Outcome) :
    refusals (earlier ++ later) = refusals earlier + refusals later :=
  List.countP_append

end Outcome

/-- The four octets ahead of a body. -/
structure Header where
  /-- Command code of the frame. -/
  command : UInt8
  /-- Marker of the frame. -/
  marker : UInt8
  /-- Upper octet of the length of the body. -/
  high : UInt8
  /-- Lower octet of the length of the body. -/
  low : UInt8
  deriving DecidableEq, Repr, Inhabited

namespace Header

/-- The header as it stands on the line. -/
def bytes (header : Header) : Bytes := [header.command, header.marker, header.high, header.low]

/-- The length of the body that the header declares. -/
def bodyLength (header : Header) : Nat := Bytes.ofBigEndian [header.high, header.low]

end Header

/-! ## Stages -/

/-- Where an assembler stands between two octets. Bodies are held newest octet
first, so that each octet is taken in constant time. -/
inductive Stage where
  /-- Hunting for a start mark. -/
  | idle
  /-- Behind the start mark, with fewer than four octets of header. -/
  | header (taken : Bytes)
  /-- Behind the header, with `missing` octets of body to come. -/
  | body (header : Header) (taken : Bytes) (missing : Nat)
  /-- Behind the body: the end mark is due. -/
  | trailer (header : Header) (taken : Bytes)
  /-- Behind the end mark: the checksum is due. -/
  | checksum (header : Header) (taken : Bytes)
  deriving DecidableEq, Repr, Inhabited

namespace Stage

/-- The octets taken since the start mark, start mark included; nothing while
hunting. -/
def pending : Stage → Bytes
  | idle => []
  | header taken => Frame.startMark :: taken
  | body head taken _ => Frame.startMark :: head.bytes ++ taken.reverse
  | trailer head taken => Frame.startMark :: head.bytes ++ taken.reverse
  | checksum head taken => Frame.startMark :: head.bytes ++ taken.reverse ++ [Frame.endMark]

@[simp] theorem pending_idle : idle.pending = [] := rfl

/-- What one octet does to a stage. -/
inductive Verdict where
  /-- Nothing is settled. -/
  | advance (next : Stage)
  /-- The octet completes a verified frame. -/
  | accept (frame : Frame)
  /-- The octet shows that the started frame is none. -/
  | refuse (fault : FrameError)
  deriving DecidableEq, Repr

/-- The stage behind a complete header, for bodies of at most `limit` octets. -/
def afterHeader (limit : Nat) (head : Header) : Verdict :=
  if head.bodyLength > limit then .refuse (.bodyTooLarge head.bodyLength limit)
  else if head.bodyLength = 0 then .advance (trailer head [])
  else .advance (body head [] head.bodyLength)

/-- Takes one octet. -/
def step (limit : Nat) : Stage → UInt8 → Verdict
  | idle, b => if b = Frame.startMark then .advance (header []) else .advance idle
  | header [command, marker, high], b => afterHeader limit ⟨command, marker, high, b⟩
  | header taken, b => .advance (header (taken ++ [b]))
  | body head taken missing, b =>
      if missing ≤ 1 then .advance (trailer head (b :: taken))
      else .advance (body head (b :: taken) (missing - 1))
  | trailer head taken, b =>
      if b = Frame.endMark then .advance (checksum head taken) else .refuse (.badTrailer b)
  | checksum head taken, b =>
      let content := taken.reverse
      let expected := Bytes.checksum head.bytes ^^^ Bytes.checksum content
      if b = expected then .accept ⟨head.command, head.marker, content⟩
      else .refuse (.badChecksum expected b)

theorem pending_advance {limit : Nat} {stage next : Stage} {b : UInt8}
    (h : step limit stage b = .advance next) :
    next.pending = stage.pending ++ [b] ∨ (stage = idle ∧ next = idle ∧ b ≠ Frame.startMark) := by
  unfold step at h
  split at h
  · split at h
    · next hb => cases h; left; simp [pending, hb]
    · next hb => cases h; exact .inr ⟨rfl, rfl, hb⟩
  · unfold afterHeader at h
    split at h
    · simp at h
    · split at h <;> (cases h; left; simp [pending, Header.bytes])
  · cases h; left; simp [pending]
  · split at h <;> (cases h; left; simp [pending])
  · split at h
    · next hb => cases h; left; simp [pending, hb]
    · simp at h
  · simp only at h
    split at h <;> simp at h

theorem length_pending_advance {limit : Nat} {stage next : Stage} {b : UInt8}
    (h : step limit stage b = .advance next) :
    next.pending.length ≤ stage.pending.length + 1 := by
  rcases pending_advance h with h | ⟨-, rfl, -⟩
  · simp [h]
  · simp [pending]

theorem pending_ne_nil_of_refuse {limit : Nat} {stage : Stage} {b : UInt8} {fault : FrameError}
    (h : step limit stage b = .refuse fault) : 0 < stage.pending.length := by
  cases stage with
  | idle => simp only [step] at h; split at h <;> simp at h
  | _ => simp [pending]

/-! ## The loop -/

/-- Takes octets from the front of `input` until none are left, with what was
settled before in `settled`, newest first. Answers everything settled, oldest
first, and the stage reached. -/
def drive (limit : Nat) (stage : Stage) (input : Bytes) (settled : List Outcome) :
    List Outcome × Stage :=
  match input with
  | [] => (settled.reverse, stage)
  | b :: rest =>
      match _h : step limit stage b with
      | .advance next => drive limit next rest settled
      | .accept frame => drive limit idle rest (.ok frame :: settled)
      | .refuse fault =>
          drive limit idle (stage.pending.tail ++ b :: rest) (.error fault :: settled)
termination_by (stage.pending.length + input.length) * (stage.pending.length + input.length) +
  input.length
decreasing_by
  · have grown := length_pending_advance _h
    have total : next.pending.length + rest.length ≤
        stage.pending.length + (b :: rest).length := by simp only [List.length_cons]; omega
    have := Nat.mul_le_mul total total
    simp only [List.length_cons] at this ⊢
    omega
  · have total : idle.pending.length + rest.length ≤
        stage.pending.length + (b :: rest).length := by
      simp only [pending_idle, List.length_nil, List.length_cons]
      omega
    have := Nat.mul_le_mul total total
    simp only [List.length_cons] at this ⊢
    omega
  · have started := pending_ne_nil_of_refuse _h
    simp only [pending_idle, List.length_nil, List.length_append, List.length_tail,
      List.length_cons, Nat.zero_add]
    have total : stage.pending.length + (rest.length + 1) =
        (stage.pending.length - 1 + (rest.length + 1)) + 1 := by omega
    rw [total, Nat.mul_succ, Nat.succ_mul]
    omega

theorem drive_of_advance {limit : Nat} {stage next : Stage} {b : UInt8} (rest : Bytes)
    (settled : List Outcome) (h : step limit stage b = .advance next) :
    drive limit stage (b :: rest) settled = drive limit next rest settled := by
  rw [drive]
  split <;> rename_i h' <;> rw [h] at h' <;> cases h'
  rfl

theorem drive_of_accept {limit : Nat} {stage : Stage} {b : UInt8} {frame : Frame} (rest : Bytes)
    (settled : List Outcome) (h : step limit stage b = .accept frame) :
    drive limit stage (b :: rest) settled = drive limit idle rest (.ok frame :: settled) := by
  rw [drive]
  split <;> rename_i h' <;> rw [h] at h' <;> cases h'
  rfl

theorem drive_of_refuse {limit : Nat} {stage : Stage} {b : UInt8} {fault : FrameError}
    (rest : Bytes) (settled : List Outcome) (h : step limit stage b = .refuse fault) :
    drive limit stage (b :: rest) settled =
      drive limit idle (stage.pending.tail ++ b :: rest) (.error fault :: settled) := by
  rw [drive]
  split <;> rename_i h' <;> rw [h] at h' <;> cases h'
  rfl

theorem drive_outcomes (limit : Nat) (stage : Stage) (input : Bytes) (settled : List Outcome) :
    drive limit stage input settled =
      (settled.reverse ++ (drive limit stage input []).1, (drive limit stage input []).2) := by
  suffices general : ∀ seen : List Outcome, ∀ settled, drive limit stage input settled =
      (settled.reverse ++ (drive limit stage input []).1, (drive limit stage input []).2) from
    general [] settled
  intro seen
  fun_induction drive limit stage input seen with
  | case1 stage seen => intro settled; simp [drive]
  | case2 stage seen b rest next h ih =>
      intro settled
      rw [drive_of_advance rest settled h, drive_of_advance rest [] h]
      exact ih settled
  | case3 stage seen b rest frame h ih =>
      intro settled
      rw [drive_of_accept rest settled h, drive_of_accept rest [] h, ih, ih [.ok frame]]
      simp
  | case4 stage seen b rest fault h ih =>
      intro settled
      rw [drive_of_refuse rest settled h, drive_of_refuse rest [] h, ih, ih [.error fault]]
      simp

end Stage

/-! ## The assembler -/

/-- Assembles frames whose bodies have at most `limit` octets. -/
structure Assembler where
  /-- The longest body accepted. -/
  limit : Nat := Frame.maxBody
  /-- Where the assembler stands. -/
  stage : Stage := .idle
  deriving DecidableEq, Repr, Inhabited

namespace Assembler

/-- Whether no frame has started. -/
def isIdle (assembler : Assembler) : Bool := assembler.stage = .idle

/-- The octets of the started frame. -/
def pending (assembler : Assembler) : Bytes := assembler.stage.pending

/-- Takes a piece of input and answers all it settles, in order. -/
def feed (bytes : Bytes) : StateM Assembler (List Outcome) := fun assembler =>
  let (outcomes, stage) := assembler.stage.drive assembler.limit bytes []
  (outcomes, { assembler with stage })

/-- Takes pieces of input one after the other. -/
def feedAll (pieces : List Bytes) : StateM Assembler (List Outcome) := do
  return (← pieces.mapM feed).flatten

/-- Gives up the started frame and looks again at all octets behind its start
mark. Does nothing when no frame has started. -/
def abandon : StateM Assembler (List Outcome) := fun assembler =>
  match assembler.pending with
  | [] => ([], assembler)
  | _ :: swallowed =>
      let (outcomes, stage) := Stage.idle.drive assembler.limit swallowed []
      (.error (.incomplete (swallowed.length + 1)) :: outcomes, { assembler with stage })

/-- Forgets the started frame, without a second look at it. -/
def reset (assembler : Assembler) : Assembler := { assembler with stage := .idle }

end Assembler

end PeripheralHost
