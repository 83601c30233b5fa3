import PeripheralHost.Session.Basic

/-!
# Threads that share a session

A session is used by several threads at once: the receiver, and callers that
send requests or close the session. `Session.transmit` and `Session.close` say
what one caller does who is alone. Here the same acts are taken apart at the
places where another thread may get its turn in between, and a `Crew` is a
session together with the place at which each thread stands.

* The receiver looks whether the session was told to stop, polls the link,
  files the frames it took in one by one, and looks again.
* A caller who sends first looks whether the session was told to stop, and
  then lets the sender act on the link. The link may have been released since
  the look.
* A caller who closes tells the session to stop, claims the receiver, waits
  for the receiver to end if the claim succeeded, and releases the link. The
  receiver can be claimed once.

A turn of a thread that waits, or is done, is not possible (`Crew.turn`
answers nothing), and a run skips it. A row of turns is a schedule, so a
statement about every interleaving is a statement about every row.

## Main results

* `stopped_of_turn` — a session that was told to stop stays so.
* `run_keeps` — what every turn keeps, a schedule keeps.
* `run_sending` — a caller alone does what `Session.sendRequest` says.
-/

namespace PeripheralHost

/-- Where the receiver's thread stands. -/
inductive ReceiverPoint where
  /-- About to look whether the session was told to stop. -/
  | checking
  /-- Has seen that it was not, and is about to poll the link. -/
  | polling
  /-- Has polled, and files what it has in hand. -/
  | filing
  /-- Has ended. -/
  | exited
  deriving DecidableEq, Repr, Inhabited

/-- Where a caller's thread stands. -/
inductive CallerPoint where
  /-- About to look whether the session was told to stop, before a request. -/
  | asking (command : UInt8) (params : Bytes)
  /-- Has seen that it was not, and is about to send the request. -/
  | admitted (command : UInt8) (params : Bytes)
  /-- Has its answer to sending. -/
  | sent (answer : Except SessionError Unit)
  /-- About to tell the session to stop. -/
  | stopping
  /-- About to claim the receiver. -/
  | claiming
  /-- Waits for the receiver to end. -/
  | joining
  /-- About to release the link. -/
  | releasing
  /-- Has its answer to closing. -/
  | closed (answer : Except SessionError Unit)

/-- A session and the threads that share it. -/
structure Crew (σ : Type) where
  /-- The session. -/
  session : Session σ
  /-- The receiver. -/
  receiver : ReceiverPoint := .checking
  /-- Whether the receiver can still be claimed. -/
  unclaimed : Bool := true
  /-- The callers. -/
  callers : List CallerPoint

/-- A thread that gets its turn. -/
inductive Turn where
  /-- The receiver, at the given reading of the clock. -/
  | receiver (now : Duration)
  /-- The caller at the given place. -/
  | caller (index : Nat)
  deriving DecidableEq, Repr

namespace Crew

variable {σ : Type} [Link σ]

/-- A turn of the receiver. -/
def receiverTurn (now : Duration) (crew : Crew σ) : Option (Crew σ) :=
  match crew.receiver with
  | .checking =>
      some { crew with receiver := if crew.session.stopped then .exited else .polling }
  | .polling => some { crew with session := (crew.session.poll now).2, receiver := .filing }
  | .filing =>
      match crew.session.fileNext with
      | (some _, session) => some { crew with session }
      | (none, _) => some { crew with receiver := .checking }
  | .exited => none

/-- A turn of a caller that stands at `point`: where it stands then, and the
crew apart from that. -/
def callerTurn (point : CallerPoint) (crew : Crew σ) : Option (CallerPoint × Crew σ) :=
  match point with
  | .asking command params =>
      some (if crew.session.stopped then .sent (.error .closed) else .admitted command params, crew)
  | .admitted command params =>
      let (answer, session) := crew.session.transmitNow (Sender.sendRequest command params)
      some (.sent answer, { crew with session })
  | .stopping => some (.claiming, { crew with session := crew.session.stop })
  | .claiming =>
      if crew.unclaimed then some (.joining, { crew with unclaimed := false })
      else some (.releasing, crew)
  | .joining => if crew.receiver = .exited then some (.releasing, crew) else none
  | .releasing =>
      let (answer, session) := crew.session.release
      some (.closed answer, { crew with session })
  | .sent _ => none
  | .closed _ => none

/-- A turn of any thread; nothing if the thread waits, is done or is not
there. -/
def turn : Turn → Crew σ → Option (Crew σ)
  | .receiver now, crew => crew.receiverTurn now
  | .caller index, crew =>
      match crew.callers[index]? with
      | none => none
      | some point =>
          match crew.callerTurn point with
          | none => none
          | some (point, crew) => some { crew with callers := crew.callers.set index point }

/-- Follows a schedule; turns that are not possible are skipped. -/
def run : List Turn → Crew σ → Crew σ
  | [], crew => crew
  | turn :: turns, crew => run turns ((crew.turn turn).getD crew)

/-! ## What a turn keeps -/

theorem stopped_of_callerTurn {crew after : Crew σ} {point next : CallerPoint}
    (h : crew.callerTurn point = some (next, after)) (stopped : crew.session.stopped = true) :
    after.session.stopped = true := by
  have := @Session.stopped_transmitNow σ
  have := @Session.stopped_release σ
  unfold callerTurn Session.stop at h
  grind

theorem stopped_of_receiverTurn {crew next : Crew σ} {now : Duration}
    (h : crew.receiverTurn now = some next) :
    next.session.stopped = crew.session.stopped := by
  have := @Session.stopped_fileNext σ
  have := @Session.stopped_poll σ
  unfold receiverTurn at h
  grind

theorem stopped_of_turn {crew next : Crew σ} {turn : Turn} (h : crew.turn turn = some next)
    (stopped : crew.session.stopped = true) : next.session.stopped = true := by
  cases turn with
  | receiver now => rw [stopped_of_receiverTurn h]; exact stopped
  | caller index =>
      have := @stopped_of_callerTurn σ
      unfold Crew.turn at h
      grind

/-- What every turn keeps, a schedule keeps. -/
theorem run_keeps {holds : Crew σ → Prop}
    (hkeeps : ∀ {crew next turn}, holds crew → crew.turn turn = some next → holds next)
    {crew : Crew σ} (h : holds crew) (turns : List Turn) : holds (crew.run turns) := by
  induction turns generalizing crew with
  | nil => exact h
  | cons turn turns ih =>
      apply ih
      cases hturn : crew.turn turn with
      | none => exact h
      | some next => exact hkeeps h hturn

/-! ## One caller alone -/

theorem run_sending (session : Session σ) (command : UInt8) (params : Bytes)
    (receiver : ReceiverPoint) :
    (run [.caller 0, .caller 0]
        { session, receiver, callers := [.asking command params] } : Crew σ) =
      { session := (session.sendRequest command params).2
        receiver
        callers := [.sent (session.sendRequest command params).1] } := by
  cases h : session.stopped <;>
    simp [run, Crew.turn, callerTurn, Session.sendRequest, Session.transmit, h]

end Crew

end PeripheralHost
