import PeripheralHost.Intake
import PeripheralHost.Mailroom
import PeripheralHost.Reply
import PeripheralHost.Sender
import PeripheralHost.Settings.Basic

/-!
# Sessions

A session joins the parts. Callers send requests through a `Sender` and take
frames out of a `Mailroom`; a receiver, which runs beside the callers, takes
frames in through an `Intake` and files them.

The receiver and the callers meet in two places, the link and the mailroom,
and whoever is there has the place to himself. Every definition of this module
is such a visit: it is done before anybody else gets a turn. What the receiver
does in one visit is `Session.advance`. It polls the link, and then files the
frames it took in one by one, a visit each; between the two kinds of visit the
frames are in the receiver's hand. When the hand is empty, a stopped receiver
polls no more. A receiver whose poll took in no frame rests before the next one.
How long it rests is left out: every visit has its own reading of the clock, and
what holds does so for any readings.

To close a session is to stop the receiver, let it finish what it has in hand,
and only then to release the link. A closed session sends nothing; what its
mailboxes hold can still be taken out.

## Main results

* `transmit_of_stopped` — a stopped session writes nothing and changes
  nothing.
* `advance_of_stopped` — a stopped receiver with an empty hand does nothing.
-/

namespace PeripheralHost

/-- A session over a link. -/
structure Session (σ : Type) where
  /-- The link. -/
  link : σ
  /-- What the session was told. -/
  settings : SessionSettings := {}
  /-- Sends frames for the callers. -/
  sender : Sender := {}
  /-- Takes frames in for the receiver. -/
  intake : Intake := .ofLimits settings.frame
  /-- Frames the receiver has taken in and not yet filed, oldest first. -/
  inHand : List Frame := []
  /-- The frames filed. -/
  mailroom : Mailroom := .ofCapacity settings.queueCapacity.toNat
  /-- Whether the session was told to stop. -/
  stopped : Bool := false
  deriving DecidableEq, Repr

namespace Session

variable {σ : Type}

/-- A session over a link that is open already. -/
def ofLink (link : σ) (settings : SessionSettings) : Session σ := { link, settings }

/-- A session over the port named in the settings. -/
def acquire (devices : String → Except String σ) (settings : SessionSettings) :
    Except SessionError (Session σ) :=
  match Link.acquire devices settings.serial.path with
  | .ok link => .ok (ofLink link settings)
  | .error fault => .error (.link fault)

/-- Whether the session runs and its link is open. -/
def isOpen [Link σ] (session : Session σ) : Bool := !session.stopped && Link.isOpen session.link

/-! ## Sending -/

/-- Lets the sender act on the link. -/
def transmitNow (act : Sender → σ → Except FrameError Unit × Sender × σ) (session : Session σ) :
    Except SessionError Unit × Session σ :=
  match act session.sender session.link with
  | (.ok (), sender, link) => (.ok (), { session with sender, link })
  | (.error fault, sender, link) => (.error (.frame fault), { session with sender, link })

/-- Lets the sender act, unless the session was told to stop. -/
def transmit (act : Sender → σ → Except FrameError Unit × Sender × σ) (session : Session σ) :
    Except SessionError Unit × Session σ :=
  if session.stopped then (.error .closed, session) else session.transmitNow act

/-- Sends a payload as it is, between marks. -/
def send [Link σ] (payload : Bytes) : Session σ → Except SessionError Unit × Session σ :=
  transmit (Sender.send payload)

/-- Sends a request for `command` and does not wait for its reply. -/
def sendRequest [Link σ] (command : UInt8) (params : Bytes) :
    Session σ → Except SessionError Unit × Session σ :=
  transmit (Sender.sendRequest command params)

/-! ## Receiving -/

/-- What a visit of the receiver did. -/
inductive Progress where
  /-- The link was polled. -/
  | polled (answer : Except LinkError (List Outcome))
  /-- A frame was filed. -/
  | filed (frame : Frame) (filing : Filing)
  /-- Nothing: the receiver has stopped. -/
  | halted

/-- Files the oldest frame in hand. -/
def fileNext (session : Session σ) : Option (Frame × Filing) × Session σ :=
  match session.inHand with
  | [] => (none, session)
  | frame :: inHand =>
      let (filing, mailroom) := session.mailroom.file frame
      (some (frame, filing), { session with inHand, mailroom })

/-- Polls the link; the frames taken in are in hand afterwards. -/
def poll [Link σ] (now : Duration) (session : Session σ) :
    Except LinkError (List Outcome) × Session σ :=
  let (answer, intake, link) := session.intake.poll now session.link
  let taken :=
    match answer with
    | .ok outcomes => Outcome.frames outcomes
    | .error _ => []
  (answer, { session with intake, link, inHand := session.inHand ++ taken })

/-- One visit of the receiver. -/
def advance [Link σ] (now : Duration) (session : Session σ) : Progress × Session σ :=
  match session.fileNext with
  | (some (frame, filing), session) => (.filed frame filing, session)
  | (none, session) =>
      if session.stopped then (.halted, session)
      else
        let (answer, session) := session.poll now
        (.polled answer, session)

/-! ## Taking frames out -/

/-- Runs an operation on the mailbox of a topic. -/
def onBox {α : Type} (topic : Topic) (operation : Mailbox → α × Mailbox) (session : Session σ) :
    α × Session σ :=
  let (answer, mailroom) := session.mailroom.onBox topic operation
  (answer, { session with mailroom })

/-- Takes out the oldest frame of a topic. -/
def popOldest (topic : Topic) : Session σ → Option Frame × Session σ :=
  onBox topic Mailbox.popOldest

/-- Takes out the newest frame of a topic and drops all others. -/
def takeLatest (topic : Topic) : Session σ → Option Frame × Session σ :=
  onBox topic Mailbox.takeLatest

/-- Drops the frames of a topic, so that a fresh exchange sees new ones only. -/
def clear (topic : Topic) (session : Session σ) : Session σ :=
  (session.onBox topic fun box => ((), box.clear)).2

/-- Takes out all frames of a topic, oldest first. -/
def drainAll (topic : Topic) : Session σ → List Frame × Session σ :=
  onBox topic Mailbox.drainAll

/-- The number of frames of a topic. -/
def queued (topic : Topic) (session : Session σ) : Nat := (session.mailroom.box topic).size

/-- Looks for the reply to `command` among the frames of its topic. -/
def look (command : UInt8) : Session σ → Mailbox.Search × Session σ :=
  onBox (Topic.ofCommand command) (Mailbox.search command)

/-! ## Closing -/

/-- Tells the session to stop. -/
def stop (session : Session σ) : Session σ := { session with stopped := true }

/-- Files every frame in hand. -/
def fileAll (session : Session σ) : Session σ :=
  { session with
    inHand := []
    mailroom := session.inHand.foldl (fun room frame => (room.file frame).2) session.mailroom }

/-- Releases the link if it is open. -/
def release [Link σ] (session : Session σ) : Except SessionError Unit × Session σ :=
  if Link.isOpen session.link then
    match Link.close session.link with
    | (.ok (), link) => (.ok (), { session with link })
    | (.error fault, link) => (.error (.link fault), { session with link })
  else (.ok (), session)

/-- Stops the receiver, which files what it has in hand, and then releases the
link. Closing again does no harm. -/
def close [Link σ] (session : Session σ) : Except SessionError Unit × Session σ :=
  session.stop.fileAll.release

/-! ## Laws of one visit -/

/-- A session stops only by being told to. -/
theorem stopped_transmitNow (act : Sender → σ → Except FrameError Unit × Sender × σ)
    (session : Session σ) : (session.transmitNow act).2.stopped = session.stopped := by
  unfold transmitNow
  split <;> rfl

theorem stopped_poll [Link σ] (now : Duration) (session : Session σ) :
    (session.poll now).2.stopped = session.stopped := rfl

theorem stopped_fileNext (session : Session σ) :
    session.fileNext.2.stopped = session.stopped := by
  unfold fileNext
  split <;> rfl

theorem stopped_release [Link σ] (session : Session σ) :
    session.release.2.stopped = session.stopped := by
  unfold release
  split
  · split <;> rfl
  · rfl

theorem transmit_of_stopped {session : Session σ}
    (act : Sender → σ → Except FrameError Unit × Sender × σ) (h : session.stopped = true) :
    session.transmit act = (.error .closed, session) := by
  simp [transmit, h]

theorem advance_of_stopped [Link σ] {session : Session σ} (now : Duration)
    (h : session.stopped = true) (empty : session.inHand = []) :
    session.advance now = (.halted, session) := by
  simp [advance, fileNext, h, empty]

end Session

end PeripheralHost
