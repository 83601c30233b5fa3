import PeripheralHost.Proofs.Accesses
import PeripheralHost.Proofs.Closing
import PeripheralHost.Proofs.Visits

/-!
# After closing

A session that was told to stop, with nothing in hand and a link that is not open, is shut for
good. Whoever wants to send is turned away before anybody looks at what is to be sent; whoever
closes again finds nothing to do; and the other end of the link may do what it likes, for nobody
listens. Threads that are still under way find nothing to do either, or are told so.

What is left are the frames filed before. They can be taken out as they could before, and it
makes no difference to those who take them out that others try to send, or that the other end
goes on talking.

All this hangs on nothing being in hand. A caller to whom closing was reported as a success has
a session that was told to stop and a link that is not open, but if another caller has claimed
the receiver and still waits for it, there may be frames in hand, and the receiver's next turn
files one. So closing is final exactly if nothing is in hand when success is reported
(`Crew.closed_for_good`), as is the case whenever nobody else is closing.

## Main results

* `Session.operate_of_shut` — an operation on a shut session takes frames out, if it does
  anything.
* `Crew.turn_of_shut` — a turn changes nothing but what the sender holds.
* `Crew.closed_for_good` — when a session that was closed stays so, and its frames can be
  taken out.
-/

namespace PeripheralHost

variable {σ : Type} [Link σ]

/-! ## Operations -/

theorem Mailroom.replace_box (room : Mailroom) (topic : Topic) :
    room.replace topic (room.box topic) = room := by
  cases topic <;> rfl

omit [Link σ] in
/-- The other end's part in what others do. -/
def Move.act? : Move σ → Option (σ → σ)
  | .receiver _ => none
  | .peer act => some act

/-- The link after the other end's acts. -/
def actAll (acts : List (σ → σ)) (link : σ) : σ := acts.foldl (fun link act => act link) link

omit [Link σ] in
theorem actAll_append (acts further : List (σ → σ)) (link : σ) :
    actAll (acts ++ further) link = actAll further (actAll acts link) :=
  List.foldl_append

namespace Session

/-- What a caller may want of a session, or what others do with it. -/
inductive Operation (σ : Type) where
  /-- Sends a payload as it is. -/
  | send (payload : Bytes)
  /-- Sends a request. -/
  | sendRequest (command : UInt8) (params : Bytes)
  /-- Sends a request and waits for its reply. -/
  | request (command : UInt8) (params : Bytes) (sent : List (Move σ)) (start budget : Duration)
      (rounds : List (Round σ))
  /-- Sends a request and waits for the result data of its reply. -/
  | call (command : UInt8) (params : Bytes) (sent : List (Move σ)) (start budget : Duration)
      (rounds : List (Round σ))
  /-- Takes out the oldest frame of a topic. -/
  | popOldest (topic : Topic)
  /-- Takes out the newest frame of a topic and drops all others. -/
  | takeLatest (topic : Topic)
  /-- Waits for the newest frame of a topic. -/
  | awaitLatest (topic : Topic) (start budget : Duration) (rounds : List (Round σ))
  /-- Drops the frames of a topic. -/
  | clear (topic : Topic)
  /-- Counts the frames of a topic. -/
  | queued (topic : Topic)
  /-- Closes the session. -/
  | close
  /-- Others move. -/
  | others (moves : List (Move σ))

/-- What an operation answers. -/
inductive Answer where
  /-- To sending. -/
  | sent (answer : Except SessionError Unit)
  /-- To a request. -/
  | replied (answer : Except SessionError Reply)
  /-- To a call. -/
  | called (answer : Except SessionError Bytes)
  /-- To taking a frame out. -/
  | taken (frame : Option Frame)
  /-- To waiting for a frame. -/
  | awaited (answer : Except SessionError Frame)
  /-- To counting. -/
  | counted (count : Nat)
  /-- To closing. -/
  | closed (answer : Except SessionError Unit)
  /-- To dropping frames, to what others do, and to a thread that gets its turn. -/
  | nothing

/-- What came of an operation, or of a turn. -/
structure Yield where
  /-- What was answered. -/
  answer : Answer
  /-- The frames filed meanwhile, in order. -/
  filed : List Frame := []

/-- Whether the answer tells of the frames filed. -/
def Answer.ofFrames : Answer → Bool
  | .taken _ | .awaited _ | .counted _ => true
  | _ => false

/-- Does an operation. -/
def operate : Operation σ → Session σ → Yield × Session σ
  | .send payload, session =>
      ({ answer := .sent (session.send payload).1 }, (session.send payload).2)
  | .sendRequest command params, session =>
      ({ answer := .sent (session.sendRequest command params).1 },
        (session.sendRequest command params).2)
  | .request command params sent start budget rounds, session =>
      let exchange := session.request command params sent start budget rounds
      ({ answer := .replied exchange.answer, filed := filedFrames exchange.progress },
        exchange.session)
  | .call command params sent start budget rounds, session =>
      let exchange := session.call command params sent start budget rounds
      ({ answer := .called exchange.answer, filed := filedFrames exchange.progress },
        exchange.session)
  | .popOldest topic, session =>
      ({ answer := .taken (session.popOldest topic).1 }, (session.popOldest topic).2)
  | .takeLatest topic, session =>
      ({ answer := .taken (session.takeLatest topic).1 }, (session.takeLatest topic).2)
  | .awaitLatest topic start budget rounds, session =>
      let exchange := session.awaitLatest topic start budget rounds
      ({ answer := .awaited exchange.answer, filed := filedFrames exchange.progress },
        exchange.session)
  | .clear topic, session => ({ answer := .nothing }, session.clear topic)
  | .queued topic, session => ({ answer := .counted (session.queued topic) }, session)
  | .close, session =>
      ({ answer := .closed session.close.1, filed := session.inHand }, session.close.2)
  | .others moves, session =>
      let moved := session.moveAll moves
      ({ answer := .nothing, filed := filedFrames moved.1 }, moved.2)

namespace Operation

/-- What the answer to an operation that sends would be, if the session were closed. -/
def refusal : Operation σ → Option Answer
  | .send _ | .sendRequest .. => some (.sent (.error .closed))
  | .request .. => some (.replied (.error .closed))
  | .call .. => some (.called (.error .closed))
  | _ => none

/-- What others may do during an operation. -/
def moves : Operation σ → List (Move σ)
  | .request _ _ sent _ _ rounds | .call _ _ sent _ _ rounds => sent ++ rounds.flatMap Round.moves
  | .awaitLatest _ _ _ rounds => rounds.flatMap Round.moves
  | .others moves => moves
  | _ => []

/-- What the other end of the link may do during an operation. -/
def acts (operation : Operation σ) : List (σ → σ) := operation.moves.filterMap Move.act?

/-- The operation without what others do, unless it sends. -/
def bare : Operation σ → Option (Operation σ)
  | .send _ | .sendRequest .. | .request .. | .call .. | .others _ => none
  | .awaitLatest topic start budget rounds =>
      some (.awaitLatest topic start budget (rounds.map fun round => { round with moves := [] }))
  | operation => some operation

/-- Nothing that the other end may do opens the link. -/
def KeepsShut (operation : Operation σ) : Prop :=
  ∀ act ∈ operation.acts, ∀ link, Link.isOpen link = false → Link.isOpen (act link) = false

end Operation

/-- From `session` to `next` frames were taken out, from the front of their mailboxes on, and
the other end of the link has done `acts`; nothing else has changed but what the sender holds. -/
structure Dwindles (acts : List (σ → σ)) (session next : Session σ) : Prop where
  rest : next = { session with
    sender := next.sender
    link := actAll acts session.link
    mailroom := next.mailroom }
  frames : ∀ topic, (next.mailroom.box topic).frames <:+ (session.mailroom.box topic).frames

variable {session next : Session σ}

omit [Link σ] in
theorem Dwindles.refl (session : Session σ) : Dwindles [] session session :=
  ⟨rfl, fun _ => List.suffix_rfl⟩

omit [Link σ] in
theorem Dwindles.trans {acts further : List (σ → σ)} {last : Session σ}
    (hfirst : Dwindles acts session next) (hsecond : Dwindles further next last) :
    Dwindles (acts ++ further) session last where
  rest := by
    rw [hsecond.rest, hfirst.rest, actAll_append]
  frames topic := (hsecond.frames topic).trans (hfirst.frames topic)

/-! ## Operations on a shut session -/

theorem Shut.of_dwindles {acts : List (σ → σ)} (h : session.Shut)
    (hdwindles : Dwindles acts session next)
    (hkeeps : ∀ act ∈ acts, ∀ link, Link.isOpen link = false → Link.isOpen (act link) = false) :
    next.Shut := by
  have hlink : Link.isOpen (actAll acts session.link) = false :=
    List.foldlRecOn (motive := fun link => Link.isOpen link = false) acts _ h.link
      fun link hlink act hact => hkeeps act hact link hlink
  rw [hdwindles.rest]
  exact ⟨h.stopped, h.inHand, hlink⟩

/-- A receiver that has stopped does nothing, so nothing is filed, and only the other end's acts
remain of what others do. -/
theorem moveAll_of_stopped (hstopped : session.stopped = true) (hinHand : session.inHand = [])
    (moves : List (Move σ)) :
    filedFrames (session.moveAll moves).1 = [] ∧
      (session.moveAll moves).2 =
        { session with link := actAll (moves.filterMap Move.act?) session.link } := by
  induction moves generalizing session with
  | nil => exact ⟨rfl, rfl⟩
  | cons move moves ih =>
      cases move with
      | receiver now =>
          rw [moveAll, advance_of_stopped now hstopped hinHand]
          exact ih hstopped hinHand
      | peer act =>
          have hlater := @ih { session with link := act session.link } hstopped hinHand
          rwa [moveAll]

theorem dwindles_moveAll (hstopped : session.stopped = true) (hinHand : session.inHand = [])
    (moves : List (Move σ)) :
    Dwindles (moves.filterMap Move.act?) session (session.moveAll moves).2 := by
  rw [(moveAll_of_stopped hstopped hinHand moves).2]
  exact ⟨rfl, fun _ => List.suffix_rfl⟩

omit [Link σ] in
/-- Taking frames out leaves the back of a mailbox. -/
theorem dwindles_leave {topic : Topic} {left : List Frame} (session : Session σ)
    (h : left <:+ (session.mailroom.box topic).frames) :
    Dwindles [] session (session.leave topic left) where
  rest := rfl
  frames other := by
    by_cases hsame : other = topic
    · subst hsame
      rwa [frames_leave_self]
    · exact box_leave_ne left session hsame ▸ List.suffix_rfl

omit [Link σ] in
theorem takeLatest_onLink (link : σ) (session : Session σ) (topic : Topic) :
    { session with link }.takeLatest topic =
      ((session.takeLatest topic).1, { (session.takeLatest topic).2 with link }) := rfl

omit [Link σ] in
/-- Who finds no frame to take out leaves everything as it is. -/
theorem takeLatest_of_none {topic : Topic} (h : session.takeLatest topic = (none, next)) :
    next = session := by
  obtain ⟨hfound, rfl⟩ := Prod.mk.inj h
  have hempty : (session.mailroom.box topic).frames = [] := List.getLast?_eq_none_iff.mp hfound
  have hbox : (session.mailroom.box topic).takeLatest.2 = session.mailroom.box topic := by
    rw [Mailbox.takeLatest, ← hempty]
  have hroom := session.mailroom.replace_box topic
  rw [← hbox] at hroom
  exact congrArg (fun mailroom => { session with mailroom }) hroom

/-- Nobody files anything in a shut session, so who waits for a frame gets the newest that is
there, or gets none. -/
theorem awaitLatest_of_stopped (hstopped : session.stopped = true) (hinHand : session.inHand = [])
    (topic : Topic) (start budget : Duration) (rounds : List (Round σ)) :
    let taken := session.takeLatest topic
    let wait := session.awaitLatest topic start budget rounds
    wait.answer = (match taken.1 with
      | some frame => .ok frame
      | none => .error (.noEvent topic budget)) ∧
    filedFrames wait.progress = [] ∧
    ∃ acts, acts.Sublist ((rounds.flatMap Round.moves).filterMap Move.act?) ∧
      wait.session = { taken.2 with link := actAll acts session.link } := by
  fun_induction awaitLatest topic start budget rounds session with
  | case1 rounds session found next htake =>
      obtain ⟨-, rfl⟩ := Prod.mk.inj htake
      rw [htake]
      exact ⟨rfl, rfl, [], List.nil_sublist _, rfl⟩
  | case2 session next htake =>
      obtain rfl := takeLatest_of_none htake
      rw [htake]
      exact ⟨rfl, rfl, [], List.nil_sublist _, rfl⟩
  | case3 session next htake round later hreading =>
      obtain rfl := takeLatest_of_none htake
      rw [htake]
      exact ⟨rfl, rfl, [], List.nil_sublist _, rfl⟩
  | case4 session next htake round later hreading progress others hmoved rest ih =>
      obtain rfl := takeLatest_of_none htake
      obtain ⟨hprogress, hothers⟩ := moveAll_of_stopped hstopped hinHand round.moves
      rw [hmoved] at hprogress hothers
      obtain rfl : others = _ := hothers
      obtain ⟨hanswer, hfiled, acts, hacts, hsession⟩ := ih hstopped hinHand
      -- what others did has put no frame into the mailbox
      have hstill := takeLatest_onLink (actAll (round.moves.filterMap Move.act?) next.link)
        next topic
      rw [htake] at hstill ⊢
      rw [hstill] at hanswer hsession
      refine ⟨hanswer, ?_, round.moves.filterMap Move.act? ++ acts, ?_, ?_⟩
      · exact (filedFrames_append progress rest.progress).trans (by rw [hprogress, hfiled]; rfl)
      · rw [List.flatMap_cons, List.filterMap_append]
        exact (List.Sublist.refl _).append hacts
      · rw [actAll_append]
        exact hsession

omit [Link σ] in
theorem Dwindles.onLink {acts : List (σ → σ)} {link : σ} (h : Dwindles [] session next)
    (hlink : link = actAll acts session.link) : Dwindles acts session { next with link } where
  rest := by
    rw [h.rest, hlink]
  frames := h.frames

theorem sendRequest_of_shut (h : session.Shut) (command : UInt8) (params : Bytes) :
    session.sendRequest command params = (.error .closed, session) :=
  transmit_of_stopped _ h.stopped

/-- A shut session turns away whoever wants to send. -/
theorem operate_of_refusal (h : session.Shut) {operation : Operation σ} {answer : Answer}
    (hrefusal : operation.refusal = some answer) :
    operate operation session = ({ answer }, session) := by
  have hsend := sendRequest_of_shut h
  cases operation with
  | send payload =>
      obtain rfl := Option.some.inj hrefusal
      rw [operate, send, transmit_of_stopped _ h.stopped]
  | sendRequest command params =>
      obtain rfl := Option.some.inj hrefusal
      rw [operate, hsend]
  | request command params sent start budget rounds =>
      obtain rfl := Option.some.inj hrefusal
      rw [operate, request_of_unsent sent start budget rounds (hsend command params)]
      rfl
  | call command params sent start budget rounds =>
      obtain rfl := Option.some.inj hrefusal
      rw [operate, call, request_of_unsent sent start budget rounds (hsend command params)]
      rfl
  | _ => simp [Operation.refusal] at hrefusal

theorem isOpen_of_shut (h : session.Shut) : session.isOpen = false := by
  simp [isOpen, h.stopped]

/-- Closing a shut session does nothing, successfully. -/
theorem close_of_shut (h : session.Shut) : session.close = (.ok (), session) := by
  obtain ⟨link, settings, sender, intake, inHand, mailroom, stopped⟩ := session
  obtain ⟨rfl, rfl, hlink⟩ := h
  simp [close, release, fileAll, stop, hlink]

theorem operate_close_of_shut (h : session.Shut) :
    operate .close session = ({ answer := .closed (.ok ()) }, session) := by
  simp only [operate, close_of_shut h, h.inHand]

/-- **An operation on a shut session** takes frames out, if it does anything, and nothing is
filed meanwhile. -/
theorem operate_of_shut (h : session.Shut) (operation : Operation σ) :
    (operate operation session).1.filed = [] ∧
      ∃ acts, acts.Sublist operation.acts ∧
        Dwindles acts session (operate operation session).2 := by
  cases operation with
  | send payload | sendRequest command params | request _ _ _ _ _ _ | call _ _ _ _ _ _ =>
      rw [operate_of_refusal h rfl]
      exact ⟨rfl, [], List.nil_sublist _, .refl session⟩
  | popOldest topic =>
      exact ⟨rfl, [], List.nil_sublist _, dwindles_leave session (List.tail_suffix _)⟩
  | takeLatest topic | clear topic =>
      exact ⟨rfl, [], List.nil_sublist _, dwindles_leave session List.nil_suffix⟩
  | awaitLatest topic start budget rounds =>
      obtain ⟨-, hfiled, acts, hacts, hsession⟩ :=
        awaitLatest_of_stopped h.stopped h.inHand topic start budget rounds
      refine ⟨hfiled, acts, hacts, ?_⟩
      rw [operate, hsession]
      exact (dwindles_leave session List.nil_suffix).onLink rfl
  | queued topic => exact ⟨rfl, [], List.nil_sublist _, .refl session⟩
  | close =>
      rw [operate_close_of_shut h]
      exact ⟨rfl, [], List.nil_sublist _, .refl session⟩
  | others moves =>
      exact ⟨(moveAll_of_stopped h.stopped h.inHand moves).1, _, List.Sublist.refl _,
        dwindles_moveAll h.stopped h.inHand moves⟩

/-! ## What others do makes no difference -/

variable {other : Session σ}

/-- Who sends, and what others do, takes no frame out. -/
theorem operate_of_not_bare (h : session.Shut) {operation : Operation σ}
    (hbare : operation.bare = none) :
    (operate operation session).1.answer.ofFrames = false ∧
      (operate operation session).2.mailroom = session.mailroom := by
  cases operation with
  | send payload | sendRequest command params | request _ _ _ _ _ _ | call _ _ _ _ _ _ =>
      rw [operate_of_refusal h rfl]
      exact ⟨rfl, rfl⟩
  | others moves =>
      rw [operate, (moveAll_of_stopped h.stopped h.inHand moves).2]
      exact ⟨rfl, rfl⟩
  | _ => simp [Operation.bare] at hbare

/-- The other operations see the mailboxes only. -/
theorem operate_of_bare (h : session.Shut) (hother : other.Shut)
    (hroom : session.mailroom = other.mailroom) {operation bare : Operation σ}
    (hbare : operation.bare = some bare) :
    (operate operation session).1.answer = (operate bare other).1.answer ∧
      (operate operation session).2.mailroom = (operate bare other).2.mailroom := by
  cases operation with
  | popOldest topic =>
      obtain rfl := Option.some.inj hbare
      simp only [operate, popOldest, onBox, hroom, and_self]
  | takeLatest topic =>
      obtain rfl := Option.some.inj hbare
      simp only [operate, takeLatest, onBox, hroom, and_self]
  | clear topic =>
      obtain rfl := Option.some.inj hbare
      simp only [operate, clear, onBox, hroom, and_self]
  | queued topic =>
      obtain rfl := Option.some.inj hbare
      simp only [operate, queued, hroom, and_self]
  | close =>
      obtain rfl := Option.some.inj hbare
      simp only [operate, close_of_shut h, close_of_shut hother, hroom, and_self]
  | awaitLatest topic start budget rounds =>
      obtain rfl := Option.some.inj hbare
      obtain ⟨hanswer, -, _, -, hnext⟩ :=
        awaitLatest_of_stopped h.stopped h.inHand topic start budget rounds
      obtain ⟨hanswer', -, _, -, hnext'⟩ :=
        awaitLatest_of_stopped hother.stopped hother.inHand topic start budget
          (rounds.map fun round => { round with moves := [] })
      simp only [operate, hanswer, hanswer', hnext, hnext', takeLatest, onBox, hroom, and_self]
  | _ => simp [Operation.bare] at hbare

omit [Link σ] in
theorem Operation.moves_of_bare {operation bare : Operation σ} (h : operation.bare = some bare) :
    bare.moves = [] := by
  cases operation with
  | awaitLatest topic start budget rounds =>
      obtain rfl := Option.some.inj h
      simp [Operation.moves]
  | popOldest _ | takeLatest _ | clear _ | queued _ | close =>
      obtain rfl := Option.some.inj h
      rfl
  | _ => simp [Operation.bare] at h

end Session

/-! ## A crew whose session is shut -/

namespace Crew

/-- What may happen in a crew: a thread gets its turn, or somebody does an operation. -/
inductive Step (σ : Type) where
  /-- A thread gets its turn. -/
  | turn (turn : Turn)
  /-- Somebody does an operation. -/
  | operation (operation : Session.Operation σ)

namespace Step

/-- What the other end of the link may do meanwhile. -/
def acts : Step σ → List (σ → σ)
  | .turn _ => []
  | .operation asked => asked.acts

/-- The operation that takes frames out, without what others do. -/
def bare : Step σ → Option (Session.Operation σ)
  | .turn _ => none
  | .operation asked => asked.bare

/-- Nothing that the other end may do meanwhile opens the link. -/
def KeepsShut : Step σ → Prop
  | .turn _ => True
  | .operation asked => asked.KeepsShut

end Step

omit [Link σ] in
/-- The frame that is filed if a thread gets its turn. -/
def filedBy (crew : Crew σ) : Turn → List Frame
  | .receiver _ =>
      match crew.receiver with
      | .filing => (crew.session.fileNext.1.map Prod.fst).toList
      | _ => []
  | .caller _ => []

/-- Makes a step. -/
def step : Step σ → Crew σ → Session.Yield × Crew σ
  | .turn turn, crew =>
      ({ answer := .nothing, filed := crew.filedBy turn }, (crew.turn turn).getD crew)
  | .operation operation, crew =>
      let (yield, session) := Session.operate operation crew.session
      (yield, { crew with session })

variable {crew : Crew σ}

/-- **A turn on a shut session** changes nothing but what the sender holds. -/
theorem turn_of_shut (hlink : Link.TellsClosed σ) (h : crew.session.Shut) (turn : Turn) :
    crew.filedBy turn = [] ∧
      ∃ sender, ((crew.turn turn).getD crew).session = { crew.session with sender } := by
  have hnone : crew.session.fileNext = (none, crew.session) := by
    simp [Session.fileNext, h.inHand]
  refine ⟨?_, ?_⟩
  · cases turn with
    | receiver now => cases hreceiver : crew.receiver <;> simp [filedBy, hreceiver, hnone]
    | caller index => rfl
  · cases hturn : crew.turn turn with
    | none => exact ⟨_, rfl⟩
    | some next =>
        rcases turn_cases hturn with ⟨now, hreceiver⟩ | ⟨place, point, moved, after, -, hmoves, rfl⟩
        · rcases session_of_receiverTurn hlink h.link hreceiver with hsession | ⟨-, hsession⟩
          · exact ⟨_, hsession⟩
          · exact ⟨_, hsession.trans (congrArg Prod.snd hnone)⟩
        · obtain ⟨sender, stopped, hsession⟩ := session_of_callerTurn h.link hmoves
          have hstopped := stopped_of_callerTurn hmoves h.stopped
          obtain rfl : stopped = crew.session.stopped := by
            rw [hsession] at hstopped
            exact hstopped.trans h.stopped.symm
          exact ⟨sender, hsession⟩

/-- A step on a shut session takes frames out, if it does anything, and leaves it shut. -/
theorem step_of_shut (hlink : Link.TellsClosed σ) (h : crew.session.Shut) {step : Step σ}
    (hkeeps : step.KeepsShut) :
    (crew.step step).1.filed = [] ∧ (crew.step step).2.session.Shut ∧
      ∃ acts, acts.Sublist step.acts ∧
        Session.Dwindles acts crew.session (crew.step step).2.session := by
  cases step with
  | turn turn =>
      obtain ⟨hfiled, sender, hsession⟩ := turn_of_shut hlink h turn
      refine ⟨hfiled, ?_, [], List.nil_sublist _, ?_⟩
      · show ((crew.turn turn).getD crew).session.Shut
        rw [hsession]
        exact ⟨h.stopped, h.inHand, h.link⟩
      · show Session.Dwindles [] crew.session ((crew.turn turn).getD crew).session
        rw [hsession]
        exact ⟨rfl, fun _ => List.suffix_rfl⟩
  | operation operation =>
      obtain ⟨hfiled, acts, hacts, hdwindles⟩ := Session.operate_of_shut h operation
      exact ⟨hfiled, h.of_dwindles hdwindles fun act hact => hkeeps act (hacts.subset hact),
        acts, hacts, hdwindles⟩

theorem inTurn_of_shut (hlink : Link.TellsClosed σ) (h : crew.session.Shut)
    (steps : List (Step σ)) (hkeeps : ∀ step ∈ steps, step.KeepsShut) :
    (∀ yield ∈ (inTurn step steps crew).1, yield.filed = []) ∧
      (inTurn step steps crew).2.session.Shut ∧
      ∃ acts, acts.Sublist (steps.flatMap Step.acts) ∧
        Session.Dwindles acts crew.session (inTurn step steps crew).2.session := by
  induction steps generalizing crew with
  | nil => exact ⟨by simp [inTurn], h, [], List.nil_sublist _, .refl crew.session⟩
  | cons first steps ih =>
      obtain ⟨hfiled, hnext, acts, hacts, hdwindles⟩ :=
        step_of_shut hlink h (hkeeps first List.mem_cons_self)
      obtain ⟨hunfiled, hshut, further, hfurther, hlater⟩ :=
        ih hnext fun later hlater => hkeeps later (List.mem_cons_of_mem _ hlater)
      exact ⟨List.forall_mem_cons.mpr ⟨hfiled, hunfiled⟩, hshut, acts ++ further,
        hacts.append hfurther, hdwindles.trans hlater⟩

/-- Turns, and what takes no frame out, are not answered with frames. -/
theorem step_of_not_bare (hlink : Link.TellsClosed σ) (h : crew.session.Shut) {step : Step σ}
    (hbare : step.bare = none) :
    (crew.step step).1.answer.ofFrames = false ∧
      (crew.step step).2.session.mailroom = crew.session.mailroom := by
  cases step with
  | turn turn =>
      obtain ⟨-, sender, hsession⟩ := turn_of_shut hlink h turn
      exact ⟨rfl, (congrArg Session.mailroom hsession :)⟩
  | operation operation => exact Session.operate_of_not_bare h hbare

/-- **What others do makes no difference** to those who take frames out. -/
theorem inTurn_bare (hlink : Link.TellsClosed σ) (h : crew.session.Shut) {other : Session σ}
    (hother : other.Shut) (hroom : crew.session.mailroom = other.mailroom)
    (steps : List (Step σ)) (hkeeps : ∀ step ∈ steps, step.KeepsShut) :
    let run := inTurn step steps crew
    let alone := inTurn Session.operate (steps.filterMap Step.bare) other
    (run.1.map Session.Yield.answer).filter Session.Answer.ofFrames =
        (alone.1.map Session.Yield.answer).filter Session.Answer.ofFrames ∧
      run.2.session.mailroom = alone.2.mailroom := by
  induction steps generalizing crew other with
  | nil => exact ⟨rfl, hroom⟩
  | cons first steps ih =>
      have hlater := fun later hmem => hkeeps later (List.mem_cons_of_mem first hmem)
      obtain ⟨-, hnext, -⟩ := step_of_shut hlink h (hkeeps first List.mem_cons_self)
      cases hbare : first.bare with
      | none =>
          obtain ⟨hsilent, hsame⟩ := step_of_not_bare hlink h hbare
          obtain ⟨hanswers, hend⟩ := ih hnext hother (hsame.trans hroom) hlater
          simp only [inTurn, List.filterMap_cons_none hbare, List.map_cons, List.filter_cons,
            hsilent, Bool.false_eq_true, if_false]
          exact ⟨hanswers, hend⟩
      | some bare =>
          cases first with
          | turn turn => simp [Step.bare] at hbare
          | operation operation =>
              obtain ⟨hanswer, hrooms⟩ := Session.operate_of_bare h hother hroom hbare
              obtain ⟨-, acts, hacts, hdwindles⟩ := Session.operate_of_shut hother bare
              have hnext' : (Session.operate bare other).2.Shut := by
                refine hother.of_dwindles hdwindles fun act hact => ?_
                have hmoves := Session.Operation.moves_of_bare hbare
                simpa [Session.Operation.acts, hmoves] using hacts.subset hact
              obtain ⟨hanswers, hend⟩ := ih hnext hnext' hrooms hlater
              simp only [inTurn, List.filterMap_cons_some hbare, List.map_cons, List.filter_cons]
              exact ⟨by rw [← hanswers, ← hanswer]; rfl, hend⟩

/-! ## Closed for good -/

/-- What a crew whose session was closed is left with after `steps`. -/
structure StaysClosed (closed : Crew σ) (steps : List (Step σ)) : Prop where
  /-- The session is not open. -/
  isOpen : (inTurn step steps closed).2.session.isOpen = false
  /-- Whoever wants to send is told that the session is closed, whatever he wants to send, and
  the session is left exactly as it was. -/
  refuses : ∀ operation answer, operation.refusal = some answer →
    Session.operate operation (inTurn step steps closed).2.session =
      ({ answer }, (inTurn step steps closed).2.session)
  /-- So it is by closing it again, which is a success. -/
  closes : Session.operate .close (inTurn step steps closed).2.session =
    ({ answer := .closed (.ok ()) }, (inTurn step steps closed).2.session)
  /-- Any operation takes frames out of the front of mailboxes, if it does anything, and the link
  is as the other end's own acts make it. -/
  takesOut : ∀ operation : Session.Operation σ, ∃ acts, acts.Sublist operation.acts ∧
    Session.Dwindles acts (inTurn step steps closed).2.session
      (Session.operate operation (inTurn step steps closed).2.session).2
  /-- So it has been since the session was closed: nobody has written to the link. -/
  dwindles : ∃ acts, acts.Sublist (steps.flatMap Step.acts) ∧
    Session.Dwindles acts closed.session (inTurn step steps closed).2.session
  /-- No frame was filed. -/
  filed : ∀ yield ∈ (inTurn step steps closed).1, yield.filed = []
  /-- Whoever took frames out was answered as if nobody had tried to send, no thread had got its
  turn and nobody else had moved. -/
  answers :
    ((inTurn step steps closed).1.map Session.Yield.answer).filter Session.Answer.ofFrames =
      ((inTurn Session.operate (steps.filterMap Step.bare) closed.session).1.map
        Session.Yield.answer).filter Session.Answer.ofFrames
  /-- And so the mailboxes are left. -/
  mailroom : (inTurn step steps closed).2.session.mailroom =
    (inTurn Session.operate (steps.filterMap Step.bare) closed.session).2.mailroom

/-- The crew's session stays closed, whatever happens from here on. -/
def ClosedForGood (closed : Crew σ) : Prop :=
  ∀ steps, (∀ step ∈ steps, step.KeepsShut) → closed.StaysClosed steps

theorem closedForGood_of_shut (hlink : Link.TellsClosed σ) (h : crew.session.Shut) :
    crew.ClosedForGood := by
  intro steps hkeeps
  obtain ⟨hfiled, hreached, hdwindles⟩ := inTurn_of_shut hlink h steps hkeeps
  obtain ⟨hanswers, hroom⟩ := inTurn_bare hlink h h rfl steps hkeeps
  exact {
    isOpen := Session.isOpen_of_shut hreached
    refuses := fun operation answer hrefusal => Session.operate_of_refusal hreached hrefusal
    closes := Session.operate_close_of_shut hreached
    takesOut := fun operation => (Session.operate_of_shut hreached operation).2
    dwindles := hdwindles
    filed := hfiled
    answers := hanswers
    mailroom := hroom }

/-- If anything is in hand, the receiver's next turn files it. -/
theorem ClosedForGood.inHand_eq_nil (h : crew.ClosedForGood)
    (hinHand : crew.receiver ≠ .filing → crew.session.inHand = []) :
    crew.session.inHand = [] := by
  by_cases hfiling : crew.receiver = .filing
  · have hfiled := (h [.turn (.receiver .zero)] (by simp [Step.KeepsShut])).filed
    cases hhand : crew.session.inHand with
    | nil => rfl
    | cons frame later => simp [inTurn, step, filedBy, hfiling, Session.fileNext, hhand] at hfiled
  · exact hinHand hfiling

/-- **When a session that was closed stays so.** In whatever state some callers find a session,
and whatever turns the threads get: once one of them was told that closing it was a success, it
stays closed exactly if the receiver has nothing in hand at that time. So it is if nobody else
was closing. -/
theorem closed_for_good (hlink : Link.TellsClosed σ) (hsound : crew.Sound) (turns : List Turn)
    {index : Nat} (hclosed : (run turns crew).point index = some (.closed (.ok ()))) :
    ((run turns crew).ClosedForGood ↔ (run turns crew).session.inHand = []) ∧
      (crew.ClosesAlone index → (run turns crew).session.inHand = []) := by
  have hreached := hsound.run hlink turns
  refine ⟨⟨fun hgood => hgood.inHand_eq_nil hreached.inHand, fun hinHand => ?_⟩, fun halone => ?_⟩
  · exact closedForGood_of_shut hlink (hreached.shut hclosed hinHand)
  · exact hsound.inHand_of_closesAlone hlink halone turns hclosed

/-- A session is closed with a frame in hand, while somebody is about to send. Then somebody
else tries to send, and the other end of the link goes on talking. The frame is there to be
taken out, and parameters too long for any frame are refused as any others would be. -/
theorem closed_with_frame_in_hand :
    let frame : Frame := ⟨0x30, Frame.replyMarker, [1]⟩
    let crew : Crew Loopback :=
      { session := { link := {}, inHand := [frame] }
        receiver := .filing
        callers := [.stopping, .admitted 0x20 []] }
    let turns : List Turn :=
      [.caller 0, .caller 0, .receiver (.ofMillis 0), .receiver (.ofMillis 0),
        .receiver (.ofMillis 0), .caller 0, .caller 0]
    let closed := crew.run turns
    let steps : List (Step Loopback) :=
      [.operation (.sendRequest 0x20 []), .turn (.caller 1),
        .operation (.others [.peer (Loopback.inject [2]), .receiver (.ofMillis 1)])]
    let later := (inTurn step steps closed).2.session
    crew.Sound ∧ closed.point 0 = some (.closed (.ok ())) ∧ crew.ClosesAlone 0 ∧
      closed.ClosedForGood ∧ (∀ step ∈ steps, step.KeepsShut) ∧ later.isOpen = false ∧
      (later.mailroom.box .general).frames = [frame] ∧
      Session.operate (.sendRequest 0x20 (List.replicate (Frame.maxBody + 1) 0)) later =
        ({ answer := .sent (.error .closed) }, later) := by
  intro frame crew turns closed steps later
  have hsound : crew.Sound :=
    sound_of_unbegun rfl (by simp [crew, CallerPoint.isClosing]) fun hother => absurd rfl hother
  have halone : crew.ClosesAlone 0 := by
    intro other point hother hpoint hcloses
    rcases other with _ | _ | other
    · exact absurd rfl hother
    · obtain rfl := Option.some.inj hpoint
      exact absurd hcloses Bool.false_ne_true
    · simp [Crew.point, crew] at hpoint
  have hclosed : closed.point 0 = some (.closed (.ok ())) := by
    subst closed crew turns frame
    rfl
  have hfiled : (closed.session.mailroom.box .general).frames = [frame] := by
    subst closed crew turns frame
    rfl
  have hkeeps : ∀ step ∈ steps, step.KeepsShut := by
    simp [steps, Step.KeepsShut, Session.Operation.KeepsShut, Session.Operation.acts,
      Session.Operation.moves, Move.act?, Link.isOpen, Loopback.inject]
  obtain ⟨hgood, hempty⟩ := closed_for_good Loopback.tellsClosed hsound turns hclosed
  have hclosedForGood : closed.ClosedForGood := hgood.mpr (hempty halone)
  have hstays := hclosedForGood steps hkeeps
  have hbare : steps.filterMap Step.bare = [] := rfl
  have hroom := hstays.mailroom
  simp only [hbare, inTurn] at hroom
  refine ⟨hsound, hclosed, halone, hclosedForGood, hkeeps, hstays.isOpen, ?_,
    hstays.refuses _ _ rfl⟩
  rw [← hfiled, ← hroom]

/-- Two callers close a session while the receiver polls. The first claims the receiver and waits;
the second does not, and is told of success while the frame that was polled is in hand. The
receiver's next turn files it. -/
theorem filed_after_second_closer :
    let frame : Frame := ⟨0x30, Frame.replyMarker, [1]⟩
    let line : Loopback := { toHost := wrap (frame.header ++ frame.body) }
    let crew : Crew Loopback := { session := .ofLink line {}, callers := [.stopping, .stopping] }
    let now : Turn := .receiver (.ofMillis 0)
    let turns := [now, now, .caller 0, .caller 0, .caller 1, .caller 1, .caller 1]
    let closed := crew.run turns
    crew.Sound ∧ closed.callers = [.joining, .closed (.ok ())] ∧
      closed.session.inHand = [frame] ∧ (closed.session.mailroom.box .general).frames = [] ∧
      ((closed.run [now]).session.mailroom.box .general).frames = [frame] ∧
      ¬ closed.ClosedForGood := by
  intro frame line crew now turns closed
  have hsound : crew.Sound :=
    sound_of_unbegun rfl (by simp [crew]) fun _ => rfl
  have hpolled : (crew.session.poll (.ofMillis 0)).2 = { link := {}, inHand := [frame] } := by
    decide +kernel
  have htaken : crew.run [now, now] =
      { session := { link := {}, inHand := [frame] }
        receiver := .filing
        callers := [.stopping, .stopping] } := by
    rw [← hpolled]
    rfl
  have hclosed : closed =
      { session := { link := { closed := true }, inHand := [frame], stopped := true }
        receiver := .filing
        unclaimed := false
        callers := [.joining, .closed (.ok ())] } := by
    show run _ (crew.run [now, now]) = _
    rw [htaken]
    rfl
  rw [hclosed]
  refine ⟨hsound, rfl, rfl, rfl, rfl, fun hgood => ?_⟩
  have hempty := hgood.inHand_eq_nil fun hother => absurd rfl hother
  exact absurd hempty (List.cons_ne_nil frame [])

end Crew

end PeripheralHost
