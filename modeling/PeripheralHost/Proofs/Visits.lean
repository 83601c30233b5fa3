import Mathlib.Data.List.Forall2
import PeripheralHost.Session.Exchange

/-!
# A session as a row of visits

The receiver, the callers and the other end of the link share a session, and
whoever is there has the place to himself. So what happens to a session is a row
of visits, and a statement about every order in which threads may get their turn
is a statement about every row. A visit of a caller sends a request, takes frames
out of a mailbox, drops them, or looks for a reply once.

A caller who waits makes many visits, and others make theirs in between. The acts
of callers are given as rows of visits here (`Session.visitsOf`): an act leaves
the session that its visits leave, the receiver does the same meanwhile, and what
the caller gets is what a visit took out of a mailbox
(`Session.performAll_madeBy`). A law of visits is thereby a law of acts.

## Main results

* `Session.awaitReply_madeBy`, `Session.awaitLatest_madeBy` — a wait does what
  its visits do.
* `Session.performAll_madeBy` — the same for a row of acts.
-/

namespace PeripheralHost

/-- A visit to a session. -/
inductive Visit (σ : Type) where
  /-- The receiver, at the given reading of the clock. -/
  | receiver (now : Duration)
  /-- The other end of the link does something. -/
  | peer (act : σ → σ)
  /-- A caller sends a request. -/
  | send (command : UInt8) (params : Bytes)
  /-- A caller takes out the oldest frame of a topic. -/
  | popOldest (topic : Topic)
  /-- A caller takes out the newest frame of a topic and drops all others. -/
  | takeLatest (topic : Topic)
  /-- A caller drops the frames of a topic. -/
  | clear (topic : Topic)
  /-- A caller looks for the reply to a command, once. -/
  | look (command : UInt8)

theorem Visit.receiver_or_not {σ : Type} (visit : Visit σ) :
    (∃ now, visit = .receiver now) ∨ ∀ now, visit ≠ .receiver now := by
  cases visit with
  | receiver now => exact .inl ⟨now, rfl⟩
  | _ => exact .inr (by simp)

/-- What others do while a caller sleeps is a visit. -/
def Move.visit {σ : Type} : Move σ → Visit σ
  | .receiver now => .receiver now
  | .peer act => .peer act

/-- A frame that a caller took out of the mailbox of a topic. -/
structure Taken where
  /-- The topic of the mailbox. -/
  topic : Topic
  /-- The frame. -/
  frame : Frame
  deriving DecidableEq, Repr

namespace Session

/-! ## Rows of visits -/

/-- The frames that the receiver filed, in order. -/
def filedFrames (progress : List Progress) : List Frame :=
  progress.filterMap fun
    | .filed frame _ => some frame
    | _ => none

theorem filedFrames_append (earlier later : List Progress) :
    filedFrames (earlier ++ later) = filedFrames earlier ++ filedFrames later :=
  List.filterMap_append

/-- What came of visits: what was given to callers, and what the receiver did. -/
structure Report (α : Type) where
  /-- What callers were given, in order. -/
  given : List α := []
  /-- What the receiver did, visit by visit. -/
  progress : List Progress := []

namespace Report

variable {α : Type}

instance : Append (Report α) where
  append first second := ⟨first.given ++ second.given, first.progress ++ second.progress⟩

@[simp] theorem given_append (first second : Report α) :
    (first ++ second).given = first.given ++ second.given := rfl

@[simp] theorem progress_append (first second : Report α) :
    (first ++ second).progress = first.progress ++ second.progress := rfl

theorem append_assoc (first second third : Report α) :
    first ++ second ++ third = first ++ (second ++ third) := by
  show mk _ _ = mk _ _
  simp

/-- A caller took a frame out of the mailbox of a topic, or found none. -/
def ofTaken (topic : Topic) (frame : Option Frame) : Report Taken :=
  { given := frame.toList.map (⟨topic, ·⟩) }

end Report

variable {σ : Type} [Link σ]

/-- Makes a visit. -/
def visit : Visit σ → Session σ → Report Taken × Session σ
  | .receiver now, session =>
      ({ progress := [(session.advance now).1] }, (session.advance now).2)
  | .peer act, session => ({}, { session with link := act session.link })
  | .send command params, session => ({}, (session.sendRequest command params).2)
  | .popOldest topic, session =>
      (.ofTaken topic (session.popOldest topic).1, (session.popOldest topic).2)
  | .takeLatest topic, session =>
      (.ofTaken topic (session.takeLatest topic).1, (session.takeLatest topic).2)
  | .clear topic, session => ({}, session.clear topic)
  | .look command, session =>
      (.ofTaken (Topic.ofCommand command) (session.look command).1.found, (session.look command).2)

/-- The session with other frames in the mailbox of a topic. -/
def leave (topic : Topic) (frames : List Frame) (session : Session σ) : Session σ :=
  { session with
    mailroom := session.mailroom.replace topic { session.mailroom.box topic with frames } }

omit [Link σ] in
@[simp] theorem frames_leave_self (topic : Topic) (frames : List Frame) (session : Session σ) :
    ((session.leave topic frames).mailroom.box topic).frames = frames := by
  rw [leave, Mailroom.box_replace_self]

omit [Link σ] in
theorem box_leave_ne {topic other : Topic} (frames : List Frame) (session : Session σ)
    (h : other ≠ topic) :
    (session.leave topic frames).mailroom.box other = session.mailroom.box other :=
  Mailroom.box_replace_ne _ _ h

omit [Link σ] in
/-- Transmitting concerns the sender and the link only. -/
theorem exists_transmit (act : Sender → σ → Except FrameError Unit × Sender × σ)
    (session : Session σ) :
    ∃ sender link, (session.transmit act).2 = { session with sender, link } := by
  unfold transmit transmitNow
  split
  · exact ⟨session.sender, session.link, rfl⟩
  · split <;> exact ⟨_, _, rfl⟩

/-- What a visit of anybody but the receiver does. It concerns the sender and the
link, or else a mailbox: then it drops the frames in front, takes out the next or
none, and leaves the rest. -/
theorem visit_cases {visit : Visit σ} (hcaller : ∀ now, visit ≠ .receiver now)
    (session : Session σ) :
    (∃ sender link, session.visit visit = ({}, { session with sender, link })) ∨
      ∃ (topic : Topic) (dropped left : List Frame) (taken : Option Frame),
        (session.mailroom.box topic).frames = dropped ++ (taken.toList ++ left) ∧
          session.visit visit = (.ofTaken topic taken, session.leave topic left) := by
  cases visit with
  | receiver now => exact absurd rfl (hcaller now)
  | peer act => exact .inl ⟨session.sender, act session.link, rfl⟩
  | send command params =>
      obtain ⟨sender, link, hsent⟩ := exists_transmit (Sender.sendRequest command params) session
      exact .inl ⟨sender, link, Prod.ext rfl hsent⟩
  | popOldest topic =>
      exact .inr ⟨topic, [], _, _, (Mailbox.popOldest_append _).symm, rfl⟩
  | takeLatest topic =>
      refine .inr ⟨topic, (session.mailroom.box topic).frames.dropLast, [], _, ?_, rfl⟩
      rw [List.append_nil]
      exact (Mailbox.takeLatest_append _).symm
  | clear topic =>
      exact .inr ⟨topic, (session.mailroom.box topic).frames, [], none, by simp, rfl⟩
  | look command =>
      refine .inr ⟨Topic.ofCommand command, (session.look command).1.skipped, _, _, ?_, rfl⟩
      rw [← List.append_assoc]
      exact (Mailbox.search_append command _).symm

/-- Makes visits one after the other. -/
def visitAll : List (Visit σ) → Session σ → Report Taken × Session σ
  | [], session => ({}, session)
  | visit :: visits, session =>
      let first := session.visit visit
      let later := visitAll visits first.2
      (first.1 ++ later.1, later.2)

theorem visitAll_append (earlier later : List (Visit σ)) (session : Session σ) :
    session.visitAll (earlier ++ later) =
      ((session.visitAll earlier).1 ++ ((session.visitAll earlier).2.visitAll later).1,
        ((session.visitAll earlier).2.visitAll later).2) := by
  induction earlier generalizing session with
  | nil => rfl
  | cons first earlier ih => simp only [List.cons_append, visitAll, ih, Report.append_assoc]

theorem visitAll_singleton (visit : Visit σ) (session : Session σ) :
    session.visitAll [visit] = session.visit visit := by
  show (Report.mk (_ ++ []) (_ ++ []), _) = _
  rw [List.append_nil, List.append_nil]
  rfl

theorem visitAll_moves (moves : List (Move σ)) (session : Session σ) :
    session.visitAll (moves.map Move.visit) =
      ({ progress := (session.moveAll moves).1 }, (session.moveAll moves).2) := by
  induction moves generalizing session with
  | nil => rfl
  | cons move moves ih =>
      cases move with
      | receiver now =>
          rw [List.map_cons, visitAll, ih]
          rfl
      | peer act =>
          rw [List.map_cons, visitAll, ih]
          rfl

/-- `p` holds of every visit of a row, in the session to which it is made. -/
def Throughout (p : Visit σ → Session σ → Prop) : List (Visit σ) → Session σ → Prop
  | [], _ => True
  | visit :: visits, session => p visit session ∧ Throughout p visits (session.visit visit).2

instance decidableThroughout (p : Visit σ → Session σ → Prop)
    [∀ visit session, Decidable (p visit session)] :
    ∀ visits session, Decidable (Throughout p visits session)
  | [], _ => .isTrue trivial
  | visit :: visits, session =>
      have := decidableThroughout p visits (session.visit visit).2
      inferInstanceAs (Decidable (_ ∧ _))

/-! ## What callers get -/

/-- Something given to a caller. -/
inductive HandOut where
  /-- A frame, out of the mailbox of a topic. -/
  | frame (topic : Topic) (frame : Frame)
  /-- The reply to a command. -/
  | reply (command : UInt8) (reply : Reply)
  deriving DecidableEq, Repr

/-- What a caller was given is the frame taken out of the mailbox, or is read out
of it. -/
def HandOut.Of : HandOut → Taken → Prop
  | .frame topic given, taken => taken = ⟨topic, given⟩
  | .reply command given, taken =>
      taken.topic = Topic.ofCommand command ∧ taken.frame.answers command = true ∧
        Reply.ofFrame taken.frame = .ok given

/-- Every hand-out is of a frame taken, each of another and in the order in which
they were taken. A frame taken that is no reply may go to nobody. -/
def OutOf (given : List HandOut) (taken : List Taken) : Prop :=
  ∃ used : List Taken, used.Sublist taken ∧ List.Forall₂ HandOut.Of given used

theorem outOf_nil (taken : List Taken) : OutOf [] taken := ⟨[], List.nil_sublist _, .nil⟩

theorem OutOf.append {given more : List HandOut} {taken further : List Taken}
    (hfirst : OutOf given taken) (hsecond : OutOf more further) :
    OutOf (given ++ more) (taken ++ further) := by
  obtain ⟨used, hused, hgiven⟩ := hfirst
  obtain ⟨others, hothers, hmore⟩ := hsecond
  exact ⟨used ++ others, hused.append hothers, List.rel_append hgiven hmore⟩

theorem outOf_singleton {handOut : HandOut} {taken : Taken} (h : handOut.Of taken) :
    OutOf [handOut] [taken] :=
  ⟨[taken], List.Sublist.refl _, .cons h .nil⟩

/-- A frame found by a look is read as a reply, or goes to nobody. -/
theorem outOf_found {command : UInt8} {found : Frame} (h : found.answers command = true) :
    OutOf ((Reply.ofFrame found).toOption.toList.map (.reply command))
      [⟨Topic.ofCommand command, found⟩] := by
  match hreply : Reply.ofFrame found with
  | .error fault => exact outOf_nil _
  | .ok reply => exact outOf_singleton ⟨rfl, h, hreply⟩

/-- Frames taken may be read one by one, or go to nobody. -/
theorem outOf_filterMap (read : Taken → Option HandOut) (taken : List Taken)
    (h : ∀ one ∈ taken, ∀ handOut ∈ read one, handOut.Of one) :
    OutOf (taken.filterMap read) taken := by
  induction taken with
  | nil => exact outOf_nil []
  | cons one taken ih =>
      rw [List.forall_mem_cons] at h
      cases hread : read one with
      | none =>
          rw [List.filterMap_cons_none hread]
          exact (outOf_nil [one]).append (ih h.2)
      | some handOut =>
          rw [List.filterMap_cons_some hread]
          exact (outOf_singleton (h.1 handOut hread)).append (ih h.2)

omit [Link σ] in
theorem answers_of_look {command : UInt8} {found : Frame} {session : Session σ}
    (h : (session.look command).1.found = some found) : found.answers command = true :=
  Mailbox.answers_of_search h

/-- What acts of callers do is what a row of visits does. -/
structure MadeBy (run : Report HandOut × Session σ) (row : Report Taken × Session σ) : Prop where
  session : run.2 = row.2
  progress : run.1.progress = row.1.progress
  given : OutOf run.1.given row.1.given

omit [Link σ] in
theorem MadeBy.append {run : Report HandOut × Session σ} {row : Report Taken × Session σ}
    {report : Report HandOut} {others : Report Taken} (h : MadeBy run row)
    (hgiven : OutOf report.given others.given) (hprogress : report.progress = others.progress) :
    MadeBy (report ++ run.1, run.2) (others ++ row.1, row.2) where
  session := h.session
  progress := by rw [Report.progress_append, Report.progress_append, hprogress, h.progress]
  given := hgiven.append h.given

/-! ## Waiting callers -/

/-- The visits made while a caller waits: it makes the visit `glance`, and makes
it again after every round, until it is given something or time runs out. -/
def waitVisits (glance : Visit σ) (deadline : Duration) :
    List (Round σ) → Session σ → List (Visit σ)
  | [], _ => [glance]
  | round :: later, session =>
      if (session.visit glance).1.given = [] ∧ ¬ deadline ≤ round.reading then
        glance :: round.moves.map Move.visit ++
          waitVisits glance deadline later ((session.visit glance).2.moveAll round.moves).2
      else [glance]

/-- What a waiting caller gets, what the receiver does meanwhile, and the session
afterwards. -/
def outcome {α : Type} (handOut : α → HandOut) (exchange : Exchange σ α) :
    Report HandOut × Session σ :=
  ({ given := exchange.answer.toOption.toList.map handOut, progress := exchange.progress },
    exchange.session)

omit [Link σ] in
theorem madeBy_of_vain {report : Report Taken} (next : Session σ)
    (hprogress : report.progress = []) :
    MadeBy ({}, next) (report, next) :=
  ⟨rfl, hprogress.symm, outOf_nil _⟩

omit [Link σ] in
/-- What others did ahead of the acts joins what the visits ahead of the rest
did. -/
theorem MadeBy.behind_moves {run : Report HandOut × Session σ} {row : Report Taken × Session σ}
    (h : MadeBy run row) (moved : List Progress) :
    MadeBy ({ run.1 with progress := moved ++ run.1.progress }, run.2)
      ({ progress := moved } ++ row.1, row.2) :=
  ⟨h.session, congrArg (moved ++ ·) h.progress, h.given⟩

/-- A glance that finds something, or is the last in time, ends the wait. -/
theorem visitAll_waitVisits_of_last {glance : Visit σ} {deadline : Duration}
    {rounds : List (Round σ)} {session : Session σ}
    (h : (session.visit glance).1.given = [] →
      ∀ round ∈ rounds.head?, deadline ≤ round.reading) :
    session.visitAll (waitVisits glance deadline rounds session) = session.visit glance := by
  match rounds with
  | [] => rw [waitVisits, visitAll_singleton]
  | round :: later =>
      rw [waitVisits, if_neg, visitAll_singleton]
      rintro ⟨hmissing, hreading⟩
      exact hreading (h hmissing round rfl)

/-- A glance in vain that is not the last in time is followed by a round. -/
theorem visitAll_waitVisits_of_missing {glance : Visit σ} {deadline : Duration} {round : Round σ}
    {session : Session σ} (later : List (Round σ)) (hmissing : (session.visit glance).1.given = [])
    (hreading : ¬ deadline ≤ round.reading) :
    let next := (session.visit glance).2
    let others := next.moveAll round.moves
    let rest := others.2.visitAll (waitVisits glance deadline later others.2)
    session.visitAll (waitVisits glance deadline (round :: later) session) =
      ((session.visit glance).1 ++ ({ progress := others.1 } ++ rest.1), rest.2) := by
  intro next others rest
  rw [waitVisits, if_pos ⟨hmissing, hreading⟩, List.cons_append, visitAll, visitAll_append,
    visitAll_moves]

/-- A wait for a reply does what its looks and the visits between them do. -/
theorem awaitReply_madeBy (command : UInt8) (start budget : Duration) (rounds : List (Round σ))
    (session : Session σ) :
    MadeBy (outcome (.reply command) (session.awaitReply command start budget rounds))
      (session.visitAll (waitVisits (.look command) (start + budget) rounds session)) := by
  -- The cases are: a look that finds, the last round, the deadline, another round.
  fun_induction awaitReply command start budget rounds session with
  | case1 rounds session skipped found next hlook =>
      rw [visitAll_waitVisits_of_last (by simp [visit, hlook, Report.ofTaken]), visit, hlook]
      exact ⟨rfl, rfl, outOf_found (answers_of_look (by rw [hlook]))⟩
  | case2 session skipped next hlook =>
      rw [visitAll_waitVisits_of_last (by simp), visit, hlook]
      exact madeBy_of_vain next rfl
  | case3 session skipped next hlook round later hreading =>
      rw [visitAll_waitVisits_of_last (by simp [hreading]), visit, hlook]
      exact madeBy_of_vain next rfl
  | case4 session skipped next hlook round later hreading progress others hmoved rest ih =>
      rw [visitAll_waitVisits_of_missing later (by simp [visit, hlook, Report.ofTaken]) hreading,
        visit, hlook, hmoved]
      exact ih.behind_moves progress

theorem awaitLatest_madeBy (topic : Topic) (start budget : Duration) (rounds : List (Round σ))
    (session : Session σ) :
    MadeBy (outcome (.frame topic) (session.awaitLatest topic start budget rounds))
      (session.visitAll (waitVisits (.takeLatest topic) (start + budget) rounds session)) := by
  fun_induction awaitLatest topic start budget rounds session with
  | case1 rounds session found next htake =>
      rw [visitAll_waitVisits_of_last (by simp [visit, htake, Report.ofTaken]), visit, htake]
      exact ⟨rfl, rfl, outOf_singleton rfl⟩
  | case2 session next htake =>
      rw [visitAll_waitVisits_of_last (by simp), visit, htake]
      exact madeBy_of_vain next rfl
  | case3 session next htake round later hreading =>
      rw [visitAll_waitVisits_of_last (by simp [hreading]), visit, htake]
      exact madeBy_of_vain next rfl
  | case4 session next htake round later hreading progress others hmoved rest ih =>
      rw [visitAll_waitVisits_of_missing later (by simp [visit, htake, Report.ofTaken]) hreading,
        visit, htake, hmoved]
      exact ih.behind_moves progress

/-! ## Acts -/

/-- An act of a caller, or a visit of anybody. -/
inductive Act (σ : Type) where
  /-- One visit. -/
  | visit (visit : Visit σ)
  /-- A caller waits for the newest frame of a topic. -/
  | awaitLatest (topic : Topic) (start budget : Duration) (rounds : List (Round σ))
  /-- A caller sends a request and waits for its reply. -/
  | request (command : UInt8) (params : Bytes) (sent : List (Move σ)) (start budget : Duration)
      (rounds : List (Round σ))

/-- What a frame taken out on a visit is to the caller. -/
def handOut : Visit σ → Taken → Option HandOut
  | .look command, taken => (Reply.ofFrame taken.frame).toOption.map (.reply command)
  | _, taken => some (.frame taken.topic taken.frame)

/-- Does an act. -/
def perform : Act σ → Session σ → Report HandOut × Session σ
  | .visit visit, session =>
      let (report, next) := session.visit visit
      ({ given := report.given.filterMap (handOut visit), progress := report.progress }, next)
  | .awaitLatest topic start budget rounds, session =>
      outcome (.frame topic) (session.awaitLatest topic start budget rounds)
  | .request command params sent start budget rounds, session =>
      outcome (.reply command) (session.request command params sent start budget rounds)

/-- The visits made during an act. -/
def visitsOf : Act σ → Session σ → List (Visit σ)
  | .visit visit, _ => [visit]
  | .awaitLatest topic start budget rounds, session =>
      waitVisits (.takeLatest topic) (start + budget) rounds session
  | .request command params sent start budget rounds, session =>
      .send command params ::
        match session.sendRequest command params with
        | (.error _, _) => []
        | (.ok (), next) =>
            sent.map Move.visit ++
              waitVisits (.look command) (start + budget) rounds (next.moveAll sent).2

/-- A frame found by a look is handed out as the reply read out of it, and every
other frame as it is. -/
theorem of_handOut {visit : Visit σ} {session : Session σ} {taken : Taken}
    (htaken : taken ∈ (session.visit visit).1.given) {handed : HandOut}
    (hhanded : handed ∈ handOut visit taken) : handed.Of taken := by
  cases visit with
  | look command =>
      obtain ⟨found, hfound, rfl⟩ := List.mem_map.mp htaken
      obtain ⟨reply, hreply, rfl⟩ := Option.map_eq_some_iff.mp hhanded
      refine ⟨rfl, answers_of_look (Option.mem_toList.mp hfound), ?_⟩
      cases hread : Reply.ofFrame found with
      | error fault => simp [hread, Except.toOption] at hreply
      | ok given => simpa [hread, Except.toOption] using hreply
  | _ => exact (Option.some.inj hhanded) ▸ rfl

theorem request_madeBy (command : UInt8) (params : Bytes) (sent : List (Move σ))
    (start budget : Duration) (rounds : List (Round σ)) (session : Session σ) :
    MadeBy (outcome (.reply command) (session.request command params sent start budget rounds))
      (session.visitAll (visitsOf (.request command params sent start budget rounds) session)) := by
  match hsent : session.sendRequest command params with
  | (.error fault, next) =>
      rw [request_of_unsent sent start budget rounds hsent, visitsOf, hsent, visitAll_singleton,
        visit, hsent]
      exact madeBy_of_vain next rfl
  | (.ok (), next) =>
      have hwait := awaitReply_madeBy command start budget rounds (next.moveAll sent).2
      rw [visitsOf, hsent, visitAll, visit, hsent, visitAll_append, visitAll_moves, request, hsent]
      exact hwait.behind_moves (next.moveAll sent).1

theorem perform_madeBy (act : Act σ) (session : Session σ) :
    MadeBy (session.perform act) (session.visitAll (visitsOf act session)) := by
  cases act with
  | visit visit =>
      rw [visitsOf, visitAll_singleton]
      exact ⟨rfl, rfl,
        outOf_filterMap _ _ fun _ htaken _ hhanded => of_handOut htaken hhanded⟩
  | awaitLatest topic start budget rounds =>
      exact awaitLatest_madeBy topic start budget rounds session
  | request command params sent start budget rounds =>
      exact request_madeBy command params sent start budget rounds session

/-- Does acts one after the other. -/
def performAll : List (Act σ) → Session σ → Report HandOut × Session σ
  | [], session => ({}, session)
  | act :: acts, session =>
      let first := session.perform act
      let later := performAll acts first.2
      (first.1 ++ later.1, later.2)

/-- The visits made during a row of acts. -/
def visitsOfAll : List (Act σ) → Session σ → List (Visit σ)
  | [], _ => []
  | act :: acts, session => visitsOf act session ++ visitsOfAll acts (session.perform act).2

theorem performAll_madeBy (acts : List (Act σ)) (session : Session σ) :
    MadeBy (session.performAll acts) (session.visitAll (visitsOfAll acts session)) := by
  induction acts generalizing session with
  | nil => exact ⟨rfl, rfl, outOf_nil _⟩
  | cons act acts ih =>
      have hfirst := perform_madeBy act session
      rw [visitsOfAll, visitAll_append, ← hfirst.session]
      exact (ih _).append hfirst.given hfirst.progress

end Session

end PeripheralHost
