import PeripheralHost.Proofs.Arrivals
import PeripheralHost.Proofs.Compartments
import PeripheralHost.Proofs.Deliveries

/-!
# Everything that arrives is filed

Octets are cut three times on their way in: the controller puts them on the line
bit by bit, the link reports some of them as available, and a read returns some of
those. Frames then pass through the receiver's hand into the mailboxes while callers
take them out. None of this decides what is filed. As long as no poll fails and no
frame is overdue, the assembler stands where one feeding of all octets read would
have left it, and the frames filed, followed by those in hand, are the frames of
that feeding (`Session.Abreast`).

What was filed under a topic is told by an `archive`: the mailroom as it would be
without a limit and without callers. A mailbox always holds the end of what the
archive has under its topic, for whatever leaves a mailbox leaves it in front. And
what is in the mailroom got there by accesses alone, those of the receiver, who files
frames, and those of the callers (`Session.mailroom_visitAll`).

## Main results

* `Session.Abreast.visit` — a visit keeps the session abreast of the stream.
* `Session.mailroom_visitAll` — visits do to the mailroom what their accesses do.
* `Session.archive_eq_feed` — what is filed are the frames of the octets read.
-/

namespace PeripheralHost

/-! ## Archives -/

namespace Mailroom

/-- Files frames one after the other. -/
def fileAll (frames : List Frame) (room : Mailroom) : Mailroom :=
  frames.foldl (fun room frame => (room.file frame).2) room

/-- Without a limit, filing frames appends to each mailbox those of its topic. -/
theorem box_fileAll (frames : List Frame) (room : Mailroom) (topic : Topic)
    (h : ∀ topic, (room.box topic).capacity = 0) :
    ((room.fileAll frames).box topic).frames =
      (room.box topic).frames ++ frames.filter (Topic.ofFrame · = topic) := by
  induction frames generalizing room with
  | nil => simp [fileAll]
  | cons frame frames ih =>
      have hfile := fun topic => box_file frame topic h
      have hnext := ih (room.file frame).2 fun topic => by rw [hfile topic]; exact h topic
      rw [fileAll, List.foldl_cons, ← fileAll, hnext, hfile topic, List.append_assoc,
        ← List.filter_append, List.singleton_append]

end Mailroom

namespace Mailbox

/-- A full mailbox gives up its oldest frame, so what it holds stays the end of all
that was filed. -/
theorem push_suffix {box : Mailbox} {filed : List Frame} (frame : Frame)
    (h : box.frames <:+ filed) : (box.push frame).2.frames <:+ filed ++ [frame] := by
  have hkept : ∀ {kept : List Frame}, kept <:+ box.frames → kept ++ [frame] <:+ filed ++ [frame] :=
    fun hsuffix => (List.suffix_append_inj_of_length_eq rfl).mpr ⟨hsuffix.trans h, rfl⟩
  unfold push
  split
  · exact hkept (List.tail_suffix _)
  · exact hkept List.suffix_rfl

end Mailbox

namespace Session

/-- The mailroom as it would be if no mailbox had a limit and nobody had taken
anything out. -/
def archive (progress : List Progress) : Mailroom :=
  (Mailroom.ofCapacity 0).fileAll (filedFrames progress)

theorem box_archive (progress : List Progress) (topic : Topic) :
    ((archive progress).box topic).frames =
      (filedFrames progress).filter (Topic.ofFrame · = topic) := by
  rw [archive, Mailroom.box_fileAll _ _ _ fun topic => by cases topic <;> rfl]
  cases topic <;> rfl

variable {σ : Type} [Link σ]

theorem filedFrames_of_inHand {session : Session σ} {frame : Frame} {inHand : List Frame}
    (now : Duration) (hinHand : session.inHand = frame :: inHand) :
    filedFrames [(session.advance now).1] = [frame] := by
  simp [filedFrames, advance, fileNext, hinHand]

theorem filedFrames_of_empty {session : Session σ} (now : Duration)
    (hinHand : session.inHand = []) : filedFrames [(session.advance now).1] = [] := by
  cases hstopped : session.stopped <;> simp [filedFrames, advance, fileNext, hinHand, hstopped]

/-! ## What visits do in the mailroom -/

/-- What a caller's visit does in the mailroom. -/
def access? : Visit σ → Option Mailroom.Access
  | .receiver _ | .peer _ | .send _ _ => none
  | .popOldest topic => some (.inBox topic .popOldest)
  | .takeLatest topic => some (.inBox topic .takeLatest)
  | .clear topic => some (.inBox topic .clear)
  | .look command => some (.inBox (.ofCommand command) (.search command))

/-- The accesses made to the mailroom during visits: the receiver files frames, and callers use
one mailbox each. -/
def accesses : List (Visit σ) → Session σ → List Mailroom.Access
  | [], _ => []
  | visit :: visits, session =>
      (filedFrames (session.visit visit).1.progress).map .file ++ (access? visit).toList ++
        accesses visits (session.visit visit).2

/-- A visit does to the mailroom what its accesses do, and nothing else. -/
theorem mailroom_visit (visit : Visit σ) (session : Session σ) :
    (session.visit visit).2.mailroom =
      (inTurn Mailroom.access
        ((filedFrames (session.visit visit).1.progress).map .file ++ (access? visit).toList)
        session.mailroom).2 := by
  cases visit with
  | receiver now =>
      show (session.advance now).2.mailroom = (inTurn Mailroom.access
        ((filedFrames [(session.advance now).1]).map .file ++ []) session.mailroom).2
      match hinHand : session.inHand with
      | frame :: inHand =>
          rw [filedFrames_of_inHand now hinHand, advance_of_inHand now hinHand]
          rfl
      | [] =>
          rw [filedFrames_of_empty now hinHand]
          cases hstopped : session.stopped with
          | true => rw [advance_of_stopped now hstopped hinHand]; rfl
          | false => rw [advance_of_empty now hinHand hstopped]; rfl
  | send command params =>
      obtain ⟨sender, link, hsent⟩ := exists_transmit (Sender.sendRequest command params) session
      exact (congrArg Session.mailroom hsent :)
  | peer act | popOldest topic | takeLatest topic | clear topic | look command => rfl

theorem mailroom_visitAll (visits : List (Visit σ)) (session : Session σ) :
    (session.visitAll visits).2.mailroom =
      (inTurn Mailroom.access (session.accesses visits) session.mailroom).2 := by
  induction visits generalizing session with
  | nil => rfl
  | cons visit visits ih =>
      rw [visitAll, accesses, inTurn_append _ (accesses visits _), ← mailroom_visit]
      exact ih _

omit [Link σ] in
/-- Only the receiver files frames. -/
theorem frames_of_access? (visit : Visit σ) :
    ∀ access ∈ access? visit, access.inner.frames = [] := by
  cases visit <;> simp [access?, Mailroom.Access.inner, Mailbox.Access.frames]

/-- The frames filed among the accesses are those that the receiver reports. -/
theorem frames_accesses (visits : List (Visit σ)) (session : Session σ) :
    (session.accesses visits).flatMap (·.inner.frames) =
      filedFrames (session.visitAll visits).1.progress := by
  induction visits generalizing session with
  | nil => rfl
  | cons visit visits ih =>
      have hnone : (access? visit).toList.flatMap (·.inner.frames) = [] :=
        List.flatMap_eq_nil_iff.mpr fun access haccess =>
          frames_of_access? visit access (Option.mem_toList.mp haccess)
      rw [visitAll, Report.progress_append, filedFrames_append, ← ih, accesses,
        List.flatMap_append, List.flatMap_append, hnone, List.append_nil, List.flatMap_map]
      simp [Mailroom.Access.inner, Mailbox.Access.frames]

/-- The other accesses are those of the callers. -/
theorem accesses_filter (visits : List (Visit σ)) (session : Session σ) :
    (session.accesses visits).filter (·.inner.frames = []) = visits.filterMap access? := by
  induction visits generalizing session with
  | nil => rfl
  | cons visit visits ih =>
      have hnone := frames_of_access? visit
      rw [accesses, List.filter_append, List.filter_append, ih]
      have hfiled : ((filedFrames (session.visit visit).1.progress).map Mailroom.Access.file).filter
          (·.inner.frames = []) = [] := by
        simp [Mailroom.Access.inner, Mailbox.Access.frames]
      rw [hfiled, List.nil_append]
      cases haccess : access? visit with
      | none => rw [List.filterMap_cons_none haccess]; rfl
      | some access =>
          rw [List.filterMap_cons_some haccess]
          simp [hnone access haccess]

/-! ## Staying abreast of the stream -/

/-- A poll of a link that works, and with no frame overdue, feeds the octets it
takes off the line. -/
theorem perform_calls_of_calm {now : Duration} {intake : Intake} (link : σ)
    (hcalm : intake.overdue now = false) :
    Assembler.perform (intake.calls now link) intake.assembler =
      Assembler.feed (Assembler.octets (intake.calls now link)) intake.assembler := by
  obtain ⟨pieces, hpieces⟩ : ∃ pieces : List Bytes, intake.calls now link = pieces.map .feed := by
    rcases Intake.calls_cases now intake link with hnone | ⟨pieces, hpieces⟩
    · exact ⟨[], hnone⟩
    · rw [hcalm] at hpieces
      exact ⟨pieces, hpieces⟩
  rw [hpieces, Assembler.perform_feed, Assembler.feedAll_eq_feed, Assembler.octets_feeds]

/-- The receiver polls a link that works, and finds no frame overdue; the other end
of the link takes nothing back. -/
def Undisturbed (inlet : Inlet σ) : Visit σ → Session σ → Prop
  | .receiver now, session =>
      session.inHand = [] →
        session.intake.overdue now = false ∧ (session.poll now).1.isOk = true
  | visit, session => Injects inlet visit session

instance (inlet : Inlet σ) : ∀ visit session, Decidable (Undisturbed inlet visit session)
  | .receiver now, session =>
      inferInstanceAs (Decidable (session.inHand = [] →
        session.intake.overdue now = false ∧ (session.poll now).1.isOk = true))
  | .peer act, session => inferInstanceAs (Decidable (Injects inlet (.peer act) session))
  | .send _ _, _ | .popOldest _, _ | .takeLatest _, _ | .clear _, _ | .look _, _ =>
      .isTrue trivial

theorem Undisturbed.injects {inlet : Inlet σ} {visit : Visit σ} {session : Session σ}
    (h : Undisturbed inlet visit session) (hcaller : ∀ now, visit ≠ .receiver now) :
    Injects inlet visit session := by
  cases visit with
  | receiver now => exact absurd rfl (hcaller now)
  | _ => exact h

/-- A session that has kept up with the stream: of what arrived, `read` was taken
off the line; `filed` were filed, and the rest of the frames is in hand. -/
structure Abreast (inlet : Inlet σ) (limit : Nat) (stream read : Bytes) (filed : List Frame)
    (session : Session σ) : Prop where
  running : session.stopped = false
  split : stream = read ++ inlet.waiting session.link
  assembler : session.intake.assembler = (Assembler.feed read { limit }).2
  frames : filed ++ session.inHand = Outcome.frames (Assembler.feed read { limit }).1
  boxes : ∀ topic, (session.mailroom.box topic).frames <:+
    filed.filter (Topic.ofFrame · = topic)

variable {inlet : Inlet σ} {limit : Nat} {stream read : Bytes} {filed : List Frame}
  {session : Session σ}

theorem abreast_ofLink (inlet : Inlet σ) (link : σ) (settings : SessionSettings) :
    Abreast inlet settings.frame.maxBody (inlet.waiting link) [] [] (ofLink link settings) where
  running := rfl
  split := rfl
  assembler := by rw [Assembler.feed_nil]; rfl
  frames := by rw [Assembler.feed_nil]; rfl
  boxes topic := by cases topic <;> exact List.suffix_rfl

theorem Abreast.file (h : Abreast inlet limit stream read filed session) {frame : Frame}
    {inHand : List Frame} (hinHand : session.inHand = frame :: inHand) :
    Abreast inlet limit stream read (filed ++ [frame])
      { session with inHand, mailroom := (session.mailroom.file frame).2 } := by
  refine { h with frames := ?_, boxes := ?_ }
  · rw [← h.frames, hinHand]
    simp
  · intro topic
    show ((session.mailroom.file frame).2.box topic).frames <:+ _
    rw [List.filter_append]
    by_cases htopic : Topic.ofFrame frame = topic
    · subst htopic
      rw [Mailroom.box_file_self, List.filter_cons_of_pos (by simp), List.filter_nil]
      exact Mailbox.push_suffix frame (h.boxes _)
    · rw [Mailroom.box_file_ne _ htopic, List.filter_cons_of_neg (by simpa using htopic),
        List.filter_nil, List.append_nil]
      exact h.boxes topic

theorem Abreast.poll (h : Abreast inlet limit stream read filed session) {now : Duration}
    (hcalm : session.intake.overdue now = false) (hok : (session.poll now).1.isOk = true) :
    ∃ read', Abreast inlet limit stream read' filed (session.poll now).2 := by
  obtain ⟨intake, taken, hnext, hassembler, htaken⟩ := poll_performs now session
  have hwaiting := Intake.waiting_poll inlet now session.intake session.link
  rw [perform_calls_of_calm session.link hcalm] at hassembler htaken
  generalize Assembler.octets (session.intake.calls now session.link) = more at *
  -- Feeding what was read before and then the rest is one feeding of both.
  have hfed := Assembler.feed_append read more { limit }
  rw [← h.assembler] at hfed
  obtain rfl : taken = Outcome.frames (Assembler.feed more session.intake.assembler).1 := by
    rcases htaken with ⟨-, htaken⟩ | ⟨⟨fault, hfault⟩, -⟩
    · exact htaken
    · rw [hfault] at hok
      simp [Except.isOk, Except.toBool] at hok
  refine ⟨read ++ more, ?_⟩
  rw [hnext]
  exact {
    running := h.running
    split := by rw [h.split, hwaiting, List.append_assoc]
    assembler := by rw [hfed, hassembler]
    frames := by
      show filed ++ (session.inHand ++ _) = _
      rw [← List.append_assoc, h.frames, hfed, Outcome.frames_append]
    boxes := h.boxes }

/-- What arrives on the line joins the stream behind. -/
theorem Abreast.arrive (h : Abreast inlet limit stream read filed session) (sender : Sender)
    {link : σ} {more : Bytes}
    (hwaiting : inlet.waiting link = inlet.waiting session.link ++ more) :
    Abreast inlet limit (stream ++ more) read filed { session with sender, link } :=
  { h with
    split := by
      show _ = read ++ inlet.waiting link
      rw [hwaiting, h.split, List.append_assoc] }

/-- A caller leaves the end of what a mailbox held. -/
theorem Abreast.takeOut (h : Abreast inlet limit stream read filed session) (topic : Topic)
    {left : List Frame} (hleft : left <:+ (session.mailroom.box topic).frames) :
    Abreast inlet limit stream read filed (session.leave topic left) := by
  refine { h with boxes := ?_ }
  intro other
  by_cases hother : other = topic
  · subst hother
    rw [frames_leave_self]
    exact hleft.trans (h.boxes other)
  · rw [box_leave_ne _ _ hother]
    exact h.boxes other

/-- A visit of the receiver files the oldest frame in hand, or polls. -/
theorem Abreast.advance (h : Abreast inlet limit stream read filed session) {now : Duration}
    (hundisturbed : Undisturbed inlet (.receiver now) session) :
    ∃ read', Abreast inlet limit stream read' (filed ++ filedFrames [(session.advance now).1])
      (session.advance now).2 := by
  match hinHand : session.inHand with
  | frame :: inHand =>
      rw [filedFrames_of_inHand now hinHand, advance_of_inHand now hinHand]
      exact ⟨read, h.file hinHand⟩
  | [] =>
      obtain ⟨hcalm, hok⟩ := hundisturbed hinHand
      rw [filedFrames_of_empty now hinHand, List.append_nil,
        advance_of_empty now hinHand h.running]
      exact h.poll hcalm hok

theorem Abreast.visit (h : Abreast inlet limit stream read filed session) {visit : Visit σ}
    (hundisturbed : Undisturbed inlet visit session) :
    ∃ read', Abreast inlet limit (stream ++ session.arrival inlet visit) read'
      (filed ++ filedFrames (session.visit visit).1.progress) (session.visit visit).2 := by
  rcases visit.receiver_or_not with ⟨now, rfl⟩ | hcaller
  · rw [arrival, List.append_nil]
    exact h.advance hundisturbed
  have hwaiting := waiting_visit inlet (hundisturbed.injects hcaller) hcaller
  rcases visit_cases hcaller session with
    ⟨sender, link, hvisit⟩ | ⟨topic, dropped, left, taken, htaken, hvisit⟩
  · rw [hvisit] at hwaiting ⊢
    refine ⟨read, ?_⟩
    have harrive := h.arrive sender hwaiting
    rw [← List.append_nil filed] at harrive
    exact harrive
  · rw [hvisit] at hwaiting ⊢
    refine ⟨read, ?_⟩
    have harrive := h.arrive session.sender hwaiting
    rw [← List.append_nil filed] at harrive
    refine harrive.takeOut topic ?_
    rw [htaken, ← List.append_assoc]
    exact List.suffix_append _ _

/-- **Everything that arrives is filed once**: whatever the cuts and whatever callers
do meanwhile, if no poll fails and no frame is overdue, then as soon as the receiver
has nothing in hand, the frames ever filed under a topic are those of the octets read
so far, fed at once to a new assembler, that are of the topic; and the mailbox holds
the end of them. The mailroom is what a row of accesses makes of an empty one, and in
that row stand the filing of just these frames and the accesses of the callers. -/
theorem archive_eq_feed (inlet : Inlet σ) (link : σ) (settings : SessionSettings)
    (visits : List (Visit σ))
    (hundisturbed : Throughout (Undisturbed inlet) visits (ofLink link settings))
    (hinHand : ((ofLink link settings).visitAll visits).2.inHand = []) :
    let session := ofLink link settings
    let run := session.visitAll visits
    (∃ read, inlet.waiting link ++ session.arrivals inlet visits =
        read ++ inlet.waiting run.2.link ∧
      ∀ topic,
        ((archive run.1.progress).box topic).frames =
            (Outcome.frames (Assembler.feed read { limit := settings.frame.maxBody }).1).filter
              (Topic.ofFrame · = topic) ∧
          (run.2.mailroom.box topic).frames <:+ ((archive run.1.progress).box topic).frames) ∧
      run.2.mailroom =
          (inTurn Mailroom.access (session.accesses visits)
            (Mailroom.ofCapacity settings.queueCapacity.toNat)).2 ∧
        (session.accesses visits).flatMap (·.inner.frames) = filedFrames run.1.progress ∧
        (session.accesses visits).filter (·.inner.frames = []) = visits.filterMap access? := by
  intro session run
  have hrun := hundisturbed.preserves inlet
    (fun arrived report next => ∃ read, Abreast inlet settings.frame.maxBody
      (inlet.waiting link ++ arrived) read (filedFrames report.progress) next) ?_ [] {} ?_
  · obtain ⟨read, habreast⟩ := hrun
    have hframes := habreast.frames
    rw [hinHand, List.append_nil] at hframes
    refine ⟨⟨read, habreast.split, ?_⟩, mailroom_visitAll visits session,
      frames_accesses visits session, accesses_filter visits session⟩
    intro topic
    rw [box_archive, ← hframes]
    exact ⟨rfl, habreast.boxes topic⟩
  · rintro visit arrived report next hundisturbed ⟨read, habreast⟩
    rw [← List.append_assoc, Report.progress_append, filedFrames_append]
    exact habreast.visit hundisturbed
  · refine ⟨[], ?_⟩
    rw [List.append_nil]
    exact abreast_ofLink inlet link settings

/-- Two key presses and an echo arrive in two parts and are read five octets at a
time. A look drops the echo, and the second press takes the place of the first; both
were filed. -/
theorem archive_amid_cuts :
    let octets := fun frame : Frame => wrap (frame.header ++ frame.body)
    let press := fun key : UInt8 => Frame.reply Command.keyPress 0 [key]
    let echo := Frame.request 0x31 []
    let stream := octets (press 7) ++ octets echo ++ octets (press 8)
    let visits : List (Visit Scripted) := [
      .receiver .zero, .receiver .zero, .send 0x31 [], .receiver .zero,
      .peer fun script => script.onPeer (Loopback.inject (stream.drop 15)),
      .receiver .zero, .receiver .zero, .look 0x31, .receiver .zero, .receiver .zero]
    let session := ofLink
      { line := { toHost := stream.take 15 }, reports := [4], readLimit := some 5 : Scripted }
      { queueCapacity := 1 }
    let run := session.visitAll visits
    Throughout (Undisturbed Scripted.inlet) visits session ∧ run.2.inHand = [] ∧
      (archive run.1.progress).keyboard.frames = [press 7, press 8] ∧
      run.2.mailroom.keyboard.frames = [press 8] ∧ run.2.mailroom.general.frames = [] ∧
      session.accesses visits =
        [.file (press 7), .file echo, .inBox .general (.search 0x31), .file (press 8)] ∧
      run.2.mailroom =
        (inTurn Mailroom.access (session.accesses visits) (Mailroom.ofCapacity 1)).2 ∧
      ∃ read, session.link.line.toHost ++ session.arrivals Scripted.inlet visits =
          read ++ run.2.link.line.toHost ∧
        ∀ topic,
          ((archive run.1.progress).box topic).frames =
              (Outcome.frames (Assembler.feed read {}).1).filter (Topic.ofFrame · = topic) ∧
            (run.2.mailroom.box topic).frames <:+ ((archive run.1.progress).box topic).frames := by
  intro octets press echo stream visits session run
  have hundisturbed : Throughout (Undisturbed Scripted.inlet) visits session := by
    decide +kernel
  have hinHand : run.2.inHand = [] := by
    decide +kernel
  obtain ⟨hread, hroom, -⟩ :=
    archive_eq_feed Scripted.inlet session.link { queueCapacity := 1 } visits hundisturbed hinHand
  refine ⟨hundisturbed, hinHand, ?_, ?_, ?_, ?_, hroom, hread⟩
  · decide +kernel
  · decide +kernel
  · decide +kernel
  · decide +kernel

end Session

end PeripheralHost
