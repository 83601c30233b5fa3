import Mathlib.Data.List.Pairwise
import PeripheralHost.Proofs.Arrivals
import PeripheralHost.Proofs.Deliveries

/-!
# Where the frames of callers come from

Nobody but the controller makes frames. Whatever arrives on the line, hostile or
not, every frame that a caller gets stands in what has arrived, written out and
within the limit, and no octet serves two callers.

This is kept track of by places. The stream falls into the octets that the
assembler is done with and the rest, and the frames found so far stand one behind
the other in what is done (`Session.Traced`). They were filed in this order, apart
from those still in hand. What was taken out of a mailbox, followed by what is in
it, is a part of what was filed under its topic, in the same order: filing adds a
place behind and may give up one in front, and a caller takes places out in front
or drops them. A poll that fails loses frames, and with them their places; what is
kept stays in order.

## Main results

* `Session.Traced.visit` — a visit keeps track of all places.
* `Session.Throughout.exists_taken_places` — the frames that callers take out have
  places of their own.
* `Session.exists_given_places` — what callers get is read out of the stream.
-/

namespace PeripheralHost

/-! ## Filing and reading frames -/

namespace Mailbox

/-- Filing a frame puts it behind, and gives up frames in front if any. -/
theorem exists_push (frame : Frame) (box : Mailbox) :
    ∃ kept, kept.Sublist box.frames ∧ (box.push frame).2.frames = kept ++ [frame] := by
  unfold push
  split
  · exact ⟨_, List.tail_sublist _, rfl⟩
  · exact ⟨_, List.Sublist.refl _, rfl⟩

end Mailbox

/-- A reply frame with a status is the frame of that reply. -/
theorem Frame.eq_reply_of_status {frame : Frame} {status : Int32} (hreply : frame.isReply = true)
    (hstatus : frame.status = some status) :
    frame = Frame.reply frame.command status frame.resultData := by
  unfold Frame.status at hstatus
  split at hstatus
  · simp at hstatus
  next hlong =>
  obtain rfl := Option.some.inj hstatus
  have hlength : (frame.body.take statusSize).length = statusSize := by
    rw [List.length_take]
    omega
  have hbound := Bytes.ofBigEndian_lt (frame.body.take statusSize)
  rw [hlength] at hbound
  have hcode : Bytes.bigEndian statusSize
      (UInt32.ofNat (Bytes.ofBigEndian (frame.body.take statusSize))).toNat =
        frame.body.take statusSize := by
    have hback := Bytes.bigEndian_ofBigEndian (frame.body.take statusSize)
    rw [hlength] at hback
    rw [UInt32.toNat_ofNat_of_lt' hbound]
    exact hback
  obtain ⟨command, marker, body⟩ := frame
  obtain rfl : marker = replyMarker := by simpa [isReply] using hreply
  rw [Frame.reply, UInt32.toUInt32_toInt32, hcode, resultData, List.take_append_drop]

/-! ## Places -/

namespace Stream

/-- The places whose frames are filed under the topic. -/
def under (topic : Topic) (places : List Occurrence) : List Occurrence :=
  places.filter (Topic.ofFrame ·.frame = topic)

theorem under_append (topic : Topic) (places more : List Occurrence) :
    under topic (places ++ more) = under topic places ++ under topic more :=
  List.filter_append ..

theorem under_eq_self {topic : Topic} {places : List Occurrence}
    (h : ∀ place ∈ places, Topic.ofFrame place.frame = topic) : under topic places = places :=
  List.filter_eq_self.mpr fun place hmem => by simp [h place hmem]

theorem under_eq_nil {topic : Topic} {places : List Occurrence}
    (h : ∀ place ∈ places, Topic.ofFrame place.frame ≠ topic) : under topic places = [] :=
  List.filter_eq_nil_iff.mpr fun place hmem => by simp [h place hmem]

/-- Two places that share no octet. -/
def Occurrence.Disjoint (place other : Occurrence) : Prop :=
  place.stop ≤ other.start ∨ other.stop ≤ place.start

instance : Std.Symm Occurrence.Disjoint := ⟨fun _ _ => Or.symm⟩

/-- Two places that share no octet, in the order of the stream if they are of one
topic. -/
def Apart (earlier later : Occurrence) : Prop :=
  earlier.Disjoint later ∧
    (Topic.ofFrame earlier.frame = Topic.ofFrame later.frame → earlier.stop ≤ later.start)

theorem subset_of_under {given filed : List Occurrence}
    (hunder : ∀ topic, (under topic given).Sublist (under topic filed)) : given ⊆ filed := by
  intro place hmem
  have hplace : place ∈ under (Topic.ofFrame place.frame) given :=
    List.mem_filter.mpr ⟨hmem, by simp⟩
  exact List.mem_of_mem_filter ((hunder _).subset hplace)

/-- Places that are, topic by topic, a part of places in order are apart. -/
theorem apart_of_under {given filed : List Occurrence}
    (hordered : filed.Pairwise fun earlier later => earlier.stop ≤ later.start)
    (hunder : ∀ topic, (under topic given).Sublist (under topic filed)) :
    given.Pairwise Apart := by
  have hfiled := subset_of_under hunder
  have hdisjoint : filed.Pairwise Occurrence.Disjoint := hordered.imp Or.inl
  rw [List.pairwise_iff_forall_sublist] at hordered ⊢
  intro earlier later hpair
  have htopic : Topic.ofFrame earlier.frame = Topic.ofFrame later.frame →
      earlier.stop ≤ later.start := by
    intro hsame
    have hboth : [earlier, later].Sublist (under (Topic.ofFrame earlier.frame) given) := by
      simpa [under, hsame] using hpair.filter (Topic.ofFrame ·.frame = Topic.ofFrame later.frame)
    exact hordered ((hboth.trans (hunder _)).trans List.filter_sublist)
  refine ⟨?_, htopic⟩
  by_cases hsame : Topic.ofFrame earlier.frame = Topic.ofFrame later.frame
  · exact .inl (htopic hsame)
  · -- Frames of two topics are two, and each was filed at its own place.
    have hne : earlier ≠ later := fun heq => hsame (by rw [heq])
    exact hdisjoint.forall (hfiled (hpair.subset (by simp))) (hfiled (hpair.subset (by simp))) hne

end Stream

/-- The frame at a place, taken out of the mailbox of its topic. -/
def Taken.ofPlace (place : Stream.Occurrence) : Taken :=
  ⟨Topic.ofFrame place.frame, place.frame⟩

namespace Session

variable {σ : Type} [Link σ]

/-- How a session stands to the stream that has arrived: the assembler is done
with `done`; the frames at `filed` were filed, those at `held` are in hand, and
those at `given` were taken out of the mailboxes. -/
structure Traced (inlet : Inlet σ) (limit : Nat) (stream done : Bytes)
    (filed held given : List Stream.Occurrence) (session : Session σ) : Prop where
  limited : session.intake.assembler.limit = limit
  resumable : session.intake.assembler.Resumable
  split : stream = done ++ (session.intake.assembler.pending ++ inlet.waiting session.link)
  inOrder : Stream.InOrder limit stream 0 done.length (filed ++ held)
  inHand : held.map Stream.Occurrence.frame = session.inHand
  boxes : ∀ topic, ∃ kept : List Stream.Occurrence,
    kept.map Stream.Occurrence.frame = (session.mailroom.box topic).frames ∧
      (Stream.under topic given ++ kept).Sublist (Stream.under topic filed)

variable {inlet : Inlet σ} {limit : Nat} {stream done : Bytes}
  {filed held given : List Stream.Occurrence} {session : Session σ}

theorem traced_ofLink (inlet : Inlet σ) (link : σ) (settings : SessionSettings) :
    Traced inlet settings.frame.maxBody (inlet.waiting link) [] [] [] []
      (ofLink link settings) where
  limited := rfl
  resumable := Assembler.resumable_new _
  split := rfl
  inOrder := .nil (Nat.le_refl _)
  inHand := rfl
  boxes topic := ⟨[], by cases topic <;> rfl, List.Sublist.refl _⟩

/-! ## One visit -/

theorem Traced.file (h : Traced inlet limit stream done filed held given session) {frame : Frame}
    {inHand : List Frame} (hinHand : session.inHand = frame :: inHand) :
    ∃ filed' held', Traced inlet limit stream done filed' held' given
      { session with inHand, mailroom := (session.mailroom.file frame).2 } := by
  have hheld := h.inHand
  rw [hinHand, List.map_eq_cons_iff] at hheld
  obtain ⟨place, held', rfl, rfl, hheld⟩ := hheld
  refine ⟨filed ++ [place], held', { h with inOrder := ?_, inHand := hheld, boxes := ?_ }⟩
  · rw [List.append_assoc]
    exact h.inOrder
  · intro topic
    obtain ⟨kept, hkept, hunder⟩ := h.boxes topic
    by_cases htopic : Topic.ofFrame place.frame = topic
    · subst htopic
      obtain ⟨left, hleft, hpush⟩ :=
        (session.mailroom.box (Topic.ofFrame place.frame)).exists_push place.frame
      rw [← hkept, List.sublist_map_iff] at hleft
      obtain ⟨left, hleft, rfl⟩ := hleft
      refine ⟨left ++ [place], ?_, ?_⟩
      · rw [Mailroom.box_file_self, hpush]
        simp
      · have hplace : Stream.under (Topic.ofFrame place.frame) [place] = [place] :=
          Stream.under_eq_self (by simp)
        rw [Stream.under_append, hplace, ← List.append_assoc]
        exact ((hleft.append_left _).trans hunder).append_right _
    · refine ⟨kept, ?_, ?_⟩
      · rw [Mailroom.box_file_ne _ htopic]
        exact hkept
      · have hplace : Stream.under topic [place] = [] :=
          Stream.under_eq_nil (by simpa using htopic)
        rw [Stream.under_append, hplace, List.append_nil]
        exact hunder

/-- A poll finds the next frames in what it feeds the assembler. If it fails, they
are lost. -/
theorem Traced.poll (h : Traced inlet limit stream done filed held given session)
    (now : Duration) :
    ∃ done' held', Traced inlet limit stream done' filed held' given (session.poll now).2 := by
  obtain ⟨intake, taken, hnext, hassembler, htaken⟩ := poll_performs now session
  have hwaiting := Intake.waiting_poll inlet now session.intake session.link
  generalize session.intake.calls now session.link = calls at *
  obtain ⟨done', places, hdone, hplaces, hframes, -⟩ :=
    Assembler.exists_perform_places h.resumable calls done
  have hstream : stream = done ++ (session.intake.assembler.pending ++ Assembler.octets calls) ++
      inlet.waiting (session.intake.poll now session.link).2.2 := by
    rw [h.split, hwaiting]
    simp
  have hin := hplaces.extend (inlet.waiting (session.intake.poll now session.link).2.2)
  rw [← hstream, h.limited] at hin
  -- A poll that fails is done with its frames all the same, and nobody has them.
  obtain ⟨found, hfound, hinOrder⟩ : ∃ found : List Stream.Occurrence,
      found.map Stream.Occurrence.frame = taken ∧
        Stream.InOrder limit stream done.length done'.length found := by
    rcases htaken with ⟨-, rfl⟩ | ⟨-, rfl⟩
    · exact ⟨places, hframes, hin⟩
    · exact ⟨[], rfl, .nil hin.start_le_stop⟩
  refine ⟨done', held ++ found, ?_⟩
  rw [hnext]
  exact {
    limited := by rw [← h.limited, hassembler, Assembler.limit_perform]
    resumable := by rw [hassembler]; exact h.resumable.perform calls
    split := by
      show stream = done' ++ (intake.assembler.pending ++ _)
      rw [hstream, hdone, hassembler]
      simp
    inOrder := by
      rw [← List.append_assoc]
      exact h.inOrder.append hinOrder
    inHand := by
      show _ = session.inHand ++ taken
      rw [List.map_append, h.inHand, hfound]
    boxes := h.boxes }

theorem Traced.advance (h : Traced inlet limit stream done filed held given session)
    (now : Duration) :
    ∃ done' filed' held',
      Traced inlet limit stream done' filed' held' given (session.advance now).2 := by
  match hinHand : session.inHand with
  | frame :: inHand =>
      rw [advance_of_inHand now hinHand]
      exact ⟨done, h.file hinHand⟩
  | [] =>
      cases hstopped : session.stopped with
      | true =>
          rw [advance_of_stopped now hstopped hinHand]
          exact ⟨done, filed, held, h⟩
      | false =>
          rw [advance_of_empty now hinHand hstopped]
          obtain ⟨done', held', hpoll⟩ := h.poll now
          exact ⟨done', filed, held', hpoll⟩

/-- What arrives on the line joins the stream behind. -/
theorem Traced.arrive (h : Traced inlet limit stream done filed held given session)
    (sender : Sender) {link : σ} {more : Bytes}
    (hwaiting : inlet.waiting link = inlet.waiting session.link ++ more) :
    Traced inlet limit (stream ++ more) done filed held given { session with sender, link } :=
  { h with
    split := by
      show _ = done ++ (session.intake.assembler.pending ++ inlet.waiting link)
      rw [hwaiting, h.split]
      simp
    inOrder := h.inOrder.extend more }

/-- A caller drops the frames in front of a mailbox and takes out the next, or
none. -/
theorem Traced.takeOut (h : Traced inlet limit stream done filed held given session) (topic : Topic)
    {dropped left : List Frame} {taken : Option Frame}
    (htaken : (session.mailroom.box topic).frames = dropped ++ (taken.toList ++ left)) :
    ∃ more : List Stream.Occurrence, more.map Taken.ofPlace = (Report.ofTaken topic taken).given ∧
      Traced inlet limit stream done filed held (given ++ more) (session.leave topic left) := by
  obtain ⟨kept, hkept, hunder⟩ := h.boxes topic
  rw [htaken, List.map_eq_append_iff] at hkept
  obtain ⟨front, behind, rfl, -, hbehind⟩ := hkept
  obtain ⟨more, rest, rfl, hmore, hrest⟩ := List.map_eq_append_iff.mp hbehind
  replace hunder : (Stream.under topic given ++ (more ++ rest)).Sublist
      (Stream.under topic filed) :=
    ((List.sublist_append_right front _).append_left _).trans hunder
  have htopic : ∀ place ∈ more, Topic.ofFrame place.frame = topic := by
    intro place hmem
    have hplace : place ∈ Stream.under topic filed :=
      hunder.subset (List.mem_append_right _ (List.mem_append_left _ hmem))
    simpa using (List.mem_filter.mp hplace).2
  refine ⟨more, ?_, { h with boxes := ?_ }⟩
  · rw [Report.ofTaken, ← hmore, List.map_map]
    exact List.map_congr_left fun place hmem => by simp [Taken.ofPlace, htopic place hmem]
  · intro other
    by_cases hother : other = topic
    · subst hother
      refine ⟨rest, ?_, ?_⟩
      · rw [frames_leave_self, hrest]
      · rw [Stream.under_append, Stream.under_eq_self htopic, List.append_assoc]
        exact hunder
    · obtain ⟨others, hothers, hsublist⟩ := h.boxes other
      refine ⟨others, ?_, ?_⟩
      · rw [box_leave_ne _ _ hother, hothers]
      · have hnone : Stream.under other more = [] :=
          Stream.under_eq_nil fun place hmem => by simp [htopic place hmem, Ne.symm hother]
        rw [Stream.under_append, hnone, List.append_nil]
        exact hsublist

theorem Traced.visit (h : Traced inlet limit stream done filed held given session)
    {visit : Visit σ} (hinjects : Injects inlet visit session) :
    ∃ done' filed' held' more, more.map Taken.ofPlace = (session.visit visit).1.given ∧
      Traced inlet limit (stream ++ session.arrival inlet visit) done' filed' held'
        (given ++ more) (session.visit visit).2 := by
  rcases visit.receiver_or_not with ⟨now, rfl⟩ | hcaller
  · obtain ⟨done', filed', held', hadvance⟩ := h.advance now
    refine ⟨done', filed', held', [], rfl, ?_⟩
    rw [arrival, List.append_nil, List.append_nil]
    exact hadvance
  have hwaiting := waiting_visit inlet hinjects hcaller
  rcases visit_cases hcaller session with
    ⟨sender, link, hvisit⟩ | ⟨topic, dropped, left, taken, htaken, hvisit⟩
  · rw [hvisit] at hwaiting ⊢
    refine ⟨done, filed, held, [], rfl, ?_⟩
    rw [List.append_nil]
    exact h.arrive sender hwaiting
  · rw [hvisit] at hwaiting ⊢
    have harrive := h.arrive session.sender hwaiting
    obtain ⟨more, hgiven, hnext⟩ := harrive.takeOut topic htaken
    exact ⟨done, filed, held, more, hgiven, hnext⟩

/-! ## Runs -/

/-- The frames that callers take out of the mailboxes have places of their own in
what has arrived. -/
theorem Throughout.exists_taken_places (link : σ) (settings : SessionSettings)
    {visits : List (Visit σ)}
    (h : Throughout (Injects inlet) visits (ofLink link settings)) :
    let session := ofLink link settings
    ∃ places : List Stream.Occurrence,
      places.map Taken.ofPlace = (session.visitAll visits).1.given ∧
        (∀ place ∈ places, place.Within settings.frame.maxBody 0
          (inlet.waiting link ++ session.arrivals inlet visits)) ∧
        places.Pairwise Stream.Apart := by
  intro session
  have hrun := h.preserves inlet
    (fun arrived report next => ∃ done filed held given,
      given.map Taken.ofPlace = report.given ∧
        Traced inlet settings.frame.maxBody (inlet.waiting link ++ arrived) done filed held given
          next) ?_ [] {} ?_
  · obtain ⟨done, filed, held, given, hgiven, htraced⟩ := hrun
    rw [List.nil_append] at htraced
    have hunder : ∀ topic, (Stream.under topic given).Sublist (Stream.under topic filed) := by
      intro topic
      obtain ⟨kept, -, hkept⟩ := htraced.boxes topic
      exact (List.sublist_append_left _ _).trans hkept
    refine ⟨given, hgiven, ?_, ?_⟩
    · intro place hmem
      apply htraced.inOrder.within
      exact List.mem_append_left _ (Stream.subset_of_under hunder hmem)
    · exact Stream.apart_of_under (List.pairwise_append.mp htraced.inOrder.ordered).1 hunder
  · rintro visit arrived report next hinjects ⟨done, filed, held, given, hgiven, htraced⟩
    obtain ⟨done', filed', held', more, hmore, hnext⟩ := htraced.visit hinjects
    refine ⟨done', filed', held', given ++ more, ?_, ?_⟩
    · rw [Report.given_append, List.map_append, hgiven, hmore]
    · rw [← List.append_assoc]
      exact hnext
  · exact ⟨[], [], [], [], rfl, by rw [List.append_nil]; exact traced_ofLink inlet link settings⟩

/-! ## What callers get -/

/-- How a hand-out is read out of the frame behind it: a frame is handed out as it
is, by a caller of its topic; a reply is read out of a frame that carries the
command, the reply marker and the status, and has its data on success. -/
def HandOut.ReadFrom : HandOut → Frame → Prop
  | .frame topic given, source => source = given ∧ Topic.ofFrame source = topic
  | .reply command given, source =>
      given.command = command ∧ ∃ data, source = Frame.reply command given.status data ∧
        given.data = if given.status = 0 then data else []

theorem readFrom_of_ofFrame {command : UInt8} {source : Frame} {given : Reply}
    (hanswers : source.answers command = true) (hreply : Reply.ofFrame source = .ok given) :
    HandOut.ReadFrom (.reply command given) source := by
  obtain ⟨hcommand, hmarker⟩ : source.command = command ∧ source.isReply = true := by
    simpa [Frame.answers] using hanswers
  unfold Reply.ofFrame at hreply
  split at hreply
  · simp at hreply
  · next status hstatus =>
      obtain rfl := Except.ok.inj hreply
      refine ⟨hcommand, source.resultData, ?_, rfl⟩
      rw [← hcommand]
      exact Frame.eq_reply_of_status hmarker hstatus

theorem HandOut.Of.readFrom {handOut : HandOut} {place : Stream.Occurrence}
    (h : handOut.Of (.ofPlace place)) : handOut.ReadFrom place.frame := by
  cases handOut with
  | frame topic given =>
      obtain ⟨htopic, hframe⟩ := Taken.mk.inj h
      exact ⟨hframe, htopic⟩
  | reply command given =>
      obtain ⟨-, hanswers, hreply⟩ := h
      exact readFrom_of_ofFrame hanswers hreply

/-- **What callers get was sent to them once**: whatever arrives on the line and
however reads fail, every hand-out is read out of a frame that stands in what has
arrived, written out and within the limit; no octet serves two hand-outs, and those
of one topic come in the order of the stream. -/
theorem exists_given_places (inlet : Inlet σ) (link : σ) (settings : SessionSettings)
    (acts : List (Act σ))
    (hinjects : Throughout (Injects inlet) (visitsOfAll acts (ofLink link settings))
      (ofLink link settings)) :
    let session := ofLink link settings
    let stream := inlet.waiting link ++ session.arrivals inlet (visitsOfAll acts session)
    ∃ places : List Stream.Occurrence,
      List.Forall₂ (fun handOut place => handOut.ReadFrom place.frame)
          (session.performAll acts).1.given places ∧
        (∀ place ∈ places, place.Within settings.frame.maxBody 0 stream) ∧
        places.Pairwise Stream.Apart := by
  intro session stream
  obtain ⟨places, hplaces, hwithin, hapart⟩ := hinjects.exists_taken_places link settings
  obtain ⟨used, hused, hgiven⟩ := (performAll_madeBy acts session).given
  rw [← hplaces, List.sublist_map_iff] at hused
  obtain ⟨chosen, hchosen, rfl⟩ := hused
  refine ⟨chosen, ?_, fun place hmem => hwithin place (hchosen.subset hmem),
    hapart.sublist hchosen⟩
  rw [List.forall₂_map_right_iff] at hgiven
  exact hgiven.imp fun _ _ => HandOut.Of.readFrom

/-- A false start swallows a key press and is abandoned; then a read fails while
the reply to a request is on the line. The caller gets the reply, and then the key
press. -/
theorem given_amid_noise :
    let octets := fun frame : Frame => wrap (frame.header ++ frame.body)
    let keyPress := Frame.reply Command.keyPress 0 [7]
    let late := Duration.ofMillis 500
    let acts : List (Act Scripted) := [
      .visit (.receiver .zero),
      .visit (.peer fun script => script.onPeer (Loopback.inject (octets keyPress))),
      .visit (.receiver .zero),
      .visit (.receiver late),
      .request 0x31 []
        [.receiver late, .peer fun script => { script with readsToFailure := 1 }, .receiver late]
        late (.ofMillis 1) [⟨late, [.receiver late, .receiver late]⟩],
      .awaitLatest .keyboard late (.ofMillis 1) []]
    let session := ofLink
      { line := { toHost := [Frame.startMark, 0x32, Frame.replyMarker, 0, 64] }
        answers := [octets (Frame.reply 0x31 0 [1, 2])] : Scripted } {}
    Throughout (Injects Scripted.inlet) (visitsOfAll acts session) session ∧
      (session.performAll acts).1.given =
        [.reply 0x31 ⟨0x31, 0, [1, 2]⟩, .frame .keyboard keyPress] ∧
      ∃ places : List Stream.Occurrence,
        List.Forall₂ (fun handOut place => handOut.ReadFrom place.frame)
            (session.performAll acts).1.given places ∧
          (∀ place ∈ places, place.Within Frame.maxBody 0
            (session.link.line.toHost ++
              session.arrivals Scripted.inlet (visitsOfAll acts session))) ∧
          places.Pairwise Stream.Apart := by
  intro octets keyPress late acts session
  have hinjects : Throughout (Injects Scripted.inlet) (visitsOfAll acts session) session := by
    decide +kernel
  refine ⟨hinjects, ?_, ?_⟩
  · decide +kernel
  · exact exists_given_places Scripted.inlet session.link {} acts hinjects

end Session

end PeripheralHost
