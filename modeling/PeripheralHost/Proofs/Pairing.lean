import PeripheralHost.Proofs.Deliveries

/-!
# Every request gets its own reply

A caller makes requests one after the other. The controller answers each with a
row of frames, of which one is the reply. The others are whatever it likes to
send: the echo of the request, an event, the reply to a command nobody asks
about. They may stand ahead of the reply or behind it, and those behind it may
still be on their way when the caller makes its next request, or lie in the
mailbox into which the next reply will be filed.

The caller is not misled (`Session.inquireAll_eq`). Between two requests nothing
that is due answers any of the commands asked about (`Session.Quiet`), so behind
a write the first frame due that answers the command is the reply to it. Looks
take frames out in front of it, visits of the receiver change nothing in what is
due, and a wait in which everything is received in time comes to the reply.

## Main results

* `Session.Steady.awaitReply` — a wait in time ends with the first answer due.
* `Session.Steady.inquire` — one request among quiet mailboxes.
* `Session.inquireAll_eq` — every request of a row gets its own reply.
-/

namespace PeripheralHost

namespace Session

variable {σ : Type} [Link σ] {line : Line σ} {limit : Nat} {owed : Bytes} {session : Session σ}

/-! ## Waiting in time -/

/-- While a caller waits, the moves of others are calm, and everything is
received before the deadline: a look in vain finds all received, or the clock
ahead of the deadline and another round to come. The controller owes `owed`
before the wait and `left` behind it. -/
def InTime (line : Line σ) (command : UInt8) (deadline : Duration) :
    List (Round σ) → Session σ → Bytes → Bytes → Prop
  | [], session, owed, left =>
      left = owed ∧
        ((session.look command).1.found = none → (session.look command).2.Received line owed)
  | round :: later, session, owed, left =>
      ((session.look command).1.found ≠ none → left = owed) ∧
        ((session.look command).1.found = none →
          (session.look command).2.Received line owed ∨
            (¬ deadline ≤ round.reading ∧ ∃ between,
              Calm line round.moves (session.look command).2 owed between ∧
                InTime line command deadline later
                  ((session.look command).2.moveAll round.moves).2 between left))

theorem awaitReply_of_found (session : Session σ) {command : UInt8} (start budget : Duration)
    (rounds : List (Round σ)) {frame : Frame}
    (hfound : (session.look command).1.found = some frame) :
    let wait := session.awaitReply command start budget rounds
    wait.answer = Reply.ofFrame frame ∧ wait.session = (session.look command).2 := by
  intro wait
  simp only [wait]
  unfold awaitReply
  split
  · next skipped taken next hlook =>
      rw [hlook] at hfound ⊢
      obtain rfl := Option.some.inj hfound
      exact ⟨rfl, rfl⟩
  · next skipped next hlook =>
      rw [hlook] at hfound
      simp at hfound

theorem awaitReply_of_missing (session : Session σ) {command : UInt8} {start budget : Duration}
    {round : Round σ} (later : List (Round σ)) (hfound : (session.look command).1.found = none)
    (hreading : ¬ start + budget ≤ round.reading) :
    let wait := session.awaitReply command start budget (round :: later)
    let rest :=
      ((session.look command).2.moveAll round.moves).2.awaitReply command start budget later
    wait.answer = rest.answer ∧ wait.session = rest.session := by
  intro wait rest
  simp only [wait, rest]
  rw [awaitReply]
  split
  · next skipped taken next hlook =>
      rw [hlook] at hfound
      simp at hfound
  · next skipped next hlook =>
      simp only [hlook, hreading, if_false]
      trivial

/-- As long as an answer is due, a look in vain cannot find all received. -/
theorem Steady.not_received_of_missing {command : UInt8} {frame : Frame} {behind : List Frame}
    (hsteady : session.Steady line limit owed)
    (hdue : session.answersDue line owed command = frame :: behind)
    (hfound : (session.look command).1.found = none) :
    ¬ (session.look command).2.Received line owed := by
  intro hreceived
  obtain ⟨hnext, -, htaken⟩ := hsteady.look command
  rw [hdue, hfound, answersDue, hnext.due_of_received hreceived,
    frames_look_of_missing hfound] at htaken
  simp at htaken

theorem Steady.awaitReply_of_found {command : UInt8} {start budget : Duration}
    {rounds : List (Round σ)} {frame taken : Frame} {behind : List Frame}
    (hsteady : session.Steady line limit owed)
    (hdue : session.answersDue line owed command = frame :: behind)
    (hfound : (session.look command).1.found = some taken) :
    let wait := session.awaitReply command start budget rounds
    wait.answer = Reply.ofFrame frame ∧ wait.session.Steady line limit owed ∧
      wait.session.due line owed (Topic.ofCommand command) = behind ∧
      ∀ other ≠ Topic.ofCommand command,
        wait.session.due line owed other = session.due line owed other := by
  intro wait
  obtain ⟨hnext, hother, htaken⟩ := hsteady.look command
  rw [hdue, hfound] at htaken
  obtain ⟨rfl, rfl⟩ := List.cons.inj htaken
  obtain ⟨hanswer, hsession⟩ := session.awaitReply_of_found start budget rounds hfound
  rw [← hsession] at hnext hother
  exact ⟨hanswer, hnext, by rw [← hsession], hother⟩

/-- A wait in time ends with the first answer due, and takes from what is due
that answer and what is ahead of it. -/
theorem Steady.awaitReply {command : UInt8} {start budget : Duration} {rounds : List (Round σ)}
    {frame : Frame} {behind : List Frame} {left : Bytes}
    (hsteady : session.Steady line limit owed)
    (hdue : session.answersDue line owed command = frame :: behind)
    (hintime : InTime line command (start + budget) rounds session owed left) :
    let wait := session.awaitReply command start budget rounds
    wait.answer = Reply.ofFrame frame ∧ wait.session.Steady line limit left ∧
      wait.session.due line left (Topic.ofCommand command) = behind ∧
      ∀ other ≠ Topic.ofCommand command,
        wait.session.due line left other = session.due line owed other := by
  intro wait
  induction rounds generalizing session owed with
  | nil =>
      obtain ⟨rfl, hreceived⟩ := hintime
      cases hfound : (session.look command).1.found with
      | none => exact absurd (hreceived hfound) (hsteady.not_received_of_missing hdue hfound)
      | some taken => exact hsteady.awaitReply_of_found hdue hfound
  | cons round later ih =>
      obtain ⟨hserved, hmissed⟩ := hintime
      cases hfound : (session.look command).1.found with
      | none =>
          obtain ⟨hreading, between, hcalm, hlater⟩ :=
            (hmissed hfound).resolve_left (hsteady.not_received_of_missing hdue hfound)
          obtain ⟨hnext, hother, htaken⟩ := hsteady.look command
          have hmoved := hnext.moveAll hcalm
          rw [hdue, hfound, ← hmoved.answersDue] at htaken
          obtain ⟨hreply, hafter, hbehind, hrest⟩ := ih hmoved.steady htaken.symm hlater
          obtain ⟨hanswer, hsession⟩ := session.awaitReply_of_missing later hfound hreading
          simp only [wait, hsession]
          refine ⟨hanswer.trans hreply, hafter, hbehind, ?_⟩
          intro other hne
          rw [hrest other hne, hmoved.due, hother other hne]
      | some taken =>
          obtain rfl := hserved (by simp [hfound])
          exact hsteady.awaitReply_of_found hdue hfound

/-! ## One request -/

/-- A request, what others do meanwhile, and what the controller answers. -/
structure Inquiry (σ : Type) where
  /-- What others do ahead of the request. -/
  idle : List (Move σ)
  /-- The command asked about. -/
  command : UInt8
  /-- The parameters of the request. -/
  params : Bytes
  /-- What others do between the write and the first look. -/
  sent : List (Move σ)
  /-- The clock when the wait starts. -/
  start : Duration
  /-- How long the caller is ready to wait. -/
  budget : Duration
  /-- What lies between two looks. -/
  rounds : List (Round σ)
  /-- The frames the controller sends ahead of the reply. -/
  before : List Frame
  /-- The status of the reply. -/
  status : Int32
  /-- The data of the reply. -/
  data : Bytes
  /-- The frames the controller sends behind the reply. -/
  after : List Frame

namespace Inquiry

/-- The frames of the controller's answer, in order. -/
def frames (inquiry : Inquiry σ) : List Frame :=
  inquiry.before ++ Frame.reply inquiry.command inquiry.status inquiry.data :: inquiry.after

/-- What the caller should get. -/
def reply (inquiry : Inquiry σ) : Reply :=
  ⟨inquiry.command, inquiry.status, if inquiry.status = 0 then inquiry.data else []⟩

omit [Link σ] in
theorem answers_reply (inquiry : Inquiry σ) :
    (Frame.reply inquiry.command inquiry.status inquiry.data).answers inquiry.command = true := by
  simp [Frame.answers, Frame.reply, Frame.isReply]

omit [Link σ] in
/-- If nothing ahead of it answers the command, the reply is the first answer
among the frames of its topic. -/
theorem dropWhile_frames (inquiry : Inquiry σ) {earlier : List Frame}
    (hearlier : ∀ frame ∈ earlier, frame.answers inquiry.command = false)
    (hbefore : ∀ frame ∈ inquiry.before, frame.answers inquiry.command = false) :
    (earlier ++ inquiry.frames.filter (Topic.ofFrame · = Topic.ofCommand inquiry.command)).dropWhile
        (fun frame => !frame.answers inquiry.command) =
      Frame.reply inquiry.command inquiry.status inquiry.data ::
        inquiry.after.filter (Topic.ofFrame · = Topic.ofCommand inquiry.command) := by
  have hreply := inquiry.answers_reply
  have htopic := Topic.ofFrame_eq_of_answers hreply
  rw [frames, List.filter_append, List.filter_cons_of_pos (by simp [htopic]), ← List.append_assoc,
    List.dropWhile_append_of_pos, List.dropWhile_cons_of_neg (by simp [hreply])]
  intro frame hmem
  rw [List.mem_append, List.mem_filter] at hmem
  rcases hmem with hmem | ⟨hmem, -⟩
  · simp [hearlier frame hmem]
  · simp [hbefore frame hmem]

end Inquiry

/-- Makes a request. -/
def inquire (inquiry : Inquiry σ) (session : Session σ) : Exchange σ Reply :=
  (session.moveAll inquiry.idle).2.request inquiry.command inquiry.params inquiry.sent inquiry.start
    inquiry.budget inquiry.rounds

/-- The controller answers the write of the request by the frames of the
inquiry, written one behind the other, and all is received in time. It owes
`owed` before the inquiry and `left` behind it; the write adds the answer to
what it owes, and it may put a part of that on the line at once. -/
def Answered (line : Line σ) (inquiry : Inquiry σ) (session : Session σ) (owed left : Bytes) :
    Prop :=
  let ready := (session.moveAll inquiry.idle).2
  let written := (ready.sendRequest inquiry.command inquiry.params).2
  ∃ (before behind waiting : Bytes) (pieces : List Bytes),
    Calm line inquiry.idle session owed before ∧
      inquiry.frames.map Frame.encode = pieces.map .ok ∧
      (∃ sent, before ++ pieces.flatten = sent ++ behind ∧
        line.waiting written.link = line.waiting ready.link ++ sent) ∧
      Calm line inquiry.sent written behind waiting ∧
      InTime line inquiry.command (inquiry.start + inquiry.budget) inquiry.rounds
        (written.moveAll inquiry.sent).2 waiting left

/-- Nothing that is due answers any of the commands asked about. -/
def Quiet (line : Line σ) (asked : List UInt8) (owed : Bytes) (session : Session σ) : Prop :=
  ∀ topic, ∀ frame ∈ session.due line owed topic, ∀ command ∈ asked, frame.answers command = false

theorem request_of_sent {command : UInt8} {params : Bytes} {next : Session σ}
    (sent : List (Move σ)) (start budget : Duration) (rounds : List (Round σ))
    (h : session.sendRequest command params = (.ok (), next)) :
    let exchange := session.request command params sent start budget rounds
    let wait := (next.moveAll sent).2.awaitReply command start budget rounds
    exchange.answer = wait.answer ∧ exchange.session = wait.session := by
  intro exchange wait
  simp only [exchange, wait, request, h]
  trivial

/-- Among quiet mailboxes the first answer due behind the write is the reply,
and what is due behind it is quiet again. -/
theorem Steady.inquire {asked : List UInt8} {inquiry : Inquiry σ} {left : Bytes}
    (hsteady : session.Steady line limit owed) (hquiet : session.Quiet line asked owed)
    (hasked : inquiry.command ∈ asked) (hparams : inquiry.params.length ≤ Frame.maxBody)
    (hframes : ∀ frame ∈ inquiry.frames, frame.body.length ≤ limit)
    (hothers : ∀ frame ∈ inquiry.before ++ inquiry.after,
      ∀ command ∈ asked, frame.answers command = false)
    (hanswered : Answered line inquiry session owed left) :
    let exchange := session.inquire inquiry
    exchange.answer = .ok inquiry.reply ∧ exchange.session.Steady line limit left ∧
      exchange.session.Quiet line asked left := by
  intro exchange
  obtain ⟨before, behind, waiting, pieces, hidle, hpieces, ⟨first, hpromised, hfirst⟩, hsent,
    hintime⟩ := hanswered
  have hready := hsteady.moveAll hidle
  obtain ⟨sender, link, hsend, -⟩ := hready.steady.exists_sendRequest inquiry.command hparams
  obtain ⟨hwritten, hadded⟩ := hready.steady.sendRequest hparams hframes hpieces
    (show _ ++ behind = _ by rw [hfirst, List.append_assoc, ← hpromised, List.append_assoc])
  have hwaiting := hwritten.moveAll hsent
  have hdue : ∀ topic, (((session.moveAll inquiry.idle).2.sendRequest inquiry.command
      inquiry.params).2.moveAll inquiry.sent).2.due line waiting topic =
        session.due line owed topic ++ inquiry.frames.filter (Topic.ofFrame · = topic) := by
    intro topic
    rw [hwaiting.due, hadded, hready.due]
  have hanswers := inquiry.dropWhile_frames
    (fun frame hmem => hquiet (Topic.ofCommand inquiry.command) frame hmem _ hasked)
    (fun frame hmem => hothers frame (List.mem_append_left _ hmem) _ hasked)
  rw [← hdue] at hanswers
  obtain ⟨hanswer, hafter, hbehind, hrest⟩ := hwaiting.steady.awaitReply hanswers hintime
  obtain ⟨hrequest, hsession⟩ :=
    request_of_sent inquiry.sent inquiry.start inquiry.budget inquiry.rounds hsend
  rw [hsend] at hanswer hafter hbehind hrest hdue
  rw [← hsession] at hafter hbehind hrest
  refine ⟨?_, hafter, ?_⟩
  · calc exchange.answer
        = Reply.ofFrame (Frame.reply inquiry.command inquiry.status inquiry.data) :=
          hrequest.trans hanswer
      _ = .ok inquiry.reply := Reply.ofFrame_reply _ _ _
  · intro topic frame hmem command hcommand
    by_cases htopic : topic = Topic.ofCommand inquiry.command
    · rw [htopic, show exchange.session.due line left _ = _ from hbehind, List.mem_filter] at hmem
      exact hothers frame (List.mem_append_right _ hmem.1) command hcommand
    · rw [show exchange.session.due line left topic = _ from hrest topic htopic, hdue,
        List.mem_append, List.mem_filter, decide_eq_true_eq] at hmem
      rcases hmem with hmem | ⟨hmem, hfiled⟩
      · exact hquiet topic frame hmem command hcommand
      rw [Inquiry.frames, List.mem_append, List.mem_cons] at hmem
      rcases hmem with hmem | rfl | hmem
      · exact hothers frame (List.mem_append_left _ hmem) command hcommand
      · rw [Topic.ofFrame_eq_of_answers inquiry.answers_reply] at hfiled
        exact absurd hfiled.symm htopic
      · exact hothers frame (List.mem_append_right _ hmem) command hcommand

/-! ## A row of requests -/

/-- Makes a row of requests, one after the other. -/
def inquireAll : List (Inquiry σ) → Session σ → List (Except SessionError Reply) × Session σ
  | [], session => ([], session)
  | inquiry :: inquiries, session =>
      let exchange := session.inquire inquiry
      let later := inquireAll inquiries exchange.session
      (exchange.answer :: later.1, later.2)

/-- The controller answers every request of a row, and owes `owed` before it. -/
def AllAnswered (line : Line σ) : List (Inquiry σ) → Session σ → Bytes → Prop
  | [], _, _ => True
  | inquiry :: inquiries, session, owed =>
      ∃ left, Answered line inquiry session owed left ∧
        AllAnswered line inquiries (session.inquire inquiry).session left

theorem Steady.inquireAll {asked : List UInt8} {inquiries : List (Inquiry σ)}
    (hsteady : session.Steady line limit owed) (hquiet : session.Quiet line asked owed)
    (hasked : ∀ inquiry ∈ inquiries, inquiry.command ∈ asked)
    (hparams : ∀ inquiry ∈ inquiries, inquiry.params.length ≤ Frame.maxBody)
    (hframes : ∀ inquiry ∈ inquiries, ∀ frame ∈ inquiry.frames, frame.body.length ≤ limit)
    (hothers : ∀ inquiry ∈ inquiries, ∀ frame ∈ inquiry.before ++ inquiry.after,
      ∀ command ∈ asked, frame.answers command = false)
    (hanswered : AllAnswered line inquiries session owed) :
    (session.inquireAll inquiries).1 = inquiries.map fun inquiry => .ok inquiry.reply := by
  induction inquiries generalizing session owed with
  | nil => rfl
  | cons inquiry inquiries ih =>
      rw [List.forall_mem_cons] at hasked hparams hframes hothers
      obtain ⟨left, hfirst, hlater⟩ := hanswered
      obtain ⟨hanswer, hnext, hagain⟩ :=
        hsteady.inquire hquiet hasked.1 hparams.1 hframes.1 hothers.1 hfirst
      rw [Session.inquireAll, List.map_cons, hanswer,
        ih hnext hagain hasked.2 hparams.2 hframes.2 hothers.2 hlater]

/-- **Requests and replies pair up**: over a link that works, every request of a
row gets the reply that the controller sent in answer to it, whatever else the
controller sends, whenever it does so, and however the octets are cut. -/
theorem inquireAll_eq (line : Line σ) (link : σ) (settings : SessionSettings)
    (inquiries : List (Inquiry σ)) (hworks : line.works link) (hwaiting : line.waiting link = [])
    (hcapacity : settings.queueCapacity = 0)
    (hparams : ∀ inquiry ∈ inquiries, inquiry.params.length ≤ Frame.maxBody)
    (hframes : ∀ inquiry ∈ inquiries, ∀ frame ∈ inquiry.frames,
      frame.body.length ≤ settings.frame.maxBody)
    (hothers : ∀ inquiry ∈ inquiries, ∀ frame ∈ inquiry.before ++ inquiry.after,
      frame.isReply = false ∨ ∀ other ∈ inquiries, frame.command ≠ other.command)
    (hanswered : AllAnswered line inquiries (ofLink link settings) []) :
    ((ofLink link settings).inquireAll inquiries).1 =
      inquiries.map fun inquiry => .ok inquiry.reply := by
  have hquiet : (ofLink link settings).Quiet line (inquiries.map Inquiry.command) [] := by
    intro topic frame hmem
    rw [due_ofLink settings hwaiting topic] at hmem
    simp at hmem
  refine (steady_ofLink hworks hwaiting hcapacity).inquireAll hquiet
    (fun inquiry hinquiry => List.mem_map_of_mem hinquiry) hparams hframes ?_ hanswered
  intro inquiry hinquiry frame hframe command hcommand
  obtain ⟨other, hother, rfl⟩ := List.mem_map.mp hcommand
  rcases hothers inquiry hinquiry frame hframe with hmarker | hdifferent
  · simp [Frame.answers, hmarker]
  · simp [Frame.answers, hdifferent other hother]

/-- A request whose answer has an echo ahead of the reply and a key press behind
it. Nine octets of the answer follow the write at once, and the rest follows a
look in vain. -/
def Inquiry.amidOthers (command : UInt8) (status : Int32) (data : Bytes) : Inquiry Scripted :=
  let before := [Frame.request command []]
  let after := [Frame.reply Command.keyPress 0 [7]]
  let octets := (before ++ Frame.reply command status data :: after).flatMap fun frame =>
    wrap (frame.header ++ frame.body)
  { idle := []
    command
    params := []
    sent := [.receiver .zero, .receiver .zero]
    start := .zero
    budget := .ofMillis 1
    rounds := [⟨.zero, [.peer fun script => script.onPeer (Loopback.inject (octets.drop 9)),
      .receiver .zero, .receiver .zero, .receiver .zero]⟩]
    before
    status
    data
    after }

/-- The second request finds the key press behind the first reply still unfiled. -/
theorem inquireAll_amidOthers :
    let inquiries : List (Inquiry Scripted) :=
      [.amidOthers 0x31 0 [1, 2], .amidOthers 0x31 5 []]
    let pieces := fun inquiry : Inquiry Scripted =>
      inquiry.frames.map fun frame => wrap (frame.header ++ frame.body)
    let session := ofLink
      { answers := inquiries.map fun inquiry => (pieces inquiry).flatten.take 9
        readLimit := some 5
        reports := [4] : Scripted }
      { queueCapacity := 0 }
    AllAnswered Scripted.faultless inquiries session [] ∧
      (session.inquireAll inquiries).1 = [.ok ⟨0x31, 0, [1, 2]⟩, .ok ⟨0x31, 5, []⟩] := by
  intro inquiries pieces session
  have hanswered : AllAnswered Scripted.faultless inquiries session [] := by
    let first := pieces (.amidOthers 0x31 0 [1, 2])
    let second := pieces (.amidOthers 0x31 5 [])
    refine ⟨[], ?_, [], ?_, trivial⟩
    · refine ⟨[], first.flatten.drop 9, first.flatten.drop 9, first, rfl, rfl,
        ⟨first.flatten.take 9, ?_, ?_⟩, ⟨?_, ?_, rfl⟩, ?_, fun _ => .inr ⟨?_, [],
          ⟨?_, first.flatten.drop 9, [], ?_, ?_, ?_, ?_, ?_, rfl⟩, rfl, ?_⟩⟩
      all_goals decide +kernel
    · refine ⟨[], second.flatten.drop 9, second.flatten.drop 9, second, rfl, rfl,
        ⟨second.flatten.take 9, ?_, ?_⟩, ⟨?_, ?_, rfl⟩, ?_, fun _ => .inr ⟨?_, [],
          ⟨?_, second.flatten.drop 9, [], ?_, ?_, ?_, ?_, ?_, rfl⟩, rfl, ?_⟩⟩
      all_goals decide +kernel
  refine ⟨hanswered, ?_⟩
  exact inquireAll_eq Scripted.faultless _ _ inquiries (by decide) rfl rfl (by decide) (by decide)
    (by decide) hanswered

end Session

end PeripheralHost
