import PeripheralHost.Proofs.PollRuns
import PeripheralHost.Session.Exchange

/-!
# What is on its way to a mailbox

Between the controller and a caller the octets of an answer pass through many
hands. Some the controller still owes, some wait on the line, some are the start
of a frame that the assembler holds, some are frames the receiver has in hand,
and the rest are frames in a mailbox. All of it together decides which frames a
mailbox will have given out in the end, and this module counts it together:
`Session.due` is the content of a mailbox, and behind it the frames on their way
to it.

A visit of the receiver moves octets and frames from one hand to the next and
changes nothing in `due` (`Session.Steady.advance`), and neither does the
controller when it puts a part of what it owes on the line. This holds however
the octets are cut and whatever the link says is available, as long as no read
fails, no frame is overdue, and no mailbox is full. A request adds the frames of
its answer at the back, and a look takes frames out in front.

## Main results

* `Line.drain` — draining a link that works loses no octet.
* `Session.Steady.advance`, `Session.Steady.moveAll` — what others do changes
  nothing in what is due.
* `Session.Steady.sendRequest` — a request adds the frames of its answer.
* `Session.Steady.look` — a look takes frames out in front.
-/

namespace PeripheralHost

/-! ## A link that works -/

/-- A view of links in which every write is accepted whole and no read fails,
together with the octets that wait on the line. -/
structure Line (σ : Type) [Link σ] where
  /-- The states in which the link works. -/
  works : σ → Prop
  /-- The octets on the line that the host has yet to read, oldest first. -/
  waiting : σ → Bytes
  isOpen : ∀ {link : σ}, works link → Link.isOpen link = true
  available : ∀ {link : σ}, works link →
    works (Link.available link).2 ∧ waiting (Link.available link).2 = waiting link
  read : ∀ {link : σ} (want : Nat), works link → ∃ got next,
    Link.read want link = (.ok got, next) ∧ works next ∧ waiting link = got ++ waiting next
  write : ∀ {link : σ} (bytes : Bytes), works link → ∃ next,
    Link.write bytes link = (.ok bytes.length, next) ∧ works next

variable {σ : Type} [Link σ]

theorem Line.of_read (line : Line σ) {want : Nat} {link next : σ} {answer : Except LinkError Bytes}
    (hworks : line.works link) (hread : Link.read want link = (answer, next)) :
    ∃ got, answer = .ok got ∧ line.works next ∧ line.waiting link = got ++ line.waiting next := by
  obtain ⟨got, after, hgot, hafter, hwaiting⟩ := line.read want hworks
  rw [hread, Prod.mk.injEq] at hgot
  obtain ⟨rfl, rfl⟩ := hgot
  exact ⟨got, rfl, hafter, hwaiting⟩

/-- Draining never fails, and takes the octets in the order in which they wait. -/
theorem Line.drain (line : Line σ) (chunk available : Nat) (link : σ) (taken : List Bytes)
    (hworks : line.works link) :
    let haul := PeripheralHost.drain chunk available link taken
    haul.fault = none ∧ line.works haul.link ∧
      haul.pieces.flatten ++ line.waiting haul.link =
        taken.reverse.flatten ++ line.waiting link := by
  fun_induction PeripheralHost.drain chunk available link taken with
  | case1 available link taken hmore fault next hread =>
      obtain ⟨got, hgot, -⟩ := line.of_read hworks hread
      simp at hgot
  | case2 available link taken hmore next hread =>
      obtain ⟨got, hgot, hnext, hwaiting⟩ := line.of_read hworks hread
      cases hgot
      exact ⟨rfl, hnext, by rw [hwaiting]; rfl⟩
  | case3 available link taken hmore b rest next hread ih =>
      obtain ⟨got, hgot, hnext, hwaiting⟩ := line.of_read hworks hread
      cases hgot
      obtain ⟨hfault, hlast, hpieces⟩ := ih hnext
      refine ⟨hfault, hlast, ?_⟩
      rw [hpieces, hwaiting]
      simp
  | case4 available link taken hmore => exact ⟨rfl, hworks, rfl⟩

namespace Scripted

/-- A script in which no write and no read goes wrong. It may still report what
is available wrongly and limit what a read returns. -/
def Faultless (script : Scripted) : Prop :=
  script.unplugged = false ∧ script.readsToFailure = 0 ∧ script.failWrite = false ∧
    script.writeClaim = none ∧ script.line.closed = false ∧ script.line.faultPending = false ∧
    script.line.writeLimit = none

instance (script : Scripted) : Decidable script.Faultless :=
  inferInstanceAs (Decidable (_ ∧ _))

/-- Scripted links without faults. -/
def faultless : Line Scripted where
  works := Faultless
  waiting script := script.line.toHost
  isOpen := by
    rintro script ⟨hplugged, -, -, -, hopen, -, -⟩
    show (!script.unplugged && !script.line.closed) = true
    rw [hplugged, hopen]
    rfl
  available := by
    rintro ⟨⟨toHost, toPeer, writeLimit, faultPending, closed⟩, reports⟩
      ⟨rfl, rfl, rfl, rfl, rfl, rfl, rfl⟩
    cases reports with
    | nil => exact ⟨⟨rfl, rfl, rfl, rfl, rfl, rfl, rfl⟩, rfl⟩
    | cons report reports => exact ⟨⟨rfl, rfl, rfl, rfl, rfl, rfl, rfl⟩, rfl⟩
  read := by
    rintro ⟨⟨toHost, toPeer, writeLimit, faultPending, closed⟩, reports⟩ want
      ⟨rfl, rfl, rfl, rfl, rfl, rfl, rfl⟩
    exact ⟨_, _, rfl, ⟨rfl, rfl, rfl, rfl, rfl, rfl, rfl⟩, (List.take_append_drop _ _).symm⟩
  write := by
    rintro ⟨⟨toHost, toPeer, writeLimit, faultPending, closed⟩, reports⟩ bytes
      ⟨rfl, rfl, rfl, rfl, rfl, rfl, rfl⟩
    exact ⟨_, rfl, ⟨rfl, rfl, rfl, rfl, rfl, rfl, rfl⟩⟩

instance : DecidablePred faultless.works := fun script =>
  inferInstanceAs (Decidable script.Faultless)

end Scripted

/-! ## Filing -/

theorem Mailbox.push_of_unlimited {box : Mailbox} (frame : Frame) (h : box.capacity = 0) :
    box.push frame = (none, { box with frames := box.frames ++ [frame] }) := by
  simp [push, isFull, h]

/-- Filing a frame appends it to the mailbox of its topic. -/
theorem Mailroom.box_file {room : Mailroom} (frame : Frame) (topic : Topic)
    (h : ∀ topic, (room.box topic).capacity = 0) :
    (room.file frame).2.box topic =
      { room.box topic with
        frames := (room.box topic).frames ++ [frame].filter (Topic.ofFrame · = topic) } := by
  by_cases htopic : Topic.ofFrame frame = topic
  · subst htopic
    simp only [file, onBox, Mailbox.push_of_unlimited frame (h _), box_replace_self]
    simp
  · simp only [file]
    rw [box_onBox_ne _ _ (Ne.symm htopic)]
    simp [htopic]

namespace Session

/-! ## What is due -/

/-- The octets of frames that the receiver has not taken in yet: those it has
begun with, those on the line, and those the controller owes. -/
def inbound (line : Line σ) (owed : Bytes) (session : Session σ) : Bytes :=
  session.intake.assembler.pending ++ (line.waiting session.link ++ owed)

/-- The frames a mailbox holds, and behind them those on their way to it. -/
def due (line : Line σ) (owed : Bytes) (session : Session σ) (topic : Topic) : List Frame :=
  (session.mailroom.box topic).frames ++
    (session.inHand ++ Outcome.frames
      (Stream.scan session.intake.assembler.limit (session.inbound line owed)).1).filter
        (Topic.ofFrame · = topic)

/-- What is due from the first answer to `command` on. -/
def answersDue (line : Line σ) (owed : Bytes) (command : UInt8) (session : Session σ) :
    List Frame :=
  (session.due line owed (Topic.ofCommand command)).dropWhile fun frame => !frame.answers command

/-- A session in the middle of its work: it runs, its link works, whole frames
are on their way to it, and no mailbox gives anything up. -/
structure Steady (line : Line σ) (limit : Nat) (owed : Bytes) (session : Session σ) : Prop where
  running : session.stopped = false
  works : line.works session.link
  limited : session.intake.assembler.limit = limit
  resumable : session.intake.assembler.Resumable
  whole : (Stream.scan limit (session.inbound line owed)).2 = []
  unlimited : ∀ topic, (session.mailroom.box topic).capacity = 0

variable {line : Line σ} {limit : Nat} {owed : Bytes} {session : Session σ}

theorem inbound_ofLink {link : σ} (settings : SessionSettings) (hwaiting : line.waiting link = []) :
    (ofLink link settings).inbound line [] = [] := by
  show [] ++ (line.waiting link ++ []) = []
  rw [hwaiting]
  rfl

theorem steady_ofLink {link : σ} {settings : SessionSettings} (hworks : line.works link)
    (hwaiting : line.waiting link = []) (hcapacity : settings.queueCapacity = 0) :
    Steady line settings.frame.maxBody [] (ofLink link settings) where
  running := rfl
  works := hworks
  limited := rfl
  resumable := Assembler.resumable_new _
  whole := by rw [inbound_ofLink settings hwaiting, Stream.scan]
  unlimited := by
    intro topic
    show ((Mailroom.ofCapacity settings.queueCapacity.toNat).box topic).capacity = 0
    rw [hcapacity]
    cases topic <;> rfl

theorem due_ofLink {link : σ} (settings : SessionSettings) (hwaiting : line.waiting link = [])
    (topic : Topic) : (ofLink link settings).due line [] topic = [] := by
  rw [due, inbound_ofLink settings hwaiting, Stream.scan]
  cases topic <;> rfl

/-- Nothing is owed, all octets are read off the line, and all frames filed. -/
def Received (line : Line σ) (owed : Bytes) (session : Session σ) : Prop :=
  owed = [] ∧ line.waiting session.link = [] ∧ session.inHand = []

instance (line : Line σ) (owed : Bytes) (session : Session σ) :
    Decidable (session.Received line owed) :=
  inferInstanceAs (Decidable (_ ∧ _))

/-- When all is received, nothing is on its way to a mailbox. -/
theorem Steady.due_of_received (hsteady : session.Steady line limit owed)
    (hreceived : session.Received line owed) (topic : Topic) :
    session.due line owed topic = (session.mailroom.box topic).frames := by
  obtain ⟨rfl, hwaiting, hinHand⟩ := hreceived
  have hscan := Stage.drive_idle_eq_scan session.intake.assembler.limit
    session.intake.assembler.pending
  rw [show Stage.drive _ _ session.intake.assembler.pending [] = _ from hsteady.resumable] at hscan
  rw [due, inbound, hwaiting, hinHand, List.append_nil, List.append_nil, ← hscan]
  simp

/-- A step behind which the session is steady and the same frames are due; the
controller owes `owed` before it and `left` behind it. -/
structure Preserved (line : Line σ) (limit : Nat) (owed left : Bytes)
    (session next : Session σ) : Prop where
  steady : next.Steady line limit left
  due : ∀ topic, next.due line left topic = session.due line owed topic

theorem Preserved.trans {left last : Bytes} {next final : Session σ}
    (hfirst : Preserved line limit owed left session next)
    (hsecond : Preserved line limit left last next final) :
    Preserved line limit owed last session final where
  steady := hsecond.steady
  due topic := (hsecond.due topic).trans (hfirst.due topic)

theorem Preserved.answersDue {left : Bytes} {next : Session σ}
    (h : Preserved line limit owed left session next) (command : UInt8) :
    next.answersDue line left command = session.answersDue line owed command := by
  rw [Session.answersDue, Session.answersDue, h.due]

/-! ## The visits of the receiver -/

theorem advance_of_inHand {frame : Frame} {inHand : List Frame} (now : Duration)
    (hinHand : session.inHand = frame :: inHand) :
    (session.advance now).2 =
      { session with inHand, mailroom := (session.mailroom.file frame).2 } := by
  simp [advance, fileNext, hinHand]

theorem advance_of_empty (now : Duration) (hinHand : session.inHand = [])
    (hrunning : session.stopped = false) :
    (session.advance now).2 = (session.poll now).2 := by
  simp [advance, fileNext, hinHand, hrunning]

theorem Steady.file (hsteady : session.Steady line limit owed) {frame : Frame}
    {inHand : List Frame} (hinHand : session.inHand = frame :: inHand) :
    Preserved line limit owed owed session
      { session with inHand, mailroom := (session.mailroom.file frame).2 } := by
  have hbox := fun topic => Mailroom.box_file frame topic hsteady.unlimited
  constructor
  · refine { hsteady with unlimited := ?_ }
    intro topic
    show (((session.mailroom.file frame).2.box topic).capacity) = 0
    rw [hbox topic]
    exact hsteady.unlimited topic
  · intro topic
    have hdue : session.due line owed topic = (session.mailroom.box topic).frames ++
        ([frame] ++ (inHand ++ Outcome.frames
          (Stream.scan session.intake.assembler.limit (session.inbound line owed)).1)).filter
            (Topic.ofFrame · = topic) := by
      rw [due, hinHand]
      rfl
    rw [hdue, List.filter_append, ← List.append_assoc, due, hbox topic]
    rfl

/-- Another link on which the same octets are on their way changes nothing. -/
theorem Steady.relink (hsteady : session.Steady line limit owed) {link : σ} {left : Bytes}
    (hworks : line.works link)
    (hsame : line.waiting link ++ left = line.waiting session.link ++ owed) :
    Preserved line limit owed left session { session with link } := by
  have hinbound : inbound line left { session with link } = session.inbound line owed :=
    congrArg (session.intake.assembler.pending ++ ·) hsame
  constructor
  · exact { hsteady with works := hworks, whole := by rw [hinbound]; exact hsteady.whole }
  · intro topic
    rw [due, due, hinbound]

/-- A poll that neither fails nor finds a frame overdue feeds what it drained. -/
theorem exists_poll {now : Duration} {available : Nat} {opened : σ}
    (havailable : Link.available session.link = (.ok available, opened))
    (hfault : (drain session.intake.limits.chunk available opened []).fault = none)
    (hcalm : session.intake.overdue now = false) :
    let haul := drain session.intake.limits.chunk available opened []
    let fed := Assembler.feed haul.pieces.flatten session.intake.assembler
    ∃ intake : Intake, intake.assembler = fed.2 ∧
      (session.poll now).2 =
        { session with
          link := haul.link, intake, inHand := session.inHand ++ Outcome.frames fed.1 } := by
  intro haul fed
  have hcalls : session.intake.calls now session.link = haul.pieces.map .feed := by
    simp [Intake.calls, havailable, hcalm, haul]
  have hpoll := @Intake.poll_of_available σ _ now session.intake session.link _ _ havailable
  simp only [hcalls, hfault, Assembler.perform_feed, Assembler.feedAll_eq_feed] at hpoll
  refine ⟨(session.intake.poll now session.link).2.1, ?_, ?_⟩
  · rw [hpoll]
    rfl
  · rw [Session.poll, hpoll]

/-- A poll of a link that works takes in the frames that the octets it reads
complete, and keeps the start of the next. -/
theorem Steady.poll (hsteady : session.Steady line limit owed) {now : Duration}
    (hinHand : session.inHand = []) (hcalm : session.intake.overdue now = false) :
    Preserved line limit owed owed session (session.poll now).2 := by
  obtain ⟨hopened, hwaiting⟩ := line.available hsteady.works
  match havailable : Link.available session.link with
  | (.error fault, opened) =>
      rw [havailable] at hopened hwaiting
      have hnext : (session.poll now).2 = { session with link := opened } := by
        simp only [Session.poll, Intake.poll_unavailable havailable, List.append_nil]
      rw [hnext]
      exact hsteady.relink hopened (by rw [← hwaiting])
  | (.ok available, opened) =>
      rw [havailable] at hopened hwaiting
      obtain ⟨hfault, hworks, hpieces⟩ :=
        line.drain session.intake.limits.chunk available opened [] hopened
      obtain ⟨intake, hassembler, hnext⟩ := exists_poll havailable hfault hcalm
      rw [hinHand, List.nil_append] at hnext
      generalize (session.poll now).2 = next at hnext ⊢
      generalize drain session.intake.limits.chunk available opened [] = haul at *
      have hinbound : session.inbound line owed = session.intake.assembler.pending ++
          haul.pieces.flatten ++ (line.waiting haul.link ++ owed) := by
        rw [inbound, ← hwaiting, List.append_assoc, ← List.append_assoc haul.pieces.flatten,
          hpieces]
        rfl
      have hfed := hsteady.resumable.feed_eq_scan haul.pieces.flatten
      have hresumable := hsteady.resumable.feed haul.pieces.flatten
      have hlimited := Assembler.limit_feed haul.pieces.flatten session.intake.assembler
      generalize Assembler.feed haul.pieces.flatten session.intake.assembler = fed at *
      rw [hsteady.limited] at hfed hlimited
      -- What the poll took in and what it left are the two parts of one scan.
      have hscan : Stream.scan limit (session.inbound line owed) =
          (fed.1 ++ (Stream.scan limit (next.inbound line owed)).1,
            (Stream.scan limit (next.inbound line owed)).2) := by
        rw [hinbound, Stream.scan_append, ← hfed, inbound, hnext, ← hassembler]
      constructor
      · have hwhole := hsteady.whole
        rw [hscan] at hwhole
        rw [hnext] at hwhole ⊢
        rw [← hassembler] at hresumable hlimited
        exact { hsteady with
          works := hworks, limited := hlimited, resumable := hresumable, whole := hwhole }
      · intro topic
        rw [due, due, hsteady.limited, hscan, hinHand, List.nil_append, Outcome.frames_append,
          hnext, hassembler, hlimited]

theorem Steady.advance (hsteady : session.Steady line limit owed) {now : Duration}
    (hcalm : session.inHand = [] → session.intake.overdue now = false) :
    Preserved line limit owed owed session (session.advance now).2 := by
  cases hinHand : session.inHand with
  | nil =>
      rw [advance_of_empty now hinHand hsteady.running]
      exact hsteady.poll hinHand (hcalm hinHand)
  | cons frame inHand =>
      rw [advance_of_inHand now hinHand]
      exact hsteady.file hinHand

/-! ## The moves of others -/

/-- While others make these moves, no frame in progress becomes overdue, and the
controller leaves the link in order and puts nothing on the line but what it
owes, in order; it owes `owed` before these moves and `left` behind them. -/
def Calm (line : Line σ) : List (Move σ) → Session σ → Bytes → Bytes → Prop
  | [], _, owed, left => left = owed
  | .receiver now :: moves, session, owed, left =>
      (session.inHand = [] → session.intake.overdue now = false) ∧
        Calm line moves (session.advance now).2 owed left
  | .peer act :: moves, session, owed, left =>
      line.works (act session.link) ∧ ∃ sent rest, owed = sent ++ rest ∧
        line.waiting (act session.link) = line.waiting session.link ++ sent ∧
          Calm line moves { session with link := act session.link } rest left

theorem Steady.moveAll {moves : List (Move σ)} {left : Bytes}
    (hsteady : session.Steady line limit owed) (hcalm : Calm line moves session owed left) :
    Preserved line limit owed left session (session.moveAll moves).2 := by
  induction moves generalizing session owed with
  | nil =>
      obtain rfl : left = owed := hcalm
      exact ⟨hsteady, fun _ => rfl⟩
  | cons move moves ih =>
      cases move with
      | receiver now =>
          obtain ⟨hvisit, hcalm⟩ := hcalm
          have hfirst := hsteady.advance hvisit
          exact hfirst.trans (ih hfirst.steady hcalm)
      | peer act =>
          obtain ⟨hworks, sent, rest, rfl, hwaiting, hcalm⟩ := hcalm
          have hfirst := hsteady.relink hworks (by rw [hwaiting, List.append_assoc])
          exact hfirst.trans (ih hfirst.steady hcalm)

/-! ## The acts of a caller -/

/-- A request within the limit is written, and nothing else changes. -/
theorem Steady.exists_sendRequest (hsteady : session.Steady line limit owed) (command : UInt8)
    {params : Bytes} (hparams : params.length ≤ Frame.maxBody) :
    ∃ sender link, session.sendRequest command params =
      (.ok (), { session with sender, link }) ∧ line.works link := by
  obtain ⟨written, hwritten⟩ : ∃ written, (Frame.request command params).encode = .ok written :=
    ⟨_, Frame.encode_eq_ok_iff.mpr ⟨hparams, rfl⟩⟩
  obtain ⟨link, hwrite, hworks⟩ := line.write written hsteady.works
  refine ⟨{ buffer := written }, link, ?_, hworks⟩
  simp [sendRequest, transmit, transmitNow, hsteady.running, Sender.sendRequest,
    encodeRequest_eq hparams, hwritten, Sender.transmit, appendTo, Sender.flush,
    line.isOpen hsteady.works, hwrite]

/-- A request adds the frames of its answer behind everything that was due. -/
theorem Steady.sendRequest (hsteady : session.Steady line limit owed) {command : UInt8}
    {params : Bytes} (hparams : params.length ≤ Frame.maxBody) {frames : List Frame}
    {pieces : List Bytes} (hlimit : ∀ frame ∈ frames, frame.body.length ≤ limit)
    (hpieces : frames.map Frame.encode = pieces.map .ok) {left : Bytes}
    (hanswer : line.waiting (session.sendRequest command params).2.link ++ left =
      line.waiting session.link ++ owed ++ pieces.flatten) :
    let next := (session.sendRequest command params).2
    next.Steady line limit left ∧ ∀ topic, next.due line left topic =
      session.due line owed topic ++ frames.filter (Topic.ofFrame · = topic) := by
  intro next
  obtain ⟨sender, link, hsent, hworks⟩ := hsteady.exists_sendRequest command hparams
  have hnext : next = { session with sender, link } := by
    simp only [next, hsent]
  have hinbound : next.inbound line left = session.inbound line owed ++ pieces.flatten := by
    rw [hsent] at hanswer
    rw [hnext, inbound, inbound, List.append_assoc _ _ pieces.flatten, ← hanswer]
  -- Nothing was left in the middle, so the answer is scanned from its beginning.
  have hscan : Stream.scan limit (next.inbound line left) =
      ((Stream.scan limit (session.inbound line owed)).1 ++ frames.map .ok, []) := by
    rw [hinbound, Stream.scan_append, hsteady.whole, List.nil_append,
      Stream.scan_flatten hlimit hpieces]
  constructor
  · have hwhole : (Stream.scan limit (next.inbound line left)).2 = [] := by rw [hscan]
    rw [hnext] at hwhole ⊢
    exact { hsteady with works := hworks, whole := hwhole }
  · intro topic
    have hlimited : next.intake.assembler.limit = limit := by
      rw [hnext]
      exact hsteady.limited
    rw [due, due, hlimited, hscan, hsteady.limited, Outcome.frames_append, Outcome.frames_map_ok,
      ← List.append_assoc, List.filter_append, ← List.append_assoc, hnext]

omit [Link σ] in
/-- A look in vain leaves its mailbox empty. -/
theorem frames_look_of_missing {command : UInt8} (h : (session.look command).1.found = none) :
    ((session.look command).2.mailroom.box (Topic.ofCommand command)).frames = [] := by
  have hrest : (session.mailroom.box (Topic.ofCommand command)).frames.dropWhile
      (fun frame => !frame.answers command) = [] := List.head?_eq_none_iff.mp h
  show ((session.mailroom.replace _ _).box _).frames = []
  rw [Mailroom.box_replace_self]
  exact congrArg List.tail hrest

/-- A look takes frames out of what is due in front: those ahead of the first
answer in the mailbox, and the answer itself. -/
theorem Steady.look (hsteady : session.Steady line limit owed) (command : UInt8) :
    let found := (session.look command).1.found
    let next := (session.look command).2
    let topic := Topic.ofCommand command
    next.Steady line limit owed ∧
      (∀ other ≠ topic, next.due line owed other = session.due line owed other) ∧
      session.answersDue line owed command =
        match found with
        | some frame => frame :: next.due line owed topic
        | none => next.answersDue line owed command := by
  intro found next topic
  have hbox : next.mailroom.box topic =
      ((session.mailroom.box topic).search command).2 := Mailroom.box_replace_self _ _ _
  have hother : ∀ other ≠ topic, next.mailroom.box other = session.mailroom.box other :=
    fun other hne => Mailroom.box_replace_ne _ _ hne
  refine ⟨?_, ?_, ?_⟩
  · refine { hsteady with unlimited := ?_ }
    intro other
    by_cases htopic : other = topic
    · subst htopic
      rw [hbox]
      exact hsteady.unlimited topic
    · rw [hother other htopic]
      exact hsteady.unlimited other
  · intro other hne
    rw [due, due, hother other hne]
    rfl
  · set rest := (session.mailroom.box topic).frames.dropWhile
      (fun frame => !frame.answers command) with hrest
    have hfound : found = rest.head? := rfl
    have hleft : (((session.mailroom.box topic).search command).2).frames = rest.tail := rfl
    rw [answersDue, answersDue, due, due, List.dropWhile_append, hbox, hfound, hleft, ← hrest]
    cases rest with
    | nil => rfl
    | cons frame rest => rfl

end Session

end PeripheralHost
