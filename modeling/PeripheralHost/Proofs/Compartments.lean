import PeripheralHost.Proofs.Accesses
import PeripheralHost.Proofs.Pairing

/-!
# Five mailboxes that do not see each other

A mailroom is used through its mailboxes alone. Filing a frame is an access to the
mailbox of its topic, and every other access names its mailbox, so each access has
one topic and does there what it would do to that mailbox on its own
(`Mailroom.access_eq`). Hence whoever watches one mailbox, the answers it gives and
the frames it holds, sees what he would see of a single mailbox to which the
accesses of this topic are made in the same order, and nothing of the rest
(`Mailroom.inTurn_box`).

The same holds of a caller who waits at one mailbox while others make accesses
everywhere: what he gets in the end is what he would get if he were told of the
accesses of his topic only (`Mailroom.wait_eq`). And he waits at the right place: a
reply that is filed before another is there is the one he gets
(`Session.awaitReply_of_filed`).

## Main results

* `Mailroom.inTurn_box` — one mailbox among others, against the mailbox alone.
* `Mailroom.wait_eq` — a wait among others, against the wait at the mailbox alone.
* `Mailroom.inTurn_swap` — accesses that share no mailbox may change places.
* `Mailroom.boxes_apart` — all of it, for a new mailroom.
-/

namespace PeripheralHost

namespace Mailroom

/-! ## Accesses -/

/-- What somebody does in a mailroom while nobody else is at the mailbox he uses. -/
inductive Access where
  /-- Files a frame under its topic. -/
  | file (frame : Frame)
  /-- Makes an access to the mailbox of a topic. -/
  | inBox (topic : Topic) (access : Mailbox.Access)
  deriving DecidableEq, Repr

namespace Access

/-- The topic whose mailbox is used. -/
def topic : Access → Topic
  | file frame => .ofFrame frame
  | inBox topic _ => topic

/-- What is done there. -/
def inner : Access → Mailbox.Access
  | file frame => .push frame
  | inBox _ access => access

end Access

/-- What an access brought to light, and where. -/
structure Answer where
  /-- The topic whose mailbox was used. -/
  topic : Topic
  /-- What was brought to light. -/
  yielded : Mailbox.Yield Frame
  deriving DecidableEq, Repr

/-- The frame given to the caller. -/
def Answer.returned (answer : Answer) : Option Frame := answer.yielded.returned

/-- Makes an access. -/
def access : Access → Mailroom → Answer × Mailroom
  | .file frame, room =>
      let (filing, room) := room.file frame
      (⟨filing.topic, { evicted := filing.evicted }⟩, room)
  | .inBox topic access, room =>
      let (yielded, room) := room.onBox topic (Mailbox.access access)
      (⟨topic, yielded⟩, room)

/-- An access does to the mailbox of its topic what it does to a mailbox alone, and
nothing to the others. -/
theorem access_eq (access : Access) (room : Mailroom) :
    let alone := (room.box access.topic).access access.inner
    room.access access = (⟨access.topic, alone.1⟩, room.replace access.topic alone.2) := by
  cases access <;> rfl

/-! ## One mailbox among others -/

/-- The accesses of a topic, as they look to its mailbox. -/
def under (topic : Topic) (accesses : List Access) : List Mailbox.Access :=
  (accesses.filter (·.topic = topic)).map Access.inner

/-- What the mailbox of a topic answered. -/
def heard (topic : Topic) (answers : List Answer) : List (Mailbox.Yield Frame) :=
  (answers.filter (·.topic = topic)).map Answer.yielded

/-- Whoever watches one mailbox sees what he would see of that mailbox alone. -/
theorem inTurn_box (accesses : List Access) (room : Mailroom) (topic : Topic) :
    (heard topic (inTurn access accesses room).1, (inTurn access accesses room).2.box topic) =
      inTurn Mailbox.access (under topic accesses) (room.box topic) := by
  induction accesses generalizing room with
  | nil => rfl
  | cons first accesses ih =>
      have hlater := ih (room.access first).2
      by_cases htopic : first.topic = topic
      · subst htopic
        rw [access_eq, box_replace_self] at hlater
        simp only [inTurn, access_eq, heard, under, List.filter_cons, decide_true, if_true,
          List.map_cons] at hlater ⊢
        rw [← hlater]
      · rw [access_eq, box_replace_ne room _ (Ne.symm htopic)] at hlater
        simp only [inTurn, access_eq, heard, under, List.filter_cons, htopic, decide_false,
          Bool.false_eq_true, if_false] at hlater ⊢
        exact hlater

theorem left_inTurn (accesses : List Access) (room : Mailroom) (topic : Topic) :
    (inTurn access accesses room).2.box topic =
      (inTurn Mailbox.access (under topic accesses) (room.box topic)).2 :=
  congrArg Prod.snd (inTurn_box accesses room topic)

theorem under_append (topic : Topic) (earlier later : List Access) :
    under topic (earlier ++ later) = under topic earlier ++ under topic later := by
  rw [under, List.filter_append, List.map_append]
  rfl

theorem under_look (topic : Topic) (glance : Mailbox.Access) (accesses : List Access) :
    under topic (.inBox topic glance :: accesses) = glance :: under topic accesses := by
  simp [under, Access.topic, Access.inner]

theorem under_eq_nil {topic : Topic} {accesses : List Access}
    (h : ∀ access ∈ accesses, access.topic ≠ topic) : under topic accesses = [] := by
  rw [under, List.map_eq_nil_iff, List.filter_eq_nil_iff]
  intro access hmem
  simpa using h access hmem

/-! ## Waits -/

/-- A pause, as it looks to one mailbox. -/
def pauseUnder (topic : Topic) (pause : Pause Access) : Pause Mailbox.Access :=
  ⟨pause.reading, under topic pause.others⟩

/-- A caller looks into the mailbox of a topic until he is given a frame or the
deadline is reached. -/
def wait (topic : Topic) (glance : Mailbox.Access) (deadline : Duration) :
    List (Pause Access) → Mailroom → Mailbox.Wait × List Access :=
  waitInTurn access Answer.returned (.inBox topic glance) deadline

/-- A caller who waits at one mailbox gets what he would get there alone. -/
theorem wait_eq (topic : Topic) (glance : Mailbox.Access) (deadline : Duration)
    (pauses : List (Pause Access)) (room : Mailroom) :
    let waited := room.wait topic glance deadline pauses
    (waited.1, under topic waited.2) =
      (room.box topic).wait glance deadline (pauses.map (pauseUnder topic)) := by
  unfold wait Mailbox.wait
  induction pauses generalizing room with
  | nil =>
      cases hreturned : ((room.box topic).access glance).1.returned <;>
        simp [waitInTurn, access_eq, under, Access.topic, Access.inner, Answer.returned, hreturned]
  | cons pause later ih =>
      have hlook : (room.access (.inBox topic glance)).1.returned =
        ((room.box topic).access glance).1.returned := rfl
      rw [List.map_cons]
      cases hreturned : ((room.box topic).access glance).1.returned with
      | some frame =>
          rw [waitInTurn_of_served _ (hlook.trans hreturned), waitInTurn_of_served _ hreturned]
          exact congrArg (Prod.mk _) (under_look topic glance [])
      | none =>
          by_cases hreading : deadline ≤ pause.reading
          · rw [waitInTurn_of_expired later (hlook.trans hreturned) hreading,
              waitInTurn_of_expired (later.map (pauseUnder topic)) hreturned hreading]
            exact congrArg (Prod.mk _) (under_look topic glance [])
          · -- the others leave in the mailbox what those among them at it leave there
            have hbox := left_inTurn pause.others (room.access (.inBox topic glance)).2 topic
            simp only [access_eq, Access.topic, Access.inner, box_replace_self] at hbox
            rw [waitInTurn_of_missing later (hlook.trans hreturned) hreading,
              waitInTurn_of_missing (later.map (pauseUnder topic)) hreturned hreading]
            simp only [access_eq, Access.topic, Access.inner, List.cons_append, under_look,
              under_append, pauseUnder]
            rw [← hbox, ← ih]

/-! ## Accesses that change places -/

theorem box_inTurn_of_apart {accesses : List Access} {topic : Topic} (room : Mailroom)
    (h : ∀ access ∈ accesses, access.topic ≠ topic) :
    (inTurn access accesses room).2.box topic = room.box topic := by
  rw [left_inTurn, under_eq_nil h]
  rfl

/-- What accesses leave in a mailbox depends on what was there. -/
theorem box_congr {accesses : List Access} {topic : Topic} {room other : Mailroom}
    (h : room.box topic = other.box topic) :
    (inTurn access accesses room).2.box topic = (inTurn access accesses other).2.box topic := by
  rw [left_inTurn, left_inTurn, h]

/-- What accesses bring to light depends on the mailboxes they use. -/
theorem answers_congr {accesses : List Access} {room other : Mailroom}
    (h : ∀ access ∈ accesses, room.box access.topic = other.box access.topic) :
    (inTurn access accesses room).1 = (inTurn access accesses other).1 := by
  induction accesses generalizing room other with
  | nil => rfl
  | cons first accesses ih =>
      obtain ⟨hfirst, haccesses⟩ := List.forall_mem_cons.mp h
      have hlater : ∀ access ∈ accesses,
          (room.access first).2.box access.topic = (other.access first).2.box access.topic := by
        intro access hmem
        rw [access_eq, access_eq]
        by_cases htopic : access.topic = first.topic
        · rw [htopic, box_replace_self, box_replace_self, hfirst]
        · rw [box_replace_ne room _ htopic, box_replace_ne other _ htopic, haccesses access hmem]
      simp only [inTurn, ih hlater]
      rw [access_eq, access_eq, hfirst]

theorem look_congr {topic : Topic} (glance : Mailbox.Access) {room other : Mailroom}
    (h : room.box topic = other.box topic) :
    (room.access (.inBox topic glance)).1 = (other.access (.inBox topic glance)).1 ∧
      (room.access (.inBox topic glance)).2.box topic =
        (other.access (.inBox topic glance)).2.box topic := by
  simp only [access_eq, Access.topic, Access.inner, box_replace_self, h, and_self]

/-- How a wait goes depends on the mailbox at which the caller waits. -/
theorem wait_congr {topic : Topic} (glance : Mailbox.Access) (deadline : Duration)
    (pauses : List (Pause Access)) {room other : Mailroom} (h : room.box topic = other.box topic) :
    room.wait topic glance deadline pauses = other.wait topic glance deadline pauses := by
  unfold wait
  induction pauses generalizing room other with
  | nil => rw [waitInTurn, waitInTurn, (look_congr glance h).1]
  | cons pause later ih =>
      obtain ⟨hanswer, hnext⟩ := look_congr glance h
      rw [waitInTurn, waitInTurn, hanswer]
      simp only [ih (box_congr hnext)]

theorem ext_box {room other : Mailroom} (h : ∀ topic, room.box topic = other.box topic) :
    room = other := by
  have hkeyboard := h .keyboard
  have hcardSearch := h .cardSearch
  have htouch := h .touch
  have hcardSlot := h .cardSlot
  have hgeneral := h .general
  cases room
  cases other
  simp_all [box]

variable {first second : List Access}

/-- Rows of accesses that share no mailbox bring to light what they do alone. -/
theorem answers_append_of_apart (room : Mailroom)
    (h : ∀ one ∈ first, ∀ other ∈ second, one.topic ≠ other.topic) :
    (inTurn access (first ++ second) room).1 =
      (inTurn access first room).1 ++ (inTurn access second room).1 := by
  have hsecond : (inTurn access second (inTurn access first room).2).1 =
      (inTurn access second room).1 := by
    apply answers_congr
    intro other hother
    exact box_inTurn_of_apart room fun one hone => h one hone other hother
  rw [inTurn_append, hsecond]

/-- Rows of accesses that share no mailbox leave the same, whichever is first. -/
theorem inTurn_comm_of_apart (room : Mailroom)
    (h : ∀ one ∈ first, ∀ other ∈ second, one.topic ≠ other.topic) :
    (inTurn access (first ++ second) room).2 = (inTurn access (second ++ first) room).2 := by
  apply ext_box
  intro topic
  rw [left_inTurn, left_inTurn, under_append, under_append]
  by_cases hfirst : ∀ one ∈ first, one.topic ≠ topic
  · rw [under_eq_nil hfirst, List.nil_append, List.append_nil]
  · have hsecond : ∀ other ∈ second, other.topic ≠ topic := by
      push Not at hfirst
      obtain ⟨one, hone, rfl⟩ := hfirst
      exact fun other hother => (h one hone other hother).symm
    rw [under_eq_nil hsecond, List.nil_append, List.append_nil]

/-- Two rows of accesses that share no mailbox, one behind the other in a longer row,
may change places: all accesses bring to light what they did, and leave what they
left. -/
theorem inTurn_swap (room : Mailroom)
    (h : ∀ one ∈ first, ∀ other ∈ second, one.topic ≠ other.topic) (earlier later : List Access) :
    let straight := inTurn access (earlier ++ first ++ second ++ later) room
    ∃ front ones others back,
      front.length = earlier.length ∧ ones.length = first.length ∧
        others.length = second.length ∧ straight.1 = front ++ ones ++ others ++ back ∧
        inTurn access (earlier ++ second ++ first ++ later) room =
          (front ++ others ++ ones ++ back, straight.2) := by
  intro straight
  have hother : ∀ other ∈ second, ∀ one ∈ first, other.topic ≠ one.topic :=
    fun other hother one hone => (h one hone other hother).symm
  let reached := (inTurn access earlier room).2
  refine ⟨(inTurn access earlier room).1, (inTurn access first reached).1,
    (inTurn access second reached).1,
    (inTurn access later (inTurn access (first ++ second) reached).2).1, length_inTurn _ _,
    length_inTurn _ _, length_inTurn _ _, ?_, ?_⟩
  · simp only [straight, reached, List.append_assoc earlier, inTurn_append _ later,
      inTurn_append earlier, answers_append_of_apart _ h]
    simp only [List.append_assoc]
  · simp only [straight, reached, List.append_assoc earlier, inTurn_append _ later,
      inTurn_append earlier, answers_append_of_apart _ hother, inTurn_comm_of_apart _ h]
    simp only [List.append_assoc]

end Mailroom

/-! ## The place of a reply -/

theorem Mailbox.found_of_push {command : UInt8} {box : Mailbox} {frame : Frame}
    (haccepted : frame.answers command = true)
    (hfirst : ∀ earlier ∈ box.frames, earlier.answers command = false) :
    ((box.push frame).2.search command).1.found = some frame := by
  have hpushed : ∃ kept, kept <:+ box.frames ∧ (box.push frame).2.frames = kept ++ [frame] := by
    unfold push
    split
    · exact ⟨box.frames.tail, List.tail_suffix _, rfl⟩
    · exact ⟨box.frames, List.suffix_rfl, rfl⟩
  obtain ⟨kept, hkept, hframes⟩ := hpushed
  have hskipped : ∀ earlier ∈ kept, (!earlier.answers command) = true := by
    intro earlier hmem
    rw [hfirst earlier (hkept.subset hmem)]
    rfl
  simp [search, hframes, List.dropWhile_append_of_pos hskipped, haccepted]

/-- A caller who waits for the reply to a command looks where a reply to it is filed. -/
theorem Session.awaitReply_of_filed {σ : Type} [Link σ] (session : Session σ) {command : UInt8}
    {frame : Frame} (haccepted : frame.answers command = true)
    (hfirst : ∀ earlier ∈ (session.mailroom.box (Topic.ofCommand command)).frames,
      earlier.answers command = false)
    (start budget : Duration) (rounds : List (Round σ)) :
    ({ session with mailroom := (session.mailroom.file frame).2 }.awaitReply command start budget
      rounds).answer = Reply.ofFrame frame := by
  have hbox : (session.mailroom.file frame).2.box (Topic.ofCommand command) =
      ((session.mailroom.box (Topic.ofCommand command)).push frame).2 := by
    rw [← Topic.ofFrame_eq_of_answers haccepted]
    exact Mailroom.box_file_self frame session.mailroom
  have hfound : (({ session with mailroom := (session.mailroom.file frame).2 } : Session σ).look
      command).1.found = some frame := by
    have hpush := Mailbox.found_of_push haccepted hfirst
    rw [← hbox] at hpush
    exact hpush
  exact (awaitReply_of_found _ start budget rounds hfound).1

namespace Mailroom

/-- **Mailboxes on their own**: after any row of accesses to a new mailroom,

* each mailbox has answered, and holds, what a mailbox alone would to which the
  accesses of its topic are made in this order, and a caller who waits at it from now
  on gets what he would get there;
* two rows of accesses that share no mailbox, one behind the other, could have changed
  places, with the same answers and the same frames left, and accesses elsewhere
  change nothing in a wait;
* a frame that any search for a reply to a command would take is filed where the
  caller who waits for that reply looks, and given to him unless he finds another
  reply first. -/
theorem boxes_apart {σ : Type} [Link σ] (capacity : Nat) (accesses : List Access) :
    let run := inTurn access accesses (ofCapacity capacity)
    (∀ topic,
      let alone := inTurn Mailbox.access (under topic accesses) { topic, capacity }
      (heard topic run.1, run.2.box topic) = alone ∧
        ∀ glance deadline pauses,
          let waited := run.2.wait topic glance deadline pauses
          (waited.1, under topic waited.2) =
              alone.2.wait glance deadline (pauses.map (pauseUnder topic)) ∧
            ∀ others : List Access, (∀ other ∈ others, other.topic ≠ topic) →
              (inTurn access others run.2).2.wait topic glance deadline pauses = waited) ∧
    (∀ earlier first second later, accesses = earlier ++ first ++ second ++ later →
      (∀ one ∈ first, ∀ other ∈ second, one.topic ≠ other.topic) →
      ∃ front ones others back,
        front.length = earlier.length ∧ ones.length = first.length ∧
          others.length = second.length ∧ run.1 = front ++ ones ++ others ++ back ∧
          inTurn access (earlier ++ second ++ first ++ later) (ofCapacity capacity) =
            (front ++ others ++ ones ++ back, run.2)) ∧
    ∀ (command : UInt8) (searched : Mailbox) (frame : Frame),
      (searched.search command).1.found = some frame →
      (run.2.file frame).1.topic = Topic.ofCommand command ∧
        ∀ session : Session σ, session.mailroom = run.2 →
          (∀ earlier ∈ (run.2.box (Topic.ofCommand command)).frames,
            earlier.answers command = false) →
          ∀ start budget rounds,
            ({ session with mailroom := (run.2.file frame).2 }.awaitReply command start budget
              rounds).answer = Reply.ofFrame frame := by
  intro run
  refine ⟨fun topic => ?_, ?_, ?_⟩
  · have hempty : (ofCapacity capacity).box topic = { topic, capacity } := by
      cases topic <;> rfl
    intro alone
    have halone : (heard topic run.1, run.2.box topic) = alone := by
      have hbox := inTurn_box accesses (ofCapacity capacity) topic
      rw [hempty] at hbox
      exact hbox
    refine ⟨halone, fun glance deadline pauses => ⟨?_, fun others hothers => ?_⟩⟩
    · rw [← halone]
      exact wait_eq topic glance deadline pauses run.2
    · exact wait_congr glance deadline pauses (box_inTurn_of_apart run.2 hothers)
  · rintro earlier first second later rfl hapart
    exact inTurn_swap (ofCapacity capacity) hapart earlier later
  · intro command searched frame hfound
    have haccepted := Mailbox.answers_of_search hfound
    refine ⟨Topic.ofFrame_eq_of_answers haccepted, ?_⟩
    rintro session hmailroom hfirst start budget rounds
    rw [← hmailroom] at hfirst ⊢
    exact session.awaitReply_of_filed haccepted hfirst start budget rounds

/-- In a mailroom with room for one frame a topic, two presses of a key stand around a
search for a reply. The keyboard gives up the first press either way, the search may
as well be made behind both, and a reply filed afterwards is found. -/
theorem boxes_of_two_presses :
    let press := fun key : UInt8 => (⟨Command.keyPress, Frame.replyMarker, [key]⟩ : Frame)
    let reply : Frame := ⟨0x20, Frame.replyMarker, [0, 0, 0, 0]⟩
    let search : Access := .inBox .general (.search 0x20)
    let run := inTurn access [.file (press 1), search, .file (press 2)] (ofCapacity 1)
    heard .keyboard run.1 = [{}, { evicted := some (press 1) }] ∧
      (run.2.box .keyboard).frames = [press 2] ∧
      (inTurn access [.file (press 1), .file (press 2), search] (ofCapacity 1)).2 = run.2 ∧
      ∀ session : Session Loopback, session.mailroom = run.2 →
        ({ session with mailroom := (run.2.file reply).2 }.awaitReply 0x20 (.ofMillis 0)
          (.ofMillis 9) []).answer = Reply.ofFrame reply := by
  intro press reply search run
  have hfound : (({ topic := .general, frames := [reply] } : Mailbox).search 0x20).1.found =
      some reply := by decide
  obtain ⟨hboxes, hswap, hplace⟩ :=
    @boxes_apart Loopback _ 1 [.file (press 1), search, .file (press 2)]
  obtain ⟨hkeyboard, -⟩ := hboxes .keyboard
  rw [Prod.mk.injEq] at hkeyboard
  obtain ⟨front, ones, others, back, -, -, -, -, hlast⟩ :=
    hswap [.file (press 1)] [search] [.file (press 2)] [] rfl (by decide)
  refine ⟨hkeyboard.1.trans (by decide), ?_, (Prod.ext_iff.mp hlast).2, ?_⟩
  · exact (congrArg Mailbox.frames hkeyboard.2).trans (by decide)
  · intro session hmailroom
    exact (hplace 0x20 _ reply hfound).2 session hmailroom (by decide) _ _ []

end Mailroom

end PeripheralHost
