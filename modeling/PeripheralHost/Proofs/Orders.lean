import Mathlib.Data.List.Forall2
import PeripheralHost.Proofs.Conservation
import PeripheralHost.Proofs.WrittenFrames
import PeripheralHost.Sender

/-!
# A sender has no past

A sender composes every frame in the same buffer. It leaves the buffer as it is when it is
done, and also when it fails: when the frame cannot be written, when the line is closed,
and when the line takes less than the whole. The next order may be of another kind, and
the line may have changed meanwhile.

None of that reaches the next frame, because the buffer is emptied before it is used and
not after. What comes of an order depends on the order and on the line alone
(`Sender.Order.Fate`), so a row of orders given to one sender goes as if each had been
given to a new one. On the line there stands what the orders have contributed, one behind
the other: nothing of those that failed, the beginning of those that fell short, and all
of the others. If none fell short, that is one written frame behind the other, and the
other end takes in these frames and nothing else.

## Main results

* `Sender.fate_of_fulfil` — what comes of an order, by the state of the line.
* `Sender.inTurn_alone` — one sender does what a new one for every order does.
* `Sender.inTurn_contributed` — what the other end got, and has yet to get, is what was
  contributed.
* `Sender.orders_apart` — all of it for every row of orders, and what the other end takes
  in.
-/

namespace PeripheralHost

namespace Sender

/-! ## Orders -/

/-- What a sender may be asked to write. -/
inductive Order where
  /-- A payload as it is, between marks. -/
  | payload (octets : Bytes)
  /-- A request. -/
  | request (command : UInt8) (params : Bytes)
  /-- A frame. -/
  | frame (frame : Frame)
  deriving DecidableEq, Repr

namespace Order

/-- The octets to be written, or why there are none. -/
def written : Order → Except FrameError Bytes
  | payload octets => .ok (wrap octets)
  | request command params => encodeRequest command params
  | frame given => given.encode

/-- The frame that is written by an order. -/
def Carries : Order → Frame → Prop
  | payload octets, carried => carried.payload = .ok octets
  | request command params, carried => carried = Frame.request command params
  | frame given, carried => carried = given

theorem encode_of_carries {order : Order} {carried : Frame} {octets : Bytes}
    (hcarries : order.Carries carried) (hwritten : order.written = .ok octets) :
    carried.encode = .ok octets := by
  cases order with
  | payload payload =>
      have hpayload : carried.payload = .ok payload := hcarries
      rw [Frame.encode, hpayload]
      exact hwritten
  | request command params =>
      obtain rfl : carried = Frame.request command params := hcarries
      have hrequest : encodeRequest command params = .ok octets := hwritten
      by_cases hlong : params.length > Frame.maxBody
      · simp [encodeRequest, hlong] at hrequest
      · rwa [encodeRequest_eq (by omega)] at hrequest
  | frame given =>
      obtain rfl : carried = given := hcarries
      exact hwritten

/-- What comes of an order on a line: the answer, and the line afterwards. -/
inductive Fate (order : Order) (line : Loopback) : Except FrameError Unit × Loopback → Prop where
  /-- There is nothing to write. -/
  | refused {fault : FrameError} (written : order.written = .error fault) :
      Fate order line (.error fault, line)
  /-- The line is closed. -/
  | closed {octets : Bytes} (written : order.written = .ok octets) (shut : line.closed = true) :
      Fate order line (.error (.link .closed), line)
  /-- The write fails by a fault, which is used up. -/
  | failed {octets : Bytes} (written : order.written = .ok octets) (unshut : line.closed = false)
      (fault : line.faultPending = true) :
      Fate order line (.error (.link Loopback.injectedFault), { line with faultPending := false })
  /-- The line takes the beginning only. -/
  | short {octets : Bytes} {count : Nat} (written : order.written = .ok octets)
      (unshut : line.closed = false) (sound : line.faultPending = false)
      (limited : line.accepted octets.length = count) (less : count < octets.length) :
      Fate order line (.error (.shortWrite count octets.length),
        { line with toPeer := line.toPeer ++ octets.take count })
  /-- The line takes the whole. -/
  | whole {octets : Bytes} (written : order.written = .ok octets) (unshut : line.closed = false)
      (sound : line.faultPending = false)
      (unlimited : line.accepted octets.length = octets.length) :
      Fate order line (.ok (), { line with toPeer := line.toPeer ++ octets })

/-- The octets that an order has put on the line, by its answer. -/
def contribution (order : Order) (answer : Except FrameError Unit) : Bytes :=
  match order.written, answer with
  | .ok octets, .ok () => octets
  | .ok octets, .error (.shortWrite count _) => octets.take count
  | _, _ => []

theorem contribution_of_ok {order : Order} {octets : Bytes} (h : order.written = .ok octets) :
    order.contribution (.ok ()) = octets := by
  simp [contribution, h]

theorem contribution_of_error (order : Order) {fault : FrameError}
    (h : ∀ count length, fault ≠ .shortWrite count length) :
    order.contribution (.error fault) = [] := by
  unfold contribution
  split
  · next hdone => simp at hdone
  · next hshort => exact absurd (Except.error.inj hshort) (h _ _)
  · rfl

theorem Fate.contributed {order : Order} {line after : Loopback} {answer : Except FrameError Unit}
    (h : order.Fate line (answer, after)) :
    after.toPeer = line.toPeer ++ order.contribution answer := by
  cases h with
  | refused written => simp [contribution, written]
  | closed written _ => simp [contribution, written]
  | failed written _ _ => simp [contribution, written]
  | short written _ _ _ _ => simp [contribution, written]
  | whole written _ _ _ => simp [contribution_of_ok written]

theorem Fate.exists_written {order : Order} {line after : Loopback}
    (h : order.Fate line (.ok (), after)) : ∃ octets, order.written = .ok octets := by
  cases h with
  | whole written _ _ _ => exact ⟨_, written⟩

end Order

/-- Does what it is asked to do. -/
def fulfil {σ : Type} [Link σ] : Order → Sender → σ → Except FrameError Unit × Sender × σ
  | .payload octets => send octets
  | .request command params => sendRequest command params
  | .frame frame => sendFrame frame

theorem fulfil_eq {σ : Type} [Link σ] (order : Order) (sender : Sender) (link : σ) :
    fulfil order sender link = sender.transmit order.written link := by
  cases order <;> rfl

/-- The buffer is emptied before it is used. -/
theorem fulfil_new {σ : Type} [Link σ] (order : Order) (sender : Sender) (link : σ) :
    fulfil order sender link = fulfil order {} link := by
  rw [fulfil_eq, fulfil_eq]
  rfl

theorem accepted_le (line : Loopback) (length : Nat) : line.accepted length ≤ length := by
  unfold Loopback.accepted
  split
  · exact Nat.min_le_left _ _
  · exact Nat.le_refl _

/-- **What comes of an order**, by the state of the line. -/
theorem fate_of_fulfil (order : Order) (sender : Sender) (line : Loopback) :
    let done := fulfil order sender line
    order.Fate line (done.1, done.2.2) := by
  intro done
  simp only [done, fulfil_eq]
  cases hwritten : order.written with
  | error fault =>
      rw [transmit_of_refused]
      exact .refused hwritten
  | ok octets =>
      have hopen : Link.isOpen line = !line.closed := rfl
      rcases line.ready_cases with
        ⟨hclosed, -⟩ | ⟨hclosed, hfault, hready⟩ | ⟨hclosed, hfault, hready⟩
      · rw [transmit_of_closed octets (by simp [hopen, hclosed])]
        exact .closed hwritten hclosed
      · have hwrite : Link.write octets line =
            (.error Loopback.injectedFault, { line with faultPending := false }) := by
          show line.write octets = _
          rw [Loopback.write, hready]
        rw [transmit_of_open sender octets (by simp [hopen, hclosed]), hwrite]
        exact .failed hwritten hclosed hfault
      · have hwrite : Link.write octets line = (.ok (line.accepted octets.length),
            { line with toPeer := line.toPeer ++ octets.take (line.accepted octets.length) }) := by
          show line.write octets = _
          rw [Loopback.write, hready]
        rw [transmit_of_open sender octets (by simp [hopen, hclosed]), hwrite]
        dsimp only
        by_cases hcount : line.accepted octets.length = octets.length
        · rw [if_pos hcount, hcount, List.take_length]
          exact .whole hwritten hclosed hfault hcount
        · have hless := accepted_le line octets.length
          rw [if_neg hcount]
          exact .short hwritten hclosed hfault rfl (by omega)

/-! ## Rows -/

/-- An order to a sender, or what somebody else does with the line. -/
inductive Step where
  /-- The sender gets an order. -/
  | order (order : Order)
  /-- The peer, or somebody else on the host's side, does something. -/
  | other (operation : Loopback.Operation)

/-- What a step answers. -/
inductive Answer where
  /-- To an order. -/
  | sent (answer : Except FrameError Unit)
  /-- To anything else. -/
  | other (answer : Loopback.Answer)

/-- Makes a step. -/
def step : Step → Sender × Loopback → Answer × Sender × Loopback
  | .order order, (sender, line) =>
      let done := fulfil order sender line
      (.sent done.1, done.2)
  | .other operation, (sender, line) =>
      let acted := Loopback.operate operation line
      (.other acted.1, sender, acted.2)

/-- Makes a step, with a new sender if it is an order. -/
def stepAlone : Step → Loopback → Answer × Loopback
  | .order order, line =>
      let done := fulfil order {} line
      (.sent done.1, done.2.2)
  | .other operation, line =>
      let acted := Loopback.operate operation line
      (.other acted.1, acted.2)

theorem step_alone (made : Step) (sender : Sender) (line : Loopback) :
    ((step made (sender, line)).1, (step made (sender, line)).2.2) = stepAlone made line := by
  cases made with
  | order order => rw [step, fulfil_new, stepAlone]
  | other operation => rfl

/-- **One sender does what a new one for every order does.** -/
theorem inTurn_alone (steps : List Step) (sender : Sender) (line : Loopback) :
    let run := inTurn step steps (sender, line)
    (run.1, run.2.2) = inTurn stepAlone steps line := by
  -- Over every sender, since the first step leaves another buffer to the others.
  induction steps generalizing sender line with
  | nil => rfl
  | cons first steps ih =>
      have hfirst := step_alone first sender line
      have hlater := ih (step first (sender, line)).2.1 (step first (sender, line)).2.2
      rw [inTurn, inTurn, ← hfirst, ← hlater]

/-- The octets that a step has put on the line. -/
def contributed : Step × Answer → Bytes
  | (.order order, .sent answer) => order.contribution answer
  | (.other operation, .other answer) => Loopback.sent (operation, answer)
  | _ => []

/-- The octets that the peer took. -/
def collected : Step × Answer → Bytes
  | (.other operation, .other answer) => Loopback.collected (operation, answer)
  | _ => []

/-- The order that was carried out. -/
def fulfilled : Step × Answer → Option Order
  | (.order order, .sent (.ok ())) => some order
  | _ => none

theorem stepAlone_contributed (made : Step) (line : Loopback) :
    let done := stepAlone made line
    collected (made, done.1) ++ done.2.toPeer = line.toPeer ++ contributed (made, done.1) := by
  cases made with
  | order order => exact (fate_of_fulfil order {} line).contributed
  | other operation => exact (Loopback.effect_operate operation line).toPeer

/-- **What the peer got, and has yet to get, is what was contributed.** -/
theorem inTurn_contributed (steps : List Step) (line : Loopback) :
    let run := inTurn stepAlone steps line
    (steps.zip run.1).flatMap collected ++ run.2.toPeer =
      line.toPeer ++ (steps.zip run.1).flatMap contributed := by
  intro run
  simp only [run]
  induction steps generalizing line with
  | nil => simp [inTurn]
  | cons first steps ih =>
      have hfirst := stepAlone_contributed first line
      simp only [inTurn, List.zip_cons_cons, List.flatMap_cons, List.append_assoc]
      rw [ih, ← List.append_assoc, hfirst, List.append_assoc]

/-- Every answer is what its step brought to light on some line. A history does not say on
which, and what follows does not depend on it. -/
theorem exists_line {steps : List Step} {line : Loopback} {entry : Step × Answer}
    (h : entry ∈ steps.zip (inTurn stepAlone steps line).1) :
    ∃ before, (stepAlone entry.1 before).1 = entry.2 := by
  induction steps generalizing line with
  | nil => simp at h
  | cons first steps ih =>
      rw [inTurn, List.zip_cons_cons, List.mem_cons] at h
      rcases h with rfl | hlater
      · exact ⟨line, rfl⟩
      · exact ih hlater

/-! ## What the other end takes in -/

/-- A step put a frame on the line, whole, or nothing. -/
def Tidy (entry : Step × Answer) : Prop :=
  (fulfilled entry = none ∧ contributed entry = []) ∨
    ∃ order frame, fulfilled entry = some order ∧ order.Carries frame ∧
      frame.encode = .ok (contributed entry)

theorem tidy_of_answer {made : Step} {line : Loopback}
    (hshort : ∀ count length, (stepAlone made line).1 ≠ .sent (.error (.shortWrite count length)))
    (hwrite : ∀ octets, made ≠ .other (.write octets))
    (hpayload : ∀ octets, made = .order (.payload octets) →
      ∃ frame : Frame, frame.payload = .ok octets) :
    Tidy (made, (stepAlone made line).1) := by
  cases made with
  | order order =>
      have hfate : order.Fate line ((fulfil order {} line).1, (fulfil order {} line).2.2) :=
        fate_of_fulfil order {} line
      cases hanswer : (fulfil order {} line).1 with
      | ok _ =>
          rw [hanswer] at hfate
          obtain ⟨octets, hwritten⟩ := hfate.exists_written
          obtain ⟨frame, hcarries⟩ : ∃ frame, order.Carries frame := by
            cases order with
            | payload octets => exact hpayload octets rfl
            | request command params => exact ⟨_, rfl⟩
            | frame frame => exact ⟨frame, rfl⟩
          refine .inr ⟨order, frame, ?_, hcarries, ?_⟩
          · rw [stepAlone, hanswer, fulfilled]
          · rw [stepAlone, hanswer, contributed, Order.contribution_of_ok hwritten]
            exact Order.encode_of_carries hcarries hwritten
      | error fault =>
          refine .inl ⟨by simp [stepAlone, hanswer, fulfilled], ?_⟩
          rw [stepAlone, hanswer, contributed, Order.contribution_of_error]
          rintro count length rfl
          exact hshort count length (by rw [stepAlone, hanswer])
  | other operation =>
      refine .inl ⟨rfl, ?_⟩
      cases operation with
      | write octets => exact absurd rfl (hwrite octets)
      | _ => rfl

/-- Steps that put whole frames on the line, or nothing, have put the frames on it one
behind the other. -/
theorem exists_frames {history : List (Step × Answer)} (htidy : ∀ entry ∈ history, Tidy entry) :
    ∃ (frames : List Frame) (pieces : List Bytes),
      List.Forall₂ Order.Carries (history.filterMap fulfilled) frames ∧
        frames.map Frame.encode = pieces.map .ok ∧
        pieces.flatten = history.flatMap contributed := by
  induction history with
  | nil => exact ⟨[], [], .nil, rfl, rfl⟩
  | cons entry history ih =>
      obtain ⟨frames, pieces, hcarries, hpieces, hflat⟩ :=
        ih fun later hmem => htidy later (List.mem_cons_of_mem _ hmem)
      rcases htidy entry List.mem_cons_self with
        ⟨hnone, hnothing⟩ | ⟨order, frame, hsome, hcarried, hencode⟩
      · refine ⟨frames, pieces, ?_, hpieces, ?_⟩
        · rwa [List.filterMap_cons_none hnone]
        · rw [List.flatMap_cons, hnothing, List.nil_append, hflat]
      · refine ⟨frame :: frames, contributed entry :: pieces, ?_, ?_, ?_⟩
        · rw [List.filterMap_cons_some hsome]
          exact .cons hcarried hcarries
        · rw [List.map_cons, List.map_cons, hencode, hpieces]
        · rw [List.flatten_cons, List.flatMap_cons, hflat]

/-- Frames written one behind the other are taken in by a new assembler, in any pieces. -/
theorem feedAll_frames {frames : List Frame} {written : List Bytes}
    (hwritten : frames.map Frame.encode = written.map .ok) {pieces : List Bytes}
    (hpieces : pieces.flatten = written.flatten) :
    (Assembler.feedAll pieces {}).1 = frames.map .ok ∧
      (Assembler.feedAll pieces {}).2.isIdle = true := by
  have hlimit : ∀ frame ∈ frames, frame.body.length ≤ Frame.maxBody := by
    intro frame hmem
    have hencode : frame.encode ∈ frames.map Frame.encode := List.mem_map_of_mem hmem
    rw [hwritten, List.mem_map] at hencode
    obtain ⟨octets, -, hoctets⟩ := hencode
    exact (Frame.encode_eq_ok_iff.mp hoctets.symm).1
  obtain ⟨hsettled, hidle⟩ := Assembler.feedAll_eq_scan Frame.maxBody pieces
  have hscan := Stream.scan_flatten hlimit hwritten
  rw [hpieces, hscan] at hsettled hidle
  exact ⟨hsettled, hidle.mpr rfl⟩

/-- **A sender has no past.** Whatever its buffer holds, and whatever orders it is given on
a new line, with whatever others do to the line in between,

* every order is answered, and leaves the line, as if it had been given to a new sender;
* so it is with the next order, and its fate is decided by the order and the line;
* what the peer took, and has yet to take, is what the orders have contributed, and what
  others may have written;
* if no order fell short, nobody else has written, and every payload is that of some
  frame, then what the peer got makes a new assembler, fed in any pieces, take in the frames
  of the orders that were carried out, one after the other, and nothing else. -/
theorem orders_apart (sender : Sender) (steps : List Step) :
    let run := inTurn step steps (sender, {})
    let line := run.2.2
    let history := steps.zip run.1
    let received := history.flatMap collected ++ line.toPeer
    (run.1, line) = inTurn stepAlone steps {} ∧
      (∀ order : Order,
        let next := fulfil order run.2.1 line
        let alone := fulfil order {} line
        next = alone ∧ order.Fate line (alone.1, alone.2.2) ∧
          alone.2.2.toPeer = line.toPeer ++ order.contribution alone.1) ∧
      received = history.flatMap contributed ∧
      ((∀ count length, .sent (.error (.shortWrite count length)) ∉ run.1) →
        (∀ octets, .other (.write octets) ∉ steps) →
        (∀ octets, .order (.payload octets) ∈ steps →
          ∃ frame : Frame, frame.payload = .ok octets) →
        ∃ frames : List Frame,
          List.Forall₂ Order.Carries (history.filterMap fulfilled) frames ∧
            ∀ pieces : List Bytes, pieces.flatten = received →
              (Assembler.feedAll pieces {}).1 = frames.map .ok ∧
                (Assembler.feedAll pieces {}).2.isIdle = true) := by
  intro run line history received
  have halone : (run.1, line) = inTurn stepAlone steps {} := inTurn_alone steps sender {}
  have hanswers : run.1 = (inTurn stepAlone steps {}).1 := congrArg Prod.fst halone
  have hcontributed : received = history.flatMap contributed := by
    have hrun := inTurn_contributed steps {}
    rw [← halone] at hrun
    exact hrun
  refine ⟨halone, fun order => ?_, hcontributed, fun hshort hwrite hpayload => ?_⟩
  · have hfate := fate_of_fulfil order {} line
    exact ⟨fulfil_new order run.2.1 line, hfate, hfate.contributed⟩
  · have htidy : ∀ entry ∈ history, Tidy entry := by
      rintro ⟨made, answer⟩ hentry
      obtain ⟨hmade, hanswer⟩ := List.of_mem_zip hentry
      have hentry' : (made, answer) ∈ steps.zip (inTurn stepAlone steps {}).1 := hanswers ▸ hentry
      obtain ⟨before, hbefore⟩ := exists_line hentry'
      obtain rfl : (stepAlone made before).1 = answer := hbefore
      refine tidy_of_answer ?_ ?_ ?_
      · rintro count length heq
        exact hshort count length (heq ▸ hanswer)
      · rintro octets rfl
        exact hwrite octets hmade
      · rintro octets rfl
        exact hpayload octets hmade
    obtain ⟨frames, written, hcarries, hwritten, hflat⟩ := exists_frames htidy
    refine ⟨frames, hcarries, fun pieces hpieces => ?_⟩
    exact feedAll_frames hwritten (by rw [hpieces, hcontributed, hflat])

/-- Something is left in the buffer, and the first order meets a fault. A payload and a request
are written, and the peer takes the one and has yet to take the other. Then the line is
closed, and no frame can be written. The other end takes in the payload's frame and the request,
and nothing of the orders that failed. -/
theorem orders_amid_fault_and_close :
    let frame : Frame := ⟨0x30, Frame.replyMarker, [7]⟩
    let payload : Bytes := [0x30, Frame.replyMarker, 0, 1, 7]
    let steps : List Step :=
      [.other .injectFault, .order (.request 0x10 []), .order (.payload payload),
        .other .takeWritten, .order (.request 0x20 [2]), .other .close, .order (.frame frame)]
    let run := inTurn step steps ({ buffer := [1, 2, 3] }, {})
    let received := (steps.zip run.1).flatMap collected ++ run.2.2.toPeer
    run.1 =
      [.other (.done (.ok ())), .sent (.error (.link Loopback.injectedFault)), .sent (.ok ()),
        .other (.taken (wrap payload)), .sent (.ok ()), .other (.done (.ok ())),
        .sent (.error (.link .closed))] ∧
      frame.payload = .ok payload ∧
      ∃ sent : Frame, sent.payload = .ok payload ∧
        (Assembler.feedAll [received] {}).1 = [.ok sent, .ok (Frame.request 0x20 [2])] := by
  intro frame payload steps run received
  have hanswers : run.1 =
      [.other (.done (.ok ())), .sent (.error (.link Loopback.injectedFault)), .sent (.ok ()),
        .other (.taken (wrap payload)), .sent (.ok ()), .other (.done (.ok ())),
        .sent (.error (.link .closed))] := rfl
  have hpayload : frame.payload = .ok payload := by
    rw [Frame.payload, if_neg (by decide)]
    exact congrArg Except.ok (by decide +kernel)
  obtain ⟨-, -, -, hframes⟩ := orders_apart { buffer := [1, 2, 3] } steps
  obtain ⟨frames, hcarries, hfed⟩ := hframes
    (by intro count length hmem; rw [hanswers] at hmem; simp at hmem)
    (by intro octets hmem; simp [steps] at hmem)
    (by
      intro octets hmem
      obtain rfl : octets = payload := by simpa [steps] using hmem
      exact ⟨frame, hpayload⟩)
  have hdone : (steps.zip run.1).filterMap fulfilled = [.payload payload, .request 0x20 [2]] := rfl
  rw [hdone] at hcarries
  obtain _ | ⟨hsent, _ | ⟨hrequest, _ | _⟩⟩ := hcarries
  obtain rfl := hrequest
  exact ⟨hanswers, hpayload, _, hsent, (hfed [received] (List.append_nil _)).1⟩

end Sender

end PeripheralHost
