import Mathlib.Data.List.Induction
import PeripheralHost.Link.Loopback
import PeripheralHost.Proofs.Accesses

/-!
# No octet is lost on a line in memory

The two ends of a line in memory share two queues of octets, a limit on writes, a
fault that may be pending, and whether the line is closed. What came of all that is
asked here of the operations alone: of the row of them made so far, and of what each
answered (`Loopback.operate`).

Nothing is lost, doubled or put out of order in either direction. Each operation takes
from the front of a queue what it answers and puts at the back what it was given
(`Loopback.Effect`), so what came out of a queue, followed by what is in it, is what was
put in. The rest of the state can be read off the row of operations as well: the limit is
the one set last, the line is closed once the host has closed it, and a fault is due from
the moment the peer injects it until the host next makes a transfer
(`Loopback.FaultDue`). With that, the row of operations decides of every transfer whether
it fails, and how.

A peer that waits for octets looks at the line, and sleeps while others act. Such a
wait is the operations of the others, and behind them one that takes everything
(`Loopback.wait_eq_inTurn`), so nothing is lost while the peer waits either.

## Main results

* `Loopback.Balanced.operate` — what one operation keeps.
* `Loopback.octets_conserved` — what holds after any row of operations, and of the next
  one.
* `Loopback.wait_conserves` — what holds after a wait of the peer amid the operations of
  others.
-/

namespace PeripheralHost

namespace Loopback

/-! ## Operations -/

/-- An operation of the host, or of the peer. -/
inductive Operation where
  /-- The host asks how many octets wait for it. -/
  | available
  /-- The host reads into the front of a buffer. -/
  | read (buffer : Bytes)
  /-- The host writes. -/
  | write (bytes : Bytes)
  /-- The host closes the line. -/
  | close
  /-- The peer queues octets for the host. -/
  | inject (bytes : Bytes)
  /-- The peer takes what the host has written. -/
  | takeWritten
  /-- The peer waits for octets, while nobody else does anything. -/
  | awaitWritten (least : Nat)
  /-- The peer sets or removes the limit on a write. -/
  | limitWrites (limit : Option Nat)
  /-- The peer makes a transfer fail. -/
  | injectFault
  deriving DecidableEq, Repr

namespace Operation

/-- Whether the host asks for octets, or moves some. -/
def isTransfer : Operation → Bool
  | available | read _ | write _ => true
  | _ => false

/-- The octets put on the line for the host. -/
def injected : Operation → Bytes
  | inject bytes => bytes
  | _ => []

/-- The limit that is set. -/
def newLimit : Operation → Option (Option Nat)
  | limitWrites limit => some limit
  | _ => none

end Operation

/-- What an operation answers. -/
inductive Answer where
  /-- A number of octets, waiting or accepted. -/
  | count (answer : Except LinkError Nat)
  /-- How many octets were read, and the buffer afterwards. -/
  | filled (answer : Except LinkError (Nat × Bytes))
  /-- What the host had written. -/
  | taken (bytes : Bytes)
  /-- Nothing, or why it failed. -/
  | done (answer : Except LinkError Unit)

/-- Why an operation failed. -/
def Answer.fault : Answer → Option LinkError
  | count (.error fault) | filled (.error fault) | done (.error fault) => some fault
  | _ => none

/-- Makes an operation. -/
def operate : Operation → Loopback → Answer × Loopback
  | .available, line =>
      let (answer, line) := Link.available line
      (.count answer, line)
  | .read buffer, line =>
      let (answer, line) := Link.readInto buffer line
      (.filled answer, line)
  | .write bytes, line =>
      let (answer, line) := Link.write bytes line
      (.count answer, line)
  | .close, line =>
      let (answer, line) := Link.close line
      (.done answer, line)
  | .inject bytes, line => (.done (.ok ()), line.inject bytes)
  | .takeWritten, line =>
      let (bytes, line) := line.takeWritten
      (.taken bytes, line)
  | .awaitWritten least, line =>
      let (bytes, line) := line.awaitWritten least
      (.taken bytes, line)
  | .limitWrites limit, line => (.done (.ok ()), line.limitWrites limit)
  | .injectFault, line => (.done (.ok ()), line.injectFault)

/-! ## What moved -/

/-- The octets that a read returned. -/
def received : Operation × Answer → Bytes
  | (_, .filled (.ok (count, buffer))) => buffer.take count
  | _ => []

/-- The octets that a write got accepted: as many as it was told, from the front. -/
def sent : Operation × Answer → Bytes
  | (.write bytes, .count (.ok count)) => bytes.take count
  | _ => []

/-- The octets that the peer took. -/
def collected : Operation × Answer → Bytes
  | (_, .taken bytes) => bytes
  | _ => []

/-! ## What the past decides -/

/-- The limit on a write: the one set last. -/
def limitAfter (earlier : List Operation) : Option Nat :=
  (earlier.filterMap Operation.newLimit).getLast?.getD none

/-- A fault was injected, and no transfer was made since. -/
def FaultDue (earlier : List Operation) : Prop :=
  ∃ before after, earlier = before ++ .injectFault :: after ∧
    ∀ operation ∈ after, operation.isTransfer = false

variable {earlier : List Operation} {operation : Operation} {line : Loopback}

theorem limitAfter_concat (earlier : List Operation) (operation : Operation) :
    limitAfter (earlier ++ [operation]) = operation.newLimit.getD (limitAfter earlier) := by
  rw [limitAfter, List.filterMap_append]
  cases hlimit : operation.newLimit with
  | none => simp [List.filterMap, hlimit, limitAfter]
  | some limit => simp [List.filterMap, hlimit]

/-- A fault is due behind an operation that injects it, and stays due behind all but
transfers. -/
theorem faultDue_concat_iff :
    FaultDue (earlier ++ [operation]) ↔
      operation = .injectFault ∨ (FaultDue earlier ∧ operation.isTransfer = false) := by
  constructor
  · rintro ⟨before, after, hsplit, hafter⟩
    rcases List.eq_nil_or_concat after with rfl | ⟨kept, last, rfl⟩
    · obtain ⟨-, hlast⟩ := List.append_inj' hsplit rfl
      exact .inl (List.cons.inj hlast).1
    · rw [List.concat_eq_append, ← List.cons_append, ← List.append_assoc] at hsplit
      obtain ⟨hearlier, hlast⟩ := List.append_inj' hsplit rfl
      obtain rfl := (List.cons.inj hlast).1
      rw [List.concat_eq_append, List.forall_mem_append] at hafter
      exact .inr ⟨⟨before, kept, hearlier, hafter.1⟩, hafter.2 _ List.mem_cons_self⟩
  · rintro (rfl | ⟨⟨before, after, rfl, hafter⟩, htransfer⟩)
    · exact ⟨earlier, [], rfl, by simp⟩
    · refine ⟨before, after ++ [operation], by simp, ?_⟩
      rw [List.forall_mem_append]
      exact ⟨hafter, by simpa using htransfer⟩

/-! ## What one operation does -/

/-- A transfer meets a closed line, or a fault, or a line on which octets can move. -/
theorem ready_cases (line : Loopback) :
    (line.closed = true ∧ line.ready = (.error .closed, line)) ∨
      (line.closed = false ∧ line.faultPending = true ∧
        line.ready = (.error injectedFault, { line with faultPending := false })) ∨
      (line.closed = false ∧ line.faultPending = false ∧ line.ready = (.ok (), line)) := by
  unfold ready
  cases hclosed : line.closed <;> cases hfault : line.faultPending <;> simp

/-- A transfer that meets a closed line, or a fault, moves nothing. -/
theorem operate_of_error {after : Loopback} {fault : LinkError}
    (htransfer : operation.isTransfer = true) (hready : line.ready = (.error fault, after)) :
    (operate operation line).1.fault = some fault ∧ (operate operation line).2 = after := by
  cases operation with
  | available =>
      show (Answer.count line.available.1).fault = _ ∧ line.available.2 = _
      simp [Loopback.available, hready, Answer.fault]
  | read buffer =>
      have hread : Link.read buffer.length line = (.error fault, after) := by
        show line.read buffer.length = _
        rw [Loopback.read, hready]
      simp [operate, Link.readInto, hread, Answer.fault]
  | write bytes =>
      show (Answer.count (line.write bytes).1).fault = _ ∧ (line.write bytes).2 = _
      simp [Loopback.write, hready, Answer.fault]
  | _ => exact absurd htransfer (by simp [Operation.isTransfer])

theorem operate_available_of_ok (hready : line.ready = (.ok (), line)) :
    operate .available line = (.count (.ok line.toHost.length), line) := by
  show (Answer.count line.available.1, line.available.2) = _
  rw [Loopback.available, hready]

/-- A read takes the oldest octets, as many as fit, and writes over as many places at the
front of the buffer. -/
theorem operate_read_of_ok (buffer : Bytes) (hready : line.ready = (.ok (), line)) :
    let got := line.toHost.take buffer.length
    operate (.read buffer) line =
      (.filled (.ok (got.length, got ++ buffer.drop got.length)),
        { line with toHost := line.toHost.drop buffer.length }) := by
  intro got
  have hread : Link.read buffer.length line =
      (.ok got, { line with toHost := line.toHost.drop buffer.length }) := by
    show line.read buffer.length = _
    rw [Loopback.read, hready]
  rw [operate, Link.readInto, hread]

theorem operate_write_of_ok (bytes : Bytes) (hready : line.ready = (.ok (), line)) :
    let count := line.accepted bytes.length
    operate (.write bytes) line =
      (.count (.ok count), { line with toPeer := line.toPeer ++ bytes.take count }) := by
  intro count
  show (Answer.count (line.write bytes).1, (line.write bytes).2) = _
  rw [Loopback.write, hready]

theorem fault_of_ok (operation : Operation) (hready : line.ready = (.ok (), line)) :
    (operate operation line).1.fault = none := by
  cases operation with
  | available => rw [operate_available_of_ok hready]; rfl
  | read buffer => rw [operate_read_of_ok buffer hready]; rfl
  | write bytes => rw [operate_write_of_ok bytes hready]; rfl
  | _ => rfl

/-- A transfer that does not fail found that octets could move. -/
theorem ready_of_fault_eq_none (operation : Operation) (htransfer : operation.isTransfer = true)
    (h : (operate operation line).1.fault = none) : line.ready = (.ok (), line) := by
  rcases line.ready_cases with ⟨-, hready⟩ | ⟨-, -, hready⟩ | ⟨-, -, hready⟩
  · simp [(operate_of_error htransfer hready).1] at h
  · simp [(operate_of_error htransfer hready).1] at h
  · exact hready

/-- An operation that fails leaves both queues as they are. -/
theorem queues_of_fault (h : (operate operation line).1.fault ≠ none) :
    (operate operation line).2.toHost = line.toHost ∧
      (operate operation line).2.toPeer = line.toPeer := by
  have htransfer : operation.isTransfer = true := by
    cases operation with
    | available | read | write => rfl
    | _ => exact absurd rfl h
  rcases line.ready_cases with ⟨-, hready⟩ | ⟨-, -, hready⟩ | ⟨-, -, hready⟩
  · rw [(operate_of_error htransfer hready).2]
    exact ⟨rfl, rfl⟩
  · rw [(operate_of_error htransfer hready).2]
    exact ⟨rfl, rfl⟩
  · exact absurd (fault_of_ok operation hready) h

/-- What an operation does to a line. -/
structure Effect (operation : Operation) (line : Loopback) (acted : Answer × Loopback) : Prop where
  toHost : received (operation, acted.1) ++ acted.2.toHost = line.toHost ++ operation.injected
  toPeer : collected (operation, acted.1) ++ acted.2.toPeer =
    line.toPeer ++ sent (operation, acted.1)
  limit : acted.2.writeLimit = operation.newLimit.getD line.writeLimit
  closed : acted.2.closed = true ↔ line.closed = true ∨ operation = .close
  fault : line.closed = false → (acted.2.faultPending = true ↔
    operation = .injectFault ∨ (line.faultPending = true ∧ operation.isTransfer = false))

theorem moved_of_fault (operation : Operation) {answer : Answer} {fault : LinkError}
    (h : answer.fault = some fault) :
    received (operation, answer) = [] ∧ sent (operation, answer) = [] ∧
      collected (operation, answer) = [] := by
  match answer with
  | .count (.error _) | .filled (.error _) | .done (.error _) =>
      cases operation <;> exact ⟨rfl, rfl, rfl⟩

theorem effect_of_transfer (line : Loopback) (htransfer : operation.isTransfer = true) :
    Effect operation line (operate operation line) := by
  have hkind : operation.newLimit = none ∧ operation.injected = [] ∧ operation ≠ .close ∧
      operation ≠ .injectFault := by
    cases operation <;> simp_all [Operation.isTransfer, Operation.newLimit, Operation.injected]
  obtain ⟨hlimit, hinjected, hclose, hinject⟩ := hkind
  rcases line.ready_cases with ⟨hclosed, hready⟩ | ⟨hopen, hfault, hready⟩ | ⟨hopen, hfault, hready⟩
  · obtain ⟨hanswer, hafter⟩ := operate_of_error htransfer hready
    obtain ⟨hreceived, hsent, hcollected⟩ := moved_of_fault operation hanswer
    constructor <;> simp [*]
  · obtain ⟨hanswer, hafter⟩ := operate_of_error htransfer hready
    obtain ⟨hreceived, hsent, hcollected⟩ := moved_of_fault operation hanswer
    constructor <;> simp [*]
  · cases operation with
    | available =>
        rw [operate_available_of_ok hready]
        constructor <;> simp_all [received, sent, collected]
    | read buffer =>
        rw [operate_read_of_ok buffer hready]
        constructor <;> simp_all [received, sent, collected]
    | write bytes =>
        rw [operate_write_of_ok bytes hready]
        constructor <;> simp_all [received, sent, collected]
    | _ => exact absurd htransfer (by simp [Operation.isTransfer])

theorem effect_operate (operation : Operation) (line : Loopback) :
    Effect operation line (operate operation line) := by
  cases operation with
  | available | read | write => exact effect_of_transfer line rfl
  | _ =>
      constructor <;>
        simp [operate, received, sent, collected, Operation.injected, Operation.newLimit,
          Operation.isTransfer, Link.close, Loopback.close, inject, takeWritten, awaitWritten,
          limitWrites, injectFault]

/-! ## What a row of operations does -/

/-- The state of a line told by the operations made so far and what they answered. -/
structure Balanced (earlier : List Operation) (history : List (Operation × Answer))
    (line : Loopback) : Prop where
  toHost : history.flatMap received ++ line.toHost = earlier.flatMap Operation.injected
  toPeer : history.flatMap collected ++ line.toPeer = history.flatMap sent
  limit : line.writeLimit = limitAfter earlier
  closed : line.closed = true ↔ .close ∈ earlier
  fault : .close ∉ earlier → (line.faultPending = true ↔ FaultDue earlier)

variable {history : List (Operation × Answer)}

theorem balanced_new : Balanced [] [] {} where
  toHost := rfl
  toPeer := rfl
  limit := rfl
  closed := by simp
  fault _ := by simp [FaultDue]

theorem Balanced.closed_eq_false (h : Balanced earlier history line) (hclose : .close ∉ earlier) :
    line.closed = false := by
  rw [Bool.eq_false_iff, Ne, h.closed]
  exact hclose

theorem Balanced.operate (h : Balanced earlier history line) (operation : Operation) :
    Balanced (earlier ++ [operation]) (history ++ [(operation, (operate operation line).1)])
      (Loopback.operate operation line).2 := by
  have heffect := effect_operate operation line
  constructor
  · simp only [List.flatMap_append, List.flatMap_cons, List.flatMap_nil, List.append_nil,
      List.append_assoc]
    rw [heffect.toHost, ← List.append_assoc, h.toHost]
  · simp only [List.flatMap_append, List.flatMap_cons, List.flatMap_nil, List.append_nil,
      List.append_assoc]
    rw [heffect.toPeer, ← List.append_assoc, h.toPeer]
  · rw [heffect.limit, h.limit, limitAfter_concat]
  · rw [heffect.closed, h.closed, List.mem_append, List.mem_singleton, eq_comm (a := operation)]
  · intro hclose
    have hbefore : .close ∉ earlier := fun hmem => hclose (List.mem_append_left _ hmem)
    rw [heffect.fault (h.closed_eq_false hbefore), h.fault hbefore, faultDue_concat_iff]

theorem balanced_inTurn (earlier : List Operation) :
    let run := inTurn operate earlier {}
    Balanced earlier (earlier.zip run.1) run.2 := by
  intro run
  simp only [run]
  induction earlier using List.reverseRecOn with
  | nil => exact balanced_new
  | append_singleton earlier operation ih =>
      rw [inTurn_append, List.zip_append (length_inTurn earlier _).symm]
      exact ih.operate operation

/-- What the operations made so far say a transfer meets. -/
theorem Balanced.ready_of_close (h : Balanced earlier history line) (hclose : .close ∈ earlier) :
    line.ready = (.error .closed, line) := by
  rw [ready, if_pos (h.closed.mpr hclose)]

theorem Balanced.ready_of_due (h : Balanced earlier history line) (hclose : .close ∉ earlier)
    (hdue : FaultDue earlier) :
    line.ready = (.error injectedFault, { line with faultPending := false }) := by
  simp [ready, h.closed_eq_false hclose, (h.fault hclose).mpr hdue]

theorem Balanced.ready_of_not_due (h : Balanced earlier history line) (hclose : .close ∉ earlier)
    (hdue : ¬ FaultDue earlier) : line.ready = (.ok (), line) := by
  have hfault : line.faultPending = false := by
    rw [Bool.eq_false_iff, Ne, h.fault hclose]
    exact hdue
  simp [ready, h.closed_eq_false hclose, hfault]

/-- **Nothing is lost on a line in memory**: after any row of operations on a new line,

* the octets that reads returned, followed by those unread, are all that were injected;
* the octets that the peer took, followed by those it has yet to take, are those that
  writes got accepted.

Of whatever operation comes next, moreover,

* a transfer fails as closed if the line was closed, and then changes nothing, not even a
  pending fault; it fails by the fault if one is due, and uses it up; otherwise it does
  not fail;
* an operation that fails leaves both queues as they are;
* a read fills the front of the buffer and keeps the rest, and a write gets as many octets
  accepted as the limit that was set last allows. -/
theorem octets_conserved (earlier : List Operation) :
    let run := inTurn operate earlier {}
    let history := earlier.zip run.1
    let line := run.2
    history.flatMap received ++ line.toHost = earlier.flatMap Operation.injected ∧
      history.flatMap collected ++ line.toPeer = history.flatMap sent ∧
      ∀ operation : Operation,
        let acted := operate operation line
        (operation.isTransfer = true →
          (.close ∈ earlier → acted.1.fault = some .closed ∧ acted.2 = line) ∧
            (.close ∉ earlier →
              (FaultDue earlier → acted.1.fault = some injectedFault ∧
                acted.2 = { line with faultPending := false }) ∧
              (¬ FaultDue earlier → acted.1.fault = none))) ∧
          (acted.1.fault ≠ none → acted.2.toHost = line.toHost ∧ acted.2.toPeer = line.toPeer) ∧
          (∀ count, operation = .available → acted.1 = .count (.ok count) →
            count = line.toHost.length) ∧
          (∀ buffer count after, operation = .read buffer → acted.1 = .filled (.ok (count, after)) →
            count = min buffer.length line.toHost.length ∧
              after = line.toHost.take count ++ buffer.drop count) ∧
          ∀ bytes count, operation = .write bytes → acted.1 = .count (.ok count) →
            count = (limitAfter earlier).elim bytes.length (min bytes.length) := by
  intro run history line
  have hbalanced : Balanced earlier history line := balanced_inTurn earlier
  refine ⟨hbalanced.toHost, hbalanced.toPeer, fun operation => ?_⟩
  refine ⟨fun htransfer => ⟨fun hclose => ?_, fun hclose => ⟨fun hdue => ?_, fun hdue => ?_⟩⟩,
    queues_of_fault, ?_, ?_, ?_⟩
  · exact operate_of_error htransfer (hbalanced.ready_of_close hclose)
  · exact operate_of_error htransfer (hbalanced.ready_of_due hclose hdue)
  · exact fault_of_ok operation (hbalanced.ready_of_not_due hclose hdue)
  · rintro count rfl hanswer
    have hready := ready_of_fault_eq_none .available rfl (by rw [hanswer]; rfl)
    rw [operate_available_of_ok hready] at hanswer
    simpa using hanswer.symm
  · rintro buffer count after rfl hanswer
    have hready := ready_of_fault_eq_none (.read buffer) rfl (by rw [hanswer]; rfl)
    rw [operate_read_of_ok buffer hready] at hanswer
    simp only [Answer.filled.injEq, Except.ok.injEq, Prod.mk.injEq] at hanswer
    obtain ⟨rfl, rfl⟩ := hanswer
    rw [List.length_take, List.take_eq_take_min]
    exact ⟨rfl, rfl⟩
  · rintro bytes count rfl hanswer
    have hready := ready_of_fault_eq_none (.write bytes) rfl (by rw [hanswer]; rfl)
    rw [operate_write_of_ok bytes hready] at hanswer
    simp only [Answer.count.injEq, Except.ok.injEq] at hanswer
    rw [← hanswer, accepted, ← hbalanced.limit]
    cases line.writeLimit <;> rfl

/-- Two faults injected before a read count once, and one injected on the closed line
stays pending. -/
example :
    let operations : List Operation :=
      [.inject [1, 2, 3], .injectFault, .injectFault, .read [0, 0], .read [0, 0],
        .limitWrites (some 1), .write [7, 8], .close, .injectFault, .available]
    let run := inTurn operate operations {}
    run.1.map Answer.fault =
        [none, none, none, some injectedFault, none, none, none, none, none, some .closed] ∧
      run.2 = { toHost := [3], toPeer := [7], writeLimit := some 1, faultPending := true,
                closed := true } := by
  decide

/-! ## Waits of the peer -/

/-- What came of a wait of the peer. -/
structure Waited where
  /-- What others were answered meanwhile. -/
  answers : List Answer := []
  /-- What the peer took; nothing as long as it sleeps. -/
  taken : Option Bytes := none
  /-- The line afterwards. -/
  line : Loopback

/-- The peer takes everything, at the end of its wait. -/
def Waited.atEnd (least : Nat) (line : Loopback) : Waited where
  taken := some (line.awaitWritten least).1
  line := (line.awaitWritten least).2

/-- The peer waits until `least` octets wait for it, the line is closed or the deadline is
reached, and takes everything. Others make operations between its looks. -/
def wait (least : Nat) (deadline : Duration) : List (Pause Operation) → Loopback → Waited
  | pauses, line =>
      if least ≤ line.toPeer.length ∨ line.closed = true then .atEnd least line
      else
        match pauses with
        | [] => { line }
        | pause :: later =>
            if deadline ≤ pause.reading then .atEnd least line
            else
              let others := inTurn operate pause.others line
              let rest := wait least deadline later others.2
              { rest with answers := others.1 ++ rest.answers }

/-- The operations made during a wait: those of others between the looks, and behind them, when
the wait is over, that of the peer. -/
def waitOperations (least : Nat) (deadline : Duration) :
    List (Pause Operation) → Loopback → List Operation
  | pauses, line =>
      if least ≤ line.toPeer.length ∨ line.closed = true then [.awaitWritten least]
      else
        match pauses with
        | [] => []
        | pause :: later =>
            if deadline ≤ pause.reading then [.awaitWritten least]
            else
              pause.others ++
                waitOperations least deadline later (inTurn operate pause.others line).2

/-- A wait does what its operations do, one after the other. -/
theorem wait_eq_inTurn (least : Nat) (deadline : Duration) (pauses : List (Pause Operation))
    (line : Loopback) :
    let waited := line.wait least deadline pauses
    inTurn operate (waitOperations least deadline pauses line) line =
      (waited.answers ++ waited.taken.toList.map .taken, waited.line) := by
  induction pauses generalizing line with
  | nil =>
      unfold wait waitOperations
      split <;> rfl
  | cons pause later ih =>
      by_cases hready : least ≤ line.toPeer.length ∨ line.closed = true
      · simp only [wait, waitOperations, if_pos hready]
        rfl
      by_cases hreading : deadline ≤ pause.reading
      · simp only [wait, waitOperations, if_neg hready, if_pos hreading]
        rfl
      · simp only [wait, waitOperations, if_neg hready, if_neg hreading, inTurn_append, ih,
          List.append_assoc]

/-- **Nothing is lost while the peer waits**: behind any row of operations and a wait of the
peer, amid whatever others do, what reads returned, what the peer took and what writes got
accepted balance as they do behind a row of operations. -/
theorem wait_conserves (earlier : List Operation) (least : Nat) (deadline : Duration)
    (pauses : List (Pause Operation)) :
    let run := inTurn operate earlier {}
    let waited := run.2.wait least deadline pauses
    let operations := earlier ++ waitOperations least deadline pauses run.2
    let history := operations.zip (run.1 ++ (waited.answers ++ waited.taken.toList.map .taken))
    history.flatMap received ++ waited.line.toHost = operations.flatMap Operation.injected ∧
      history.flatMap collected ++ waited.line.toPeer = history.flatMap sent := by
  intro run waited operations history
  have hbalanced := balanced_inTurn operations
  have hwait : inTurn operate (waitOperations least deadline pauses run.2) run.2 =
      (waited.answers ++ waited.taken.toList.map .taken, waited.line) :=
    wait_eq_inTurn least deadline pauses run.2
  simp only [operations, inTurn_append] at hbalanced
  rw [hwait] at hbalanced
  exact ⟨hbalanced.toHost, hbalanced.toPeer⟩

end Loopback

end PeripheralHost
