import PeripheralHost.Link.Scripted
import PeripheralHost.Proofs.Placement
import PeripheralHost.Proofs.Visits

/-!
# What arrives on the line

Of a link only one thing matters to the receiver: the octets that wait to be
read. An `Inlet` is a view of a link that shows them. A read that succeeds takes
octets off in front; a read that fails, or a question about what is available,
takes none; a write may make the controller answer, and then octets join behind.
The other end of the link may do what it likes, as long as it takes nothing back
(`Session.Injects`).

What joins behind during a row of visits are its `arrivals`. Together with what
was waiting before they are the stream that the visits of the receiver work on:
a poll feeds the assembler what it takes off the line, whether or not a later
read of it fails (`Session.poll_performs`).

## Main results

* `Inlet.drain` — draining takes off the line what it answers.
* `Session.poll_performs` — a poll in terms of its calls and the line.
* `Session.Throughout.preserves` — an invariant of every visit is one of every
  row.
-/

namespace PeripheralHost

/-- A view of links that shows the octets on the line. -/
structure Inlet (σ : Type) [Link σ] where
  /-- The octets that the host has yet to read, oldest first. -/
  waiting : σ → Bytes
  available : ∀ link, waiting (Link.available link).2 = waiting link
  read : ∀ {want : Nat} {link next : σ} {got : Bytes},
    Link.read want link = (.ok got, next) → waiting link = got ++ waiting next
  read_error : ∀ {want : Nat} {link next : σ} {fault : LinkError},
    Link.read want link = (.error fault, next) → waiting next = waiting link
  write : ∀ (bytes : Bytes) (link : σ), waiting link <+: waiting (Link.write bytes link).2

variable {σ : Type} [Link σ]

/-- Draining takes the octets in the order in which they wait, and no others are
taken, even if a read fails. -/
theorem Inlet.drain (inlet : Inlet σ) (chunk available : Nat) (link : σ) (taken : List Bytes) :
    (drain chunk available link taken).pieces.flatten ++
        inlet.waiting (drain chunk available link taken).link =
      taken.reverse.flatten ++ inlet.waiting link := by
  fun_induction PeripheralHost.drain chunk available link taken with
  | case1 available link taken hmore fault next hread => rw [inlet.read_error hread]
  | case2 available link taken hmore next hread =>
      rw [inlet.read hread]
      rfl
  | case3 available link taken hmore b rest next hread ih =>
      rw [ih, inlet.read hread]
      simp
  | case4 available link taken hmore => rfl

theorem Inlet.prefix_flush (inlet : Inlet σ) (sender : Sender) (link : σ) :
    inlet.waiting link <+: inlet.waiting (sender.flush link).2 := by
  have hwrite := inlet.write sender.buffer link
  unfold Sender.flush
  split
  · split
    · next hwritten => rwa [hwritten] at hwrite
    · next hwritten =>
        rw [hwritten] at hwrite
        split <;> exact hwrite
  · exact List.prefix_rfl

theorem Inlet.prefix_transmit (inlet : Inlet σ) (written : Except FrameError Bytes)
    (sender : Sender) (link : σ) :
    inlet.waiting link <+: inlet.waiting (sender.transmit written link).2.2 := by
  unfold Sender.transmit
  split
  · exact List.prefix_rfl
  · exact inlet.prefix_flush _ link

namespace Loopback

theorem toHost_ready (line : Loopback) : line.ready.2.toHost = line.toHost := by
  unfold ready
  split
  · rfl
  · split <;> rfl

/-- The octets injected into a line in memory. -/
def inlet : Inlet Loopback where
  waiting line := line.toHost
  available line := by
    have hready := line.toHost_ready
    show line.available.2.toHost = line.toHost
    unfold available
    split <;> simp_all
  read := by
    intro want line next got hread
    replace hread : line.read want = (.ok got, next) := hread
    unfold Loopback.read at hread
    split at hread
    · simp at hread
    · next ready hready =>
        simp only [Prod.mk.injEq, Except.ok.injEq] at hread
        obtain ⟨rfl, rfl⟩ := hread
        rw [ready_eq_ok hready, List.take_append_drop]
  read_error := by
    intro want line next fault hread
    replace hread : line.read want = (.error fault, next) := hread
    have hready := line.toHost_ready
    unfold Loopback.read at hread
    split at hread <;> simp_all
  write bytes line := by
    have hready := line.toHost_ready
    show line.toHost <+: (line.write bytes).2.toHost
    unfold write
    split <;> simp_all

end Loopback

namespace Scripted

/-- The octets that wait on a scripted line. -/
def inlet : Inlet Scripted where
  waiting script := script.line.toHost
  available script := by
    have hline : script.line.available.2.toHost = script.line.toHost :=
      Loopback.inlet.available script.line
    show script.available.2.line.toHost = script.line.toHost
    rw [← hline]
    unfold available
    split
    · rw [hline]
    · split
      · next hasked => exact congrArg (·.2.line.toHost) hasked.symm
      · next hasked _ => exact congrArg (·.2.line.toHost) hasked.symm
      · next hasked _ => exact congrArg (·.2.line.toHost) hasked.symm
  read := by
    intro want script next got hread
    replace hread : script.read want = (.ok got, next) := hread
    unfold Scripted.read at hread
    split at hread
    · simp at hread
    · obtain ⟨hgot, rfl⟩ := Prod.mk.inj hread
      exact Loopback.inlet.read (Prod.ext hgot rfl)
  read_error := by
    intro want script next fault hread
    replace hread : script.read want = (.error fault, next) := hread
    unfold Scripted.read at hread
    split at hread
    · obtain ⟨-, rfl⟩ := Prod.mk.inj hread
      rfl
    · obtain ⟨hfault, rfl⟩ := Prod.mk.inj hread
      exact Loopback.inlet.read_error (Prod.ext hfault rfl)
  write bytes script := by
    have hline : script.line.toHost <+: (script.line.write bytes).2.toHost :=
      Loopback.inlet.write bytes script.line
    show script.line.toHost <+: (script.write bytes).2.line.toHost
    unfold write
    split
    · exact List.prefix_rfl
    · split
      · next hwritten =>
          rw [← show _ = _ from congrArg (·.2.line.toHost) hwritten]
          exact hline
      · next hwritten =>
          rw [show (script.line.write bytes).2.toHost = _ from
            congrArg (·.2.line.toHost) hwritten] at hline
          exact hline.trans (List.prefix_append _ _)

end Scripted

theorem Assembler.octets_feeds (pieces : List Bytes) :
    octets (pieces.map .feed) = pieces.flatten := by
  rw [octets, List.flatMap_map]
  exact List.flatMap_id

/-- A poll of a link that says what is available feeds what it drains. -/
theorem Intake.octets_calls {now : Duration} {intake : Intake} {link opened : σ} {available : Nat}
    (h : Link.available link = (.ok available, opened)) :
    Assembler.octets (intake.calls now link) =
      (PeripheralHost.drain intake.limits.chunk available opened []).pieces.flatten := by
  have hpieces := Assembler.octets_feeds
    (PeripheralHost.drain intake.limits.chunk available opened []).pieces
  rw [Assembler.octets] at hpieces ⊢
  rw [calls, h, List.flatMap_append, hpieces]
  split <;> rfl

/-- What a poll feeds is what it takes off the line. -/
theorem Intake.waiting_poll (inlet : Inlet σ) (now : Duration) (intake : Intake) (link : σ) :
    inlet.waiting link = Assembler.octets (intake.calls now link) ++
      inlet.waiting (intake.poll now link).2.2 := by
  have hopened := inlet.available link
  match havailable : Link.available link with
  | (.error fault, opened) =>
      rw [havailable] at hopened
      rw [poll_unavailable havailable, calls, havailable]
      exact hopened.symm
  | (.ok available, opened) =>
      rw [havailable] at hopened
      have hlink : (intake.poll now link).2.2 =
          (PeripheralHost.drain intake.limits.chunk available opened []).link := by
        rw [poll_of_available havailable]
        split <;> rfl
      rw [octets_calls havailable, hlink, ← hopened, inlet.drain]
      rfl

namespace Session

/-! ## Polls -/

/-- A poll makes its calls on the assembler. The frames are in hand afterwards,
unless the poll fails. -/
theorem poll_performs (now : Duration) (session : Session σ) :
    let performed :=
      Assembler.perform (session.intake.calls now session.link) session.intake.assembler
    ∃ (intake : Intake) (taken : List Frame),
      (session.poll now).2 =
          { session with
            link := (session.intake.poll now session.link).2.2
            intake
            inHand := session.inHand ++ taken } ∧
        intake.assembler = performed.2 ∧
        (((session.poll now).1 = .ok performed.1 ∧ taken = Outcome.frames performed.1) ∨
          ((∃ fault, (session.poll now).1 = .error fault) ∧ taken = [])) := by
  intro performed
  rcases Intake.poll_eq now session.intake session.link with
    ⟨fault, next, hpoll⟩ | ⟨next, hpoll⟩
  · rw [poll, hpoll]
    exact ⟨_, [], rfl, rfl, .inr ⟨⟨fault, rfl⟩, rfl⟩⟩
  · rw [poll, hpoll]
    exact ⟨_, _, rfl, rfl, .inl ⟨rfl, rfl⟩⟩

/-! ## Arrivals -/

/-- The other end of the link takes nothing back that is on the line. -/
def Injects (inlet : Inlet σ) : Visit σ → Session σ → Prop
  | .peer act, session => inlet.waiting session.link <+: inlet.waiting (act session.link)
  | _, _ => True

instance (inlet : Inlet σ) : ∀ visit session, Decidable (Injects inlet visit session)
  | .peer act, session =>
      inferInstanceAs (Decidable (inlet.waiting session.link <+: inlet.waiting (act session.link)))
  | .receiver _, _ | .send _ _, _ | .popOldest _, _ | .takeLatest _, _ | .clear _, _ | .look _, _ =>
      .isTrue trivial

/-- The octets that join those on the line during a visit. -/
def arrival (inlet : Inlet σ) : Visit σ → Session σ → Bytes
  | .receiver _, _ => []
  | visit, session =>
      (inlet.waiting (session.visit visit).2.link).drop (inlet.waiting session.link).length

/-- The octets that join those on the line during a row of visits. -/
def arrivals (inlet : Inlet σ) : List (Visit σ) → Session σ → Bytes
  | [], _ => []
  | visit :: visits, session =>
      session.arrival inlet visit ++ arrivals inlet visits (session.visit visit).2

theorem prefix_sendRequest (inlet : Inlet σ) (command : UInt8) (params : Bytes)
    (session : Session σ) :
    inlet.waiting session.link <+:
      inlet.waiting (session.sendRequest command params).2.link := by
  have hsent := inlet.prefix_transmit (encodeRequest command params) session.sender session.link
  unfold sendRequest transmit transmitNow Sender.sendRequest
  split
  · exact List.prefix_rfl
  · split
    · next hacted => rwa [hacted] at hsent
    · next hacted => rwa [hacted] at hsent

/-- A visit of anybody but the receiver adds what arrives to what waits. -/
theorem waiting_visit (inlet : Inlet σ) {visit : Visit σ} {session : Session σ}
    (hinjects : Injects inlet visit session) (hcaller : ∀ now, visit ≠ .receiver now) :
    inlet.waiting (session.visit visit).2.link =
      inlet.waiting session.link ++ session.arrival inlet visit := by
  have hprefix : inlet.waiting session.link <+: inlet.waiting (session.visit visit).2.link := by
    cases visit with
    | receiver now => exact absurd rfl (hcaller now)
    | peer act => exact hinjects
    | send command params => exact prefix_sendRequest inlet command params session
    | popOldest topic => exact List.prefix_rfl
    | takeLatest topic => exact List.prefix_rfl
    | clear topic => exact List.prefix_rfl
    | look command => exact List.prefix_rfl
  have harrival : session.arrival inlet visit =
      (inlet.waiting (session.visit visit).2.link).drop (inlet.waiting session.link).length := by
    cases visit with
    | receiver now => exact absurd rfl (hcaller now)
    | _ => rfl
  rw [harrival, List.prefix_iff_eq_append.mp hprefix]

/-- What every visit preserves, a row of visits preserves: `I` says how a session
stands to the octets that have arrived and to what came of the visits. -/
theorem Throughout.preserves {p : Visit σ → Session σ → Prop} {visits : List (Visit σ)}
    {session : Session σ} (h : Throughout p visits session) (inlet : Inlet σ)
    (I : Bytes → Report Taken → Session σ → Prop)
    (hstep : ∀ visit arrived report session, p visit session → I arrived report session →
      I (arrived ++ arrival inlet visit session) (report ++ (session.visit visit).1)
        (session.visit visit).2)
    (arrived : Bytes) (report : Report Taken) (hI : I arrived report session) :
    I (arrived ++ session.arrivals inlet visits) (report ++ (session.visitAll visits).1)
      (session.visitAll visits).2 := by
  induction visits generalizing session arrived report with
  | nil =>
      show I (arrived ++ []) ⟨report.given ++ [], report.progress ++ []⟩ session
      simpa using hI
  | cons visit visits ih =>
      rw [arrivals, visitAll, ← List.append_assoc, ← Report.append_assoc]
      exact ih h.2 _ _ (hstep visit arrived report session h.1 hI)

end Session

end PeripheralHost
