import PeripheralHost.Event
import PeripheralHost.Link.Scripted

/-!
# Rehearsing a session

A rehearsal is a session over a scripted link, played by one hand: after every
act of a caller or of the script the receiver makes visits until the line is
*quiet*, that is, until further visits would change nothing. The clock stands
still throughout.

To know when the line is quiet, `load` counts what the receiver still has to
work on: octets to read, octets of a frame in progress, frames in hand, and
entries of the script it will use up. Filing a frame lowers the load. A poll
that does not lower it has found nothing to do, and a further poll would find
the same.

A caller that waits during a rehearsal looks into its mailbox after every
single visit of the receiver, and gives up when the line is quiet and its
budget is spent.

## Main results

* `load_fileNext` — filing the next frame lowers the load by one.
-/

namespace PeripheralHost

/-- A session over a scripted link. -/
abbrev Rehearsal := Session Scripted

namespace Rehearsal

/-- A rehearsal with the given settings, over an empty line. -/
def ofSettings (settings : SessionSettings) : Rehearsal := Session.ofLink {} settings

/-- How much the receiver has to work on. -/
def load (session : Rehearsal) : Nat :=
  2 * session.link.line.unread + session.intake.assembler.pending.length + session.inHand.length +
    session.link.reports.length + session.link.readsToFailure +
    (if session.link.line.faultPending then 1 else 0) +
    (if session.intake.inProgress && session.intake.since.isNone then 1 else 0)

theorem load_fileNext {session next : Rehearsal} {filed : Frame × Filing}
    (h : session.fileNext = (some filed, next)) : load next + 1 = load session := by
  unfold Session.fileNext at h
  split at h
  · simp at h
  · next frame inHand hand =>
      simp only [Prod.mk.injEq] at h
      rw [← h.2]
      simp only [load, hand, List.length_cons]
      omega

/-- Lets the receiver make visits until the line is quiet; at least one. -/
def settle (session : Rehearsal) : List Session.Progress × Rehearsal :=
  match _h : session.fileNext with
  | (some (frame, filing), next) =>
      let (later, quiet) := settle next
      (.filed frame filing :: later, quiet)
  | (none, _) =>
      let (progress, next) := session.advance .zero
      if load next < load session then
        let (later, quiet) := settle next
        (progress :: later, quiet)
      else ([progress], next)
termination_by load session
decreasing_by
  · have := load_fileNext _h
    omega
  · assumption

/-- The rounds of a caller that starts to wait now: one for each visit of the
receiver until the line is quiet, and one in which the budget is spent. -/
def rounds (session : Rehearsal) (budget : Duration) : List (Round Scripted) :=
  List.replicate (settle session).1.length ⟨.zero, [.receiver .zero]⟩ ++ [⟨budget, []⟩]

/-! ## Callers -/

/-- Sends a request and waits for its reply. -/
def request (command : UInt8) (params : Bytes) (budget : Duration) (session : Rehearsal) :
    Exchange Scripted Reply :=
  Session.request command params [] .zero budget
    (rounds (session.sendRequest command params).2 budget) session

/-- Sends a request and answers the result data of its reply. -/
def call (command : UInt8) (params : Bytes) (budget : Duration) (session : Rehearsal) :
    Exchange Scripted Bytes :=
  Session.call command params [] .zero budget
    (rounds (session.sendRequest command params).2 budget) session

/-- Waits for the reply to a request sent before. -/
def awaitReply (command : UInt8) (budget : Duration) (session : Rehearsal) :
    Exchange Scripted Reply :=
  Session.awaitReply command .zero budget (rounds session budget) session

/-- Waits for a frame of a topic. -/
def awaitLatest (topic : Topic) (budget : Duration) (session : Rehearsal) :
    Exchange Scripted Frame :=
  Session.awaitLatest topic .zero budget (rounds session budget) session

/-- Takes everything the host has written. -/
def takeWritten (session : Rehearsal) : Bytes × Rehearsal :=
  let (bytes, link) := session.link.takeWritten
  (bytes, { session with link })

end Rehearsal

end PeripheralHost
