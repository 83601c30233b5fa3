import PeripheralHost.Frame.Assembler
import PeripheralHost.Frame.Limits
import PeripheralHost.Link.Basic

/-!
# Taking in frames from a link

An `Intake` pulls octets off a link and assembles them. It never waits: one
poll asks the link how many octets there are, takes at most that many, and
answers what they settled. A frame that has started stays with the intake
until its rest arrives, or until it is overdue; then the next poll abandons it
before it reads.

A poll has two halves that do not look at each other. `drain` empties the link
and never sees a frame; the assembler is fed what was drained and never sees
the link. Draining counts down from what the link reported, so it ends
whatever the link does, at the first read that fails or returns nothing.

When a read fails, the poll fails. The octets drained before have been fed to
the assembler all the same, but what they settled is not answered and not
counted, and the start of the frame in progress is left as it was.

A frame in progress is *since* the reading of the clock at the end of the poll
that began it. If a poll settled anything, the frame in progress began during
that poll; if it settled nothing, an earlier start stands.

## Main results

* `poll_unavailable` — a poll of a link that cannot say what is there leaves
  the intake as it was.
-/

namespace PeripheralHost

/-- What was taken off a link. -/
structure Haul (σ : Type) where
  /-- The octets of each read, in order. -/
  pieces : List Bytes
  /-- The failure that ended the reading, if there was one. -/
  fault : Option LinkError
  /-- The link afterwards. -/
  link : σ

/-- Reads at most `chunk` octets at a time and at most `available` in all,
behind the pieces in `taken`, newest first. -/
def drain {σ : Type} [Link σ] (chunk available : Nat) (link : σ) (taken : List Bytes) : Haul σ :=
  if _more : 0 < available then
    match Link.read (min available chunk) link with
    | (.error fault, link) => ⟨taken.reverse, some fault, link⟩
    | (.ok [], link) => ⟨taken.reverse, none, link⟩
    | (.ok (b :: rest), link) =>
        drain chunk (available - (rest.length + 1)) link ((b :: rest) :: taken)
  else ⟨taken.reverse, none, link⟩
termination_by available
decreasing_by omega

/-- Pulls octets off a link and assembles frames. -/
structure Intake where
  /-- The limits within which frames are taken in. -/
  limits : FrameLimits := {}
  /-- Holds the frame in progress. -/
  assembler : Assembler := { limit := limits.maxBody }
  /-- The number of refusals answered so far. -/
  discarded : Nat := 0
  /-- When the frame in progress started. -/
  since : Option Duration := none
  deriving DecidableEq, Repr, Inhabited

namespace Intake

/-- A new intake. -/
def ofLimits (limits : FrameLimits) : Intake := { limits }

/-- Whether a frame is in progress. -/
def inProgress (intake : Intake) : Bool := !intake.assembler.isIdle

/-- Whether the frame in progress has been so for as long as it may. -/
def overdue (now : Duration) (intake : Intake) : Bool :=
  match intake.since with
  | some start => decide (intake.limits.frameTimeout ≤ Duration.between start now)
  | none => false

/-- Abandons an overdue frame. -/
def expire (now : Duration) (intake : Intake) : List Outcome × Intake :=
  if intake.overdue now then
    let (outcomes, assembler) := Assembler.abandon intake.assembler
    (outcomes, { intake with assembler })
  else ([], intake)

/-- Notes the end of a poll that settled `outcomes`. -/
def settle (now : Duration) (outcomes : List Outcome) (intake : Intake) : Intake :=
  { intake with
    discarded := intake.discarded + Outcome.refusals outcomes
    since :=
      if intake.assembler.isIdle then none
      else if intake.since.isNone || !outcomes.isEmpty then some now
      else intake.since }

/-- Takes what the link has and answers what it settled, in order. Fails only
as the link fails. -/
def poll {σ : Type} [Link σ] (now : Duration) (intake : Intake) (link : σ) :
    Except LinkError (List Outcome) × Intake × σ :=
  match Link.available link with
  | (.error fault, link) => (.error fault, intake, link)
  | (.ok available, link) =>
      let haul := drain intake.limits.chunk available link []
      let (expired, intake) := intake.expire now
      let (fed, assembler) := Assembler.feedAll haul.pieces intake.assembler
      let intake := { intake with assembler }
      match haul.fault with
      | some fault => (.error fault, intake, haul.link)
      | none => (.ok (expired ++ fed), intake.settle now (expired ++ fed), haul.link)

theorem poll_unavailable {σ : Type} [Link σ] {now : Duration} {intake : Intake} {link next : σ}
    {fault : LinkError} (h : Link.available link = (.error fault, next)) :
    intake.poll now link = (.error fault, intake, next) := by
  simp [poll, h]

end Intake

end PeripheralHost
