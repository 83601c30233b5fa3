import PeripheralHost.Proofs.Teardown

/-!
# Sending while others close

A caller who sends looks whether the session was told to stop, and has the link to
himself only later. In between, another caller may stop the session, see the receiver
end, and release the link. The look then told nothing about the link. What protects the
line is that the sender looks again, whether the link is open, and that it does so while
it has the link to himself: what it offers to the line it offers whole, and what comes
too late is not offered at all.

So each request meets one of two ends. It is written in one piece, once, and its caller
is told so. Or nothing of it is written, and the caller is told that the session is
closed, or that the link is; the two answers differ, but both count as a closed link and
have the same result code.

Each caller sends one request. A thread that sends several is several callers, whose turns
come one behind the other.

## Main results

* `Wire.sendRequest_of_open` — on an open link a request is written whole.
* `Crew.callerTurn_wire` — a turn of a caller writes a whole request, or nothing.
* `Crew.Tally.run` — the books balance on every schedule.
* `Crew.sends_beside_closes` — every request is written once and confirmed, or is not
  written and refused.
-/

namespace PeripheralHost

variable {σ : Type} [Link σ]

/-! ## The peer's view of a link -/

/-- Between two states of a link nothing was written, and the link was not opened. -/
structure Link.Quiet (Sound : σ → Prop) (written : σ → Bytes) (link next : σ) : Prop where
  sound : Sound link → Sound next
  written : written next = written link
  shut : Link.isOpen link = false → Link.isOpen next = false

namespace Link.Quiet

variable {Sound : σ → Prop} {written : σ → Bytes} {first second third : σ}

theorem refl (link : σ) : Link.Quiet Sound written link link := ⟨id, rfl, id⟩

theorem trans (hfirst : Link.Quiet Sound written first second)
    (hsecond : Link.Quiet Sound written second third) : Link.Quiet Sound written first third where
  sound := hsecond.sound ∘ hfirst.sound
  written := hsecond.written.trans hfirst.written
  shut := hsecond.shut ∘ hfirst.shut

end Link.Quiet

/-- What was written to a link, as its peer sees it. Only a write writes. -/
structure Wire (σ : Type) [Link σ] where
  /-- The octets written so far. -/
  written : σ → Bytes
  /-- While the link is open, its writes neither fail nor fall short. -/
  Sound : σ → Prop
  available : ∀ link, Link.Quiet Sound written link (Link.available link).2
  read : ∀ want link, Link.Quiet Sound written link (Link.read want link).2
  close : ∀ link, Link.Quiet Sound written link (Link.close link).2
  write : ∀ {link} (octets : Bytes), Sound link → Link.isOpen link = true →
    ∃ next, Link.write octets link = (.ok octets.length, next) ∧ Sound next ∧
      written next = written link ++ octets
  /-- A link that was closed is not open. -/
  closes : ∀ {link next : σ}, Link.close link = (.ok (), next) → Link.isOpen next = false

namespace Wire

variable (wire : Wire σ)

/-- Nothing was written, and the link was not opened. -/
abbrev Quiet (link next : σ) : Prop := Link.Quiet wire.Sound wire.written link next

theorem quiet_of_read {want : Nat} {link next : σ} {answer : Except LinkError Bytes}
    (h : Link.read want link = (answer, next)) : wire.Quiet link next := by
  have hquiet := wire.read want link
  rwa [h] at hquiet

theorem drain (chunk available : Nat) (link : σ) (taken : List Bytes) :
    wire.Quiet link (PeripheralHost.drain chunk available link taken).link := by
  fun_induction PeripheralHost.drain chunk available link taken with
  | case1 available link taken hmore fault next hread => exact wire.quiet_of_read hread
  | case2 available link taken hmore next hread => exact wire.quiet_of_read hread
  | case3 available link taken hmore b rest next hread ih =>
      exact (wire.quiet_of_read hread).trans ih
  | case4 available link taken hmore => exact .refl link

/-- The receiver writes nothing. -/
theorem poll (now : Duration) (intake : Intake) (link : σ) :
    wire.Quiet link (intake.poll now link).2.2 := by
  have havailable := wire.available link
  unfold Intake.poll
  split
  · next hanswer => rwa [hanswer] at havailable
  · next available opened hanswer =>
      rw [hanswer] at havailable
      have hdrained := havailable.trans (wire.drain intake.limits.chunk available opened [])
      cases hfault : (PeripheralHost.drain intake.limits.chunk available opened []).fault with
      | some fault | none =>
          simp only [hfault]
          exact hdrained

/-- On an open link a request is written whole. -/
theorem sendRequest_of_open {link : σ} {command : UInt8} {params octets : Bytes}
    (hsound : wire.Sound link) (hopen : Link.isOpen link = true)
    (hencoded : encodeRequest command params = .ok octets) (sender : Sender) :
    let sent := sender.sendRequest command params link
    sent.1 = .ok () ∧ wire.Sound sent.2.2 ∧
      wire.written sent.2.2 = wire.written link ++ octets := by
  obtain ⟨next, hwrite, hnext, hwritten⟩ := wire.write octets hsound hopen
  simp only [Sender.sendRequest, Sender.transmit, appendTo, hencoded, List.nil_append,
    Sender.flush, hopen, hwrite, if_true]
  exact ⟨trivial, hnext, hwritten⟩

end Wire

theorem encodeRequest_fits (command : UInt8) {params : Bytes}
    (h : params.length ≤ Frame.maxBody) : ∃ octets, encodeRequest command params = .ok octets := by
  rw [encodeRequest_eq h]
  simp [Frame.encode, Frame.payload, Frame.request, Nat.not_lt.mpr h]

theorem SessionError.code_of_isLinkClosed {error : SessionError} (h : error.isLinkClosed = true) :
    error.code = ResultCode.linkNotOpen := by
  unfold isLinkClosed at h
  split at h
  · rfl
  · rfl
  · rfl
  · exact absurd h Bool.false_ne_true

namespace Crew

/-! ## What a turn writes -/

/-- The parameters of every request that a caller is about to send are within the limit. -/
def Fits (crew : Crew σ) : Prop :=
  ∀ command params, .asking command params ∈ crew.callers → params.length ≤ Frame.maxBody

/-- A request offered to the line: whose it is, and its octets. -/
structure Offer where
  /-- The place of the caller. -/
  place : Nat
  /-- The octets offered. -/
  octets : Bytes
  deriving DecidableEq, Repr

/-- What a turn offers to the line: a caller who has been admitted offers its request, if
it finds the link open. -/
def offered : Turn → Crew σ → List Offer
  | .receiver _, _ => []
  | .caller index, crew =>
      match crew.point index with
      | some (.admitted command params) =>
          match encodeRequest command params with
          | .ok octets => if Link.isOpen crew.session.link then [⟨index, octets⟩] else []
          | .error _ => []
      | _ => []

/-- What is offered to the line along a schedule. -/
def offers : List Turn → Crew σ → List Offer
  | [], _ => []
  | turn :: turns, crew => crew.offered turn ++ offers turns ((crew.turn turn).getD crew)

variable {crew next after : Crew σ} (wire : Wire σ)

/-- How a turn that writes nothing may move a caller from `point` to `moved`, given whether
the link is open then. -/
def Shifts (point : CallerPoint) (isOpen : Bool) : CallerPoint → Prop
  | .admitted command params => point = .asking command params
  | .sent (.error error) => error.isLinkClosed = true
  | .closed (.ok ()) => isOpen = false
  | .asking .. | .sent (.ok ()) => False
  | _ => True

theorem transmitNow_of_open {session : Session σ} {command : UInt8} {params octets : Bytes}
    (hsound : wire.Sound session.link) (hopen : Link.isOpen session.link = true)
    (hencoded : encodeRequest command params = .ok octets) :
    let sent := session.transmitNow (Sender.sendRequest command params)
    sent.1 = .ok () ∧ wire.Sound sent.2.link ∧
      wire.written sent.2.link = wire.written session.link ++ octets := by
  obtain ⟨hanswer, hlink⟩ := wire.sendRequest_of_open hsound hopen hencoded session.sender
  unfold Session.transmitNow
  split
  · next hsent =>
      rw [hsent] at hlink
      exact ⟨rfl, hlink⟩
  · next hsent =>
      rw [hsent] at hanswer
      simp at hanswer

theorem transmitNow_of_closed {session : Session σ} {command : UInt8} {params octets : Bytes}
    (hencoded : encodeRequest command params = .ok octets)
    (hclosed : Link.isOpen session.link = false) :
    session.transmitNow (Sender.sendRequest command params) =
      (.error (.frame (.link .closed)), { session with sender := { buffer := octets } }) := by
  simp [Session.transmitNow, Sender.sendRequest, hencoded, Sender.transmit_of_closed _ hclosed]

/-- Releasing writes nothing. -/
theorem release_wire (session : Session σ) :
    wire.Quiet session.link session.release.2.link := by
  have hquiet := wire.close session.link
  unfold Session.release
  split
  · split
    · next hclose => rwa [hclose] at hquiet
    · next hclose => rwa [hclose] at hquiet
  · exact .refl _

/-- **A turn of a caller writes a whole request, or nothing.** -/
theorem callerTurn_wire {point moved : CallerPoint} (hsound : wire.Sound crew.session.link)
    (hfits : ∀ command params, point = .admitted command params → params.length ≤ Frame.maxBody)
    (hturn : crew.callerTurn point = some (moved, after)) :
    (∃ command params octets, point = .admitted command params ∧
        encodeRequest command params = .ok octets ∧ Link.isOpen crew.session.link = true ∧
        moved = .sent (.ok ()) ∧ wire.Sound after.session.link ∧
        wire.written after.session.link = wire.written crew.session.link ++ octets) ∨
      ((∀ command params, point = .admitted command params →
          Link.isOpen crew.session.link = false) ∧
        wire.Quiet crew.session.link after.session.link ∧
        Shifts point (Link.isOpen after.session.link) moved) := by
  cases point with
  | asking command params =>
      simp only [callerTurn, Option.some.injEq, Prod.mk.injEq] at hturn
      obtain ⟨rfl, rfl⟩ := hturn
      refine .inr ⟨by simp, .refl _, ?_⟩
      cases crew.session.stopped <;> simp [Shifts, SessionError.isLinkClosed]
  | admitted command params =>
      obtain ⟨octets, hencoded⟩ := encodeRequest_fits command (hfits _ _ rfl)
      simp only [callerTurn, Option.some.injEq, Prod.mk.injEq] at hturn
      obtain ⟨rfl, rfl⟩ := hturn
      cases hopen : Link.isOpen crew.session.link with
      | true =>
          obtain ⟨hanswer, hsent, hwritten⟩ := transmitNow_of_open wire hsound hopen hencoded
          exact .inl ⟨command, params, octets, rfl, hencoded, rfl,
            congrArg CallerPoint.sent hanswer, hsent, hwritten⟩
      | false =>
          rw [transmitNow_of_closed hencoded hopen]
          exact .inr ⟨fun _ _ _ => rfl, .refl _, rfl⟩
  | stopping =>
      simp only [callerTurn, Option.some.injEq, Prod.mk.injEq] at hturn
      obtain ⟨rfl, rfl⟩ := hturn
      exact .inr ⟨by simp, .refl _, trivial⟩
  | claiming =>
      simp only [callerTurn] at hturn
      split at hturn
      all_goals
        simp only [Option.some.injEq, Prod.mk.injEq] at hturn
        obtain ⟨rfl, rfl⟩ := hturn
        exact .inr ⟨by simp, .refl _, trivial⟩
  | joining =>
      simp only [callerTurn] at hturn
      split at hturn
      · simp only [Option.some.injEq, Prod.mk.injEq] at hturn
        obtain ⟨rfl, rfl⟩ := hturn
        exact .inr ⟨by simp, .refl _, trivial⟩
      · exact absurd hturn (by simp)
  | releasing =>
      have hquiet := release_wire wire crew.session
      simp only [callerTurn, Option.some.injEq, Prod.mk.injEq] at hturn
      obtain ⟨rfl, rfl⟩ := hturn
      refine .inr ⟨by simp, hquiet, ?_⟩
      cases hanswer : crew.session.release.1 with
      | ok _ => exact isOpen_release wire.closes hanswer
      | error fault => trivial
  | sent _ | closed _ => exact absurd hturn (by simp [callerTurn])

omit [Link σ] in
theorem link_fileNext (session : Session σ) : session.fileNext.2.link = session.link := by
  unfold Session.fileNext
  split <;> rfl

/-- The receiver writes nothing. -/
theorem receiverTurn_wire {now : Duration} (hturn : crew.receiverTurn now = some next) :
    wire.Quiet crew.session.link next.session.link := by
  unfold receiverTurn at hturn
  split at hturn
  · obtain rfl := Option.some.inj hturn
    exact .refl _
  · obtain rfl := Option.some.inj hturn
    exact wire.poll now crew.session.intake crew.session.link
  · split at hturn
    · next session hfiled =>
        obtain rfl := Option.some.inj hturn
        have hlink := link_fileNext crew.session
        rw [hfiled] at hlink
        exact hlink ▸ .refl _
    · obtain rfl := Option.some.inj hturn
      exact .refl _
  · exact absurd hturn (by simp)

/-! ## The books -/

/-- A request under way is the one its caller came with, and a request refused was
refused because something is closed. -/
def Honest (start : Crew σ) (index : Nat) : CallerPoint → Prop
  | .asking command params | .admitted command params =>
      start.point index = some (.asking command params)
  | .sent (.error error) => error.isLinkClosed = true
  | _ => True

/-- The books of a run: what was offered to the line was written, whole and in order; it
is one request each of the callers who were told so, and of nobody else. -/
structure Tally (wire : Wire σ) (start : Crew σ) (log : List Offer) (crew : Crew σ) : Prop where
  sound : wire.Sound crew.session.link
  written : wire.written crew.session.link =
    wire.written start.session.link ++ log.flatMap Offer.octets
  requested : ∀ offer ∈ log, ∃ command params,
    start.point offer.place = some (.asking command params) ∧
      encodeRequest command params = .ok offer.octets
  once : (log.map Offer.place).Nodup
  confirmed : ∀ index, index ∈ log.map Offer.place ↔ crew.point index = some (.sent (.ok ()))
  honest : ∀ index point, crew.point index = some point → Honest start index point
  released : ∀ index, crew.point index = some (.closed (.ok ())) →
    Link.isOpen crew.session.link = false

section Offered

variable {place : Nat} {command : UInt8} {params octets : Bytes}

theorem offered_of_open (hpoint : crew.point place = some (.admitted command params))
    (hencoded : encodeRequest command params = .ok octets)
    (hopen : Link.isOpen crew.session.link = true) :
    crew.offered (.caller place) = [⟨place, octets⟩] := by
  simp [offered, hpoint, hencoded, hopen]

theorem offered_of_shut (h : ∀ command params, crew.point place = some (.admitted command params) →
    Link.isOpen crew.session.link = false) : crew.offered (.caller place) = [] := by
  simp only [offered]
  split
  · next command params hpoint =>
      rw [h command params hpoint]
      split <;> rfl
  · rfl

theorem offered_of_stuck {turn : Turn} (h : crew.turn turn = none) : crew.offered turn = [] := by
  cases turn with
  | receiver now => rfl
  | caller place =>
      refine offered_of_shut fun command params hpoint => ?_
      have hthere : crew.callers[place]? = _ := hpoint
      simp [Crew.turn, hthere, callerTurn] at h

end Offered

omit [Link σ] in
theorem Honest.of_shifts {start : Crew σ} {isOpen : Bool} {index : Nat} {point moved : CallerPoint}
    (h : Honest start index point) (hshifts : Shifts point isOpen moved) :
    Honest start index moved := by
  cases moved with
  | admitted command params =>
      obtain rfl : point = .asking command params := hshifts
      exact h
  | sent answer =>
      cases answer with
      | ok _ => exact hshifts.elim
      | error _ => exact hshifts
  | asking _ _ => exact hshifts.elim
  | _ => trivial

section Tally

variable {wire} {start : Crew σ} {log : List Offer}

/-- The receiver leaves the books as they are. -/
theorem Tally.receiverTurn (h : Tally wire start log crew) {now : Duration}
    (hturn : crew.receiverTurn now = some next) : Tally wire start log next := by
  have hquiet := receiverTurn_wire wire hturn
  have hcallers := (receiverTurn_cases hturn).2.1
  have hpoint : ∀ index, next.point index = crew.point index := fun index => by
    simp only [Crew.point, hcallers]
  exact {
    sound := hquiet.sound h.sound
    written := hquiet.written.trans h.written
    requested := h.requested
    once := h.once
    confirmed := fun index => by rw [hpoint, h.confirmed]
    honest := fun index point hstands => h.honest index point (hpoint index ▸ hstands)
    released := fun index hclosed => hquiet.shut (h.released index (hpoint index ▸ hclosed)) }

variable {place : Nat} {point moved : CallerPoint}

/-- A request that was written goes into the books, and its caller has been told. -/
theorem Tally.book (h : Tally wire start log crew) {command : UInt8} {params octets : Bytes}
    (hplace : place ∉ log.map Offer.place)
    (hasked : start.point place = some (.asking command params))
    (hencoded : encodeRequest command params = .ok octets)
    (hopen : Link.isOpen crew.session.link = true) (hsound : wire.Sound next.session.link)
    (hwritten : wire.written next.session.link = wire.written crew.session.link ++ octets)
    (hmoved : ∀ index, next.point index =
      if place = index then some (.sent (.ok ())) else crew.point index) :
    Tally wire start (log ++ [⟨place, octets⟩]) next where
  sound := hsound
  written := by simp [hwritten, h.written]
  requested := by
    intro offer hoffer
    rcases List.mem_append.mp hoffer with hbefore | hnew
    · exact h.requested offer hbefore
    · obtain rfl := List.mem_singleton.mp hnew
      exact ⟨command, params, hasked, hencoded⟩
  once := by
    rw [List.map_append, List.nodup_append]
    exact ⟨h.once, by simp, by simpa using hplace⟩
  confirmed := by
    intro index
    rw [hmoved]
    split
    · next hsame => simp [hsame]
    · next hother => simp [← h.confirmed, Ne.symm hother]
  honest := by
    intro index stands hstands
    rw [hmoved] at hstands
    split at hstands
    · obtain rfl := Option.some.inj hstands
      trivial
    · exact h.honest index stands hstands
  released := by
    intro index hclosed
    rw [hmoved] at hclosed
    split at hclosed
    · simp at hclosed
    · simp [h.released index hclosed] at hopen

/-- Who moves without writing leaves the books as they are. -/
theorem Tally.pass (h : Tally wire start log crew) (hplace : place ∉ log.map Offer.place)
    (hhonest : Honest start place point) (hquiet : wire.Quiet crew.session.link next.session.link)
    (hshifts : Shifts point (Link.isOpen next.session.link) moved)
    (hmoved : ∀ index, next.point index =
      if place = index then some moved else crew.point index) : Tally wire start log next where
  sound := hquiet.sound h.sound
  written := hquiet.written.trans h.written
  requested := h.requested
  once := h.once
  confirmed := by
    intro index
    rw [hmoved]
    split
    · next hsame =>
        subst hsame
        refine iff_of_false hplace fun hsent => ?_
        obtain rfl := Option.some.inj hsent
        exact hshifts.elim
    · exact h.confirmed index
  honest := by
    intro index stands hstands
    rw [hmoved] at hstands
    split at hstands
    · next hsame =>
        subst hsame
        obtain rfl := Option.some.inj hstands
        exact hhonest.of_shifts hshifts
    · exact h.honest index stands hstands
  released := by
    intro index hclosed
    rw [hmoved] at hclosed
    split at hclosed
    · obtain rfl := Option.some.inj hclosed
      exact hshifts
    · exact hquiet.shut (h.released index hclosed)

theorem Tally.asked (h : Tally wire start log crew) (hpoint : crew.point place = some point)
    {command : UInt8} {params : Bytes} (hadmitted : point = .admitted command params) :
    start.point place = some (.asking command params) := by
  subst hadmitted
  exact h.honest place _ hpoint

/-- Nobody is admitted with parameters too long. -/
theorem Tally.fits (h : Tally wire start log crew) (hfits : start.Fits)
    (hpoint : crew.point place = some point) (command : UInt8) (params : Bytes)
    (hadmitted : point = .admitted command params) : params.length ≤ Frame.maxBody :=
  hfits command params (List.mem_of_getElem? (h.asked hpoint hadmitted))

theorem Tally.callerTurn (h : Tally wire start log crew) (hfits : start.Fits)
    (hpoint : crew.point place = some point) (hturn : crew.callerTurn point = some (moved, after)) :
    Tally wire start (log ++ crew.offered (.caller place))
      { after with callers := after.callers.set place moved } := by
  have hmoved : ∀ index,
      ({ after with callers := after.callers.set place moved } : Crew σ).point index =
        if place = index then some moved else crew.point index :=
    point_of_moved hpoint (callerTurn_cases hturn).1
  have hplace : place ∉ log.map Offer.place := by
    rw [h.confirmed, hpoint, Option.some.injEq]
    rintro rfl
    simp [Crew.callerTurn] at hturn
  rcases callerTurn_wire wire h.sound (h.fits hfits hpoint) hturn with
    ⟨_, _, octets, hadmitted, hencoded, hopen, rfl, hsound, hwritten⟩ | ⟨hlate, hquiet, hshifts⟩
  · rw [offered_of_open (hadmitted ▸ hpoint) hencoded hopen]
    exact h.book hplace (h.asked hpoint hadmitted) hencoded hopen hsound hwritten hmoved
  · have hsilent : crew.offered (.caller place) = [] :=
      offered_of_shut fun command params hstands =>
        hlate command params (Option.some.inj (hpoint.symm.trans hstands))
    rw [hsilent, List.append_nil]
    exact h.pass hplace (h.honest place point hpoint) hquiet hshifts hmoved

theorem Tally.turn (h : Tally wire start log crew) (hfits : start.Fits) {turn : Turn}
    (hturn : crew.turn turn = some next) : Tally wire start (log ++ crew.offered turn) next := by
  cases turn with
  | receiver now => exact (List.append_nil log).symm ▸ h.receiverTurn hturn
  | caller place =>
      obtain ⟨point, moved, after, hpoint, hcaller, rfl⟩ := turn_caller_cases hturn
      exact h.callerTurn hfits hpoint hcaller

/-- **The books balance** on every schedule. -/
theorem Tally.run (h : Tally wire start log crew) (hfits : start.Fits) (turns : List Turn) :
    Tally wire start (log ++ crew.offers turns) (crew.run turns) := by
  induction turns generalizing crew log with
  | nil => exact (List.append_nil log).symm ▸ h
  | cons turn turns ih =>
      rw [offers, ← List.append_assoc]
      apply ih
      cases hturn : crew.turn turn with
      | none => exact (offered_of_stuck hturn).symm ▸ (List.append_nil log).symm ▸ h
      | some next => exact h.turn hfits hturn

end Tally

/-- A crew whose callers have had no turn begins with empty books. -/
theorem Tally.start (hsound : wire.Sound crew.session.link)
    (hfirst : ∀ point ∈ crew.callers, point.isFirst = true) : Tally wire crew [] crew := by
  have hstands : ∀ index point, crew.point index = some point → point.isFirst = true :=
    fun index point hpoint => hfirst point (List.mem_of_getElem? hpoint)
  refine ⟨hsound, by simp, by simp, by simp, fun index => ?_, fun index point hpoint => ?_,
    fun index hclosed => ?_⟩
  · exact iff_of_false (by simp) fun hsent => absurd (hstands index _ hsent) (by decide)
  · have hpointFirst := hstands index point hpoint
    cases point with
    | asking _ _ => exact hpoint
    | stopping => trivial
    | _ => exact absurd hpointFirst Bool.false_ne_true
  · exact absurd (hstands index _ hclosed) (by decide)

/-! ## Callers come to their end -/

/-- The turns that a caller who sends has yet to take. -/
def due : CallerPoint → Option Nat
  | .asking .. => some 2
  | .admitted .. => some 1
  | .sent _ => some 0
  | _ => none

theorem due_of_callerTurn {point moved : CallerPoint} {count : Nat}
    (hturn : crew.callerTurn point = some (moved, after)) (hdue : due point = some count) :
    ∃ fewer < count, due moved = some fewer := by
  cases point with
  | asking command params =>
      obtain rfl := Option.some.inj hdue
      simp only [callerTurn, Option.some.injEq, Prod.mk.injEq] at hturn
      obtain ⟨rfl, -⟩ := hturn
      cases crew.session.stopped
      · exact ⟨1, by decide, rfl⟩
      · exact ⟨0, by decide, rfl⟩
  | admitted command params =>
      obtain rfl := Option.some.inj hdue
      simp only [callerTurn, Option.some.injEq, Prod.mk.injEq] at hturn
      obtain ⟨rfl, -⟩ := hturn
      exact ⟨0, by decide, rfl⟩
  | sent _ => simp [callerTurn] at hturn
  | _ => simp [due] at hdue

theorem due_of_stuck {index count : Nat} {point : CallerPoint}
    (hstuck : crew.turn (.caller index) = none) (hpoint : crew.point index = some point)
    (hdue : due point = some count) : count = 0 := by
  have hthere : crew.callers[index]? = some point := hpoint
  cases point with
  | asking _ _ | admitted _ _ => simp [Crew.turn, hthere, callerTurn] at hstuck
  | sent _ => exact (Option.some.inj hdue).symm
  | _ => simp [due] at hdue

/-- The turns of others do not move a caller. -/
theorem point_of_other {index : Nat} {turn : Turn} (hother : turn ≠ .caller index) :
    ((crew.turn turn).getD crew).point index = crew.point index := by
  cases hturn : crew.turn turn with
  | none => rfl
  | some next =>
      cases turn with
      | receiver now => exact congrArg (·[index]?) (receiverTurn_cases hturn).2.1
      | caller place =>
          obtain ⟨point, moved, after, hpoint, hcaller, rfl⟩ := turn_caller_cases hturn
          have hplace : place ≠ index := by simpa using hother
          exact (point_of_moved hpoint (callerTurn_cases hcaller).1 index).trans (if_neg hplace)

/-- A caller who sends has its answer once it has had the turns it was due. -/
theorem sent_of_due {index count : Nat} {point : CallerPoint} (turns : List Turn)
    (hpoint : crew.point index = some point) (hdue : due point = some count)
    (hcount : count ≤ turns.count (.caller index)) :
    ∃ answer, (crew.run turns).point index = some (.sent answer) := by
  induction turns generalizing crew point count with
  | nil =>
      obtain rfl : count = 0 := by simpa using hcount
      cases point with
      | sent answer => exact ⟨answer, hpoint⟩
      | _ => simp [due] at hdue
  | cons turn turns ih =>
      by_cases hown : turn = .caller index
      · subst hown
        rw [List.count_cons_self] at hcount
        cases hturn : crew.turn (.caller index) with
        | none =>
            have hzero := due_of_stuck hturn hpoint hdue
            rw [run, hturn]
            exact ih hpoint hdue (by omega)
        | some next =>
            obtain ⟨stood, moved, after, hstood, hcaller, rfl⟩ := turn_caller_cases hturn
            obtain rfl := Option.some.inj (hpoint.symm.trans hstood)
            obtain ⟨fewer, hlt, hfewer⟩ := due_of_callerTurn hcaller hdue
            rw [run, hturn]
            refine ih ?_ hfewer (by omega)
            exact (point_of_moved hpoint (callerTurn_cases hcaller).1 index).trans (if_pos rfl)
      · rw [List.count_cons_of_ne hown] at hcount
        exact ih ((point_of_other hown).trans hpoint) hdue hcount

/-! ## Links that are not open -/

theorem offered_of_closed {turn : Turn} (h : Link.isOpen crew.session.link = false) :
    crew.offered turn = [] := by
  cases turn with
  | receiver now => rfl
  | caller place => exact offered_of_shut fun _ _ _ => h

theorem offers_append (earlier later : List Turn) (crew : Crew σ) :
    crew.offers (earlier ++ later) = crew.offers earlier ++ (crew.run earlier).offers later := by
  induction earlier generalizing crew with
  | nil => rfl
  | cons turn earlier ih => simp only [List.cons_append, offers, run, ih, List.append_assoc]

section Tally

variable {wire} {start : Crew σ} {log : List Offer}

/-- A link that is not open is not opened. -/
theorem Tally.shut_of_turn (h : Tally wire start log crew) (hfits : start.Fits)
    (hclosed : Link.isOpen crew.session.link = false) {turn : Turn}
    (hturn : crew.turn turn = some next) : Link.isOpen next.session.link = false := by
  cases turn with
  | receiver now => exact (receiverTurn_wire wire hturn).shut hclosed
  | caller place =>
      obtain ⟨point, moved, after, hpoint, hcaller, rfl⟩ := turn_caller_cases hturn
      rcases callerTurn_wire wire h.sound (h.fits hfits hpoint) hcaller with
        ⟨_, _, _, -, -, hopen, -⟩ | ⟨-, hquiet, -⟩
      · simp [hclosed] at hopen
      · exact hquiet.shut hclosed

/-- Nothing is offered to a line that is not open. -/
theorem Tally.offers_of_closed (h : Tally wire start log crew) (hfits : start.Fits)
    (hclosed : Link.isOpen crew.session.link = false) (turns : List Turn) :
    crew.offers turns = [] := by
  induction turns generalizing crew log with
  | nil => rfl
  | cons turn turns ih =>
      rw [offers, offered_of_closed hclosed, List.nil_append]
      cases hturn : crew.turn turn with
      | none => exact ih h hclosed
      | some next => exact ih (h.turn hfits hturn) (h.shut_of_turn hfits hclosed hturn)

end Tally

/-- **Sending while others close**: some callers want to send a request each, and others
to close the session, beside a receiver; the writes of the link neither fail nor fall
short while it is open. Then at every moment of every schedule

* the line holds what it held, and behind that the requests offered to it, whole, in the
  order in which they were offered, and none of any caller twice;
* the requests on the line are those of the callers who were told that theirs was sent;
* a caller who was told otherwise was told that the session or the link is closed, which
  is one result code, and nothing of its request is on the line;
* a caller who has had two turns has its answer;
* if the link is not open, nothing will be written any more, and it is not open once a
  caller who closes has been told of success. -/
theorem sends_beside_closes (wire : Wire σ) (hsound : wire.Sound crew.session.link)
    (hfirst : ∀ point ∈ crew.callers, point.isFirst = true) (hfits : crew.Fits)
    (turns : List Turn) :
    let reached := crew.run turns
    let log := crew.offers turns
    wire.written reached.session.link =
        wire.written crew.session.link ++ log.flatMap Offer.octets ∧
      (∀ offer ∈ log, ∃ command params,
        crew.point offer.place = some (.asking command params) ∧
          encodeRequest command params = .ok offer.octets) ∧
      (log.map Offer.place).Nodup ∧
      (∀ index, index ∈ log.map Offer.place ↔ reached.point index = some (.sent (.ok ()))) ∧
      (∀ index error, reached.point index = some (.sent (.error error)) →
        error.isLinkClosed = true ∧ error.code = ResultCode.linkNotOpen ∧
          index ∉ log.map Offer.place) ∧
      (∀ index command params, crew.point index = some (.asking command params) →
        2 ≤ turns.count (.caller index) →
          ∃ answer, reached.point index = some (.sent answer)) ∧
      (∀ index, reached.point index = some (.closed (.ok ())) →
        Link.isOpen reached.session.link = false) ∧
      (Link.isOpen reached.session.link = false → ∀ later,
        crew.offers (turns ++ later) = log ∧
          wire.written (crew.run (turns ++ later)).session.link =
            wire.written reached.session.link) := by
  intro reached log
  have hstart := Tally.start wire hsound hfirst
  have hreached : Tally wire crew log reached := hstart.run hfits turns
  refine ⟨hreached.written, hreached.requested, hreached.once, hreached.confirmed,
    fun index error hrefused => ?_, fun index command params hasks hcount => ?_,
    hreached.released, fun hclosed later => ?_⟩
  · have hlinkClosed : error.isLinkClosed = true := hreached.honest index _ hrefused
    refine ⟨hlinkClosed, SessionError.code_of_isLinkClosed hlinkClosed, ?_⟩
    rw [hreached.confirmed, hrefused]
    simp
  · exact sent_of_due turns hasks rfl hcount
  · have hsame : crew.offers (turns ++ later) = log := by
      rw [offers_append, hreached.offers_of_closed hfits hclosed, List.append_nil]
    have hlater := (hstart.run hfits (turns ++ later)).written
    rw [List.nil_append, hsame, ← hreached.written] at hlater
    exact ⟨hsame, hlater⟩

end Crew

/-- The peer's view of a line in memory whose writes are neither limited nor spoiled. -/
def Loopback.wire : Wire Loopback where
  written := toPeer
  Sound line := line.writeLimit = none ∧ line.faultPending = false
  available
    | ⟨_, _, _, _, true⟩ | ⟨_, _, _, false, false⟩ => ⟨id, rfl, id⟩
    | ⟨_, _, _, true, false⟩ => ⟨fun hsound => ⟨hsound.1, rfl⟩, rfl, id⟩
  read
    | _, ⟨_, _, _, _, true⟩ | _, ⟨_, _, _, false, false⟩ => ⟨id, rfl, id⟩
    | _, ⟨_, _, _, true, false⟩ => ⟨fun hsound => ⟨hsound.1, rfl⟩, rfl, id⟩
  close _ := ⟨id, rfl, fun _ => rfl⟩
  write := by
    rintro ⟨toHost, toPeer, writeLimit, faultPending, closed⟩ octets ⟨rfl, rfl⟩ hopen
    obtain rfl : closed = false := by simpa [Link.isOpen] using hopen
    exact ⟨_, rfl, ⟨rfl, rfl⟩, by simp [accepted]⟩
  closes := isOpen_of_close

/-- Two callers send beside one who closes. The first is done in time; the second is
admitted in time, but comes to the link when it is closed. -/
theorem Crew.sends_beside_close :
    let crew : Crew Loopback :=
      { session := .ofLink {} {}, callers := [.asking 0x20 [7], .asking 0x21 [], .stopping] }
    let turns : List Turn :=
      [.caller 0, .caller 1, .caller 0, .caller 2, .caller 2, .receiver (.ofMillis 0),
        .caller 2, .caller 2, .caller 1]
    let octets := wrap [0x20, Frame.requestMarker, 0, 1, 7]
    let late : SessionError := .frame (.link .closed)
    Loopback.wire.Sound crew.session.link ∧
      (∀ point ∈ crew.callers, point.isFirst = true) ∧ crew.Fits ∧
      crew.offers turns = [⟨0, octets⟩] ∧
      Loopback.wire.written (crew.run turns).session.link = octets ∧
      (crew.run turns).point 1 = some (.sent (.error late)) ∧
      late.code = ResultCode.linkNotOpen ∧ 1 ∉ (crew.offers turns).map Offer.place := by
  intro crew turns octets late
  have hsound : Loopback.wire.Sound crew.session.link := ⟨rfl, rfl⟩
  have hfirst : ∀ point ∈ crew.callers, point.isFirst = true := by decide
  have hfits : crew.Fits := by
    intro command params hasks
    obtain ⟨-, rfl⟩ | ⟨-, rfl⟩ : command = 0x20 ∧ params = [7] ∨ command = 0x21 ∧ params = [] := by
      simpa [crew] using hasks
    all_goals decide
  have hoffers : crew.offers turns = [⟨0, octets⟩] := by
    subst crew turns octets
    rfl
  have hlate : (crew.run turns).point 1 = some (.sent (.error late)) := by
    subst crew turns late
    rfl
  obtain ⟨hwritten, -, -, -, hrefused, -⟩ :=
    sends_beside_closes Loopback.wire hsound hfirst hfits turns
  rw [hoffers] at hwritten
  obtain ⟨-, hcode, hunwritten⟩ := hrefused 1 late hlate
  refine ⟨hsound, hfirst, hfits, hoffers, ?_, hlate, hcode, hunwritten⟩
  exact hwritten.trans (List.append_nil _)

end PeripheralHost
