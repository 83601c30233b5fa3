import PeripheralHost.Proofs.Teardown

/-!
# What a caller leaves behind who closed a session

Whatever the threads do, a caller to whom closing was reported as a success leaves a session
that was told to stop and whose link is not open (`Crew.Sound`). Neither is ever undone, and a
link that is not open yields nothing, so nobody takes anything off the line from there on.

What else he leaves is a matter of the other threads. The receiver may have frames in hand from
a poll made before: whoever finds the receiver claimed by another does not wait for it, and may
be done while it still files. If nothing is in hand the session is *shut* (`Session.Shut`). So
it is if nobody else was closing at that time, since then the caller has waited himself; those
who send do no harm (`Crew.Sound.inHand_of_closesAlone`).

## Main results

* `Crew.Sound.run` — what holds of a crew at all times.
* `Crew.Sound.shut` — with nothing in hand, a closed session is shut.
* `Crew.Sound.inHand_of_closesAlone` — nothing is in hand if nobody else was closing.
* `Crew.run_closing` — a caller who closes alone does what `Session.close` says.
-/

namespace PeripheralHost

variable {σ : Type} [Link σ]

/-- A link that was closed is not open, and while it is not, whoever asks what is there is told
so. -/
structure Link.TellsClosed (σ : Type) [Link σ] : Prop where
  closes : ∀ {link next : σ}, Link.close link = (.ok (), next) → Link.isOpen next = false
  available : ∀ {link : σ}, Link.isOpen link = false → Link.available link = (.error .closed, link)

theorem Loopback.tellsClosed : Link.TellsClosed Loopback where
  closes := isOpen_of_close
  available {line} hclosed := by
    replace hclosed : line.closed = true := by simpa [Link.isOpen] using hclosed
    show line.available = _
    simp [Loopback.available, Loopback.ready, hclosed]

namespace Session

variable {session : Session σ}

/-- The session was told to stop, nothing is in hand, and the link is not open. -/
structure Shut (session : Session σ) : Prop where
  stopped : session.stopped = true
  inHand : session.inHand = []
  link : Link.isOpen session.link = false

omit [Link σ] in
theorem inHand_transmitNow (act : Sender → σ → Except FrameError Unit × Sender × σ)
    (session : Session σ) : (session.transmitNow act).2.inHand = session.inHand := by
  unfold transmitNow
  split <;> rfl

theorem inHand_release (session : Session σ) : session.release.2.inHand = session.inHand := by
  unfold release
  split
  · split <;> rfl
  · rfl

/-! ## A link that is not open -/

/-- Sending does not reach a link that is not open. -/
theorem exists_transmitNow_of_closed (command : UInt8) (params : Bytes)
    (hclosed : Link.isOpen session.link = false) :
    ∃ sender, (session.transmitNow (Sender.sendRequest command params)).2 =
      { session with sender } := by
  cases hencoded : encodeRequest command params with
  | ok octets =>
      simp [transmitNow, Sender.sendRequest, hencoded, Sender.transmit_of_closed _ hclosed]
  | error fault => simp [transmitNow, Sender.sendRequest, hencoded, Sender.transmit_of_refused]

theorem release_of_closed (hclosed : Link.isOpen session.link = false) :
    session.release = (.ok (), session) := by
  simp [release, hclosed]

/-- A poll fails before it looks at anything else. -/
theorem poll_of_closed (hlink : Link.TellsClosed σ) (now : Duration)
    (hclosed : Link.isOpen session.link = false) :
    session.poll now = (.error .closed, session) := by
  simp [poll, Intake.poll_unavailable (hlink.available hclosed)]

end Session

namespace Crew

variable {crew next after : Crew σ} {point moved : CallerPoint}

/-! ## Turns -/

/-- What the receiver does not file it keeps in hand to file it. -/
theorem inHand_of_receiverTurn {now : Duration} (hturn : crew.receiverTurn now = some next)
    (h : crew.receiver ≠ .filing → crew.session.inHand = []) :
    next.receiver ≠ .filing → next.session.inHand = [] := by
  unfold receiverTurn at hturn
  split at hturn
  · next hchecking =>
      obtain rfl := Option.some.inj hturn
      exact fun _ => h (by simp [hchecking])
  · obtain rfl := Option.some.inj hturn
    exact fun hfiling => absurd rfl hfiling
  · next hfiling =>
      split at hturn
      · obtain rfl := Option.some.inj hturn
        exact fun hother => absurd hfiling hother
      · next hfiled =>
          obtain rfl := Option.some.inj hturn
          intro _
          unfold Session.fileNext at hfiled
          split at hfiled
          · assumption
          · simp at hfiled
  · exact absurd hturn (by simp)

theorem inHand_of_callerTurn (hturn : crew.callerTurn point = some (moved, after)) :
    after.session.inHand = crew.session.inHand := by
  have := @Session.inHand_transmitNow σ
  have := @Session.inHand_release σ
  unfold Crew.callerTurn Session.stop at hturn
  grind

/-- While the link is not open, the receiver does no more than file what it has in hand. -/
theorem session_of_receiverTurn (hlink : Link.TellsClosed σ)
    (hclosed : Link.isOpen crew.session.link = false) {now : Duration}
    (hturn : crew.receiverTurn now = some next) :
    next.session = crew.session ∨
      (crew.receiver = .filing ∧ next.session = crew.session.fileNext.2) := by
  unfold receiverTurn at hturn
  split at hturn
  · obtain rfl := Option.some.inj hturn
    exact .inl rfl
  · obtain rfl := Option.some.inj hturn
    exact .inl (congrArg Prod.snd (Session.poll_of_closed hlink now hclosed))
  · next hfiling =>
      split at hturn
      · next hfiled =>
          obtain rfl := Option.some.inj hturn
          exact .inr ⟨hfiling, by rw [hfiled]⟩
      · obtain rfl := Option.some.inj hturn
        exact .inl rfl
  · exact absurd hturn (by simp)

/-- While the link is not open, a caller changes what the sender holds, or tells the session to
stop, and no more. -/
theorem session_of_callerTurn (hclosed : Link.isOpen crew.session.link = false)
    (hturn : crew.callerTurn point = some (moved, after)) :
    ∃ sender stopped, after.session = { crew.session with sender, stopped } := by
  cases point with
  | asking command params =>
      obtain ⟨-, rfl⟩ := Prod.mk.inj (Option.some.inj hturn)
      exact ⟨_, _, rfl⟩
  | admitted command params =>
      obtain ⟨-, rfl⟩ := Prod.mk.inj (Option.some.inj hturn)
      obtain ⟨sender, hsent⟩ := Session.exists_transmitNow_of_closed command params hclosed
      exact ⟨sender, _, hsent⟩
  | stopping =>
      obtain ⟨-, rfl⟩ := Prod.mk.inj (Option.some.inj hturn)
      exact ⟨_, _, rfl⟩
  | claiming | joining =>
      simp only [Crew.callerTurn] at hturn
      split at hturn <;> simp only [Option.some.injEq, Prod.mk.injEq, reduceCtorEq] at hturn
      all_goals
        obtain ⟨-, rfl⟩ := hturn
        exact ⟨_, _, rfl⟩
  | releasing =>
      obtain ⟨-, rfl⟩ := Prod.mk.inj (Option.some.inj hturn)
      exact ⟨_, _, congrArg Prod.snd (Session.release_of_closed hclosed)⟩
  | sent _ | closed _ => exact absurd hturn (by simp [Crew.callerTurn])

/-- A link that is not open is not opened. -/
theorem isOpen_of_turn (hlink : Link.TellsClosed σ)
    (hclosed : Link.isOpen crew.session.link = false) {turn : Turn}
    (hturn : crew.turn turn = some next) : Link.isOpen next.session.link = false := by
  rcases turn_cases hturn with ⟨now, hreceiver⟩ | ⟨place, point, moved, after, -, hmoves, rfl⟩
  · rcases session_of_receiverTurn hlink hclosed hreceiver with hsession | ⟨-, hsession⟩
    · rwa [hsession]
    · rw [hsession]
      unfold Session.fileNext
      split <;> exact hclosed
  · obtain ⟨sender, stopped, hsession⟩ := session_of_callerTurn hclosed hmoves
    rwa [hsession]

/-- Who has begun to close has told the session to stop. -/
theorem stopped_of_closing (hcloses : moved.isClosing = true)
    (h : point.isClosing = true → point ≠ .stopping → crew.session.stopped = true)
    (hturn : crew.callerTurn point = some (moved, after)) : after.session.stopped = true := by
  have hclosing := (callerTurn_cases hturn).2.2.1.symm.trans hcloses
  by_cases hstopping : point = .stopping
  · subst hstopping
    obtain ⟨-, rfl⟩ := Prod.mk.inj (Option.some.inj hturn)
    rfl
  · exact stopped_of_callerTurn hturn (h hclosing hstopping)

/-- A caller who is told of success leaves a link that is not open. -/
theorem isOpen_of_closed (hlink : Link.TellsClosed σ)
    (hturn : crew.callerTurn point = some (.closed (.ok ()), after)) :
    Link.isOpen after.session.link = false := by
  cases point with
  | releasing =>
      obtain ⟨hanswer, rfl⟩ := Prod.mk.inj (Option.some.inj hturn)
      exact isOpen_release hlink.closes (CallerPoint.closed.inj hanswer)
  | asking _ _ | claiming | joining =>
      simp only [Crew.callerTurn] at hturn
      split at hturn <;> simp at hturn
  | _ => simp [Crew.callerTurn] at hturn

/-! ## What holds at all times -/

/-- What holds of a crew at all times. Only a receiver that files has frames in hand. Who has
begun to close has told the session to stop, and who was told of success has left a link that
is not open. -/
structure Sound (crew : Crew σ) : Prop extends Held crew where
  inHand : crew.receiver ≠ .filing → crew.session.inHand = []
  stopped : ∀ index point, crew.point index = some point → point.isClosing = true →
    point ≠ .stopping → crew.session.stopped = true
  released : ∀ index, crew.point index = some (.closed (.ok ())) →
    Link.isOpen crew.session.link = false

/-- A crew is sound as long as nobody has begun to close. -/
theorem sound_of_unbegun (hunclaimed : crew.unclaimed = true)
    (hcallers : ∀ point ∈ crew.callers, point.isClosing = true → point = .stopping)
    (hinHand : crew.receiver ≠ .filing → crew.session.inHand = []) : crew.Sound where
  waits _ hclaimed := by simp [hunclaimed] at hclaimed
  behind _ index point hpoint hpast := by
    obtain rfl := hcallers point (List.mem_of_getElem? hpoint)
      (CallerPoint.isClosing_of_isPast hpast)
    exact absurd hpast Bool.false_ne_true
  inHand := hinHand
  stopped index point hpoint hcloses hmoved :=
    absurd (hcallers point (List.mem_of_getElem? hpoint) hcloses) hmoved
  released index hpoint := by
    have hstopping := hcallers _ (List.mem_of_getElem? hpoint) rfl
    cases hstopping

theorem Sound.turn (hlink : Link.TellsClosed σ) (h : crew.Sound) {turn : Turn}
    (hturn : crew.turn turn = some next) : next.Sound := by
  have hheld := h.toHeld.turn hturn
  have hstays := stopped_of_turn hturn
  have hshut := fun hclosed => isOpen_of_turn hlink hclosed hturn
  rcases turn_cases hturn with ⟨now, hreceiver⟩ | ⟨place, point, moved, after, hpoint, hmoves, rfl⟩
  · have hcallers : ∀ index, next.point index = crew.point index :=
      fun index => congrArg (·[index]?) (receiverTurn_cases hreceiver).2.1
    exact {
      toHeld := hheld
      inHand := inHand_of_receiverTurn hreceiver h.inHand
      stopped := fun index point hpoint hcloses hbegun =>
        hstays (h.stopped index point ((hcallers index).symm.trans hpoint) hcloses hbegun)
      released := fun index hpoint =>
        hshut (h.released index ((hcallers index).symm.trans hpoint)) }
  · obtain ⟨hcallers, hreceiver, -, -⟩ := callerTurn_cases hmoves
    have hmoved : ∀ index,
        ({ after with callers := after.callers.set place moved } : Crew σ).point index =
          if place = index then some moved else crew.point index :=
      point_of_moved hpoint hcallers
    refine ⟨hheld, ?_, ?_, ?_⟩
    · exact fun hother => (inHand_of_callerTurn hmoves).trans (h.inHand (hreceiver ▸ hother))
    · intro index stands hstands hcloses hbegun
      rw [hmoved] at hstands
      split at hstands
      · obtain rfl := Option.some.inj hstands
        have hstopped : after.session.stopped = true :=
          stopped_of_closing hcloses (h.stopped place point hpoint) hmoves
        exact hstopped
      · exact hstays (h.stopped index stands hstands hcloses hbegun)
    · intro index hstands
      rw [hmoved] at hstands
      split at hstands
      · obtain rfl := Option.some.inj hstands
        have hreleased : Link.isOpen after.session.link = false := isOpen_of_closed hlink hmoves
        exact hreleased
      · exact hshut (h.released index hstands)

theorem Sound.run (hlink : Link.TellsClosed σ) (h : crew.Sound) (turns : List Turn) :
    (crew.run turns).Sound :=
  run_keeps (fun hsound hturn => hsound.turn hlink hturn) h turns

/-- With nothing in hand, a session that somebody has closed is shut. -/
theorem Sound.shut (h : crew.Sound) {index : Nat}
    (hclosed : crew.point index = some (.closed (.ok ()))) (hinHand : crew.session.inHand = []) :
    crew.session.Shut :=
  ⟨h.stopped index _ hclosed rfl (by simp), hinHand, h.released index hclosed⟩

/-! ## One who closes alone -/

/-- Nobody but the caller at the given place is closing the session: others who close have their
answer. -/
def ClosesAlone (index : Nat) (crew : Crew σ) : Prop :=
  ∀ other point, other ≠ index → crew.point other = some point → point.isClosing = true →
    ∃ answer, point = .closed answer

/-- Who has his answer has no turn any more. -/
theorem closed_turn {index : Nat} {answer : Except SessionError Unit} {turn : Turn}
    (h : crew.point index = some (.closed answer)) (hturn : crew.turn turn = some next) :
    next.point index = some (.closed answer) := by
  rcases turn_cases hturn with ⟨now, hreceiver⟩ | ⟨place, point, moved, after, hpoint, hmoves, rfl⟩
  · exact (congrArg (·[index]?) (receiverTurn_cases hreceiver).2.1).trans h
  · rw [point_of_moved hpoint (callerTurn_cases hmoves).1, if_neg, h]
    rintro rfl
    obtain rfl := Option.some.inj (hpoint.symm.trans h)
    simp [Crew.callerTurn] at hmoves

theorem closed_run {index : Nat} {answer : Except SessionError Unit}
    (h : crew.point index = some (.closed answer)) (turns : List Turn) :
    (crew.run turns).point index = some (.closed answer) :=
  run_keeps closed_turn h turns

/-- **Nothing is in hand if nobody else was closing**: while a frame is in hand the receiver has
not ended, so whoever has closed found it claimed by another, who still waits for it. -/
theorem Sound.inHand_of_closesAlone (hlink : Link.TellsClosed σ) (h : crew.Sound) {index : Nat}
    (halone : crew.ClosesAlone index) (turns : List Turn)
    (hclosed : (crew.run turns).point index = some (.closed (.ok ()))) :
    (crew.run turns).session.inHand = [] := by
  refine Decidable.byContradiction fun hinHand => ?_
  have hsound := h.run hlink turns
  have hfiling : (crew.run turns).receiver = .filing :=
    Decidable.byContradiction fun hother => hinHand (hsound.inHand hother)
  have hruns : (crew.run turns).receiver ≠ .exited := by rw [hfiling]; decide
  obtain ⟨other, hwaits⟩ := hsound.waits hruns (hsound.behind hruns index _ hclosed rfl)
  have hne : other ≠ index := by
    rintro rfl
    rw [hclosed] at hwaits
    simp at hwaits
  obtain ⟨point, hpoint, hcloses⟩ := (closer_run turns crew other).mp ⟨_, hwaits, rfl⟩
  obtain ⟨answer, rfl⟩ := halone other point hne hpoint hcloses
  rw [closed_run hpoint turns] at hwaits
  simp at hwaits

/-- A receiver that files, files what it has in hand. -/
theorem run_filing (now : Duration) (crew : Crew σ) (hfiling : crew.receiver = .filing) :
    crew.run (List.replicate crew.session.inHand.length (.receiver now)) =
      { crew with session := crew.session.fileAll } := by
  generalize hhand : crew.session.inHand = inHand
  induction inHand generalizing crew with
  | nil =>
      obtain ⟨session, receiver, unclaimed, callers⟩ := crew
      obtain ⟨link, settings, sender, intake, held, mailroom, stopped⟩ := session
      obtain rfl : held = [] := hhand
      rfl
  | cons frame inHand ih =>
      have hfiled : crew.turn (.receiver now) =
          some { crew with session := crew.session.fileNext.2 } := by
        simp [Crew.turn, Crew.receiverTurn, hfiling, Session.fileNext, hhand]
      have hheld : crew.session.fileNext.2.inHand = inHand := by simp [Session.fileNext, hhand]
      rw [List.length_cons, List.replicate_succ, run, hfiled, Option.getD_some,
        ih { crew with session := crew.session.fileNext.2 } hfiling hheld]
      simp [Session.fileAll, Session.fileNext, hhand]

/-- A caller who closes alone does what `Session.close` says, if the receiver gets its
turns. -/
theorem run_closing (session : Session σ) (now : Duration) :
    (run ([.caller 0, .caller 0] ++ List.replicate session.inHand.length (.receiver now) ++
          [.receiver now, .receiver now, .caller 0, .caller 0])
        { session, receiver := .filing, callers := [.stopping] } : Crew σ) =
      { session := session.close.2
        receiver := .exited
        unclaimed := false
        callers := [.closed session.close.1] } := by
  have hfiled := run_filing now
    { session := session.stop, receiver := .filing, unclaimed := false, callers := [.joining] } rfl
  rw [run_append, run_append, run_entering rfl]
  simp only [List.set_cons_zero, if_true]
  rw [show session.inHand.length = session.stop.inHand.length from rfl, hfiled]
  simp [run, Crew.turn, receiverTurn, Crew.callerTurn, Session.fileNext, Session.fileAll,
    Session.stop, Session.close]

end Crew

end PeripheralHost
