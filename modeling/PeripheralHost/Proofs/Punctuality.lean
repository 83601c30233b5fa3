import PeripheralHost.Proofs.Placement

/-!
# A frame given up too soon

An intake must not give up a frame before its time is up, counted from the poll
that began with it. Of that poll the intake knows nothing but the reading it keeps,
and it changes that reading at the end of a poll only. A poll that fails ends
early: the assembler has moved on, and the reading kept has not. If the poll
settled something, the frame it was kept for is gone, and the reading is taken for
the start of whatever frame comes next (`Intake.abandoned_early`).

To tell when that happens, an observer follows the frame in progress on the side
(`Intake.Watched`). A frame is known by the place of its start mark among all octets
fed. An assembler that settles nothing holds on to all it has, so the place stays;
one that settles something is done with octets, and the next frame begins further
on (`Assembler.Progress`). So the frame in progress is the same before and after a
poll exactly if the place is, and otherwise the poll began with it.

Seen so, the reading kept is right after every poll of a row, that is, it is kept
for a frame in progress and is not earlier than the poll that began with it, exactly
if no failed poll that found a reading kept has settled anything. The one exception
is a poll made at the very reading kept that still leaves a frame in progress
(`Intake.punctual_iff`). And where the reading is right, no frame is given up too
soon.

## Main results

* `Assembler.Resumable.progress_perform` — calls are done with octets if they settle
  something.
* `Intake.Followed.punctual_observe_iff` — when a poll leaves the reading kept right.
* `Intake.punctual_iff` — when all polls of a row do.
* `Intake.abandoned_early` — a frame given up after two fifths of its time.
-/

namespace PeripheralHost

namespace Stream

variable {limit : Nat}

/-- A scan that settles nothing leaves everything pending from the first start mark
on. -/
theorem scan_pending_of_quiet {behind : Bytes}
    (h : (scan limit (Frame.startMark :: behind)).1 = []) :
    (scan limit (Frame.startMark :: behind)).2 = Frame.startMark :: behind := by
  cases hread : read limit behind with
  | unsettled => rw [scan_of_unsettled hread]
  | refused fault =>
      rw [scan_of_refused hread] at h
      simp at h
  | found frame rest =>
      rw [scan_startMark hread] at h
      simp at h

/-- A scan that settles something is done with some octets. -/
theorem length_scan_pending_lt {stream : Bytes} (h : (scan limit stream).1 ≠ []) :
    (scan limit stream).2.length < stream.length := by
  fun_induction scan limit stream with
  | case1 => exact absurd rfl h
  | case2 b rest hb ih => exact Nat.lt_succ_of_lt (ih h)
  | case3 b rest hb hread => exact absurd rfl h
  | case4 b rest hb fault hread outcomes pending hscan ih =>
      have hsuffix := (scan_pending_suffix limit rest).length_le
      rw [hscan] at hsuffix
      exact Nat.lt_succ_of_le hsuffix
  | case5 b rest hb frame after hread outcomes pending hscan ih =>
      have hsuffix := (scan_pending_suffix limit after).length_le
      have hshorter := length_rest_lt hread
      rw [hscan] at hsuffix
      simp only [List.length_cons] at *
      omega

end Stream

/-! ## Being done with octets -/

namespace Assembler

/-- What calls do that feed `octets` and settle `settled`: they are done with octets
if they settle something, and if they settle nothing a frame in progress keeps all. -/
structure Progress (octets : Bytes) (settled : List Outcome) (before after : Assembler) :
    Prop where
  le : after.pending.length ≤ before.pending.length + octets.length
  lt : settled ≠ [] → after.pending.length < before.pending.length + octets.length
  eq : settled = [] → before.isIdle = false →
    after.pending.length = before.pending.length + octets.length

theorem length_pending_pos {assembler : Assembler} (h : assembler.isIdle = false) :
    0 < assembler.pending.length := by
  rw [List.length_pos_iff, ne_eq, ← isIdle_iff, h]
  exact Bool.false_ne_true

theorem isIdle_eq_false {assembler : Assembler} (h : 0 < assembler.pending.length) :
    assembler.isIdle = false := by
  rw [Bool.eq_false_iff, ne_eq, isIdle_iff]
  exact List.length_pos_iff.mp h

namespace Progress

theorem refl (assembler : Assembler) : Progress [] [] assembler assembler where
  le := Nat.le_refl _
  lt h := absurd rfl h
  eq _ _ := rfl

theorem trans {octets more : Bytes} {settled later : List Outcome}
    {before between after : Assembler} (hfirst : Progress octets settled before between)
    (hsecond : Progress more later between after) :
    Progress (octets ++ more) (settled ++ later) before after where
  le := by
    have hle := hfirst.le
    have hle' := hsecond.le
    rw [List.length_append]
    omega
  lt hsettled := by
    have hle := hfirst.le
    have hle' := hsecond.le
    rw [List.length_append]
    by_cases hnothing : settled = []
    · have hlt := hsecond.lt (by simpa [hnothing] using hsettled)
      omega
    · have hlt := hfirst.lt hnothing
      omega
  eq hquiet hbusy := by
    obtain ⟨hfirstQuiet, hsecondQuiet⟩ := List.append_eq_nil_iff.mp hquiet
    have heq := hfirst.eq hfirstQuiet hbusy
    have hpos := length_pending_pos hbusy
    have hstill : between.isIdle = false := by
      apply isIdle_eq_false
      omega
    have heq' := hsecond.eq hsecondQuiet hstill
    rw [List.length_append]
    omega

end Progress

theorem Resumable.progress_feed {assembler : Assembler} (h : assembler.Resumable) (bytes : Bytes) :
    Progress bytes (Assembler.feed bytes assembler).1 assembler
      (Assembler.feed bytes assembler).2 := by
  obtain ⟨hsettled, hpending⟩ := Prod.mk.inj (h.feed_eq_scan bytes)
  constructor
  · rw [hpending, ← List.length_append]
    exact (Stream.scan_pending_suffix _ _).length_le
  · intro hsomething
    rw [hsettled] at hsomething
    rw [hpending, ← List.length_append]
    exact Stream.length_scan_pending_lt hsomething
  · intro hquiet hbusy
    obtain hnil | ⟨behind, hmark, -⟩ := h.pending
    · rw [← isIdle_iff, hbusy] at hnil
      exact absurd hnil Bool.false_ne_true
    · rw [hsettled, hmark] at hquiet
      have hall := Stream.scan_pending_of_quiet hquiet
      rw [hpending, hmark, ← List.length_append]
      exact congrArg List.length hall

theorem progress_abandon (assembler : Assembler) :
    Progress [] (abandon assembler).1 assembler (abandon assembler).2 := by
  match hpending : assembler.pending with
  | [] =>
      have hnothing : abandon assembler = ([], assembler) := by simp [abandon, hpending]
      rw [hnothing]
      exact .refl assembler
  | b :: swallowed =>
      obtain ⟨hsettled, hleft⟩ := Prod.mk.inj (abandon_of_pending hpending)
      have hsuffix := (Stream.scan_pending_suffix assembler.limit swallowed).length_le
      have hlt : (abandon assembler).2.pending.length < assembler.pending.length := by
        rw [hleft, hpending, List.length_cons]
        omega
      constructor
      · exact Nat.le_of_lt hlt
      · intro _
        exact hlt
      · intro hquiet _
        rw [hsettled] at hquiet
        simp at hquiet

theorem Resumable.progress_perform {assembler : Assembler} (h : assembler.Resumable)
    {calls : List Call} (hcalls : Call.reset ∉ calls) :
    Progress (octets calls) (Assembler.perform calls assembler).1 assembler
      (Assembler.perform calls assembler).2 := by
  induction calls generalizing assembler with
  | nil => exact .refl assembler
  | cons call calls ih =>
      obtain ⟨hcall, hlater⟩ := List.ne_and_not_mem_of_not_mem_cons hcalls
      have hrest := ih (h.call call) hlater
      have hfirst : Progress call.octets (Assembler.call call assembler).1 assembler
          (Assembler.call call assembler).2 := by
        cases call with
        | feed bytes => exact h.progress_feed bytes
        | abandon => exact progress_abandon assembler
        | reset => exact absurd rfl hcall
      exact hfirst.trans hrest

end Assembler

/-! ## Following the frame in progress -/

namespace Intake

variable {σ : Type} [Link σ]

/-- A frame in progress. -/
structure Attempt where
  /-- How many octets were fed ahead of its start mark. -/
  place : Nat
  /-- The reading of the clock during the poll that began with it. -/
  began : Duration
  deriving DecidableEq

/-- An intake, and what an observer of all its polls knows. -/
structure Watched where
  /-- The intake. -/
  intake : Intake
  /-- How many octets it was fed so far. -/
  fed : Nat := 0
  /-- The frame in progress. -/
  attempt : Option Attempt := none

/-- A poll that was observed. -/
structure Observation where
  /-- The reading of the clock during the poll. -/
  now : Duration
  /-- The intake before the poll. -/
  before : Watched
  /-- What the poll called for, settled and answered. -/
  polled : Polled
  /-- The intake after the poll. -/
  after : Watched

/-- The frame in progress after a poll. If its start mark stands where that of the
frame before the poll stood, it is the same, and otherwise the poll began with it. -/
def attemptAfter (now : Duration) (fed : Nat) (assembler : Assembler) (before : Option Attempt) :
    Option Attempt :=
  if assembler.isIdle then none
  else
    let place := fed - assembler.pending.length
    some ((before.filter fun attempt => attempt.place = place).getD ⟨place, now⟩)

theorem isSome_attemptAfter (now : Duration) (fed : Nat) (assembler : Assembler)
    (before : Option Attempt) :
    (attemptAfter now fed assembler before).isSome = !assembler.isIdle := by
  unfold attemptAfter
  cases assembler.isIdle <;> rfl

theorem attemptAfter_of_same {now : Duration} {fed : Nat} {assembler : Assembler}
    {attempt : Attempt} (hbusy : assembler.isIdle = false)
    (hsame : attempt.place = fed - assembler.pending.length) :
    attemptAfter now fed assembler (some attempt) = some attempt := by
  simp [attemptAfter, hbusy, Option.filter, hsame]

theorem of_mem_attemptAfter {now : Duration} {fed : Nat} {assembler : Assembler}
    {before : Option Attempt} {attempt : Attempt}
    (h : attempt ∈ attemptAfter now fed assembler before) :
    attempt.place = fed - assembler.pending.length ∧
      (attempt.began = now ∨ attempt ∈ before) := by
  unfold attemptAfter at h
  split at h
  · simp at h
  · obtain rfl := Option.some.inj h
    cases hkept : before.filter fun attempt =>
        decide (attempt.place = fed - assembler.pending.length) with
    | none => exact ⟨rfl, .inl rfl⟩
    | some kept =>
        obtain ⟨hmem, hplace⟩ := Option.filter_eq_some_iff.mp hkept
        exact ⟨of_decide_eq_true hplace, .inr hmem⟩

/-- Observes a poll. -/
def observe (now : Duration) (watched : Watched) (link : σ) : Observation × σ :=
  let calls := watched.intake.calls now link
  let polled := watched.intake.poll now link
  let fed := watched.fed + (Assembler.octets calls).length
  let after := ⟨polled.2.1, fed, attemptAfter now fed polled.2.1.assembler watched.attempt⟩
  (⟨now, watched, ⟨calls, (Assembler.perform calls watched.intake.assembler).1, polled.1⟩, after⟩,
    polled.2.2)

/-- Observes a row of polls. -/
def observeAll : List (Occasion σ) → Watched → σ → List Observation
  | [], _, _ => []
  | occasion :: occasions, watched, link =>
      let observed := observe occasion.now watched (occasion.arrive link)
      observed.1 :: observeAll occasions observed.1.after observed.2

/-- The reading kept is kept for a frame in progress, and is not earlier than the
poll that began with it. -/
def Watched.Punctual (watched : Watched) : Prop :=
  ∀ start ∈ watched.intake.since, watched.intake.inProgress = true ∧
    ∃ attempt ∈ watched.attempt, attempt.began ≤ start

instance (watched : Watched) : Decidable watched.Punctual :=
  inferInstanceAs (Decidable (∀ start ∈ watched.intake.since, _ ∧ _))

/-- A failed poll that settled something left a frame in progress and was made at
the very reading that it found kept. -/
def Observation.Harmless (poll : Observation) : Prop :=
  poll.polled.failed = true → poll.polled.settled ≠ [] → ∀ start ∈ poll.before.intake.since,
    poll.after.intake.inProgress = true ∧ poll.now ≤ start

/-! ## One poll -/

/-- A poll makes its calls. If it fails the rest of the intake is as it was, and
otherwise the intake takes note of the end of the poll. -/
theorem observe_cases (now : Duration) (watched : Watched) (link : σ) :
    let poll := (observe now watched link).1
    let performed := Assembler.perform poll.polled.calls watched.intake.assembler
    let moved := { watched.intake with assembler := performed.2 }
    (poll.polled.failed = true ∧ poll.after.intake = moved) ∨
      (poll.polled.failed = false ∧ poll.after.intake = moved.settle now poll.polled.settled) := by
  intro poll performed moved
  rcases poll_eq now watched.intake link with ⟨fault, next, hpoll⟩ | ⟨next, hpoll⟩
  · left
    simp only [poll, observe, Polled.failed, hpoll]
    exact ⟨rfl, rfl⟩
  · right
    simp only [poll, observe, Polled.failed, hpoll]
    exact ⟨rfl, rfl⟩

theorem reset_not_mem_calls (now : Duration) (intake : Intake) (link : σ) :
    Assembler.Call.reset ∉ intake.calls now link := by
  rcases calls_cases now intake link with hcalls | ⟨pieces, hcalls⟩
  · rw [hcalls]
    exact List.not_mem_nil
  · rw [hcalls]
    by_cases hoverdue : intake.overdue now = true
    · simp [hoverdue]
    · simp [hoverdue]

theorem assembler_observe (now : Duration) (watched : Watched) (link : σ) :
    let poll := (observe now watched link).1
    poll.after.intake.assembler =
      (Assembler.perform poll.polled.calls watched.intake.assembler).2 := by
  intro poll
  rcases observe_cases now watched link with ⟨-, hintake⟩ | ⟨-, hintake⟩
  · exact congrArg Intake.assembler hintake
  · exact congrArg Intake.assembler hintake

theorem fed_observe (now : Duration) (watched : Watched) (link : σ) :
    let poll := (observe now watched link).1
    poll.after.fed = watched.fed + (Assembler.octets poll.polled.calls).length := rfl

theorem attempt_observe (now : Duration) (watched : Watched) (link : σ) :
    let poll := (observe now watched link).1
    poll.after.attempt =
      attemptAfter now poll.after.fed poll.after.intake.assembler watched.attempt := rfl

theorem since_of_failed {now : Duration} {watched : Watched} {link : σ}
    (h : (observe now watched link).1.polled.failed = true) :
    (observe now watched link).1.after.intake.since = watched.intake.since := by
  rcases observe_cases now watched link with ⟨-, hintake⟩ | ⟨hsuccess, -⟩
  · rw [hintake]
  · rw [h] at hsuccess
    exact absurd hsuccess.symm Bool.false_ne_true

/-- What a poll that succeeds leaves kept is for a frame in progress: the reading of
the poll, or, if the poll settled nothing, the one it found. -/
theorem kept_of_success {now start : Duration} {watched : Watched} {link : σ}
    (h : (observe now watched link).1.polled.failed = false)
    (hmem : start ∈ (observe now watched link).1.after.intake.since) :
    (observe now watched link).1.after.intake.inProgress = true ∧
      (start = now ∨ (observe now watched link).1.polled.settled = [] ∧
        start ∈ watched.intake.since) := by
  rcases observe_cases now watched link with ⟨hfailed, -⟩ | ⟨-, hintake⟩
  · rw [h] at hfailed
    exact absurd hfailed Bool.false_ne_true
  · rw [hintake] at hmem
    simp only [settle] at hmem
    split at hmem
    · simp at hmem
    next hidle =>
    refine ⟨by rw [hintake]; simpa [settle, inProgress] using hidle, ?_⟩
    split at hmem
    · exact .inl (Option.some.inj hmem).symm
    next hkept =>
    simp only [Bool.or_eq_true, not_or, Bool.not_eq_true, Bool.not_eq_false',
      List.isEmpty_iff] at hkept
    exact .inr ⟨hkept.2, hmem⟩

/-- The reading kept after a poll is the one kept before it, or that of the poll. -/
theorem since_observe {now start : Duration} {watched : Watched} {link : σ}
    (h : start ∈ (observe now watched link).1.after.intake.since) :
    start = now ∨ start ∈ watched.intake.since := by
  cases hfailed : (observe now watched link).1.polled.failed with
  | true =>
      rw [since_of_failed hfailed] at h
      exact .inr h
  | false => exact (kept_of_success hfailed h).2.imp_right And.right

theorem overdue_of_abandon {now : Duration} {intake : Intake} {link : σ}
    (h : Assembler.Call.abandon ∈ intake.calls now link) : intake.overdue now = true := by
  rcases calls_cases now intake link with hcalls | ⟨pieces, hcalls⟩
  · rw [hcalls] at h
    exact absurd h List.not_mem_nil
  · rw [hcalls] at h
    by_contra hoverdue
    simp [hoverdue] at h

/-- The observer has followed the intake, and the clock reads `now`. -/
structure Followed (limits : FrameLimits) (now : Duration) (watched : Watched) : Prop where
  limits : watched.intake.limits = limits
  resumable : watched.intake.assembler.Resumable
  covered : watched.intake.assembler.pending.length ≤ watched.fed
  isSome : watched.attempt.isSome = watched.intake.inProgress
  place : ∀ attempt ∈ watched.attempt,
    attempt.place = watched.fed - watched.intake.assembler.pending.length
  began_le : ∀ attempt ∈ watched.attempt, attempt.began ≤ now
  since_le : ∀ start ∈ watched.intake.since, start ≤ now

namespace Followed

variable {limits : FrameLimits} {now : Duration} {watched : Watched}

theorem later (h : Followed limits now watched) {later : Duration} (hle : now ≤ later) :
    Followed limits later watched :=
  { h with
    began_le := fun attempt hmem => Nat.le_trans (h.began_le attempt hmem) hle
    since_le := fun start hmem => Nat.le_trans (h.since_le start hmem) hle }

theorem progress (h : Followed limits now watched) (link : σ) :
    let poll := (observe now watched link).1
    Assembler.Progress (Assembler.octets poll.polled.calls) poll.polled.settled
      watched.intake.assembler poll.after.intake.assembler := by
  intro poll
  rw [assembler_observe now watched link]
  exact h.resumable.progress_perform (reset_not_mem_calls now watched.intake link)

/-- A poll that settles nothing goes on with the frame in progress. -/
theorem attempt_of_quiet (h : Followed limits now watched) {link : σ}
    (hbusy : watched.intake.inProgress = true)
    (hquiet : (observe now watched link).1.polled.settled = []) :
    (observe now watched link).1.after.intake.inProgress = true ∧
      (observe now watched link).1.after.attempt = watched.attempt := by
  have hbefore : watched.intake.assembler.isIdle = false := by simpa [inProgress] using hbusy
  have hlength := (h.progress link).eq hquiet hbefore
  have hpos := Assembler.length_pending_pos hbefore
  have hcovered := h.covered
  obtain ⟨attempt, hattempt⟩ := Option.isSome_iff_exists.mp (h.isSome.trans hbusy)
  have hplace := h.place attempt hattempt
  have hfed := fed_observe now watched link
  have hstill : (observe now watched link).1.after.intake.assembler.isIdle = false := by
    apply Assembler.isIdle_eq_false
    omega
  refine ⟨by simp [inProgress, hstill], ?_⟩
  rw [attempt_observe, hattempt]
  apply attemptAfter_of_same hstill
  omega

/-- A poll that settles something began with the frame in progress after it. -/
theorem began_of_settled (h : Followed limits now watched) {link : σ}
    (hsettled : (observe now watched link).1.polled.settled ≠ []) :
    ∀ attempt ∈ (observe now watched link).1.after.attempt, attempt.began = now := by
  intro attempt hmem
  have hlength := (h.progress link).lt hsettled
  have hcovered := h.covered
  have hfed := fed_observe now watched link
  rw [attempt_observe] at hmem
  obtain ⟨hplace, hbegan | hbefore⟩ := of_mem_attemptAfter hmem
  · exact hbegan
  · have hearlier := h.place attempt hbefore
    omega

theorem observe (h : Followed limits now watched) (link : σ) :
    Followed limits now (Intake.observe now watched link).1.after where
  limits := by
    rcases observe_cases now watched link with ⟨-, hintake⟩ | ⟨-, hintake⟩
    · rw [hintake]
      exact h.limits
    · rw [hintake]
      exact h.limits
  resumable := by
    rw [assembler_observe now watched link]
    exact h.resumable.perform _
  covered := by
    have hle := (h.progress link).le
    have hcovered := h.covered
    have hfed := fed_observe now watched link
    omega
  isSome := by
    rw [attempt_observe, isSome_attemptAfter]
    rfl
  place := by
    intro attempt hmem
    rw [attempt_observe] at hmem
    exact (of_mem_attemptAfter hmem).1
  began_le := by
    intro attempt hmem
    rw [attempt_observe] at hmem
    rcases (of_mem_attemptAfter hmem).2 with hbegan | hbefore
    · rw [hbegan]
      exact Nat.le_refl _
    · exact h.began_le attempt hbefore
  since_le := by
    intro start hmem
    rcases since_observe hmem with rfl | hbefore
    · exact Nat.le_refl _
    · exact h.since_le start hbefore

/-- A reading that is right stays right throughout a poll that settles nothing. -/
theorem right_of_quiet (h : Followed limits now watched) (hpunctual : watched.Punctual) {link : σ}
    (hquiet : (Intake.observe now watched link).1.polled.settled = []) :
    let after := (Intake.observe now watched link).1.after
    ∀ start ∈ watched.intake.since, after.intake.inProgress = true ∧
      ∃ attempt ∈ after.attempt, attempt.began ≤ start := by
  intro after start hmem
  obtain ⟨hbusy, attempt, hattempt, hbegan⟩ := hpunctual start hmem
  obtain ⟨hstill, hsame⟩ := h.attempt_of_quiet hbusy hquiet
  exact ⟨hstill, attempt, by rw [hsame]; exact hattempt, hbegan⟩

/-- The reading of the poll itself is right for a frame in progress after it. -/
theorem right_of_now (h : Followed limits now watched) {link : σ}
    (hbusy : (Intake.observe now watched link).1.after.intake.inProgress = true) :
    ∃ attempt ∈ (Intake.observe now watched link).1.after.attempt, attempt.began ≤ now := by
  have hafter := h.observe link
  obtain ⟨attempt, hattempt⟩ := Option.isSome_iff_exists.mp (hafter.isSome.trans hbusy)
  exact ⟨attempt, hattempt, hafter.began_le attempt hattempt⟩

theorem punctual_of_success (h : Followed limits now watched) (hpunctual : watched.Punctual)
    {link : σ} (hsuccess : (Intake.observe now watched link).1.polled.failed = false) :
    (Intake.observe now watched link).1.after.Punctual := by
  intro start hmem
  obtain ⟨hbusy, hkept⟩ := kept_of_success hsuccess hmem
  rcases hkept with rfl | ⟨hquiet, hbefore⟩
  · exact ⟨hbusy, h.right_of_now hbusy⟩
  · exact h.right_of_quiet hpunctual hquiet start hbefore

theorem punctual_iff_of_failure (h : Followed limits now watched) (hpunctual : watched.Punctual)
    {link : σ} (hfailed : (Intake.observe now watched link).1.polled.failed = true) :
    (Intake.observe now watched link).1.after.Punctual ↔
      (Intake.observe now watched link).1.Harmless := by
  have hsince := since_of_failed hfailed
  by_cases hquiet : (Intake.observe now watched link).1.polled.settled = []
  · constructor
    · intro _ _ hsettled
      exact absurd hquiet hsettled
    · intro _ start hmem
      rw [hsince] at hmem
      exact h.right_of_quiet hpunctual hquiet start hmem
  · constructor
    · intro hafter _ _ start hmem
      obtain ⟨hbusy, attempt, hattempt, hbegan⟩ := hafter start (by rw [hsince]; exact hmem)
      rw [h.began_of_settled hquiet attempt hattempt] at hbegan
      exact ⟨hbusy, hbegan⟩
    · intro hharmless start hmem
      rw [hsince] at hmem
      obtain ⟨hbusy, hle⟩ := hharmless hfailed hquiet start hmem
      obtain ⟨attempt, hattempt, hbegan⟩ := h.right_of_now hbusy
      exact ⟨hbusy, attempt, hattempt, Nat.le_trans hbegan hle⟩

/-- If the reading kept is right before a poll, it is right after it exactly if the
poll is harmless. -/
theorem punctual_observe_iff (h : Followed limits now watched) (hpunctual : watched.Punctual)
    (link : σ) :
    (Intake.observe now watched link).1.after.Punctual ↔
      (Intake.observe now watched link).1.Harmless := by
  cases hfailed : (Intake.observe now watched link).1.polled.failed with
  | true => exact h.punctual_iff_of_failure hpunctual hfailed
  | false =>
      refine ⟨fun _ hfault => ?_, fun _ => h.punctual_of_success hpunctual hfailed⟩
      rw [hfailed] at hfault
      exact absurd hfault Bool.false_ne_true

/-- A poll gives up the frame that a right reading is kept for only after its time. -/
theorem timely (h : Followed limits now watched) (hpunctual : watched.Punctual) {link : σ}
    (habandon : .abandon ∈ (Intake.observe now watched link).1.polled.calls) :
    ∀ attempt ∈ watched.attempt, attempt.began + limits.frameTimeout ≤ now := by
  intro attempt hmem
  have hoverdue := overdue_of_abandon habandon
  unfold overdue at hoverdue
  split at hoverdue
  · rename_i start hsince
    obtain ⟨-, other, hother, hbegan⟩ := hpunctual start hsince
    obtain rfl := Option.mem_unique hmem hother
    have hpast := (Duration.le_between_iff (h.since_le start hsince)).mp
      (of_decide_eq_true hoverdue)
    rw [h.limits] at hpast
    simp only [Duration.le_iff, Duration.nanos_add] at *
    omega
  · exact absurd hoverdue Bool.false_ne_true

end Followed

/-! ## A row of polls -/

variable {limits : FrameLimits}

theorem followed_ofLimits (limits : FrameLimits) :
    Followed limits .zero { intake := ofLimits limits } where
  limits := rfl
  resumable := Assembler.resumable_new _
  covered := Nat.le_refl _
  isSome := rfl
  place _ hmem := by simp at hmem
  began_le _ hmem := by simp at hmem
  since_le _ hmem := by simp [ofLimits] at hmem

/-- Every poll of a row is a poll of an intake that was followed so far. -/
theorem followed_of_mem_observeAll {occasions : List (Occasion σ)} {clock : Duration}
    {watched : Watched} {link : σ} (h : Followed limits clock watched)
    (hpast : ∀ occasion ∈ occasions, clock ≤ occasion.now)
    (hclock : (occasions.map Occasion.now).Pairwise (· ≤ ·)) :
    ∀ poll ∈ observeAll occasions watched link,
      Followed limits poll.now poll.before ∧
        ∃ link : σ, poll = (observe poll.now poll.before link).1 := by
  induction occasions generalizing clock watched link with
  | nil => simp [observeAll]
  | cons occasion occasions ih =>
      obtain ⟨hfirst, hlater⟩ := List.pairwise_cons.mp hclock
      have hnow := h.later (hpast occasion List.mem_cons_self)
      intro poll hmem
      rw [observeAll, List.mem_cons] at hmem
      rcases hmem with rfl | hmem
      · exact ⟨hnow, occasion.arrive link, rfl⟩
      · refine ih (hnow.observe (occasion.arrive link)) ?_ hlater poll hmem
        intro later hmem
        exact hfirst later.now (List.mem_map_of_mem hmem)

theorem punctual_observeAll_iff {occasions : List (Occasion σ)} {clock : Duration}
    {watched : Watched} {link : σ} (h : Followed limits clock watched)
    (hpunctual : watched.Punctual) (hpast : ∀ occasion ∈ occasions, clock ≤ occasion.now)
    (hclock : (occasions.map Occasion.now).Pairwise (· ≤ ·)) :
    (∀ poll ∈ observeAll occasions watched link, poll.after.Punctual) ↔
      ∀ poll ∈ observeAll occasions watched link, poll.Harmless := by
  induction occasions generalizing clock watched link with
  | nil => simp [observeAll]
  | cons occasion occasions ih =>
      obtain ⟨hfirst, hlater⟩ := List.pairwise_cons.mp hclock
      have hnow := h.later (hpast occasion List.mem_cons_self)
      have hone := hnow.punctual_observe_iff hpunctual (occasion.arrive link)
      simp only [observeAll, List.forall_mem_cons]
      rw [hone]
      apply and_congr_right
      intro hharmless
      apply ih (hnow.observe (occasion.arrive link)) (hone.mpr hharmless)
      · intro later hmem
        exact hfirst later.now (List.mem_map_of_mem hmem)
      · exact hlater

/-- **A frame given up too soon**: on a clock that never goes back, the reading kept
is right after every poll of a row exactly if every failed poll that settled
something, and had found a reading kept, left a frame in progress and was made at
that very reading. And a poll that finds the reading right gives up no frame before
its time is up, counted from the poll that began with it. -/
theorem punctual_iff (limits : FrameLimits) (occasions : List (Occasion σ)) (link : σ)
    (hclock : (occasions.map Occasion.now).Pairwise (· ≤ ·)) :
    let seen := observeAll occasions { intake := ofLimits limits } link
    ((∀ poll ∈ seen, poll.after.Punctual) ↔
        ∀ poll ∈ seen, poll.polled.failed = true → poll.polled.settled ≠ [] →
          ∀ start ∈ poll.before.intake.since,
            poll.after.intake.inProgress = true ∧ poll.now ≤ start) ∧
      ∀ poll ∈ seen, poll.before.Punctual → .abandon ∈ poll.polled.calls →
        ∀ attempt ∈ poll.before.attempt, attempt.began + limits.frameTimeout ≤ poll.now := by
  intro seen
  have hfollowed := followed_ofLimits limits
  have hpast : ∀ occasion ∈ occasions, Duration.zero ≤ occasion.now :=
    fun occasion _ => Nat.zero_le _
  constructor
  · apply punctual_observeAll_iff hfollowed _ hpast hclock
    intro start hmem
    simp [ofLimits] at hmem
  · intro poll hmem hpunctual habandon
    obtain ⟨hbefore, link, hpoll⟩ := followed_of_mem_observeAll hfollowed hpast hclock poll hmem
    rw [hpoll] at habandon
    exact hbefore.timely hpunctual habandon

/-- A frame starts at 0 ms. A poll at 300 ms reads more of it and then fails, so it
settles nothing and does no harm. The frame is kept at 499 ms and given up at 500 ms. -/
theorem punctual_amid_quiet_fault :
    let occasions : List (Occasion Scripted) := [
      ⟨fun script => script.onPeer (Loopback.inject [2, 0x20, 0x4F]), .ofMillis 0⟩,
      ⟨fun script => { script.onPeer (Loopback.inject [0, 0]) with readsToFailure := 2 },
        .ofMillis 300⟩,
      ⟨id, .ofMillis 499⟩, ⟨id, .ofMillis 500⟩]
    let limits : FrameLimits := { readChunk := 1, frameTimeout := .ofMillis 500 }
    let seen := observeAll occasions { intake := ofLimits limits } ({} : Scripted)
    (occasions.map Occasion.now).Pairwise (· ≤ ·) ∧
      seen.map (fun poll => (poll.polled.failed, poll.polled.settled.length)) =
        [(false, 0), (true, 0), (false, 0), (false, 1)] ∧
      (∀ poll ∈ seen, poll.after.Punctual) ∧
      ∃ poll ∈ seen, .abandon ∈ poll.polled.calls ∧
        ∀ attempt ∈ poll.before.attempt, attempt.began + limits.frameTimeout ≤ poll.now := by
  intro occasions limits seen
  have hclock : (occasions.map Occasion.now).Pairwise (· ≤ ·) := by decide +kernel
  obtain ⟨hpunctual, htimely⟩ := punctual_iff limits occasions ({} : Scripted) hclock
  have hright : ∀ poll ∈ seen, poll.after.Punctual := hpunctual.mpr (by decide +kernel)
  obtain ⟨poll, hmem, hbefore, habandon⟩ : ∃ poll ∈ seen,
      poll.before.Punctual ∧ .abandon ∈ poll.polled.calls := by decide +kernel
  exact ⟨hclock, by decide +kernel, hright, poll, hmem, habandon, htimely poll hmem hbefore habandon⟩

/-- A frame starts at 0 ms. The poll at 300 ms completes it and begins with the next
in its first read, and fails in its second, so the reading kept is still that of 0 ms.
At 500 ms the second frame is given up, 200 ms after the poll that began with it, and
its last octets come too late. -/
theorem abandoned_early :
    let occasions : List (Occasion Scripted) := [
      ⟨fun script => script.onPeer (Loopback.inject [2, 0x20, 0x4F]), .ofMillis 0⟩,
      ⟨fun script =>
        { script.onPeer (Loopback.inject [0, 0, 3, 0x6F, 2, 0x21, 0x4F, 0, 0]) with
          readsToFailure := 2 }, .ofMillis 300⟩,
      ⟨fun script => script.onPeer (Loopback.inject [3, 0x6E]), .ofMillis 500⟩]
    let limits : FrameLimits := { readChunk := 8, frameTimeout := .ofMillis 500 }
    let seen := observeAll occasions { intake := ofLimits limits } ({} : Scripted)
    (occasions.map Occasion.now).Pairwise (· ≤ ·) ∧
      (∃ poll ∈ seen, ¬ poll.after.Punctual) ∧
      ∃ poll ∈ seen, .abandon ∈ poll.polled.calls ∧
        poll.before.attempt = some ⟨7, .ofMillis 300⟩ ∧
        ¬ .ofMillis 300 + limits.frameTimeout ≤ poll.now := by
  decide +kernel

end Intake

end PeripheralHost
