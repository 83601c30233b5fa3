import PeripheralHost.Proofs.Logbook

/-!
# What a silent line gives back

A corrupted length makes a frame claim octets that belong to the frames behind
it, and when nothing more arrives the intake holds all of them. They come back
by time alone. A poll that finds the frame overdue gives it up, which uncovers
the octets behind its start mark; among them may be another false start, and
then the intake waits again.

That wait ends too, because a poll that gives a frame up keeps its own reading
of the clock for the frame it uncovers. So on a silent line, polled at intervals
of at least the timeout, every poll does what one call of `Assembler.abandon`
does and nothing else (`Intake.Dated.poll_silent`). What is known of that call
then holds of the polls: each uses up a start mark, and together they answer
every frame that lies whole among the octets held (`Intake.returned_of_silence`).

## Main results

* `Intake.dated_pollAll` — the reading kept is never later than the last poll.
* `Intake.Dated.poll_silent` — a poll of a silent line abandons and no more.
* `Intake.returned_of_silence` — a silent line gives back all frames held.
-/

namespace PeripheralHost

/-! ## Calls of abandon -/

namespace Assembler

/-- Calls of abandon settle the frames that lie in front of what they leave
pending. -/
theorem Resumable.frames_abandons {assembler : Assembler} (h : assembler.Resumable) (count : Nat) :
    let performed := Assembler.perform (List.replicate count .abandon) assembler
    Outcome.frames performed.1 ++ Stream.frames assembler.limit performed.2.pending =
      Stream.frames assembler.limit assembler.pending := by
  induction count generalizing assembler with
  | zero => rfl
  | succ count ih =>
      have hlater := ih h.abandon
      rw [limit_abandon] at hlater
      rw [List.replicate_succ, Assembler.perform, Assembler.call]
      simp only [Outcome.frames_append, List.append_assoc]
      rw [hlater, h.frames_abandon]

/-- As many calls of abandon as start marks are pending leave nothing pending. -/
theorem Resumable.isIdle_abandons {assembler : Assembler} (h : assembler.Resumable) {count : Nat}
    (hcount : assembler.pending.count Frame.startMark ≤ count) :
    (Assembler.perform (List.replicate count .abandon) assembler).2.isIdle = true := by
  induction count generalizing assembler with
  | zero =>
      rw [isIdle_iff]
      obtain hnil | ⟨behind, hpending, -⟩ := h.pending
      · exact hnil
      · rw [hpending, List.count_cons_self] at hcount
        omega
  | succ count ih =>
      rw [List.replicate_succ, Assembler.perform, Assembler.call]
      apply ih h.abandon
      by_cases hidle : assembler.isIdle = true
      · rw [abandon_of_idle hidle]
        rw [isIdle_iff] at hidle
        rw [hidle]
        exact Nat.zero_le _
      · have hlt := h.count_pending_abandon_lt hidle
        omega

end Assembler

namespace Intake

variable {σ : Type} [Link σ] {works : σ → Prop}

/-! ## The reading kept -/

/-- The intake keeps a reading exactly while a frame is in progress, and it is
not later than `last`, the reading of the latest poll. -/
structure Dated (limits : FrameLimits) (last : Option Duration) (intake : Intake) : Prop where
  limits_eq : intake.limits = limits
  limit_eq : intake.assembler.limit = limits.maxBody
  resumable : intake.assembler.Resumable
  since_of_idle : intake.inProgress = false → intake.since = none
  since_of_busy : intake.inProgress = true →
    ∃ start latest, intake.since = some start ∧ last = some latest ∧ start ≤ latest

variable {limits : FrameLimits} {last : Option Duration} {intake : Intake}

theorem dated_ofLimits (limits : FrameLimits) : Dated limits none (ofLimits limits) where
  limits_eq := rfl
  limit_eq := rfl
  resumable := Assembler.resumable_new _
  since_of_idle _ := rfl
  since_of_busy hbusy := by simp [inProgress, ofLimits, Assembler.isIdle] at hbusy

/-- Taking note of the end of a poll dates the intake by that poll. -/
theorem Dated.settle (h : Dated limits last intake) {now : Duration}
    (hpast : ∀ latest ∈ last, latest ≤ now) {assembler : Assembler}
    (hlimit : assembler.limit = intake.assembler.limit) (hresumable : assembler.Resumable)
    (outcomes : List Outcome) :
    Dated limits (some now) ({ intake with assembler }.settle now outcomes) where
  limits_eq := h.limits_eq
  limit_eq := hlimit.trans h.limit_eq
  resumable := hresumable
  since_of_idle hidle := by
    have hidle : assembler.isIdle = true := by simpa [Intake.settle, inProgress] using hidle
    simp [Intake.settle, hidle]
  since_of_busy hbusy := by
    have hbusy : assembler.isIdle = false := by simpa [Intake.settle, inProgress] using hbusy
    by_cases hkept : intake.since.isNone || !outcomes.isEmpty
    · exact ⟨now, now, by simp [Intake.settle, hbusy, hkept], rfl, Nat.le_refl _⟩
    · -- A reading that stands was kept for a frame in progress before.
      have hsince : ({ intake with assembler }.settle now outcomes).since = intake.since := by
        simp [Intake.settle, hbusy, hkept]
      cases hbefore : intake.inProgress with
      | false => simp [h.since_of_idle hbefore] at hkept
      | true =>
          obtain ⟨start, latest, hstart, hlatest, hle⟩ := h.since_of_busy hbefore
          exact ⟨start, now, hsince.trans hstart, rfl, Nat.le_trans hle (hpast latest hlatest)⟩

theorem Dated.poll (h : Dated limits last intake) (hunfailing : Link.Unfailing works)
    {now : Duration} (hpast : ∀ latest ∈ last, latest ≤ now) {link : σ} (hworks : works link) :
    Dated limits (some now) (intake.poll now link).2.1 ∧ works (intake.poll now link).2.2 := by
  obtain ⟨next, hnext, hpoll⟩ := exists_poll_of_works hunfailing now intake hworks
  rw [hpoll]
  refine ⟨h.settle hpast ?_ ?_ _, hnext⟩
  · rw [Assembler.limit_feed]
    split
    · exact Assembler.limit_abandon _
    · rfl
  · apply Assembler.Resumable.feed
    split
    · exact h.resumable.abandon
    · exact h.resumable

/-- A row of polls in the order of the clock dates the intake by its last. -/
theorem dated_pollAll {occasions : List (Occasion σ)} {link : σ} (h : Dated limits last intake)
    (hrow : Orderly works occasions link)
    (hpast : ∀ latest ∈ last, ∀ occasion ∈ occasions, latest ≤ occasion.now) :
    Dated limits ((last.toList ++ occasions.map Occasion.now).getLast?)
        (pollAll occasions intake link).2.1 ∧
      works (pollAll occasions intake link).2.2 := by
  induction occasions generalizing last intake link with
  | nil =>
      refine ⟨?_, hrow.working⟩
      cases last <;> exact h
  | cons occasion occasions ih =>
      have harrive := hrow.arrive occasion List.mem_cons_self link hrow.working
      obtain ⟨hdated, hworks⟩ := h.poll hrow.unfailing
        (fun latest hmem => hpast latest hmem occasion List.mem_cons_self) harrive
      obtain ⟨hfirst, hordered⟩ := List.pairwise_cons.mp hrow.ordered
      have hlater := ih hdated
        ⟨hrow.unfailing, hworks,
          fun later hmem => hrow.arrive later (List.mem_cons_of_mem _ hmem), hordered⟩
        (fun latest hmem later hlater => by
          obtain rfl := Option.some.inj hmem
          exact hfirst later.now (List.mem_map_of_mem hlater))
      rw [pollAll_cons]
      refine ⟨?_, hlater.2⟩
      rw [List.map_cons, List.getLast?_append_of_ne_nil _ (List.cons_ne_nil _ _)]
      exact hlater.1

/-! ## Polls of a silent line -/

/-- A poll, and the intake before and after it. -/
structure Passage where
  /-- The intake before the poll. -/
  before : Intake
  /-- What the poll called for, settled and answered. -/
  polled : Polled
  /-- The intake after the poll. -/
  after : Intake

/-- The passages of a row of polls. -/
def passages : List (Occasion σ) → Intake → σ → List Passage
  | [], _, _ => []
  | occasion :: occasions, intake, link =>
      let link := occasion.arrive link
      let polled := intake.poll occasion.now link
      let calls := intake.calls occasion.now link
      ⟨intake, ⟨calls, (Assembler.perform calls intake.assembler).1, polled.1⟩, polled.2.1⟩ ::
        passages occasions polled.2.1 polled.2.2

/-- A frame in progress is overdue once the timeout has passed since the latest
poll. -/
theorem Dated.overdue_eq (h : Dated limits last intake) {now : Duration}
    (hspaced : ∀ latest ∈ last, latest + limits.frameTimeout ≤ now) :
    intake.overdue now = intake.inProgress := by
  cases hbusy : intake.inProgress with
  | false => simp [overdue, h.since_of_idle hbusy]
  | true =>
      obtain ⟨start, latest, hstart, hlatest, hle⟩ := h.since_of_busy hbusy
      have htime := hspaced latest hlatest
      have hspan : limits.frameTimeout ≤ Duration.between start now := by
        simp only [Duration.le_iff, Duration.nanos_add, Duration.between] at *
        omega
      simp [overdue, hstart, h.limits_eq, hspan]

/-- A poll that takes nothing in, when the timeout has passed since the poll
before it, abandons the frame in progress and does nothing else. -/
theorem Dated.poll_silent (h : Dated limits last intake) (hunfailing : Link.Unfailing works)
    {now : Duration} (hspaced : ∀ latest ∈ last, latest + limits.frameTimeout ≤ now) {link : σ}
    (hworks : works link) (hsilent : intake.taken link = []) :
    (intake.poll now link).1 = .ok (Assembler.abandon intake.assembler).1 ∧
      (intake.poll now link).2.1.assembler = (Assembler.abandon intake.assembler).2 := by
  obtain ⟨next, -, hpoll⟩ := exists_poll_of_works hunfailing now intake hworks
  rw [hpoll, h.overdue_eq hspaced, hsilent, Assembler.feed_nil]
  cases hbusy : intake.inProgress with
  | true => simp [Intake.settle]
  | false =>
      have hidle : intake.assembler.isIdle = true := by simpa [inProgress] using hbusy
      simp [Intake.settle, Assembler.abandon_of_idle hidle]

theorem abandon_mem_calls (hunfailing : Link.Unfailing works) {now : Duration} {link : σ}
    (hworks : works link) (hoverdue : intake.overdue now = true) :
    .abandon ∈ intake.calls now link := by
  obtain ⟨available, opened, havailable, -⟩ := hunfailing.available hworks
  simp [calls, havailable, hoverdue]

/-- A row of polls of a line that never fails and is silent, at intervals of at
least the timeout; `last` is the reading of the poll before the row. -/
structure Silent (works : σ → Prop) (timeout : Duration) (last : Option Duration)
    (silence : List (Occasion σ)) (intake : Intake) (link : σ) : Prop where
  row : Orderly works silence link
  spaced : (last.toList ++ silence.map Occasion.now).IsChain fun earlier later =>
    earlier + timeout ≤ later
  nothing : ∀ taking ∈ takings silence intake link, taking.bytes = []

/-- The first poll of a silent row, and the row behind it. -/
theorem Silent.cons {occasion : Occasion σ} {silence : List (Occasion σ)} {link : σ}
    (h : Silent works limits.frameTimeout last (occasion :: silence) intake link)
    (hdated : Dated limits last intake) :
    let line := occasion.arrive link
    let polled := intake.poll occasion.now line
    works line ∧ (∀ latest ∈ last, latest + limits.frameTimeout ≤ occasion.now) ∧
      intake.taken line = [] ∧ Dated limits (some occasion.now) polled.2.1 ∧
      Silent works limits.frameTimeout (some occasion.now) silence polled.2.1 polled.2.2 := by
  intro line polled
  have hline := h.row.arrive occasion List.mem_cons_self link h.row.working
  obtain ⟨hspaced, hlater⟩ : (∀ latest ∈ last, latest + limits.frameTimeout ≤ occasion.now) ∧
      (occasion.now :: silence.map Occasion.now).IsChain fun earlier later =>
        earlier + limits.frameTimeout ≤ later := by
    have hchain := h.spaced
    cases last with
    | none => exact ⟨by simp, hchain⟩
    | some latest =>
        rw [Option.toList_some, List.singleton_append, List.map_cons,
          List.isChain_cons_cons] at hchain
        refine ⟨?_, hchain.2⟩
        intro other hmem
        rw [← Option.some.inj hmem]
        exact hchain.1
  obtain ⟨hnothing, hrest⟩ := List.forall_mem_cons.mp h.nothing
  have hpast : ∀ latest ∈ last, latest ≤ occasion.now :=
    fun latest hmem => Nat.le_trans (Nat.le_add_right _ _) (hspaced latest hmem)
  obtain ⟨hafter, hworks⟩ := hdated.poll h.row.unfailing hpast hline
  exact ⟨hline, hspaced, hnothing, hafter,
    ⟨h.row.unfailing, hworks, fun later hmem => h.row.arrive later (List.mem_cons_of_mem _ hmem),
      (List.pairwise_cons.mp h.row.ordered).2⟩, hlater, hrest⟩

/-- A row of polls of a silent line does what as many calls of abandon do. -/
theorem Silent.passages_eq {silence : List (Occasion σ)} {link : σ}
    (h : Silent works limits.frameTimeout last silence intake link)
    (hdated : Dated limits last intake) :
    let performed := Assembler.perform (List.replicate silence.length .abandon) intake.assembler
    (passages silence intake link).flatMap (·.polled.returned) = performed.1 ∧
      (pollAll silence intake link).2.1.assembler = performed.2 := by
  induction silence generalizing last intake link with
  | nil => exact ⟨rfl, rfl⟩
  | cons occasion silence ih =>
      obtain ⟨hline, hspaced, hnothing, hafter, hlater⟩ := h.cons hdated
      obtain ⟨hanswer, hassembler⟩ := hdated.poll_silent h.row.unfailing hspaced hline hnothing
      obtain ⟨hreturned, hlast⟩ := ih hlater hafter
      rw [hassembler] at hreturned hlast
      rw [pollAll_cons]
      refine ⟨?_, hlast⟩
      rw [passages, List.flatMap_cons, hreturned]
      simp only [Polled.returned, hanswer]
      rfl

/-- Every poll of a silent row that finds a frame in progress gives it up and
holds fewer octets afterwards. -/
theorem Silent.abandons {silence : List (Occasion σ)} {link : σ}
    (h : Silent works limits.frameTimeout last silence intake link)
    (hdated : Dated limits last intake) :
    ∀ passage ∈ passages silence intake link, passage.polled.failed = false ∧
      (passage.before.inProgress = true → .abandon ∈ passage.polled.calls ∧
        passage.after.assembler.pending.length < passage.before.assembler.pending.length) := by
  induction silence generalizing last intake link with
  | nil => simp [passages]
  | cons occasion silence ih =>
      obtain ⟨hline, hspaced, hnothing, hafter, hlater⟩ := h.cons hdated
      obtain ⟨hanswer, hassembler⟩ := hdated.poll_silent h.row.unfailing hspaced hline hnothing
      intro passage hmem
      rw [passages, List.mem_cons] at hmem
      rcases hmem with rfl | hmem
      · refine ⟨by simp [Polled.failed, hanswer, Except.toOption], ?_⟩
        intro hbusy
        refine ⟨abandon_mem_calls h.row.unfailing hline ?_, ?_⟩
        · rw [hdated.overdue_eq hspaced]
          exact hbusy
        · rw [hassembler]
          apply Assembler.length_pending_abandon_lt
          simpa [inProgress] using hbusy
      · exact ih hlater hafter passage hmem

/-- A silent row with as many polls as start marks were pending ends with no frame
in progress, and has answered the frames of the octets that were pending. -/
theorem Silent.returned_eq {silence : List (Occasion σ)} {link : σ}
    (h : Silent works limits.frameTimeout last silence intake link)
    (hdated : Dated limits last intake)
    (hcount : intake.assembler.pending.count Frame.startMark ≤ silence.length) :
    (pollAll silence intake link).2.1.inProgress = false ∧
      Outcome.frames ((passages silence intake link).flatMap (·.polled.returned)) =
        Stream.frames limits.maxBody intake.assembler.pending := by
  obtain ⟨hreturned, hlast⟩ := h.passages_eq hdated
  have hidle := hdated.resumable.isIdle_abandons hcount
  have hframes := hdated.resumable.frames_abandons silence.length
  constructor
  · rw [inProgress, hlast, hidle, Bool.not_true]
  · rw [Assembler.isIdle_iff] at hidle
    simp only [hidle, Stream.frames_nil, List.append_nil, hdated.limit_eq] at hframes
    rw [hreturned, hframes]

/-- **A stall ends**: behind any row of polls of a link that never fails, let polls
follow that take nothing in, each at least the timeout after the one before it.
Every one of them that finds a frame in progress gives it up and holds fewer
octets afterwards. Once there were as many as start marks were pending, no frame
is in progress, and they have answered exactly the frames of the octets that were
pending: every frame whose written form lies among these, except one overlapped
by a frame answered before it. -/
theorem returned_of_silence (limits : FrameLimits) {occasions silence : List (Occasion σ)} {link : σ}
    (hrow : Orderly works (occasions ++ silence) link)
    (hspaced : ((occasions.map Occasion.now).getLast?.toList ++ silence.map Occasion.now).IsChain
      fun earlier later => earlier + limits.frameTimeout ≤ later)
    (hsilent : ∀ taking ∈
      takings silence (pollAll occasions (ofLimits limits) link).2.1
        (pollAll occasions (ofLimits limits) link).2.2, taking.bytes = []) :
    let reached := (pollAll occasions (ofLimits limits) link).2
    let row := passages silence reached.1 reached.2
    let pending := reached.1.assembler.pending
    let delivered := Stream.occurrences limits.maxBody 0 pending
    (∀ passage ∈ row, passage.polled.failed = false ∧
      (passage.before.inProgress = true → .abandon ∈ passage.polled.calls ∧
        passage.after.assembler.pending.length < passage.before.assembler.pending.length)) ∧
    (pending.count Frame.startMark ≤ silence.length →
      (pollAll silence reached.1 reached.2).2.1.inProgress = false ∧
        Outcome.frames (row.flatMap (·.polled.returned)) = Stream.frames limits.maxBody pending ∧
        Stream.frames limits.maxBody pending = delivered.map Stream.Occurrence.frame ∧
        ∀ occurrence : Stream.Occurrence, occurrence.Within limits.maxBody 0 pending →
          occurrence ∈ delivered ∨
            ∃ earlier ∈ delivered,
              earlier.start < occurrence.start ∧ occurrence.start < earlier.stop) := by
  intro reached row pending delivered
  have hordered := hrow.ordered
  rw [List.map_append, List.pairwise_append] at hordered
  have hearlier : Orderly works occasions link :=
    ⟨hrow.unfailing, hrow.working,
      fun occasion hmem => hrow.arrive occasion (List.mem_append_left _ hmem), hordered.1⟩
  obtain ⟨hdated, hworks⟩ := dated_pollAll (dated_ofLimits limits) hearlier (by simp)
  have hsilence : Silent works limits.frameTimeout (occasions.map Occasion.now).getLast? silence
      reached.1 reached.2 :=
    ⟨⟨hrow.unfailing, hworks,
      fun occasion hmem => hrow.arrive occasion (List.mem_append_right _ hmem), hordered.2.1⟩,
      hspaced, hsilent⟩
  refine ⟨hsilence.abandons hdated, ?_⟩
  intro hcount
  obtain ⟨hidle, hreturned⟩ := hsilence.returned_eq hdated hcount
  exact ⟨hidle, hreturned, Stream.frames_eq_map_occurrences limits.maxBody 0 pending,
    fun occurrence => Stream.occurrences_complete limits.maxBody 0 pending⟩

/-- A false start claims twenty octets, and behind it another claims nine, among
them a whole frame. The last octets arrive at 10 ms. The polls at 510 ms and
1010 ms give up one false start each, and the second of them answers the frame. -/
theorem returned_amid_false_starts :
    let frame : Frame := ⟨0x22, Frame.replyMarker, [7]⟩
    let arrival := fun (millis : Nat) (octets : Bytes) =>
      (⟨fun script => script.onPeer (Loopback.inject octets), .ofMillis millis⟩ : Occasion Scripted)
    let occasions := [arrival 0 [2, 0x20, 0x4F, 0],
      arrival 10 ([20, 2, 0x21, 0x4F, 0, 9] ++ wrap (frame.header ++ frame.body))]
    let silence := [arrival 510 [], arrival 1010 [], arrival 1510 []]
    let limits : FrameLimits := { frameTimeout := .ofMillis 500 }
    let reached := (pollAll occasions (ofLimits limits) ({} : Scripted)).2
    let row := passages silence reached.1 reached.2
    Orderly Scripted.Readable (occasions ++ silence) {} ∧
      row.map (fun passage => (passage.before.inProgress, passage.after.assembler.pending.length)) =
        [(true, 13), (true, 0), (false, 0)] ∧
      (∀ passage ∈ row, passage.before.inProgress = true → .abandon ∈ passage.polled.calls) ∧
      reached.1.assembler.pending.count Frame.startMark ≤ silence.length ∧
      Outcome.frames (row.flatMap (·.polled.returned)) = [frame] := by
  intro frame arrival occasions silence limits reached row
  have harrive : ∀ occasion ∈ occasions ++ silence, ∀ script : Scripted,
      script.Readable → (occasion.arrive script).Readable := by
    intro occasion hmem script hreadable
    simp only [occasions, silence, arrival, List.cons_append, List.nil_append, List.mem_cons,
      List.not_mem_nil, or_false] at hmem
    rcases hmem with rfl | rfl | rfl | rfl | rfl <;> exact hreadable
  have hrow : Orderly Scripted.Readable (occasions ++ silence) {} :=
    ⟨Scripted.unfailing, ⟨rfl, rfl, rfl, rfl⟩, harrive, by decide +kernel⟩
  have hcount : reached.1.assembler.pending.count Frame.startMark ≤ silence.length := by
    decide +kernel
  obtain ⟨habandons, hreturned⟩ :=
    returned_of_silence limits hrow (by decide +kernel) (by decide +kernel)
  obtain ⟨-, hframes, -⟩ := hreturned hcount
  have hfound : Stream.frames limits.maxBody reached.1.assembler.pending = [frame] := by
    decide +kernel
  exact ⟨hrow, by decide +kernel, fun passage hmem hbusy => ((habandons passage hmem).2 hbusy).1,
    hcount, hframes.trans hfound⟩

end Intake

end PeripheralHost
