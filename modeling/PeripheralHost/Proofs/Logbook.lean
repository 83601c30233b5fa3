import PeripheralHost.Proofs.PollRuns

/-!
# One reading of the clock is enough

Whether a frame in progress is overdue depends on when it started, and to know
that for certain one would keep a book of all polls: what each of them settled,
and whether it found and left a frame in progress. The frame in progress started
at the latest poll that settled anything or was the first to leave a frame in
progress (`Logbook.startedAt`). A `Logbook` keeps such a book. It knows no link
and no reads: it is told the octets of a poll as a whole, and feeds them at once.

An `Intake` keeps a single reading of the clock. On a link that never fails this
is the same (`Logbook.Agrees`): the reading kept is the start that the book tells,
as long as a frame is in progress, and nothing otherwise. So what is seen of an
intake from outside depends on the octets of each poll and its time alone, and
neither the size of the reads nor the way the link cuts them can be noticed.

## Main results

* `Intake.exists_poll_of_works` — a poll of a link that never fails abandons an
  overdue frame, and then feeds at once what its reads returned.
* `Logbook.Agrees.poll` — the intake and the book stay in agreement.
* `Intake.notices_eq_logbook` — a row of polls shows what the book tells.
-/

namespace PeripheralHost

variable {σ : Type} [Link σ] {works : σ → Prop}

/-! ## Links that never fail -/

/-- As long as a link works it says what is available, every read of it succeeds,
and it still works afterwards. -/
structure Link.Unfailing (works : σ → Prop) : Prop where
  available : ∀ {link : σ}, works link →
    ∃ count next, Link.available link = (.ok count, next) ∧ works next
  read : ∀ {link : σ} (want : Nat), works link →
    ∃ got next, Link.read want link = (.ok got, next) ∧ works next

theorem Link.Unfailing.of_read (h : Unfailing works) {want : Nat} {link next : σ}
    {answer : Except LinkError Bytes} (hworks : works link)
    (hread : Link.read want link = (answer, next)) : (∃ got, answer = .ok got) ∧ works next := by
  obtain ⟨got, after, hgot, hafter⟩ := h.read want hworks
  rw [hread, Prod.mk.injEq] at hgot
  obtain ⟨rfl, rfl⟩ := hgot
  exact ⟨⟨got, rfl⟩, hafter⟩

theorem Link.Unfailing.drain (h : Unfailing works) (chunk available : Nat) (link : σ)
    (taken : List Bytes) (hworks : works link) :
    (drain chunk available link taken).fault = none ∧
      works (drain chunk available link taken).link := by
  fun_induction PeripheralHost.drain chunk available link taken with
  | case1 available link taken hmore fault next hread =>
      obtain ⟨⟨got, hgot⟩, -⟩ := h.of_read hworks hread
      simp at hgot
  | case2 available link taken hmore next hread => exact ⟨rfl, (h.of_read hworks hread).2⟩
  | case3 available link taken hmore b rest next hread ih => exact ih (h.of_read hworks hread).2
  | case4 available link taken hmore => exact ⟨rfl, hworks⟩

/-- A script in which no question and no read goes wrong. It may still limit what
a read returns, and report wrongly what is available. -/
def Scripted.Readable (script : Scripted) : Prop :=
  script.unplugged = false ∧ script.readsToFailure = 0 ∧ script.line.closed = false ∧
    script.line.faultPending = false

theorem Scripted.unfailing : Link.Unfailing Readable where
  available := by
    rintro ⟨⟨toHost, toPeer, writeLimit, faultPending, closed⟩, reports⟩ ⟨rfl, rfl, rfl, rfl⟩
    cases reports with
    | nil => exact ⟨_, _, rfl, rfl, rfl, rfl, rfl⟩
    | cons report reports => exact ⟨_, _, rfl, rfl, rfl, rfl, rfl⟩
  read := by
    rintro ⟨⟨toHost, toPeer, writeLimit, faultPending, closed⟩, reports⟩ want ⟨rfl, rfl, rfl, rfl⟩
    exact ⟨_, _, rfl, rfl, rfl, rfl, rfl⟩

/-! ## One poll -/

namespace Intake

/-- The octets that the reads of a poll return. -/
def taken (intake : Intake) (link : σ) : Bytes :=
  match Link.available link with
  | (.error _, _) => []
  | (.ok available, opened) => (drain intake.limits.chunk available opened []).pieces.flatten

theorem perform_calls_of_available {now : Duration} {intake : Intake} {link opened : σ}
    {available : Nat} (h : Link.available link = (.ok available, opened)) :
    Assembler.perform (intake.calls now link) intake.assembler =
      let expired := if intake.overdue now then Assembler.abandon intake.assembler
        else ([], intake.assembler)
      let fed := Assembler.feed (intake.taken link) expired.2
      (expired.1 ++ fed.1, fed.2) := by
  rw [calls, taken, h]
  simp only
  rw [Assembler.perform_append, Assembler.perform_feed, Assembler.feedAll_eq_feed]
  by_cases hoverdue : intake.overdue now = true
  · simp only [hoverdue, if_true, Assembler.perform, Assembler.call, List.append_nil]
  · simp only [hoverdue, Bool.false_eq_true, if_false, Assembler.perform]

/-- A poll of a link that never fails abandons an overdue frame and feeds at once
all that its reads returned. -/
theorem exists_poll_of_works (hunfailing : Link.Unfailing works) (now : Duration) (intake : Intake)
    {link : σ} (hworks : works link) :
    let expired := if intake.overdue now then Assembler.abandon intake.assembler
      else ([], intake.assembler)
    let fed := Assembler.feed (intake.taken link) expired.2
    ∃ next, works next ∧ intake.poll now link =
      (.ok (expired.1 ++ fed.1),
        { intake with assembler := fed.2 }.settle now (expired.1 ++ fed.1), next) := by
  intro expired fed
  obtain ⟨available, opened, havailable, hopened⟩ := hunfailing.available hworks
  obtain ⟨hfault, hnext⟩ := hunfailing.drain intake.limits.chunk available opened [] hopened
  refine ⟨_, hnext, ?_⟩
  rw [poll_of_available havailable, hfault, perform_calls_of_available havailable]

/-! ## What a row of polls shows -/

/-- What is seen of a poll from outside. -/
structure Notice where
  /-- The frames answered, or the failure of the link. -/
  frames : Except LinkError (List Frame)
  /-- The number of refusals so far. -/
  discarded : Nat
  /-- Whether a frame is in progress afterwards. -/
  inProgress : Bool

/-- What a poll shows that gives this answer and leaves this intake. -/
def notice (answer : Except LinkError (List Outcome)) (intake : Intake) : Notice :=
  ⟨answer.map Outcome.frames, intake.discarded, intake.inProgress⟩

/-- What a poll takes in, and when. -/
structure Taking where
  /-- The reading of the clock during the poll. -/
  now : Duration
  /-- The octets that its reads return. -/
  bytes : Bytes
  deriving DecidableEq

/-- What each poll of a row shows. -/
def notices : List (Occasion σ) → Intake → σ → List Notice
  | [], _, _ => []
  | occasion :: occasions, intake, link =>
      let polled := intake.poll occasion.now (occasion.arrive link)
      notice polled.1 polled.2.1 :: notices occasions polled.2.1 polled.2.2

/-- What each poll of a row takes in. -/
def takings : List (Occasion σ) → Intake → σ → List Taking
  | [], _, _ => []
  | occasion :: occasions, intake, link =>
      let polled := intake.poll occasion.now (occasion.arrive link)
      ⟨occasion.now, intake.taken (occasion.arrive link)⟩ ::
        takings occasions polled.2.1 polled.2.2

/-- Polls in the order of the clock, of a link that never fails. -/
structure Orderly (works : σ → Prop) (occasions : List (Occasion σ)) (link : σ) : Prop where
  unfailing : Link.Unfailing works
  working : works link
  arrive : ∀ occasion ∈ occasions, ∀ link, works link → works (occasion.arrive link)
  ordered : (occasions.map Occasion.now).Pairwise (· ≤ ·)

end Intake

/-! ## The book -/

namespace Logbook

/-- A poll as it stands in a logbook. -/
structure Entry where
  /-- The reading of the clock during the poll. -/
  now : Duration
  /-- Whether no frame was in progress before the poll. -/
  wasIdle : Bool
  /-- What the poll settled. -/
  outcomes : List Outcome
  /-- Whether no frame was in progress after the poll. -/
  isIdle : Bool

/-- The poll settled something, or was the first to leave a frame in progress. -/
def Entry.starts (entry : Entry) : Bool :=
  !entry.outcomes.isEmpty || (entry.wasIdle && !entry.isIdle)

end Logbook

/-- An assembler, with a book of all polls whose octets it was fed. -/
structure Logbook where
  /-- How long a started frame may stay incomplete. -/
  timeout : Duration
  /-- Holds the frame in progress. -/
  assembler : Assembler
  /-- The number of refusals so far. -/
  discarded : Nat := 0
  /-- The polls so far, latest first. -/
  entries : List Logbook.Entry := []

namespace Logbook

/-- A new book. -/
def ofLimits (limits : FrameLimits) : Logbook where
  timeout := limits.frameTimeout
  assembler := { limit := limits.maxBody }

/-- When the frame in progress started: at the latest poll that settled something
or was the first to leave a frame in progress. -/
def startedAt (book : Logbook) : Option Duration := (book.entries.find? Entry.starts).map Entry.now

/-- Whether a frame is in progress and its time is up. -/
def overdue (now : Duration) (book : Logbook) : Bool :=
  !book.assembler.isIdle &&
    book.startedAt.any fun start => decide (start + book.timeout ≤ now)

/-- Abandons an overdue frame, feeds all octets of a poll at once, and enters the
poll. -/
def poll (taking : Intake.Taking) (book : Logbook) : Intake.Notice × Logbook :=
  let expired := if book.overdue taking.now then Assembler.abandon book.assembler
    else ([], book.assembler)
  let fed := Assembler.feed taking.bytes expired.2
  let outcomes := expired.1 ++ fed.1
  let discarded := book.discarded + Outcome.refusals outcomes
  let entry := ⟨taking.now, book.assembler.isIdle, outcomes, fed.2.isIdle⟩
  (⟨.ok (Outcome.frames outcomes), discarded, !fed.2.isIdle⟩,
    { book with assembler := fed.2, discarded, entries := entry :: book.entries })

/-- Enters a row of polls. -/
def pollAll : List Intake.Taking → Logbook → List Intake.Notice
  | [], _ => []
  | taking :: takings, book => (book.poll taking).1 :: pollAll takings (book.poll taking).2

/-! ## Agreement -/

/-- The intake keeps what the book tells: as long as a frame is in progress, the
reading kept is its start. -/
structure Agrees (intake : Intake) (book : Logbook) : Prop where
  assembler : intake.assembler = book.assembler
  timeout : intake.limits.frameTimeout = book.timeout
  discarded : intake.discarded = book.discarded
  since_of_idle : book.assembler.isIdle = true → intake.since = none
  since_of_busy : book.assembler.isIdle = false →
    ∃ start, intake.since = some start ∧ book.startedAt = some start

theorem agrees_ofLimits (limits : FrameLimits) :
    Agrees (Intake.ofLimits limits) (ofLimits limits) where
  assembler := rfl
  timeout := rfl
  discarded := rfl
  since_of_idle _ := rfl
  since_of_busy hbusy := by simp [ofLimits, Assembler.isIdle] at hbusy

theorem mem_entries_of_startedAt {book : Logbook} {start : Duration}
    (h : book.startedAt = some start) : ∃ entry ∈ book.entries, entry.now = start := by
  obtain ⟨entry, hentry, hnow⟩ := Option.map_eq_some_iff.mp h
  exact ⟨entry, List.mem_of_find?_eq_some hentry, hnow⟩

variable {intake : Intake} {book : Logbook} {now : Duration}

theorem Agrees.overdue_eq (h : Agrees intake book)
    (hpast : ∀ entry ∈ book.entries, entry.now ≤ now) :
    intake.overdue now = book.overdue now := by
  cases hidle : book.assembler.isIdle with
  | true => simp [Intake.overdue, overdue, h.since_of_idle hidle, hidle]
  | false =>
      obtain ⟨start, hsince, hstart⟩ := h.since_of_busy hidle
      obtain ⟨entry, hmem, rfl⟩ := mem_entries_of_startedAt hstart
      have htime := @Duration.le_between_iff book.timeout entry.now now (hpast entry hmem)
      simp [Intake.overdue, overdue, hsince, hstart, hidle, h.timeout, htime]

/-- If the reading kept was the start of the frame in progress before a poll, it
is so after it, whatever the poll settled. -/
theorem Agrees.settle (h : Agrees intake book) (outcomes : List Outcome) (assembler : Assembler) :
    Agrees ({ intake with assembler }.settle now outcomes)
      { book with
        assembler
        discarded := book.discarded + Outcome.refusals outcomes
        entries := ⟨now, book.assembler.isIdle, outcomes, assembler.isIdle⟩ :: book.entries } where
  assembler := rfl
  timeout := h.timeout
  discarded := by simp [Intake.settle, h.discarded]
  since_of_idle hidle := by
    simp only at hidle
    simp [Intake.settle, hidle]
  since_of_busy hbusy := by
    simp only at hbusy
    by_cases hsettled : outcomes = []
    · cases hidle : book.assembler.isIdle with
      | true =>
          have hsince := h.since_of_idle hidle
          exact ⟨now, by simp [Intake.settle, hbusy, hsince],
            by simp [startedAt, Entry.starts, hbusy]⟩
      | false =>
          obtain ⟨start, hsince, hstart⟩ := h.since_of_busy hidle
          refine ⟨start, by simp [Intake.settle, hbusy, hsince, hsettled], ?_⟩
          rw [← hstart]
          simp [startedAt, Entry.starts, hsettled]
    · exact ⟨now, by simp [Intake.settle, hbusy, hsettled],
        by simp [startedAt, Entry.starts, hsettled]⟩

/-- One poll of a link that never fails, against one entry of the book. -/
theorem Agrees.poll (h : Agrees intake book) (hpast : ∀ entry ∈ book.entries, entry.now ≤ now)
    (hunfailing : Link.Unfailing works) {link : σ} (hworks : works link) :
    let polled := intake.poll now link
    let entered := book.poll ⟨now, intake.taken link⟩
    works polled.2.2 ∧ Agrees polled.2.1 entered.2 ∧
      Intake.notice polled.1 polled.2.1 = entered.1 := by
  intro polled entered
  obtain ⟨next, hnext, hpoll⟩ := Intake.exists_poll_of_works hunfailing now intake hworks
  rw [h.overdue_eq hpast, h.assembler] at hpoll
  have hpolled : polled = _ := hpoll
  rw [hpolled]
  refine ⟨hnext, h.settle _ _, ?_⟩
  simp only [Intake.notice, Intake.settle, h.discarded]
  rfl

theorem Agrees.notices (h : Agrees intake book) {occasions : List (Intake.Occasion σ)} {link : σ}
    (hrow : Intake.Orderly works occasions link)
    (hpast : ∀ entry ∈ book.entries, ∀ occasion ∈ occasions, entry.now ≤ occasion.now) :
    Intake.notices occasions intake link = book.pollAll (Intake.takings occasions intake link) := by
  induction occasions generalizing intake book link with
  | nil => rfl
  | cons occasion occasions ih =>
      have harrive := hrow.arrive occasion List.mem_cons_self link hrow.working
      have hnow : ∀ entry ∈ book.entries, entry.now ≤ occasion.now :=
        fun entry hmem => hpast entry hmem occasion List.mem_cons_self
      obtain ⟨hworks, hagrees, hnotice⟩ := h.poll hnow hrow.unfailing harrive
      obtain ⟨hfirst, hordered⟩ := List.pairwise_cons.mp hrow.ordered
      rw [Intake.notices, Intake.takings, pollAll, hnotice]
      congr 1
      apply ih hagrees
      · exact ⟨hrow.unfailing, hworks,
          fun later hmem => hrow.arrive later (List.mem_cons_of_mem _ hmem), hordered⟩
      · intro entry hmem later hlater
        rcases List.mem_cons.mp hmem with rfl | hmem
        · exact hfirst later.now (List.mem_map_of_mem hlater)
        · exact hpast entry hmem later (List.mem_cons_of_mem _ hlater)

end Logbook

namespace Intake

/-- **One reading of the clock is enough**: polls in the order of the clock, of a
link that never fails, show what a logbook tells that abandons the frame in
progress when its time is up, counted from the start the book shows, and is fed
the octets of each poll at once. So two intakes that differ in the size of their
reads only, on links that may cut these reads differently, show the same if each
of their polls takes in the same octets at the same time. -/
theorem notices_eq_logbook (limits : FrameLimits) {occasions : List (Occasion σ)} {link : σ}
    (hrow : Orderly works occasions link) :
    notices occasions (ofLimits limits) link =
        (Logbook.ofLimits limits).pollAll (takings occasions (ofLimits limits) link) ∧
      ∀ {τ : Type} [Link τ] {sound : τ → Prop} (chunk : Nat) (others : List (Occasion τ)) (line : τ),
        Orderly sound others line →
        takings others (ofLimits { limits with readChunk := chunk }) line =
          takings occasions (ofLimits limits) link →
        notices others (ofLimits { limits with readChunk := chunk }) line =
          notices occasions (ofLimits limits) link := by
  have hnotices := (Logbook.agrees_ofLimits limits).notices hrow (by simp [Logbook.ofLimits])
  refine ⟨hnotices, ?_⟩
  intro τ _ sound chunk others line hother hsame
  rw [hnotices, ← hsame]
  exact (Logbook.agrees_ofLimits { limits with readChunk := chunk }).notices hother
    (by simp [Logbook.ofLimits])

/-- A frame that has started at 0 ms is completed at 300 ms, and the same poll begins
with the next. That one is kept at 700 ms and abandoned at 800 ms. Reads of two octets
at a time and of one octet at a time show the same. -/
theorem notices_amid_short_reads :
    let first : Frame := ⟨0x20, Frame.replyMarker, []⟩
    let arrival := fun (millis : Nat) (octets : Bytes) =>
      (⟨fun script => script.onPeer (Loopback.inject octets), .ofMillis millis⟩ : Occasion Scripted)
    let occasions := [
      arrival 0 [2, 0x20, 0x4F], arrival 300 [0, 0, 3, 0x6F, 2], arrival 700 [0x21], arrival 800 []]
    let limits : FrameLimits := { readChunk := 64, frameTimeout := .ofMillis 500 }
    let row := notices occasions (ofLimits limits) { readLimit := some 2 }
    Orderly Scripted.Readable occasions { readLimit := some 2 } ∧
      row.map (fun shown => (shown.frames.toOption, shown.discarded, shown.inProgress)) =
        [(some [], 0, true), (some [first], 0, true), (some [], 0, true), (some [], 1, false)] ∧
      row = (Logbook.ofLimits limits).pollAll
        (takings occasions (ofLimits limits) { readLimit := some 2 }) ∧
      notices occasions (ofLimits { limits with readChunk := 0 }) ({} : Scripted) = row := by
  intro first arrival occasions limits row
  have harrive : ∀ occasion ∈ occasions, ∀ script : Scripted,
      script.Readable → (occasion.arrive script).Readable := by
    intro occasion hmem script hreadable
    simp only [occasions, arrival, List.mem_cons, List.not_mem_nil, or_false] at hmem
    rcases hmem with rfl | rfl | rfl | rfl <;> exact hreadable
  have hordered : (occasions.map Occasion.now).Pairwise (· ≤ ·) := by decide +kernel
  have hrow : Orderly Scripted.Readable occasions { readLimit := some 2 } :=
    ⟨Scripted.unfailing, ⟨rfl, rfl, rfl, rfl⟩, harrive, hordered⟩
  have hother : Orderly Scripted.Readable occasions {} :=
    ⟨Scripted.unfailing, ⟨rfl, rfl, rfl, rfl⟩, harrive, hordered⟩
  obtain ⟨hbook, hsame⟩ := notices_eq_logbook limits hrow
  exact ⟨hrow, by decide +kernel, hbook, hsame 0 occasions {} hother (by decide +kernel)⟩

end Intake

end PeripheralHost
