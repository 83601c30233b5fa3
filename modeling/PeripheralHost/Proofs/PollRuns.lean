import Mathlib.Data.List.DropRight
import PeripheralHost.Intake
import PeripheralHost.Link.Scripted
import PeripheralHost.Proofs.Salvage

/-!
# What a row of polls answers

A poll is a few calls on the assembler, an abandonment if the frame in
progress is overdue and then one feeding for each piece taken off the link
(`Intake.calls`), and a verdict on them. A poll that succeeds answers and counts
all its calls settled. A poll that fails answers nothing, and the assembler has
moved on all the same: what its calls settled is in no answer, then or later
(`Intake.poll_eq`).

Over a row of polls the loss is therefore exactly what the failed polls
settled. The answers up to the last success hold every frame the assembler has
verified, and the count every refusal, exactly if none of the failed polls
before that success settled anything (`Intake.lossless_iff`). A link that fails
in the second read of a poll whose first read completed a frame is enough to
lose that frame (`Intake.lost_between_reads`).

## Main results

* `Intake.poll_eq` — one poll, in terms of its calls on the assembler.
* `Intake.settled_pollAll` — what the polls of a row settle is what the
  assembler settles on all their calls.
* `Intake.lossless_iff` — when a row of polls answers all that was settled.
-/

namespace PeripheralHost

/-! ## Calls on an assembler -/

namespace Assembler

/-- A call on an assembler. -/
inductive Call where
  /-- Feeds octets. -/
  | feed (bytes : Bytes)
  /-- Abandons the frame in progress. -/
  | abandon
  /-- Forgets the frame in progress. -/
  | reset
  deriving DecidableEq, Repr

/-- Makes a call. -/
def call : Call → Assembler → List Outcome × Assembler
  | .feed bytes, assembler => Assembler.feed bytes assembler
  | .abandon, assembler => Assembler.abandon assembler
  | .reset, assembler => ([], assembler.reset)

/-- Makes calls one after the other and joins what they settle. -/
def perform : List Call → Assembler → List Outcome × Assembler
  | [], assembler => ([], assembler)
  | first :: calls, assembler =>
      let settled := call first assembler
      let later := perform calls settled.2
      (settled.1 ++ later.1, later.2)

theorem perform_append (earlier later : List Call) (assembler : Assembler) :
    perform (earlier ++ later) assembler =
      ((perform earlier assembler).1 ++ (perform later (perform earlier assembler).2).1,
        (perform later (perform earlier assembler).2).2) := by
  induction earlier generalizing assembler with
  | nil => rfl
  | cons first calls ih => simp [perform, ih]

theorem perform_feed (pieces : List Bytes) (assembler : Assembler) :
    perform (pieces.map .feed) assembler = feedAll pieces assembler := by
  induction pieces generalizing assembler with
  | nil => rfl
  | cons piece pieces ih => rw [List.map_cons, perform, ih, feedAll_cons]; rfl

end Assembler

/-! ## One poll -/

namespace Intake

variable {σ : Type} [Link σ]

/-- The calls a poll makes on the assembler. -/
def calls (now : Duration) (intake : Intake) (link : σ) : List Assembler.Call :=
  match Link.available link with
  | (.error _, _) => []
  | (.ok available, link) =>
      (if intake.overdue now then [.abandon] else []) ++
        (drain intake.limits.chunk available link []).pieces.map .feed

/-- A poll makes no call, or it gives up an overdue frame and feeds what it reads. -/
theorem calls_cases (now : Duration) (intake : Intake) (link : σ) :
    intake.calls now link = [] ∨
      ∃ pieces : List Bytes, intake.calls now link =
        (if intake.overdue now then [.abandon] else []) ++ pieces.map .feed := by
  unfold calls
  split
  · exact .inl rfl
  · exact .inr ⟨_, rfl⟩

theorem poll_of_available {now : Duration} {intake : Intake} {link opened : σ} {available : Nat}
    (h : Link.available link = (.ok available, opened)) :
    let performed := Assembler.perform (intake.calls now link) intake.assembler
    let moved := { intake with assembler := performed.2 }
    let haul := drain intake.limits.chunk available opened []
    intake.poll now link =
      match haul.fault with
      | some fault => (.error fault, moved, haul.link)
      | none => (.ok performed.1, moved.settle now performed.1, haul.link) := by
  intro performed moved haul
  have hperformed : performed =
      Assembler.perform ((if intake.overdue now then [.abandon] else []) ++
        haul.pieces.map .feed) intake.assembler := by
    simp only [performed, calls, h, haul]
  rw [Assembler.perform_append, Assembler.perform_feed] at hperformed
  simp only [moved, hperformed, poll, h, expire]
  by_cases hoverdue : intake.overdue now = true
  · simp only [hoverdue, if_true, Assembler.perform, Assembler.call, List.append_nil]
    rfl
  · simp only [hoverdue]
    rfl

/-- A poll makes its calls, and then fails, or answers and notes all they
settled. -/
theorem poll_eq (now : Duration) (intake : Intake) (link : σ) :
    let performed := Assembler.perform (intake.calls now link) intake.assembler
    let moved := { intake with assembler := performed.2 }
    (∃ fault next, intake.poll now link = (.error fault, moved, next)) ∨
      (∃ next, intake.poll now link = (.ok performed.1, moved.settle now performed.1, next)) := by
  intro performed moved
  match havailable : Link.available link with
  | (.error fault, next) =>
      left
      refine ⟨fault, next, ?_⟩
      rw [poll_unavailable havailable]
      simp [moved, performed, calls, havailable, Assembler.perform]
  | (.ok available, opened) =>
      rw [poll_of_available havailable]
      match (drain intake.limits.chunk available opened []).fault with
      | some fault => exact .inl ⟨fault, _, rfl⟩
      | none => exact .inr ⟨_, rfl⟩

/-! ## A row of polls -/

/-- A poll that is about to be made. -/
structure Occasion (σ : Type) where
  /-- What happens on the link before the poll: octets arrive, faults occur. -/
  arrive : σ → σ
  /-- The reading of the clock during the poll. -/
  now : Duration

/-- A poll that was made. -/
structure Polled where
  /-- The calls it made on the assembler. -/
  calls : List Assembler.Call
  /-- What these calls settled. -/
  settled : List Outcome
  /-- What it answered. -/
  answer : Except LinkError (List Outcome)

namespace Polled

/-- Whether the poll failed. -/
def failed (polled : Polled) : Bool := polled.answer.toOption.isNone

/-- The outcomes answered; a poll that failed answers none. -/
def returned (polled : Polled) : List Outcome := polled.answer.toOption.getD []

end Polled

/-- Makes a row of polls. -/
def pollAll : List (Occasion σ) → Intake → σ → List Polled × Intake × σ
  | [], intake, link => ([], intake, link)
  | occasion :: occasions, intake, link =>
      let link := occasion.arrive link
      let (answer, next, after) := intake.poll occasion.now link
      let calls := intake.calls occasion.now link
      let (later, last) := pollAll occasions next after
      (⟨calls, (Assembler.perform calls intake.assembler).1, answer⟩ :: later, last)

theorem pollAll_cons (occasion : Occasion σ) (occasions : List (Occasion σ)) (intake : Intake)
    (link : σ) :
    let polled := intake.poll occasion.now (occasion.arrive link)
    let calls := intake.calls occasion.now (occasion.arrive link)
    let later := pollAll occasions polled.2.1 polled.2.2
    pollAll (occasion :: occasions) intake link =
      (⟨calls, (Assembler.perform calls intake.assembler).1, polled.1⟩ :: later.1, later.2) := rfl

/-- A poll that succeeds answers what its calls settled. -/
theorem answer_pollAll (occasions : List (Occasion σ)) (intake : Intake) (link : σ) :
    ∀ polled ∈ (pollAll occasions intake link).1,
      polled.failed = false → polled.answer = .ok polled.settled := by
  induction occasions generalizing intake link with
  | nil => intro polled hmem; simp [pollAll] at hmem
  | cons occasion occasions ih =>
      intro polled hmem hsuccess
      rw [pollAll_cons, List.mem_cons] at hmem
      rcases hmem with rfl | hmem
      · rcases poll_eq occasion.now intake (occasion.arrive link) with
          ⟨fault, next, hpoll⟩ | ⟨next, hpoll⟩
        · simp [Polled.failed, hpoll, Except.toOption] at hsuccess
        · simp only [hpoll]
      · exact ih _ _ polled hmem hsuccess

theorem discarded_pollAll (occasions : List (Occasion σ)) (intake : Intake) (link : σ) :
    (pollAll occasions intake link).2.1.discarded = intake.discarded +
      Outcome.refusals ((pollAll occasions intake link).1.flatMap Polled.returned) := by
  induction occasions generalizing intake link with
  | nil => rfl
  | cons occasion occasions ih =>
      rw [pollAll_cons]
      simp only [List.flatMap_cons, Outcome.refusals_append]
      rw [ih]
      rcases poll_eq occasion.now intake (occasion.arrive link) with
        ⟨fault, next, hpoll⟩ | ⟨next, hpoll⟩
      · simp [hpoll, Polled.returned, Except.toOption, Outcome.refusals]
      · simp [hpoll, Polled.returned, Except.toOption, settle, Nat.add_assoc]

/-- What the first polls of a row settle is what the assembler settles on all
their calls. -/
theorem settled_pollAll (occasions : List (Occasion σ)) (intake : Intake) (link : σ)
    {front : List Polled} (h : front <+: (pollAll occasions intake link).1) :
    front.flatMap Polled.settled =
      (Assembler.perform (front.flatMap Polled.calls) intake.assembler).1 := by
  induction occasions generalizing intake link front with
  | nil =>
      rw [pollAll, List.prefix_nil] at h
      rw [h]
      rfl
  | cons occasion occasions ih =>
      rw [pollAll_cons] at h
      match front with
      | [] => rfl
      | first :: front =>
          obtain ⟨rfl, hfront⟩ := List.cons_prefix_cons.mp h
          have hmoved : (intake.poll occasion.now (occasion.arrive link)).2.1.assembler =
              (Assembler.perform (intake.calls occasion.now (occasion.arrive link))
                intake.assembler).2 := by
            rcases poll_eq occasion.now intake (occasion.arrive link) with
              ⟨fault, next, hpoll⟩ | ⟨next, hpoll⟩
            · rw [hpoll]
            · rw [hpoll]
              rfl
          simp only [List.flatMap_cons]
          rw [Assembler.perform_append, ih _ _ hfront, hmoved]

/-! ## What is lost -/

/-- The polls up to and including the last that succeeded. -/
def heard (polls : List Polled) : List Polled := polls.rdropWhile Polled.failed

/-- What the failed polls among these settled: it is in no answer. -/
def lost (polls : List Polled) : List Outcome := (polls.filter Polled.failed).flatMap Polled.settled

theorem returned_of_failed {polled : Polled} (h : polled.failed = true) : polled.returned = [] := by
  rw [Polled.failed, Option.isNone_iff_eq_none] at h
  simp [Polled.returned, h]

theorem returned_heard (polls : List Polled) :
    (heard polls).flatMap Polled.returned = polls.flatMap Polled.returned := by
  induction polls using List.reverseRecOn with
  | nil => rfl
  | append_singleton polls last ih =>
      unfold heard at ih ⊢
      rw [List.rdropWhile_concat]
      by_cases hfailed : last.failed = true
      · simp [hfailed, ih, returned_of_failed hfailed]
      · simp [hfailed]

/-- Every outcome settled is either answered or lost. -/
theorem settled_perm {polls : List Polled}
    (h : ∀ polled ∈ polls, polled.failed = false → polled.answer = .ok polled.settled) :
    (polls.flatMap Polled.settled).Perm (polls.flatMap Polled.returned ++ lost polls) := by
  induction polls with
  | nil => exact .refl _
  | cons first polls ih =>
      have ih := ih fun polled hmem => h polled (List.mem_cons_of_mem _ hmem)
      cases hfailed : first.failed with
      | true =>
          simp only [List.flatMap_cons, lost, List.filter_cons, hfailed, if_true,
            returned_of_failed hfailed, List.nil_append]
          exact (ih.append_left _).trans (List.perm_append_comm_assoc _ _ _)
      | false =>
          have hanswer := h first List.mem_cons_self hfailed
          simp only [List.flatMap_cons, lost, List.filter_cons, hfailed, List.append_assoc,
            Polled.returned, hanswer]
          exact ih.append_left _

theorem length_eq_frames_add_refusals (outcomes : List Outcome) :
    outcomes.length = (Outcome.frames outcomes).length + Outcome.refusals outcomes := by
  induction outcomes with
  | nil => rfl
  | cons first outcomes ih =>
      cases first with
      | ok frame =>
          simp only [List.length_cons, ih, Outcome.frames_ok, Outcome.refusals,
            List.countP_cons, Outcome.isRefusal, Bool.false_eq_true, if_false]
          omega
      | error fault =>
          simp only [List.length_cons, ih, Outcome.frames_error, Outcome.refusals,
            List.countP_cons, Outcome.isRefusal, if_true]
          omega

theorem lost_eq_nil_iff {polls : List Polled} :
    lost polls = [] ↔ ∀ polled ∈ polls, polled.failed = true → polled.settled = [] := by
  simp [lost, List.flatMap_eq_nil_iff]

/-- If nothing is lost, the answers hold all outcomes in order. -/
theorem returned_eq_settled {polls : List Polled}
    (h : ∀ polled ∈ polls, polled.failed = false → polled.answer = .ok polled.settled)
    (hlost : lost polls = []) :
    polls.flatMap Polled.returned = polls.flatMap Polled.settled := by
  rw [lost_eq_nil_iff] at hlost
  induction polls with
  | nil => rfl
  | cons first polls ih =>
      have ih := ih (fun polled hmem => h polled (List.mem_cons_of_mem _ hmem))
        (fun polled hmem => hlost polled (List.mem_cons_of_mem _ hmem))
      rw [List.flatMap_cons, List.flatMap_cons, ih]
      congr 1
      cases hfailed : first.failed with
      | true => rw [returned_of_failed hfailed, hlost first List.mem_cons_self hfailed]
      | false => simp [Polled.returned, h first List.mem_cons_self hfailed, Except.toOption]

/-- **Loss on a link fault**: a poll that succeeds answers what its own calls
settled. So the answers up to the last success hold the frames that the
assembler has verified by then, and the count its refusals, exactly if no poll
that failed before that success had settled anything. -/
theorem lossless_iff (limits : FrameLimits) (occasions : List (Occasion σ)) (link : σ) :
    let run := pollAll occasions (ofLimits limits) link
    let polls := heard run.1
    let settled :=
      (Assembler.perform (polls.flatMap Polled.calls) { limit := limits.maxBody }).1
    (∀ polled ∈ polls, polled.failed = false → polled.answer = .ok polled.settled) ∧
      (Outcome.frames (polls.flatMap Polled.returned) = Outcome.frames settled ∧
          run.2.1.discarded = Outcome.refusals settled ↔
        ∀ polled ∈ polls, polled.failed = true → polled.settled = []) := by
  intro run polls settled
  have hheard : polls <+: run.1 := List.rdropWhile_prefix _ _
  have hanswer : ∀ polled ∈ polls, polled.failed = false → polled.answer = .ok polled.settled :=
    fun polled hmem =>
      answer_pollAll occasions (ofLimits limits) link polled (hheard.subset hmem)
  refine ⟨hanswer, ?_⟩
  have hsettled : polls.flatMap Polled.settled = settled :=
    settled_pollAll occasions (ofLimits limits) link hheard
  have hdiscarded : run.2.1.discarded = Outcome.refusals (polls.flatMap Polled.returned) := by
    rw [returned_heard, discarded_pollAll]
    exact Nat.zero_add _
  rw [← lost_eq_nil_iff, hdiscarded, ← hsettled]
  constructor
  · rintro ⟨hframes, hrefusals⟩
    have htotal := (settled_perm hanswer).length_eq
    rw [List.length_append, length_eq_frames_add_refusals, ← hframes, ← hrefusals,
      ← length_eq_frames_add_refusals] at htotal
    exact List.length_eq_zero_iff.mp (by omega)
  · intro hlost
    rw [returned_eq_settled hanswer hlost]
    exact ⟨rfl, rfl⟩

/-- Two replies are waiting, and each read returns one of them. The second read
of the first poll fails; the second poll succeeds and answers the second reply
only. The first is verified and in no answer. -/
theorem lost_between_reads :
    let first : Frame := ⟨0x20, Frame.replyMarker, []⟩
    let second : Frame := ⟨0x21, Frame.replyMarker, []⟩
    let link : Scripted :=
      { line :=
          { toHost := wrap (first.header ++ first.body) ++ wrap (second.header ++ second.body) }
        readsToFailure := 2 }
    let run := pollAll [⟨id, .zero⟩, ⟨id, .zero⟩] (ofLimits { readChunk := 7 }) link
    let polls := heard run.1
    let settled := (Assembler.perform (polls.flatMap Polled.calls) {}).1
    Outcome.frames settled = [first, second] ∧
      Outcome.frames (polls.flatMap Polled.returned) = [second] := by
  decide +kernel

end Intake

end PeripheralHost
