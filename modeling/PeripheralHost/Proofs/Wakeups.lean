import Mathlib.Data.List.Infix
import PeripheralHost.Proofs.Deliveries

/-!
# A wait, whatever wakes the caller

A caller who waits for a reply looks, sleeps, and looks again, and frames are filed
while it sleeps. When it wakes up, and whether anything was filed by then, is up to
others. Nothing of this decides which frame it gets. The frames that were there at the
start, followed by those filed since, are a stream, and the caller is given the first
frame of it that answers its command.

A look in vain leaves the mailbox empty, and all it took out are frames that do not
answer. So a wait does what one search would do in the stream up to its last look
(`Mailbox.EndsAt`). The wake-ups decide no more than which look is the last: the first
that finds an answer, or the first behind which the clock has reached the deadline.

## Main results

* `Mailbox.search_append_of_missing` — a search passes over frames that do not answer.
* `Mailbox.exists_endsAt` — a wait does what one search does.
* `Mailbox.awaitReply_of_stream` — which frame the caller is given, what is left, and
  when time has run out.
-/

namespace PeripheralHost

namespace Mailbox

variable {command : UInt8} {deadline : Duration} {frames : List Frame} {wakeups : List Wakeup}
  {looks : Nat}

/-! ## Streams -/

/-- The frames there at the start, and behind them those filed ahead of a look; the first
look has number zero. -/
def stream (frames : List Frame) (wakeups : List Wakeup) (looks : Nat) : List Frame :=
  frames ++ (wakeups.take looks).flatMap Wakeup.arrived

/-- The clock lets a caller who looks in vain come to the look of this number. -/
def Lasts (deadline : Duration) (wakeups : List Wakeup) (looks : Nat) : Prop :=
  looks ≤ wakeups.length ∧ ∀ wakeup ∈ wakeups.take looks, ¬ deadline ≤ wakeup.reading

theorem stream_zero (frames : List Frame) (wakeups : List Wakeup) :
    stream frames wakeups 0 = frames := by
  simp [stream]

theorem stream_cons_succ (frames : List Frame) (wakeup : Wakeup) (later : List Wakeup)
    (looks : Nat) :
    stream frames (wakeup :: later) (looks + 1) = frames ++ stream wakeup.arrived later looks := by
  simp [stream]

theorem stream_mono (frames : List Frame) (wakeups : List Wakeup) {first second : Nat}
    (h : first ≤ second) : stream frames wakeups first <+: stream frames wakeups second := by
  apply (List.prefix_append_right_inj frames).mpr
  exact List.IsPrefix.flatMap (List.take_prefix_take_left h) _

/-- What a look sees is the beginning of all that there ever was. -/
theorem stream_whole (frames : List Frame) (wakeups : List Wakeup) (looks : Nat) :
    stream frames wakeups looks <+: frames ++ wakeups.flatMap Wakeup.arrived := by
  apply (List.prefix_append_right_inj frames).mpr
  exact List.IsPrefix.flatMap (List.take_prefix looks wakeups) _

theorem lasts_zero (deadline : Duration) (wakeups : List Wakeup) : Lasts deadline wakeups 0 :=
  ⟨Nat.zero_le _, by simp⟩

theorem lasts_cons_succ_iff {wakeup : Wakeup} {later : List Wakeup} :
    Lasts deadline (wakeup :: later) (looks + 1) ↔
      ¬ deadline ≤ wakeup.reading ∧ Lasts deadline later looks := by
  simp only [Lasts, List.length_cons, Nat.add_le_add_iff_right, List.take_succ_cons,
    List.forall_mem_cons]
  exact and_left_comm

/-! ## Searches -/

/-- A search finds the first frame that answers. -/
theorem found_search (command : UInt8) (box : Mailbox) :
    (box.search command).1.found = box.frames.find? (·.answers command) :=
  (List.find?_eq_head?_dropWhile_not _ _).symm

theorem answers_of_mem_skipped {box : Mailbox} {frame : Frame}
    (h : frame ∈ (box.search command).1.skipped) : frame.answers command = false := by
  simpa using List.mem_takeWhile_imp h

/-- A search passes over frames that do not answer, and goes on behind them. -/
theorem search_append_of_missing {front : List Frame} (back : List Frame) (box : Mailbox)
    (hfront : ∀ frame ∈ front, frame.answers command = false) :
    let behind := ({ box with frames := back } : Mailbox).search command
    ({ box with frames := front ++ back } : Mailbox).search command =
      (⟨front ++ behind.1.skipped, behind.1.found⟩, behind.2) := by
  have hpassed : ∀ frame ∈ front, (!frame.answers command) = true := by
    intro frame hmem
    rw [hfront frame hmem]
    rfl
  simp only [search, List.takeWhile_append_of_pos hpassed, List.dropWhile_append_of_pos hpassed]

theorem search_of_missing (topic : Topic) (h : ∀ frame ∈ frames, frame.answers command = false) :
    ({ topic, frames } : Mailbox).search command = (⟨frames, none⟩, { topic }) := by
  have hsearch := search_append_of_missing [] { topic } h
  rw [List.append_nil] at hsearch
  simpa [search] using hsearch

theorem find?_eq_none_of_missing (h : ∀ frame ∈ frames, frame.answers command = false) :
    frames.find? (·.answers command) = none := by
  simpa [List.find?_eq_none] using h

/-- A search in vain passed over everything. -/
theorem missing_of_found_eq_none {box : Mailbox} (h : (box.search command).1.found = none) :
    ∀ frame ∈ box.frames, frame.answers command = false := by
  rw [found_search, List.find?_eq_none] at h
  intro frame hmem
  simpa using h frame hmem

/-- Without a limit, filing frames appends them. -/
theorem pushAll_unlimited (topic : Topic) (frames arrived : List Frame) :
    ({ topic, frames } : Mailbox).pushAll arrived = { topic, frames := frames ++ arrived } := by
  induction arrived generalizing frames with
  | nil => simp [pushAll]
  | cons frame arrived ih =>
      have hpushed : (({ topic, frames } : Mailbox).push frame).2 =
          { topic, frames := frames ++ [frame] } := by
        rw [push_of_unlimited frame rfl]
      rw [pushAll, List.foldl_cons, hpushed, ← pushAll, ih, List.append_assoc]
      rfl

/-! ## Waits -/

theorem awaitReply_of_found {box : Mailbox} {frame : Frame} (deadline : Duration)
    (wakeups : List Wakeup) (h : (box.search command).1.found = some frame) :
    box.awaitReply command deadline wakeups =
      (.served frame, (box.search command).1.skipped, (box.search command).2) := by
  unfold awaitReply
  split
  · next hsearch =>
      rw [hsearch] at h ⊢
      obtain rfl := Option.some.inj h
      rfl
  · next hsearch =>
      rw [hsearch] at h
      simp at h

section Missing

variable (topic : Topic) (hmissing : ∀ frame ∈ frames, frame.answers command = false)
include hmissing

theorem awaitReply_nil_of_missing (deadline : Duration) :
    ({ topic, frames } : Mailbox).awaitReply command deadline [] =
      (.asleep, frames, { topic }) := by
  rw [awaitReply.eq_def]
  simp only [search_of_missing topic hmissing]

theorem awaitReply_of_expired {wakeup : Wakeup} (later : List Wakeup)
    (hreading : deadline ≤ wakeup.reading) :
    ({ topic, frames } : Mailbox).awaitReply command deadline (wakeup :: later) =
      (.expired, frames, { topic }) := by
  rw [awaitReply.eq_def]
  simp only [search_of_missing topic hmissing, if_pos hreading]

/-- A look in vain takes out everything, and the next one sees what was filed since. -/
theorem awaitReply_of_missing {wakeup : Wakeup} (later : List Wakeup)
    (hreading : ¬ deadline ≤ wakeup.reading) :
    let rest := ({ topic, frames := wakeup.arrived } : Mailbox).awaitReply command deadline later
    ({ topic, frames } : Mailbox).awaitReply command deadline (wakeup :: later) =
      (rest.1, frames ++ rest.2.1, rest.2.2) := by
  have hpushed := pushAll_unlimited topic [] wakeup.arrived
  rw [List.nil_append] at hpushed
  intro rest
  rw [awaitReply.eq_def]
  simp only [search_of_missing topic hmissing, if_neg hreading, hpushed]
  rfl

end Missing

/-- A wait that did what one search does in all that was there or filed up to its last
look, which has the number `looks`: that is the first look with an answer to find, or the
first behind which the clock has reached the deadline, or the one behind which the caller
sleeps. -/
structure EndsAt (topic : Topic) (frames : List Frame) (command : UInt8) (deadline : Duration)
    (wakeups : List Wakeup) (looks : Nat) : Prop where
  lasts : Lasts deadline wakeups looks
  vain : ∀ earlier < looks, ∀ frame ∈ stream frames wakeups earlier, frame.answers command = false
  outcome :
    let wait := ({ topic, frames } : Mailbox).awaitReply command deadline wakeups
    let seen := ({ topic, frames := stream frames wakeups looks } : Mailbox).search command
    wait.2 = (seen.1.skipped, seen.2) ∧
      ((∃ frame, seen.1.found = some frame ∧ wait.1 = .served frame) ∨
        (seen.1.found = none ∧ wait.1 = .expired ∧
          ∃ wakeup, wakeups[looks]? = some wakeup ∧ deadline ≤ wakeup.reading) ∨
        (seen.1.found = none ∧ wait.1 = .asleep ∧ looks = wakeups.length))

theorem endsAt_zero_of_found {topic : Topic} {frame : Frame} (deadline : Duration)
    (wakeups : List Wakeup)
    (h : (({ topic, frames } : Mailbox).search command).1.found = some frame) :
    EndsAt topic frames command deadline wakeups 0 where
  lasts := lasts_zero _ _
  vain := by simp
  outcome := by
    rw [stream_zero, awaitReply_of_found deadline wakeups h]
    exact ⟨rfl, .inl ⟨frame, h, rfl⟩⟩

/-- A look in vain, ahead of the deadline, only puts off the end. -/
theorem EndsAt.succ {topic : Topic} {wakeup : Wakeup} {later : List Wakeup}
    (h : EndsAt topic wakeup.arrived command deadline later looks)
    (hmissing : ∀ frame ∈ frames, frame.answers command = false)
    (hreading : ¬ deadline ≤ wakeup.reading) :
    EndsAt topic frames command deadline (wakeup :: later) (looks + 1) where
  lasts := lasts_cons_succ_iff.mpr ⟨hreading, h.lasts⟩
  vain := by
    intro number hnumber frame hmem
    cases number with
    | zero => exact hmissing frame (by rwa [stream_zero] at hmem)
    | succ number =>
        rw [stream_cons_succ, List.mem_append] at hmem
        rcases hmem with hfirst | hbehind
        · exact hmissing frame hfirst
        · exact h.vain number (by omega) frame hbehind
  outcome := by
    have hseen := search_append_of_missing (stream wakeup.arrived later looks) { topic } hmissing
    obtain ⟨hleft, hend⟩ := h.outcome
    rw [stream_cons_succ, hseen, awaitReply_of_missing topic hmissing later hreading]
    simp only [hleft, List.getElem?_cons_succ, List.length_cons, Nat.add_right_cancel_iff]
    exact ⟨trivial, hend⟩

/-- **A wait does what one search does.** -/
theorem exists_endsAt (topic : Topic) (frames : List Frame) (command : UInt8)
    (deadline : Duration) (wakeups : List Wakeup) :
    ∃ looks, EndsAt topic frames command deadline wakeups looks := by
  induction wakeups generalizing frames with
  | nil =>
      refine ⟨0, ?_⟩
      cases hfound : (({ topic, frames } : Mailbox).search command).1.found with
      | some frame => exact endsAt_zero_of_found deadline [] hfound
      | none =>
          have hmissing := missing_of_found_eq_none hfound
          refine ⟨lasts_zero _ _, by simp, ?_⟩
          rw [stream_zero, awaitReply_nil_of_missing topic hmissing,
            search_of_missing topic hmissing]
          exact ⟨rfl, .inr (.inr ⟨rfl, rfl, rfl⟩)⟩
  | cons wakeup later ih =>
      cases hfound : (({ topic, frames } : Mailbox).search command).1.found with
      | some frame => exact ⟨0, endsAt_zero_of_found deadline _ hfound⟩
      | none =>
          have hmissing := missing_of_found_eq_none hfound
          by_cases hreading : deadline ≤ wakeup.reading
          · refine ⟨0, lasts_zero _ _, by simp, ?_⟩
            rw [stream_zero, awaitReply_of_expired topic hmissing later hreading,
              search_of_missing topic hmissing]
            exact ⟨rfl, .inr (.inl ⟨rfl, rfl, wakeup, rfl, hreading⟩)⟩
          · obtain ⟨looks, hends⟩ := ih wakeup.arrived
            exact ⟨looks + 1, hends.succ hmissing hreading⟩

/-- The clock reaches the deadline behind the look of this number, and not before. -/
def RunsOutAt (deadline : Duration) (wakeups : List Wakeup) (looks : Nat) : Prop :=
  Lasts deadline wakeups looks ∧
    ∃ wakeup, wakeups[looks]? = some wakeup ∧ deadline ≤ wakeup.reading

/-- Nobody comes to a look behind the one at which time runs out. -/
theorem RunsOutAt.le_of_lasts (h : RunsOutAt deadline wakeups looks) {number : Nat}
    (hlasts : Lasts deadline wakeups number) : number ≤ looks := by
  obtain ⟨-, wakeup, hthere, hreading⟩ := h
  refine Nat.le_of_not_lt fun hlt => hlasts.2 wakeup ?_ hreading
  exact List.mem_of_getElem? (by rw [List.getElem?_take_of_lt hlt, hthere])

variable {topic : Topic}

/-- No look that the clock lets the caller come to is behind the last one, unless the last
one found an answer. -/
theorem EndsAt.le_of_lasts (h : EndsAt topic frames command deadline wakeups looks)
    (hmissing : ∀ frame ∈ stream frames wakeups looks, frame.answers command = false)
    {number : Nat} (hlasts : Lasts deadline wakeups number) : number ≤ looks := by
  obtain ⟨-, ⟨frame, hfound, -⟩ | ⟨-, -, hend⟩ | ⟨-, -, hend⟩⟩ := h.outcome
  · rw [found_search, find?_eq_none_of_missing hmissing] at hfound
    simp at hfound
  · exact RunsOutAt.le_of_lasts ⟨h.lasts, hend⟩ hlasts
  · exact hend ▸ hlasts.1

/-- What the last look found splits what it saw into what the wait took out and what it
left. -/
theorem EndsAt.split_of_found (h : EndsAt topic frames command deadline wakeups looks)
    {frame : Frame}
    (hfound : (({ topic, frames := stream frames wakeups looks } : Mailbox).search
      command).1.found = some frame) :
    let wait := ({ topic, frames } : Mailbox).awaitReply command deadline wakeups
    stream frames wakeups looks = wait.2.1 ++ frame :: wait.2.2.frames ∧
      ∀ skipped ∈ wait.2.1, skipped.answers command = false := by
  have hwhole := search_append command
    ({ topic, frames := stream frames wakeups looks } : Mailbox)
  intro wait
  have hleft : wait.2 = _ := h.outcome.1
  rw [hfound, Option.toList_some, List.append_assoc, List.singleton_append] at hwhole
  rw [hleft]
  exact ⟨hwhole.symm, fun skipped hmem => answers_of_mem_skipped hmem⟩

section Outcomes

variable (topic : Topic) (frames : List Frame) (command : UInt8) (deadline : Duration)
  (wakeups : List Wakeup)

/-- The look that finds an answer is the last, and the answer is the first in the stream. -/
theorem exists_of_served {frame : Frame}
    (h : (({ topic, frames } : Mailbox).awaitReply command deadline wakeups).1 = .served frame) :
    ∃ looks, EndsAt topic frames command deadline wakeups looks ∧
      (({ topic, frames := stream frames wakeups looks } : Mailbox).search command).1.found =
        some frame := by
  obtain ⟨looks, hends⟩ := exists_endsAt topic frames command deadline wakeups
  refine ⟨looks, hends, ?_⟩
  obtain ⟨-, ⟨served, hfound, hserved⟩ | ⟨-, hexpired, -⟩ | ⟨-, hasleep, -⟩⟩ := hends.outcome
  · rw [hserved] at h
    exact Wait.served.inj h ▸ hfound
  · exact absurd (hexpired.symm.trans h) (by simp)
  · exact absurd (hasleep.symm.trans h) (by simp)

/-- A look that the clock allows, and that has an answer to find, sees to it that the
caller is served. -/
theorem served_of_find {frame : Frame} (hlasts : Lasts deadline wakeups looks)
    (hfind : (stream frames wakeups looks).find? (·.answers command) = some frame) :
    (({ topic, frames } : Mailbox).awaitReply command deadline wakeups).1 = .served frame := by
  obtain ⟨last, hends⟩ := exists_endsAt topic frames command deadline wakeups
  have hfound : (({ topic, frames := stream frames wakeups last } : Mailbox).search
      command).1.found = some frame := by
    rw [found_search]
    rcases Nat.le_total last looks with hle | hle
    · cases hseen : (stream frames wakeups last).find? (·.answers command) with
      | some served =>
          have hsame := (stream_mono frames wakeups hle).find?_eq_some hseen
          exact hsame.symm.trans hfind
      | none =>
          -- The last look was in vain, so it is not ahead of any look the clock allows.
          have hmissing : ∀ frame ∈ stream frames wakeups last, frame.answers command = false := by
            simpa [List.find?_eq_none] using hseen
          obtain rfl := Nat.le_antisymm hle (hends.le_of_lasts hmissing hlasts)
          exact hseen.symm.trans hfind
    · exact (stream_mono frames wakeups hle).find?_eq_some hfind
  obtain ⟨-, ⟨given, hgiven, hserved⟩ | ⟨hnone, -⟩ | ⟨hnone, -⟩⟩ := hends.outcome
  · rw [hserved, Option.some.inj (hgiven.symm.trans hfound)]
  · simp [hfound] at hnone
  · simp [hfound] at hnone

/-- A caller for whom time has run out saw everything filed up to its last look. -/
theorem exists_of_expired
    (h : (({ topic, frames } : Mailbox).awaitReply command deadline wakeups).1 = .expired) :
    ∃ looks, RunsOutAt deadline wakeups looks ∧
      (∀ frame ∈ stream frames wakeups looks, frame.answers command = false) ∧
      (({ topic, frames } : Mailbox).awaitReply command deadline wakeups).2 =
        (stream frames wakeups looks, { topic }) := by
  obtain ⟨looks, hends⟩ := exists_endsAt topic frames command deadline wakeups
  obtain ⟨hleft, ⟨_, -, hserved⟩ | ⟨hnone, -, hend⟩ | ⟨-, hasleep, -⟩⟩ := hends.outcome
  · exact absurd (hserved.symm.trans h) (by simp)
  · have hmissing := missing_of_found_eq_none hnone
    rw [search_of_missing topic hmissing] at hleft
    exact ⟨looks, ⟨hends.lasts, hend⟩, hmissing, hleft⟩
  · exact absurd (hasleep.symm.trans h) (by simp)

/-- Time runs out for a caller who has seen no answer when the clock reaches the deadline. -/
theorem expired_of_missing (hends : RunsOutAt deadline wakeups looks)
    (hmissing : ∀ frame ∈ stream frames wakeups looks, frame.answers command = false) :
    (({ topic, frames } : Mailbox).awaitReply command deadline wakeups).1 = .expired := by
  obtain ⟨last, hlast⟩ := exists_endsAt topic frames command deadline wakeups
  have hle := hends.le_of_lasts hlast.lasts
  obtain ⟨-, ⟨frame, hfound, -⟩ | ⟨-, hexpired, -⟩ | ⟨-, -, hend⟩⟩ := hlast.outcome
  · rw [found_search] at hfound
    have hfind := (stream_mono frames wakeups hle).find?_eq_some hfound
    simp [find?_eq_none_of_missing hmissing] at hfind
  · exact hexpired
  · obtain ⟨wakeup, hthere, -⟩ := hends.2
    have hlt := (List.getElem?_eq_some_iff.mp hthere).1
    omega

end Outcomes

/-- However the frames are spread over the wake-ups, a look that has an answer to find has
the same one to find. -/
theorem served_of_regrouped (topic : Topic) {frames frames' : List Frame}
    {wakeups wakeups' : List Wakeup} {looks last : Nat} {frame answer : Frame}
    (hall : frames' ++ wakeups'.flatMap Wakeup.arrived = frames ++ wakeups.flatMap Wakeup.arrived)
    (hfind : (stream frames wakeups looks).find? (·.answers command) = some frame)
    (hlasts : Lasts deadline wakeups' last) (hmem : answer ∈ stream frames' wakeups' last)
    (hanswers : answer.answers command = true) :
    (({ topic, frames := frames' } : Mailbox).awaitReply command deadline wakeups').1 =
      .served frame := by
  refine served_of_find topic frames' command deadline wakeups' hlasts ?_
  have hwhole := (stream_whole frames wakeups looks).find?_eq_some hfind
  cases hseen : (stream frames' wakeups' last).find? (·.answers command) with
  | none =>
      rw [List.find?_eq_none] at hseen
      exact absurd hanswers (hseen answer hmem)
  | some served =>
      have hwhole' := (stream_whole frames' wakeups' last).find?_eq_some hseen
      rw [hall] at hwhole'
      exact hwhole'.symm.trans hwhole

/-- **A wait, whatever wakes the caller.**

The caller is served by the first frame that answers, in all that was there at the start
or filed ahead of a look the clock lets it come to. What the wait took out ahead of that
frame are frames that do not answer, and what it leaves is what was filed behind that
frame, ahead of the look that found it; no look before had an answer to find.

Time runs out exactly when the clock has reached the deadline behind a look and neither
that look nor one before had an answer to find. By then the wait has taken out everything,
and nothing of it answers.

How the same frames are spread over the wake-ups is of no importance: every wait in which
some look finds an answer is served by the same frame. -/
theorem awaitReply_of_stream (command : UInt8) (topic : Topic) (frames : List Frame)
    (start timeout : Duration) (wakeups : List Wakeup) :
    let deadline := start + timeout
    let wait := ({ topic, frames } : Mailbox).awaitReply command deadline wakeups
    (∀ frame, wait.1 = .served frame ↔
      ∃ looks, Lasts deadline wakeups looks ∧
        (stream frames wakeups looks).find? (·.answers command) = some frame) ∧
    (∀ frame, wait.1 = .served frame →
      ∃ looks, Lasts deadline wakeups looks ∧
        (∀ earlier < looks, ∀ frame ∈ stream frames wakeups earlier,
          frame.answers command = false) ∧
        stream frames wakeups looks = wait.2.1 ++ frame :: wait.2.2.frames ∧
        frame.answers command = true ∧
        ∀ skipped ∈ wait.2.1, skipped.answers command = false) ∧
    (wait.1 = .expired ↔
      ∃ looks, RunsOutAt deadline wakeups looks ∧
        ∀ frame ∈ stream frames wakeups looks, frame.answers command = false) ∧
    (wait.1 = .expired →
      ∃ looks, RunsOutAt deadline wakeups looks ∧
        wait.2.1 = stream frames wakeups looks ∧ wait.2.2.frames = [] ∧
        ∀ skipped ∈ wait.2.1, skipped.answers command = false) ∧
    ∀ frame, wait.1 = .served frame →
      ∀ (topic' : Topic) (frames' : List Frame) (start' timeout' : Duration)
        (wakeups' : List Wakeup),
        frames' ++ wakeups'.flatMap Wakeup.arrived = frames ++ wakeups.flatMap Wakeup.arrived →
        (∃ looks, Lasts (start' + timeout') wakeups' looks ∧
          ∃ answer ∈ stream frames' wakeups' looks, answer.answers command = true) →
        (({ topic := topic', frames := frames' } : Mailbox).awaitReply command
          (start' + timeout') wakeups').1 = .served frame := by
  intro deadline wait
  have hfirst : ∀ frame, wait.1 = .served frame →
      ∃ looks, Lasts deadline wakeups looks ∧
        (stream frames wakeups looks).find? (·.answers command) = some frame := by
    intro frame hserved
    obtain ⟨looks, hends, hfound⟩ := exists_of_served topic frames command deadline wakeups hserved
    exact ⟨looks, hends.lasts, (found_search _ _).symm.trans hfound⟩
  refine ⟨fun frame => ⟨hfirst frame, ?_⟩, fun frame hserved => ?_, ⟨fun hexpired => ?_, ?_⟩,
    fun hexpired => ?_, fun frame hserved topic' frames' start' timeout' wakeups' hall hlook => ?_⟩
  · rintro ⟨looks, hlasts, hfind⟩
    exact served_of_find topic frames command deadline wakeups hlasts hfind
  · obtain ⟨looks, hends, hfound⟩ := exists_of_served topic frames command deadline wakeups hserved
    obtain ⟨hwhole, hskipped⟩ := hends.split_of_found hfound
    exact ⟨looks, hends.lasts, hends.vain, hwhole, answers_of_search hfound, hskipped⟩
  · obtain ⟨looks, hends, hmissing, -⟩ :=
      exists_of_expired topic frames command deadline wakeups hexpired
    exact ⟨looks, hends, hmissing⟩
  · rintro ⟨looks, hends, hmissing⟩
    exact expired_of_missing topic frames command deadline wakeups hends hmissing
  · obtain ⟨looks, hends, hmissing, hleft⟩ :=
      exists_of_expired topic frames command deadline wakeups hexpired
    refine ⟨looks, hends, ?_, ?_, ?_⟩
    · exact congrArg Prod.fst hleft
    · exact congrArg (·.2.frames) hleft
    · exact (congrArg Prod.fst hleft : wait.2.1 = _) ▸ hmissing
  · obtain ⟨looks, -, hfind⟩ := hfirst frame hserved
    obtain ⟨last, hlasts, answer, hmem, hanswers⟩ := hlook
    exact served_of_regrouped topic' hall hfind hlasts hmem hanswers

-- The echo of the request and an answer to another command are passed over, and the second
-- wake-up brings nothing.
example :
    let echo := Frame.request 0x30 []
    let other : Frame := ⟨0x31, Frame.replyMarker, [1]⟩
    let answer : Frame := ⟨0x30, Frame.replyMarker, [2]⟩
    let behind : Frame := ⟨0x30, Frame.replyMarker, [3]⟩
    ({ topic := .general, frames := [echo] } : Mailbox).awaitReply 0x30 (.ofMillis 5)
        [⟨.ofMillis 1, [other]⟩, ⟨.ofMillis 2, []⟩, ⟨.ofMillis 4, [other, answer, behind]⟩] =
      (.served answer, [echo, other, other], { topic := .general, frames := [behind] }) := by
  decide

end Mailbox

end PeripheralHost
