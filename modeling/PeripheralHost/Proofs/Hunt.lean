import PeripheralHost.Proofs.PollRuns

/-!
# Hunting for start marks

An assembler looks at some octets more than once: those behind the start mark of a frame that
was refused or abandoned. Where it is in the stream is clear all the same. It hunts from left
to right for start marks, and tries each that it meets. The trial ends with a frame, a refusal or
an abandonment, and the hunt goes on behind the frame, or right behind the start mark of a
trial that failed (`Stream.Hunt`). Octets are looked at again, but no start mark is tried
again, since whatever is put back lies behind the last that was tried.

So what an assembler answers to a row of calls is what the trials of one hunt came to, through
all it was fed up to what it holds, if no call made it forget anything.

## Main results

* `Stream.Hunt.ordered`, `Stream.Hunt.exists_trial` — start marks are tried in order, and none is
  passed over but in a frame that was found.
* `Stream.exists_scan_hunt` — a scan is a hunt up to what it leaves pending.
* `Assembler.exists_perform_hunt` — so is a row of calls, if none of them is a reset.
-/

namespace PeripheralHost

namespace Stream

variable {limit : Nat} {stream : Bytes} {start middle stop : Nat}

/-! ## Trials -/

/-- A trial to read a frame at a start mark. -/
structure Trial where
  /-- The number of octets ahead of the start mark. -/
  start : Nat
  /-- What the trial came to. -/
  outcome : Outcome

namespace Trial

/-- Where the hunt goes on: behind the frame, or right behind the start mark of a trial that
failed. -/
def resume (trial : Trial) : Nat :=
  match trial.outcome with
  | .ok frame => trial.start + frame.wireSize
  | .error _ => trial.start + 1

/-- What a reading of the octets behind a start mark comes to: the frame found, the reason for
which it is refused, or, if the octets do not settle the matter, that it is given up with as
many octets as there are. -/
def Settles (limit : Nat) (behind : Bytes) : Outcome → Prop
  | .ok frame => ∃ rest, read limit behind = .found frame rest
  | .error fault => read limit behind = .refused fault ∨
      read limit behind = .unsettled ∧ fault = .incomplete (behind.length + 1)

/-- A start mark stands at the place of the trial, and octets that stand behind it come to its
outcome. -/
def Within (limit : Nat) (stream : Bytes) (trial : Trial) : Prop :=
  ∃ behind, Frame.startMark :: behind <+: stream.drop trial.start ∧
    Settles limit behind trial.outcome

theorem start_lt_resume (trial : Trial) : trial.start < trial.resume := by
  unfold resume
  split
  · simp only [Frame.wireSize, Frame.overhead]
    omega
  · omega

theorem Within.append {trial : Trial} (h : trial.Within limit stream) (more : Bytes) :
    trial.Within limit (stream ++ more) := by
  obtain ⟨behind, hstands, hsettles⟩ := h
  refine ⟨behind, ?_, hsettles⟩
  rw [List.drop_append]
  exact hstands.trans (List.prefix_append _ _)

theorem Within.drop_eq {trial : Trial} (h : trial.Within limit stream) :
    stream.drop trial.start = Frame.startMark :: stream.drop (trial.start + 1) := by
  obtain ⟨behind, ⟨rest, hrest⟩, -⟩ := h
  rw [← List.tail_drop, ← hrest]
  rfl

end Trial

/-! ## The hunt -/

/-- No start mark stands from `start` up to `stop`. -/
def Bare (stream : Bytes) (start stop : Nat) : Prop :=
  start ≤ stop ∧ ∀ place, start ≤ place → place < stop → stream[place]? ≠ some Frame.startMark

theorem Bare.refl (stream : Bytes) (start : Nat) : Bare stream start start :=
  ⟨Nat.le_refl _, fun _ hstart hstop => absurd hstop (Nat.not_lt.mpr hstart)⟩

theorem Bare.trans (hfirst : Bare stream start middle) (hsecond : Bare stream middle stop) :
    Bare stream start stop := by
  refine ⟨Nat.le_trans hfirst.1 hsecond.1, fun place hstart hstop => ?_⟩
  by_cases hmiddle : place < middle
  · exact hfirst.2 place hstart hmiddle
  · exact hsecond.2 place (Nat.not_lt.mp hmiddle) hstop

theorem Bare.append (h : Bare stream start stop) (hstop : stop ≤ stream.length) (more : Bytes) :
    Bare (stream ++ more) start stop := by
  refine ⟨h.1, fun place hstart hplace => ?_⟩
  rw [List.getElem?_append_left (by omega)]
  exact h.2 place hstart hplace

/-- A hunt for start marks from `start` up to `stop`: each that is met is tried, and the hunt
goes on where the trial says. -/
inductive Hunt (limit : Nat) (stream : Bytes) : Nat → Nat → List Trial → Prop where
  /-- No start mark is met. -/
  | none {start stop : Nat} (bare : Bare stream start stop) (fits : stop ≤ stream.length) :
      Hunt limit stream start stop []
  /-- The first start mark that is met is tried. -/
  | trial {start stop : Nat} {first : Trial} {later : List Trial}
      (bare : Bare stream start first.start) (tried : first.Within limit stream)
      (left : Hunt limit stream first.resume stop later) :
      Hunt limit stream start stop (first :: later)

namespace Hunt

variable {trials later : List Trial}

theorem start_le_stop (h : Hunt limit stream start stop trials) : start ≤ stop := by
  induction h with
  | none bare fits => exact bare.1
  | @trial _ _ first _ bare tried left ih =>
      have := first.start_lt_resume
      have := bare.1
      omega

theorem stop_le (h : Hunt limit stream start stop trials) : stop ≤ stream.length := by
  induction h with
  | none bare fits => exact fits
  | trial bare tried left ih => exact ih

theorem within (h : Hunt limit stream start stop trials) :
    ∀ trial ∈ trials, trial.Within limit stream := by
  induction h with
  | none bare fits => simp
  | trial bare tried left ih => exact List.forall_mem_cons.mpr ⟨tried, ih⟩

/-- A hunt may begin earlier, where there are no start marks. -/
theorem skip (h : Hunt limit stream middle stop trials) (hbare : Bare stream start middle) :
    Hunt limit stream start stop trials := by
  cases h with
  | none bare fits => exact .none (hbare.trans bare) fits
  | trial bare tried left => exact .trial (hbare.trans bare) tried left

theorem append (hfirst : Hunt limit stream start middle trials)
    (hsecond : Hunt limit stream middle stop later) :
    Hunt limit stream start stop (trials ++ later) := by
  induction hfirst with
  | none bare fits => exact hsecond.skip bare
  | trial bare tried left ih => exact .trial bare tried (ih hsecond)

theorem extend (h : Hunt limit stream start stop trials) (more : Bytes) :
    Hunt limit (stream ++ more) start stop trials := by
  induction h with
  | none bare fits =>
      exact .none (bare.append fits more) (by rw [List.length_append]; omega)
  | @trial _ _ first _ bare tried left ih =>
      have hresume := first.start_lt_resume
      have hstop := left.start_le_stop
      have hfits := left.stop_le
      exact .trial (bare.append (by omega) more) (tried.append more) ih

/-- A trial by itself, made right away. -/
theorem single {trial : Trial} (h : trial.Within limit stream)
    (hresume : trial.resume ≤ stream.length) :
    Hunt limit stream trial.start trial.resume [trial] :=
  .trial (.refl _ _) h (.none (.refl _ _) hresume)

theorem start_le (h : Hunt limit stream start stop trials) :
    ∀ trial ∈ trials, start ≤ trial.start := by
  induction h with
  | none bare fits => simp
  | @trial _ _ first _ bare tried left ih =>
      refine List.forall_mem_cons.mpr ⟨bare.1, fun trial hmem => ?_⟩
      have := ih trial hmem
      have := first.start_lt_resume
      have := bare.1
      omega

/-- No start mark is tried twice, and they are tried from left to right. -/
theorem ordered (h : Hunt limit stream start stop trials) :
    trials.Pairwise fun earlier later => earlier.start < later.start := by
  induction h with
  | none bare fits => exact .nil
  | @trial _ _ first _ bare tried left ih =>
      refine List.pairwise_cons.mpr ⟨fun trial hmem => ?_, ih⟩
      exact Nat.lt_of_lt_of_le first.start_lt_resume (left.start_le trial hmem)

/-- A start mark that the hunt has passed was tried, or lies within a frame that was found. -/
theorem exists_trial (h : Hunt limit stream start stop trials) {place : Nat}
    (hstart : start ≤ place) (hstop : place < stop)
    (hmark : stream[place]? = some Frame.startMark) :
    ∃ trial ∈ trials, trial.start ≤ place ∧ place < trial.resume := by
  induction h with
  | none bare fits => exact absurd hmark (bare.2 place hstart hstop)
  | @trial _ _ first _ bare tried left ih =>
      by_cases hahead : place < first.start
      · exact absurd hmark (bare.2 place hstart hahead)
      by_cases hbehind : place < first.resume
      · exact ⟨first, List.mem_cons_self, Nat.not_lt.mp hahead, hbehind⟩
      · obtain ⟨trial, hmem, hcovers⟩ := ih (Nat.not_lt.mp hbehind) hstop
        exact ⟨trial, List.mem_cons_of_mem _ hmem, hcovers⟩

/-- There are no more trials than start marks. -/
theorem length_le_count (h : Hunt limit stream start stop trials) :
    trials.length ≤ ((stream.take stop).drop start).count Frame.startMark := by
  induction h with
  | none bare fits => exact Nat.zero_le _
  | @trial start stop first later bare tried left ih =>
      have hresume := first.start_lt_resume
      have hstop := left.start_le_stop
      have hmark : (stream.take stop).drop first.start =
          Frame.startMark :: (stream.take stop).drop (first.start + 1) := by
        rw [List.drop_take, List.drop_take, tried.drop_eq,
          show stop - first.start = stop - (first.start + 1) + 1 by omega, List.take_succ_cons]
      have hahead := (List.drop_sublist_drop_left (stream.take stop) bare.1).count_le
        Frame.startMark
      have hbehind := (List.drop_sublist_drop_left (stream.take stop)
        (show first.start + 1 ≤ first.resume from hresume)).count_le Frame.startMark
      rw [hmark, List.count_cons_self] at hahead
      simp only [List.length_cons]
      omega

end Hunt

/-! ## A scan is a hunt -/

theorem bare_of_ne {b : UInt8} (h : b ≠ Frame.startMark) (front rest : Bytes) :
    Bare (front ++ b :: rest) front.length (front ++ [b]).length := by
  refine ⟨by simp, fun place hstart hstop => ?_⟩
  rw [List.length_append, List.length_singleton] at hstop
  obtain rfl : place = front.length := by omega
  rw [List.getElem?_append_right (Nat.le_refl _), Nat.sub_self]
  simpa using h

/-- A trial at a start mark, with what is behind it. -/
theorem Trial.within_of_settles {behind : Bytes} {outcome : Outcome}
    (h : Settles limit behind outcome) (front : Bytes) :
    Within limit (front ++ Frame.startMark :: behind) ⟨front.length, outcome⟩ :=
  ⟨behind, ⟨[], by rw [List.append_nil, List.drop_left]⟩, h⟩

/-- A failed trial by itself. -/
theorem Hunt.failed {behind : Bytes} {fault : FrameError}
    (h : Trial.Settles limit behind (.error fault)) (front : Bytes) :
    Hunt limit (front ++ Frame.startMark :: behind) front.length
      (front ++ [Frame.startMark]).length [⟨front.length, .error fault⟩] := by
  have hsingle := single (Trial.within_of_settles h front) (by simp [Trial.resume])
  rw [List.length_append, List.length_singleton]
  exact hsingle

/-- A scan hunts through the stream up to what it leaves pending, and answers what its trials
come to. -/
theorem exists_scan_hunt (limit : Nat) (front stream : Bytes) :
    ∃ (done : Bytes) (trials : List Trial),
      front ++ stream = done ++ (scan limit stream).2 ∧
        Hunt limit (front ++ stream) front.length done.length trials ∧
        trials.map Trial.outcome = (scan limit stream).1 := by
  fun_induction scan limit stream generalizing front with
  | case1 => exact ⟨front, [], rfl, .none (.refl _ _) (by simp), rfl⟩
  | case2 b rest hb ih =>
      obtain ⟨done, trials, hdone, hhunt, houtcomes⟩ := ih (front ++ [b])
      rw [List.append_assoc, List.singleton_append] at hdone hhunt
      exact ⟨done, trials, hdone, hhunt.skip (bare_of_ne hb front rest), houtcomes⟩
  | case3 b rest hb hread => exact ⟨front, [], rfl, .none (.refl _ _) (by simp), rfl⟩
  | case4 b rest hb fault hread outcomes pending hscan ih =>
      obtain rfl : b = Frame.startMark := by simpa using hb
      obtain ⟨done, trials, hdone, hhunt, houtcomes⟩ := ih (front ++ [Frame.startMark])
      rw [List.append_assoc, List.singleton_append] at hdone hhunt
      rw [hscan] at hdone houtcomes
      refine ⟨done, ⟨front.length, .error fault⟩ :: trials, hdone, ?_, ?_⟩
      · exact (Hunt.failed (.inl hread) front).append hhunt
      · rw [List.map_cons, houtcomes]
  | case5 b rest hb frame after hread outcomes pending hscan ih =>
      obtain rfl : b = Frame.startMark := by simpa using hb
      obtain ⟨-, written, hwritten, hstream⟩ := read_eq_found_iff.mp hread
      obtain ⟨done, trials, hdone, hhunt, houtcomes⟩ := ih (front ++ written)
      rw [List.append_assoc, ← hstream] at hdone hhunt
      rw [hscan] at hdone houtcomes
      have hresume : (front ++ written).length =
          Trial.resume ⟨front.length, .ok frame⟩ := by
        rw [List.length_append, Frame.length_encode hwritten]
        rfl
      rw [hresume] at hhunt
      have hsettles : Trial.Settles limit rest (.ok frame) := ⟨after, hread⟩
      refine ⟨done, ⟨front.length, .ok frame⟩ :: trials, hdone, ?_, ?_⟩
      · exact .trial (.refl _ _) (Trial.within_of_settles hsettles front) hhunt
      · rw [List.map_cons, houtcomes]

end Stream

/-! ## Calls -/

namespace Assembler

namespace Call

/-- The octets that a call feeds. -/
def octets : Call → Bytes
  | feed bytes => bytes
  | abandon => []
  | reset => []

end Call

/-- The octets that a row of calls feeds. -/
def octets (calls : List Call) : Bytes := calls.flatMap Call.octets

theorem limit_call (call : Call) (assembler : Assembler) :
    (Assembler.call call assembler).2.limit = assembler.limit := by
  cases call with
  | feed bytes => exact limit_feed bytes assembler
  | abandon => exact limit_abandon assembler
  | reset => rfl

theorem Resumable.call {assembler : Assembler} (h : assembler.Resumable) (call : Call) :
    (Assembler.call call assembler).2.Resumable := by
  cases call with
  | feed bytes => exact h.feed bytes
  | abandon => exact h.abandon
  | reset => exact Stage.resumable_idle assembler.limit

theorem limit_perform (calls : List Call) (assembler : Assembler) :
    (perform calls assembler).2.limit = assembler.limit := by
  induction calls generalizing assembler with
  | nil => rfl
  | cons call calls ih => rw [perform, ih, limit_call]

theorem Resumable.perform {assembler : Assembler} (h : assembler.Resumable) (calls : List Call) :
    (Assembler.perform calls assembler).2.Resumable := by
  induction calls generalizing assembler with
  | nil => exact h
  | cons call calls ih => exact ih (h.call call)

/-- A call that is not a reset hunts through what is pending and what it feeds, up to what is
pending behind it. -/
theorem exists_call_hunt {assembler : Assembler} (h : assembler.Resumable) {call : Call}
    (hcall : call ≠ .reset) (front : Bytes) :
    let stream := front ++ (assembler.pending ++ call.octets)
    let called := Assembler.call call assembler
    ∃ (done : Bytes) (trials : List Stream.Trial),
      stream = done ++ called.2.pending ∧
        Stream.Hunt assembler.limit stream front.length done.length trials ∧
        trials.map Stream.Trial.outcome = called.1 := by
  cases call with
  | feed bytes =>
      obtain ⟨hsettled, hpending⟩ := Prod.mk.inj (h.feed_eq_scan bytes)
      obtain ⟨done, trials, hdone, hhunt, houtcomes⟩ :=
        Stream.exists_scan_hunt assembler.limit front (assembler.pending ++ bytes)
      rw [← hsettled] at houtcomes
      rw [← hpending] at hdone
      exact ⟨done, trials, hdone, hhunt, houtcomes⟩
  | abandon =>
      simp only [Call.octets, List.append_nil]
      obtain hnone | ⟨behind, hpending, hread⟩ := h.pending
      · rw [Assembler.call, abandon_of_idle (isIdle_iff.mpr hnone), hnone, List.append_nil]
        exact ⟨front, [], (List.append_nil _).symm, .none (.refl _ _) (Nat.le_refl _), rfl⟩
      · obtain ⟨hsettled, hleft⟩ := Prod.mk.inj (abandon_of_pending hpending)
        obtain ⟨done, trials, hdone, hhunt, houtcomes⟩ :=
          Stream.exists_scan_hunt assembler.limit (front ++ [Frame.startMark]) behind
        rw [← hleft, List.append_assoc, List.singleton_append] at hdone
        rw [List.append_assoc, List.singleton_append] at hhunt
        rw [Assembler.call, hsettled, hpending, ← houtcomes]
        exact ⟨done, _, hdone, (Stream.Hunt.failed (.inr ⟨hread, rfl⟩) front).append hhunt, rfl⟩
  | reset => exact absurd rfl hcall

/-- So does a row of calls without a reset. -/
theorem exists_perform_hunt {assembler : Assembler} (h : assembler.Resumable)
    {calls : List Call} (hcalls : .reset ∉ calls) (front : Bytes) :
    let stream := front ++ (assembler.pending ++ octets calls)
    let performed := perform calls assembler
    ∃ (done : Bytes) (trials : List Stream.Trial),
      stream = done ++ performed.2.pending ∧
        Stream.Hunt assembler.limit stream front.length done.length trials ∧
        trials.map Stream.Trial.outcome = performed.1 := by
  induction calls generalizing assembler front with
  | nil =>
      refine ⟨front, [], ?_, .none (.refl _ _) ?_, rfl⟩ <;> simp [octets, perform]
  | cons call calls ih =>
      obtain ⟨hcall, hlater⟩ := not_or.mp (mt List.mem_cons.mpr hcalls)
      obtain ⟨middle, first, hmiddle, hfirst, hsettled⟩ :=
        exists_call_hunt h (Ne.symm hcall) front
      obtain ⟨done, trials, hdone, hhunt, houtcomes⟩ := ih (h.call call) hlater middle
      -- What is fed later joins what is pending between the call and the rest.
      have hjoined : front ++ (assembler.pending ++ octets (call :: calls)) =
          middle ++ ((Assembler.call call assembler).2.pending ++ octets calls) := by
        rw [← List.append_assoc middle, ← hmiddle]
        simp [octets]
      have hextended := hfirst.extend (octets calls)
      rw [hmiddle, List.append_assoc] at hextended
      rw [limit_call] at hhunt
      simp only [hjoined]
      refine ⟨done, first ++ trials, hdone, hextended.append hhunt, ?_⟩
      rw [List.map_append, hsettled, houtcomes, perform]

end Assembler

end PeripheralHost
