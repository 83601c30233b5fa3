import PeripheralHost.Proofs.Lockstep

/-!
# Every outcome is paid for with a start mark

A refusal puts octets back, and there may be start marks among them, each of which may lead to
another refusal. Two things keep this within bounds.

The loop ends. A refusal makes the queue longer, but the start mark of the refused frame is not
put back, so what is held in all becomes less (`Registers.Loop.exists_after`).

And the start marks are accounted for. Each outcome is what the trial of a start mark came to,
and no start mark is tried twice (`Assembler.exists_perform_hunt`). A start mark that was never
tried lies within a frame that was delivered, or waits behind the one being tried.

## Main results

* `Assembler.start_marks_accounted` — the loop ends, and which start mark each outcome is
  charged to.
-/

namespace PeripheralHost

namespace Assembler

/-- **The loop ends, and every outcome has a start mark of its own**: from whatever registers
calls lead to, with whatever octets to be taken again ahead of whatever input, the loop ends
within as many turns as its effort says, and has then settled what an assembler settles there.
If none of the calls is a reset, each outcome comes of a trial at a start mark of the stream,
the later outcome of the later start mark, and every start mark ahead of what is pending was
tried, or lies within a frame that was delivered. So there are no more outcomes than start
marks, and fewer if a frame has started. -/
theorem start_marks_accounted (limit : Nat) (calls : List Call) :
    let registers := (Registers.perform calls { limit }).2
    let performed := perform calls { limit }
    let stream := octets calls
    (∀ again input,
        let loop : Registers.Loop := { registers, again, input }
        ∃ turns ≤ loop.effort, (loop.after turns).turn = none ∧
          (loop.after turns).settled =
            (performed.2.stage.drive limit (again ++ input) []).1) ∧
      (.reset ∉ calls →
        (∃ trials : List Stream.Trial,
          trials.map Stream.Trial.outcome = performed.1 ∧
            (∀ trial ∈ trials, trial.Within limit stream) ∧
            trials.Pairwise (fun earlier later => earlier.start < later.start) ∧
            ∀ place, place + performed.2.pending.length < stream.length →
              stream[place]? = some Frame.startMark →
                ∃ trial ∈ trials, trial.start ≤ place ∧ place < trial.resume) ∧
          performed.1.length + (if performed.2.isIdle then 0 else 1) ≤
            stream.count Frame.startMark) := by
  intro registers performed stream
  have hresumable : performed.2.Resumable := (resumable_new limit).perform calls
  refine ⟨fun again input => ?_, fun hcalls => ?_⟩
  · intro loop
    obtain ⟨-, hmirrors⟩ := (Registers.mirrors_new limit).perform calls
    have hlimit : performed.2.limit = limit := limit_perform calls { limit }
    have hheads : loop.Heads limit (performed.2.stage.drive limit (again ++ input) []) :=
      ⟨performed.2.stage, hmirrors.holds, hmirrors.limit.trans hlimit, rfl⟩
    obtain ⟨turns, hturns, hended, -⟩ := loop.exists_after
    exact ⟨turns, hturns, hended, ((hheads.after turns).ended hended).1⟩
  · obtain ⟨done, trials, hstream, hhunt, houtcomes⟩ :=
      exists_perform_hunt (resumable_new limit) hcalls []
    replace hstream : stream = done ++ performed.2.pending := hstream
    replace hhunt : Stream.Hunt limit stream 0 done.length trials := hhunt
    have hlength : stream.length = done.length + performed.2.pending.length := by
      rw [hstream, List.length_append]
    refine ⟨⟨trials, houtcomes, hhunt.within, hhunt.ordered, ?_⟩, ?_⟩
    · intro place hplace hmark
      exact hhunt.exists_trial (Nat.zero_le _) (by omega) hmark
    · have htried := hhunt.length_le_count
      have hopen : (if performed.2.isIdle then 0 else 1) ≤
          performed.2.pending.count Frame.startMark := by
        obtain hnone | ⟨behind, hpending, -⟩ := hresumable.pending
        · simp [isIdle_iff.mpr hnone]
        · rw [hpending, List.count_cons_self]
          split <;> omega
      rw [List.drop_zero, hstream, List.take_left] at htried
      rw [← houtcomes, List.length_map, hstream, List.count_append]
      exact Nat.add_le_add htried hopen

/-- A frame is refused, another is abandoned, and a third, which the second had swallowed, is
delivered. A fourth has started: each of the start marks is charged once. -/
theorem charged_amid_false_starts :
    let frame : Frame := ⟨0x21, Frame.replyMarker, [7]⟩
    let calls : List Call :=
      [.feed [0x02, 0x20, 0x4F, 0xFF, 0xFF, 0x02, 0x20, 0x4F, 0, 9],
        .feed (wrap (frame.header ++ frame.body)), .abandon, .feed [0x02]]
    let performed := perform calls { limit := 16 }
    .reset ∉ calls ∧
      performed.1 =
        [.error (.bodyTooLarge 65535 16), .error (.incomplete 13), .ok frame] ∧
      (octets calls).count Frame.startMark = 4 ∧
      performed.1.length + (if performed.2.isIdle then 0 else 1) ≤
        (octets calls).count Frame.startMark ∧
      ∃ trials : List Stream.Trial,
        trials.map Stream.Trial.outcome = performed.1 ∧
          trials.Pairwise fun earlier later => earlier.start < later.start := by
  intro frame calls performed
  have hcalls : .reset ∉ calls := by decide
  obtain ⟨-, haccounted⟩ := start_marks_accounted 16 calls
  obtain ⟨⟨trials, houtcomes, -, hordered, -⟩, hcount⟩ := haccounted hcalls
  exact ⟨hcalls, by decide +kernel, by decide +kernel, hcount, trials, houtcomes, hordered⟩

end Assembler

end PeripheralHost
