import PeripheralHost.Proofs.Hunt

/-!
# Every delivered frame stands in the stream

An assembler looks at some octets more than once: those behind the start mark of
a frame that was refused or abandoned. It must not, for that, find one octet in
two frames, nor piece a frame together from octets that did not arrive one
behind the other.

At any time the octets fed so far fall into two parts, those the assembler is
done with and those pending, and a second look only ever goes through pending
octets. So the law of a single call is that it finds its frames behind what was
done before the call and within what is done after it
(`Assembler.exists_call_places`), and that what is done with and what is pending
still make up the stream. The hunt for start marks says so of a call that is no
reset (`Assembler.exists_call_hunt`), and a frame is found where the trial was
made that came to it. Calls in a row then find their frames in a row.

A reset is done with everything pending, so no frame reaches across it.

## Main results

* `Stream.Hunt.exists_places` — the frames that a hunt comes to stand in the
  stream in order.
* `Assembler.exists_perform_places` — the same for calls, resets included, from
  any stage that an assembler can reach.
* `Assembler.delivered_in_order` — the run of a new assembler.
-/

namespace PeripheralHost

/-! ## Frames in order -/

namespace Stream

variable {limit : Nat}

/-- A longer stream still holds the frame. -/
theorem Occurrence.Within.append {offset : Nat} {stream : Bytes} {place : Occurrence}
    (h : place.Within limit offset stream) (more : Bytes) :
    place.Within limit offset (stream ++ more) := by
  obtain ⟨hoffset, hlimit, written, hwritten, hstands⟩ := h
  refine ⟨hoffset, hlimit, written, hwritten, ?_⟩
  rw [List.drop_append]
  exact hstands.trans (List.prefix_append _ _)

/-- Frames that stand in a stream one behind the other, from `start` on and up
to `stop`. -/
structure InOrder (limit : Nat) (stream : Bytes) (start stop : Nat) (places : List Occurrence) :
    Prop where
  start_le_stop : start ≤ stop
  within : ∀ place ∈ places, place.Within limit 0 stream
  start_le : ∀ place ∈ places, start ≤ place.start
  stop_le : ∀ place ∈ places, place.stop ≤ stop
  ordered : places.Pairwise fun earlier later => earlier.stop ≤ later.start

namespace InOrder

variable {stream : Bytes} {start middle stop : Nat} {places : List Occurrence}

theorem nil (h : start ≤ stop) : InOrder limit stream start stop [] where
  start_le_stop := h
  within := by simp
  start_le := by simp
  stop_le := by simp
  ordered := .nil

theorem append {later : List Occurrence} (hfirst : InOrder limit stream start middle places)
    (hsecond : InOrder limit stream middle stop later) :
    InOrder limit stream start stop (places ++ later) where
  start_le_stop := Nat.le_trans hfirst.start_le_stop hsecond.start_le_stop
  within := List.forall_mem_append.mpr ⟨hfirst.within, hsecond.within⟩
  start_le := List.forall_mem_append.mpr ⟨hfirst.start_le, fun place hmem =>
    Nat.le_trans hfirst.start_le_stop (hsecond.start_le place hmem)⟩
  stop_le := List.forall_mem_append.mpr ⟨fun place hmem =>
    Nat.le_trans (hfirst.stop_le place hmem) hsecond.start_le_stop, hsecond.stop_le⟩
  ordered := List.pairwise_append.mpr ⟨hfirst.ordered, hsecond.ordered,
    fun earlier hearlier later hlater =>
      Nat.le_trans (hfirst.stop_le earlier hearlier) (hsecond.start_le later hlater)⟩

/-- Frames behind a place also stand behind an earlier one. -/
theorem widen {before : Nat} (h : InOrder limit stream start stop places) (hle : before ≤ start) :
    InOrder limit stream before stop places :=
  (nil hle).append h

theorem extend (h : InOrder limit stream start stop places) (more : Bytes) :
    InOrder limit (stream ++ more) start stop places :=
  { h with within := fun place hmem => (h.within place hmem).append more }

/-- A frame by itself. -/
theorem single {place : Occurrence} (h : place.Within limit 0 stream) :
    InOrder limit stream place.start place.stop [place] where
  start_le_stop := Nat.le_add_right _ _
  within := List.forall_mem_singleton.mpr h
  start_le := List.forall_mem_singleton.mpr (Nat.le_refl _)
  stop_le := List.forall_mem_singleton.mpr (Nat.le_refl _)
  ordered := List.pairwise_singleton _ _

end InOrder

/-! ## The frames of a hunt -/

/-- A trial that came to a frame was made where the frame stands. -/
theorem Trial.Within.place {stream : Bytes} {trial : Trial} {frame : Frame}
    (h : trial.Within limit stream) (hframe : trial.outcome = .ok frame) :
    Occurrence.Within limit 0 stream ⟨trial.start, frame⟩ := by
  obtain ⟨behind, hstands, hsettles⟩ := h
  rw [hframe] at hsettles
  obtain ⟨rest, hread⟩ := hsettles
  obtain ⟨hlimit, written, hwritten, hbehind⟩ := read_eq_found_iff.mp hread
  rw [hbehind] at hstands
  exact ⟨Nat.zero_le _, hlimit, written, hwritten, (List.prefix_append _ _).trans hstands⟩

/-- The frames that a hunt comes to stand in the stream in order. -/
theorem Hunt.exists_places {stream : Bytes} {start stop : Nat} {trials : List Trial}
    (h : Hunt limit stream start stop trials) :
    ∃ places : List Occurrence, InOrder limit stream start stop places ∧
      places.map Occurrence.frame = Outcome.frames (trials.map Trial.outcome) := by
  induction h with
  | none bare fits => exact ⟨[], .nil bare.1, rfl⟩
  | @trial start stop first later bare tried left ih =>
      obtain ⟨places, hplaces, hframes⟩ := ih
      cases houtcome : first.outcome with
      | ok frame =>
          have hfirst := InOrder.single (tried.place houtcome)
          have hresume : first.resume = Occurrence.stop ⟨first.start, frame⟩ := by
            simp only [Trial.resume, houtcome, Occurrence.stop]
          rw [hresume] at hplaces
          refine ⟨⟨first.start, frame⟩ :: places, (hfirst.append hplaces).widen bare.1, ?_⟩
          rw [List.map_cons, List.map_cons, houtcome, Outcome.frames_ok, hframes]
      | error fault =>
          have hresume := first.start_lt_resume
          refine ⟨places, hplaces.widen (Nat.le_trans bare.1 (Nat.le_of_lt hresume)), ?_⟩
          rw [List.map_cons, houtcome, Outcome.frames_error, hframes]

end Stream

/-! ## The frames of calls -/

namespace Assembler

/-- The frames of one call stand behind what was done with before it, and within
what is done with after it. -/
theorem exists_call_places {assembler : Assembler} (h : assembler.Resumable) (call : Call)
    (front : Bytes) :
    let stream := front ++ (assembler.pending ++ call.octets)
    let called := Assembler.call call assembler
    ∃ (done : Bytes) (places : List Stream.Occurrence),
      stream = done ++ called.2.pending ∧
        Stream.InOrder assembler.limit stream front.length done.length places ∧
        places.map Stream.Occurrence.frame = Outcome.frames called.1 := by
  by_cases hreset : call = .reset
  · subst hreset
    refine ⟨front ++ assembler.pending, [], ?_, .nil ?_, rfl⟩
    · simp [Assembler.call, Call.octets, reset, pending]
    · simp
  · obtain ⟨done, trials, hdone, hhunt, houtcomes⟩ := exists_call_hunt h hreset front
    obtain ⟨places, hplaces, hframes⟩ := hhunt.exists_places
    rw [houtcomes] at hframes
    exact ⟨done, places, hdone, hplaces, hframes⟩

/-- The frames of a row of calls stand in order behind what was done with before
the calls, and none of them reaches across a reset. -/
theorem exists_perform_places {assembler : Assembler} (h : assembler.Resumable)
    (calls : List Call) (front : Bytes) :
    let stream := front ++ (assembler.pending ++ octets calls)
    let performed := perform calls assembler
    ∃ (done : Bytes) (places : List Stream.Occurrence),
      stream = done ++ performed.2.pending ∧
        Stream.InOrder assembler.limit stream front.length done.length places ∧
        places.map Stream.Occurrence.frame = Outcome.frames performed.1 ∧
        ∀ earlier later, calls = earlier ++ Call.reset :: later → ∀ place ∈ places,
          place.stop ≤ (front ++ (assembler.pending ++ octets earlier)).length ∨
            (front ++ (assembler.pending ++ octets earlier)).length ≤ place.start := by
  induction calls generalizing assembler front with
  | nil =>
      refine ⟨front, [], ?_, .nil (Nat.le_refl _), rfl, by simp⟩
      simp [octets, perform]
  | cons call calls ih =>
      obtain ⟨middle, first, hmiddle, hfirst, hsettled⟩ := exists_call_places h call front
      have hih := ih (h.call call) middle
      rw [limit_call] at hih
      -- What is fed later joins what is pending between the call and the rest.
      have hcut : ∀ later, front ++ (assembler.pending ++ (call.octets ++ octets later)) =
          middle ++ ((Assembler.call call assembler).2.pending ++ octets later) := by
        intro later
        rw [← List.append_assoc middle, ← hmiddle]
        simp
      simp only [← hcut] at hih
      obtain ⟨done, places, hdone, hplaces, hframes, hresets⟩ := hih
      have hstart := hfirst.extend (octets calls)
      simp only [List.append_assoc] at hstart
      refine ⟨done, first ++ places, hdone, hstart.append hplaces, ?_, ?_⟩
      · rw [List.map_append, hsettled, hframes, perform, Outcome.frames_append]
      · intro earlier later hcalls place hmem
        rw [List.mem_append] at hmem
        cases earlier with
        | nil =>
            obtain ⟨rfl, rfl⟩ := List.cons.inj hcalls
            have hnone : first = [] := List.map_eq_nil_iff.mp hsettled
            have hboundary : front ++ (assembler.pending ++ octets []) = middle := by
              simpa [Assembler.call, Call.octets, reset, pending, octets] using hmiddle
            rw [hboundary]
            rcases hmem with hmem | hmem
            · simp [hnone] at hmem
            · exact .inr (hplaces.start_le place hmem)
        | cons _ earlier =>
            obtain ⟨rfl, hlater⟩ := List.cons.inj hcalls
            rcases hmem with hmem | hmem
            · left
              have hstop := hfirst.stop_le place hmem
              rw [octets, List.flatMap_cons, ← octets, hcut, List.length_append]
              omega
            · exact hresets earlier later hlater place hmem

/-- **Delivered frames stand in the stream**: whatever calls are made on a new
assembler, each frame it delivers can be given a place in the octets fed where
its whole written form stands. The places follow each other without overlap in
the order of delivery, the bodies are within the limit, and no place has octets
from both sides of a reset. -/
theorem delivered_in_order (limit : Nat) (calls : List Call) :
    ∃ places : List Stream.Occurrence,
      places.map Stream.Occurrence.frame = Outcome.frames (perform calls { limit }).1 ∧
        (∀ place ∈ places, place.Within limit 0 (octets calls)) ∧
        places.Pairwise (fun earlier later => earlier.stop ≤ later.start) ∧
        ∀ earlier later, calls = earlier ++ Call.reset :: later → ∀ place ∈ places,
          place.stop ≤ (octets earlier).length ∨ (octets earlier).length ≤ place.start := by
  obtain ⟨done, places, -, hplaces, hframes, hresets⟩ :=
    exists_perform_places (resumable_new limit) calls []
  exact ⟨places, hframes, hplaces.within, hplaces.ordered, hresets⟩

end Assembler

end PeripheralHost
