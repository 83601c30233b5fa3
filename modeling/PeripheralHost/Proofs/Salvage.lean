import PeripheralHost.Proofs.WrittenFrames

/-!
# Nothing whole is lost behind a false start

A corrupted length makes a frame claim octets that belong to the frames behind
it, and the assembler waits for the end of that frame in vain. Abandoning it
brings the swallowed octets back, one false start mark at a time. When the
assembler is idle at last, it has delivered what `Stream.frames` finds in the
open stream: from left to right every frame whose written form stands there,
except one that a frame delivered before it overlaps.

The two walks differ in what they do at a start mark behind which the stream
ends too soon. `Stream.scan` stops there, `Stream.frames` moves on by one octet,
and so does an abandoned assembler. Hence the law that carries this module
(`Stream.frames_eq_scan`): the frames of a stream are those its scan finds, and
then the frames of what the scan leaves pending.

## Main results

* `Stream.occurrences_complete` — a written frame that is not taken is
  overlapped by one taken before it.
* `Assembler.abandonAll_frames` — abandoning until idle delivers the frames of
  the pending octets.
* `Assembler.salvage_eq_frames` — feeding in pieces and abandoning until idle.
-/

namespace PeripheralHost

/-! ## Where the frames of a stream stand -/

namespace Stream

/-- A frame, and the place in a stream at which its written form begins. -/
structure Occurrence where
  /-- The number of octets ahead of the frame. -/
  start : Nat
  /-- The frame. -/
  frame : Frame
  deriving DecidableEq, Repr

namespace Occurrence

/-- The number of octets up to the end of the frame. -/
def stop (occurrence : Occurrence) : Nat := occurrence.start + occurrence.frame.wireSize

/-- The stream, which begins at `offset`, holds the whole written form of the
frame at its place, and the body is within the limit. -/
def Within (limit offset : Nat) (stream : Bytes) (occurrence : Occurrence) : Prop :=
  offset ≤ occurrence.start ∧ occurrence.frame.body.length ≤ limit ∧
    ∃ written, occurrence.frame.encode = .ok written ∧
      written <+: stream.drop (occurrence.start - offset)

end Occurrence

/-- The frames that `frames` takes from a stream, and where they stand, if the
stream begins at `offset`. -/
def occurrences (limit offset : Nat) (stream : Bytes) : List Occurrence :=
  match _h : frameAt limit stream with
  | some (frame, rest) => ⟨offset, frame⟩ :: occurrences limit (offset + frame.wireSize) rest
  | none =>
      match stream with
      | [] => []
      | _ :: rest => occurrences limit (offset + 1) rest
termination_by stream.length
decreasing_by
  · exact frameAt_shortens _h
  · simp

variable {limit : Nat}

theorem frames_of_some {stream rest : Bytes} {frame : Frame}
    (h : frameAt limit stream = some (frame, rest)) :
    frames limit stream = frame :: frames limit rest := by
  rw [frames]
  split <;> rename_i h' <;> rw [h] at h' <;> cases h'
  rfl

theorem frames_cons_of_none {b : UInt8} {rest : Bytes} (h : frameAt limit (b :: rest) = none) :
    frames limit (b :: rest) = frames limit rest := by
  rw [frames]
  split <;> rename_i h' <;> rw [h] at h'
  cases h'

theorem frames_nil (limit : Nat) : frames limit [] = [] := by
  rw [frames]
  split
  · next h => simp [frameAt, candidate] at h
  · rfl

theorem frames_eq_map_occurrences (limit offset : Nat) (stream : Bytes) :
    frames limit stream = (occurrences limit offset stream).map Occurrence.frame := by
  fun_induction occurrences limit offset stream with
  | case1 offset stream frame rest h ih => rw [frames_of_some h, ih, List.map_cons]
  | case2 offset h => rw [frames_nil, List.map_nil]
  | case3 offset b rest h ih => rw [frames_cons_of_none h, ih]

/-- A written frame is either taken or overlapped by one taken before it. -/
theorem occurrences_complete (limit offset : Nat) (stream : Bytes) {occurrence : Occurrence}
    (h : occurrence.Within limit offset stream) :
    occurrence ∈ occurrences limit offset stream ∨
      ∃ earlier ∈ occurrences limit offset stream,
        earlier.start < occurrence.start ∧ occurrence.start < earlier.stop := by
  obtain ⟨hoffset, hlimit, written, hwritten, hstands⟩ := h
  have hhere : ∀ {offset : Nat} {stream : Bytes}, occurrence.start = offset →
      written <+: stream.drop (occurrence.start - offset) →
        frameAt limit stream = some (occurrence.frame, stream.drop written.length) := by
    rintro offset stream rfl hstands
    rw [Nat.sub_self, List.drop_zero] at hstands
    exact frameAt_eq_some_iff.mpr
      ⟨hlimit, written, hwritten, (List.prefix_iff_eq_append.mp hstands).symm⟩
  fun_induction occurrences limit offset stream with
  | case1 offset stream frame rest hfound ih =>
      obtain ⟨-, taken, htaken, rfl⟩ := frameAt_eq_some_iff.mp hfound
      have hsize := Frame.length_encode htaken
      rcases Nat.lt_trichotomy occurrence.start offset with hlt | heq | hgt
      · omega
      · have hsame := hhere heq hstands
        rw [hfound, Option.some.injEq, Prod.mk.injEq] at hsame
        left
        rw [List.mem_cons]
        left
        cases occurrence
        simp only at heq hsame
        rw [heq, hsame.1]
      · by_cases hinside : occurrence.start < offset + frame.wireSize
        · exact .inr ⟨⟨offset, frame⟩, List.mem_cons_self, hgt, hinside⟩
        · have hdrop : (taken ++ rest).drop (occurrence.start - offset) =
              rest.drop (occurrence.start - (offset + frame.wireSize)) := by
            rw [List.drop_append, List.drop_eq_nil_of_le (by omega), List.nil_append, hsize,
              Nat.sub_sub]
          rw [hdrop] at hstands
          rcases ih (by omega) hstands with hmem | ⟨earlier, hmem, hoverlap⟩
          · exact .inl (List.mem_cons_of_mem _ hmem)
          · exact .inr ⟨earlier, List.mem_cons_of_mem _ hmem, hoverlap⟩
  | case2 offset hnone =>
      have hsize := Frame.length_encode hwritten
      have hle := hstands.length_le
      simp only [Frame.wireSize, Frame.overhead, List.drop_nil, List.length_nil] at hsize hle
      omega
  | case3 offset b rest hnone ih =>
      by_cases heq : occurrence.start = offset
      · rw [hhere heq hstands] at hnone
        simp at hnone
      · obtain ⟨more, hmore⟩ : ∃ more, occurrence.start = offset + 1 + more :=
          ⟨occurrence.start - (offset + 1), by omega⟩
        rw [show occurrence.start - offset = more + 1 by omega, List.drop_succ_cons] at hstands
        refine ih (by omega) ?_
        rw [show occurrence.start - (offset + 1) = more by omega]
        exact hstands

/-! ## What a scan leaves pending -/

theorem frames_startMark_of_not_found {behind : Bytes}
    (h : ∀ frame rest, read limit behind ≠ .found frame rest) :
    frames limit (Frame.startMark :: behind) = frames limit behind := by
  apply frames_cons_of_none
  rw [Option.eq_none_iff_forall_not_mem]
  rintro ⟨frame, rest⟩ hmem
  rw [Option.mem_def, frameAt_startMark_iff] at hmem
  exact h frame rest hmem

/-- The frames of a stream are those its scan finds, and then the frames of
what the scan leaves pending. -/
theorem frames_eq_scan (limit : Nat) (stream : Bytes) :
    frames limit stream =
      Outcome.frames (scan limit stream).1 ++ frames limit (scan limit stream).2 := by
  fun_induction scan limit stream with
  | case1 => rfl
  | case2 b rest hb ih => rw [frames_cons_of_none (frameAt_of_ne_startMark limit rest hb), ih]
  | case3 b rest hb hread => rfl
  | case4 b rest hb fault hread outcomes pending hscan ih =>
      obtain rfl : b = Frame.startMark := by simpa using hb
      rw [frames_startMark_of_not_found (by simp [hread]), ih, hscan]
      rfl
  | case5 b rest hb frame after hread outcomes pending hscan ih =>
      obtain rfl : b = Frame.startMark := by simpa using hb
      rw [frames_of_some (frameAt_startMark_iff.mpr hread), ih, hscan]
      rfl

theorem scan_pending_suffix (limit : Nat) (stream : Bytes) : (scan limit stream).2 <:+ stream := by
  fun_induction scan limit stream with
  | case1 => exact List.suffix_refl _
  | case2 b rest hb ih => exact ih.trans (List.suffix_cons _ _)
  | case3 b rest hb hread => exact List.suffix_refl _
  | case4 b rest hb fault hread outcomes pending hscan ih =>
      rw [hscan] at ih
      exact ih.trans (List.suffix_cons _ _)
  | case5 b rest hb frame after hread outcomes pending hscan ih =>
      obtain ⟨-, -, hrest⟩ := written_of_read hread
      rw [hscan] at ih
      refine ih.trans ?_
      rw [hrest]
      exact ⟨b :: (frame.header ++ frame.body ++
        [Frame.endMark, Bytes.checksum (frame.header ++ frame.body)]), by simp⟩

/-- What a scan leaves pending is nothing, or a start mark behind which the
matter is not settled. -/
theorem scan_pending (limit : Nat) (stream : Bytes) :
    (scan limit stream).2 = [] ∨ ∃ behind,
      (scan limit stream).2 = Frame.startMark :: behind ∧ read limit behind = .unsettled := by
  fun_induction scan limit stream with
  | case1 => exact .inl rfl
  | case2 b rest hb ih => exact ih
  | case3 b rest hb hread =>
      obtain rfl : b = Frame.startMark := by simpa using hb
      exact .inr ⟨rest, rfl, hread⟩
  | case4 b rest hb fault hread outcomes pending hscan ih =>
      rw [hscan] at ih
      exact ih
  | case5 b rest hb frame after hread outcomes pending hscan ih =>
      rw [hscan] at ih
      exact ih

end Stream

/-! ## Abandoning until idle -/

namespace Assembler

theorem abandon_of_pending {assembler : Assembler} {b : UInt8} {swallowed : Bytes}
    (h : assembler.pending = b :: swallowed) :
    ((abandon assembler).1, (abandon assembler).2.pending) =
      (.error (.incomplete (swallowed.length + 1)) :: (Stream.scan assembler.limit swallowed).1,
        (Stream.scan assembler.limit swallowed).2) := by
  rw [← Stage.drive_idle_eq_scan]
  unfold abandon
  rw [h]
  rfl

theorem abandon_of_idle {assembler : Assembler} (h : assembler.isIdle = true) :
    abandon assembler = ([], assembler) := by
  rw [isIdle_iff] at h
  simp [abandon, h]

theorem limit_abandon (assembler : Assembler) :
    (abandon assembler).2.limit = assembler.limit := by
  unfold abandon
  split <;> rfl

theorem Resumable.abandon {assembler : Assembler} (h : assembler.Resumable) :
    (Assembler.abandon assembler).2.Resumable := by
  unfold Assembler.abandon
  split
  · exact h
  · exact (Stage.resumable_idle assembler.limit).drive _

theorem length_pending_abandon_lt {assembler : Assembler} (h : ¬ assembler.isIdle = true) :
    (abandon assembler).2.pending.length < assembler.pending.length := by
  rw [isIdle_iff] at h
  obtain ⟨b, swallowed, hpending⟩ := List.exists_cons_of_ne_nil h
  have hscan := (Prod.mk.inj (abandon_of_pending hpending)).2
  have hsuffix := (Stream.scan_pending_suffix assembler.limit swallowed).length_le
  rw [hscan, hpending, List.length_cons]
  omega

/-- Abandons again and again until no frame is in progress, and answers what
each call settled. -/
def abandonAll (assembler : Assembler) : List (List Outcome) × Assembler :=
  if _h : assembler.isIdle then ([], assembler)
  else
    let settled := abandon assembler
    let later := abandonAll settled.2
    (settled.1 :: later.1, later.2)
termination_by assembler.pending.length
decreasing_by exact length_pending_abandon_lt _h

/-- A resumable assembler pends on nothing, or on a start mark behind which
the matter is not settled. -/
theorem Resumable.pending {assembler : Assembler} (h : assembler.Resumable) :
    assembler.pending = [] ∨ ∃ behind, assembler.pending = Frame.startMark :: behind ∧
      Stream.read assembler.limit behind = .unsettled := by
  have hscan := Stage.drive_idle_eq_scan assembler.limit assembler.pending
  rw [Assembler.pending, show Stage.drive _ _ _ [] = _ from h] at hscan
  have hpending := Stream.scan_pending assembler.limit assembler.stage.pending
  rwa [← hscan] at hpending

theorem isIdle_abandonAll (assembler : Assembler) : (abandonAll assembler).2.isIdle = true := by
  fun_induction abandonAll assembler with
  | case1 assembler h => exact h
  | case2 assembler h settled later ih => exact ih

/-- One call settles the frames that lie in front of what it leaves pending. -/
theorem Resumable.frames_abandon {assembler : Assembler} (h : assembler.Resumable) :
    Outcome.frames (Assembler.abandon assembler).1 ++
        Stream.frames assembler.limit (Assembler.abandon assembler).2.pending =
      Stream.frames assembler.limit assembler.pending := by
  obtain hnil | ⟨behind, hpending, hread⟩ := h.pending
  · simp [Assembler.abandon, hnil]
  · obtain ⟨hsettled, hleft⟩ := Prod.mk.inj (abandon_of_pending hpending)
    rw [hsettled, hleft, hpending, Outcome.frames_error,
      Stream.frames_startMark_of_not_found (by simp [hread]),
      Stream.frames_eq_scan assembler.limit behind]

/-- One call uses up a start mark that was pending. -/
theorem Resumable.count_pending_abandon_lt {assembler : Assembler} (h : assembler.Resumable)
    (hbusy : ¬ assembler.isIdle = true) :
    (Assembler.abandon assembler).2.pending.count Frame.startMark <
      assembler.pending.count Frame.startMark := by
  rw [isIdle_iff] at hbusy
  obtain hnil | ⟨behind, hpending, -⟩ := h.pending
  · exact absurd hnil hbusy
  have hleft := (Prod.mk.inj (abandon_of_pending hpending)).2
  have hcount := (Stream.scan_pending_suffix assembler.limit behind).sublist.count_le
    Frame.startMark
  rw [hleft, hpending, List.count_cons_self]
  omega

/-- Abandoning until idle delivers the frames of the pending octets. -/
theorem abandonAll_frames {assembler : Assembler} (h : assembler.Resumable) :
    Outcome.frames (abandonAll assembler).1.flatten =
      Stream.frames assembler.limit assembler.pending := by
  fun_induction abandonAll assembler with
  | case1 assembler hidle =>
      rw [isIdle_iff] at hidle
      rw [hidle, Stream.frames_nil]
      rfl
  | case2 assembler hidle settled later ih =>
      have ih := ih h.abandon
      simp only [settled, later, List.flatten_cons, Outcome.frames_append] at ih ⊢
      rw [ih, limit_abandon, h.frames_abandon]

/-- Every call uses up a start mark that was pending. -/
theorem length_abandonAll_le {assembler : Assembler} (h : assembler.Resumable) :
    (abandonAll assembler).1.length ≤ assembler.pending.count Frame.startMark := by
  fun_induction abandonAll assembler with
  | case1 assembler hidle => simp
  | case2 assembler hidle settled later ih =>
      have hcount := h.count_pending_abandon_lt hidle
      have ih := ih h.abandon
      simp only [settled, later, List.length_cons] at ih ⊢
      omega

/-- **Salvage**: feeding a stream in pieces and then abandoning until idle
delivers exactly the frames of the stream, in no more calls than start marks
were pending; a frame written in the stream that is not delivered is overlapped
by one delivered before it. -/
theorem salvage_eq_frames (limit : Nat) (pieces : List Bytes) :
    let fed := feedAll pieces { limit }
    let salvaged := abandonAll fed.2
    let stream := pieces.flatten
    let delivered := Stream.occurrences limit 0 stream
    Outcome.frames (fed.1 ++ salvaged.1.flatten) = Stream.frames limit stream ∧
      salvaged.2.isIdle = true ∧
      salvaged.1.length ≤ fed.2.pending.count Frame.startMark ∧
      Stream.frames limit stream = delivered.map Stream.Occurrence.frame ∧
      ∀ occurrence : Stream.Occurrence, occurrence.Within limit 0 stream →
        occurrence ∈ delivered ∨
          ∃ earlier ∈ delivered,
            earlier.start < occurrence.start ∧ occurrence.start < earlier.stop := by
  intro fed salvaged stream delivered
  have hfed : fed = feed stream { limit } := feedAll_eq_feed pieces { limit }
  have hresumable : fed.2.Resumable := by
    rw [hfed]
    exact (resumable_new limit).feed stream
  have hscan := (resumable_new limit).feed_eq_scan stream
  rw [← hfed] at hscan
  obtain ⟨hsettled, hpending⟩ := Prod.mk.inj hscan
  refine ⟨?_, isIdle_abandonAll fed.2, length_abandonAll_le hresumable,
    Stream.frames_eq_map_occurrences limit 0 stream,
    fun occurrence => Stream.occurrences_complete limit 0 stream⟩
  have hlimit : fed.2.limit = limit := by rw [hfed, limit_feed]
  rw [Outcome.frames_append, abandonAll_frames hresumable, hsettled, hpending, hlimit,
    Stream.frames_eq_scan limit stream]
  rfl

/-- A false start claims nine octets, among them a whole frame. -/
theorem salvage_of_swallowed :
    let frame : Frame := ⟨0x21, Frame.replyMarker, [7]⟩
    let pieces : List Bytes :=
      [[Frame.startMark, 0x20], [Frame.replyMarker, 0, 9], wrap (frame.header ++ frame.body)]
    let fed := feedAll pieces { limit := 16 }
    let delivered := Stream.occurrences 16 0 pieces.flatten
    fed.1 = [] ∧ Outcome.frames (fed.1 ++ (abandonAll fed.2).1.flatten) = [frame] ∧
      Stream.Occurrence.Within 16 0 pieces.flatten ⟨5, frame⟩ ∧
      (⟨5, frame⟩ ∈ delivered ∨
        ∃ earlier ∈ delivered, earlier.start < 5 ∧ 5 < earlier.stop) := by
  intro frame pieces fed delivered
  obtain ⟨hframes, -, -, -, hcomplete⟩ := salvage_eq_frames 16 pieces
  have hwithin : Stream.Occurrence.Within 16 0 pieces.flatten ⟨5, frame⟩ :=
    ⟨by decide, by decide, wrap (frame.header ++ frame.body), rfl, by decide⟩
  have hfound : Stream.frames 16 pieces.flatten = [frame] := by decide +kernel
  refine ⟨by decide +kernel, hframes.trans hfound, hwithin, ?_⟩
  exact hcomplete ⟨5, frame⟩ hwithin

end Assembler

end PeripheralHost
