import PeripheralHost.Proofs.WrittenFrames

/-!
# What is written is read back

Frames are written one after the other, and between them the line may carry other
octets, as long as none of them is a start mark: nobody could tell such a filler
from the beginning of a frame. What stands inside a frame is free. A body full of
marks does no harm, because an assembler that has begun with a written frame
counts octets up to its end and looks for no mark on the way.

So an idle assembler gets out of such a stream the frames that went into it and
nothing else, and is idle again (`Stream.scan_spaced`). What the assembler did
before it was idle leaves no trace, and neither does the way the stream is cut.
Ahead of the last octet of a frame the assembler settles nothing and waits
(`Stream.scan_cut`).

## Main results

* `Stream.scan_spaced` — the scan of frames and fillers.
* `Stream.scan_cut` — the scan of the beginning of a written frame.
* `Assembler.feedAll_spaced` — the same of an assembler that is idle.
-/

namespace PeripheralHost

theorem Frame.exists_encode {frame : Frame} (h : frame.body.length ≤ maxBody) :
    ∃ written, frame.encode = .ok written :=
  ⟨_, encode_eq_ok_iff.mpr ⟨h, rfl⟩⟩

namespace Stream

variable {limit : Nat}

/-! ## Frames and fillers -/

/-- Frames as they are written one after the other, each behind a filler of its
own, and the filler `last` behind them all. -/
def spaced (last : Bytes) : List (Bytes × Frame) → Except FrameError Bytes
  | [] => .ok last
  | (filler, frame) :: later => do
      let written ← frame.encode
      let rest ← spaced last later
      return filler ++ (written ++ rest)

theorem spaced_cons {last filler written rest : Bytes} {frame : Frame}
    {later : List (Bytes × Frame)} (hwritten : frame.encode = .ok written)
    (hrest : spaced last later = .ok rest) :
    spaced last ((filler, frame) :: later) = .ok (filler ++ (written ++ rest)) := by
  rw [spaced, hwritten, hrest]
  rfl

/-- A scan passes over octets none of which is a start mark. -/
theorem scan_filler {filler : Bytes} (h : Frame.startMark ∉ filler) (rest : Bytes) :
    scan limit (filler ++ rest) = scan limit rest := by
  induction filler with
  | nil => rfl
  | cons b filler ih =>
      have hfirst : b ≠ Frame.startMark := fun heq => h (heq ▸ List.mem_cons_self)
      rw [List.cons_append, scan_of_ne_startMark _ hfirst]
      exact ih fun hmem => h (List.mem_cons_of_mem _ hmem)

/-- Frames within the limit can be written among fillers, and the scan of the
result finds them all, refuses nothing and leaves nothing. -/
theorem scan_spaced {last : Bytes} (hlast : Frame.startMark ∉ last)
    {row : List (Bytes × Frame)}
    (hrow : ∀ entry ∈ row, Frame.startMark ∉ entry.1 ∧
      entry.2.body.length ≤ min limit Frame.maxBody) :
    ∃ stream, spaced last row = .ok stream ∧
      scan limit stream = (row.map fun entry => .ok entry.2, []) := by
  induction row with
  | nil =>
      refine ⟨last, rfl, ?_⟩
      have hscan := @scan_filler limit last hlast []
      rwa [List.append_nil, scan] at hscan
  | cons entry later ih =>
      obtain ⟨filler, frame⟩ := entry
      obtain ⟨hfiller, hlength⟩ := hrow _ List.mem_cons_self
      have hlimit : frame.body.length ≤ limit := Nat.le_trans hlength (Nat.min_le_left _ _)
      have hfits : frame.body.length ≤ Frame.maxBody := Nat.le_trans hlength (Nat.min_le_right _ _)
      obtain ⟨written, hwritten⟩ := Frame.exists_encode hfits
      obtain ⟨rest, hrest, hscan⟩ := ih fun entry hmem => hrow entry (List.mem_cons_of_mem _ hmem)
      refine ⟨_, spaced_cons hwritten hrest, ?_⟩
      rw [scan_filler hfiller, scan_written hlimit hwritten, hscan, List.map_cons]

/-! ## The beginning of a frame -/

/-- Without its last octets a written frame settles nothing and stays pending. A
frame found there would be the whole frame, and a refusal would be one of it. -/
theorem scan_cut {frame : Frame} {front back : Bytes} (hlimit : frame.body.length ≤ limit)
    (hwritten : frame.encode = .ok (front ++ back)) (hfront : front ≠ []) (hback : back ≠ []) :
    scan limit front = ([], front) := by
  have hwhole := scan_written hlimit hwritten []
  rw [List.append_nil, scan, scan_append] at hwhole
  have hsettled := (Prod.mk.inj hwhole).1
  obtain ⟨behind, rfl⟩ : ∃ behind, front = Frame.startMark :: behind := by
    obtain ⟨octets, hoctets⟩ := Frame.exists_behind hwritten
    obtain ⟨b, behind, rfl⟩ := List.exists_cons_of_ne_nil hfront
    rw [List.cons_append, List.cons.injEq] at hoctets
    exact ⟨behind, by rw [hoctets.1]⟩
  cases hread : read limit behind with
  | unsettled => exact scan_of_unsettled hread
  | refused fault =>
      rw [scan_of_refused hread] at hsettled
      simp at hsettled
  | found other rest =>
      rw [scan_startMark hread, List.cons_append, List.cons.injEq, Except.ok.injEq] at hsettled
      obtain ⟨-, found, hfound, hcut⟩ := read_eq_found_iff.mp hread
      rw [hsettled.1, hwritten, Except.ok.injEq] at hfound
      have hlengths := congrArg List.length hcut
      rw [← hfound, List.length_append, List.length_append] at hlengths
      have hmore := List.length_pos_iff.mpr hback
      omega

end Stream

namespace Assembler

/-- **Round trip**: whatever it did before, an idle assembler that is fed frames
within the limit among fillers without a start mark, in any pieces, answers these
frames in order and no refusal, and is idle afterwards. Fed the beginning of a
written frame, but not the whole, it answers nothing and is not idle. -/
theorem feedAll_spaced {assembler : Assembler} (hidle : assembler.isIdle = true) :
    (∀ (row : List (Bytes × Frame)) (last : Bytes),
      (∀ entry ∈ row, Frame.startMark ∉ entry.1 ∧
        entry.2.body.length ≤ min assembler.limit Frame.maxBody) →
      Frame.startMark ∉ last →
        ∃ stream, Stream.spaced last row = .ok stream ∧
          ∀ pieces : List Bytes, pieces.flatten = stream →
            (feedAll pieces assembler).1 = row.map (fun entry => .ok entry.2) ∧
              (feedAll pieces assembler).2.isIdle = true) ∧
      ∀ (frame : Frame) (front back : Bytes), frame.body.length ≤ assembler.limit →
        frame.encode = .ok (front ++ back) → front ≠ [] → back ≠ [] →
          ∀ pieces : List Bytes, pieces.flatten = front →
            (feedAll pieces assembler).1 = [] ∧ (feedAll pieces assembler).2.isIdle = false := by
  constructor
  · intro row last hrow hlast
    obtain ⟨stream, hstream, hscan⟩ := Stream.scan_spaced hlast hrow
    refine ⟨stream, hstream, ?_⟩
    rintro pieces rfl
    have hfed := feed_of_idle hidle pieces.flatten
    rw [hscan, ← feedAll_eq_feed] at hfed
    obtain ⟨hsettled, hpending⟩ := Prod.mk.inj hfed
    exact ⟨hsettled, isIdle_iff.mpr hpending⟩
  · rintro frame front back hlimit hwritten hfront hback pieces rfl
    have hfed := feed_of_idle hidle pieces.flatten
    rw [Stream.scan_cut hlimit hwritten hfront hback, ← feedAll_eq_feed] at hfed
    obtain ⟨hsettled, hpending⟩ := Prod.mk.inj hfed
    refine ⟨hsettled, ?_⟩
    rw [Bool.eq_false_iff, ne_eq, isIdle_iff, hpending]
    exact hfront

/-- The assembler is idle behind a refusal. Of the two frames it is fed, one has
marks for a body and the other has none; the second is also cut behind its end
mark. -/
theorem feedAll_spaced_of_marks :
    let assembler := (feed [Frame.startMark, 9, 9, 0, 9] { limit := 4 }).2
    let marks : Frame := ⟨Frame.startMark, Frame.endMark, [2, 3, 2]⟩
    let empty : Frame := ⟨0x20, Frame.replyMarker, []⟩
    let row := [([0xFF, 3], marks), ([], empty)]
    let front := [Frame.startMark, 0x20, Frame.replyMarker, 0, 0, Frame.endMark]
    assembler.isIdle = true ∧
      (∃ stream, Stream.spaced [3] row = .ok stream ∧ stream.length = 20 ∧
        (feedAll (stream.map fun b => [b]) assembler).1 = [.ok marks, .ok empty] ∧
        (feedAll (stream.map fun b => [b]) assembler).2.isIdle = true) ∧
      empty.encode = .ok (front ++ [0x6F]) ∧ (feedAll [front] assembler).1 = [] ∧
      (feedAll [front] assembler).2.isIdle = false := by
  intro assembler marks empty row front
  have hidle : assembler.isIdle = true := by decide +kernel
  have hrow : ∀ entry ∈ row, Frame.startMark ∉ entry.1 ∧
      entry.2.body.length ≤ min assembler.limit Frame.maxBody := by decide +kernel
  obtain ⟨hwhole, hcut⟩ := feedAll_spaced hidle
  obtain ⟨stream, hstream, hfed⟩ := hwhole row [3] hrow (by decide)
  have hlength : stream.length = 20 := by
    obtain rfl := Except.ok.inj hstream
    rfl
  obtain ⟨hsettled, hstill⟩ := hfed (stream.map fun b => [b]) (List.flatMap_singleton' stream)
  have hwritten : empty.encode = .ok (front ++ [0x6F]) :=
    Frame.encode_eq_ok_iff.mpr (by decide +kernel)
  obtain ⟨hnothing, hbusy⟩ := hcut empty front [0x6F] (Nat.zero_le _) hwritten
    (List.cons_ne_nil _ _) (List.cons_ne_nil _ _) [front] (List.append_nil _)
  exact ⟨hidle, ⟨stream, hstream, hlength, hsettled, hstill⟩, hwritten, hnothing, hbusy⟩

end Assembler

end PeripheralHost
