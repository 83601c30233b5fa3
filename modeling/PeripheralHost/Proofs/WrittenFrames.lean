import PeripheralHost.Proofs.WholeStream

/-!
# Reading finds exactly what writing produces

`Frame.encode` composes a frame and measures its body; `Stream.read` takes the
measure from the header and looks for the marks at the places it dictates.
The two fit together without a gap: a frame is read behind a start mark
exactly if its written form stands there, start mark included
(`Stream.read_eq_found_iff`). The question put to the stream by
`Stream.frameAt`, whether the written form of some frame begins here, has the
same answer (`Stream.frameAt_eq_some_iff`), so the two walks over a stream take
the same frames wherever they stop at the same place.

## Main results

* `Frame.encode_eq_ok_iff` — what can be written, and how.
* `Stream.read_eq_found_iff`, `Stream.frameAt_eq_some_iff` — reading a frame
  and finding its written form are the same.
* `Stream.scan_written` — frames written one after the other are all found.
-/

namespace PeripheralHost

/-! ## The written form -/

namespace Frame

theorem encode_eq_ok_iff {frame : Frame} {written : Bytes} :
    frame.encode = .ok written ↔
      frame.body.length ≤ maxBody ∧ written = wrap (frame.header ++ frame.body) := by
  unfold encode payload
  by_cases hlong : frame.body.length > maxBody
  · simp [hlong, Nat.not_le.mpr hlong]
  · simp [hlong, Nat.not_lt.mp hlong, eq_comm]

theorem exists_behind {frame : Frame} {written : Bytes} (h : frame.encode = .ok written) :
    ∃ behind, written = startMark :: behind := by
  obtain ⟨-, rfl⟩ := encode_eq_ok_iff.mp h
  exact ⟨_, rfl⟩

/-- The header of a frame that can be written declares the length of its body. -/
theorem exists_header_bytes {frame : Frame} (h : frame.body.length ≤ maxBody) :
    ∃ head : Header, head.bytes = frame.header ∧ head.command = frame.command ∧
      head.marker = frame.marker ∧ head.bodyLength = frame.body.length := by
  obtain ⟨high, low, hpair⟩ : ∃ high low, Bytes.bigEndian 2 frame.body.length = [high, low] :=
    ⟨_, _, rfl⟩
  have hlength : Bytes.ofBigEndian [high, low] = frame.body.length := by
    rw [← hpair, Bytes.ofBigEndian_bigEndian]
    exact Nat.mod_eq_of_lt (Nat.lt_of_le_of_lt h (by decide))
  exact ⟨⟨frame.command, frame.marker, high, low⟩, by simp [Header.bytes, header, hpair], rfl, rfl,
    hlength⟩

theorem header_eq_bytes (head : Header) {body : Bytes} (h : body.length = head.bodyLength) :
    header ⟨head.command, head.marker, body⟩ = head.bytes := by
  have hpair := Bytes.bigEndian_ofBigEndian [head.high, head.low]
  simp only [header, h, Header.bodyLength, Header.bytes]
  rw [show (2 : Nat) = [head.high, head.low].length from rfl, hpair]

end Frame

theorem Header.bodyLength_le (head : Header) : head.bodyLength ≤ Frame.maxBody := by
  have hlt := Bytes.ofBigEndian_lt [head.high, head.low]
  simp only [List.length_cons, List.length_nil] at hlt
  simp only [Header.bodyLength, Frame.maxBody]
  omega

/-! ## Reading it -/

namespace Stream

theorem read_written {limit : Nat} {frame : Frame} (hlimit : frame.body.length ≤ limit)
    (hfits : frame.body.length ≤ Frame.maxBody) (rest : Bytes) :
    read limit (frame.header ++ frame.body ++
      Frame.endMark :: Bytes.checksum (frame.header ++ frame.body) :: rest) =
        .found frame rest := by
  obtain ⟨head, hbytes, hcommand, hmarker, hlength⟩ := Frame.exists_header_bytes hfits
  have hbig : ¬ head.bodyLength > limit := by omega
  rw [← hbytes, List.append_assoc, read_bytes, if_neg hbig, hlength, List.drop_left,
    List.take_left, Bytes.checksum_append, hcommand, hmarker]
  simp

theorem written_of_read {limit : Nat} {behind rest : Bytes} {frame : Frame}
    (h : read limit behind = .found frame rest) :
    frame.body.length ≤ limit ∧ frame.body.length ≤ Frame.maxBody ∧
      behind = frame.header ++ frame.body ++
        Frame.endMark :: Bytes.checksum (frame.header ++ frame.body) :: rest := by
  by_cases hshort : behind.length < 4
  · rw [read_header_cut limit hshort] at h
    simp at h
  obtain ⟨head, content, rfl⟩ := exists_header (Nat.not_lt.mp hshort)
  rw [read_bytes] at h
  split at h
  · simp at h
  next hbig =>
  have hparts := List.take_append_drop head.bodyLength content
  have hlength : content.drop head.bodyLength ≠ [] →
      (content.take head.bodyLength).length = head.bodyLength := by
    intro hmore
    have := List.length_pos_iff.mpr hmore
    rw [List.length_drop] at this
    rw [List.length_take]
    omega
  match hdrop : content.drop head.bodyLength with
  | [] => simp [hdrop] at h
  | [mark] =>
      simp only [hdrop] at h
      split at h <;> simp at h
  | mark :: found :: after =>
      simp only [hdrop] at h
      split at h
      · simp at h
      next hmark =>
      split at h
      · simp at h
      next hfound =>
      simp only [ne_eq, Decidable.not_not] at hmark hfound
      simp only [Reading.found.injEq] at h
      obtain ⟨rfl, rfl⟩ := h
      have hbody := hlength (by simp [hdrop])
      have hmax := head.bodyLength_le
      refine ⟨by simp only [hbody]; omega, by simp only [hbody]; exact hmax, ?_⟩
      rw [Frame.header_eq_bytes head hbody, Bytes.checksum_append, ← hfound, ← hmark,
        List.append_assoc]
      simp only
      rw [← hdrop, hparts]

/-- **Reading is the inverse of writing**: a frame is read behind a start mark
exactly if its body is within the limit and its written form stands there. -/
theorem read_eq_found_iff {limit : Nat} {behind rest : Bytes} {frame : Frame} :
    read limit behind = .found frame rest ↔
      frame.body.length ≤ limit ∧
        ∃ written, frame.encode = .ok written ∧ Frame.startMark :: behind = written ++ rest := by
  constructor
  · intro h
    obtain ⟨hlimit, hfits, hbehind⟩ := written_of_read h
    exact ⟨hlimit, _, Frame.encode_eq_ok_iff.mpr ⟨hfits, rfl⟩, by simp [wrap, hbehind]⟩
  · rintro ⟨hlimit, written, hwritten, hbehind⟩
    obtain ⟨hfits, rfl⟩ := Frame.encode_eq_ok_iff.mp hwritten
    have hread := read_written hlimit hfits rest
    simp only [wrap, List.cons_append, List.append_assoc, List.cons.injEq, true_and,
      List.nil_append] at hbehind
    rw [hbehind, ← hread, List.append_assoc]

/-! ## Asking whether it begins here -/

theorem candidate_written {frame : Frame} (hfits : frame.body.length ≤ Frame.maxBody)
    (rest : Bytes) : candidate (wrap (frame.header ++ frame.body) ++ rest) = some frame := by
  obtain ⟨head, hbytes, hcommand, hmarker, hlength⟩ := Frame.exists_header_bytes hfits
  have htake : ((frame.body ++ [Frame.endMark, Bytes.checksum (frame.header ++ frame.body)]) ++
      rest).take frame.body.length = frame.body := by
    rw [List.append_assoc, List.take_left]
  rw [← hbytes] at htake ⊢
  simp only [wrap, Header.bytes, List.cons_append, List.nil_append, candidate,
    ← show head.bodyLength = Bytes.ofBigEndian [head.high, head.low] from rfl, hlength,
    hcommand, hmarker] at htake ⊢
  rw [htake]

theorem frameAt_eq_some_iff {limit : Nat} {stream rest : Bytes} {frame : Frame} :
    frameAt limit stream = some (frame, rest) ↔
      frame.body.length ≤ limit ∧
        ∃ written, frame.encode = .ok written ∧ stream = written ++ rest := by
  constructor
  · intro h
    unfold frameAt at h
    split at h
    · simp at h
    next found hcandidate =>
    split at h
    · simp at h
    next written hwritten =>
    split at h
    · next hfits =>
        simp only [Option.some.injEq, Prod.mk.injEq] at h
        obtain ⟨rfl, rfl⟩ := h
        exact ⟨hfits.1, written, hwritten, (List.prefix_iff_eq_append.mp hfits.2).symm⟩
    · simp at h
  · rintro ⟨hlimit, written, hwritten, rfl⟩
    obtain ⟨hfits, rfl⟩ := Frame.encode_eq_ok_iff.mp hwritten
    unfold frameAt
    rw [candidate_written hfits]
    simp [hwritten, hlimit]

/-- Behind a start mark, asking and reading give the same answer. -/
theorem frameAt_startMark_iff {limit : Nat} {behind rest : Bytes} {frame : Frame} :
    frameAt limit (Frame.startMark :: behind) = some (frame, rest) ↔
      read limit behind = .found frame rest := by
  rw [frameAt_eq_some_iff, read_eq_found_iff]

theorem frameAt_of_ne_startMark (limit : Nat) {b : UInt8} (rest : Bytes)
    (h : b ≠ Frame.startMark) : frameAt limit (b :: rest) = none := by
  match hfound : frameAt limit (b :: rest) with
  | none => rfl
  | some (frame, after) =>
      obtain ⟨-, written, hwritten, hstream⟩ := frameAt_eq_some_iff.mp hfound
      obtain ⟨-, rfl⟩ := Frame.encode_eq_ok_iff.mp hwritten
      simp only [wrap, List.cons_append, List.cons.injEq] at hstream
      exact absurd hstream.1 h

/-! ## Scanning written frames -/

theorem scan_of_ne_startMark {limit : Nat} {b : UInt8} (rest : Bytes) (h : b ≠ Frame.startMark) :
    scan limit (b :: rest) = scan limit rest := by
  rw [scan]
  simp [h]

theorem scan_of_unsettled {limit : Nat} {behind : Bytes} (h : read limit behind = .unsettled) :
    scan limit (Frame.startMark :: behind) = ([], Frame.startMark :: behind) := by
  rw [scan]
  simp only [ne_eq, not_true_eq_false, if_false]
  split <;> rename_i hread <;> rw [h] at hread <;> cases hread

theorem scan_of_refused {limit : Nat} {behind : Bytes} {fault : FrameError}
    (h : read limit behind = .refused fault) :
    scan limit (Frame.startMark :: behind) =
      (.error fault :: (scan limit behind).1, (scan limit behind).2) := by
  rw [scan]
  simp only [ne_eq, not_true_eq_false, if_false]
  split <;> rename_i hread <;> rw [h] at hread <;> cases hread
  rfl

theorem scan_startMark {limit : Nat} {behind rest : Bytes} {frame : Frame}
    (h : read limit behind = .found frame rest) :
    scan limit (Frame.startMark :: behind) =
      (.ok frame :: (scan limit rest).1, (scan limit rest).2) := by
  rw [scan]
  simp only [ne_eq, not_true_eq_false, if_false]
  split <;> rename_i hread <;> rw [h] at hread <;> cases hread
  rfl

/-- A written frame at the front of a stream is found first. -/
theorem scan_written {limit : Nat} {frame : Frame} {written : Bytes}
    (hlimit : frame.body.length ≤ limit) (hwritten : frame.encode = .ok written) (rest : Bytes) :
    scan limit (written ++ rest) = (.ok frame :: (scan limit rest).1, (scan limit rest).2) := by
  obtain ⟨behind, rfl⟩ := Frame.exists_behind hwritten
  rw [List.cons_append]
  exact scan_startMark (read_eq_found_iff.mpr ⟨hlimit, _, hwritten, rfl⟩)

/-- Frames written one after the other are all found, and nothing is left. -/
theorem scan_flatten {limit : Nat} {frames : List Frame} {pieces : List Bytes}
    (hlimit : ∀ frame ∈ frames, frame.body.length ≤ limit)
    (hpieces : frames.map Frame.encode = pieces.map .ok) :
    scan limit pieces.flatten = (frames.map .ok, []) := by
  induction frames generalizing pieces with
  | nil =>
      rw [List.map_nil, eq_comm, List.map_eq_nil_iff] at hpieces
      rw [hpieces, List.flatten_nil, scan, List.map_nil]
  | cons frame frames ih =>
      obtain ⟨written, later, rfl, hwritten, hlater⟩ := List.map_eq_cons_iff.mp hpieces.symm
      have hfirst := hlimit frame List.mem_cons_self
      have hrest := ih (fun frame hmem => hlimit frame (List.mem_cons_of_mem _ hmem)) hlater.symm
      rw [List.flatten_cons, scan_written hfirst hwritten.symm, hrest, List.map_cons]

end Stream

end PeripheralHost
