import PeripheralHost.Proofs.Salvage

/-!
# One wrong octet

A written frame balances: its checksum stands behind its payload, so the
exclusive or of all its octets is that of the two marks, whatever the frame
(`Frame.checksum_of_encode`). Change one octet and the balance is gone, so what
is left is not the written form of any frame of that length, and a frame that
stands anywhere in it has a shorter body (`Frame.length_body_lt`).

Is there such a frame? Not at the front, if the body holds no end mark: only a
changed length could make the frame there shorter, and then an octet of the body
would have to be its end mark (`Frame.frameAt_front_eq_none`). Behind the front a
frame can begin only where there is a start mark, and that is at an octet of the
length or at the changed octet (`Frame.start_of_frameAt`).

The second case is real. The checksum covers neither the marks nor the place at
which a frame begins, and a frame that begins inside another may be balanced by
the same checksum octet. Then giving up the damaged frame and looking again at
its octets delivers a frame that was never sent (`Assembler.flip_delivers_other`).
Without such a coincidence the damaged frame leaves nothing behind, and in any
case the next frame is delivered (`Assembler.delivered_of_flip`).

## Main results

* `Frame.length_body_lt` — a frame found in a damaged one is shorter than it.
* `Stream.frames_eq_nil_iff` — no frame is taken from a stream in which none
  stands.
* `Assembler.delivered_of_flip` — what one inverted bit leads to.
-/

namespace PeripheralHost

namespace Bytes

/-! ## Strings that differ in one octet -/

/-- Strings of one length that differ in the octet at `place` and nowhere else. -/
structure DifferAt (place : Nat) (left right : Bytes) : Prop where
  length_eq : left.length = right.length
  ne : left[place]? ≠ right[place]?
  eq : ∀ other ≠ place, left[other]? = right[other]?

theorem DifferAt.checksum_ne {place : Nat} {left right : Bytes} (h : DifferAt place left right) :
    checksum left ≠ checksum right := by
  induction left generalizing place right with
  | nil =>
      obtain rfl : right = [] := List.length_eq_zero_iff.mp h.length_eq.symm
      exact absurd rfl h.ne
  | cons b rest ih =>
      obtain ⟨c, after, rfl⟩ : ∃ c after, right = c :: after :=
        List.exists_cons_of_length_eq_add_one h.length_eq.symm
      rw [checksum_cons, checksum_cons]
      cases place with
      | zero =>
          have hne : b ≠ c := by simpa using h.ne
          have hrest : rest = after := by
            apply List.ext_getElem?
            intro other
            simpa using h.eq (other + 1) (Nat.succ_ne_zero other)
          rw [hrest, ne_eq, UInt8.xor_left_inj]
          exact hne
      | succ place =>
          have hfirst : b = c := by simpa using h.eq 0 (Nat.succ_ne_zero place).symm
          have hrest : DifferAt place rest after := by
            refine ⟨by simpa using h.length_eq, by simpa using h.ne, ?_⟩
            intro other hother
            simpa using h.eq (other + 1) (by omega)
          rw [hfirst, ne_eq, UInt8.xor_right_inj]
          exact ih hrest

/-- The string with one bit of the octet at `place` inverted. -/
def flipBit (place : Nat) (bit : Fin 8) (bytes : Bytes) : Bytes :=
  bytes.modify place (· ^^^ 1 <<< UInt8.ofNat bit)

theorem differAt_flipBit {place : Nat} {bytes : Bytes} (bit : Fin 8) (h : place < bytes.length) :
    DifferAt place bytes (flipBit place bit bytes) := by
  have hmask : ∀ bit : Fin 8, (1 : UInt8) <<< UInt8.ofNat bit ≠ 0 := by decide
  constructor
  · simp [flipBit]
  · rw [flipBit, List.getElem?_modify, List.getElem?_eq_getElem h]
    simp only [Option.map_eq_map, Option.map_some, if_true, ne_eq, Option.some.injEq]
    intro heq
    have hzero := (UInt8.xor_right_inj bytes[place]).mp (heq.symm.trans UInt8.xor_zero.symm)
    exact hmask bit hzero
  · intro other hother
    simp [flipBit, hother.symm]

end Bytes

/-! ## Frames in a damaged frame -/

/-- Where a frame stands there is a start mark. -/
theorem Stream.startMark_of_frameAt {limit start : Nat} {stream rest : Bytes} {frame : Frame}
    (h : frameAt limit (stream.drop start) = some (frame, rest)) :
    stream[start]? = some Frame.startMark := by
  obtain ⟨-, written, hwritten, hdrop⟩ := frameAt_eq_some_iff.mp h
  obtain ⟨-, rfl⟩ := Frame.encode_eq_ok_iff.mp hwritten
  have hfirst := congrArg (·[0]?) hdrop
  simpa [wrap] using hfirst

theorem checksum_wrap (payload : Bytes) :
    Bytes.checksum (wrap payload) = Frame.startMark ^^^ Frame.endMark := by
  simp only [wrap, List.cons_append, Bytes.checksum_cons, Bytes.checksum_append, Bytes.checksum_nil]
  rw [UInt8.xor_zero, ← UInt8.xor_assoc (Bytes.checksum payload), UInt8.xor_comm _ Frame.endMark,
    UInt8.xor_assoc Frame.endMark, UInt8.xor_self, UInt8.xor_zero]

namespace Frame

variable {limit place start : Nat} {frame other : Frame} {written damaged rest : Bytes}

/-- A written frame balances. -/
theorem checksum_of_encode (h : frame.encode = .ok written) :
    Bytes.checksum written = startMark ^^^ endMark := by
  obtain ⟨-, rfl⟩ := encode_eq_ok_iff.mp h
  exact checksum_wrap _

/-- The octets of a written frame one by one. -/
theorem exists_octets (h : frame.encode = .ok written) :
    ∃ high low check, Bytes.ofBigEndian [high, low] = frame.body.length ∧
      written = startMark :: frame.command :: frame.marker :: high :: low ::
        (frame.body ++ [endMark, check]) := by
  obtain ⟨hfits, rfl⟩ := encode_eq_ok_iff.mp h
  obtain ⟨head, hbytes, hcommand, hmarker, hlength⟩ := exists_header_bytes hfits
  refine ⟨head.high, head.low, Bytes.checksum (frame.header ++ frame.body), hlength, ?_⟩
  rw [← hbytes, ← hcommand, ← hmarker]
  simp [wrap, Header.bytes]

/-- A frame that stands in a damaged one has a shorter body: at full length it
would take the whole of it, and that does not balance. -/
theorem length_body_lt (hwritten : frame.encode = .ok written)
    (hdiffer : Bytes.DifferAt place written damaged)
    (hfound : Stream.frameAt limit (damaged.drop start) = some (other, rest)) :
    other.body.length < frame.body.length := by
  obtain ⟨-, found, hother, hdrop⟩ := Stream.frameAt_eq_some_iff.mp hfound
  have hlength := congrArg List.length hdrop
  have hsize := length_encode hwritten
  have hfoundSize := length_encode hother
  have hsame := hdiffer.length_eq
  simp only [List.length_drop, List.length_append, wireSize, headerSize, overhead] at *
  refine Nat.lt_of_not_le fun hlong => ?_
  have hrest : rest = [] := List.length_eq_zero_iff.mp (by omega)
  have hstart : start = 0 := by omega
  rw [hstart, List.drop_zero, hrest, List.append_nil] at hdrop
  rw [← hdrop] at hother
  exact hdiffer.checksum_ne
    ((checksum_of_encode hwritten).trans (checksum_of_encode hother).symm)

/-- At the front of a damaged frame whose body holds no end mark there is no
frame. -/
theorem frameAt_front_eq_none (hbody : endMark ∉ frame.body) (hwritten : frame.encode = .ok written)
    (hdiffer : Bytes.DifferAt place written damaged) : Stream.frameAt limit damaged = none := by
  rw [Option.eq_none_iff_forall_not_mem]
  rintro ⟨other, rest⟩ hfound
  rw [Option.mem_def] at hfound
  have hshorter := @length_body_lt limit place 0 frame other written damaged rest hwritten hdiffer
    (by rw [List.drop_zero]; exact hfound)
  obtain ⟨-, found, hother, hdamaged⟩ := Stream.frameAt_eq_some_iff.mp hfound
  obtain ⟨high, low, check, hlength, hwritten⟩ := exists_octets hwritten
  obtain ⟨high', low', check', hlength', hfound⟩ := exists_octets hother
  have hsame := hdiffer.eq
  rw [hwritten, hdamaged, hfound] at hsame
  -- The lengths differ, so the damage is in an octet of the length.
  have hplace : place = 3 ∨ place = 4 := by
    by_cases hthree : place = 3
    · exact .inl hthree
    by_cases hfour : place = 4
    · exact .inr hfour
    have hhigh : high = high' := by simpa using hsame 3 (Ne.symm hthree)
    have hlow : low = low' := by simpa using hsame 4 (Ne.symm hfour)
    rw [hhigh, hlow] at hlength
    omega
  have hmark := hsame (other.body.length + 5) (by omega)
  simp only [List.cons_append, List.append_assoc, List.getElem?_cons_succ] at hmark
  rw [List.getElem?_append_left hshorter, List.getElem?_append_right (Nat.le_refl _),
    Nat.sub_self] at hmark
  exact hbody (List.mem_of_getElem? hmark)

/-- Behind the front of a damaged frame, a frame begins at an octet of the
length or at the changed octet, if the intact frame has no start mark but there
and in front. -/
theorem start_of_frameAt (hcommand : frame.command ≠ startMark) (hmarker : frame.marker ≠ startMark)
    (hbody : startMark ∉ frame.body) (hwritten : frame.encode = .ok written)
    (hdiffer : Bytes.DifferAt place written damaged)
    (hfound : Stream.frameAt limit (damaged.drop start) = some (other, rest)) :
    start = 0 ∨ start = 3 ∨ start = 4 ∨ start = place := by
  have hmark := Stream.startMark_of_frameAt hfound
  obtain ⟨-, found, hother, hdrop⟩ := Stream.frameAt_eq_some_iff.mp hfound
  obtain ⟨high, low, check, -, hoctets⟩ := exists_octets hwritten
  have hlength := congrArg List.length hdrop
  have hfoundSize := length_encode hother
  have hsame := hdiffer.length_eq
  by_cases hplace : start = place
  · exact .inr (.inr (.inr hplace))
  rw [← hdiffer.eq start hplace, hoctets] at hmark
  rw [hoctets] at hsame
  simp only [List.length_drop, List.length_append, List.length_cons, List.length_nil, wireSize,
    headerSize, overhead] at hlength hfoundSize hsame
  rcases start with _ | _ | _ | _ | _ | inner
  · exact .inl rfl
  · exact absurd (by simpa using hmark) hcommand
  · exact absurd (by simpa using hmark) hmarker
  · exact .inr (.inl rfl)
  · exact .inr (.inr (.inl rfl))
  · simp only [List.getElem?_cons_succ] at hmark
    by_cases hinner : inner < frame.body.length
    · rw [List.getElem?_append_left hinner] at hmark
      exact absurd (List.mem_of_getElem? hmark) hbody
    · obtain rfl : inner = frame.body.length := by omega
      rw [List.getElem?_append_right (Nat.le_refl _), Nat.sub_self] at hmark
      simp [startMark, endMark] at hmark

end Frame

/-! ## Streams without a frame -/

namespace Stream

variable {limit : Nat}

/-- A frame taken from a stream stands somewhere in it. -/
theorem exists_frameAt_of_mem {stream : Bytes} {frame : Frame} (h : frame ∈ frames limit stream) :
    ∃ start rest, frameAt limit (stream.drop start) = some (frame, rest) := by
  fun_induction frames limit stream with
  | case1 stream first rest hfirst ih =>
      rcases List.mem_cons.mp h with rfl | hlater
      · exact ⟨0, rest, hfirst⟩
      · obtain ⟨start, after, hfound⟩ := ih hlater
        obtain ⟨-, written, hwritten, rfl⟩ := frameAt_eq_some_iff.mp hfirst
        refine ⟨written.length + start, after, ?_⟩
        rw [List.drop_length_add_append]
        exact hfound
  | case2 hnone => simp at h
  | case3 b rest hnone ih =>
      obtain ⟨start, after, hfound⟩ := ih h
      exact ⟨start + 1, after, hfound⟩

/-- No frame is taken from a stream exactly if none stands in it. -/
theorem frames_eq_nil_iff {stream : Bytes} :
    frames limit stream = [] ↔ ∀ start, frameAt limit (stream.drop start) = none := by
  constructor
  · intro hnil start
    fun_induction frames limit stream generalizing start with
    | case1 stream first rest hfirst ih => simp at hnil
    | case2 hnone => rw [List.drop_nil, hnone]
    | case3 b rest hnone ih =>
        cases start with
        | zero => exact hnone
        | succ start => exact ih hnil start
  · intro hnone
    rw [List.eq_nil_iff_forall_not_mem]
    intro frame hmem
    obtain ⟨start, rest, hfound⟩ := exists_frameAt_of_mem hmem
    rw [hnone start] at hfound
    simp at hfound

end Stream

/-! ## What an assembler makes of it -/

namespace Assembler

/-- Feeding a stream and abandoning until idle delivers the frames of the
stream. -/
theorem frames_feed_abandonAll (limit : Nat) (stream : Bytes) :
    let fed := feed stream { limit }
    Outcome.frames (fed.1 ++ (abandonAll fed.2).1.flatten) = Stream.frames limit stream := by
  intro fed
  have hresumable := (resumable_new limit).feed stream
  obtain ⟨hsettled, hpending⟩ := Prod.mk.inj ((resumable_new limit).feed_eq_scan stream)
  rw [Outcome.frames_append, abandonAll_frames hresumable, hsettled, hpending, limit_feed,
    Stream.frames_eq_scan limit stream]
  rfl

theorem limit_abandonAll (assembler : Assembler) :
    (abandonAll assembler).2.limit = assembler.limit := by
  fun_induction abandonAll assembler with
  | case1 assembler hidle => rfl
  | case2 assembler hidle settled later ih => exact ih.trans (limit_abandon assembler)

/-- An idle assembler delivers a written frame, and nothing else, and is idle
again. -/
theorem feed_written_of_idle {assembler : Assembler} (hidle : assembler.isIdle = true)
    {frame : Frame} {written : Bytes} (hlimit : frame.body.length ≤ assembler.limit)
    (hwritten : frame.encode = .ok written) :
    (feed written assembler).1 = [.ok frame] ∧ (feed written assembler).2.isIdle = true := by
  have hscan := feed_of_idle hidle written
  have hfound := Stream.scan_written hlimit hwritten []
  rw [List.append_nil, Stream.scan] at hfound
  rw [hfound] at hscan
  obtain ⟨hsettled, hpending⟩ := Prod.mk.inj hscan
  exact ⟨hsettled, isIdle_iff.mpr hpending⟩

/-- **One inverted bit**: invert a bit of a written frame that has no start mark
in its command, marker and body, and no end mark in its body; feed the result
and abandon until idle. No frame is delivered exactly if no whole written frame
stands behind the first octet. A frame that is delivered all the same is shorter
than the one written, and begins at a start mark in the length or at the octet
with the inverted bit. The next frame is delivered exactly, in either case. -/
theorem delivered_of_flip (limit : Nat) {frame : Frame} {written : Bytes}
    (hcommand : frame.command ≠ Frame.startMark) (hmarker : frame.marker ≠ Frame.startMark)
    (hbody : ∀ b ∈ frame.body, b ≠ Frame.startMark ∧ b ≠ Frame.endMark)
    (hwritten : frame.encode = .ok written) {place : Nat} (hplace : place < written.length)
    (bit : Fin 8) :
    let damaged := Bytes.flipBit place bit written
    let fed := feed damaged { limit }
    let salvaged := abandonAll fed.2
    let delivered := Outcome.frames (fed.1 ++ salvaged.1.flatten)
    (delivered = [] ↔ ∀ start, 0 < start → Stream.frameAt limit (damaged.drop start) = none) ∧
      (∀ other ∈ delivered, other.body.length < frame.body.length ∧
        ∃ start rest, 0 < start ∧ (start = 3 ∨ start = 4 ∨ start = place) ∧
          damaged[start]? = some Frame.startMark ∧
          Stream.frameAt limit (damaged.drop start) = some (other, rest)) ∧
      ∀ (next : Frame) (behind : Bytes), next.body.length ≤ limit → next.encode = .ok behind →
        (feed behind salvaged.2).1 = [.ok next] ∧ (feed behind salvaged.2).2.isIdle = true := by
  intro damaged fed salvaged delivered
  have hdiffer := Bytes.differAt_flipBit bit hplace
  have hdelivered : delivered = Stream.frames limit damaged := frames_feed_abandonAll limit damaged
  have hfront : Stream.frameAt limit damaged = none :=
    Frame.frameAt_front_eq_none (fun hmem => (hbody _ hmem).2 rfl) hwritten hdiffer
  refine ⟨?_, ?_, ?_⟩
  · rw [hdelivered, Stream.frames_eq_nil_iff]
    refine ⟨fun hnone start _ => hnone start, ?_⟩
    intro hbehind start
    cases start with
    | zero => exact hfront
    | succ start => exact hbehind (start + 1) (Nat.succ_pos start)
  · intro other hmem
    rw [hdelivered] at hmem
    obtain ⟨start, rest, hfound⟩ := Stream.exists_frameAt_of_mem hmem
    have hpositive : start ≠ 0 := by
      rintro rfl
      rw [List.drop_zero, hfront] at hfound
      simp at hfound
    have hstart := (Frame.start_of_frameAt hcommand hmarker (fun hmem => (hbody _ hmem).1 rfl)
      hwritten hdiffer hfound).resolve_left hpositive
    exact ⟨Frame.length_body_lt hwritten hdiffer hfound, start, rest,
      Nat.pos_of_ne_zero hpositive, hstart, Stream.startMark_of_frameAt hfound, hfound⟩
  · intro next behind hlimit hbehind
    refine feed_written_of_idle (isIdle_abandonAll fed.2) ?_ hbehind
    rw [limit_abandonAll]
    exact hlimit

/-- The body is two octets long, so its length has an octet like a start mark, and
the inverted bit makes another of the end mark. No frame begins at either. -/
theorem nothing_delivered_of_flip :
    let frame : Frame := ⟨0x20, Frame.replyMarker, [7, 9]⟩
    let written := wrap (frame.header ++ frame.body)
    let next : Frame := ⟨0x20, Frame.replyMarker, [0, 0, 0, 0, 1]⟩
    let fed := feed (Bytes.flipBit 7 0 written) {}
    let salvaged := abandonAll fed.2
    (∀ b ∈ frame.body, b ≠ Frame.startMark ∧ b ≠ Frame.endMark) ∧ frame.encode = .ok written ∧
      7 < written.length ∧ Outcome.frames (fed.1 ++ salvaged.1.flatten) = [] ∧
      (feed (wrap (next.header ++ next.body)) salvaged.2).1 = [.ok next] := by
  intro frame written next fed salvaged
  have hbody : ∀ b ∈ frame.body, b ≠ Frame.startMark ∧ b ≠ Frame.endMark := by decide +kernel
  have hplace : 7 < written.length := by decide +kernel
  obtain ⟨hnothing, -, hnext⟩ := delivered_of_flip Frame.maxBody
    (show frame.command ≠ Frame.startMark by decide)
    (show frame.marker ≠ Frame.startMark by decide) hbody rfl hplace 0
  refine ⟨hbody, rfl, hplace, hnothing.mpr ?_, (hnext next _ (by decide) rfl).1⟩
  intro start hpositive
  by_cases hinside : start < 9
  · have hnone : ∀ start < 9, 0 < start →
        Stream.frameAt Frame.maxBody ((Bytes.flipBit 7 0 written).drop start) = none := by
      decide +kernel
    exact hnone start hinside hpositive
  · rw [List.drop_eq_nil_of_le (Nat.not_lt.mp hinside)]
    rfl

/-- One bit of the length is inverted, which makes it too great and its upper
octet a start mark. Behind that mark the lower octet, the body and the end of the
frame read as a frame of their own, and abandoning delivers it. -/
theorem flip_delivers_other :
    let frame : Frame := ⟨0x4F, Frame.replyMarker, [0x10, 0, 0]⟩
    let fed := feed (Bytes.flipBit 3 1 (wrap (frame.header ++ frame.body))) {}
    let salvaged := abandonAll fed.2
    frame.command ≠ Frame.startMark ∧ frame.command ≠ Frame.endMark ∧
      (∀ b ∈ frame.body, b ≠ Frame.startMark ∧ b ≠ Frame.endMark) ∧
      Outcome.frames (fed.1 ++ salvaged.1.flatten) = [⟨3, 0x10, []⟩] := by
  decide +kernel

end Assembler

end PeripheralHost
