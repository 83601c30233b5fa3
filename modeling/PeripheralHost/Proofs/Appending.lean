import PeripheralHost.Proofs.WrittenFrames

/-!
# A buffer is extended by a whole written form or not at all

An encoder is given a buffer that holds something already, and puts its octets behind
that, one part after the other (`Writing`). Nothing takes back what was put, so an
encoder that looked at the length of a body too late would leave the beginning of a frame
in the buffer when it fails. The encoders look first: `Frame.writePayload` before it puts
anything, `Frame.write` into a buffer of its own, and `writeRequest` ahead of both by a
check with an error of its own. So each of them does in steps what `appendTo` says it does
at once.

The length that stands in front of a body is exact, since no body is written whose length
two octets cannot hold. Hence a written form says itself where it ends: it is not the
beginning of another, and neither the frames nor the places at which one ends and the next
begins are lost when written forms stand one behind the other.

## Main results

* `Frame.into_writePayload`, `Frame.into_write`, `into_writeRequest` — writing in steps is
  appending at once.
* `Frame.append_inj_of_encode` — no written form is the beginning of another.
* `Frame.encodeAll_inj` — frames can be told from what is written of them.
* `appended_whole_or_not_at_all` — the encoders, for every buffer.
-/

namespace PeripheralHost

/-! ## Writing in steps -/

/-- Writes into a buffer. What was put there stays, also if there is an error later. -/
abbrev Writing := ExceptT FrameError (StateM Bytes)

namespace Writing

variable {α : Type} {buffer : Bytes}

/-- Puts octets behind what the buffer holds. -/
def put (octets : Bytes) : Writing Unit := modify (· ++ octets)

/-- Runs on a buffer: the answer, and the buffer afterwards. -/
def into (buffer : Bytes) (writing : Writing α) : Except FrameError α × Bytes :=
  writing.run.run buffer

@[simp] theorem into_put (octets : Bytes) : into buffer (put octets) = (.ok (), buffer ++ octets) :=
  rfl

@[simp] theorem into_put_bind (octets : Bytes) (next : Unit → Writing α) :
    into buffer (put octets >>= next) = into (buffer ++ octets) (next ()) := rfl

@[simp] theorem into_throw (fault : FrameError) :
    into buffer (throw fault : Writing α) = (.error fault, buffer) := rfl

end Writing

open Writing (put into)

/-- Writes the payload of a frame. -/
def Frame.writePayload (frame : Frame) : Writing Unit :=
  if frame.body.length > maxBody then throw (.bodyTooLarge frame.body.length maxBody)
  else do
    put [frame.command]
    put [frame.marker]
    put (Bytes.bigEndian 2 frame.body.length)
    put frame.body

/-- Writes the marks and the checksum around a payload. -/
def writeWrapped (payload : Bytes) : Writing Unit := do
  put [Frame.startMark]
  put payload
  put [Frame.endMark]
  put [Bytes.checksum payload]

/-- Writes a frame, whose payload is composed in a buffer of its own. -/
def Frame.write (frame : Frame) : Writing Unit :=
  match into [] frame.writePayload with
  | (.ok (), payload) => writeWrapped payload
  | (.error fault, _) => throw fault

/-- Writes a request for `command`. -/
def writeRequest (command : UInt8) (params : Bytes) : Writing Unit :=
  if params.length > Frame.maxBody then throw (.paramsTooLarge params.length)
  else (Frame.request command params).write

theorem Frame.into_writePayload (buffer : Bytes) (frame : Frame) :
    into buffer frame.writePayload = appendTo buffer frame.payload := by
  unfold writePayload payload
  by_cases hlong : frame.body.length > maxBody
  · simp [hlong, appendTo]
  · simp [hlong, appendTo, header]

theorem into_writeWrapped (buffer payload : Bytes) :
    into buffer (writeWrapped payload) = (.ok (), buffer ++ wrap payload) := by
  simp [writeWrapped, wrap]

theorem Frame.into_write (buffer : Bytes) (frame : Frame) :
    into buffer frame.write = appendTo buffer frame.encode := by
  unfold write encode
  rw [into_writePayload]
  cases frame.payload with
  | ok payload => exact into_writeWrapped buffer payload
  | error fault => rfl

theorem into_writeRequest (buffer : Bytes) (command : UInt8) (params : Bytes) :
    into buffer (writeRequest command params) = appendTo buffer (encodeRequest command params) := by
  unfold writeRequest encodeRequest
  split
  · rfl
  · exact Frame.into_write buffer _

/-! ## Written forms side by side -/

namespace Frame

variable {frame other : Frame} {written found rest more octets : Bytes}

theorem payload_eq_ite (frame : Frame) :
    frame.payload =
      if frame.body.length ≤ maxBody then .ok (frame.header ++ frame.body)
      else .error (.bodyTooLarge frame.body.length maxBody) := by
  unfold payload
  by_cases hfits : frame.body.length ≤ maxBody
  · rw [if_neg (Nat.not_lt.mpr hfits), if_pos hfits]
  · rw [if_pos (Nat.not_le.mp hfits), if_neg hfits]

theorem encode_eq_ite (frame : Frame) :
    frame.encode =
      if frame.body.length ≤ maxBody then .ok (wrap (frame.header ++ frame.body))
      else .error (.bodyTooLarge frame.body.length maxBody) := by
  rw [encode, payload_eq_ite]
  by_cases hfits : frame.body.length ≤ maxBody
  · rw [if_pos hfits, if_pos hfits]
  · rw [if_neg hfits, if_neg hfits]

/-- No written form is the beginning of another: the length in front of the body says
where a written form ends. -/
theorem append_inj_of_encode (hwritten : frame.encode = .ok written)
    (hfound : other.encode = .ok found) (h : written ++ rest = found ++ more) :
    frame = other ∧ rest = more := by
  have hframe : Stream.frameAt maxBody (written ++ rest) = some (frame, rest) :=
    Stream.frameAt_eq_some_iff.mpr ⟨(encode_eq_ok_iff.mp hwritten).1, _, hwritten, rfl⟩
  have hother : Stream.frameAt maxBody (found ++ more) = some (other, more) :=
    Stream.frameAt_eq_some_iff.mpr ⟨(encode_eq_ok_iff.mp hfound).1, _, hfound, rfl⟩
  rw [h, hother, Option.some.injEq, Prod.mk.injEq] at hframe
  exact ⟨hframe.1.symm, hframe.2.symm⟩

/-- Frames as they are written one after the other. -/
def encodeAll : List Frame → Except FrameError Bytes
  | [] => .ok []
  | frame :: later => do
      let written ← frame.encode
      let rest ← encodeAll later
      return written ++ rest

theorem encodeAll_cons_eq_ok_iff {later : List Frame} :
    encodeAll (frame :: later) = .ok octets ↔
      ∃ written rest, frame.encode = .ok written ∧ encodeAll later = .ok rest ∧
        octets = written ++ rest := by
  rw [encodeAll]
  cases frame.encode with
  | error fault => simp [bind, Except.bind]
  | ok written =>
      cases encodeAll later with
      | error fault => simp [bind, Except.bind]
      | ok rest => simp [bind, Except.bind, pure, Except.pure, eq_comm]

theorem encodeAll_cons_ne_nil {later : List Frame} (h : encodeAll (frame :: later) = .ok octets) :
    octets ≠ [] := by
  obtain ⟨written, rest, hwritten, -, rfl⟩ := encodeAll_cons_eq_ok_iff.mp h
  obtain ⟨behind, rfl⟩ := exists_behind hwritten
  exact List.cons_ne_nil _ _

/-- Frames can be told from what is written of them, one after the other. -/
theorem encodeAll_inj {frames others : List Frame} (h : encodeAll frames = .ok octets)
    (hothers : encodeAll others = .ok octets) : frames = others := by
  induction frames generalizing others octets with
  | nil =>
      obtain rfl : [] = octets := Except.ok.inj h
      cases others with
      | nil => rfl
      | cons other others => exact absurd rfl (encodeAll_cons_ne_nil hothers)
  | cons frame frames ih =>
      cases others with
      | nil =>
          obtain rfl : [] = octets := Except.ok.inj hothers
          exact absurd rfl (encodeAll_cons_ne_nil h)
      | cons other others =>
          obtain ⟨written, rest, hwritten, hrest, rfl⟩ := encodeAll_cons_eq_ok_iff.mp h
          obtain ⟨found, more, hfound, hmore, hsame⟩ := encodeAll_cons_eq_ok_iff.mp hothers
          obtain ⟨rfl, rfl⟩ := append_inj_of_encode hwritten hfound hsame
          rw [ih hrest hmore]

end Frame

/-! ## The encoders -/

theorem encodeRequest_eq_ite (command : UInt8) (params : Bytes) :
    encodeRequest command params =
      if params.length ≤ Frame.maxBody then (Frame.request command params).encode
      else .error (.paramsTooLarge params.length) := by
  by_cases hfits : params.length ≤ Frame.maxBody
  · rw [if_pos hfits, encodeRequest_eq hfits]
  · rw [if_neg hfits, encodeRequest, if_pos (Nat.not_le.mp hfits)]

theorem appendTo_eq_ok_iff {buffer : Bytes} {written : Except FrameError Bytes} :
    (appendTo buffer written).1 = .ok () ↔ ∃ octets, written = .ok octets := by
  cases written <;> simp [appendTo]

/-- **Encoders append exactly, or not at all.** Let a buffer hold anything, and let an
encoder be given a frame, or a command and parameters, of any length. What it writes in
steps is what is appended at once. Moreover

* a frame whose body has at most 65535 octets is appended as start mark, command, marker,
  two octets of length, body, end mark, and the exclusive or of all between the marks, which
  is as long as the frame says; a frame with a longer body is refused, and the buffer stays
  as it was;
* the same is true of its payload alone;
* a request is appended exactly if its parameters have at most 65535 octets, and octet by
  octet as the frame that carries them; longer parameters are refused as such, and the buffer
  stays as it was;
* frames with one written form are the same frame, and rows of frames that are written
  alike, one frame after the other, are the same row. -/
theorem appended_whole_or_not_at_all (buffer : Bytes) (frame : Frame) (command : UInt8)
    (params : Bytes) :
    let length := frame.body.length
    let payload := frame.command :: frame.marker :: UInt8.ofNat (length / 256) ::
      UInt8.ofNat (length % 256) :: frame.body
    let written := Frame.startMark :: payload ++ [Frame.endMark, payload.foldl (· ^^^ ·) 0]
    (into buffer frame.write = appendTo buffer frame.encode ∧
      into buffer frame.writePayload = appendTo buffer frame.payload ∧
      into buffer (writeRequest command params) =
        appendTo buffer (encodeRequest command params)) ∧
    (appendTo buffer frame.encode =
        if length ≤ 65535 then (.ok (), buffer ++ written)
        else (.error (.bodyTooLarge length 65535), buffer)) ∧
      written.length = frame.wireSize ∧
    (appendTo buffer frame.payload =
        if length ≤ 65535 then (.ok (), buffer ++ payload)
        else (.error (.bodyTooLarge length 65535), buffer)) ∧
    (appendTo buffer (encodeRequest command params) =
        if params.length ≤ 65535 then appendTo buffer (Frame.request command params).encode
        else (.error (.paramsTooLarge params.length), buffer)) ∧
      ((appendTo buffer (encodeRequest command params)).1 = .ok () ↔ params.length ≤ 65535) ∧
    (∀ other octets, frame.encode = .ok octets → other.encode = .ok octets → frame = other) ∧
      ∀ frames others octets, Frame.encodeAll frames = .ok octets →
        Frame.encodeAll others = .ok octets → frames = others := by
  intro length payload written
  have hpayload : frame.header ++ frame.body = payload := by
    have hlow : UInt8.ofNat (length % 256) = UInt8.ofNat length := UInt8.ofNat_mod_size
    simp [Frame.header, Bytes.bigEndian, payload, hlow, length]
  have hwritten : wrap (frame.header ++ frame.body) = written := by
    rw [hpayload]
    rfl
  refine ⟨⟨frame.into_write buffer, frame.into_writePayload buffer,
    into_writeRequest buffer command params⟩, ?_, ?_, ?_, ?_, ?_, ?_, ?_⟩
  · rw [frame.encode_eq_ite, hwritten, apply_ite (appendTo buffer)]
    rfl
  · rw [← hwritten]
    simp only [length_wrap, Frame.header, List.length_append, List.length_cons,
      Bytes.length_bigEndian, Frame.wireSize, Frame.overhead, Frame.headerSize]
    omega
  · rw [frame.payload_eq_ite, hpayload, apply_ite (appendTo buffer)]
    rfl
  · rw [encodeRequest_eq_ite, apply_ite (appendTo buffer)]
    rfl
  · have hrequest : (Frame.request command params).body.length = params.length := rfl
    rw [appendTo_eq_ok_iff, encodeRequest_eq_ite, Frame.encode_eq_ite, hrequest]
    by_cases hfits : params.length ≤ 65535
    · simp [Frame.maxBody, hfits]
    · simp [Frame.maxBody, hfits]
  · intro other octets hframe hother
    have hsame : octets ++ [] = octets ++ [] := rfl
    exact (Frame.append_inj_of_encode hframe hother hsame).1
  · intro frames others octets hframes hothers
    exact Frame.encodeAll_inj hframes hothers

/-- A frame full of marks is appended to a buffer that holds a start mark, parameters of one
octet too many are refused, and only the row of twice that frame is written as it is. -/
theorem appended_beside_refusal :
    let marks : Frame := ⟨Frame.startMark, Frame.endMark, [2, 3, 2]⟩
    let octets : Bytes := [2, 2, 3, 0, 3, 2, 3, 2, 3, 1]
    let params : Bytes := List.replicate 65536 0
    appendTo [2] marks.encode = (.ok (), 2 :: octets) ∧
      appendTo [2] (encodeRequest 0x20 params) = (.error (.paramsTooLarge 65536), [2]) ∧
      Frame.encodeAll [marks, marks] = .ok (octets ++ octets) ∧
      ∀ others, Frame.encodeAll others = .ok (octets ++ octets) → [marks, marks] = others := by
  intro marks octets params
  have hlong : params.length = 65536 := List.length_replicate
  obtain ⟨-, hmarks, -, -, hparams, -, -, halike⟩ :=
    appended_whole_or_not_at_all [2] marks 0x20 params
  have hone : marks.encode = .ok octets := Frame.encode_eq_ok_iff.mpr (by decide +kernel)
  have hrow : Frame.encodeAll [marks, marks] = .ok (octets ++ octets) := by
    simp only [Frame.encodeAll, hone]
    rfl
  refine ⟨?_, ?_, hrow, fun others hothers => halike _ _ _ hrow hothers⟩
  · rw [hmarks, if_pos (by decide), Prod.mk.injEq]
    exact ⟨rfl, by decide +kernel⟩
  · rw [hparams, hlong]
    rfl

end PeripheralHost
