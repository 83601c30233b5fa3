import PeripheralHost.Frame.Assembler

/-!
# Frames in a whole stream

The assembler sees a stream one octet at a time and remembers where it stands.
Here the same question is put to a stream that lies open as a whole, twice,
and neither answer keeps a state.

* `Stream.scan` finds the first start mark, looks at the octets behind it by
  position, and reports the frame there, or the first thing wrong with it, or
  that the stream ends too soon. After a refusal it goes on right behind the
  start mark. It answers the outcomes and the octets left pending.
* `Stream.frames` knows no refusals. At each position it asks whether the
  written form of some frame begins there; if so it takes the frame and skips
  its octets, and otherwise it moves on by one.

## Main results

* `length_rest_lt` — a frame that is found takes octets off the stream, which
  is why both walks end.
-/

namespace PeripheralHost.Stream

/-! ## By position -/

/-- What stands behind a start mark. -/
inductive Reading where
  /-- The stream ends before the matter is settled. -/
  | unsettled
  /-- Something is wrong. -/
  | refused (fault : FrameError)
  /-- A frame, and what follows it. -/
  | found (frame : Frame) (rest : Bytes)
  deriving DecidableEq, Repr

/-- Reads what follows a start mark, for bodies of at most `limit` octets. -/
def read (limit : Nat) (behind : Bytes) : Reading :=
  match behind with
  | command :: marker :: high :: low :: content =>
      let length := Bytes.ofBigEndian [high, low]
      if length > limit then .refused (.bodyTooLarge length limit)
      else
        match content.drop length with
        | [] => .unsettled
        | mark :: rest =>
            if mark ≠ Frame.endMark then .refused (.badTrailer mark)
            else
              match rest with
              | [] => .unsettled
              | found :: rest =>
                  let expected := Bytes.checksum (behind.take (Frame.headerSize + length))
                  if found ≠ expected then .refused (.badChecksum expected found)
                  else .found ⟨command, marker, content.take length⟩ rest
  | _ => .unsettled

theorem length_rest_lt {limit : Nat} {behind rest : Bytes} {frame : Frame}
    (h : read limit behind = .found frame rest) : rest.length < behind.length := by
  unfold read at h
  split at h
  · next content =>
      simp only at h
      split at h
      · simp at h
      · split at h
        · simp at h
        · next high low _ mark after hdrop =>
            split at h
            · simp at h
            · split at h
              · simp at h
              · split at h
                · simp at h
                · simp only [Reading.found.injEq] at h
                  have := congrArg List.length hdrop
                  simp only [List.length_drop, List.length_cons, h.2] at this ⊢
                  omega
  · simp at h

/-- All outcomes of a stream, and the octets left pending at its end. -/
def scan (limit : Nat) : Bytes → List Outcome × Bytes
  | [] => ([], [])
  | b :: rest =>
      if b ≠ Frame.startMark then scan limit rest
      else
        match _h : read limit rest with
        | .unsettled => ([], b :: rest)
        | .refused fault =>
            let (outcomes, pending) := scan limit rest
            (.error fault :: outcomes, pending)
        | .found frame rest =>
            let (outcomes, pending) := scan limit rest
            (.ok frame :: outcomes, pending)
termination_by stream => stream.length
decreasing_by
  · simp
  · simp
  · have := length_rest_lt _h
    simp only [List.length_cons]
    omega

/-! ## By written form -/

/-- The frame whose written form could begin here, judged by the length its
header declares. -/
def candidate : Bytes → Option Frame
  | _ :: command :: marker :: high :: low :: content =>
      some ⟨command, marker, content.take (Bytes.ofBigEndian [high, low])⟩
  | _ => none

/-- The frame whose whole written form begins here, if its body has at most
`limit` octets, and what follows it. -/
def frameAt (limit : Nat) (stream : Bytes) : Option (Frame × Bytes) :=
  match candidate stream with
  | none => none
  | some frame =>
      match frame.encode with
      | .error _ => none
      | .ok written =>
          if frame.body.length ≤ limit ∧ written <+: stream then
            some (frame, stream.drop written.length)
          else none

theorem frameAt_shortens {limit : Nat} {stream rest : Bytes} {frame : Frame}
    (h : frameAt limit stream = some (frame, rest)) : rest.length < stream.length := by
  unfold frameAt at h
  split at h
  · simp at h
  · split at h
    · simp at h
    · next written hwritten =>
        split at h
        · next fits =>
            have := Frame.length_encode hwritten
            have := fits.2.length_le
            simp only [Option.some.injEq, Prod.mk.injEq] at h
            simp only [← h.2, List.length_drop, Frame.wireSize, Frame.overhead] at *
            omega
        · simp at h

/-- The frames of a stream: from left to right, each where it begins, none
overlapping one taken before. -/
def frames (limit : Nat) (stream : Bytes) : List Frame :=
  match _h : frameAt limit stream with
  | some (frame, rest) => frame :: frames limit rest
  | none =>
      match stream with
      | [] => []
      | _ :: rest => frames limit rest
termination_by stream.length
decreasing_by
  · exact frameAt_shortens _h
  · simp

end PeripheralHost.Stream
