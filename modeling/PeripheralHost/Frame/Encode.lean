import PeripheralHost.Frame.Basic
import PeripheralHost.Frame.Error

/-!
# Frames on the line

The written form of a frame, octet by octet:

    start mark | command | marker | body length (two octets) | body | end mark | checksum

The four parts between the marks are the *payload*, and the checksum is taken
over the payload alone. `wrap` puts marks and checksum around any payload;
`Frame.payload` and `Frame.encode` refuse a body that two octets cannot
measure, and `encodeRequest` refuses such parameters by an error of its own.

An encoder answers the octets it would write, or an error. Appending them to
what a buffer holds already is one operation for all encoders, `appendTo`, so
that a buffer is either extended by the whole written form or left alone.

## Main results

* `length_wrap` — wrapping adds three octets.
* `length_encode` — a written frame is as long as `Frame.wireSize` says.
* `encodeRequest_eq` — within the limit, a request is written as the frame
  that carries its parameters.
-/

namespace PeripheralHost

/-- Appends what an encoder wrote to `buffer`; on an error the buffer stays as
it was. -/
def appendTo (buffer : Bytes) (written : Except FrameError Bytes) :
    Except FrameError Unit × Bytes :=
  match written with
  | .ok bytes => (.ok (), buffer ++ bytes)
  | .error fault => (.error fault, buffer)

/-- Puts the marks and the checksum around a payload. -/
def wrap (payload : Bytes) : Bytes :=
  Frame.startMark :: payload ++ [Frame.endMark, Bytes.checksum payload]

@[simp] theorem length_wrap (payload : Bytes) :
    (wrap payload).length = payload.length + Frame.overhead := by
  simp [wrap, Frame.overhead]

namespace Frame

/-- Command, marker and length of the body. -/
def header (frame : Frame) : Bytes :=
  frame.command :: frame.marker :: Bytes.bigEndian 2 frame.body.length

/-- The payload of a frame. -/
def payload (frame : Frame) : Except FrameError Bytes :=
  if frame.body.length > maxBody then .error (.bodyTooLarge frame.body.length maxBody)
  else .ok (frame.header ++ frame.body)

/-- The written form of a frame. -/
def encode (frame : Frame) : Except FrameError Bytes :=
  match frame.payload with
  | .ok payload => .ok (wrap payload)
  | .error fault => .error fault

theorem length_encode {frame : Frame} {written : Bytes} (h : frame.encode = .ok written) :
    written.length = frame.wireSize := by
  unfold encode payload at h
  split at h
  · next hpayload =>
      split at hpayload
      · simp at hpayload
      · simp only [Except.ok.injEq] at h hpayload
        subst h hpayload
        simp [header, wireSize, headerSize, overhead]
        omega
  · simp at h

end Frame

/-- The written form of a request for `command`. -/
def encodeRequest (command : UInt8) (params : Bytes) : Except FrameError Bytes :=
  if params.length > Frame.maxBody then .error (.paramsTooLarge params.length)
  else (Frame.request command params).encode

theorem encodeRequest_eq {command : UInt8} {params : Bytes} (h : params.length ≤ Frame.maxBody) :
    encodeRequest command params = (Frame.request command params).encode := by
  simp [encodeRequest, Nat.not_lt.mpr h]

end PeripheralHost
