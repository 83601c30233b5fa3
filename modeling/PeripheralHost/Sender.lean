import PeripheralHost.Frame.Encode
import PeripheralHost.Link.Basic

/-!
# Sending frames over a link

A `Sender` writes a frame to a link in one piece. It composes the frame in a
buffer of its own, which it empties first, so that nothing of an earlier frame
can reach the line with a later one. Only a frame that was composed whole is
offered to the link, and only if the link is open.

A link may report another number of octets than it was offered. Whether it is
less or more, the frame cannot be taken as sent (`FrameError.shortWrite`).

## Main results

* `transmit_of_closed` — on a link that is not open nothing is written.
* `transmit_of_refused` — a frame that cannot be encoded reaches no link.
* `transmit_of_open` — on an open link a frame is written once, in one piece.
-/

namespace PeripheralHost

/-- Composes frames and writes them to a link. -/
structure Sender where
  /-- The frame composed last. -/
  buffer : Bytes := []
  deriving DecidableEq, Repr, Inhabited

namespace Sender

/-- Offers the composed frame to the link, all at once. -/
def flush {σ : Type} [Link σ] (sender : Sender) (link : σ) : Except FrameError Unit × σ :=
  if Link.isOpen link then
    match Link.write sender.buffer link with
    | (.error fault, link) => (.error (.link fault), link)
    | (.ok written, link) =>
        if written = sender.buffer.length then (.ok (), link)
        else (.error (.shortWrite written sender.buffer.length), link)
  else (.error (.link .closed), link)

/-- Composes a frame in the emptied buffer and flushes it. -/
def transmit {σ : Type} [Link σ] (written : Except FrameError Bytes) (sender : Sender) (link : σ) :
    Except FrameError Unit × Sender × σ :=
  match appendTo { sender with buffer := [] }.buffer written with
  | (.error fault, buffer) => (.error fault, { buffer }, link)
  | (.ok (), buffer) =>
      let (answer, link) := flush { buffer } link
      (answer, { buffer }, link)

/-- Sends a payload as it is, between marks. -/
def send {σ : Type} [Link σ] (payload : Bytes) (sender : Sender) (link : σ) :
    Except FrameError Unit × Sender × σ :=
  sender.transmit (.ok (wrap payload)) link

/-- Sends a request for `command`. -/
def sendRequest {σ : Type} [Link σ] (command : UInt8) (params : Bytes) (sender : Sender)
    (link : σ) : Except FrameError Unit × Sender × σ :=
  sender.transmit (encodeRequest command params) link

/-- Sends a frame. -/
def sendFrame {σ : Type} [Link σ] (frame : Frame) (sender : Sender) (link : σ) :
    Except FrameError Unit × Sender × σ :=
  sender.transmit frame.encode link

theorem transmit_of_closed {σ : Type} [Link σ] {sender : Sender} {link : σ} (bytes : Bytes)
    (h : Link.isOpen link = false) :
    sender.transmit (.ok bytes) link = (.error (.link .closed), { buffer := bytes }, link) := by
  simp [transmit, appendTo, flush, h]

theorem transmit_of_refused {σ : Type} [Link σ] (sender : Sender) (link : σ) (fault : FrameError) :
    sender.transmit (.error fault) link = (.error fault, {}, link) := rfl

theorem transmit_of_open {σ : Type} [Link σ] {link : σ} (sender : Sender) (bytes : Bytes)
    (h : Link.isOpen link = true) :
    sender.transmit (.ok bytes) link =
      (match (Link.write bytes link).1 with
        | .error fault => .error (.link fault)
        | .ok written =>
            if written = bytes.length then .ok () else .error (.shortWrite written bytes.length),
        { buffer := bytes }, (Link.write bytes link).2) := by
  simp only [transmit, appendTo, List.nil_append, flush, h, if_true]
  split
  · next hwrite => rw [hwrite]
  · next hwrite =>
      rw [hwrite]
      dsimp only
      split <;> rfl

end Sender

end PeripheralHost
