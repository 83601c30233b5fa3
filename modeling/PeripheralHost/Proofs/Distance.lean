import PeripheralHost.Proofs.BitFlips

/-!
# Written frames lie apart

The distance of two octet strings of one length is the number of places at which
they differ. Two written frames of one size are equal or at a distance of two at
least (`Frame.two_le_distance`): were they one octet apart, only one of them could
balance. So no single wrong octet, wherever it is and whatever the body holds,
turns a written frame into another of its size.

An assembler may still find frames in a damaged one, since the body can hold the
written form of frames, and the wrong octet can be the mark that would have kept
the assembler from looking inside. They are all shorter than the frame that was
written, which is therefore never among them
(`Assembler.shorter_of_distance_one`).

## Main results

* `Bytes.exists_differAt` — strings at distance one differ in one octet.
* `Frame.two_le_distance` — different frames of one size are written two octets
  apart.
* `Assembler.shorter_of_distance_one` — what one wrong octet leads to.
-/

namespace PeripheralHost

namespace Bytes

/-- The number of places at which two strings of one length differ. -/
def distance (left right : Bytes) : Nat :=
  (left.zip right).countP fun pair => pair.1 ≠ pair.2

@[simp] theorem distance_nil : distance [] [] = 0 := rfl

@[simp] theorem distance_cons_self (b : UInt8) (left right : Bytes) :
    distance (b :: left) (b :: right) = distance left right := by
  simp [distance]

theorem distance_cons_of_ne {b c : UInt8} (left right : Bytes) (h : b ≠ c) :
    distance (b :: left) (c :: right) = distance left right + 1 := by
  simp [distance, h]

theorem eq_of_distance_eq_zero {left right : Bytes} (hlength : left.length = right.length)
    (h : distance left right = 0) : left = right := by
  induction left generalizing right with
  | nil => exact (List.length_eq_zero_iff.mp hlength.symm).symm
  | cons b rest ih =>
      obtain ⟨c, after, rfl⟩ : ∃ c after, right = c :: after :=
        List.exists_cons_of_length_eq_add_one hlength.symm
      by_cases hfirst : b = c
      · subst hfirst
        rw [distance_cons_self] at h
        rw [ih (Nat.succ.inj hlength) h]
      · rw [distance_cons_of_ne rest after hfirst] at h
        omega

theorem DifferAt.cons {place : Nat} {left right : Bytes} (b : UInt8)
    (h : DifferAt place left right) : DifferAt (place + 1) (b :: left) (b :: right) where
  length_eq := congrArg (· + 1) h.length_eq
  ne := by simpa using h.ne
  eq other hother := by
    cases other with
    | zero => rfl
    | succ other =>
        rw [List.getElem?_cons_succ, List.getElem?_cons_succ]
        apply h.eq
        omega

theorem differAt_zero {b c : UInt8} (rest : Bytes) (h : b ≠ c) :
    DifferAt 0 (b :: rest) (c :: rest) where
  length_eq := rfl
  ne := by simpa using h
  eq other hother := by
    cases other with
    | zero => exact absurd rfl hother
    | succ other => rfl

/-- Strings at distance one differ in one octet and nowhere else. -/
theorem exists_differAt {left right : Bytes} (hlength : left.length = right.length)
    (h : distance left right = 1) : ∃ place, DifferAt place left right := by
  induction left generalizing right with
  | nil =>
      obtain rfl : right = [] := List.length_eq_zero_iff.mp hlength.symm
      simp at h
  | cons b rest ih =>
      obtain ⟨c, after, rfl⟩ : ∃ c after, right = c :: after :=
        List.exists_cons_of_length_eq_add_one hlength.symm
      have hrest : rest.length = after.length := Nat.succ.inj hlength
      by_cases hfirst : b = c
      · subst hfirst
        rw [distance_cons_self] at h
        obtain ⟨place, hplace⟩ := ih hrest h
        exact ⟨place + 1, hplace.cons b⟩
      · rw [distance_cons_of_ne rest after hfirst] at h
        have hsame : rest = after := by
          apply eq_of_distance_eq_zero hrest
          omega
        rw [hsame]
        exact ⟨0, differAt_zero after hfirst⟩

end Bytes

namespace Frame

variable {frame other : Frame} {written found : Bytes}

/-- A frame can be told from its written form. -/
theorem eq_of_encode (hwritten : frame.encode = .ok written) (hother : other.encode = .ok written) :
    frame = other := by
  obtain ⟨hfits, rfl⟩ := encode_eq_ok_iff.mp hwritten
  obtain ⟨hfitsOther, hsame⟩ := encode_eq_ok_iff.mp hother
  have hfound := Stream.candidate_written hfits []
  rw [hsame, Stream.candidate_written hfitsOther []] at hfound
  exact (Option.some.inj hfound).symm

/-- Different frames of one size are written at a distance of two at least. -/
theorem two_le_distance (hwritten : frame.encode = .ok written) (hother : other.encode = .ok found)
    (hsize : other.wireSize = frame.wireSize) (hne : other ≠ frame) :
    2 ≤ Bytes.distance written found := by
  have hlength : written.length = found.length := by
    rw [length_encode hwritten, length_encode hother, hsize]
  have hzero : Bytes.distance written found ≠ 0 := by
    intro hzero
    rw [Bytes.eq_of_distance_eq_zero hlength hzero] at hwritten
    exact hne (eq_of_encode hother hwritten)
  have hone : Bytes.distance written found ≠ 1 := by
    intro hone
    obtain ⟨place, hdiffer⟩ := Bytes.exists_differAt hlength hone
    apply hdiffer.checksum_ne
    rw [checksum_of_encode hwritten, checksum_of_encode hother]
  omega

end Frame

namespace Assembler

/-- **One wrong octet**: feed a new assembler, in any pieces, a string that
differs from a written frame in exactly one octet, and abandon until idle. The
frame is not delivered, and every frame that is has a shorter body. The bodies
may hold anything, marks included. In particular, two different frames of one
size differ in two octets at least as they are written. -/
theorem shorter_of_distance_one (limit : Nat) {frame : Frame} {written : Bytes}
    (hwritten : frame.encode = .ok written) :
    (∀ pieces : List Bytes, written.length = pieces.flatten.length →
      Bytes.distance written pieces.flatten = 1 →
        let fed := feedAll pieces { limit }
        let delivered := Outcome.frames (fed.1 ++ (abandonAll fed.2).1.flatten)
        frame ∉ delivered ∧ ∀ other ∈ delivered, other.body.length < frame.body.length) ∧
      ∀ (other : Frame) (found : Bytes), other.encode = .ok found →
        other.wireSize = frame.wireSize → other ≠ frame → 2 ≤ Bytes.distance written found := by
  constructor
  · intro pieces hlength hdistance fed delivered
    obtain ⟨place, hdiffer⟩ := Bytes.exists_differAt hlength hdistance
    have hdelivered : delivered = Stream.frames limit pieces.flatten := by
      have hframes := frames_feed_abandonAll limit pieces.flatten
      rwa [← feedAll_eq_feed pieces] at hframes
    have hshorter : ∀ other ∈ delivered, other.body.length < frame.body.length := by
      intro other hmem
      rw [hdelivered] at hmem
      obtain ⟨start, rest, hfound⟩ := Stream.exists_frameAt_of_mem hmem
      exact Frame.length_body_lt hwritten hdiffer hfound
    refine ⟨?_, hshorter⟩
    intro hmem
    exact Nat.lt_irrefl _ (hshorter frame hmem)
  · intro other found hother hsize hne
    exact Frame.two_le_distance hwritten hother hsize hne

/-- The body of a frame is a whole written frame. When the start mark of the outer
frame is damaged, the inner one is delivered and the outer one is not. -/
theorem inner_delivered_of_distance_one :
    let inner : Frame := ⟨0x21, Frame.replyMarker, [7]⟩
    let outer : Frame := ⟨0x20, Frame.replyMarker, wrap (inner.header ++ inner.body)⟩
    let twin : Frame := ⟨0x22, Frame.replyMarker, outer.body⟩
    let written := wrap (outer.header ++ outer.body)
    let pieces : List Bytes := [[0], written.tail]
    let fed := feedAll pieces {}
    let delivered := Outcome.frames (fed.1 ++ (abandonAll fed.2).1.flatten)
    outer.encode = .ok written ∧ Bytes.distance written pieces.flatten = 1 ∧
      delivered = [inner] ∧ outer ∉ delivered ∧ inner.body.length < outer.body.length ∧
      2 ≤ Bytes.distance written (wrap (twin.header ++ twin.body)) := by
  intro inner outer twin written pieces fed delivered
  have hdistance : Bytes.distance written pieces.flatten = 1 := by decide +kernel
  have hinner : delivered = [inner] := by decide +kernel
  have hmem : inner ∈ delivered := by
    rw [hinner]
    exact List.mem_singleton_self inner
  obtain ⟨hdamaged, hapart⟩ :=
    @shorter_of_distance_one Frame.maxBody outer written rfl
  obtain ⟨houter, hshorter⟩ := hdamaged pieces rfl hdistance
  exact ⟨rfl, hdistance, hinner, houter, hshorter inner hmem, hapart twin _ rfl rfl (by decide)⟩

end Assembler

end PeripheralHost
