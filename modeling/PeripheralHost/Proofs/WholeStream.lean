import PeripheralHost.Frame.Scan
import PeripheralHost.Proofs.Resumption

/-!
# The assembler and the open stream agree

`Stream.scan` looks at a stream that lies open as a whole and finds header,
body, end mark and checksum by their positions. The assembler takes the same
stream octet by octet and puts octets back when a frame is refused. Behind a
start mark both come to one of three ends: the stream is too short to tell
(`drive_of_unsettled`), the frame is refused and every octet behind the mark
is looked at again (`drive_of_refused`), or there is a frame and the octets
behind its checksum remain (`drive_of_found`). The whole stream follows by
induction on what remains.

## Main results

* `Stage.drive_idle_eq_scan` — an idle assembler settles what the scan of its
  input settles, and what it holds then is what the scan leaves pending.
* `Stream.scan_append` — a scan may be cut anywhere, if what is pending at the
  cut goes in front of the rest.
* `Assembler.feedAll_eq_scan` — the same for pieces, with any boundaries.
-/

namespace PeripheralHost

namespace Stage

variable {limit : Nat}

/-! ## Header and body -/

theorem step_header {taken : Bytes} (b : UInt8) (h : taken.length < 3) :
    step limit (header taken) b = .advance (header (taken ++ [b])) := by
  match taken with
  | [] => rfl
  | [_] => rfl
  | [_, _] => rfl
  | _ :: _ :: _ :: rest =>
      simp only [List.length_cons] at h
      omega

/-- The octets ahead of the fourth octet of a header settle nothing. -/
theorem drive_header (front content : Bytes) (settled : List Outcome) :
    ∀ taken : Bytes, taken.length + front.length ≤ 3 →
      drive limit (header taken) (front ++ content) settled =
        drive limit (header (taken ++ front)) content settled := by
  induction front with
  | nil => intro taken _; simp
  | cons b rest ih =>
      intro taken hlength
      simp only [List.length_cons] at hlength
      rw [List.cons_append, drive_of_advance _ _ (step_header b (by omega)),
        ih (taken ++ [b]) (by simp only [List.length_append, List.length_singleton]; omega)]
      simp

theorem drive_header_cut (behind : Bytes) (settled : List Outcome) (h : behind.length < 4) :
    drive limit (header []) behind settled = (settled.reverse, header behind) := by
  have hfront := @drive_header limit behind [] settled []
    (by simp only [List.length_nil]; omega)
  rw [List.append_nil, List.nil_append] at hfront
  rw [hfront, drive]

theorem drive_body_whole (head : Header) (content : Bytes) (settled : List Outcome) :
    ∀ (taken : Bytes) (missing : Nat), 0 < missing → missing ≤ content.length →
      drive limit (body head taken missing) content settled =
        drive limit (trailer head ((content.take missing).reverse ++ taken))
          (content.drop missing) settled := by
  induction content with
  | nil =>
      intro taken missing hpos hfits
      simp only [List.length_nil] at hfits
      omega
  | cons b rest ih =>
      intro taken missing hpos hfits
      simp only [List.length_cons] at hfits
      by_cases hlast : missing ≤ 1
      · have hone : missing = 1 := by omega
        subst hone
        rw [drive_of_advance rest settled
          (show step limit (body head taken 1) b = .advance (trailer head (b :: taken)) by
            simp [step])]
        simp
      · obtain ⟨more, rfl⟩ : ∃ more, missing = more + 1 := ⟨missing - 1, by omega⟩
        rw [drive_of_advance rest settled
          (show step limit (body head taken (more + 1)) b =
              .advance (body head (b :: taken) more) by
            simp [step, hlast]),
          ih (b :: taken) more (by omega) (by omega)]
        simp

theorem drive_body_cut (head : Header) (content : Bytes) (settled : List Outcome) :
    ∀ (taken : Bytes) (missing : Nat), content.length < missing →
      drive limit (body head taken missing) content settled =
        (settled.reverse, body head (content.reverse ++ taken) (missing - content.length)) := by
  induction content with
  | nil =>
      intro taken missing _
      rw [drive]
      simp
  | cons b rest ih =>
      intro taken missing hshort
      simp only [List.length_cons] at hshort
      have hmore : ¬ missing ≤ 1 := by omega
      rw [drive_of_advance rest settled
        (show step limit (body head taken missing) b =
            .advance (body head (b :: taken) (missing - 1)) by simp [step, hmore]),
        ih (b :: taken) (missing - 1) (by omega)]
      simp only [List.reverse_cons, List.append_assoc, List.singleton_append, List.length_cons,
        Nat.sub_sub, Nat.add_comm]

/-- A complete header and a complete body lead to the trailer. -/
theorem drive_content_whole (head : Header) (content : Bytes) (settled : List Outcome)
    (hlimit : head.bodyLength ≤ limit) (hfits : head.bodyLength ≤ content.length) :
    drive limit (header []) (head.bytes ++ content) settled =
      drive limit (trailer head (content.take head.bodyLength).reverse)
        (content.drop head.bodyLength) settled := by
  have hfront := @drive_header limit [head.command, head.marker, head.high]
    (head.low :: content) settled [] (by simp)
  simp only [Header.bytes, List.cons_append, List.nil_append] at hfront ⊢
  rw [hfront]
  by_cases hempty : head.bodyLength = 0
  · rw [drive_of_advance content settled
      (show step limit (header [head.command, head.marker, head.high]) head.low =
          .advance (trailer head []) by simp [step, afterHeader, hempty])]
    simp [hempty]
  · rw [drive_of_advance content settled
      (show step limit (header [head.command, head.marker, head.high]) head.low =
          .advance (body head [] head.bodyLength) by
        simp [step, afterHeader, hempty, Nat.not_lt.mpr hlimit]),
      drive_body_whole head content settled [] _ (by omega) hfits]
    simp

/-- A header without the whole of its body settles nothing. -/
theorem drive_content_cut (head : Header) (content : Bytes) (settled : List Outcome)
    (hlimit : head.bodyLength ≤ limit) (hshort : content.length < head.bodyLength) :
    drive limit (header []) (head.bytes ++ content) settled =
      (settled.reverse, body head content.reverse (head.bodyLength - content.length)) := by
  have hfront := @drive_header limit [head.command, head.marker, head.high]
    (head.low :: content) settled [] (by simp)
  simp only [Header.bytes, List.cons_append, List.nil_append] at hfront ⊢
  rw [hfront, drive_of_advance content settled
    (show step limit (header [head.command, head.marker, head.high]) head.low =
        .advance (body head [] head.bodyLength) by
      simp [step, afterHeader, Nat.not_lt.mpr hlimit, show ¬ head.bodyLength = 0 by omega]),
    drive_body_cut head content settled [] _ hshort]
  simp

end Stage

/-! ## Behind a start mark -/

namespace Stream

theorem read_header_cut (limit : Nat) {behind : Bytes} (h : behind.length < 4) :
    read limit behind = .unsettled := by
  unfold read
  split
  · simp only [List.length_cons] at h
    omega
  · rfl

theorem exists_header {behind : Bytes} (h : 4 ≤ behind.length) :
    ∃ (head : Header) (content : Bytes), behind = head.bytes ++ content := by
  match behind with
  | command :: marker :: high :: low :: content =>
      exact ⟨⟨command, marker, high, low⟩, content, rfl⟩
  | [] | [_] | [_, _] | [_, _, _] => simp at h

/-- What is read behind a complete header. -/
theorem read_bytes (limit : Nat) (head : Header) (content : Bytes) :
    read limit (head.bytes ++ content) =
      if head.bodyLength > limit then .refused (.bodyTooLarge head.bodyLength limit)
      else
        match content.drop head.bodyLength with
        | [] => .unsettled
        | mark :: rest =>
            if mark ≠ Frame.endMark then .refused (.badTrailer mark)
            else
              match rest with
              | [] => .unsettled
              | found :: rest =>
                  let expected :=
                    Bytes.checksum head.bytes ^^^ Bytes.checksum (content.take head.bodyLength)
                  if found ≠ expected then .refused (.badChecksum expected found)
                  else .found ⟨head.command, head.marker, content.take head.bodyLength⟩ rest := by
  have htake : (head.bytes ++ content).take (Frame.headerSize + head.bodyLength) =
      head.bytes ++ content.take head.bodyLength := by
    rw [List.take_append, List.take_of_length_le (by simp [Header.bytes, Frame.headerSize])]
    simp [Header.bytes, Frame.headerSize]
  rw [← Bytes.checksum_append, ← htake]
  rfl

end Stream

namespace Stage

variable {limit : Nat}

theorem step_trailer_endMark (head : Header) (taken : Bytes) :
    step limit (trailer head taken) Frame.endMark = .advance (checksum head taken) := by
  simp [step]

theorem step_trailer_ne (head : Header) (taken : Bytes) {mark : UInt8}
    (h : mark ≠ Frame.endMark) :
    step limit (trailer head taken) mark = .refuse (.badTrailer mark) := by
  simp [step, h]

theorem step_checksum_eq (head : Header) (content : Bytes) :
    step limit (checksum head content.reverse)
        (Bytes.checksum head.bytes ^^^ Bytes.checksum content) =
      .accept ⟨head.command, head.marker, content⟩ := by
  simp [step]

theorem step_checksum_ne (head : Header) (content : Bytes) {found : UInt8}
    (h : found ≠ Bytes.checksum head.bytes ^^^ Bytes.checksum content) :
    step limit (checksum head content.reverse) found =
      .refuse (.badChecksum (Bytes.checksum head.bytes ^^^ Bytes.checksum content) found) := by
  simp [step, h]

/-- An assembler behind a start mark does what is read there. -/
theorem drive_behind_mark (behind : Bytes) (settled : List Outcome) :
    match Stream.read limit behind with
    | .unsettled => ∃ stage, drive limit (header []) behind settled = (settled.reverse, stage) ∧
        stage.pending = Frame.startMark :: behind
    | .refused fault => drive limit (header []) behind settled =
        drive limit idle behind (.error fault :: settled)
    | .found frame rest => drive limit (header []) behind settled =
        drive limit idle rest (.ok frame :: settled) := by
  by_cases hshort : behind.length < 4
  · rw [Stream.read_header_cut limit hshort]
    exact ⟨_, drive_header_cut behind settled hshort, rfl⟩
  obtain ⟨head, content, rfl⟩ := Stream.exists_header (Nat.not_lt.mp hshort)
  rw [Stream.read_bytes]
  by_cases hbig : head.bodyLength > limit
  · rw [if_pos hbig]
    have hfront := @drive_header limit [head.command, head.marker, head.high]
      (head.low :: content) settled [] (by simp)
    simp only [Header.bytes, List.cons_append, List.nil_append] at hfront ⊢
    rw [hfront, drive_of_refuse content settled
      (show step limit (header [head.command, head.marker, head.high]) head.low =
          .refuse (.bodyTooLarge head.bodyLength limit) by simp [step, afterHeader, hbig])]
    rfl
  rw [if_neg hbig]
  have hlimit : head.bodyLength ≤ limit := Nat.not_lt.mp hbig
  by_cases hcut : content.length < head.bodyLength
  · rw [List.drop_eq_nil_of_le (Nat.le_of_lt hcut)]
    refine ⟨_, drive_content_cut head content settled hlimit hcut, ?_⟩
    simp [pending]
  -- From here on header and body are whole, and at most two octets behind them decide.
  have hwhole := drive_content_whole head content settled hlimit (Nat.not_lt.mp hcut)
  have hparts := List.take_append_drop head.bodyLength content
  generalize content.take head.bodyLength = inner at hwhole hparts ⊢
  cases hdrop : content.drop head.bodyLength with
  | nil =>
      rw [hdrop, drive] at hwhole
      rw [hdrop, List.append_nil] at hparts
      exact ⟨_, hwhole, by simp [pending, hparts]⟩
  | cons mark rest =>
      rw [hdrop] at hwhole hparts
      by_cases hmark : mark = Frame.endMark
      · subst hmark
        rw [drive_of_advance rest settled (step_trailer_endMark head _)] at hwhole
        simp only [ne_eq, not_true_eq_false, if_false]
        cases rest with
        | nil =>
            rw [drive] at hwhole
            exact ⟨_, hwhole, by simp [pending, ← hparts]⟩
        | cons found rest =>
            by_cases hfound : found = Bytes.checksum head.bytes ^^^ Bytes.checksum inner
            · subst hfound
              rw [drive_of_accept rest settled (step_checksum_eq head inner)] at hwhole
              simpa using hwhole
            · rw [drive_of_refuse rest settled (step_checksum_ne head inner hfound)] at hwhole
              simpa [hfound, pending, ← hparts] using hwhole
      · rw [drive_of_refuse rest settled (step_trailer_ne head _ hmark)] at hwhole
        simpa [hmark, pending, hparts] using hwhole

/-! ## The whole stream -/

theorem drive_idle_startMark (behind : Bytes) (settled : List Outcome) :
    drive limit idle (Frame.startMark :: behind) settled =
      drive limit (header []) behind settled :=
  drive_of_advance behind settled
    (show step limit idle Frame.startMark = .advance (header []) by simp [step])

theorem drive_idle_eq_scan (limit : Nat) (stream : Bytes) :
    ((drive limit idle stream []).1, (drive limit idle stream []).2.pending) =
      Stream.scan limit stream := by
  fun_induction Stream.scan limit stream with
  | case1 => rw [drive]; rfl
  | case2 b rest hb ih =>
      rw [drive_of_advance rest [] (show step limit idle b = .advance idle by simp [step, hb])]
      exact ih
  | case3 b rest hb hread =>
      obtain rfl : b = Frame.startMark := by simpa using hb
      have hmark := @drive_behind_mark limit rest []
      rw [hread] at hmark
      obtain ⟨stage, hdrive, hpending⟩ := hmark
      rw [drive_idle_startMark, hdrive, hpending]
      rfl
  | case4 b rest hb fault hread outcomes pending hscan ih =>
      obtain rfl : b = Frame.startMark := by simpa using hb
      have hmark := @drive_behind_mark limit rest []
      rw [hread] at hmark
      rw [hscan, Prod.mk.injEq] at ih
      rw [drive_idle_startMark, hmark, drive_outcomes, ih.1, ih.2]
      rfl
  | case5 b rest hb frame after hread outcomes pending hscan ih =>
      obtain rfl : b = Frame.startMark := by simpa using hb
      have hmark := @drive_behind_mark limit rest []
      rw [hread] at hmark
      rw [hscan, Prod.mk.injEq] at ih
      rw [drive_idle_startMark, hmark, drive_outcomes, ih.1, ih.2]
      rfl

theorem Resumable.drive_eq_scan {stage : Stage} (h : Resumable limit stage) (input : Bytes) :
    ((Stage.drive limit stage input []).1, (Stage.drive limit stage input []).2.pending) =
      Stream.scan limit (stage.pending ++ input) := by
  rw [drive_of_resumable h, drive_idle_eq_scan]

theorem pending_eq_nil_iff {stage : Stage} : stage.pending = [] ↔ stage = idle := by
  cases stage <;> simp [pending]

end Stage

theorem Stream.scan_append (limit : Nat) (front back : Bytes) :
    scan limit (front ++ back) =
      ((scan limit front).1 ++ (scan limit ((scan limit front).2 ++ back)).1,
        (scan limit ((scan limit front).2 ++ back)).2) := by
  have hfront := Stage.drive_idle_eq_scan limit front
  have hback := ((Stage.resumable_idle limit).drive front).drive_eq_scan back
  rw [← hfront, ← hback, ← Stage.drive_idle_eq_scan, Stage.drive_append]

namespace Assembler

theorem isIdle_iff {assembler : Assembler} : assembler.isIdle = true ↔ assembler.pending = [] := by
  simp [isIdle, pending, Stage.pending_eq_nil_iff]

theorem Resumable.feed_eq_scan {assembler : Assembler} (h : assembler.Resumable) (bytes : Bytes) :
    ((Assembler.feed bytes assembler).1, (Assembler.feed bytes assembler).2.pending) =
      Stream.scan assembler.limit (assembler.pending ++ bytes) :=
  Stage.Resumable.drive_eq_scan h bytes

theorem resumable_of_idle {assembler : Assembler} (h : assembler.isIdle = true) :
    assembler.Resumable := by
  have hstage : assembler.stage = .idle := of_decide_eq_true h
  rw [Resumable, hstage]
  exact Stage.resumable_idle _

/-- Whatever it did before, an idle assembler settles what the scan of its input
settles. -/
theorem feed_of_idle {assembler : Assembler} (h : assembler.isIdle = true) (bytes : Bytes) :
    ((feed bytes assembler).1, (feed bytes assembler).2.pending) =
      Stream.scan assembler.limit bytes := by
  have hscan := (resumable_of_idle h).feed_eq_scan bytes
  rwa [isIdle_iff.mp h, List.nil_append] at hscan

/-- **Pieces and the open stream agree**: a new assembler that is fed a stream
in pieces settles what the scan of the whole stream settles, and is idle
afterwards exactly if the scan leaves nothing pending. -/
theorem feedAll_eq_scan (limit : Nat) (pieces : List Bytes) :
    (feedAll pieces { limit }).1 = (Stream.scan limit pieces.flatten).1 ∧
      ((feedAll pieces { limit }).2.isIdle = true ↔
        (Stream.scan limit pieces.flatten).2 = []) := by
  have hscan := (resumable_new limit).feed_eq_scan pieces.flatten
  simp only [pending, Stage.pending_idle, List.nil_append, Prod.ext_iff] at hscan
  rw [feedAll_eq_feed, isIdle_iff]
  refine ⟨hscan.1, ?_⟩
  rw [pending, hscan.2]

end Assembler

end PeripheralHost
