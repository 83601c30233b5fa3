import PeripheralHost.Field

/-!
# Fields are read back exactly

A length mark says how much belongs to the field, so a written field says itself where it
ends. Whatever follows it, splitting takes off the field that was written and nothing
more; and there is no other way to be split off, since a mark of the fixed width can be
written for every length that it can hold.

Every buffer is therefore one of two things. Either the written form of a field stands at
its front (`Field.Begins`), and that field is split off; or the buffer is a written field
that has been cut short (`Field.Cut`), and splitting says how many octets it lacks to
go on. An empty buffer and one that ends inside the mark are of the second kind. A field
that is split off stays the same whatever is appended, so no written field is the
beginning of another. A buffer that is cut short stays so until it has the octets asked for.

A row of fields adds nothing to this. A field that is too long for its mark is passed over
and leaves no trace in the buffer, not even a mark.

## Main results

* `Field.split_eq_ok_iff` — a field is split off exactly if its written form stands at
  the front.
* `Field.split_exact` — splitting fails exactly on what is cut short, and what becomes of
  either when the buffer grows.
* `Field.splitAll_putAll` — a row of fields is read back, without those that do not fit.
-/

namespace PeripheralHost

namespace Field

variable {kind : Kind} {buffer field rest : Bytes}

/-! ## The written form -/

theorem Kind.le_limit {length : Nat} (h : length < 256 ^ kind.markSize) : length ≤ kind.limit := by
  cases kind with
  | short =>
      simp only [markSize] at h
      show length ≤ 255
      omega
  | long =>
      simp only [markSize] at h
      show length ≤ 65535
      omega

theorem encode_of_fits (h : field.length ≤ kind.limit) :
    encode kind field = .ok (Bytes.bigEndian kind.markSize field.length ++ field) := by
  rw [encode, if_neg (by omega)]

theorem encode_of_long (h : ¬ field.length ≤ kind.limit) :
    encode kind field = .error (.fieldTooLong field.length kind.limit) := by
  rw [encode, if_pos (by omega)]

/-- Behind any mark of the right width stands a field of the length it says. -/
theorem encode_of_mark {mark : Bytes} (hmark : mark.length = kind.markSize)
    (hfield : field.length = Bytes.ofBigEndian mark) : encode kind field = .ok (mark ++ field) := by
  have hbound := Bytes.ofBigEndian_lt mark
  rw [hmark] at hbound
  rw [encode_of_fits (Kind.le_limit (by omega)), hfield, ← hmark, Bytes.bigEndian_ofBigEndian]

/-! ## Splitting -/

theorem split_of_no_mark (h : buffer.length < kind.markSize) :
    split kind buffer = .error (.truncatedField kind.markSize buffer.length) := by
  rw [split, if_pos h]

theorem exists_mark (h : ¬ buffer.length < kind.markSize) :
    ∃ mark content, mark.length = kind.markSize ∧ buffer = mark ++ content := by
  refine ⟨buffer.take kind.markSize, buffer.drop kind.markSize, ?_, ?_⟩
  · rw [List.length_take]
    omega
  · exact (List.take_append_drop _ _).symm

theorem split_mark_append {mark : Bytes} (hmark : mark.length = kind.markSize) (content : Bytes) :
    split kind (mark ++ content) =
      if content.length < Bytes.ofBigEndian mark then
        .error (.truncatedField (kind.markSize + Bytes.ofBigEndian mark) (mark ++ content).length)
      else .ok (content.take (Bytes.ofBigEndian mark), content.drop (Bytes.ofBigEndian mark)) := by
  have hlong : ¬ (mark ++ content).length < kind.markSize := by
    rw [List.length_append]
    omega
  rw [split, if_neg hlong, List.take_left' hmark, List.drop_left' hmark, List.length_append, hmark]

/-- The written form of `field` stands at the front of `buffer`, and `rest` behind it. -/
def Begins (kind : Kind) (buffer field rest : Bytes) : Prop :=
  ∃ written, encode kind field = .ok written ∧ buffer = written ++ rest

/-- The buffer is the beginning of a written field, and not the whole. -/
def Cut (kind : Kind) (buffer : Bytes) : Prop :=
  ∃ field missing, missing ≠ [] ∧ encode kind field = .ok (buffer ++ missing)

theorem exists_missing {length : Nat} (h : buffer.length < length) :
    ∃ missing, missing ≠ [] ∧ (buffer ++ missing).length = length := by
  refine ⟨List.replicate (length - buffer.length) 0, ?_, ?_⟩
  · rw [Ne, List.replicate_eq_nil_iff]
    omega
  · rw [List.length_append, List.length_replicate]
    omega

/-- Any mark that begins like the buffer will do, with any field of the length it says. -/
theorem cut_of_no_mark (h : buffer.length < kind.markSize) : Cut kind buffer := by
  obtain ⟨missing, hmissing, hmark⟩ := exists_missing h
  let field : Bytes := List.replicate (Bytes.ofBigEndian (buffer ++ missing)) 0
  have hwritten : encode kind field = .ok (buffer ++ missing ++ field) :=
    encode_of_mark hmark List.length_replicate
  rw [List.append_assoc] at hwritten
  exact ⟨field, missing ++ field, by simp [hmissing], hwritten⟩

theorem cut_of_short {mark content : Bytes} (hmark : mark.length = kind.markSize)
    (h : content.length < Bytes.ofBigEndian mark) : Cut kind (mark ++ content) := by
  obtain ⟨missing, hmissing, hlength⟩ := exists_missing h
  have hwritten : encode kind (content ++ missing) = .ok (mark ++ (content ++ missing)) :=
    encode_of_mark hmark hlength
  rw [← List.append_assoc] at hwritten
  exact ⟨content ++ missing, missing, hmissing, hwritten⟩

theorem begins_of_long {mark content : Bytes} (hmark : mark.length = kind.markSize)
    (h : ¬ content.length < Bytes.ofBigEndian mark) :
    Begins kind (mark ++ content) (content.take (Bytes.ofBigEndian mark))
      (content.drop (Bytes.ofBigEndian mark)) := by
  have hlength : (content.take (Bytes.ofBigEndian mark)).length = Bytes.ofBigEndian mark := by
    rw [List.length_take]
    omega
  exact ⟨_, encode_of_mark hmark hlength, by rw [List.append_assoc, List.take_append_drop]⟩

/-- A buffer is split at the end of its first field, or lacks a part of the mark or of
the field. -/
theorem split_cases (kind : Kind) (buffer : Bytes) :
    (∃ field rest, split kind buffer = .ok (field, rest) ∧ Begins kind buffer field rest) ∨
      ∃ needed, split kind buffer = .error (.truncatedField needed buffer.length) ∧
        buffer.length < needed ∧ Cut kind buffer := by
  by_cases hshort : buffer.length < kind.markSize
  · exact .inr ⟨_, split_of_no_mark hshort, hshort, cut_of_no_mark hshort⟩
  · obtain ⟨mark, content, hmark, rfl⟩ := exists_mark hshort
    have hsplit := split_mark_append hmark content
    by_cases hcut : content.length < Bytes.ofBigEndian mark
    · rw [if_pos hcut] at hsplit
      have hneeded : (mark ++ content).length < kind.markSize + Bytes.ofBigEndian mark := by
        rw [List.length_append]
        omega
      exact .inr ⟨_, hsplit, hneeded, cut_of_short hmark hcut⟩
    · rw [if_neg hcut] at hsplit
      exact .inl ⟨_, _, hsplit, begins_of_long hmark hcut⟩

theorem split_of_begins (h : Begins kind buffer field rest) :
    split kind buffer = .ok (field, rest) := by
  obtain ⟨written, hwritten, rfl⟩ := h
  exact split_encode_append rest hwritten

/-- **A field is split off exactly if its written form stands at the front.** -/
theorem split_eq_ok_iff :
    split kind buffer = .ok (field, rest) ↔ Begins kind buffer field rest := by
  refine ⟨fun h => ?_, split_of_begins⟩
  rcases split_cases kind buffer with ⟨found, behind, hsplit, hbegins⟩ | ⟨needed, hsplit, -⟩
  · rw [h, Except.ok.injEq, Prod.mk.injEq] at hsplit
    rwa [hsplit.1, hsplit.2]
  · simp [h] at hsplit

theorem Begins.append (h : Begins kind buffer field rest) (more : Bytes) :
    Begins kind (buffer ++ more) field (rest ++ more) := by
  obtain ⟨written, hwritten, rfl⟩ := h
  exact ⟨written, hwritten, List.append_assoc _ _ _⟩

theorem begins_of_encode {written : Bytes} (h : encode kind field = .ok written) :
    Begins kind written field [] :=
  ⟨written, h, (List.append_nil _).symm⟩

/-- What begins with a whole field has not been cut out of another. -/
theorem Begins.not_cut (h : Begins kind buffer field rest) : ¬ Cut kind buffer := by
  rintro ⟨other, missing, hmissing, hwritten⟩
  have hwhole := split_of_begins (begins_of_encode hwritten)
  rw [split_of_begins (h.append missing), Except.ok.injEq, Prod.mk.injEq,
    List.append_eq_nil_iff] at hwhole
  exact hmissing hwhole.2.2

/-- A buffer that is cut short stays so until it has the octets asked for. -/
theorem split_append_of_truncated {needed available : Nat} {more : Bytes}
    (h : split kind buffer = .error (.truncatedField needed available))
    (hmore : (buffer ++ more).length < needed) :
    split kind (buffer ++ more) = .error (.truncatedField needed (buffer ++ more).length) := by
  by_cases hshort : buffer.length < kind.markSize
  · rw [split_of_no_mark hshort, Except.error.injEq, FrameError.truncatedField.injEq] at h
    obtain ⟨rfl, -⟩ := h
    exact split_of_no_mark hmore
  · obtain ⟨mark, content, hmark, rfl⟩ := exists_mark hshort
    rw [split_mark_append hmark] at h
    split at h
    · simp only [Except.error.injEq, FrameError.truncatedField.injEq] at h
      obtain ⟨rfl, -⟩ := h
      rw [List.append_assoc] at hmore ⊢
      rw [split_mark_append hmark, if_pos]
      simp only [List.length_append] at hmore ⊢
      omega
    · simp at h

/-- **Splitting is exact.** Of every buffer one and only one of two things is true: a field
is split off, and its written form stands at the front, ahead of the rest; or splitting
reports that the buffer is too short, and the buffer is a written field cut short. Moreover

* a field that is split off is split off whatever is appended, which joins the rest;
* so no written field is the beginning of another;
* a buffer that is too short is so with anything appended that does not bring it to the
  length asked for. -/
theorem split_exact (kind : Kind) (buffer : Bytes) :
    ((∃ field rest, split kind buffer = .ok (field, rest) ∧ Begins kind buffer field rest) ∧
          ¬ Cut kind buffer ∨
        (∃ needed, split kind buffer = .error (.truncatedField needed buffer.length) ∧
            buffer.length < needed) ∧
          Cut kind buffer ∧ ¬ ∃ field rest, Begins kind buffer field rest) ∧
      (∀ field rest more, split kind buffer = .ok (field, rest) →
        split kind (buffer ++ more) = .ok (field, rest ++ more)) ∧
      (∀ field other missing, encode kind field = .ok buffer →
        encode kind other = .ok (buffer ++ missing) → missing = []) ∧
      ∀ needed available more, split kind buffer = .error (.truncatedField needed available) →
        (buffer ++ more).length < needed →
          split kind (buffer ++ more) =
            .error (.truncatedField needed (buffer ++ more).length) := by
  refine ⟨?_, fun field rest more h => ?_, fun field other missing hfield hother => ?_,
    fun needed available more h hmore => split_append_of_truncated h hmore⟩
  · rcases split_cases kind buffer with
      ⟨field, rest, hsplit, hbegins⟩ | ⟨needed, hsplit, hneeded, hcut⟩
    · exact .inl ⟨⟨field, rest, hsplit, hbegins⟩, hbegins.not_cut⟩
    · refine .inr ⟨⟨needed, hsplit, hneeded⟩, hcut, ?_⟩
      rintro ⟨field, rest, hbegins⟩
      exact hbegins.not_cut hcut
  · exact split_of_begins ((split_eq_ok_iff.mp h).append more)
  · by_cases hmissing : missing = []
    · exact hmissing
    · exact absurd ⟨other, missing, hmissing, hother⟩ (begins_of_encode hfield).not_cut

/-! ## Rows -/

/-- The fields of a row that fit their marks. -/
def fitting (fields : List (Kind × Bytes)) : List (Kind × Bytes) :=
  fields.filter fun field => field.2.length ≤ field.1.limit

variable {bytes : Bytes}

theorem putAll_of_fits (h : bytes.length ≤ kind.limit) (later : List (Kind × Bytes))
    (buffer : Bytes) :
    let extended := buffer ++ (Bytes.bigEndian kind.markSize bytes.length ++ bytes)
    putAll ((kind, bytes) :: later) buffer =
      (.ok extended.length :: (putAll later extended).1, (putAll later extended).2) := by
  intro extended
  rw [putAll, encode_of_fits h]

theorem putAll_of_long (h : ¬ bytes.length ≤ kind.limit) (later : List (Kind × Bytes))
    (buffer : Bytes) :
    putAll ((kind, bytes) :: later) buffer =
      (.error (.fieldTooLong bytes.length kind.limit) :: (putAll later buffer).1,
        (putAll later buffer).2) := by
  rw [putAll, encode_of_long h]

theorem putAll_append (earlier later : List (Kind × Bytes)) (buffer : Bytes) :
    putAll (earlier ++ later) buffer =
      ((putAll earlier buffer).1 ++ (putAll later (putAll earlier buffer).2).1,
        (putAll later (putAll earlier buffer).2).2) := by
  induction earlier generalizing buffer with
  | nil => rfl
  | cons entry earlier ih =>
      obtain ⟨kind, bytes⟩ := entry
      by_cases hfits : bytes.length ≤ kind.limit
      · rw [List.cons_append, putAll_of_fits hfits, putAll_of_fits hfits, ih]
        rfl
      · rw [List.cons_append, putAll_of_long hfits, putAll_of_long hfits, ih]
        rfl

theorem length_putAll (fields : List (Kind × Bytes)) (buffer : Bytes) :
    (putAll fields buffer).1.length = fields.length := by
  induction fields generalizing buffer with
  | nil => rfl
  | cons entry later ih =>
      obtain ⟨kind, bytes⟩ := entry
      by_cases hfits : bytes.length ≤ kind.limit
      · rw [putAll_of_fits hfits, List.length_cons, List.length_cons, ih]
      · rw [putAll_of_long hfits, List.length_cons, List.length_cons, ih]

/-- A field that does not fit leaves no trace. -/
theorem putAll_fitting (fields : List (Kind × Bytes)) (buffer : Bytes) :
    (putAll (fitting fields) buffer).2 = (putAll fields buffer).2 := by
  induction fields generalizing buffer with
  | nil => rfl
  | cons entry later ih =>
      obtain ⟨kind, bytes⟩ := entry
      by_cases hfits : bytes.length ≤ kind.limit
      · rw [fitting, List.filter_cons_of_pos (by simpa using hfits), ← fitting,
          putAll_of_fits hfits, putAll_of_fits hfits, ih]
      · rw [fitting, List.filter_cons_of_neg (by simpa using hfits), ← fitting,
          putAll_of_long hfits, ih]

theorem splitAll_of_begins (h : Begins kind buffer field rest) (kinds : List Kind) :
    splitAll (kind :: kinds) buffer =
      (field :: (splitAll kinds rest).1, (splitAll kinds rest).2) := by
  rw [splitAll, split_of_begins h]

/-- A row of fields that fit appends to the buffer what is split into the same fields
again. -/
theorem exists_appended {fields : List (Kind × Bytes)}
    (hfits : ∀ field ∈ fields, field.2.length ≤ field.1.limit) (buffer : Bytes) :
    ∃ appended, (putAll fields buffer).2 = buffer ++ appended ∧
      ∀ rest, splitAll (fields.map Prod.fst) (appended ++ rest) =
        (fields.map Prod.snd, none, rest) := by
  induction fields generalizing buffer with
  | nil => exact ⟨[], (List.append_nil _).symm, fun rest => rfl⟩
  | cons entry later ih =>
      obtain ⟨kind, bytes⟩ := entry
      have hfirst : bytes.length ≤ kind.limit := hfits _ List.mem_cons_self
      have hlater : ∀ field ∈ later, field.2.length ≤ field.1.limit :=
        fun field hmem => hfits field (List.mem_cons_of_mem _ hmem)
      let written := Bytes.bigEndian kind.markSize bytes.length ++ bytes
      obtain ⟨appended, hput, hsplit⟩ := ih hlater (buffer ++ written)
      refine ⟨written ++ appended, ?_, fun rest => ?_⟩
      · rw [putAll_of_fits hfirst, hput, List.append_assoc]
      · have hfield : Begins kind (written ++ (appended ++ rest)) bytes (appended ++ rest) :=
          ⟨written, encode_of_fits hfirst, rfl⟩
        rw [List.map_cons, List.append_assoc, splitAll_of_begins hfield, hsplit rest]
        rfl

/-- **A row of fields is read back.** Fields that fit are appended to whatever the buffer
holds, and what was appended is split into the same fields again, whatever follows. Of
any row, moreover, the buffer gets what it would get if the fields that do not fit were
left out; and of every field of the row the answer is the length of the buffer as it is
then, if the field fits, and else the length of the field and the most that its mark can
measure. -/
theorem splitAll_putAll (fields : List (Kind × Bytes)) (buffer : Bytes) :
    ((∀ field ∈ fields, field.2.length ≤ field.1.limit) →
        ∃ appended, (putAll fields buffer).2 = buffer ++ appended ∧
          ∀ rest, splitAll (fields.map Prod.fst) (appended ++ rest) =
            (fields.map Prod.snd, none, rest)) ∧
      (putAll fields buffer).2 = (putAll (fitting fields) buffer).2 ∧
      ∀ earlier kind bytes later, fields = earlier ++ (kind, bytes) :: later →
        (putAll fields buffer).1[earlier.length]? =
          some (if bytes.length ≤ kind.limit then
              .ok (putAll (earlier ++ [(kind, bytes)]) buffer).2.length
            else .error (.fieldTooLong bytes.length kind.limit)) := by
  refine ⟨fun hfits => exists_appended hfits buffer, (putAll_fitting fields buffer).symm, ?_⟩
  rintro earlier kind bytes later rfl
  have hplace : earlier.length = (putAll earlier buffer).1.length := (length_putAll _ _).symm
  rw [putAll_append, putAll_append, hplace, List.getElem?_append_right (by omega), Nat.sub_self]
  by_cases hfits : bytes.length ≤ kind.limit
  · rw [if_pos hfits, putAll_of_fits hfits, putAll_of_fits hfits]
    rfl
  · rw [if_neg hfits, putAll_of_long hfits]
    rfl

/-- One octet too many for a short mark, between two fields that fit. -/
example :
    let put := putAll [(.short, [1]), (.short, List.replicate 256 0), (.long, [2, 3])] [9]
    put.1.map Except.toOption = [some 3, none, some 7] ∧ put.2 = [9, 1, 1, 0, 2, 2, 3] := by
  decide +kernel

end Field

end PeripheralHost
