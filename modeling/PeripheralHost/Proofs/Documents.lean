import PeripheralHost.Json.Record

/-!
# Documents

What is stored is a document: natural numbers, text, and objects that hold
documents under keys (`Document`). A document is written without blanks, and
what was written is read back. This is shown reader by reader, each on the
written form of its value with the rest of the text behind it. For a number
the rest must not go on with more of the number; behind a member of an object
stands a comma or the closing bracket (`Delimited`), and this will do.

An object is read into a record member by member. What a member does to the
record is its effect (`Entry`), and an object does to the record what its
members do, one after another. Nothing is asked of the members but that their
keys differ, so an object from which members have been deleted
(`Document.without`) is read in the same way as the whole.

## Main results

* `natural_writeNatural`, `text_write` — numbers and text are read back.
* `record_object` — an object is read as the effects of its members.
* `record_without` — and so it is if members are deleted, as the effects of
  those that are left.
-/

namespace PeripheralHost.Json

/-! ## Documents -/

/-- A document, of the kinds that are stored. -/
inductive Document where
  /-- A natural number. -/
  | natural (value : Nat)
  /-- Text. -/
  | text (value : String)
  /-- An object: keys and what stands under them, in order. -/
  | object (members : List (String × Document))

mutual

/-- The written form of a document. -/
def Document.write : Document → List Char
  | .natural value => writeNatural value
  | .text value => Quoted.write value.toList
  | .object members => '{' :: [','].intercalate (writeMembers members) ++ ['}']

/-- The written forms of the members of an object. -/
def writeMembers : List (String × Document) → List (List Char)
  | [] => []
  | (key, value) :: later =>
      (Quoted.write key.toList ++ ':' :: value.write) :: writeMembers later

end

/-! ### Deleting -/

mutual

/-- A document without the members at certain places. The place of a member is given by
the keys under which it stands, outermost first. -/
def Document.without (gone : List String → Bool) : Document → Document
  | .object members => .object (membersWithout gone members)
  | .natural value => .natural value
  | .text value => .text value

/-- The members of an object without those at certain places, at any depth. -/
def membersWithout (gone : List String → Bool) :
    List (String × Document) → List (String × Document)
  | [] => []
  | (key, value) :: later =>
      if gone [key] then membersWithout gone later
      else (key, value.without fun place => gone (key :: place)) :: membersWithout gone later

end

/-- Of an object there are left the members that are not deleted, each with what is left
of it. -/
theorem Document.without_object (gone : List String → Bool)
    (members : List (String × Document)) :
    (Document.object members).without gone =
      .object ((members.map fun entry =>
        (entry.1, entry.2.without fun place => gone (entry.1 :: place))).filter
          fun entry => !gone [entry.1]) := by
  rw [Document.without]
  congr 1
  induction members with
  | nil => rfl
  | cons entry later ih =>
      obtain ⟨key, value⟩ := entry
      cases hgone : gone [key] with
      | true =>
          rw [membersWithout, if_pos hgone, ih, List.map_cons,
            List.filter_cons_of_neg (by simp [hgone])]
      | false =>
          rw [membersWithout, if_neg (by simp [hgone]), ih, List.map_cons,
            List.filter_cons_of_pos (by simp [hgone])]

namespace Reader

variable {α β : Type} {text : List Char} {c : Char}

/-! ## Running readers -/

theorem run_pure (value : α) (text : List Char) :
    (pure value : Reader α).run text = .ok (value, text) := rfl

theorem run_bind (reader : Reader α) (next : α → Reader β) (text : List Char) :
    (reader >>= next).run text =
      match reader.run text with
      | .ok (value, rest) => (next value).run rest
      | .error fault => .error fault := rfl

theorem run_takeWhile (property : Char → Bool) (text : List Char) :
    (takeWhile property).run text = .ok (text.takeWhile property, text.dropWhile property) := rfl

theorem run_peek (text : List Char) : peek.run text = .ok (text.head?, text) := rfl

theorem run_next (c : Char) (rest : List Char) : next.run (c :: rest) = .ok (some c, rest) := rfl

theorem upcoming_of_not_blank (h : isBlank c = false) (rest : List Char) :
    upcoming.run (c :: rest) = .ok (c, c :: rest) := by
  have hskip : skipBlanks.run (c :: rest) = .ok ((), c :: rest) := by
    simp only [skipBlanks, run_bind, run_takeWhile, run_pure, List.takeWhile_cons,
      List.dropWhile_cons, h, Bool.false_eq_true, if_false]
  rw [upcoming, run_bind, hskip]
  rfl

theorem accept_of_not_head (h : text.head? ≠ some c) : (accept c).run text = .ok (false, text) := by
  simp only [accept, run_bind, run_peek, if_neg h, run_pure]

end Reader

/-- What stands behind a member of an object: a comma, or the closing bracket. -/
inductive Delimited : List Char → Prop where
  /-- Another member follows. -/
  | comma (later : List Char) : Delimited (',' :: later)
  /-- The object ends. -/
  | bracket (later : List Char) : Delimited ('}' :: later)

section Values

open Reader

variable {value : Nat} {rest : List Char} {c : Char}

/-! ## Numbers -/

theorem ofDigits_writeNatural (value : Nat) : Numeral.ofDigits (writeNatural value) = value :=
  Nat.ofDigitChars_toDigits (by decide) (by decide)

theorem writeNatural_of_lt (h : value < 10) : writeNatural value = [value.digitChar] :=
  Nat.toDigits_of_lt_base h

theorem writeNatural_of_le (h : 10 ≤ value) :
    writeNatural value = writeNatural (value / 10) ++ [(value % 10).digitChar] :=
  Nat.toDigits_of_base_le (by decide) h

theorem isDigit_of_mem_writeNatural (h : c ∈ writeNatural value) : c.isDigit = true :=
  Nat.isDigit_of_mem_toDigits (by decide) (by decide) h

theorem writeNatural_ne_nil (value : Nat) : writeNatural value ≠ [] := Nat.toDigits_ne_nil

/-- Only zero is written with a zero in front. -/
theorem eq_zero_of_head_writeNatural (h : (writeNatural value).head? = some '0') : value = 0 := by
  induction value using Nat.strongRecOn with
  | ind value ih =>
      rcases Nat.lt_or_ge value 10 with hlt | hge
      · have hvalue := ofDigits_writeNatural value
        rw [writeNatural_of_lt hlt] at h hvalue
        rw [List.head?_cons, Option.some.injEq] at h
        rw [h] at hvalue
        exact hvalue.symm
      · obtain ⟨first, later, hsplit⟩ :=
          List.exists_cons_of_ne_nil (writeNatural_ne_nil (value / 10))
        rw [writeNatural_of_le hge, hsplit, List.cons_append, List.head?_cons] at h
        have := ih (value / 10) (by omega) (by rw [hsplit, List.head?_cons, h])
        omega

theorem not_leading_zero (value : Nat) :
    ((writeNatural value).head? = some '0' && (writeNatural value).length > 1) = false := by
  by_cases h : (writeNatural value).head? = some '0'
  · rw [eq_zero_of_head_writeNatural h]
    rfl
  · simp [h]

theorem digits_append {found : List Char} (hdigits : ∀ c ∈ found, c.isDigit = true)
    (hsome : found ≠ []) (hrest : Delimited rest) (ended : Fault) :
    (digits ended).run (found ++ rest) = .ok (found, rest) := by
  have hnone : rest.takeWhile Char.isDigit = [] ∧ rest.dropWhile Char.isDigit = rest := by
    cases hrest <;> exact ⟨rfl, rfl⟩
  simp [digits, run_bind, run_takeWhile, List.takeWhile_append_of_pos hdigits,
    List.dropWhile_append_of_pos hdigits, hnone, hsome, run_pure]

theorem exists_first_digit (value : Nat) :
    ∃ first later, writeNatural value = first :: later ∧ first.isDigit = true := by
  obtain ⟨first, later, hsplit⟩ := List.exists_cons_of_ne_nil (writeNatural_ne_nil value)
  have hfirst : first ∈ writeNatural value := by rw [hsplit]; exact List.mem_cons_self
  exact ⟨first, later, hsplit, isDigit_of_mem_writeNatural hfirst⟩

theorem not_blank_of_isDigit (h : c.isDigit = true) : isBlank c = false := by
  simp only [isBlank, Bool.or_eq_false_iff, decide_eq_false_iff_not]
  refine ⟨⟨⟨?_, ?_⟩, ?_⟩, ?_⟩ <;> (rintro rfl; exact absurd h (by decide))

theorem numeral_writeNatural (value : Nat) (hrest : Delimited rest) (ended : Fault) :
    (numeral ended).run (writeNatural value ++ rest) =
      .ok (⟨false, writeNatural value, none, none⟩, rest) := by
  have hsign : (accept '-').run (writeNatural value ++ rest) =
      .ok (false, writeNatural value ++ rest) := by
    obtain ⟨first, later, hsplit, hdigit⟩ := exists_first_digit value
    refine accept_of_not_head ?_
    rw [hsplit, List.cons_append, List.head?_cons, Ne, Option.some.injEq]
    rintro rfl
    exact absurd hdigit (by decide)
  have hdigits := digits_append (fun c h => isDigit_of_mem_writeNatural h)
    (writeNatural_ne_nil value) hrest ended
  -- Neither delimiter can go on with the numeral.
  have hpoint : (accept '.').run rest = .ok (false, rest) := by cases hrest <;> rfl
  have hmark : exponentMark.run rest = .ok (false, rest) := by cases hrest <;> rfl
  simp only [numeral, run_bind, hsign, hdigits, not_leading_zero, Bool.false_eq_true, if_false,
    hpoint, hmark, run_pure]

theorem number_writeNatural (hvalue : value < 2 ^ 64) (hrest : Delimited rest) :
    number.run (writeNatural value ++ rest) = .ok (.natural value, rest) := by
  have hreading : (Numeral.mk false (writeNatural value) none none).reading =
      some (.natural value) := by
    simp [Numeral.reading, ofDigits_writeNatural, hvalue]
  simp only [number, run_bind, numeral_writeNatural value hrest, hreading, run_pure]

/-- A number of at most the limit is read back. -/
theorem natural_writeNatural {limit : Nat} (hvalue : value ≤ limit) (hlimit : limit < 2 ^ 64)
    (hrest : Delimited rest) :
    (Reader.natural limit).run (writeNatural value ++ rest) = .ok (value, rest) := by
  obtain ⟨first, later, hsplit, hdigit⟩ := exists_first_digit value
  have hnumber := number_writeNatural (by omega : value < 2 ^ 64) hrest
  have hbegins : beginsNumeral first = true := by simp [beginsNumeral, hdigit]
  rw [hsplit, List.cons_append] at hnumber ⊢
  simp only [Reader.natural, run_bind, upcoming_of_not_blank (not_blank_of_isDigit hdigit),
    hbegins, if_true, hnumber, hvalue, run_pure]

/-! ## Text -/

theorem text_write (value : String) (rest : List Char) :
    Reader.text.run (Quoted.write value.toList ++ rest) = .ok (value, rest) := by
  have hcontents := Quoted.contents_escaped value.toList rest
  simp only [Reader.text, Quoted.write, List.cons_append, List.append_assoc, List.nil_append,
    run_bind, upcoming_of_not_blank (c := '"') rfl, if_true, run_next, hcontents, run_pure,
    String.ofList_toList]

end Values

/-! ## Objects -/

section Objects

open Reader

variable {α : Type} {fields : List (Field α)} {first : Bool} {seen : List String} {record : α}
  {text rest : List Char}

/-- A member of an object that gives a value to a field of a record. -/
structure Entry (fields : List (Field α)) where
  /-- The key of the field. -/
  key : String
  /-- The value. -/
  value : Document
  /-- What the value does to the record. -/
  effect : α → α
  /-- The field. -/
  field : Field α
  /-- The field is the one of its key. -/
  found : fields.find? (fun field => field.key = key) = some field
  /-- Reading the value does to the record what is said. -/
  reads : ∀ (record : α) {rest : List Char}, Delimited rest →
    (field.read record).run (value.write ++ rest) = .ok (effect record, rest)

/-- The member as a part of a document. -/
def Entry.member (entry : Entry fields) : String × Document := (entry.key, entry.value)

/-- The written form of the member. -/
def Entry.write (entry : Entry fields) : List Char :=
  Quoted.write entry.key.toList ++ ':' :: entry.value.write

/-- What stands behind the quotation mark that opens the member. -/
def Entry.behindQuote (entry : Entry fields) (rest : List Char) : List Char :=
  entry.key.toList.flatMap Quoted.escaped ++ '"' :: ':' :: (entry.value.write ++ rest)

theorem Entry.write_append (entry : Entry fields) (rest : List Char) :
    entry.write ++ rest = '"' :: entry.behindQuote rest := by
  simp [Entry.write, Entry.behindQuote, Quoted.write]

/-- What the members do to a record, one after another. -/
def effects (entries : List (Entry fields)) (record : α) : α :=
  entries.foldl (fun record entry => entry.effect record) record

theorem member_of_entry (entry : Entry fields) (hseen : entry.key ∉ seen) (record : α)
    (hrest : Delimited rest) :
    (member fields seen record).run (entry.behindQuote rest) =
      .ok ((entry.effect record, entry.key :: seen), rest) := by
  have hkey := Quoted.contents_escaped entry.key.toList (':' :: (entry.value.write ++ rest))
  have hcolon : colon.run (':' :: (entry.value.write ++ rest)) =
      .ok ((), entry.value.write ++ rest) := by
    simp only [colon, run_bind, upcoming_of_not_blank (c := ':') rfl, if_true, run_next, run_pure]
  simp only [Entry.behindQuote, member, run_bind, hkey, String.ofList_toList, entry.found,
    if_neg hseen, hcolon, entry.reads record hrest, run_pure]

theorem membersFrom_of_ended (h : nextMember first text = .ok (.ended rest)) :
    membersFrom fields first seen record text = .ok (record, rest) := by
  rw [membersFrom]
  split <;> rename_i h' <;> rw [h] at h' <;> cases h'
  rfl

theorem membersFrom_of_key {behind : List Char} {changed : α} {seen' : List String}
    (h : nextMember first text = .ok (.key behind))
    (hmember : (member fields seen record).run behind = .ok ((changed, seen'), rest)) :
    membersFrom fields first seen record text = membersFrom fields false seen' changed rest := by
  rw [membersFrom]
  split <;> rename_i h' <;> rw [h] at h' <;> cases h'
  split <;> rename_i hm <;> rw [hmember] at hm <;> cases hm
  rfl

/-- The members of an object behind its first. -/
def laterMembers (entries : List (Entry fields)) : List Char :=
  entries.flatMap fun entry => ',' :: entry.write

theorem laterMembers_cons_append (entry : Entry fields) (later : List (Entry fields))
    (rest : List Char) :
    laterMembers (entry :: later) ++ rest =
      ',' :: '"' :: entry.behindQuote (laterMembers later ++ rest) := by
  rw [← Entry.write_append, laterMembers, List.flatMap_cons, List.cons_append, List.cons_append,
    List.append_assoc]
  rfl

theorem delimited_laterMembers (entries : List (Entry fields)) (rest : List Char) :
    Delimited (laterMembers entries ++ '}' :: rest) := by
  cases entries with
  | nil => exact .bracket rest
  | cons entry later => exact .comma _

theorem not_seen_of_nodup {entry : Entry fields} {later : List (Entry fields)}
    (hkeys : ((entry :: later).map Entry.key).Nodup)
    (hseen : ∀ other ∈ entry :: later, other.key ∉ seen) :
    ∀ other ∈ later, other.key ∉ entry.key :: seen := by
  intro other hother
  rw [List.map_cons, List.nodup_cons] at hkeys
  have hne : other.key ≠ entry.key := fun h => hkeys.1 (h ▸ List.mem_map_of_mem hother)
  simp [hne, hseen other (List.mem_cons_of_mem _ hother)]

/-- Members whose keys differ from one another and from the keys seen before do their
effects, one after another. -/
theorem membersFrom_laterMembers (entries : List (Entry fields)) (seen : List String) (record : α)
    (rest : List Char) (hkeys : (entries.map Entry.key).Nodup)
    (hseen : ∀ entry ∈ entries, entry.key ∉ seen) :
    membersFrom fields false seen record (laterMembers entries ++ '}' :: rest) =
      .ok (effects entries record, rest) := by
  induction entries generalizing seen record with
  | nil => exact membersFrom_of_ended rfl
  | cons entry later ih =>
      have hmember := member_of_entry entry (hseen entry List.mem_cons_self) record
        (delimited_laterMembers later rest)
      rw [laterMembers_cons_append, membersFrom_of_key rfl hmember]
      exact ih _ _ hkeys.of_cons (not_seen_of_nodup hkeys hseen)

theorem writeMembers_eq (members : List (String × Document)) :
    writeMembers members =
      members.map fun entry => Quoted.write entry.1.toList ++ ':' :: entry.2.write := by
  induction members with
  | nil => rfl
  | cons entry later ih => rw [writeMembers, ih, List.map_cons]

theorem intercalate_cons {γ : Type} (separator : γ) (first : List γ) (later : List (List γ)) :
    [separator].intercalate (first :: later) =
      first ++ later.flatMap fun item => separator :: item := by
  induction later generalizing first with
  | nil => rw [List.intercalate_singleton, List.flatMap_nil, List.append_nil]
  | cons second later ih =>
      rw [List.intercalate_cons_cons, ih, List.flatMap_cons, List.append_assoc]
      rfl

theorem write_object (entries : List (Entry fields)) (rest : List Char) :
    (Document.object (entries.map Entry.member)).write ++ rest =
      '{' :: ([','].intercalate (entries.map Entry.write) ++ '}' :: rest) := by
  rw [Document.write, writeMembers_eq, List.map_map, List.append_assoc]
  rfl

/-- **An object is read as the effects of its members**, provided that no key comes
twice. -/
theorem record_object (entries : List (Entry fields)) (hkeys : (entries.map Entry.key).Nodup)
    (defaults : α) (rest : List Char) :
    (Reader.record fields defaults).run
        ((Document.object (entries.map Entry.member)).write ++ rest) =
      .ok (effects entries defaults, rest) := by
  have hmembers : (members fields defaults).run
      ([','].intercalate (entries.map Entry.write) ++ '}' :: rest) =
        .ok (effects entries defaults, rest) := by
    change membersFrom fields true [] defaults _ = _
    cases entries with
    | nil => exact membersFrom_of_ended rfl
    | cons entry later =>
        -- The first member has no comma in front, so it is read by itself.
        have hmember := member_of_entry entry List.not_mem_nil defaults
          (delimited_laterMembers later rest)
        have hlater : (later.map Entry.write).flatMap (fun item => ',' :: item) =
            laterMembers later := List.flatMap_map ..
        rw [List.map_cons, intercalate_cons, hlater, List.append_assoc, Entry.write_append,
          membersFrom_of_key rfl hmember]
        exact membersFrom_laterMembers later _ _ rest hkeys.of_cons
          (not_seen_of_nodup hkeys fun other _ => List.not_mem_nil)
  rw [write_object]
  simp only [Reader.record, run_bind, upcoming_of_not_blank (c := '{') rfl, if_true, run_next,
    hmembers]

/-- An object from which members have been deleted is read as the effects of the members
that are left. -/
theorem record_without (gone : List String → Bool) {members : List (String × Document)}
    (entries : List (Entry fields))
    (hentries : entries.map Entry.member =
      members.map fun entry => (entry.1, entry.2.without fun place => gone (entry.1 :: place)))
    (hkeys : (entries.map Entry.key).Nodup) (defaults : α) (rest : List Char) :
    (Reader.record fields defaults).run
        (((Document.object members).without gone).write ++ rest) =
      .ok (effects (entries.filter fun entry => !gone [entry.key]) defaults, rest) := by
  rw [Document.without_object, ← hentries, List.filter_map]
  exact record_object _ (hkeys.sublist (List.filter_sublist.map _)) defaults rest

end Objects

end PeripheralHost.Json
