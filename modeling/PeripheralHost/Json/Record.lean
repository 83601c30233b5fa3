import PeripheralHost.Json.Skip

/-!
# Records

A record is stored as an object with one member per field. It is described by
its fields (`Field`): the key, how the value of the key is read into the
record, and how it is written. One description serves reading and writing.

Reading starts from a record of defaults and is forgiving about what is there,
and strict about its form.

* A field that is missing keeps its default, and a key that belongs to no field
  is passed over with its value.
* A key that comes twice is refused, unless it belongs to no field.
* Instead of an object there may be a list: the values of the first few fields
  in the order of the description, and nothing more.
* A value of another kind than asked for is refused as mismatched, but only if
  it is JSON; a bracket is refused without a look inside.
-/

namespace PeripheralHost.Json

/-- A field of a record. -/
structure Field (α : Type) where
  /-- The key of the member. -/
  key : String
  /-- Reads the value into a record. -/
  read : α → Reader α
  /-- Writes the value of a record. -/
  write : α → List Char

namespace Reader

variable {α : Type}

/-! ## Values -/

/-- Refuses the value that begins with `c`. -/
def mismatch (c : Char) : Reader α :=
  match c with
  | '[' | '{' => fail .mismatched
  | '"' => do
      let _ ← next
      let _ ← Quoted.contents
      fail .mismatched
  | c =>
      if beginsNumeral c then do
        let _ ← number
        fail .mismatched
      else do
        passScalar c
        fail .mismatched

/-- A natural number of at most `limit`. -/
def natural (limit : Nat) : Reader Nat := do
  let c ← upcoming
  if beginsNumeral c then
    match ← number with
    | .natural value => if value ≤ limit then return value else fail .mismatched
    | .other => fail .mismatched
  else mismatch c

/-- Quoted text. -/
def text : Reader String := do
  let c ← upcoming
  if c = '"' then
    let _ ← next
    return String.ofList (← Quoted.contents)
  else mismatch c

/-! ## Objects -/

/-- What comes next in an object. -/
inductive Member where
  /-- The end of the object, and what follows it. -/
  | ended (rest : List Char)
  /-- A key, of which the quotation mark has been taken. -/
  | key (rest : List Char)
  deriving DecidableEq, Repr

/-- Finds the next member of an object, behind its bracket or behind a
member. -/
def nextMember (first : Bool) (text : List Char) : Except Fault Member :=
  match Skip.pastBlanks text with
  | [] => .error .truncated
  | '}' :: rest => .ok (.ended rest)
  | c :: rest =>
      if first then if c = '"' then .ok (.key rest) else .error .malformed
      else if c = ',' then
        match Skip.pastBlanks rest with
        | [] => .error .truncated
        | '"' :: rest => .ok (.key rest)
        | _ => .error .malformed
      else .error .malformed

theorem length_nextMember {first : Bool} {text : List Char} {member : Member}
    (h : nextMember first text = .ok member) :
    match member with
    | .ended rest => rest.length < text.length
    | .key rest => rest.length < text.length := by
  unfold nextMember at h
  split at h
  · simp at h
  · next hp =>
      simp only [Except.ok.injEq] at h
      subst h
      exact Skip.length_lt_of_pastBlanks hp
  · next hp =>
      have := Skip.length_lt_of_pastBlanks hp
      split at h
      · split at h
        · simp only [Except.ok.injEq] at h
          subst h
          exact this
        · simp at h
      · split at h
        · split at h
          · simp at h
          · next hq =>
              simp only [Except.ok.injEq] at h
              subst h
              exact Nat.lt_trans (Skip.length_lt_of_pastBlanks hq) this
          · simp at h
        · simp at h

/-- The rest of a member behind the quotation mark of its key: the record with
the member's value, and the keys of the fields seen so far. -/
def member (fields : List (Field α)) (seen : List String) (record : α) :
    Reader (α × List String) := do
  let key := String.ofList (← Quoted.contents)
  match fields.find? fun field => field.key = key with
  | some field =>
      if key ∈ seen then fail .mismatched
      else
        colon
        return (← field.read record, key :: seen)
  | none =>
      colon
      passValue
      return (record, seen)

/-- The members of an object up to its end, that included. -/
def membersFrom (fields : List (Field α)) (first : Bool) (seen : List String) (record : α)
    (text : List Char) : Except Fault (α × List Char) :=
  match _hn : nextMember first text with
  | .error fault => .error fault
  | .ok (.ended rest) => .ok (record, rest)
  | .ok (.key rest) =>
      match _hm : (member fields seen record).run rest with
      | .error fault => .error fault
      | .ok ((record, seen), rest) => membersFrom fields false seen record rest
termination_by text.length
decreasing_by
  have := length_nextMember _hn
  have := (member _ _ _).length_le _hm
  simp only at *
  omega

theorem length_membersFrom_le {fields : List (Field α)} {first : Bool} {seen : List String}
    {record value : α} {text rest : List Char}
    (h : membersFrom fields first seen record text = .ok (value, rest)) :
    rest.length ≤ text.length := by
  fun_induction membersFrom fields first seen record text with
  | case1 => simp at h
  | case2 first seen record text behind hn =>
      have := length_nextMember hn
      simp only [Except.ok.injEq, Prod.mk.injEq] at h
      simp only [h.2] at this
      omega
  | case3 => simp at h
  | case4 first seen record text behind hn record' seen' after hm ih =>
      have := length_nextMember hn
      have := (member _ _ _).length_le hm
      have := ih h
      simp only at *
      omega

/-- The members of an object behind its opening bracket. -/
def members (fields : List (Field α)) (record : α) : Reader α where
  run := membersFrom fields true [] record
  length_le := length_membersFrom_le

/-! ## Lists -/

/-- The values of a list behind its opening bracket, for the given fields. -/
def elements : List (Field α) → (first : Bool) → α → Reader α
  | [], _, record => do
      if (← upcoming) = ']' then
        let _ ← next
        return record
      else fail .malformed
  | field :: fields, first, record => do
      let c ← upcoming
      if c = ']' then
        let _ ← next
        return record
      else if first then elements fields false (← field.read record)
      else if c = ',' then
        let _ ← next
        if (← upcoming) = ']' then fail .malformed
        else elements fields false (← field.read record)
      else fail .malformed

/-! ## Records -/

/-- A record, starting from the given one. -/
def record (fields : List (Field α)) (defaults : α) : Reader α := do
  let c ← upcoming
  if c = '{' then
    let _ ← next
    members fields defaults
  else if c = '[' then
    let _ ← next
    elements fields true defaults
  else mismatch c

end Reader

/-! ## Writing -/

/-- The decimal digits of a natural number. -/
def writeNatural (value : Nat) : List Char := Nat.toDigits 10 value

/-- A member of an object. -/
def Field.member {α : Type} (record : α) (field : Field α) : List Char :=
  Quoted.write field.key.toList ++ ':' :: field.write record

/-- A record as an object with all its fields. -/
def writeRecord {α : Type} (fields : List (Field α)) (record : α) : List Char :=
  '{' :: [','].intercalate (fields.map (Field.member record)) ++ ['}']

end PeripheralHost.Json
