import PeripheralHost.Json.Reader

/-!
# Quoted text

Text stands between quotation marks. Inside, a reverse solidus begins an
escape, and control characters must be escaped. An escape names a character by
a letter, or a UTF-16 unit by four hexadecimal digits; a character beyond the
basic plane is named by the two units of its surrogate pair (`Quoted.contents`).

Where text is passed over and its value does not matter, a surrogate may
stand alone (`Quoted.passOver`).

Four digits are looked for among the octets of the text's UTF-8 form: a text
with fewer than four octets left is truncated, whatever they are.

## Main results

* `contents_escaped` — text that was escaped for writing (`Quoted.escaped`)
  is read back.
-/

namespace PeripheralHost.Json.Quoted

-- A sum of sizes starts from the literal zero, whatever other zeros are declared.
attribute [local instance (1100)] Zero.ofOfNat0

/-- The least character that needs no escape of its own. -/
def leastPlain : Nat := 0x20

/-- The character named by the letter of an escape. -/
def named : Char → Option Char
  | '"' => some '"'
  | '\\' => some '\\'
  | '/' => some '/'
  | 'b' => some '\x08'
  | 'f' => some '\x0c'
  | 'n' => some '\n'
  | 'r' => some '\r'
  | 't' => some '\t'
  | _ => none

/-- The value of a hexadecimal digit of either case. -/
def hexValue (c : Char) : Option Nat :=
  if '0' ≤ c ∧ c ≤ '9' then some (c.toNat - '0'.toNat)
  else if 'a' ≤ c ∧ c ≤ 'f' then some (c.toNat - 'a'.toNat + 10)
  else if 'A' ≤ c ∧ c ≤ 'F' then some (c.toNat - 'A'.toNat + 10)
  else none

/-- A UTF-16 unit written with four hexadecimal digits. -/
def unit (text : List Char) : Except Fault (Nat × List Char) :=
  if ((text.take 4).map Char.utf8Size).sum < 4 then .error .truncated
  else
    match (text.take 4).mapM hexValue with
    | some [a, b, c, d] => .ok (((a * 16 + b) * 16 + c) * 16 + d, text.drop 4)
    | _ => .error .malformed

/-- Whether a unit is the first of a surrogate pair. -/
def isLeading (unit : Nat) : Bool := 0xD800 ≤ unit && unit ≤ 0xDBFF

/-- Whether a unit is the second of a surrogate pair. -/
def isTrailing (unit : Nat) : Bool := 0xDC00 ≤ unit && unit ≤ 0xDFFF

/-- Takes the two characters ahead of the digits of a unit. -/
def unitMark : List Char → Except Fault (List Char)
  | [] => .error .truncated
  | '\\' :: [] => .error .truncated
  | '\\' :: 'u' :: rest => .ok rest
  | _ => .error .malformed

/-- The character whose units follow. -/
def ofUnits (text : List Char) : Except Fault (Char × List Char) :=
  match unit text with
  | .error fault => .error fault
  | .ok (first, rest) =>
      if isTrailing first then .error .malformed
      else if isLeading first then
        match unitMark rest with
        | .error fault => .error fault
        | .ok rest =>
            match unit rest with
            | .error fault => .error fault
            | .ok (second, rest) =>
                if isTrailing second then
                  .ok (Char.ofNat ((first - 0xD800) * 1024 + (second - 0xDC00) + 0x10000), rest)
                else .error .malformed
      else .ok (Char.ofNat first, rest)

/-- The character of the escape that follows. -/
def escape : List Char → Except Fault (Char × List Char)
  | [] => .error .truncated
  | 'u' :: rest => ofUnits rest
  | letter :: rest =>
      match named letter with
      | some c => .ok (c, rest)
      | none => .error .malformed

/-- Passes over the escape that follows. -/
def passEscape : List Char → Except Fault (List Char)
  | [] => .error .truncated
  | 'u' :: rest =>
      match unit rest with
      | .ok (_, rest) => .ok rest
      | .error fault => .error fault
  | letter :: rest => if (named letter).isSome then .ok rest else .error .malformed

theorem length_unit_le {text rest : List Char} {value : Nat} (h : unit text = .ok (value, rest)) :
    rest.length ≤ text.length := by
  unfold unit at h
  split at h
  · simp at h
  · split at h
    · simp only [Except.ok.injEq, Prod.mk.injEq] at h
      simp [← h.2]
    · simp at h

theorem length_unitMark_le {text rest : List Char} (h : unitMark text = .ok rest) :
    rest.length ≤ text.length := by
  unfold unitMark at h
  split at h <;> simp at h
  simp only [← h, List.length_cons]
  omega

theorem length_ofUnits_le {text rest : List Char} {c : Char} (h : ofUnits text = .ok (c, rest)) :
    rest.length ≤ text.length := by
  unfold ofUnits at h
  split at h
  · simp at h
  · next first behind hfirst =>
      have := length_unit_le hfirst
      split at h
      · simp at h
      · split at h
        · split at h
          · simp at h
          · next marked hmark =>
              have := length_unitMark_le hmark
              split at h
              · simp at h
              · next second last hsecond =>
                  have := length_unit_le hsecond
                  split at h
                  · simp only [Except.ok.injEq, Prod.mk.injEq] at h
                    rw [← h.2]
                    omega
                  · simp at h
        · simp only [Except.ok.injEq, Prod.mk.injEq] at h
          rw [← h.2]
          omega

theorem length_escape_le {text rest : List Char} {c : Char} (h : escape text = .ok (c, rest)) :
    rest.length ≤ text.length := by
  unfold escape at h
  split at h
  · simp at h
  · have := length_ofUnits_le h
    simp only [List.length_cons]
    omega
  · split at h
    · simp only [Except.ok.injEq, Prod.mk.injEq] at h
      simp [← h.2]
    · simp at h

theorem length_passEscape_le {text rest : List Char} (h : passEscape text = .ok rest) :
    rest.length ≤ text.length := by
  unfold passEscape at h
  split at h
  · simp at h
  · split at h
    · next hunit =>
        have := length_unit_le hunit
        simp only [Except.ok.injEq] at h
        simp only [← h, List.length_cons]
        omega
    · simp at h
  · split at h
    · simp only [Except.ok.injEq] at h
      simp [← h]
    · simp at h

/-- What stands before the closing quotation mark, behind the characters in
`seen`, newest first. -/
def contentsFrom (seen : List Char) (text : List Char) : Except Fault (List Char × List Char) :=
  match text with
  | [] => .error .truncated
  | '"' :: rest => .ok (seen.reverse, rest)
  | '\\' :: rest =>
      match _h : escape rest with
      | .ok (c, rest) => contentsFrom (c :: seen) rest
      | .error fault => .error fault
  | c :: rest =>
      if c.toNat < leastPlain then .error .malformed else contentsFrom (c :: seen) rest
termination_by text.length
decreasing_by
  · have := length_escape_le _h
    simp only [List.length_cons]
    omega
  · simp

/-- Passes over everything up to the closing quotation mark, that included. -/
def passOverFrom (text : List Char) : Except Fault (List Char) :=
  match text with
  | [] => .error .truncated
  | '"' :: rest => .ok rest
  | '\\' :: rest =>
      match _h : passEscape rest with
      | .ok rest => passOverFrom rest
      | .error fault => .error fault
  | c :: rest => if c.toNat < leastPlain then .error .malformed else passOverFrom rest
termination_by text.length
decreasing_by
  · have := length_passEscape_le _h
    simp only [List.length_cons]
    omega
  · simp

theorem length_contentsFrom_le {seen text rest value : List Char}
    (h : contentsFrom seen text = .ok (value, rest)) : rest.length ≤ text.length := by
  fun_induction contentsFrom seen text with
  | case1 => simp at h
  | case2 seen behind =>
      simp only [Except.ok.injEq, Prod.mk.injEq] at h
      simp [← h.2]
  | case3 seen behind c after hescape ih =>
      have := length_escape_le hescape
      have := ih h
      simp only [List.length_cons]
      omega
  | case4 => simp at h
  | case5 => simp at h
  | case6 seen c behind _ _ _ ih =>
      have := ih h
      simp only [List.length_cons]
      omega

theorem length_passOverFrom_le {text rest : List Char} (h : passOverFrom text = .ok rest) :
    rest.length ≤ text.length := by
  fun_induction passOverFrom text with
  | case1 => simp at h
  | case2 behind =>
      simp only [Except.ok.injEq] at h
      simp [← h]
  | case3 behind after hescape ih =>
      have := length_passEscape_le hescape
      have := ih h
      simp only [List.length_cons]
      omega
  | case4 => simp at h
  | case5 => simp at h
  | case6 c behind _ _ _ ih =>
      have := ih h
      simp only [List.length_cons]
      omega

/-- Reads text behind its opening quotation mark. -/
def contents : Reader (List Char) where
  run := contentsFrom []
  length_le := length_contentsFrom_le

/-- Passes over text behind its opening quotation mark. -/
def passOver : Reader Unit where
  run text :=
    match passOverFrom text with
    | .ok rest => .ok ((), rest)
    | .error fault => .error fault
  length_le := by
    intro text rest value h
    split at h
    · next hpass =>
        simp only [Except.ok.injEq, Prod.mk.injEq] at h
        rw [← h.2]
        exact length_passOverFrom_le hpass
    · simp at h

/-! ## Writing -/

/-- A hexadecimal digit, in lower case. -/
def hexDigit (value : Nat) : Char := "0123456789abcdef".toList.getD value '0'

/-- The form in which a character stands between quotation marks. -/
def escaped (c : Char) : List Char :=
  match c with
  | '"' => ['\\', '"']
  | '\\' => ['\\', '\\']
  | '\x08' => ['\\', 'b']
  | '\x0c' => ['\\', 'f']
  | '\n' => ['\\', 'n']
  | '\r' => ['\\', 'r']
  | '\t' => ['\\', 't']
  | c =>
      if c.toNat < leastPlain then
        ['\\', 'u', '0', '0', hexDigit (c.toNat / 16), hexDigit (c.toNat % 16)]
      else [c]

/-- Text between quotation marks. -/
def write (text : List Char) : List Char := '"' :: text.flatMap escaped ++ ['"']

/-! ## Reading what was written -/

private theorem hexValue_hexDigit : ∀ value < 16, hexValue (hexDigit value) = some value := by
  decide

private theorem utf8Size_hexDigit : ∀ value < 16, (hexDigit value).utf8Size = 1 := by
  decide

private theorem escape_control {c : Char} (h : c.toNat < leastPlain) (rest : List Char) :
    escape ('u' :: '0' :: '0' :: hexDigit (c.toNat / 16) :: hexDigit (c.toNat % 16) :: rest) =
      .ok (c, rest) := by
  unfold leastPlain at h
  have upper : c.toNat / 16 < 16 := by omega
  have lower : c.toNat % 16 < 16 := by omega
  have zero : hexValue '0' = some 0 := by decide
  have value : unit ('0' :: '0' :: hexDigit (c.toNat / 16) :: hexDigit (c.toNat % 16) :: rest) =
      .ok (c.toNat, rest) := by
    have size : '0'.utf8Size = 1 := by decide
    simp [unit, size, utf8Size_hexDigit _ upper, utf8Size_hexDigit _ lower, zero,
      hexValue_hexDigit _ upper, hexValue_hexDigit _ lower]
    omega
  have single : isTrailing c.toNat = false ∧ isLeading c.toNat = false := by
    simp only [isTrailing, isLeading, Bool.and_eq_false_iff, decide_eq_false_iff_not]
    omega
  simp [escape, ofUnits, value, single]

private theorem contentsFrom_of_escape {seen behind rest : List Char} {c : Char}
    (h : escape behind = .ok (c, rest)) :
    contentsFrom seen ('\\' :: behind) = contentsFrom (c :: seen) rest := by
  rw [contentsFrom]
  split <;> rename_i h' <;> rw [h] at h' <;> cases h'
  rfl

private theorem contentsFrom_of_plain {seen rest : List Char} {c : Char} (quote : c ≠ '"')
    (mark : c ≠ '\\') (h : ¬ c.toNat < leastPlain) :
    contentsFrom seen (c :: rest) = contentsFrom (c :: seen) rest := by
  rw [contentsFrom]
  · simp [h]
  · exact quote
  · exact mark

theorem contentsFrom_escaped (seen : List Char) (c : Char) (rest : List Char) :
    contentsFrom seen (escaped c ++ rest) = contentsFrom (c :: seen) rest := by
  unfold escaped
  split
  case h_8 quote mark _ _ _ _ _ =>
    split
    · next control => exact contentsFrom_of_escape (escape_control control rest)
    · next plain => exact contentsFrom_of_plain quote mark plain
  all_goals exact contentsFrom_of_escape rfl

theorem contents_escaped (text rest : List Char) :
    contents.run (text.flatMap escaped ++ '"' :: rest) = .ok (text, rest) := by
  have general : ∀ seen, contentsFrom seen (text.flatMap escaped ++ '"' :: rest) =
      .ok (seen.reverse ++ text, rest) := by
    induction text with
    | nil => intro seen; simp [contentsFrom]
    | cons c text ih =>
        intro seen
        simp only [List.flatMap_cons, List.append_assoc]
        rw [contentsFrom_escaped, ih]
        simp
  simpa [contents] using general []

end PeripheralHost.Json.Quoted
