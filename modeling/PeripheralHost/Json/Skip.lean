import PeripheralHost.Json.Numeral
import PeripheralHost.Json.Quoted

/-!
# Passing over a value

A value nobody asked for is passed over: it must be JSON, and that is all.
Brackets may be nested to any depth, so the walk keeps the brackets that are
open in a list of its own, innermost first, and ends because every step behind
a complete value takes at least one character.
-/

namespace PeripheralHost.Json

namespace Reader

/-- The colon between a key and its value. -/
def colon : Reader Unit := do
  if (← upcoming) = ':' then
    let _ ← next
  else fail .malformed

/-- A key and its colon, passed over. -/
def passKey : Reader Unit := do
  if (← upcoming) = '"' then
    let _ ← next
    Quoted.passOver
    colon
  else fail .malformed

/-- Whether a numeral begins with this character. -/
def beginsNumeral (c : Char) : Bool := c = '-' || c.isDigit

/-- A value that no bracket opens and that begins with `c`, passed over. -/
def passScalar (c : Char) : Reader Unit :=
  match c with
  | 'n' => word ['n', 'u', 'l', 'l']
  | 't' => word ['t', 'r', 'u', 'e']
  | 'f' => word ['f', 'a', 'l', 's', 'e']
  | '"' => do
      let _ ← next
      Quoted.passOver
  | c =>
      if beginsNumeral c then do
        let _ ← numeral .malformed
      else fail .malformed

end Reader

namespace Skip

open Reader (isBlank)

/-- A bracket that is open. -/
inductive Bracket where
  /-- Of a list. -/
  | list
  /-- Of an object. -/
  | object
  deriving DecidableEq, Repr

/-- The character that closes a bracket. -/
def Bracket.closing : Bracket → Char
  | list => ']'
  | object => '}'

/-- What is due next. -/
inductive Due where
  /-- A value. -/
  | value
  /-- What follows a value: a comma, or the end of the innermost bracket. -/
  | sequel
  deriving DecidableEq, Repr

/-- The rank of what is due, for the measure of the walk. -/
def Due.rank : Due → Nat
  | value => 1
  | sequel => 0

/-- The text from its first character on that is not blank. -/
def pastBlanks (text : List Char) : List Char := text.dropWhile isBlank

theorem length_pastBlanks_le (text : List Char) : (pastBlanks text).length ≤ text.length :=
  (List.dropWhile_suffix isBlank).length_le

theorem length_lt_of_pastBlanks {text rest : List Char} {c : Char}
    (h : pastBlanks text = c :: rest) : rest.length < text.length := by
  have := length_pastBlanks_le text
  simp only [h, List.length_cons] at this
  omega

/-- Passes over what an opened bracket asks for ahead of its next value: a key
in an object, nothing in a list. -/
def passLabel : Bracket → Reader Unit
  | .list => pure ()
  | .object => Reader.passKey

/-- Walks on until no bracket is open. -/
def walk (due : Due) (enclosing : List Bracket) (text : List Char) : Except Fault (List Char) :=
  match due, enclosing with
  | .value, enclosing =>
      match _hp : pastBlanks text with
      | [] => .error .truncated
      | c :: rest =>
          if c = '[' || c = '{' then
            let bracket := if c = '[' then Bracket.list else Bracket.object
            match _hq : pastBlanks rest with
            | [] => .error .truncated
            | d :: behind =>
                if d = bracket.closing then walk .sequel enclosing behind
                else
                  match _hl : (passLabel bracket).run rest with
                  | .ok (_, rest) => walk .value (bracket :: enclosing) rest
                  | .error fault => .error fault
          else
            match _hs : (Reader.passScalar c).run (c :: rest) with
            | .ok (_, rest) => walk .sequel enclosing rest
            | .error fault => .error fault
  | .sequel, [] => .ok text
  | .sequel, bracket :: enclosing =>
      match _hp : pastBlanks text with
      | [] => .error .truncated
      | c :: rest =>
          if c = bracket.closing then walk .sequel enclosing rest
          else if c = ',' then
            match _hl : (passLabel bracket).run rest with
            | .ok (_, rest) => walk .value (bracket :: enclosing) rest
            | .error fault => .error fault
          else .error .malformed
termination_by 2 * text.length + due.rank
decreasing_by
  all_goals simp only [Due.rank]
  · have := length_lt_of_pastBlanks _hp
    have := length_lt_of_pastBlanks _hq
    omega
  · have := length_lt_of_pastBlanks _hp
    have := (passLabel _).length_le _hl
    omega
  · have := length_pastBlanks_le text
    have := (Reader.passScalar _).length_le _hs
    simp only [_hp, List.length_cons] at *
    omega
  · have := length_lt_of_pastBlanks _hp
    omega
  · have := length_lt_of_pastBlanks _hp
    have := (passLabel _).length_le _hl
    omega

theorem length_walk_le {due : Due} {enclosing : List Bracket} {text rest : List Char}
    (h : walk due enclosing text = .ok rest) : rest.length ≤ text.length := by
  fun_induction walk due enclosing text with
  | case1 => simp at h
  | case2 => simp at h
  | case3 text enclosing c behind hp _ bracket last hq ih =>
      have := ih h
      have := length_lt_of_pastBlanks hp
      have := length_lt_of_pastBlanks hq
      omega
  | case4 text enclosing c behind hp _ bracket d last hq _ _ after hl ih =>
      have := ih h
      have := length_lt_of_pastBlanks hp
      have := (passLabel _).length_le hl
      omega
  | case5 => simp at h
  | case6 text enclosing c behind hp _ _ after hs ih =>
      have := ih h
      have := length_pastBlanks_le text
      have := (Reader.passScalar _).length_le hs
      simp only [hp, List.length_cons] at *
      omega
  | case7 => simp at h
  | case8 =>
      simp only [Except.ok.injEq] at h
      simp [h]
  | case9 => simp at h
  | case10 text bracket enclosing behind hp ih =>
      have := ih h
      have := length_lt_of_pastBlanks hp
      omega
  | case11 text bracket enclosing behind _ after hl hp _ ih =>
      have := ih h
      have := length_lt_of_pastBlanks hp
      have := (passLabel _).length_le hl
      omega
  | case12 => simp at h
  | case13 => simp at h

end Skip

/-- Passes over a value. -/
def Reader.passValue : Reader Unit where
  run text :=
    match Skip.walk .value [] text with
    | .ok rest => .ok ((), rest)
    | .error fault => .error fault
  length_le := by
    intro text rest value h
    split at h
    · next hwalk =>
        simp only [Except.ok.injEq, Prod.mk.injEq] at h
        rw [← h.2]
        exact Skip.length_walk_le hwalk
    · simp at h

end PeripheralHost.Json
