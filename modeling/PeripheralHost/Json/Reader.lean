/-!
# Reading text from left to right

A `Reader` takes a value off the front of a text, or says what is wrong at the
first place where something is. Texts are lists of characters. There are three
things that can be wrong (`Fault`): the text ends too soon, it is not JSON, or
it is JSON but not of the shape asked for. Readers are put together with `do`,
and since each one runs on what the one before has left, the fault of a
combination is always the leftmost.

A reader carries the law that it never gives back more than it was given
(`Reader.length_le`). The law passes through every combination, so a loop that
takes one character by itself and leaves the rest to readers ends.
-/

namespace PeripheralHost.Json

/-- What is wrong with a text. -/
inductive Fault where
  /-- It ends too soon. -/
  | truncated
  /-- It is not JSON. -/
  | malformed
  /-- It is JSON of another shape than asked for. -/
  | mismatched
  deriving DecidableEq, Repr, Inhabited

/-- Takes a value off the front of a text. -/
structure Reader (α : Type) where
  /-- The value and what is left of the text, or the fault. -/
  run : List Char → Except Fault (α × List Char)
  /-- Nothing is added to the text. -/
  length_le : ∀ {text rest : List Char} {value : α},
    run text = .ok (value, rest) → rest.length ≤ text.length

namespace Reader

variable {α β : Type}

instance : Monad Reader where
  pure value :=
    { run := fun text => .ok (value, text)
      length_le := by
        intro text rest value h
        simp only [Except.ok.injEq, Prod.mk.injEq] at h
        simp [h.2] }
  bind reader next :=
    { run := fun text =>
        match reader.run text with
        | .ok (value, rest) => (next value).run rest
        | .error fault => .error fault
      length_le := by
        intro text rest value h
        split at h
        · next middle hmiddle =>
            exact Nat.le_trans ((next _).length_le h) (reader.length_le hmiddle)
        · simp at h }

/-- Reads nothing and reports a fault. -/
def fail (fault : Fault) : Reader α where
  run _ := .error fault
  length_le := by simp

/-- The next character, left where it is. -/
def peek : Reader (Option Char) where
  run text := .ok (text.head?, text)
  length_le := by
    intro text rest value h
    simp only [Except.ok.injEq, Prod.mk.injEq] at h
    simp [h.2]

/-- Takes the next character, if there is one. -/
def next : Reader (Option Char) where
  run text := .ok (text.head?, text.tail)
  length_le := by
    intro text rest value h
    simp only [Except.ok.injEq, Prod.mk.injEq] at h
    simp [← h.2]

/-- Takes the characters up to the first that lacks a property. -/
def takeWhile (property : Char → Bool) : Reader (List Char) where
  run text := .ok (text.takeWhile property, text.dropWhile property)
  length_le := by
    intro text rest value h
    simp only [Except.ok.injEq, Prod.mk.injEq] at h
    rw [← h.2]
    exact (List.dropWhile_suffix property).length_le

/-- Takes a character if it comes next, and answers whether it did. -/
def accept (c : Char) : Reader Bool := do
  if (← peek) = some c then
    let _ ← next
    return true
  else return false

/-- Whether a character is blank between the tokens of a text. -/
def isBlank (c : Char) : Bool := c = ' ' || c = '\n' || c = '\t' || c = '\r'

/-- Takes the blanks that come next. -/
def skipBlanks : Reader Unit := do
  let _ ← takeWhile isBlank

/-- Takes a word, letter by letter. -/
def word : List Char → Reader Unit
  | [] => pure ()
  | letter :: letters => do
      match ← next with
      | none => fail .truncated
      | some c => if c = letter then word letters else fail .malformed

/-- The next character that is not blank, left where it is; a text that ends
there is truncated. -/
def upcoming : Reader Char := do
  skipBlanks
  match ← peek with
  | none => fail .truncated
  | some c => return c

/-- Reads a whole text, of which nothing but blanks may be left. -/
def readAll (reader : Reader α) (text : List Char) : Except Fault α :=
  match reader.run text with
  | .error fault => .error fault
  | .ok (value, rest) => if rest.all isBlank then .ok value else .error .malformed

end Reader

end PeripheralHost.Json
