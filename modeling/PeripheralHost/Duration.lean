/-!
# Spans of time

A span is a whole number of nanoseconds. Settings are written in whole
milliseconds (`ofMillis`, `wholeMillis`), and messages show a span exactly:
in the largest of seconds, milliseconds, microseconds and nanoseconds whose
whole part is not zero, with as many decimals as the value needs and no
trailing zero (`text`). A clock reading is the span since an epoch nobody
needs to know, so readings and spans share one type.

Neither has an upper bound here. The clock of a machine has a last reading, and
a deadline beyond it cannot be computed there: a wait with such a budget does
not time out, it aborts the thread that asks for it. What is said here of waits
is said of those whose deadline the clock can show.
-/

namespace PeripheralHost

/-- A span of time, or a clock reading. -/
structure Duration where
  /-- Length in nanoseconds. -/
  nanos : Nat
  deriving DecidableEq, Repr, Inhabited

namespace Duration

/-- The empty span. -/
def zero : Duration := ⟨0⟩

/-- A span of whole milliseconds. -/
def ofMillis (millis : Nat) : Duration := ⟨millis * 1000000⟩

/-- A span of whole seconds and a remainder in nanoseconds. -/
def ofSeconds (seconds nanos : Nat) : Duration := ⟨seconds * 1000000000 + nanos⟩

/-- The number of whole milliseconds; what is left over is dropped. -/
def wholeMillis (span : Duration) : Nat := span.nanos / 1000000

/-- The number of whole seconds. -/
def wholeSeconds (span : Duration) : Nat := span.nanos / 1000000000

/-- The nanoseconds beyond the last whole second. -/
def subsecNanos (span : Duration) : Nat := span.nanos % 1000000000

instance : LE Duration := ⟨fun left right => left.nanos ≤ right.nanos⟩

instance (left right : Duration) : Decidable (left ≤ right) :=
  inferInstanceAs (Decidable (left.nanos ≤ right.nanos))

instance : Add Duration := ⟨fun left right => ⟨left.nanos + right.nanos⟩⟩

/-- The time from `start` until `finish`; nothing if `finish` comes first. -/
def between (start finish : Duration) : Duration := ⟨finish.nanos - start.nanos⟩

theorem le_iff {left right : Duration} : left ≤ right ↔ left.nanos ≤ right.nanos := Iff.rfl

@[simp] theorem nanos_add (left right : Duration) :
    (left + right).nanos = left.nanos + right.nanos := rfl

/-- A span has passed since `start` exactly when the clock has reached its end. -/
theorem le_between_iff {span start now : Duration} (h : start ≤ now) :
    span ≤ between start now ↔ start + span ≤ now := by
  simp only [le_iff, nanos_add, between] at *
  omega

@[simp] theorem wholeMillis_ofMillis (millis : Nat) :
    (ofMillis millis).wholeMillis = millis := by
  simp [ofMillis, wholeMillis]

/-- Rounding to whole milliseconds changes nothing exactly for spans that
are whole milliseconds already. -/
theorem ofMillis_wholeMillis_iff (span : Duration) :
    ofMillis span.wholeMillis = span ↔ 1000000 ∣ span.nanos := by
  cases span with
  | mk nanos => simp only [ofMillis, wholeMillis, mk.injEq]; omega

/-! ## Text -/

/-- The decimals of `part / 10 ^ places`, trailing zeros left out. -/
def decimals (places part : Nat) : List Char :=
  let padded := List.replicate (places - (Nat.toDigits 10 part).length) '0' ++ Nat.toDigits 10 part
  (padded.reverse.dropWhile (· == '0')).reverse

/-- The value of `nanos` in a unit of `10 ^ places` nanoseconds. -/
def inUnit (places : Nat) (unit : String) (nanos : Nat) : String :=
  let whole := toString (nanos / 10 ^ places)
  match decimals places (nanos % 10 ^ places) with
  | [] => whole ++ unit
  | digits => whole ++ "." ++ String.ofList digits ++ unit

/-- A span in the largest unit whose whole part is not zero. -/
def text (span : Duration) : String :=
  if span.nanos ≥ 10 ^ 9 then inUnit 9 "s" span.nanos
  else if span.nanos ≥ 10 ^ 6 then inUnit 6 "ms" span.nanos
  else if span.nanos ≥ 10 ^ 3 then inUnit 3 "µs" span.nanos
  else inUnit 0 "ns" span.nanos

end Duration

end PeripheralHost
