import PeripheralHost.Json.Record
import PeripheralHost.Settings.Basic

/-!
# Settings in storage

Settings are kept as JSON. Spans of time are whole milliseconds; a span that
has a part of a millisecond loses it, and one too long for 64 bits is kept as
the longest that is not. The limits on taking in frames are no part of the
stored form, so settings that were stored come back with the default limits.
-/

namespace PeripheralHost

open Json (Reader)

/-- The longest span in milliseconds that is stored at its value. -/
def Duration.storedLimit : Nat := 2 ^ 64 - 1

/-- The whole milliseconds under which a span is stored. -/
def Duration.storedMillis (span : Duration) : Nat := min span.wholeMillis Duration.storedLimit

namespace Json

/-- A field that holds a span of time. -/
def durationField {α : Type} (key : String) (get : α → Duration) (set : Duration → α → α) :
    Field α where
  key := key
  read record := do return set (.ofMillis (← Reader.natural Duration.storedLimit)) record
  write record := writeNatural (get record).storedMillis

/-- A field that holds a natural number of at most `limit`. -/
def naturalField {α : Type} (key : String) (limit : Nat) (get : α → Nat) (set : Nat → α → α) :
    Field α where
  key := key
  read record := do return set (← Reader.natural limit) record
  write record := writeNatural (get record)

end Json

namespace SerialSettings

/-- The stored fields, in order. -/
def fields : List (Json.Field SerialSettings) := [
  { key := "path"
    read := fun settings => do return { settings with path := ← Reader.text }
    write := fun settings => Json.Quoted.write settings.path.toList },
  Json.naturalField "baud_rate" (2 ^ 32 - 1) (·.baudRate.toNat)
    fun value settings => { settings with baudRate := UInt32.ofNat value },
  Json.durationField "timeout" (·.timeout) fun value settings => { settings with timeout := value }
]

/-- Reads settings from their stored form. -/
def load (text : String) : Except Json.Fault SerialSettings :=
  (Reader.record fields {}).readAll text.toList

/-- The stored form of settings. -/
def store (settings : SerialSettings) : String :=
  String.ofList (Json.writeRecord fields settings)

end SerialSettings

namespace SessionSettings

/-- The stored fields, in order. -/
def fields : List (Json.Field SessionSettings) := [
  { key := "serial"
    read := fun settings => do
      return { settings with serial := ← Reader.record SerialSettings.fields {} }
    write := fun settings => Json.writeRecord SerialSettings.fields settings.serial },
  Json.durationField "reply_timeout" (·.replyTimeout)
    fun value settings => { settings with replyTimeout := value },
  Json.durationField "poll_interval" (·.pollInterval)
    fun value settings => { settings with pollInterval := value },
  Json.naturalField "queue_capacity" (2 ^ 64 - 1) (·.queueCapacity.toNat)
    fun value settings => { settings with queueCapacity := UInt64.ofNat value }
]

/-- Reads settings from their stored form. -/
def load (text : String) : Except Json.Fault SessionSettings :=
  (Reader.record fields {}).readAll text.toList

/-- The stored form of settings. -/
def store (settings : SessionSettings) : String :=
  String.ofList (Json.writeRecord fields settings)

end SessionSettings

end PeripheralHost
