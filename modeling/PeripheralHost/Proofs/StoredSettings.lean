import PeripheralHost.Proofs.Documents
import PeripheralHost.Settings.Stored

/-!
# Settings brought back from storage

The stored form of settings is a document. It is read back without fail, and
gives the settings with every span of time cut to the whole milliseconds it
was stored under, and the limits on taking in frames back at their defaults
(`SessionSettings.stored`). Any members may be deleted from the document, at
the top or in what stands under `serial`: the fields of these get their
defaults, and no other field changes (`SessionSettings.reset`).

## Main results

* `SessionSettings.load_without` — what is read from the document after
  deletions.
* `SessionSettings.storage_round_trip` — what becomes of settings that are
  stored.
-/

namespace PeripheralHost

open Json (Document Entry Reader effects)

/-! ## Spans of time -/

namespace Duration

/-- The span that comes back from storage. -/
def stored (span : Duration) : Duration := ofMillis span.storedMillis

/-- A span that is stored at its value: of whole milliseconds, and not too many. -/
def Storable (span : Duration) : Prop := 10 ^ 6 ∣ span.nanos ∧ span.wholeMillis ≤ storedLimit

theorem storedMillis_le (span : Duration) : span.storedMillis ≤ storedLimit := Nat.min_le_right _ _

theorem storedMillis_stored (span : Duration) : span.stored.storedMillis = span.storedMillis := by
  rw [stored, storedMillis, wholeMillis_ofMillis, Nat.min_eq_left span.storedMillis_le]

theorem stored_stored (span : Duration) : span.stored.stored = span.stored := by
  rw [stored, storedMillis_stored, ← stored]

theorem stored_eq_self_iff (span : Duration) : span.stored = span ↔ span.Storable := by
  cases span with
  | mk nanos =>
      simp only [stored, storedMillis, ofMillis, wholeMillis, Storable, storedLimit, mk.injEq]
      omega

end Duration

/-! ## Members -/

namespace Json

variable {α : Type} {fields : List (Field α)} {limit : Nat}

/-- The member that gives a number to a field. -/
def Entry.ofNatural (key : String) {get : α → Nat} {set : Nat → α → α}
    (found : fields.find? (fun field => field.key = key) = some (naturalField key limit get set))
    (hlimit : limit < 2 ^ 64) (value : Nat) (hvalue : value ≤ limit) : Entry fields where
  key := key
  value := .natural value
  effect := set value
  field := naturalField key limit get set
  found := found
  reads := fun record rest hrest => by
    simp only [naturalField, Document.write, Reader.run_bind,
      natural_writeNatural hvalue hlimit hrest, Reader.run_pure]

/-- The member that gives a span of time to a field. -/
def Entry.ofSpan (key : String) {get : α → Duration} {set : Duration → α → α}
    (found : fields.find? (fun field => field.key = key) = some (durationField key get set))
    (span : Duration) : Entry fields where
  key := key
  value := .natural span.storedMillis
  effect := set span.stored
  field := durationField key get set
  found := found
  reads := fun record rest hrest => by
    simp only [durationField, Document.write, Reader.run_bind,
      natural_writeNatural span.storedMillis_le (by decide) hrest, Reader.run_pure, Duration.stored]

end Json

namespace SerialSettings

/-- The document under which settings are stored. -/
def document (settings : SerialSettings) : Document := .object [
  ("path", .text settings.path),
  ("baud_rate", .natural settings.baudRate.toNat),
  ("timeout", .natural settings.timeout.storedMillis)]

/-- What comes back from storage. -/
def stored (settings : SerialSettings) : SerialSettings :=
  { settings with timeout := settings.timeout.stored }

/-- Settings of which certain fields are back at their defaults. -/
def reset (gone : List String → Bool) (settings : SerialSettings) : SerialSettings where
  path := if gone ["path"] then ({} : SerialSettings).path else settings.path
  baudRate := if gone ["baud_rate"] then ({} : SerialSettings).baudRate else settings.baudRate
  timeout := if gone ["timeout"] then ({} : SerialSettings).timeout else settings.timeout

/-- The members of the document. -/
def entries (settings : SerialSettings) : List (Entry fields) := [
  { key := "path"
    value := .text settings.path
    effect := fun other => { other with path := settings.path }
    field := _
    found := rfl
    reads := fun record rest _ => by
      simp only [Document.write, Reader.run_bind, Json.text_write, Reader.run_pure] },
  .ofNatural "baud_rate" rfl (by decide) settings.baudRate.toNat
    (Nat.le_sub_one_of_lt settings.baudRate.toNat_lt),
  .ofSpan "timeout" rfl settings.timeout]

theorem nodup_entries (settings : SerialSettings) :
    (settings.entries.map Entry.key).Nodup := by
  change ["path", "baud_rate", "timeout"].Nodup
  decide

theorem effects_entries (gone : List String → Bool) (settings : SerialSettings) :
    effects (settings.entries.filter fun entry => !gone [entry.key]) {} =
      settings.stored.reset gone := by
  simp only [effects, entries, Entry.ofNatural, Entry.ofSpan, reset, stored]
  -- The effects are on different fields, so each deletion shows in its own field only.
  cases hpath : gone ["path"] <;> cases hrate : gone ["baud_rate"] <;>
    cases hspan : gone ["timeout"] <;> simp [hpath, hrate, hspan]

/-- What is left of the document after deletions is read as the settings with the
defaults in the fields that were deleted. -/
theorem record_without_document (gone : List String → Bool) (settings : SerialSettings)
    (rest : List Char) :
    (Reader.record fields {}).run ((settings.document.without gone).write ++ rest) =
      .ok (settings.stored.reset gone, rest) := by
  rw [← effects_entries]
  exact Json.record_without gone settings.entries rfl settings.nodup_entries {} rest

end SerialSettings

namespace SessionSettings

/-- The document under which settings are stored. -/
def document (settings : SessionSettings) : Document := .object [
  ("serial", settings.serial.document),
  ("reply_timeout", .natural settings.replyTimeout.storedMillis),
  ("poll_interval", .natural settings.pollInterval.storedMillis),
  ("queue_capacity", .natural settings.queueCapacity.toNat)]

/-- The stored form is the document, written. -/
theorem store_eq (settings : SessionSettings) :
    settings.store = String.ofList settings.document.write := rfl

/-- What comes back from storage. -/
def stored (settings : SessionSettings) : SessionSettings where
  serial := settings.serial.stored
  replyTimeout := settings.replyTimeout.stored
  pollInterval := settings.pollInterval.stored
  queueCapacity := settings.queueCapacity
  frame := {}

/-- Settings of which certain stored fields are back at their defaults. A field of the port
is named behind `serial`. -/
def reset (gone : List String → Bool) (settings : SessionSettings) : SessionSettings where
  serial :=
    if gone ["serial"] then {} else settings.serial.reset fun place => gone ("serial" :: place)
  replyTimeout :=
    if gone ["reply_timeout"] then ({} : SessionSettings).replyTimeout else settings.replyTimeout
  pollInterval :=
    if gone ["poll_interval"] then ({} : SessionSettings).pollInterval else settings.pollInterval
  queueCapacity :=
    if gone ["queue_capacity"] then ({} : SessionSettings).queueCapacity
    else settings.queueCapacity
  frame := settings.frame

/-- The members of the document after deletions inside them. -/
def entries (gone : List String → Bool) (settings : SessionSettings) : List (Entry fields) := [
  { key := "serial"
    value := settings.serial.document.without fun place => gone ("serial" :: place)
    effect := fun other =>
      { other with serial := settings.serial.stored.reset fun place => gone ("serial" :: place) }
    field := _
    found := rfl
    reads := fun record rest _ => by
      simp only [Reader.run_bind, SerialSettings.record_without_document, Reader.run_pure] },
  .ofSpan "reply_timeout" rfl settings.replyTimeout,
  .ofSpan "poll_interval" rfl settings.pollInterval,
  .ofNatural "queue_capacity" rfl (by decide) settings.queueCapacity.toNat
    (Nat.le_sub_one_of_lt settings.queueCapacity.toNat_lt)]

theorem nodup_entries (gone : List String → Bool) (settings : SessionSettings) :
    ((settings.entries gone).map Entry.key).Nodup := by
  change ["serial", "reply_timeout", "poll_interval", "queue_capacity"].Nodup
  decide

theorem effects_entries (gone : List String → Bool) (settings : SessionSettings) :
    effects ((settings.entries gone).filter fun entry => !gone [entry.key]) {} =
      settings.stored.reset gone := by
  simp only [effects, entries, Entry.ofNatural, Entry.ofSpan, reset, stored]
  cases hserial : gone ["serial"] <;> cases hreply : gone ["reply_timeout"] <;>
    cases hpoll : gone ["poll_interval"] <;> cases hqueue : gone ["queue_capacity"] <;>
      simp [hserial, hreply, hpoll, hqueue]

/-- What is left of the document after deletions is read as the settings with the
defaults in the fields that were deleted. -/
theorem load_without (gone : List String → Bool) (settings : SessionSettings) :
    load (String.ofList (settings.document.without gone).write) =
      .ok (settings.stored.reset gone) := by
  have hread : (Reader.record fields {}).run (settings.document.without gone).write =
      .ok (settings.stored.reset gone, []) := by
    rw [← List.append_nil (Json.Document.write _), ← effects_entries]
    exact Json.record_without gone (settings.entries gone) rfl (settings.nodup_entries gone) {} []
  simp [load, Reader.readAll, hread]

/-! ## The round trip -/

theorem stored_stored (settings : SessionSettings) : settings.stored.stored = settings.stored := by
  simp only [stored, SerialSettings.stored, Duration.stored_stored]

theorem stored_eq_self_iff (settings : SessionSettings) :
    settings.stored = settings ↔
      (settings.serial.timeout.Storable ∧ settings.replyTimeout.Storable ∧
        settings.pollInterval.Storable) ∧ settings.frame = {} := by
  obtain ⟨⟨path, baudRate, timeout⟩, replyTimeout, pollInterval, queueCapacity, frame⟩ := settings
  simp only [stored, SerialSettings.stored, mk.injEq, SerialSettings.mk.injEq,
    Duration.stored_eq_self_iff, true_and, and_assoc, eq_comm (a := frame)]

/-- What is stored is the document from which nothing has been deleted. -/
theorem load_store (settings : SessionSettings) : load settings.store = .ok settings.stored := by
  rw [store_eq]
  exact load_without (fun _ => false) settings

/-- **What becomes of settings that are stored.** Stored settings are read back without fail,
whatever the path, and give the settings with each of the three spans cut to the least of
its whole milliseconds and `2 ^ 64 - 1`, and with the default limits on taking in frames.
So

* they come back as they were exactly if every span is of whole milliseconds, and of not
  too many, and the limits are the defaults;
* what came back once is stored and comes back as it is;
* any members may be deleted from the stored document, also those under `serial`: their
  fields come back at the defaults, and the other fields as if nothing had been deleted. -/
theorem storage_round_trip (settings : SessionSettings) :
    let cut (span : Duration) : Duration := .ofMillis (min span.wholeMillis (2 ^ 64 - 1))
    let back : SessionSettings := {
      settings with
      serial := { settings.serial with timeout := cut settings.serial.timeout }
      replyTimeout := cut settings.replyTimeout
      pollInterval := cut settings.pollInterval
      frame := {} }
    load settings.store = .ok back ∧
      (load settings.store = .ok settings ↔
        (settings.serial.timeout.Storable ∧ settings.replyTimeout.Storable ∧
          settings.pollInterval.Storable) ∧ settings.frame = {}) ∧
      load back.store = .ok back ∧
      settings.store = String.ofList settings.document.write ∧
      ∀ gone, load (String.ofList (settings.document.without gone).write) =
        .ok (back.reset gone) := by
  intro cut back
  have hback : back = settings.stored := rfl
  rw [hback]
  refine ⟨settings.load_store, ?_, ?_, settings.store_eq, fun gone => load_without gone settings⟩
  · rw [load_store, Except.ok.injEq, stored_eq_self_iff]
  · rw [load_store, stored_stored]

/-- A path that must be escaped, a span below a millisecond and one beyond 64 bits; then
without the path and the interval. -/
theorem storage_of_awkward_settings :
    let settings : SessionSettings := {
      serial := { path := "tty\"\\\n\x01é", baudRate := 9600, timeout := ⟨1999999⟩ }
      replyTimeout := .ofSeconds (2 ^ 64 - 1) 999999999
      pollInterval := ⟨999999⟩
      queueCapacity := 0
      frame := { maxBody := 8 } }
    let gone (place : List String) : Bool :=
      place = ["serial", "path"] || place = ["poll_interval"]
    load settings.store = .ok {
        serial := { path := "tty\"\\\n\x01é", baudRate := 9600, timeout := .ofMillis 1 }
        replyTimeout := .ofMillis (2 ^ 64 - 1)
        pollInterval := .zero
        queueCapacity := 0 } ∧
      load (String.ofList (settings.document.without gone).write) = .ok {
        serial := { baudRate := 9600, timeout := .ofMillis 1 }
        replyTimeout := .ofMillis (2 ^ 64 - 1)
        queueCapacity := 0 } := by
  intro settings gone
  obtain ⟨hback, -, -, -, hdeleted⟩ := storage_round_trip settings
  refine ⟨hback.trans (congrArg Except.ok ?_), (hdeleted gone).trans (congrArg Except.ok ?_)⟩
  · decide +kernel
  · decide +kernel

end SessionSettings

end PeripheralHost
