import Mathlib.Data.List.Flatten
import PeripheralHost.Mailbox

/-!
# What goes through a mailbox

Whoever uses a mailbox has it to himself until he is done, so what several
callers and the receiver do with it is a row of accesses, one behind the other
(`Mailbox.Access`). A caller who waits makes an access for every look, and others
make theirs between two looks (`Mailbox.wait`).

Frames can be equal, and an access sees only frames. To tell which frame is which,
a `Ledger` is kept on the side: every frame pushed gets a ticket with its number,
and the ledger does with tickets what the mailbox does with frames
(`Ledger.access_box`). Whatever the accesses are, the tickets kept are the last
ones given out, without a gap, since every access takes them from the front or
takes all. From this one fact follow the others: tickets come out in the order in
which they went in, each at most once, and a full mailbox gives up the frame
pushed exactly as many pushes ago as it has room (`Mailbox.ledger_of_accesses`).

## Main results

* `Mailbox.Ledger.access_box` — the ledger tells what the mailbox does.
* `Mailbox.Ledger.Sound.access` — what one access keeps.
* `Mailbox.ledger_of_accesses` — what holds after any row of accesses.
* `Mailbox.awaitReply_eq_wait`, `Mailbox.awaitLatest_eq_wait` — the waits of a
  mailbox are made of accesses.
-/

namespace PeripheralHost

/-! ## Acts in turn -/

section InTurn

variable {α β σ : Type} {act : α → σ → β × σ}

/-- Makes acts one behind the other; answers what each brought to light. -/
def inTurn (act : α → σ → β × σ) : List α → σ → List β × σ
  | [], state => ([], state)
  | first :: acts, state =>
      let acted := act first state
      let later := inTurn act acts acted.2
      (acted.1 :: later.1, later.2)

theorem inTurn_append (earlier later : List α) (state : σ) :
    inTurn act (earlier ++ later) state =
      ((inTurn act earlier state).1 ++ (inTurn act later (inTurn act earlier state).2).1,
        (inTurn act later (inTurn act earlier state).2).2) := by
  induction earlier generalizing state with
  | nil => rfl
  | cons first earlier ih =>
      rw [List.cons_append, inTurn, ih]
      rfl

theorem length_inTurn (acts : List α) (state : σ) :
    (inTurn act acts state).1.length = acts.length := by
  induction acts generalizing state with
  | nil => rfl
  | cons first acts ih => rw [inTurn, List.length_cons, List.length_cons, ih]

/-- What lies between two looks of a waiting caller. -/
structure Pause (α : Type) where
  /-- The clock after the look in vain. -/
  reading : Duration
  /-- What others do before the next look. -/
  others : List α
  deriving DecidableEq, Repr

variable {returned : β → Option Frame} {glance : α} {deadline : Duration} {state : σ}

/-- A caller looks until he is given a frame or the deadline is reached. Answers how
the wait stands behind the last pause, and the acts made meanwhile. -/
def waitInTurn (act : α → σ → β × σ) (returned : β → Option Frame) (glance : α)
    (deadline : Duration) : List (Pause α) → σ → Mailbox.Wait × List α
  | pauses, state =>
      match returned (act glance state).1 with
      | some frame => (.served frame, [glance])
      | none =>
          match pauses with
          | [] => (.asleep, [glance])
          | pause :: later =>
              if deadline ≤ pause.reading then (.expired, [glance])
              else
                let rest := waitInTurn act returned glance deadline later
                  (inTurn act pause.others (act glance state).2).2
                (rest.1, glance :: pause.others ++ rest.2)

theorem waitInTurn_of_served {frame : Frame} (pauses : List (Pause α))
    (h : returned (act glance state).1 = some frame) :
    waitInTurn act returned glance deadline pauses state = (.served frame, [glance]) := by
  unfold waitInTurn
  rw [h]

theorem waitInTurn_of_expired {pause : Pause α} (later : List (Pause α))
    (h : returned (act glance state).1 = none) (hreading : deadline ≤ pause.reading) :
    waitInTurn act returned glance deadline (pause :: later) state = (.expired, [glance]) := by
  rw [waitInTurn, h]
  simp only [if_pos hreading]

theorem waitInTurn_of_missing {pause : Pause α} (later : List (Pause α))
    (h : returned (act glance state).1 = none) (hreading : ¬ deadline ≤ pause.reading) :
    let rest := waitInTurn act returned glance deadline later
      (inTurn act pause.others (act glance state).2).2
    waitInTurn act returned glance deadline (pause :: later) state =
      (rest.1, glance :: pause.others ++ rest.2) := by
  intro rest
  rw [waitInTurn, h]
  simp only [if_neg hreading]
  rfl

end InTurn

namespace Mailbox

/-! ## Accesses -/

/-- What somebody does with a mailbox while nobody else is there. -/
inductive Access where
  /-- Files a frame. -/
  | push (frame : Frame)
  /-- Takes out the oldest frame. -/
  | popOldest
  /-- Takes out the newest frame and drops all others. -/
  | takeLatest
  /-- Drops all frames. -/
  | clear
  /-- Looks for the reply to a command. -/
  | search (command : UInt8)
  deriving DecidableEq, Repr

/-- The frames an access files. -/
def Access.frames : Access → List Frame
  | push frame => [frame]
  | _ => []

/-- What an access brought to light. -/
structure Yield (α : Type) where
  /-- Given up to make room. -/
  evicted : Option α := none
  /-- Taken out ahead of what was looked for. -/
  skipped : List α := []
  /-- Given to the caller. -/
  returned : Option α := none
  deriving DecidableEq, Repr

namespace Yield

variable {α β : Type}

/-- The same yield in other terms. -/
def map (f : α → β) (yielded : Yield α) : Yield β where
  evicted := yielded.evicted.map f
  skipped := yielded.skipped.map f
  returned := yielded.returned.map f

/-- Everything that came to light, oldest first. -/
def all (yielded : Yield α) : List α :=
  yielded.evicted.toList ++ yielded.skipped ++ yielded.returned.toList

end Yield

/-- Makes an access. -/
def access : Access → Mailbox → Yield Frame × Mailbox
  | .push frame, box =>
      let (evicted, box) := box.push frame
      ({ evicted }, box)
  | .popOldest, box =>
      let (returned, box) := box.popOldest
      ({ returned }, box)
  | .takeLatest, box =>
      let (returned, box) := box.takeLatest
      ({ returned }, box)
  | .clear, box => ({}, box.clear)
  | .search command, box =>
      let (found, box) := box.search command
      ({ skipped := found.skipped, returned := found.found }, box)

/-! ## The ledger -/

/-- A frame, and the number of frames pushed before it. -/
structure Ticket where
  /-- How many frames were pushed before. -/
  number : Nat
  /-- The frame. -/
  frame : Frame
  deriving DecidableEq, Repr

/-- The tickets of frames pushed in this order. -/
def tickets (pushed : List Frame) : List Ticket :=
  pushed.mapIdx fun number frame => ⟨number, frame⟩

theorem tickets_concat (pushed : List Frame) (frame : Frame) :
    tickets (pushed ++ [frame]) = tickets pushed ++ [⟨pushed.length, frame⟩] :=
  List.mapIdx_concat

/-- What went into a mailbox, and what of it is there. -/
structure Ledger where
  /-- Every frame pushed, oldest first. -/
  pushed : List Frame := []
  /-- The tickets of the frames kept, oldest first. -/
  kept : List Ticket := []
  deriving DecidableEq, Repr

namespace Ledger

/-- The mailbox of which the ledger tells. -/
def box (topic : Topic) (capacity : Nat) (ledger : Ledger) : Mailbox :=
  { topic, capacity, frames := ledger.kept.map Ticket.frame }

/-- The ticket for the next frame. -/
def next (frame : Frame) (ledger : Ledger) : Ticket := ⟨ledger.pushed.length, frame⟩

/-- Makes an access to a mailbox of the given capacity. -/
def access (capacity : Nat) : Access → Ledger → Yield Ticket × Ledger
  | .push frame, ledger =>
      let pushed := ledger.pushed ++ [frame]
      if 0 < capacity ∧ capacity ≤ ledger.kept.length then
        ({ evicted := ledger.kept.head? },
          { pushed, kept := ledger.kept.tail ++ [ledger.next frame] })
      else ({}, { pushed, kept := ledger.kept ++ [ledger.next frame] })
  | .popOldest, ledger => ({ returned := ledger.kept.head? }, { ledger with kept := ledger.kept.tail })
  | .takeLatest, ledger => ({ returned := ledger.kept.getLast? }, { ledger with kept := [] })
  | .clear, ledger => ({}, { ledger with kept := [] })
  | .search command, ledger =>
      let ahead := ledger.kept.takeWhile fun ticket => !ticket.frame.answers command
      let rest := ledger.kept.dropWhile fun ticket => !ticket.frame.answers command
      ({ skipped := ahead, returned := rest.head? }, { ledger with kept := rest.tail })

/-- The ledger tells what the mailbox does. -/
theorem access_box (topic : Topic) (capacity : Nat) (access : Access) (ledger : Ledger) :
    (ledger.box topic capacity).access access =
      ((ledger.access capacity access).1.map Ticket.frame,
        (ledger.access capacity access).2.box topic capacity) := by
  cases access with
  | push frame =>
      simp only [Mailbox.access, Mailbox.push, isFull, size, Ledger.access, box, List.length_map,
        decide_eq_true_eq]
      split <;> simp [Yield.map, next, List.map_tail]
  | popOldest =>
      simp [Mailbox.access, Mailbox.popOldest, Ledger.access, box, Yield.map, List.map_tail]
  | takeLatest =>
      simp [Mailbox.access, Mailbox.takeLatest, Ledger.access, box, Yield.map]
  | clear => simp [Mailbox.access, Mailbox.clear, Ledger.access, box, Yield.map]
  | search command =>
      simp [Mailbox.access, Mailbox.search, Ledger.access, box, Yield.map, List.map_tail,
        List.takeWhile_map, List.dropWhile_map, Function.comp_def]

theorem inTurn_box (topic : Topic) (capacity : Nat) (accesses : List Access) (ledger : Ledger) :
    let told := inTurn (Ledger.access capacity) accesses ledger
    inTurn Mailbox.access accesses (ledger.box topic capacity) =
      (told.1.map (Yield.map Ticket.frame), told.2.box topic capacity) := by
  induction accesses generalizing ledger with
  | nil => rfl
  | cons first accesses ih =>
      simp only [inTurn, access_box, ih]
      rfl

/-- What an access leaves of the tickets kept are the last of them, everything that
comes to light was ahead of these, and behind them stands what was filed. -/
theorem access_cases (capacity : Nat) (access : Access) (ledger : Ledger) :
    let yielded := ledger.access capacity access
    ∃ rest, rest <:+ ledger.kept ∧ (yielded.1.all ++ rest).Sublist ledger.kept ∧
      yielded.2.kept = rest ++ access.frames.map ledger.next ∧
      yielded.2.pushed = ledger.pushed ++ access.frames := by
  have hwhole : ∀ kept : List Ticket, kept.head?.toList ++ kept.tail = kept := by
    intro kept
    cases kept <;> rfl
  cases access with
  | push frame =>
      simp only [Ledger.access]
      split
      · refine ⟨ledger.kept.tail, List.tail_suffix _, ?_, rfl, rfl⟩
        simp [Yield.all, hwhole]
      · exact ⟨ledger.kept, List.suffix_rfl, List.Sublist.refl _, rfl, rfl⟩
  | popOldest =>
      refine ⟨ledger.kept.tail, List.tail_suffix _, ?_, by simp [Ledger.access, Access.frames],
        by simp [Ledger.access, Access.frames]⟩
      simp [Ledger.access, Yield.all, hwhole]
  | takeLatest =>
      refine ⟨[], List.nil_suffix, ?_, rfl, by simp [Ledger.access, Access.frames]⟩
      cases hkept : ledger.kept.getLast? with
      | none => simp [Ledger.access, Yield.all, hkept]
      | some ticket =>
          simpa [Ledger.access, Yield.all, hkept] using List.mem_of_getLast? hkept
  | clear =>
      exact ⟨[], List.nil_suffix, by simp [Ledger.access, Yield.all], rfl,
        by simp [Ledger.access, Access.frames]⟩
  | search command =>
      have hsplit := List.takeWhile_append_dropWhile
        (p := fun ticket : Ticket => !ticket.frame.answers command) (l := ledger.kept)
      refine ⟨(ledger.kept.dropWhile fun ticket => !ticket.frame.answers command).tail,
        (List.tail_suffix _).trans (List.dropWhile_suffix _), ?_,
        by simp [Ledger.access, Access.frames], by simp [Ledger.access, Access.frames]⟩
      simp only [Ledger.access, Yield.all, Option.toList_none, List.nil_append, List.append_assoc,
        hwhole, hsplit]
      exact List.Sublist.refl _

/-- A mailbox with a capacity never holds more. -/
theorem length_access_le {capacity : Nat} {ledger : Ledger} (access : Access)
    (hlimited : 0 < capacity) (h : ledger.kept.length ≤ capacity) :
    (ledger.access capacity access).2.kept.length ≤ capacity := by
  obtain ⟨rest, hrest, -, hkept, -⟩ := access_cases capacity access ledger
  have hle := hrest.length_le
  cases access with
  | push frame =>
      simp only [Ledger.access]
      split
      · simp only [List.length_append, List.length_tail, List.length_singleton]
        omega
      · simp only [List.length_append, List.length_singleton]
        omega
  | _ =>
      rw [hkept]
      simp only [Access.frames, List.map_nil, List.append_nil]
      omega

/-- The tickets kept are the last ones given out, no more of them than there is
room, and behind everything that came to light, `gone`, in the order of the
pushes. -/
structure Sound (capacity : Nat) (ledger : Ledger) (gone : List Ticket) : Prop where
  suffix : ledger.kept <:+ tickets ledger.pushed
  bounded : 0 < capacity → ledger.kept.length ≤ capacity
  ordered : (gone ++ ledger.kept).Sublist (tickets ledger.pushed)

variable {capacity : Nat} {ledger : Ledger} {gone : List Ticket}

theorem sound_empty (capacity : Nat) : Sound capacity {} [] where
  suffix := List.suffix_rfl
  bounded _ := Nat.zero_le _
  ordered := List.Sublist.refl _

theorem tickets_append_frames (ledger : Ledger) (access : Access) :
    tickets (ledger.pushed ++ access.frames) =
      tickets ledger.pushed ++ access.frames.map ledger.next := by
  cases access with
  | push frame => exact tickets_concat ledger.pushed frame
  | _ => simp [Access.frames]

theorem Sound.access (h : Sound capacity ledger gone) (access : Access) :
    Sound capacity (ledger.access capacity access).2
      (gone ++ (ledger.access capacity access).1.all) := by
  obtain ⟨rest, hrest, hout, hkept, hpushed⟩ := access_cases capacity access ledger
  constructor
  · rw [hkept, hpushed, tickets_append_frames]
    obtain ⟨front, hfront⟩ := hrest.trans h.suffix
    exact ⟨front, by rw [← hfront, List.append_assoc]⟩
  · exact fun hlimited => length_access_le access hlimited (h.bounded hlimited)
  · rw [hkept, hpushed, tickets_append_frames, ← List.append_assoc]
    apply List.Sublist.append_right
    rw [List.append_assoc]
    exact (hout.append_left gone).trans h.ordered

theorem Sound.accessAll (h : Sound capacity ledger gone) (accesses : List Access) :
    Sound capacity (inTurn (Ledger.access capacity) accesses ledger).2
      (gone ++ (inTurn (Ledger.access capacity) accesses ledger).1.flatMap Yield.all) := by
  induction accesses generalizing ledger gone with
  | nil =>
      rw [inTurn, List.flatMap_nil, List.append_nil]
      exact h
  | cons first accesses ih =>
      have hlater := ih (h.access first)
      rw [List.append_assoc] at hlater
      exact hlater

theorem pushed_inTurn (capacity : Nat) (accesses : List Access) (ledger : Ledger) :
    (inTurn (Ledger.access capacity) accesses ledger).2.pushed =
      ledger.pushed ++ accesses.flatMap Access.frames := by
  induction accesses generalizing ledger with
  | nil => simp [inTurn]
  | cons first accesses ih =>
      obtain ⟨-, -, -, -, hpushed⟩ := access_cases capacity first ledger
      rw [inTurn, List.flatMap_cons, ← List.append_assoc, ← hpushed]
      exact ih _

/-- The numbers of the tickets kept run up to the last one given out. -/
theorem Sound.number_eq (h : Sound capacity ledger gone) {place : Nat} {ticket : Ticket}
    (hplace : ledger.kept[place]? = some ticket) :
    ticket.number + ledger.kept.length = ledger.pushed.length + place := by
  have hlength := h.suffix.length_le
  have hkept := List.suffix_iff_eq_drop.mp h.suffix
  rw [hkept, List.getElem?_drop, tickets, List.getElem?_mapIdx] at hplace
  obtain ⟨frame, -, rfl⟩ := Option.map_eq_some_iff.mp hplace
  simp only [tickets, List.length_mapIdx] at hlength ⊢
  omega

/-- A push gives up exactly the frame that was pushed as many pushes ago as there
is room, if it is still kept; nothing else gives up a frame. -/
theorem Sound.mem_evicted_iff (h : Sound capacity ledger gone) {access : Access}
    {ticket : Ticket} :
    ticket ∈ (ledger.access capacity access).1.evicted ↔
      (∃ frame, access = .push frame) ∧ 0 < capacity ∧ ticket ∈ ledger.kept ∧
        ledger.pushed.length = ticket.number + capacity := by
  cases access with
  | push frame =>
      simp only [Ledger.access, Access.push.injEq, exists_eq', true_and]
      constructor
      · intro hmem
        split at hmem
        · next hfull =>
            have hhead : ledger.kept[0]? = some ticket := by rw [← List.head?_eq_getElem?]; exact hmem
            have hnumber := h.number_eq hhead
            have hbound := h.bounded hfull.1
            exact ⟨hfull.1, List.mem_of_getElem? hhead, by omega⟩
        · simp at hmem
      · rintro ⟨hlimited, hmem, hnumber⟩
        obtain ⟨place, hplace⟩ := List.mem_iff_getElem?.mp hmem
        have hthere := h.number_eq hplace
        have hbound := h.bounded hlimited
        obtain rfl : place = 0 := by omega
        rw [if_pos ⟨hlimited, by omega⟩, Option.mem_def, List.head?_eq_getElem?]
        exact hplace
  | _ => simp [Ledger.access]

end Ledger

/-- **The order of a mailbox**: after any row of accesses to an empty mailbox the
ledger tells what the mailbox did and what it holds. The tickets kept are the last
ones given out, without a gap, and not more than the capacity, if there is one.
The tickets of the frames returned to callers, in the order of return, are among
all tickets in their order, so no push is returned twice. And whatever access
comes next gives up a frame exactly if it is a push, there is a capacity, and the
frame is still kept and was pushed that many pushes ago. -/
theorem ledger_of_accesses (topic : Topic) (capacity : Nat) (accesses : List Access) :
    let run := inTurn access accesses { topic, capacity }
    let told := inTurn (Ledger.access capacity) accesses {}
    let ledger := told.2
    run = (told.1.map (Yield.map Ticket.frame), ledger.box topic capacity) ∧
      ledger.pushed = accesses.flatMap Access.frames ∧
      ledger.kept <:+ tickets ledger.pushed ∧
      (0 < capacity → run.2.size ≤ capacity) ∧
      (told.1.flatMap (·.returned.toList)).Sublist (tickets ledger.pushed) ∧
      ∀ (next : Access) (ticket : Ticket),
        ticket ∈ (ledger.access capacity next).1.evicted ↔
          (∃ frame, next = .push frame) ∧ 0 < capacity ∧ ticket ∈ ledger.kept ∧
            ledger.pushed.length = ticket.number + capacity := by
  intro run told ledger
  have hrun : run = (told.1.map (Yield.map Ticket.frame), ledger.box topic capacity) :=
    Ledger.inTurn_box topic capacity accesses {}
  have hsound := (Ledger.sound_empty capacity).accessAll accesses
  rw [List.nil_append] at hsound
  refine ⟨hrun, Ledger.pushed_inTurn capacity accesses {}, hsound.suffix, ?_, ?_,
    fun _ _ => hsound.mem_evicted_iff⟩
  · intro hlimited
    rw [hrun]
    simp only [Ledger.box, size, List.length_map]
    exact hsound.bounded hlimited
  · have hreturned : (told.1.flatMap (·.returned.toList)).Sublist (told.1.flatMap Yield.all) := by
      apply List.Sublist.flatMap_right
      intro yielded _
      exact List.sublist_append_right _ _
    exact hreturned.trans ((List.sublist_append_left _ _).trans hsound.ordered)

/-- Of five frames pushed into a mailbox for two, the third comes out by age ahead of
the fifth push, the first two were given up, and the fifth costs nothing. -/
example :
    let frame : UInt8 → Frame := fun command => ⟨command, Frame.replyMarker, []⟩
    let told := inTurn (Ledger.access 2)
      [.push (frame 1), .push (frame 2), .push (frame 3), .push (frame 4), .popOldest,
        .push (frame 5)] {}
    told.1.flatMap (·.evicted.toList.map Ticket.number) = [0, 1] ∧
      told.1.flatMap (·.returned.toList.map Ticket.number) = [2] ∧
      told.2.kept.map Ticket.number = [3, 4] := by
  decide

/-! ## Waits -/

/-- A caller looks into a mailbox until he is given a frame or the deadline is
reached. -/
def wait (glance : Access) (deadline : Duration) : List (Pause Access) → Mailbox → Wait × List Access :=
  waitInTurn access Yield.returned glance deadline

/-- A wake-up is a pause in which others only file frames. -/
def Wakeup.pause (wakeup : Wakeup) : Pause Access := ⟨wakeup.reading, wakeup.arrived.map .push⟩

theorem inTurn_pushes (frames : List Frame) (box : Mailbox) :
    (inTurn access (frames.map .push) box).1.flatMap Yield.skipped = [] ∧
      (inTurn access (frames.map .push) box).2 = box.pushAll frames := by
  induction frames generalizing box with
  | nil => exact ⟨rfl, rfl⟩
  | cons frame frames ih => exact ih (box.push frame).2

/-- Waiting for a reply is a row of searches, and pushes between them. -/
theorem awaitReply_eq_wait (command : UInt8) (deadline : Duration) (wakeups : List Wakeup)
    (box : Mailbox) :
    let waited := box.wait (.search command) deadline (wakeups.map Wakeup.pause)
    let row := inTurn access waited.2 box
    box.awaitReply command deadline wakeups = (waited.1, row.1.flatMap Yield.skipped, row.2) := by
  unfold wait
  fun_induction awaitReply command deadline wakeups box with
  | case1 wakeups box skipped frame next hsearch =>
      have hserved : (box.access (.search command)).1.returned = some frame := by
        simp [access, hsearch]
      rw [waitInTurn_of_served _ hserved]
      simp [inTurn, access, hsearch]
  | case2 box skipped next hsearch =>
      simp [waitInTurn, inTurn, access, hsearch]
  | case3 box skipped next hsearch wakeup later hreading =>
      rw [List.map_cons, waitInTurn_of_expired _ (by simp [access, hsearch]) hreading]
      simp [inTurn, access, hsearch]
  | case4 box skipped next hsearch wakeup later hreading wait further last hlater ih =>
      obtain ⟨hskipped, hpushed⟩ := inTurn_pushes wakeup.arrived next
      rw [List.map_cons, waitInTurn_of_missing _ (by simp [access, hsearch]) hreading]
      simp only [Wakeup.pause, access, hsearch, hpushed, List.cons_append, inTurn, inTurn_append,
        List.flatMap_cons, List.flatMap_append, hskipped, List.nil_append] at ih ⊢
      rw [hlater, Prod.mk.injEq, Prod.mk.injEq] at ih
      obtain ⟨hwait, hfurther, hlast⟩ := ih
      rw [hwait, hfurther, hlast]

/-- Waiting for the newest frame is a row of takings, and pushes between them. -/
theorem awaitLatest_eq_wait (deadline : Duration) (wakeups : List Wakeup) (box : Mailbox) :
    let waited := box.wait .takeLatest deadline (wakeups.map Wakeup.pause)
    box.awaitLatest deadline wakeups = (waited.1, (inTurn access waited.2 box).2) := by
  unfold wait
  fun_induction awaitLatest deadline wakeups box with
  | case1 wakeups box frame next htake =>
      have hserved : (box.access .takeLatest).1.returned = some frame := by
        simp [access, htake]
      rw [waitInTurn_of_served _ hserved]
      simp [inTurn, access, htake]
  | case2 box next htake => simp [waitInTurn, inTurn, access, htake]
  | case3 box next htake wakeup later hreading =>
      rw [List.map_cons, waitInTurn_of_expired _ (by simp [access, htake]) hreading]
      simp [inTurn, access, htake]
  | case4 box next htake wakeup later hreading ih =>
      rw [List.map_cons, waitInTurn_of_missing _ (by simp [access, htake]) hreading, ih]
      simp only [Wakeup.pause, access, htake, inTurn_pushes, List.cons_append, inTurn,
        inTurn_append]

end Mailbox

end PeripheralHost
