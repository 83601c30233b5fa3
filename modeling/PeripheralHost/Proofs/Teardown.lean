import PeripheralHost.Link.Loopback
import PeripheralHost.Session.Threads

/-!
# Closing while the receiver runs

A caller who closes a session tells it to stop, waits for the receiver to end, and
only then releases the link. Only one caller can wait: the receiver is claimed once,
and whoever comes later finds it claimed and goes on without waiting.

So the order holds for the caller who has the receiver, and for everybody once it has
ended. While it has not, a caller is past the claim only if another one waits
(`Crew.Held`), and from there he may release the link at any turn, or find it released
and report success. A session that one caller closes is closed in order, whatever the
other threads do; with a second one there is always a schedule that breaks the order
(`Crew.inOrder_iff`).

## Main results

* `Crew.Held.run` — while the receiver runs, who is past the claim has left behind
  somebody who waits.
* `Crew.inOrder_iff` — the order holds on every schedule exactly if at most one caller
  closes.
-/

namespace PeripheralHost

namespace CallerPoint

/-- Whether the caller has yet to take its first turn. -/
def isFirst : CallerPoint → Bool
  | asking .. | stopping => true
  | _ => false

/-- Whether the caller closes the session. -/
def isClosing : CallerPoint → Bool
  | stopping | claiming | joining | releasing | closed _ => true
  | asking .. | admitted .. | sent _ => false

/-- Whether the caller closes the session and waits for the receiver no more. -/
def isPast : CallerPoint → Bool
  | releasing | closed _ => true
  | _ => false

theorem isClosing_of_isPast {point : CallerPoint} (h : point.isPast = true) :
    point.isClosing = true := by
  cases point <;> first | rfl | exact absurd h Bool.false_ne_true

end CallerPoint

/-- A line in memory that was closed is not open. -/
theorem Loopback.isOpen_of_close {line next : Loopback} (h : Link.close line = (.ok (), next)) :
    Link.isOpen next = false := by
  obtain ⟨-, rfl⟩ := Prod.mk.inj h
  rfl

namespace Crew

variable {σ : Type} [Link σ] {crew next : Crew σ}

/-! ## Order -/

/-- Where the caller at the given place stands. -/
def point (index : Nat) (crew : Crew σ) : Option CallerPoint := crew.callers[index]?

/-- A turn of the caller at the given place closes the link. -/
def ClosesLink (index : Nat) (crew : Crew σ) : Prop :=
  crew.point index = some .releasing ∧ Link.isOpen crew.session.link = true

/-- On every schedule the link is closed, and success reported to a caller who closes,
only when the receiver has ended. -/
structure InOrder (crew : Crew σ) : Prop where
  link : ∀ turns index, (run turns crew).ClosesLink index → (run turns crew).receiver = .exited
  answer : ∀ turns index, (run turns crew).point index = some (.closed (.ok ())) →
    (run turns crew).receiver = .exited

/-- The receiver runs and is not claimed, and no caller has had a turn. -/
structure Fresh (crew : Crew σ) : Prop where
  receiver : crew.receiver ≠ .exited
  unclaimed : crew.unclaimed = true
  callers : ∀ point ∈ crew.callers, point.isFirst = true

/-- The caller at the given place closes the session. -/
def Closer (index : Nat) (crew : Crew σ) : Prop :=
  ∃ point, crew.point index = some point ∧ point.isClosing = true

/-! ## What a turn does -/

theorem receiverTurn_cases {now : Duration} (h : crew.receiverTurn now = some next) :
    crew.receiver ≠ .exited ∧ next.callers = crew.callers ∧ next.unclaimed = crew.unclaimed := by
  unfold receiverTurn at h
  grind

/-- A caller claims the receiver, or the claim stays as it was; and then only a caller
who finds the receiver claimed, or ended, comes past the claim. -/
theorem callerTurn_cases {point moved : CallerPoint} (h : crew.callerTurn point = some (moved, next)) :
    next.callers = crew.callers ∧ next.receiver = crew.receiver ∧
      moved.isClosing = point.isClosing ∧
      ((point = .claiming ∧ crew.unclaimed = true ∧ moved = .joining ∧ next.unclaimed = false) ∨
        (next.unclaimed = crew.unclaimed ∧ (point = .joining → crew.receiver = .exited) ∧
          (moved.isPast = true → point.isPast = true ∨ crew.unclaimed = false ∨
            crew.receiver = .exited))) := by
  cases point with
  | asking command params =>
      simp only [callerTurn, Option.some.injEq, Prod.mk.injEq] at h
      obtain ⟨rfl, rfl⟩ := h
      cases crew.session.stopped <;> simp [CallerPoint.isClosing, CallerPoint.isPast]
  | admitted _ _ | stopping | releasing =>
      simp only [callerTurn, Option.some.injEq, Prod.mk.injEq] at h
      obtain ⟨rfl, rfl⟩ := h
      simp [CallerPoint.isClosing, CallerPoint.isPast]
  | claiming =>
      cases hunclaimed : crew.unclaimed with
      | true =>
          simp only [callerTurn, hunclaimed, if_true, Option.some.injEq, Prod.mk.injEq] at h
          obtain ⟨rfl, rfl⟩ := h
          simp [CallerPoint.isClosing]
      | false =>
          simp only [callerTurn, hunclaimed, Bool.false_eq_true, if_false, Option.some.injEq,
            Prod.mk.injEq] at h
          obtain ⟨rfl, rfl⟩ := h
          simp [CallerPoint.isClosing, hunclaimed]
  | joining =>
      simp only [callerTurn] at h
      split at h
      · next hexited =>
          simp only [Option.some.injEq, Prod.mk.injEq] at h
          obtain ⟨rfl, rfl⟩ := h
          simp [CallerPoint.isClosing, hexited]
      · exact absurd h (by simp)
  | sent _ | closed _ => exact absurd h (by simp [callerTurn])

/-- If closing a link leaves it not open, then so does releasing it. -/
theorem isOpen_release
    (hcloses : ∀ {link next : σ}, Link.close link = (.ok (), next) → Link.isOpen next = false)
    {session : Session σ} (h : session.release.1 = .ok ()) :
    Link.isOpen session.release.2.link = false := by
  unfold Session.release at h ⊢
  split
  · next hopen =>
      rw [if_pos hopen] at h
      split
      · next hclose => exact hcloses hclose
      · next hclose => simp [hclose] at h
  · next hopen => simpa using hopen

/-- A turn of a caller moves the caller. -/
theorem turn_caller_cases {index : Nat} (h : crew.turn (.caller index) = some next) :
    ∃ point moved after, crew.point index = some point ∧
      crew.callerTurn point = some (moved, after) ∧
      next = { after with callers := after.callers.set index moved } := by
  simp only [Crew.turn] at h
  split at h
  · exact absurd h (by simp)
  · next point hpoint =>
      split at h
      · exact absurd h (by simp)
      · next moved after hturn =>
          exact ⟨point, moved, after, hpoint, hturn, (Option.some.inj h).symm⟩

/-- A turn is one of the receiver or one of a caller. -/
theorem turn_cases {turn : Turn} (h : crew.turn turn = some next) :
    (∃ now, crew.receiverTurn now = some next) ∨
      ∃ index point moved after, crew.point index = some point ∧
        crew.callerTurn point = some (moved, after) ∧
        next = { after with callers := after.callers.set index moved } := by
  cases turn with
  | receiver now => exact .inl ⟨now, h⟩
  | caller index => exact .inr ⟨index, turn_caller_cases h⟩

omit [Link σ] in
/-- A caller moves, and the others stay where they are. -/
theorem point_of_moved {after : Crew σ} {place : Nat} {point moved : CallerPoint}
    (hpoint : crew.point place = some point) (hcallers : after.callers = crew.callers)
    (index : Nat) :
    ({ after with callers := after.callers.set place moved } : Crew σ).point index =
      if place = index then some moved else crew.point index := by
  obtain ⟨hplace, -⟩ := List.getElem?_eq_some_iff.mp hpoint
  simp only [Crew.point, hcallers, List.getElem?_set, if_pos hplace]

theorem run_append (earlier later : List Turn) (crew : Crew σ) :
    crew.run (earlier ++ later) = (crew.run earlier).run later := by
  induction earlier generalizing crew with
  | nil => rfl
  | cons turn earlier ih => exact ih _

/-- Who closes at one time closes at all times. -/
theorem closer_turn {turn : Turn} (h : crew.turn turn = some next) (index : Nat) :
    next.Closer index ↔ crew.Closer index := by
  rcases turn_cases h with ⟨now, hturn⟩ | ⟨place, point, moved, after, hpoint, hturn, rfl⟩
  · obtain ⟨-, hcallers, -⟩ := receiverTurn_cases hturn
    simp only [Closer, Crew.point, hcallers]
  · obtain ⟨hcallers, -, hclosing, -⟩ := callerTurn_cases hturn
    simp only [Closer, point_of_moved hpoint hcallers]
    split
    · next hplace =>
        subst hplace
        simp [hpoint, hclosing]
    · rfl

theorem closer_run (turns : List Turn) (crew : Crew σ) (index : Nat) :
    (run turns crew).Closer index ↔ crew.Closer index :=
  run_keeps (fun hsame hturn => (closer_turn hturn index).trans hsame) Iff.rfl turns

/-! ## Who waits for the receiver -/

/-- While the receiver runs, somebody waits for it once it is claimed, and nobody is
past the claim before. -/
structure Held (crew : Crew σ) : Prop where
  waits : crew.receiver ≠ .exited → crew.unclaimed = false →
    ∃ index, crew.point index = some .joining
  behind : crew.receiver ≠ .exited → ∀ index point, crew.point index = some point →
    point.isPast = true → crew.unclaimed = false

omit [Link σ] in
theorem Fresh.held (h : Fresh crew) : Held crew where
  waits _ hclaimed := by simp [h.unclaimed] at hclaimed
  behind _ index point hpoint hpast := by
    have hfirst := h.callers point (List.mem_of_getElem? hpoint)
    cases point <;> simp [CallerPoint.isFirst, CallerPoint.isPast] at hfirst hpast

theorem Held.turn (h : Held crew) {turn : Turn} (hturn : crew.turn turn = some next) :
    Held next := by
  rcases turn_cases hturn with ⟨now, hreceiver⟩ | ⟨place, point, moved, after, hpoint, hcaller, rfl⟩
  · obtain ⟨hruns, hcallers, hunclaimed⟩ := receiverTurn_cases hreceiver
    constructor
    · intro _ hclaimed
      simp only [Crew.point, hcallers]
      exact h.waits hruns (hunclaimed ▸ hclaimed)
    · intro _ index point hpoint hpast
      simp only [Crew.point, hcallers] at hpoint
      rw [hunclaimed]
      exact h.behind hruns index point hpoint hpast
  · obtain ⟨hcallers, hreceiver, -, hclaim⟩ := callerTurn_cases hcaller
    have hmoved : ∀ index,
        ({ after with callers := after.callers.set place moved } : Crew σ).point index =
          if place = index then some moved else crew.point index :=
      point_of_moved hpoint hcallers
    constructor
    · intro hruns hclaimed
      rcases hclaim with ⟨-, -, rfl, -⟩ | ⟨hsame, hjoining, -⟩
      · exact ⟨place, by rw [hmoved, if_pos rfl]⟩
      · -- the one who waits cannot have moved
        obtain ⟨index, hwaits⟩ := h.waits (hreceiver ▸ hruns) (hsame ▸ hclaimed)
        refine ⟨index, ?_⟩
        rw [hmoved, if_neg, hwaits]
        rintro rfl
        obtain rfl := Option.some.inj (hpoint.symm.trans hwaits)
        exact hruns (hreceiver.trans (hjoining rfl))
    · intro hruns index stands hstands hpast
      rcases hclaim with ⟨-, -, -, hclaimed⟩ | ⟨hsame, -, hpasses⟩
      · exact hclaimed
      · rw [hmoved] at hstands
        refine hsame.trans ?_
        split at hstands
        · obtain rfl := Option.some.inj hstands
          rcases hpasses hpast with hbefore | hclaimed | hexited
          · exact h.behind (hreceiver ▸ hruns) place point hpoint hbefore
          · exact hclaimed
          · exact absurd (hreceiver.trans hexited) hruns
        · exact h.behind (hreceiver ▸ hruns) index stands hstands hpast

theorem Held.run (h : Held crew) (turns : List Turn) : Held (crew.run turns) :=
  run_keeps (fun hheld hturn => hheld.turn hturn) h turns

/-! ## The order -/

omit [Link σ] in
/-- A caller who is past the claim while the receiver runs is not the only one who
closes. -/
theorem Held.exists_other (h : Held crew) (hruns : crew.receiver ≠ .exited) {index : Nat}
    {point : CallerPoint} (hpoint : crew.point index = some point) (hpast : point.isPast = true) :
    ∃ other, other ≠ index ∧ crew.Closer other ∧ crew.Closer index := by
  obtain ⟨other, hother⟩ := h.waits hruns (h.behind hruns index point hpoint hpast)
  refine ⟨other, ?_, ⟨_, hother, rfl⟩, ⟨point, hpoint, CallerPoint.isClosing_of_isPast hpast⟩⟩
  rintro rfl
  obtain rfl := Option.some.inj (hpoint.symm.trans hother)
  exact absurd hpast Bool.false_ne_true

theorem run_entering {index : Nat} (h : crew.point index = some .stopping) :
    crew.run [.caller index, .caller index] =
      { crew with
        session := crew.session.stop
        unclaimed := false
        callers := crew.callers.set index (if crew.unclaimed then .joining else .releasing) } := by
  obtain ⟨hlength, hstands⟩ := List.getElem?_eq_some_iff.mp h
  cases hunclaimed : crew.unclaimed <;>
    simp [Crew.run, Crew.turn, callerTurn, hlength, hstands, hunclaimed]

theorem run_releasing_of_released {index : Nat} (h : crew.point index = some .releasing)
    (hreleased : Link.isOpen crew.session.link = false) :
    crew.run [.caller index] =
      { crew with callers := crew.callers.set index (.closed (.ok ())) } := by
  obtain ⟨hlength, hstands⟩ := List.getElem?_eq_some_iff.mp h
  simp [Crew.run, Crew.turn, callerTurn, hlength, hstands, Session.release, hreleased]

omit [Link σ] in
theorem Fresh.stopping (h : Fresh crew) {index : Nat} (hcloser : crew.Closer index) :
    crew.point index = some .stopping := by
  obtain ⟨point, hpoint, hclosing⟩ := hcloser
  have hfirst := h.callers point (List.mem_of_getElem? hpoint)
  cases point <;> first | exact hpoint | simp [CallerPoint.isFirst, CallerPoint.isClosing] at *

/-- With two callers who close, the second may be about to release the link while the
first waits for the receiver. -/
theorem Fresh.exists_overtaken (h : Fresh crew) {first second : Nat} (hne : first ≠ second)
    (hfirst : crew.Closer first) (hsecond : crew.Closer second) :
    ∃ turns, (crew.run turns).receiver ≠ .exited ∧
      (crew.run turns).point second = some .releasing := by
  have hentered := run_entering (h.stopping hfirst)
  have hstands : (crew.run [.caller first, .caller first]).point second = some .stopping := by
    rw [hentered, Crew.point, List.getElem?_set_ne hne]
    exact h.stopping hsecond
  have hovertaken := run_entering hstands
  rw [hentered] at hstands hovertaken
  refine ⟨[.caller first, .caller first] ++ [.caller second, .caller second], ?_⟩
  rw [run_append, hentered, hovertaken]
  exact ⟨h.receiver, (point_of_moved hstands rfl second).trans (if_pos rfl)⟩

/-- **The order of closing**: of a crew whose receiver runs unclaimed and whose callers
have had no turn, every schedule closes the link, and reports success of closing, only
when the receiver has ended, exactly if no two callers close. -/
theorem inOrder_iff (h : Fresh crew) :
    crew.InOrder ↔ ∀ first second, crew.Closer first → crew.Closer second → first = second := by
  constructor
  · intro horder first second hfirst hsecond
    refine Decidable.byContradiction fun hne => ?_
    obtain ⟨turns, hruns, hreleasing⟩ := h.exists_overtaken hne hfirst hsecond
    cases hopen : Link.isOpen (crew.run turns).session.link with
    | true => exact hruns (horder.link turns second ⟨hreleasing, hopen⟩)
    | false =>
        -- the link is released already, and the second caller reports success
        have hanswer := horder.answer (turns ++ [.caller second]) second
        rw [run_append, run_releasing_of_released hreleasing hopen] at hanswer
        exact hruns (hanswer ((point_of_moved hreleasing rfl second).trans (if_pos rfl)))
  · intro hsingle
    have hended : ∀ turns index point, (run turns crew).point index = some point →
        point.isPast = true → (run turns crew).receiver = .exited := by
      intro turns index point hpoint hpast
      refine Decidable.byContradiction fun hruns => ?_
      obtain ⟨other, hne, hother, hindex⟩ := (h.held.run turns).exists_other hruns hpoint hpast
      exact hne (hsingle _ _ ((closer_run turns crew other).mp hother)
        ((closer_run turns crew index).mp hindex))
    exact ⟨fun turns index hcloses => hended turns index _ hcloses.1 rfl,
      fun turns index hclosed => hended turns index _ hclosed rfl⟩

/-- Beside one caller who sends, a caller closes in order. -/
theorem inOrder_of_one_closer :
    let crew : Crew Loopback :=
      { session := .ofLink {} {}, callers := [.asking 0x20 [], .stopping] }
    crew.Fresh ∧ crew.InOrder := by
  intro crew
  have hfresh : crew.Fresh := ⟨by decide, rfl, by decide⟩
  have hplace : ∀ index, crew.Closer index → index = 1 := by
    rintro index ⟨point, hpoint, hclosing⟩
    match index with
    | 0 =>
        obtain rfl := Option.some.inj hpoint
        exact absurd hclosing Bool.false_ne_true
    | 1 => rfl
    | _ + 2 => exact absurd hpoint (by simp [crew, Crew.point])
  refine ⟨hfresh, (inOrder_iff hfresh).mpr fun first second hfirst hsecond => ?_⟩
  rw [hplace first hfirst, hplace second hsecond]

/-- Two callers close a session while the receiver is about to poll its link. The first
claims the receiver and waits; the second does not, and releases the link under it. -/
theorem overtaken_by_second_closer :
    let crew : Crew Loopback := { session := .ofLink {} {}, callers := [.stopping, .stopping] }
    let turns : List Turn :=
      [.receiver (.ofMillis 0), .caller 0, .caller 0, .caller 1, .caller 1, .caller 1]
    let reached := crew.run turns
    crew.Fresh ∧ Link.isOpen crew.session.link = true ∧
      reached.callers = [.joining, .closed (.ok ())] ∧ reached.receiver = .polling ∧
      Link.isOpen reached.session.link = false ∧ ¬ crew.InOrder := by
  intro crew turns reached
  refine ⟨⟨by decide, rfl, by decide⟩, rfl, rfl, rfl, rfl, fun horder => ?_⟩
  have hexited : reached.receiver = .exited := horder.answer turns 1 rfl
  exact absurd hexited (by decide)

end Crew

end PeripheralHost
