import PeripheralHost.Frame.Assembler

/-!
# An assembler is determined by what is pending

A stage has five forms and holds a header, a body and a count, and yet all it
knows is which octets have been taken since the start mark. An idle assembler
that is given just these octets settles nothing and ends at the same stage
(`Stage.Resumable`). Hunting is resumable, one octet keeps a stage resumable,
and so does any input.

Two consequences carry everything that is said about streams.

* What an assembler does with an input is what an idle assembler does with the
  pending octets followed by that input (`drive_of_resumable`).
* Input can be cut anywhere (`drive_append`), so feeding pieces is feeding
  their concatenation (`feedAll_eq_feed`).

## Main results

* `Stage.drive_append` — driving a concatenation is driving its parts.
* `Stage.Resumable.drive` — resumability outlasts every input.
* `Assembler.feedAll_eq_feed` — the boundaries of the pieces do not matter.
-/

namespace PeripheralHost

namespace Stage

/-! ## Cutting the input -/

theorem drive_append (limit : Nat) (stage : Stage) (front back : Bytes) :
    drive limit stage (front ++ back) [] =
      ((drive limit stage front []).1 ++ (drive limit (drive limit stage front []).2 back []).1,
        (drive limit (drive limit stage front []).2 back []).2) := by
  suffices general : ∀ seen : List Outcome,
      drive limit stage (front ++ back) seen =
        (seen.reverse ++ (drive limit stage front []).1 ++
            (drive limit (drive limit stage front []).2 back []).1,
          (drive limit (drive limit stage front []).2 back []).2) by
    simpa using general []
  intro seen
  fun_induction drive limit stage front seen with
  | case1 stage seen =>
      rw [List.nil_append, drive_outcomes limit stage back seen]
      simp [drive]
  | case2 stage seen b rest next h ih =>
      rw [List.cons_append, drive_of_advance _ _ h, drive_of_advance _ _ h]
      exact ih
  | case3 stage seen b rest frame h ih =>
      rw [List.cons_append, drive_of_accept _ _ h, drive_of_accept _ _ h, ih,
        drive_outcomes limit idle rest [.ok frame]]
      simp
  | case4 stage seen b rest fault h ih =>
      rw [List.cons_append, drive_of_refuse _ _ h, drive_of_refuse _ _ h,
        drive_outcomes limit idle _ [.error fault]]
      simp only [List.append_assoc, List.cons_append] at ih ⊢
      rw [ih]
      simp

/-! ## Resumable stages -/

/-- An idle assembler that is given the pending octets settles nothing and
stands at this stage again. -/
def Resumable (limit : Nat) (stage : Stage) : Prop :=
  drive limit idle stage.pending [] = ([], stage)

theorem resumable_idle (limit : Nat) : Resumable limit idle := by
  simp [Resumable, drive]

/-- What is done with an input depends on the pending octets only. -/
theorem drive_of_resumable {limit : Nat} {stage : Stage} (h : Resumable limit stage)
    (input : Bytes) :
    Stage.drive limit stage input [] = Stage.drive limit idle (stage.pending ++ input) [] := by
  rw [drive_append, show Stage.drive limit idle stage.pending [] = ([], stage) from h]
  simp

theorem Resumable.advance {limit : Nat} {stage next : Stage} {b : UInt8}
    (h : Resumable limit stage) (hstep : step limit stage b = .advance next) :
    Resumable limit next := by
  rcases pending_advance hstep with hpending | ⟨-, rfl, -⟩
  · have hone : Stage.drive limit stage [b] [] = ([], next) := by
      rw [drive_of_advance [] [] hstep]
      simp [Stage.drive]
    rw [Resumable, hpending, ← drive_of_resumable h, hone]
  · exact resumable_idle limit

theorem Resumable.drive {limit : Nat} {stage : Stage} (h : Resumable limit stage)
    (input : Bytes) : Resumable limit (Stage.drive limit stage input []).2 := by
  suffices general : ∀ seen : List Outcome,
      Resumable limit (Stage.drive limit stage input seen).2 from general []
  intro seen
  fun_induction Stage.drive limit stage input seen with
  | case1 stage seen => exact h
  | case2 stage seen b rest next hstep ih => exact ih (h.advance hstep)
  | case3 stage seen b rest frame hstep ih => exact ih (resumable_idle limit)
  | case4 stage seen b rest fault hstep ih => exact ih (resumable_idle limit)

end Stage

/-! ## Feeding in pieces -/

namespace Assembler

theorem feedAll_nil (assembler : Assembler) : feedAll [] assembler = ([], assembler) := rfl

theorem feedAll_cons (piece : Bytes) (pieces : List Bytes) (assembler : Assembler) :
    feedAll (piece :: pieces) assembler =
      ((feed piece assembler).1 ++ (feedAll pieces (feed piece assembler).2).1,
        (feedAll pieces (feed piece assembler).2).2) := by
  simp only [feedAll, List.mapM_cons]
  rfl

theorem feed_nil (assembler : Assembler) : feed [] assembler = ([], assembler) := by
  simp [feed, Stage.drive]

theorem feed_append (front back : Bytes) (assembler : Assembler) :
    feed (front ++ back) assembler =
      ((feed front assembler).1 ++ (feed back (feed front assembler).2).1,
        (feed back (feed front assembler).2).2) := by
  simp only [feed]
  rw [Stage.drive_append]

theorem feedAll_eq_feed (pieces : List Bytes) (assembler : Assembler) :
    feedAll pieces assembler = feed pieces.flatten assembler := by
  induction pieces generalizing assembler with
  | nil => rw [feedAll_nil, List.flatten_nil, feed_nil]
  | cons piece pieces ih => rw [feedAll_cons, ih, List.flatten_cons, feed_append]

/-! ## What every call keeps -/

/-- The stage can be had again from the pending octets. -/
def Resumable (assembler : Assembler) : Prop := assembler.stage.Resumable assembler.limit

theorem resumable_new (limit : Nat) : Resumable { limit } := Stage.resumable_idle limit

theorem Resumable.feed {assembler : Assembler} (h : assembler.Resumable) (bytes : Bytes) :
    (Assembler.feed bytes assembler).2.Resumable :=
  Stage.Resumable.drive h bytes

@[simp] theorem limit_feed (bytes : Bytes) (assembler : Assembler) :
    (feed bytes assembler).2.limit = assembler.limit := rfl

end Assembler

end PeripheralHost
