import PeripheralHost.Proofs.Arrivals
import PeripheralHost.Proofs.Logbook

/-!
# What a poll asks of a link

A poll is told how many octets there are, and must not trust it. The link may have more
or fewer, and a read may return as little as it likes. So the poll counts down from what it
was told by what it was given, asks for no more than is left of the count and than a chunk
holds, and ends with the first read that fails or returns nothing.

To see what is asked, the link is watched: every operation is passed on, and of the reads
there is a note (`Watching`). The notes of a poll show the count going down (`CountedDown`),
which is what the loop does, turn by turn, and from that follow the bounds for any number of
reads. There are never more reads than octets that were promised, so the loop ends; and no
read returns more than is left of the count, so the count never falls below zero.

Whoever reads into one chunk again and again has what an earlier read left there behind
what the latest read returned (`Intake.pollThrough`). Only the front is fed, as far as the
latest read has filled it, so nothing stale reaches the assembler, whatever the chunk held
at first.

A link that gives at least one octet as long as any wait is emptied up to the count
(`Inlet.Productive.drain`), and all that was taken is fed once and in order.

## Main results

* `drain_watching` — the reads of a poll are counted down, and watching changes nothing.
* `CountedDown.place` — what each read asks for and returns, and when it is the last.
* `Intake.exists_pollThrough` — polling through a chunk is polling.
* `Intake.reads_of_poll` — all of it, for every intake and every link.
-/

namespace PeripheralHost

/-! ## Reads that are counted down -/

/-- A read that was made. -/
structure ReadMade where
  /-- How many octets were asked for. -/
  want : Nat
  /-- The octets returned, or the failure. -/
  answer : Except LinkError Bytes

/-- The octets that a read returned; a read that failed returned none. -/
def ReadMade.got (read : ReadMade) : Bytes := read.answer.toOption.getD []

/-- The octets that reads returned, in order. -/
def octetsOf (reads : List ReadMade) : Bytes := reads.flatMap ReadMade.got

/-- The pieces that reads returned, without those that returned nothing. -/
def piecesOf (reads : List ReadMade) : List Bytes :=
  (reads.map ReadMade.got).filter fun got => !got.isEmpty

/-- Reads that are made, a chunk at most at a time, as long as something remains to be
read, and the fault that ended them, if one did. -/
inductive CountedDown (chunk : Nat) :
    (remaining : Nat) → List ReadMade → Option LinkError → Prop where
  /-- Nothing remains. -/
  | done : CountedDown chunk 0 [] none
  /-- The read fails. -/
  | failed {remaining : Nat} {fault : LinkError} (more : 0 < remaining) :
      CountedDown chunk remaining [⟨min remaining chunk, .error fault⟩] (some fault)
  /-- The read returns nothing. -/
  | dry {remaining : Nat} (more : 0 < remaining) :
      CountedDown chunk remaining [⟨min remaining chunk, .ok []⟩] none
  /-- The read returns something, and the next are made of what is left. -/
  | next {remaining : Nat} {got : Bytes} {later : List ReadMade} {fault : Option LinkError}
      (more : 0 < remaining) (some : got ≠ []) (fits : got.length ≤ min remaining chunk)
      (left : CountedDown chunk (remaining - got.length) later fault) :
      CountedDown chunk remaining (⟨min remaining chunk, .ok got⟩ :: later) fault

namespace CountedDown

variable {chunk remaining : Nat} {reads : List ReadMade} {fault : Option LinkError}

theorem length_octets_le (h : CountedDown chunk remaining reads fault) :
    (octetsOf reads).length ≤ remaining := by
  induction h with
  | done => exact Nat.le_refl _
  | failed more => exact Nat.zero_le _
  | dry more => exact Nat.zero_le _
  | next more some fits left ih =>
      simp only [octetsOf, List.flatMap_cons, List.length_append] at ih ⊢
      simp only [ReadMade.got, Except.toOption, Option.getD_some]
      omega

/-- Each read but the last takes at least one octet of what remains. -/
theorem length_le (h : CountedDown chunk remaining reads fault) : reads.length ≤ remaining := by
  induction h with
  | done => exact Nat.le_refl _
  | failed more => exact more
  | dry more => exact more
  | next more some fits left ih =>
      have := List.length_pos_iff.mpr some
      simp only [List.length_cons]
      omega

/-- What a read asks for is what remains of the count, or a chunk if that is less. -/
theorem place (h : CountedDown chunk remaining reads fault) {earlier later : List ReadMade}
    {read : ReadMade} (hsplit : reads = earlier ++ read :: later) :
    (octetsOf earlier).length < remaining ∧
      read.want = min (remaining - (octetsOf earlier).length) chunk ∧
      read.got.length ≤ read.want ∧ (read.got = [] → later = []) := by
  induction h generalizing earlier with
  | done => simp at hsplit
  | failed more | dry more =>
      cases earlier with
      | nil =>
          obtain ⟨rfl, rfl⟩ := List.cons.inj hsplit
          exact ⟨more, rfl, Nat.zero_le _, fun _ => rfl⟩
      | cons first earlier => simp at hsplit
  | next more some fits left ih =>
      cases earlier with
      | nil =>
          obtain ⟨rfl, rfl⟩ := List.cons.inj hsplit
          exact ⟨more, rfl, fits, fun hnone => absurd hnone some⟩
      | cons first earlier =>
          obtain ⟨rfl, hlater⟩ := List.cons.inj hsplit
          obtain ⟨hless, hwant, hrest⟩ := ih hlater
          simp only [octetsOf, List.flatMap_cons, List.length_append] at hless hwant ⊢
          simp only [ReadMade.got, Except.toOption, Option.getD_some] at hless hwant ⊢
          refine ⟨by omega, ?_, hrest⟩
          rw [hwant, Nat.sub_sub]

/-- Reading ends when nothing remains, or with a read that returned nothing. -/
theorem ending (h : CountedDown chunk remaining reads fault) :
    (octetsOf reads).length = remaining ∨ ∃ earlier read, reads = earlier ++ [read] ∧
      read.got = [] := by
  induction h with
  | done => exact .inl rfl
  | failed more | dry more => exact .inr ⟨[], _, rfl, rfl⟩
  | @next remaining got later fault more some fits left ih =>
      rcases ih with hwhole | ⟨earlier, read, rfl, hnone⟩
      · left
        simp only [octetsOf, List.flatMap_cons, List.length_append] at hwhole ⊢
        simp only [hwhole, ReadMade.got, Except.toOption, Option.getD_some]
        omega
      · exact .inr ⟨_ :: earlier, read, rfl, hnone⟩

/-- The fault that ended the reading is that of a read. -/
theorem fault_eq_some_iff (h : CountedDown chunk remaining reads fault) (cause : LinkError) :
    fault = some cause ↔ ∃ read ∈ reads, read.answer = .error cause := by
  induction h with
  | done => simp
  | failed more => simp
  | dry more => simp
  | next more some fits left ih => simp [ih]

end CountedDown

theorem flatten_piecesOf (reads : List ReadMade) : (piecesOf reads).flatten = octetsOf reads := by
  rw [piecesOf, List.flatten_filter_not_isEmpty, octetsOf, List.flatMap_def]

/-! ## Watching a link -/

variable {σ : Type} [Link σ]

/-- A link, and the reads that were made of it. -/
structure Watching (σ : Type) where
  /-- The link. -/
  link : σ
  /-- The reads, oldest first. -/
  reads : List ReadMade := []

namespace Watching

/-- Passes an operation on to the link. -/
def passOn {α : Type} (operation : σ → LinkResult σ α) (watching : Watching σ) :
    LinkResult (Watching σ) α :=
  ((operation watching.link).1, { watching with link := (operation watching.link).2 })

/-- Reads from the link, and notes it. -/
def read (want : Nat) (watching : Watching σ) : LinkResult (Watching σ) Bytes :=
  ((Link.read want watching.link).1,
    { link := (Link.read want watching.link).2
      reads := watching.reads ++ [⟨want, (Link.read want watching.link).1⟩] })

instance : Link (Watching σ) where
  name watching := Link.name watching.link
  isOpen watching := Link.isOpen watching.link
  available := passOn Link.available
  read := read
  write bytes := passOn (Link.write bytes)
  close := passOn Link.close
  length_read_le := by
    intro want watching next got h
    have hread : (Link.read want watching.link).1 = .ok got := congrArg Prod.fst h
    exact Link.length_read_le (Prod.ext hread rfl)

theorem read_eq {want : Nat} {link after : σ} {answer : Except LinkError Bytes}
    (before : List ReadMade) (h : Link.read want link = (answer, after)) :
    Link.read want (⟨link, before⟩ : Watching σ) =
      (answer, ⟨after, before ++ [⟨want, answer⟩]⟩) := by
  show read want ⟨link, before⟩ = _
  rw [read, h]

theorem available_eq {link after : σ} {answer : Except LinkError Nat} (before : List ReadMade)
    (h : Link.available link = (answer, after)) :
    Link.available (⟨link, before⟩ : Watching σ) = (answer, ⟨after, before⟩) := by
  show passOn Link.available ⟨link, before⟩ = _
  rw [passOn, h]

end Watching


/-- The reads that empty a link are counted down, and watching changes nothing. -/
theorem drain_watching (chunk available : Nat) (link : σ) (taken : List Bytes)
    (before : List ReadMade) :
    let haul := drain chunk available link taken
    ∃ reads, CountedDown chunk available reads haul.fault ∧
      haul.pieces = taken.reverse ++ piecesOf reads ∧
      drain chunk available (⟨link, before⟩ : Watching σ) taken =
        ⟨haul.pieces, haul.fault, ⟨haul.link, before ++ reads⟩⟩ := by
  intro haul
  -- The cases are: a read that fails, one that returns nothing, one that returns something,
  -- and nothing left to be read.
  fun_induction drain chunk available link taken generalizing before with
  | case1 available link taken more fault next hread =>
      refine ⟨_, .failed more, (List.append_nil _).symm, ?_⟩
      rw [drain, dif_pos more, Watching.read_eq before hread]
  | case2 available link taken more next hread =>
      refine ⟨_, .dry more, (List.append_nil _).symm, ?_⟩
      rw [drain, dif_pos more, Watching.read_eq before hread]
  | case3 available link taken more b rest next hread ih =>
      have hfits := Link.length_read_le hread
      obtain ⟨reads, hcounted, hpieces, hdrain⟩ :=
        ih (before ++ [⟨min available chunk, .ok (b :: rest)⟩])
      refine ⟨_, .next more (List.cons_ne_nil b rest) hfits hcounted, ?_, ?_⟩
      · rw [hpieces, List.reverse_cons, List.append_assoc]
        rfl
      · rw [drain, dif_pos more, Watching.read_eq before hread]
        dsimp only
        rw [hdrain, List.append_assoc]
        rfl
  | case4 available link taken more =>
      obtain rfl : available = 0 := by omega
      refine ⟨[], .done, (List.append_nil _).symm, ?_⟩
      rw [drain, dif_neg more, List.append_nil]

namespace Intake

variable {now : Duration} {intake : Intake} {link opened : σ}

theorem poll_watching_of_error {fault : LinkError}
    (h : Link.available link = (.error fault, opened)) :
    intake.poll now (⟨link, []⟩ : Watching σ) =
      ((intake.poll now link).1, (intake.poll now link).2.1, ⟨(intake.poll now link).2.2, []⟩) := by
  rw [poll_unavailable h, poll_unavailable (Watching.available_eq [] h)]

/-- A poll of a link that says what is there counts its reads down, feeds what they returned
piece by piece, and fails as they do. -/
theorem poll_watching_of_ok (now : Duration) (intake : Intake) {available : Nat}
    (h : Link.available link = (.ok available, opened)) :
    let polled := intake.poll now link
    ∃ reads fault, CountedDown intake.limits.chunk available reads fault ∧
      intake.calls now link =
        (if intake.overdue now then [.abandon] else []) ++ (piecesOf reads).map .feed ∧
      (∀ cause, polled.1 = .error cause ↔ fault = some cause) ∧
      intake.poll now (⟨link, []⟩ : Watching σ) = (polled.1, polled.2.1, ⟨polled.2.2, reads⟩) := by
  intro polled
  obtain ⟨reads, hcounted, hpieces, hdrain⟩ :=
    drain_watching intake.limits.chunk available opened [] []
  refine ⟨reads, _, hcounted, ?_, fun cause => ?_, ?_⟩
  · rw [calls, h]
    dsimp only
    rw [hpieces]
    rfl
  · simp only [polled, poll_of_available h]
    cases (drain intake.limits.chunk available opened []).fault with
    | none => simp
    | some fault => simp
  · simp only [polled, poll, h, Watching.available_eq [] h, hdrain]
    cases (drain intake.limits.chunk available opened []).fault <;> rfl

end Intake

/-! ## Polling through a chunk -/

/-- What was done through a chunk. -/
structure Pumped (σ : Type) where
  /-- The failure that ended the reading, if there was one. -/
  fault : Option LinkError
  /-- What was settled. -/
  settled : List Outcome
  /-- The assembler afterwards. -/
  assembler : Assembler
  /-- What the chunk holds afterwards. -/
  chunk : Bytes
  /-- The link afterwards. -/
  link : σ

/-- Reads into the front of a chunk and feeds what was read, again and again, as long as
something is left of `available`. The chunk is not emptied in between. -/
def pump (available : Nat) (link : σ) (chunk : Bytes) (assembler : Assembler)
    (settled : List Outcome) : Pumped σ :=
  if _more : 0 < available then
    let want := min available chunk.length
    match Link.readInto (chunk.take want) link with
    | (.error fault, link) => ⟨some fault, settled, assembler, chunk, link⟩
    | (.ok (0, front), link) => ⟨none, settled, assembler, front ++ chunk.drop want, link⟩
    | (.ok (count + 1, front), link) =>
        let chunk := front ++ chunk.drop want
        let (outcomes, assembler) := Assembler.feed (chunk.take (count + 1)) assembler
        pump (available - min (count + 1) available) link chunk assembler (settled ++ outcomes)
  else ⟨none, settled, assembler, chunk, link⟩
termination_by available
decreasing_by omega

section

variable {available : Nat} {link next : σ} {chunk got : Bytes} {fault : LinkError}

/-- A read into the front of the chunk, as far as it is wanted. -/
theorem readInto_chunk {answer : Except LinkError Bytes}
    (h : Link.read (min available chunk.length) link = (answer, next)) :
    Link.readInto (chunk.take (min available chunk.length)) link =
      (answer.map fun got =>
        (got.length, got ++ (chunk.take (min available chunk.length)).drop got.length), next) := by
  have hsize : (chunk.take (min available chunk.length)).length = min available chunk.length := by
    rw [List.length_take]
    omega
  rw [Link.readInto, hsize, h]
  cases answer <;> rfl

theorem pump_of_error (more : 0 < available)
    (h : Link.read (min available chunk.length) link = (.error fault, next))
    (assembler : Assembler) (settled : List Outcome) :
    pump available link chunk assembler settled =
      ⟨some fault, settled, assembler, chunk, next⟩ := by
  rw [pump, dif_pos more]
  dsimp only
  rw [readInto_chunk h]
  rfl

theorem pump_of_nil (more : 0 < available)
    (h : Link.read (min available chunk.length) link = (.ok [], next))
    (assembler : Assembler) (settled : List Outcome) :
    pump available link chunk assembler settled = ⟨none, settled, assembler, chunk, next⟩ := by
  rw [pump, dif_pos more]
  dsimp only
  rw [readInto_chunk h]
  simp [Except.map]

/-- Behind what was read, the chunk still holds what it held; in front there is only what was
read, and that is fed. -/
theorem pump_of_got (more : 0 < available) (hgot : got ≠ [])
    (h : Link.read (min available chunk.length) link = (.ok got, next))
    (assembler : Assembler) (settled : List Outcome) :
    pump available link chunk assembler settled =
      pump (available - got.length) next (got ++ chunk.drop got.length)
        (Assembler.feed got assembler).2 (settled ++ (Assembler.feed got assembler).1) := by
  have hfits := Link.length_read_le h
  have hchunk : got ++ (chunk.take (min available chunk.length)).drop got.length ++
      chunk.drop (min available chunk.length) = got ++ chunk.drop got.length := by
    have hlength : got.length ≤ (chunk.take (min available chunk.length)).length := by
      rw [List.length_take]
      omega
    rw [List.append_assoc, ← List.drop_append_of_le_length hlength, List.take_append_drop]
  have hcount : min got.length available = got.length := by omega
  obtain ⟨b, rest, rfl⟩ := List.exists_cons_of_ne_nil hgot
  rw [pump, dif_pos more]
  dsimp only
  rw [readInto_chunk h]
  simp only [Except.map, List.length_cons] at hchunk hcount ⊢
  rw [hchunk, hcount, List.take_left' (by simp)]
  rfl

end

/-- Pumping feeds, read by read, what draining takes, whatever the chunk held at first. -/
theorem pump_eq_drain (size available : Nat) (link : σ) (taken : List Bytes) :
    let haul := drain size available link taken
    ∃ fresh, haul.pieces = taken.reverse ++ fresh ∧
      ∀ (chunk : Bytes) (assembler : Assembler) (settled : List Outcome), chunk.length = size →
        ∃ left : Bytes, left.length = size ∧
          pump available link chunk assembler settled =
            ⟨haul.fault, settled ++ (Assembler.feedAll fresh assembler).1,
              (Assembler.feedAll fresh assembler).2, left, haul.link⟩ := by
  intro haul
  fun_induction drain size available link taken with
  | case1 available link taken more fault next hread =>
      refine ⟨[], (List.append_nil _).symm, fun chunk assembler settled hsize => ?_⟩
      obtain rfl := hsize
      rw [pump_of_error more hread, Assembler.feedAll_nil, List.append_nil]
      exact ⟨chunk, rfl, rfl⟩
  | case2 available link taken more next hread =>
      refine ⟨[], (List.append_nil _).symm, fun chunk assembler settled hsize => ?_⟩
      obtain rfl := hsize
      rw [pump_of_nil more hread, Assembler.feedAll_nil, List.append_nil]
      exact ⟨chunk, rfl, rfl⟩
  | case3 available link taken more b rest next hread ih =>
      obtain ⟨fresh, hpieces, hpump⟩ := ih
      refine ⟨(b :: rest) :: fresh, ?_, fun chunk assembler settled hsize => ?_⟩
      · rw [hpieces, List.reverse_cons, List.append_assoc]
        rfl
      obtain rfl := hsize
      have hfits := Link.length_read_le hread
      have hleft : ((b :: rest) ++ chunk.drop (b :: rest).length).length = chunk.length := by
        rw [List.length_append, List.length_drop]
        omega
      obtain ⟨left, hlength, hrest⟩ := hpump ((b :: rest) ++ chunk.drop (b :: rest).length)
        (Assembler.feed (b :: rest) assembler).2
        (settled ++ (Assembler.feed (b :: rest) assembler).1) hleft
      refine ⟨left, hlength, ?_⟩
      rw [pump_of_got more (List.cons_ne_nil b rest) hread, Assembler.feedAll_cons,
        ← List.append_assoc]
      exact hrest
  | case4 available link taken more =>
      refine ⟨[], (List.append_nil _).symm, fun chunk assembler settled hsize => ?_⟩
      rw [pump, dif_neg more, Assembler.feedAll_nil, List.append_nil]
      exact ⟨chunk, hsize, rfl⟩

namespace Intake

/-- A poll that reads through a chunk, whose content it leaves behind. -/
def pollThrough (now : Duration) (chunk : Bytes) (intake : Intake) (link : σ) :
    Except LinkError (List Outcome) × Intake × Bytes × σ :=
  match Link.available link with
  | (.error fault, link) => (.error fault, intake, chunk, link)
  | (.ok available, link) =>
      let (expired, intake) := intake.expire now
      let pumped := pump available link chunk intake.assembler expired
      let intake := { intake with assembler := pumped.assembler }
      match pumped.fault with
      | some fault => (.error fault, intake, pumped.chunk, pumped.link)
      | none =>
          (.ok pumped.settled, intake.settle now pumped.settled, pumped.chunk, pumped.link)

/-- Polling through a chunk is polling. -/
theorem exists_pollThrough (now : Duration) (intake : Intake) (link : σ) {chunk : Bytes}
    (hchunk : chunk.length = intake.limits.chunk) :
    let polled := intake.poll now link
    ∃ left : Bytes, left.length = chunk.length ∧
      intake.pollThrough now chunk link = (polled.1, polled.2.1, left, polled.2.2) := by
  intro polled
  match havailable : Link.available link with
  | (.error fault, opened) =>
      refine ⟨chunk, rfl, ?_⟩
      simp only [polled, pollThrough, poll_unavailable havailable, havailable]
  | (.ok available, opened) =>
      obtain ⟨fresh, hpieces, hpump⟩ := pump_eq_drain intake.limits.chunk available opened []
      obtain ⟨left, hleft, hpumped⟩ := hpump chunk (intake.expire now).2.assembler
        (intake.expire now).1 hchunk
      refine ⟨left, hleft.trans hchunk.symm, ?_⟩
      simp only [polled, pollThrough, poll, havailable, hpumped, hpieces, List.reverse_nil,
        List.nil_append]
      cases (drain intake.limits.chunk available opened []).fault <;> rfl

end Intake

/-! ## Links that give -/

/-- As long as a link gives, a read returns at least one octet if any wait. -/
structure Inlet.Productive (inlet : Inlet σ) (gives : σ → Prop) : Prop where
  available : ∀ {link : σ}, gives link → gives (Link.available link).2
  read : ∀ {link : σ} (want : Nat), gives link → gives (Link.read want link).2
  dry : ∀ {link next : σ} {want : Nat}, gives link → 0 < want →
    Link.read want link = (.ok [], next) → inlet.waiting link = []

theorem Loopback.productive : Loopback.inlet.Productive fun _ => True where
  available _ := trivial
  read _ _ := trivial
  dry := by
    intro line next want _ hwant hread
    replace hread : line.read want = (.ok [], next) := hread
    unfold Loopback.read at hread
    split at hread
    · simp at hread
    · next ready hready =>
        obtain ⟨hnone, -⟩ := Prod.mk.inj hread
        rw [ready_eq_ok hready, Except.ok.injEq, List.take_eq_nil_iff] at hnone
        exact hnone.resolve_left (by omega)

/-- The script is told how much a read may return; no operation of the host changes that. -/
theorem Scripted.readLimit_available (script : Scripted) :
    (Link.available script).2.readLimit = script.readLimit := by
  show script.available.2.readLimit = script.readLimit
  unfold available
  split
  · rfl
  · split
    · next hasked => exact congrArg (·.2.readLimit) hasked.symm
    · next hasked _ => exact congrArg (·.2.readLimit) hasked.symm
    · next hasked _ => exact congrArg (·.2.readLimit) hasked.symm

theorem Scripted.readLimit_read (script : Scripted) (want : Nat) :
    (Link.read want script).2.readLimit = script.readLimit := by
  show (script.read want).2.readLimit = script.readLimit
  unfold read
  split <;> rfl

/-- A script that lets a read return something returns what waits on the line. -/
theorem Scripted.productive :
    Scripted.inlet.Productive fun script => script.readLimit ≠ some 0 where
  available := by
    intro script h
    rwa [script.readLimit_available]
  read := by
    intro script want h
    rwa [script.readLimit_read want]
  dry := by
    intro script next want hlimit hwant hread
    have hreadable : 0 < script.readable want := by
      unfold readable
      split
      · next limit hsome =>
          have : limit ≠ 0 := fun hzero => hlimit (by rw [hsome, hzero])
          omega
      · exact hwant
    replace hread : script.read want = (.ok [], next) := hread
    unfold Scripted.read at hread
    split at hread
    · simp at hread
    · exact Loopback.productive.dry trivial hreadable (Prod.ext (Prod.mk.inj hread).1 rfl)

/-- A link that gives is emptied up to the count, if no read fails. -/
theorem Inlet.Productive.drain {inlet : Inlet σ} {gives : σ → Prop}
    (h : inlet.Productive gives) {chunk : Nat} (hchunk : 0 < chunk) (available : Nat) {link : σ}
    (taken : List Bytes) (hgives : gives link) :
    let haul := PeripheralHost.drain chunk available link taken
    haul.fault = none →
      haul.pieces.flatten = taken.reverse.flatten ++ (inlet.waiting link).take available := by
  intro haul
  fun_induction PeripheralHost.drain chunk available link taken with
  | case1 available link taken more fault next hread => intro hfault; simp [haul] at hfault
  | case2 available link taken more next hread =>
      intro _
      rw [h.dry hgives (by omega) hread, List.take_nil, List.append_nil]
  | case3 available link taken more b rest next hread ih =>
      intro hfault
      have hfits := Link.length_read_le hread
      have hlength : (b :: rest).length ≤ available := by omega
      have hnext : gives next := by
        have := h.read (min available chunk) hgives
        rwa [hread] at this
      rw [ih hnext hfault, inlet.read hread, List.take_append, List.take_of_length_le hlength]
      simp
  | case4 available link taken more =>
      intro _
      obtain rfl : available = 0 := by omega
      rw [List.take_zero, List.append_nil]

namespace Intake

theorem octets_abandon_feeds (abandons : Bool) (pieces : List Bytes) :
    Assembler.octets ((if abandons then [.abandon] else []) ++ pieces.map .feed) =
      pieces.flatten := by
  have hfeeds := Assembler.octets_feeds pieces
  rw [Assembler.octets] at hfeeds ⊢
  rw [List.flatMap_append, hfeeds]
  cases abandons <;> rfl

/-- What a poll takes off a link that gives, if it does not fail. -/
theorem octets_calls_eq_take {inlet : Inlet σ} {gives : σ → Prop}
    (hproductive : inlet.Productive gives)
    {now : Duration} {intake : Intake} {link opened : σ} {available : Nat}
    (h : Link.available link = (.ok available, opened)) (hgives : gives link)
    {outcomes : List Outcome} (hok : (intake.poll now link).1 = .ok outcomes) :
    Assembler.octets (intake.calls now link) = (inlet.waiting link).take available := by
  have hfault : (drain intake.limits.chunk available opened []).fault = none := by
    rw [poll_of_available h] at hok
    split at hok
    · simp at hok
    · next hnone => exact hnone
  have hopened : gives opened := by
    have := hproductive.available hgives
    rwa [h] at this
  have hwaiting : inlet.waiting opened = inlet.waiting link := by
    have := inlet.available link
    rwa [h] at this
  rw [octets_calls h, hproductive.drain intake.limits.chunk_pos available [] hopened hfault,
    hwaiting]
  rfl

theorem perform_abandon_feeds (now : Duration) (intake : Intake) (pieces : List Bytes) :
    let expired := if intake.overdue now then Assembler.abandon intake.assembler
      else ([], intake.assembler)
    Assembler.perform ((if intake.overdue now then [.abandon] else []) ++ pieces.map .feed)
        intake.assembler =
      (expired.1 ++ (Assembler.feedAll pieces expired.2).1,
        (Assembler.feedAll pieces expired.2).2) := by
  rw [Assembler.perform_append, Assembler.perform_feed]
  by_cases hoverdue : intake.overdue now = true
  · simp only [hoverdue, if_true, Assembler.perform, Assembler.call, List.append_nil]
  · simp only [hoverdue, Bool.false_eq_true, if_false, Assembler.perform]

/-- A poll leaves the assembler as its calls do, and answers what they settle. -/
theorem performed_of_poll (now : Duration) (intake : Intake) (link : σ) :
    let performed := Assembler.perform (intake.calls now link) intake.assembler
    (intake.poll now link).2.1.assembler = performed.2 ∧
      ∀ outcomes, (intake.poll now link).1 = .ok outcomes → outcomes = performed.1 := by
  rcases poll_eq now intake link with ⟨fault, next, hpoll⟩ | ⟨next, hpoll⟩
  · rw [hpoll]
    exact ⟨rfl, by simp⟩
  · rw [hpoll]
    exact ⟨rfl, fun outcomes houtcomes => (Except.ok.inj houtcomes).symm⟩

/-- **A poll takes no more than it was told of, and feeds what it takes.** Let an intake, in
any state and within any limits, poll a link that may do what it likes, but that a read
returns no more than was asked for. Watching the reads changes nothing, and neither does a
chunk that is used for all of them, whatever it holds at first. If the link cannot say what
is there, nothing is read. Let it say, truly or not, that so many octets are available. Then

* there are no more reads than that, and together they return no more octets than that;
* each read asks for what is left of the count, or for a chunk if that is less. Something is
  left, what is returned fits into it, and a read that fails or returns nothing is the last;
* there is no last read but such a one as long as something is left;
* the poll fails exactly as one of its reads does. What the reads returned is fed piece by
  piece, behind the abandonment of an overdue frame, and what that settles is answered if the
  poll does not fail;
* if each read returns at least one octet as long as any wait, a poll that does not fail takes
  all that wait, up to the count, leaves the others, and feeds what it took once and in
  order. -/
theorem reads_of_poll (now : Duration) (intake : Intake) (link : σ) :
    let polled := intake.poll now link
    let watched := intake.poll now (⟨link, []⟩ : Watching σ)
    let reads := watched.2.2.reads
    let expired := if intake.overdue now then Assembler.abandon intake.assembler
      else ([], intake.assembler)
    let fed := Assembler.feedAll (piecesOf reads) expired.2
    (watched.1 = polled.1 ∧ watched.2.1 = polled.2.1 ∧ watched.2.2.link = polled.2.2) ∧
    (∀ chunk : Bytes, chunk.length = max intake.limits.readChunk 1 →
      ∃ left : Bytes, left.length = chunk.length ∧
        intake.pollThrough now chunk link = (polled.1, polled.2.1, left, polled.2.2)) ∧
    (∀ fault, (Link.available link).1 = .error fault → reads = []) ∧
    ∀ available, (Link.available link).1 = .ok available →
      (reads.length ≤ available ∧ (octetsOf reads).length ≤ available) ∧
      (∀ earlier read later, reads = earlier ++ read :: later →
        (octetsOf earlier).length < available ∧
          read.want =
            min (available - (octetsOf earlier).length) (max intake.limits.readChunk 1) ∧
          read.got.length ≤ read.want ∧ (read.got = [] → later = [])) ∧
      ((octetsOf reads).length = available ∨
        ∃ earlier read, reads = earlier ++ [read] ∧ read.got = []) ∧
      ((∀ fault, polled.1 = .error fault ↔ ∃ read ∈ reads, read.answer = .error fault) ∧
        polled.2.1.assembler = fed.2 ∧
        ∀ outcomes, polled.1 = .ok outcomes → outcomes = expired.1 ++ fed.1) ∧
      ∀ (inlet : Inlet σ) (gives : σ → Prop), inlet.Productive gives → gives link →
        ∀ outcomes, polled.1 = .ok outcomes →
          octetsOf reads = (inlet.waiting link).take available ∧
            (octetsOf reads).length = min available (inlet.waiting link).length ∧
            inlet.waiting polled.2.2 = (inlet.waiting link).drop available ∧
            fed = Assembler.feed ((inlet.waiting link).take available) expired.2 := by
  intro polled watched reads expired fed
  have hpump := fun (chunk : Bytes) (hchunk : chunk.length = max intake.limits.readChunk 1) =>
    exists_pollThrough now intake link hchunk
  rcases havailable : Link.available link with ⟨fault | available, opened⟩
  · have hwatched : watched = (polled.1, polled.2.1, ⟨polled.2.2, []⟩) :=
      poll_watching_of_error havailable
    exact ⟨⟨congrArg (·.1) hwatched, congrArg (·.2.1) hwatched, congrArg (·.2.2.link) hwatched⟩,
      hpump, fun _ _ => congrArg (·.2.2.reads) hwatched, by simp⟩
  · obtain ⟨made, fault, hcounted, hcalls, hfault, hwatched⟩ :=
      poll_watching_of_ok now intake havailable
    have hreads : reads = made := congrArg (·.2.2.reads) hwatched
    have hperformed := perform_abandon_feeds now intake (piecesOf made)
    obtain ⟨hassembler, hanswer⟩ := performed_of_poll now intake link
    rw [hcalls, hperformed] at hassembler hanswer
    refine ⟨⟨congrArg (·.1) hwatched, congrArg (·.2.1) hwatched, congrArg (·.2.2.link) hwatched⟩,
      hpump, by simp, ?_⟩
    intro count hcount
    obtain rfl := Except.ok.inj hcount
    rw [hreads]
    refine ⟨⟨hcounted.length_le, hcounted.length_octets_le⟩,
      fun earlier read later hsplit => hcounted.place hsplit, hcounted.ending,
      ⟨fun cause => (hfault cause).trans (hcounted.fault_eq_some_iff cause), ?_, ?_⟩, ?_⟩
    · rw [hassembler, ← hreads]
    · intro outcomes hok
      rw [hanswer outcomes hok, ← hreads]
    · intro inlet gives hproductive hgives outcomes hok
      have htaken := octets_calls_eq_take hproductive havailable hgives hok
      have hleft := waiting_poll inlet now intake link
      have hoctets : octetsOf made = (inlet.waiting link).take available := by
        rw [← htaken, hcalls, octets_abandon_feeds, flatten_piecesOf]
      refine ⟨hoctets, ?_, ?_, ?_⟩
      · rw [hoctets, List.length_take]
      · rw [htaken] at hleft
        exact List.append_cancel_left (hleft.symm.trans (List.take_append_drop _ _).symm)
      · rw [← hoctets, ← flatten_piecesOf, ← Assembler.feedAll_eq_feed, ← hreads]

/-- Eleven octets wait, a hundred are reported, and a read returns two at most. They are
taken in seven reads, of which the last returns nothing, also through a chunk full of start
marks. -/
theorem reads_beyond_what_waits :
    let reply := Frame.reply 0x20 0 []
    let link : Scripted :=
      { line := { toHost := wrap (reply.header ++ reply.body) }
        reports := [100]
        readLimit := some 2 }
    let intake := ofLimits { readChunk := 3 }
    let polled := intake.poll .zero link
    let reads := (intake.poll .zero (⟨link, []⟩ : Watching Scripted)).2.2.reads
    (Link.available link).1 = .ok 100 ∧ link.readLimit ≠ some 0 ∧ polled.1 = .ok [.ok reply] ∧
      reads.length = 7 ∧ octetsOf reads = wrap (reply.header ++ reply.body) ∧
      polled.2.2.line.toHost = [] ∧
      ∃ left : Bytes, left.length = 3 ∧
        intake.pollThrough .zero [2, 2, 2] link = (polled.1, polled.2.1, left, polled.2.2) := by
  intro reply link intake polled reads
  have hlimit : link.readLimit ≠ some 0 := by decide
  have hcount : reads.length = 7 := by decide +kernel
  have hanswer : polled.1.toOption = some [.ok reply] := by decide +kernel
  have hpolled : polled.1 = .ok [.ok reply] := by
    cases hcase : polled.1 with
    | error fault => simp [hcase, Except.toOption] at hanswer
    | ok outcomes => simpa [hcase, Except.toOption] using hanswer
  obtain ⟨-, hthrough, -, hread⟩ := reads_of_poll .zero intake link
  obtain ⟨-, -, -, -, hempties⟩ := hread 100 rfl
  obtain ⟨htaken, -, hleft, -⟩ := hempties _ _ Scripted.productive hlimit _ hpolled
  exact ⟨rfl, hlimit, hpolled, hcount, htaken, hleft, hthrough [2, 2, 2] rfl⟩

end Intake

end PeripheralHost
