import PeripheralHost.Bytes
import PeripheralHost.Link.Error

/-!
# Links

A link is a point-to-point line that moves octets and knows nothing of
frames. What a link *is* varies — a port, a pair of queues in memory, a
rehearsed sequence of faults — so the operations are a class over the type of
the link's state. Every operation answers together with the state it leaves
behind, and it does so on failure too: a failing read has a successor state
like any other.

The class carries the one promise callers rely on, `length_read_le`: a read
returns at most the number of octets it was asked for. A reader that counts
down from what the link reported therefore never counts below zero.

How a port carries out an operation, and when it tries again after an
interruption, is left out: a port is a link like any other.

## Main results

* `readInto_length` — reading into a buffer keeps the buffer's length.
* `readInto_drop` — and changes nothing beyond the octets read.
-/

namespace PeripheralHost

/-- An answer or an error, with the state left behind. -/
abbrev LinkResult (σ α : Type) := Except LinkError α × σ

/-- The operations of a link whose state has type `σ`. -/
class Link (σ : Type) where
  /-- Name for diagnostics. -/
  name : σ → String
  /-- Whether the link is open. -/
  isOpen : σ → Bool
  /-- How many received octets the link says can be read without waiting. -/
  available : σ → LinkResult σ Nat
  /-- Takes at most the given number of received octets. -/
  read : Nat → σ → LinkResult σ Bytes
  /-- Offers octets to the line and answers how many it accepted. A count
  below the length offered is a short write: reported, and not retried. -/
  write : Bytes → σ → LinkResult σ Nat
  /-- Releases the link. -/
  close : σ → LinkResult σ Unit
  /-- A read returns at most what it was asked for. -/
  length_read_le : ∀ {want : Nat} {link next : σ} {got : Bytes},
    read want link = (.ok got, next) → got.length ≤ want

namespace Link

/-- Reads into the front of a buffer: the count read, and the buffer after. -/
def readInto {σ : Type} [Link σ] (buffer : Bytes) (link : σ) : LinkResult σ (Nat × Bytes) :=
  match read buffer.length link with
  | (.error fault, next) => (.error fault, next)
  | (.ok got, next) => (.ok (got.length, got ++ buffer.drop got.length), next)

theorem readInto_length {σ : Type} [Link σ] {buffer after : Bytes} {link next : σ} {count : Nat}
    (h : readInto buffer link = (.ok (count, after), next)) : after.length = buffer.length := by
  unfold readInto at h
  split at h
  · simp at h
  · next got _ hread =>
      have := length_read_le hread
      simp only [Prod.mk.injEq, Except.ok.injEq] at h
      obtain ⟨⟨rfl, rfl⟩, rfl⟩ := h
      simp only [List.length_append, List.length_drop]
      omega

theorem readInto_drop {σ : Type} [Link σ] {buffer after : Bytes} {link next : σ} {count : Nat}
    (h : readInto buffer link = (.ok (count, after), next)) :
    after.drop count = buffer.drop count := by
  unfold readInto at h
  split at h
  · simp at h
  · simp only [Prod.mk.injEq, Except.ok.injEq] at h
    obtain ⟨⟨rfl, rfl⟩, rfl⟩ := h
    simp

/-- Acquires the device at `path` from those at hand. A device that cannot be
acquired is reported with the cause; no second attempt is made. -/
def acquire {σ : Type} (devices : String → Except String σ) (path : String) :
    Except LinkError σ :=
  match devices path with
  | .ok link => .ok link
  | .error cause => .error (.unavailable path cause)

end Link

end PeripheralHost
