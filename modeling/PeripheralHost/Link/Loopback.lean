import PeripheralHost.Link.Basic

/-!
# A link in memory

`Loopback` joins a host to a peer that plays the controller, by one queue of
octets in each direction. The host's end is a `Link`; the peer injects the
octets the host will read, takes the octets the host has written, and may
spoil the line: limit how much each write accepts, or make the host's next
operation fail.

Every host operation looks at the state of the line in the same order
(`Loopback.ready`). A closed line fails as closed, and an injected fault that
is still pending stays pending. An open line with a pending fault fails once
and forgets the fault. Only then do octets move.
-/

namespace PeripheralHost

/-- Both ends of a line in memory. -/
structure Loopback where
  /-- Injected by the peer and not yet read by the host, oldest first. -/
  toHost : Bytes := []
  /-- Written by the host and not yet taken by the peer, oldest first. -/
  toPeer : Bytes := []
  /-- The most octets one write accepts, if there is a limit. -/
  writeLimit : Option Nat := none
  /-- Whether the host's next operation on the open line fails. -/
  faultPending : Bool := false
  /-- Whether the host has closed the line. -/
  closed : Bool := false
  deriving DecidableEq, Repr, Inhabited

namespace Loopback

/-! ## The host's end -/

/-- The error of an operation that meets an injected fault. -/
def injectedFault : LinkError := .io "injected loopback fault"

/-- Whether octets can move. Meeting a pending fault uses it up. -/
def ready (line : Loopback) : LinkResult Loopback Unit :=
  if line.closed then (.error .closed, line)
  else if line.faultPending then (.error injectedFault, { line with faultPending := false })
  else (.ok (), line)

/-- The number of octets waiting for the host. -/
def available (line : Loopback) : LinkResult Loopback Nat :=
  match line.ready with
  | (.error fault, line) => (.error fault, line)
  | (.ok (), line) => (.ok line.toHost.length, line)

/-- Takes the oldest octets waiting for the host, at most `want`. -/
def read (want : Nat) (line : Loopback) : LinkResult Loopback Bytes :=
  match line.ready with
  | (.error fault, line) => (.error fault, line)
  | (.ok (), line) =>
      (.ok (line.toHost.take want), { line with toHost := line.toHost.drop want })

/-- How many of `length` octets one write accepts. -/
def accepted (line : Loopback) (length : Nat) : Nat :=
  match line.writeLimit with
  | some limit => min length limit
  | none => length

/-- Hands the peer as many octets as one write accepts. -/
def write (bytes : Bytes) (line : Loopback) : LinkResult Loopback Nat :=
  match line.ready with
  | (.error fault, line) => (.error fault, line)
  | (.ok (), line) =>
      let count := line.accepted bytes.length
      (.ok count, { line with toPeer := line.toPeer ++ bytes.take count })

/-- Closes the line; closing it again changes nothing. -/
def close (line : Loopback) : LinkResult Loopback Unit :=
  (.ok (), { line with closed := true })

theorem ready_eq_ok {line next : Loopback} (h : line.ready = (.ok (), next)) : next = line := by
  unfold ready at h
  split at h
  · simp at h
  · split at h
    · simp at h
    · simpa using h.symm

instance : Link Loopback where
  name _ := "loopback"
  isOpen line := !line.closed
  available := available
  read := read
  write := write
  close := close
  length_read_le := by
    intro want line next got h
    unfold read at h
    split at h
    · simp at h
    · simp only [Prod.mk.injEq, Except.ok.injEq] at h
      rw [← h.1]
      exact List.length_take_le _ _

/-! ## The peer's end -/

/-- Queues octets for the host. -/
def inject (bytes : Bytes) (line : Loopback) : Loopback :=
  { line with toHost := line.toHost ++ bytes }

/-- Takes everything the host has written so far. -/
def takeWritten (line : Loopback) : Bytes × Loopback :=
  (line.toPeer, { line with toPeer := [] })

/-- Waits for at least `_least` octets and takes everything written. Nothing
is written while the peer waits, so the wait ends with what is there, be it
by count, by a closed line or by time. -/
def awaitWritten (_least : Nat) (line : Loopback) : Bytes × Loopback := line.takeWritten

/-- Sets or removes the limit on a write. -/
def limitWrites (limit : Option Nat) (line : Loopback) : Loopback :=
  { line with writeLimit := limit }

/-- Makes the host's next operation on the open line fail. Asking twice before
that operation counts once. -/
def injectFault (line : Loopback) : Loopback := { line with faultPending := true }

/-- The number of octets injected and not yet read. -/
def unread (line : Loopback) : Nat := line.toHost.length

end Loopback

end PeripheralHost
