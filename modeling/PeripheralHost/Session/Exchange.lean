import PeripheralHost.Session.Basic

/-!
# Requests and their replies

An exchange sends one request and waits for its reply. Waiting is a matter of
looking into the mailbox of the command's topic, again and again, until the
reply is there or the deadline is reached. Between two looks the caller
sleeps, and others move: the receiver makes a visit, or the other end of the
link does something. A *round* is what lies between two looks — the reading of
the clock after the look in vain, by which the caller decides whether to go
on, and the moves made while it sleeps. Others may also move between the write
of a request and the first look for its reply. What happens to a waiting caller
is determined by a row of rounds, so a statement about every wait is a statement
about every row.

A request that could not be sent ends the exchange at once. It waits for
nothing, looks into no mailbox, and never turns into a timeout.

## Main results

* `request_of_unsent` — a request that was not sent makes no round and leaves
  the mailboxes alone.
-/

namespace PeripheralHost

/-- What others do while a caller sleeps. -/
inductive Move (σ : Type) where
  /-- The receiver makes a visit, at the given reading of the clock. -/
  | receiver (now : Duration)
  /-- The other end of the link does something. -/
  | peer (act : σ → σ)

/-- What lies between two looks of a waiting caller. -/
structure Round (σ : Type) where
  /-- The clock after the look in vain. -/
  reading : Duration
  /-- What others do before the next look. -/
  moves : List (Move σ)

/-- How an exchange went. -/
structure Exchange (σ α : Type) where
  /-- What the caller gets. -/
  answer : Except SessionError α
  /-- The frames skipped by the looks, in order. -/
  skipped : List Frame := []
  /-- The visits the receiver made meanwhile. -/
  progress : List Session.Progress := []
  /-- The session afterwards. -/
  session : Session σ

namespace Session

variable {σ : Type} [Link σ]

/-- Lets others move. -/
def moveAll : List (Move σ) → Session σ → List Progress × Session σ
  | [], session => ([], session)
  | .receiver now :: moves, session =>
      let (progress, session) := session.advance now
      let (further, session) := moveAll moves session
      (progress :: further, session)
  | .peer act :: moves, session => moveAll moves { session with link := act session.link }

/-- Waits for the reply to `command`, with `budget` from the reading `start`.
A row of rounds that ends before the deadline counts as time run out. The
deadline is a sum without a bound: a budget that takes it past the last reading
of the clock, where the wait would abort and not time out, is left out here. -/
def awaitReply (command : UInt8) (start budget : Duration) :
    List (Round σ) → Session σ → Exchange σ Reply
  | rounds, session =>
      match session.look command with
      | (⟨skipped, some frame⟩, session) => { answer := Reply.ofFrame frame, skipped, session }
      | (⟨skipped, none⟩, session) =>
          match rounds with
          | [] => { answer := .error (.noReply command budget), skipped, session }
          | round :: later =>
              if start + budget ≤ round.reading then
                { answer := .error (.noReply command budget), skipped, session }
              else
                let (progress, session) := session.moveAll round.moves
                let rest := awaitReply command start budget later session
                { rest with
                  skipped := skipped ++ rest.skipped
                  progress := progress ++ rest.progress }

/-- Waits until the topic has a frame, then takes out the newest and drops all
others. The deadline is as unbounded as that of `awaitReply`. -/
def awaitLatest (topic : Topic) (start budget : Duration) :
    List (Round σ) → Session σ → Exchange σ Frame
  | rounds, session =>
      match session.takeLatest topic with
      | (some frame, session) => { answer := .ok frame, session }
      | (none, session) =>
          match rounds with
          | [] => { answer := .error (.noEvent topic budget), session }
          | round :: later =>
              if start + budget ≤ round.reading then
                { answer := .error (.noEvent topic budget), session }
              else
                let (progress, session) := session.moveAll round.moves
                let rest := awaitLatest topic start budget later session
                { rest with progress := progress ++ rest.progress }

/-- Sends a request and waits for its reply; `sent` are the moves between the
write and the first look. The deadline, `budget` behind `start`, is one that the
clock can show (see `awaitReply`); otherwise the request is sent all the same,
and the wait for its reply aborts. -/
def request (command : UInt8) (params : Bytes) (sent : List (Move σ)) (start budget : Duration)
    (rounds : List (Round σ)) (session : Session σ) : Exchange σ Reply :=
  match session.sendRequest command params with
  | (.error fault, session) => { answer := .error fault, session }
  | (.ok (), session) =>
      let (progress, session) := session.moveAll sent
      let rest := session.awaitReply command start budget rounds
      { rest with progress := progress ++ rest.progress }

/-- Sends a request and answers the result data of its reply; a status other
than zero is an error. -/
def call (command : UInt8) (params : Bytes) (sent : List (Move σ)) (start budget : Duration)
    (rounds : List (Round σ)) (session : Session σ) : Exchange σ Bytes :=
  let exchange := session.request command params sent start budget rounds
  { answer := exchange.answer.bind Reply.result
    skipped := exchange.skipped
    progress := exchange.progress
    session := exchange.session }

theorem request_of_unsent {command : UInt8} {params : Bytes} {session next : Session σ}
    {fault : SessionError} (sent : List (Move σ)) (start budget : Duration)
    (rounds : List (Round σ)) (h : session.sendRequest command params = (.error fault, next)) :
    session.request command params sent start budget rounds =
      { answer := .error fault, session := next } := by
  simp [request, h]

end Session

end PeripheralHost
