import Qvole.Lib.Bytes
import Qvole.Lib.Run

/-!
# Reading standard input

Port of `stdin_reader.rs`: a thread sends what it reads through a bounded channel, and `poll_read`
hands it out in the sizes it is asked for. An error is whatever the reads fail with.

Of tokio's bounded `mpsc` channel this is taken, as its documentation has it: what was sent is received
in order, `blocking_send` waits while the channel is full, and `poll_recv` gives none once the channel is
empty and its sender gone.
-/

namespace Qvole.Pipe

variable {ε : Type}

/-- What the thread sends for the results of its reads. It stops behind the first end or error. -/
def threadSends : List (Except ε Bytes) → List (Except ε Bytes)
  | [] => []
  | .ok b :: reads => if b = [] then [.ok []] else .ok b :: threadSends reads
  | .error e :: _ => [.error e]

def channelCapacity : Nat := 8

structure StdinReader (ε : Type) where
  /-- In the channel. -/
  rx : List (Except ε Bytes)
  /-- The sender is gone. -/
  closed : Bool
  pending : Option Bytes
  eof : Bool

def StdinReader.new : StdinReader ε := { rx := [], closed := false, pending := none, eof := false }

/-- The result of a poll, with the bytes put into the buffer. -/
inductive Polled (ε : Type) where
  | pending
  | ready (b : Bytes)
  | failed (error : ε)
  deriving DecidableEq, Repr

/-- `poll_read` with no leftover bytes. -/
def StdinReader.pollRecv (r : StdinReader ε) (size : Nat) : StdinReader ε × Polled ε :=
  if r.eof then (r, .ready [])
  else
    match r.rx with
    | .ok chunk :: rx =>
        if chunk = [] then ({ r with rx, eof := true }, .ready [])
        else
          let n := min chunk.length size
          ({ r with rx, pending := if n < chunk.length then some (chunk.drop n) else r.pending },
            .ready (chunk.take n))
    | .error e :: rx => ({ r with rx }, .failed e)
    | [] => if r.closed then ({ r with eof := true }, .ready []) else (r, .pending)

/-- One poll with room for `size` bytes. -/
def StdinReader.pollRead (r : StdinReader ε) (size : Nat) : StdinReader ε × Polled ε :=
  match r.pending with
  | some p =>
      if p ≠ [] then
        let n := min p.length size
        ({ r with pending := if n < p.length then some (p.drop n) else none }, .ready (p.take n))
      else StdinReader.pollRecv { r with pending := none } size
  | none => r.pollRecv size

/-! ### Runs -/

inductive ReaderEvent (ε : Type) where
  /-- The thread sends, as soon as the channel has room. -/
  | send (item : Except ε Bytes)
  /-- The thread ends. -/
  | hangUp
  | poll (size : Nat)

inductive ReaderEffect (ε : Type) where
  | sent (item : Except ε Bytes)
  | polled (size : Nat) (result : Polled ε)

def StdinReader.step (r : StdinReader ε) : ReaderEvent ε → StdinReader ε × List (ReaderEffect ε)
  | .send item =>
      if r.closed ∨ r.rx.length ≥ channelCapacity then (r, [])
      else ({ r with rx := r.rx ++ [item] }, [.sent item])
  | .hangUp => ({ r with closed := true }, [])
  | .poll size => ((r.pollRead size).1, [.polled size (r.pollRead size).2])

def readerMachine (ε : Type) : Machine (StdinReader ε) (ReaderEvent ε) (ReaderEffect ε) where
  init := .new
  step := StdinReader.step
  start _ := 0
  finish _ := 0

end Qvole.Pipe
