import Qvole.Lib.Bytes
import Qvole.Lib.Run
import Mathlib.Logic.Function.Basic

/-!
# Copying both ways

Port of the copy loop of `copy.rs` and of `bidirectional_copy`, which polls two of them in one task. A
step is one poll of a source, of a sink or of the stop token, or one turn of the code around them, so
that the stop token may fire between any two. What sources and sinks answer comes with the step.
-/

namespace Qvole.Copy

variable {ε : Type}

inductive ReadAnswer (ε : Type) where
  | pending
  /-- No bytes are the end of input. -/
  | ready (b : Bytes)
  | failed (error : ε)
  deriving DecidableEq, Repr

inductive WriteAnswer (ε : Type) where
  | pending
  /-- The sink took that many of the bytes it was offered. -/
  | took (n : Nat)
  | failed (error : ε)
  deriving DecidableEq, Repr

/-- The answer to a poll of the source, or of the sink, whichever the step makes. -/
structure Io (ε : Type) where
  read : ReadAnswer ε
  write : WriteAnswer ε

inductive CopyError (ε : Type) where
  | io (error : ε)
  | writeZero
  deriving DecidableEq, Repr

/-- How a direction came to its end. -/
inductive Ended (ε : Type) where
  | eof
  | stopped
  | failed (error : CopyError ε)
  deriving DecidableEq, Repr

/-! ### One direction -/

/-- Where the copy loop stands. -/
inductive Phase (ε : Type) where
  /-- At the stop token, which comes first. -/
  | selecting
  | reading
  /-- In `write_all`, with these bytes to go. -/
  | writing (rest : Bytes)
  | yielding
  | ended (how : Ended ε)
  deriving DecidableEq, Repr

/-- What a poll of the loop has come to. -/
inductive Polled where
  | running
  | pending
  | ready
  deriving DecidableEq, Repr

/-- What a step did to the source and to the sink, and the end of the loop. -/
inductive Act (ε : Type) where
  | read (b : Bytes)
  | wrote (b : Bytes)
  | finished (how : Ended ε)
  deriving DecidableEq, Repr

def finish (how : Ended ε) : Phase ε × Polled × List (Act ε) :=
  (.ended how, .ready, [.finished how])

/-- One step of the loop, with the stop token as it is. -/
def copyInner (interleave stopped : Bool) (io : Io ε) : Phase ε → Phase ε × Polled × List (Act ε)
  | .selecting => if stopped then finish .stopped else (.reading, .running, [])
  | .reading =>
      match io.read with
      | .pending => (.selecting, .pending, [])
      | .ready b => if b = [] then finish .eof else (.writing b, .running, [.read b])
      | .failed error => finish (.failed (.io error))
  | .writing rest =>
      if rest = [] then (if interleave then .yielding else .selecting, .running, [])
      else
        match io.write with
        | .pending => (.writing rest, .pending, [])
        | .took n =>
            if n = 0 then finish (.failed .writeZero)
            else (.writing (rest.drop n), .running, [.wrote (rest.take n)])
        | .failed error => finish (.failed (.io error))
  | .yielding => (.selecting, .pending, [])
  | .ended how => (.ended how, .ready, [])

/-! ### Both directions -/

/-- The directions a←b and b←a. -/
inductive Side where
  | ab
  | ba
  deriving DecidableEq, Repr

/-- Where the task stands: waiting to be polled, in the poll of a direction, or behind both. -/
inductive Pc where
  | idle
  | polling (side : Side)
  | checking
  | returned
  deriving DecidableEq, Repr

structure Copies (ε : Type) where
  phase : Side → Phase ε
  done : Side → Bool
  fired : Bool
  /-- The caller's token. -/
  stop : Bool
  /-- Its child, canceled by the copy itself. -/
  pairStop : Bool
  pc : Pc

def Copies.start : Copies ε :=
  { phase := fun _ => .selecting, done := fun _ => false, fired := false, stop := false,
    pairStop := false, pc := .idle }

inductive Effect (ε : Type) where
  | act (side : Side) (act : Act ε)
  | interrupt
  | returned
  deriving DecidableEq, Repr

inductive Event (ε : Type) where
  /-- The caller's token fires. -/
  | fire
  | advance (io : Io ε)

/-- Behind the direction a←b. -/
def pcBehindAb (done : Side → Bool) : Pc := if done .ba then .checking else .polling .ba

def pcBehind (done : Side → Bool) : Side → Pc
  | .ab => pcBehindAb done
  | .ba => .checking

/-- The task is polled. -/
def pcFirst (done : Side → Bool) : Pc := if done .ab then pcBehindAb done else .polling .ab

def Copies.poll (s : Copies ε) (side : Side) (io : Io ε) : Copies ε × List (Effect ε) :=
  let next := copyInner true (s.stop || s.pairStop) io (s.phase side)
  let done := Function.update s.done side (decide (next.2.1 = .ready))
  ({ s with
      phase := Function.update s.phase side next.1
      done
      pc := if next.2.1 = .running then .polling side else pcBehind done side },
    next.2.2.map (.act side))

/-- The first end of a direction is passed on, once; both ends are the end of the copy. -/
def Copies.check (s : Copies ε) : Copies ε × List (Effect ε) :=
  let first := (s.done .ab || s.done .ba) && !s.fired
  let both := s.done .ab && s.done .ba
  ({ s with
      fired := s.fired || first
      pairStop := s.pairStop || first
      pc := if both then .returned else .idle },
    (if first then [.interrupt] else []) ++ if both then [.returned] else [])

def bidirectionalCopy (s : Copies ε) : Event ε → Copies ε × List (Effect ε)
  | .fire => ({ s with stop := true }, [])
  | .advance io =>
      match s.pc with
      | .idle => ({ s with pc := pcFirst s.done }, [])
      | .polling side => s.poll side io
      | .checking => s.check
      | .returned => (s, [])

/-- Runs of the copy. The clock plays no part. -/
def machine (ε : Type) : Machine (Copies ε) (Event ε) (Effect ε) where
  init := .start
  step := bidirectionalCopy
  start _ := 0
  finish _ := 0

end Qvole.Copy
