import Qvole.Copy.Bidirectional

/-!
# The idle reaper

Port of `IdleReader` and of `tunnel_copy`, which bridges a tunnelled TCP connection and its QUIC
stream. With an idle time, both reading sides share one deadline: it is looked at before every poll of
a source, and put off by every read that brings data. The end `a` is the TCP connection, the end `b`
the stream. Instants are counted from the start of the copy.
-/

namespace Qvole.Tunnel

open Copy (Io ReadAnswer WriteAnswer Copies Effect Side Phase bidirectionalCopy)

variable {ε : Type}

/-- What a read or a write of the bridge fails with. -/
inductive IdleError (ε : Type) where
  | timedOut
  | io (error : ε)
  deriving DecidableEq, Repr

/-! ### The shared deadline -/

/-- A `tokio::time::sleep`. Once it was seen to be over it stays so. -/
structure Sleep where
  deadline : Nat
  elapsed : Bool
  deriving DecidableEq, Repr

def Sleep.new (now duration : Nat) : Sleep := { deadline := now + duration, elapsed := false }

/-- A poll of the sleep. The runtime notices a deadline some time behind it, if `timer`. -/
def Sleep.poll (sleep : Sleep) (now : Nat) (timer : Bool) : Bool :=
  sleep.elapsed || (timer && sleep.deadline ≤ now)

/-- `poll_read`, with the answer of the reader inside if that is polled. -/
def IdleReader.pollRead (idle : Nat) (sleep : Sleep) (now : Nat) (timer : Bool)
    (inner : ReadAnswer ε) : Sleep × ReadAnswer (IdleError ε) :=
  if sleep.poll now timer then ({ sleep with elapsed := true }, .failed .timedOut)
  else
    match inner with
    | .pending => (sleep, .pending)
    -- the end of input does not put the deadline off
    | .ready b => (if b = [] then sleep else .new now idle, .ready b)
    | .failed error => (sleep, .failed (.io error))

/-! ### The bridge -/

structure TunnelCopy (ε : Type) where
  copies : Copies (IdleError ε)
  /-- None without an idle time. -/
  sleep : Option Sleep

def TunnelCopy.start (ε : Type) (idle : Nat) : TunnelCopy ε :=
  { copies := .start, sleep := if idle = 0 then none else some (.new 0 idle) }

/-- The next step polls the source of a direction. -/
def TunnelCopy.reads (s : TunnelCopy ε) : Bool :=
  match s.copies.pc with
  | .polling side =>
      match s.copies.phase side with
      | .reading => true
      | _ => false
  | _ => false

/-- One step of the task. -/
structure Turn (ε : Type) where
  now : Nat
  timer : Bool
  io : Io ε

def plainRead : ReadAnswer ε → ReadAnswer (IdleError ε)
  | .pending => .pending
  | .ready b => .ready b
  | .failed error => .failed (.io error)

def plainWrite : WriteAnswer ε → WriteAnswer (IdleError ε)
  | .pending => .pending
  | .took n => .took n
  | .failed error => .failed (.io error)

/-- The deadline and the answer to a poll of a source, if the step makes one. -/
def TunnelCopy.answer (idle : Nat) (s : TunnelCopy ε) (turn : Turn ε) :
    Option Sleep × ReadAnswer (IdleError ε) :=
  match s.sleep with
  | none => (none, plainRead turn.io.read)
  | some sleep =>
      if s.reads then
        let polled := IdleReader.pollRead idle sleep turn.now turn.timer turn.io.read
        (some polled.1, polled.2)
      else (some sleep, plainRead turn.io.read)

def tunnelCopy (idle : Nat) (s : TunnelCopy ε) (turn : Turn ε) :
    TunnelCopy ε × List (Effect (IdleError ε)) :=
  let polled := s.answer idle turn
  let next := bidirectionalCopy s.copies (.advance ⟨polled.2, plainWrite turn.io.write⟩)
  ({ copies := next.1, sleep := polled.1 }, next.2)

/-- Runs of a bridge with the idle time `idle`, or without one if that is zero. -/
def idleMachine (ε : Type) (idle : Nat) :
    Machine (TunnelCopy ε) (Turn ε) (Effect (IdleError ε)) where
  init := .start ε idle
  step := tunnelCopy idle
  start turn := turn.now
  finish turn := turn.now

end Qvole.Tunnel
