import Qvole.Copy.Proof.Bytes
import Qvole.Tunnel.Config
import Qvole.Tunnel.Idle

/-!
# Through the tunnel

One tunnelled connection from end to end: `handle_tunnel_tcp` writes the header on a new stream and
bridges the connection of the listener, `handle_tunnel_stream` reads the header, dials, and bridges
the connection to the target. The far end may also return before that, for a header that does not come
in time, a request it does not dial for or a dial that fails. Between the two ends is a QUIC stream,
which delivers in order what it has taken. A stream ends when the bridge that writes to it, or the
handler without one, is over and its send half is dropped. What the two TCP connections do, how much a
stream delivers at a time and when it fails are events, and the two ends interleave freely. Each end
has a clock of its own. A connection that is lost before the header was read is left out: the far end
would go on with index 0 on a stream that has failed.
-/

namespace Qvole.Tunnel

open Copy (ReadAnswer Side Effect readBy wroteBy)

variable {ε : Type}

/-! ### Streams -/

/-- One direction of a stream: what it has taken and not delivered, and whether that is all. -/
structure Flow where
  bytes : Bytes
  fin : Bool
  deriving DecidableEq, Repr

/-- A read of the stream. Of data the answer gives the number of bytes, less one. -/
def Flow.read (flow : Flow) : ReadAnswer ε → ReadAnswer ε
  | .ready b =>
      if flow.bytes = [] then if flow.fin then .ready [] else .pending
      else .ready (flow.bytes.take (b.length + 1))
  | other => other

/-! ### Ends -/

/-- The next step reads from the stream. -/
def TunnelCopy.readsStream (s : TunnelCopy ε) : Bool :=
  s.copies.pc = .polling .ab && s.reads

/-- What one end has: its bridge, the flow to it and the flow from it. -/
structure Terminal (ε : Type) where
  bridge : TunnelCopy ε
  inflow : Flow
  outflow : Flow

def Terminal.step (idle : Nat) (e : Terminal ε) (turn : Turn ε) :
    Terminal ε × List (Effect (IdleError ε)) :=
  let read := if e.bridge.readsStream then e.inflow.read turn.io.read else turn.io.read
  let next := tunnelCopy idle e.bridge { turn with io := { turn.io with read } }
  ({ bridge := next.1
     inflow := { e.inflow with bytes := e.inflow.bytes.drop (readBy .ab next.2).length }
     outflow :=
      { bytes := e.outflow.bytes ++ wroteBy .ba next.2
        fin := e.outflow.fin || next.1.copies.pc = .returned } },
    next.2)

/-! ### Both ends -/

structure Tunnelled (ε : Type) where
  near : TunnelCopy ε
  /-- Not before the header was read and the target has answered. -/
  far : Option (TunnelCopy ε)
  /-- The far end has returned without a connection. -/
  refused : Bool
  up : Flow
  down : Flow

/-- The near end has written its header. -/
def Tunnelled.start (ε : Type) (idle : Nat) (header : Bytes) : Tunnelled ε :=
  { near := .start ε idle
    far := none
    refused := false
    up := ⟨header, false⟩
    down := ⟨[], false⟩ }

inductive TunnelledEvent (ε : Type) where
  | near (turn : Turn ε)
  | far (turn : Turn ε)
  /-- The far end reads the header and gets a connection. -/
  | connect
  /-- The far end returns: no header in time, a request that is refused, or no connection. -/
  | refuse

inductive TunnelledEffect (ε : Type) where
  | near (effect : Effect (IdleError ε))
  | far (effect : Effect (IdleError ε))
  | connected (idx : Nat)
  | refused
  deriving DecidableEq, Repr

/-- The two ends have idle times of their own. -/
def tunnelled (idleNear idleFar : Nat) (s : Tunnelled ε) :
    TunnelledEvent ε → Tunnelled ε × List (TunnelledEffect ε)
  | .near turn =>
      let next := Terminal.step idleNear ⟨s.near, s.down, s.up⟩ turn
      ({ s with near := next.1.bridge, down := next.1.inflow, up := next.1.outflow },
        next.2.map .near)
  | .far turn =>
      match s.far with
      | none => (s, [])
      | some far =>
          let next := Terminal.step idleFar ⟨far, s.up, s.down⟩ turn
          ({ s with far := some next.1.bridge, up := next.1.inflow, down := next.1.outflow },
            next.2.map .far)
  | .connect =>
      if s.far.isNone ∧ s.refused = false ∧ 2 ≤ s.up.bytes.length then
        ({ s with far := some (.start ε idleFar), up := { s.up with bytes := s.up.bytes.drop 2 } },
          [.connected (Bytes.beNat (s.up.bytes.take 2))])
      else (s, [])
  | .refuse =>
      if s.far.isNone ∧ s.refused = false then
        ({ s with refused := true, down := { s.down with fin := true } }, [.refused])
      else (s, [])

/-- Runs of one tunnelled connection behind its header. -/
def tunnelledMachine (ε : Type) (idleNear idleFar : Nat) (header : Bytes) :
    Machine (Tunnelled ε) (TunnelledEvent ε) (TunnelledEffect ε) where
  init := .start ε idleNear header
  step := tunnelled idleNear idleFar
  start _ := 0
  finish _ := 0

end Qvole.Tunnel
