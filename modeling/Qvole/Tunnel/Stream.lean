import Qvole.Tunnel.Allow

/-!
# Inbound tunnel streams

Port of `handle_tunnel_stream_with_timeout`: a data stream of the peer names a tunnel request by a
two-byte index, and this side dials the target of the request if it is one that it dials for. What
is kept of a run is the addresses dialled, in order, and whether a connection was bridged.
-/

namespace Qvole.Tunnel

inductive TunnelType where
  | L
  | R
  deriving DecidableEq, Repr

structure TunnelRequest where
  typ : TunnelType
  listenAddr : Bytes
  targetAddr : Bytes
  deriving DecidableEq, Repr

/-- What happens to a stream after its last byte. -/
inductive Ending where
  /-- The peer finished it. -/
  | fin
  /-- The peer reset it, or the connection was lost. -/
  | reset
  /-- Nothing, for as long as the reader waits. -/
  | silent
  deriving DecidableEq, Repr

/-- An inbound stream, by the bytes its reader gets and how it goes on after them. -/
structure Inbound where
  delivered : Bytes
  ending : Ending
  deriving DecidableEq, Repr

/-- `timeout(.., recv.read_exact(..))`: the outer error is the timeout, the inner one an early
end. -/
inductive ReadResult where
  | timedOut
  | failed
  | filled
  deriving DecidableEq, Repr

/-- `read_exact` of quinn's `RecvStream` into a buffer of zeros. As documented there, it takes the bytes
in the order of the stream and fails where the stream is finished or reset before the buffer is full;
bytes that came before stay in it. -/
def Inbound.readExact (stream : Inbound) (size : Nat) : Bytes × ReadResult :=
  if stream.delivered.length ≥ size then (stream.delivered.take size, .filled)
  else
    (stream.delivered ++ List.replicate (size - stream.delivered.length) 0,
      match stream.ending with
      | .silent => .timedOut
      | _ => .failed)

def ReadResult.isErr : ReadResult → Bool
  | .timedOut => true
  | .failed => false
  | .filled => false

/-- Dials one address after another until one connects. `connects` tells the outcome of each
attempt. -/
def dialFirst (connects : Nat → Bool) : List Bytes → Nat → List Bytes × Bool
  | [], _ => ([], false)
  | addr :: rest, attempt =>
      if connects attempt then ([addr], true)
      else
        let others := dialFirst connects rest (attempt + 1)
        (addr :: others.1, others.2)

/-- The addresses to try for a request: its target for my own, the allowed addresses of its target
for the peer's. -/
def dialTargets (dns : Dns) (allow : TunnelAllow) (myReq : Bool) (req : TunnelRequest) :
    List Bytes :=
  if myReq then [req.targetAddr]
  else
    let (ips, portStr, ok) := allow.forwardIps dns req.targetAddr
    if !ok then []
    else
      match parseU16 portStr with
      | some port => ips.map fun ip => (SocketAddr.new ip port).toText
      | none => []

def isMine (myReqStart myReqCount idx : Nat) : Bool :=
  idx ≥ myReqStart && idx < myReqStart + myReqCount

/-- The dials and whether one connected. -/
def handleTunnelStream (stream : Inbound) (reqs : List TunnelRequest) (myReqStart myReqCount : Nat)
    (allow : TunnelAllow) (dns : Dns) (connects : Nat → Bool) : List Bytes × Bool :=
  let (header, readRes) := stream.readExact 2
  -- both tests of the source look at the outer result
  if readRes.isErr || readRes.isErr then ([], false)
  else
    let idx := Bytes.beNat header
    match reqs[idx]? with
    | none => ([], false)
    | some req =>
        let myReq := isMine myReqStart myReqCount idx
        if req.typ = .L ∧ myReq then ([], false)
        else if req.typ = .R ∧ !myReq then ([], false)
        else dialFirst connects (dialTargets dns allow myReq req) 0

end Qvole.Tunnel
