import Qvole.Exchange.Connect
import Qvole.Lib.Run

/-!
# Hole punching

What `connect_inner` does behind the exchange, with the tasks it starts: the punch task of
`start_hole_punching`, its listener `listen_for_punch` and the helper. The tasks interleave freely;
which branch of a `select!` is taken, what the socket receives, when timers fire and what QUIC answers
are events. An event whose branch is not ready changes nothing.
-/

namespace Qvole.Exchange

def punchPayloadSizes : List Nat := [5, 50, 100, 200]

/-- In milliseconds. -/
def punchIntervals : List Nat := [50, 100, 200]

def punchIntervalChange : UInt32 := 5

/-! ### The listener -/

/-- What a `recv_from` with a deadline came to. -/
inductive Recv where
  | nothing
  | packet (n : Nat) (source : SocketAddr)
  deriving DecidableEq, Repr

/-- Before the look at the token, or in the read. -/
inductive ListenPc where
  | top
  | receiving
  deriving DecidableEq, Repr

/-- What a step of the listener comes to. -/
inductive Listened where
  | goOn (pc : ListenPc)
  | stopped
  | sent (source : SocketAddr)
  deriving DecidableEq, Repr

def listenForPunch (cancelled : Bool) (peerIp : Option IpAddr) (recv : Recv) : ListenPc → Listened
  | .top => if cancelled then .stopped else .goOn .receiving
  | .receiving =>
      match recv with
      | .nothing => .goOn .top
      | .packet n source =>
          if n = 0 then .goOn .top
          else
            match peerIp with
            | some expected => if source.ip ≠ expected then .goOn .top else .sent source
            | none => .sent source

/-! ### The tasks -/

inductive Listener where
  | running (peerIp : Option IpAddr) (pc : ListenPc)
  | returned
  deriving DecidableEq, Repr

inductive PunchTask where
  | absent
  | punching (peerAddr : SocketAddr) (attempt : UInt32) (intervalIdx : Nat)
  /-- Behind the loop, in `listener.await`. -/
  | joining (result : Option SocketAddr)
  | finished
  deriving DecidableEq, Repr

/-- Where `connect_inner` itself stands. -/
inductive ConnectPc where
  | resolving
  /-- In `await_punch`. -/
  | awaiting (peerUdpAddr : SocketAddr)
  /-- In `punch_handle.await`. -/
  | joining (peerUdpAddr : SocketAddr)
  /-- In the QUIC handshake. -/
  | handshaking (peerUdpAddr : SocketAddr)
  | returned
  deriving DecidableEq, Repr

structure Connecting where
  peerAddrStr : String
  pc : ConnectPc
  task : PunchTask
  listener : Listener
  /-- The channel from the listener, with room for one. -/
  channel : Option SocketAddr
  /-- The channel from the punch task. -/
  result : Option (Option SocketAddr)
  /-- The caller's token, and the child that stops the punching. -/
  cancel : Bool
  punchCancel : Bool
  /-- Whom the helper sends to, while it runs. -/
  helper : Option SocketAddr

def Connecting.start (peerAddrStr : String) : Connecting :=
  { peerAddrStr, pc := .resolving, task := .absent, listener := .returned, channel := none,
    result := none, cancel := false, punchCancel := false, helper := none }

inductive ConnectEffect where
  | rejected (fault : Fault ConnectError)
  /-- `start_hole_punching` is called. -/
  | punching (target : SocketAddr)
  | sendPunch (size : Nat) (target : SocketAddr)
  /-- A packet from the peer's IP was received. -/
  | observed (source : SocketAddr)
  | accept
  | dial (peer : SocketAddr)
  | keepalive (peer : SocketAddr)
  /-- The connection is there, with the peer's address. -/
  | connected (peerAddr : SocketAddr)
  | failed
  deriving DecidableEq, Repr

inductive ConnectEvent where
  | cancel
  | resolve
  /-- `await_punch`: the punch task has sent its result, or the timeout is over. -/
  | punched
  | timedOut
  /-- The punch task is over; the endpoint can be made, or not. -/
  | joined (endpoint : Bool)
  | handshake (succeeded : Bool)
  /-- The branches of the punch task, and its `listener.await`. -/
  | punchCanceled
  | punchReceived
  | punchTick
  | listenerJoined
  | listen (recv : Recv)
  | helperTick
  | helperStop
  deriving DecidableEq, Repr

/-! ### Steps -/

/-- The peer's address and the start of the punching. -/
def Connecting.resolve (s : Connecting) : Connecting × List ConnectEffect :=
  match peerUdpAddr s.peerAddrStr with
  | .ok peer =>
      ({ s with
          pc := .awaiting peer
          task := .punching peer 0 0
          listener := .running (some peer.ip) .top },
        [.punching peer])
  | .error fault => ({ s with pc := .returned }, [.rejected fault])

/-- The port correction. -/
def correctPort (peerUdpAddr : SocketAddr) : Option SocketAddr → SocketAddr
  | some observed =>
      if observed.ip = peerUdpAddr.ip && observed.port ≠ peerUdpAddr.port then observed else peerUdpAddr
  | none => peerUdpAddr

/-- One turn of `await_punch`; behind it the punching is canceled. -/
def Connecting.awaited (s : Connecting) (outcome : Option SocketAddr) : Connecting :=
  match s.pc with
  | .awaiting peer => { s with pc := .joining (correctPort peer outcome), punchCancel := true }
  | _ => s

def Connecting.joined (isServer endpoint : Bool) (s : Connecting) : Connecting × List ConnectEffect :=
  match s.pc, s.task with
  | .joining peer, .finished =>
      if endpoint then
        ({ s with pc := .handshaking peer, helper := some peer },
          [if isServer then .accept else .dial peer])
      else ({ s with pc := .returned, helper := none }, [.failed])
  | _, _ => (s, [])

def Connecting.handshake (succeeded : Bool) (s : Connecting) : Connecting × List ConnectEffect :=
  match s.pc with
  | .handshaking peer =>
      -- `helper_cancel` fires when `connect_inner` is back
      ({ s with pc := .returned, helper := none }, [if succeeded then .connected peer else .failed])
  | _ => (s, [])

def Connecting.punchReceived (s : Connecting) : Connecting :=
  match s.task with
  | .punching _ _ _ =>
      match s.channel with
      | some first => { s with task := .joining (some first), channel := none }
      | none => if s.listener = .returned then { s with task := .joining none } else s
  | _ => s

def Connecting.punchTick (s : Connecting) : Connecting × List ConnectEffect :=
  match s.task with
  | .punching peer attempt intervalIdx =>
      let next := attempt + 1
      let changes := next % punchIntervalChange = 0 ∧ intervalIdx < punchIntervals.length - 1
      ({ s with task := .punching peer next (if changes then intervalIdx + 1 else intervalIdx) },
        [.sendPunch (punchPayloadSizes.getD (attempt.toNat % punchPayloadSizes.length) 0) peer])
  | _ => (s, [])

def Connecting.listenerJoined (s : Connecting) : Connecting :=
  match s.task with
  | .joining result =>
      if s.listener = .returned then { s with task := .finished, result := some result } else s
  | _ => s

def Connecting.listen (s : Connecting) (recv : Recv) : Connecting × List ConnectEffect :=
  match s.listener with
  | .running peerIp pc =>
      match listenForPunch (s.cancel || s.punchCancel) peerIp recv pc with
      | .goOn pc => ({ s with listener := .running peerIp pc }, [])
      | .stopped => ({ s with listener := .returned }, [])
      | .sent source =>
          -- `try_send` drops the address when there is one in the channel
          ({ s with listener := .returned, channel := s.channel.or (some source) }, [.observed source])
  | .returned => (s, [])

def connectInner (isServer : Bool) (s : Connecting) : ConnectEvent → Connecting × List ConnectEffect
  | .cancel => ({ s with cancel := true }, [])
  | .resolve => if s.pc = .resolving then s.resolve else (s, [])
  | .punched =>
      match s.result with
      | some outcome => (s.awaited outcome, [])
      | none => (s, [])
  | .timedOut => (s.awaited none, [])
  | .joined endpoint => s.joined isServer endpoint
  | .handshake succeeded => s.handshake succeeded
  | .punchCanceled =>
      match s.task with
      | .punching _ _ _ =>
          if s.cancel || s.punchCancel then ({ s with task := .joining none }, []) else (s, [])
      | _ => (s, [])
  | .punchReceived => (s.punchReceived, [])
  | .punchTick => s.punchTick
  | .listenerJoined => (s.listenerJoined, [])
  | .listen recv => s.listen recv
  | .helperTick =>
      match s.helper with
      | some peer => (s, [.keepalive peer])
      | none => (s, [])
  | .helperStop => ({ s with helper := none }, [])

/-- Runs from the address text on. The clock plays no part. -/
def connectMachine (isServer : Bool) (peerAddrStr : String) :
    Machine Connecting ConnectEvent ConnectEffect where
  init := .start peerAddrStr
  step := connectInner isServer
  start _ := 0
  finish _ := 0

end Qvole.Exchange
