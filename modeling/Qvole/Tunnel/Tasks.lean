import Qvole.Config.Env
import Qvole.Lib.Permits
import Qvole.Lib.Run
import Qvole.Tunnel.Config

/-!
# The tasks of tunnel sessions

Port of the tail of `run_tunnel_with_config` with the tasks it spawns: the acceptor of streams and
the handlers of its streams, the listener task, the accept loops of its listeners and the handlers of
their connections. A process may run any number of sessions, which share the guard of outbound
streams. Every task is cut where it awaits, and the tasks interleave freely; what QUIC, TCP and the
name lookup answer comes with the events. Copies are single steps here, and log lines are left out.

Of tokio's `Semaphore` this is taken, as its documentation has it: `acquire_owned` gets a permit when one
is free and waits for one else, `try_acquire_owned` fails where that would wait, and a permit that is
dropped is free again. In which order those that wait are served is left open.
-/

namespace Qvole.Tunnel

/-! ### Errors -/

/-- The constructors of quinn's `ConnectionError`. -/
inductive ConnectionErrorKind where
  | versionMismatch
  | transportError
  | connectionClosed
  | applicationClosed
  | reset
  | timedOut
  | locallyClosed
  | cidsExhausted
  deriving DecidableEq, Repr

structure ConnectionError where
  kind : ConnectionErrorKind
  text : Bytes
  deriving DecidableEq, Repr

def isPeerDisconnect (err : ConnectionError) : Bool :=
  match err.kind with
  | .applicationClosed => true
  | .connectionClosed => true
  | .transportError => true
  | .reset => true
  | .timedOut => true
  | _ => false

/-- The errors of a session that is connected. -/
inductive TunnelError where
  | canceled
  | other (text : Bytes)
  deriving DecidableEq, Repr

def TunnelError.isCanceled : TunnelError → Bool
  | .canceled => true
  | .other _ => false

abbrev TunnelResult := Except TunnelError Unit

/-- The match on what the acceptor and the listener task returned. -/
def joined : TunnelResult → TunnelResult → TunnelResult
  | .ok (), .ok () => .ok ()
  | .ok (), .error e => .error e
  | .error e, .ok () => .error e
  | .error e, .error e' =>
      if !e.isCanceled then .error e else if !e'.isCanceled then .error e' else .error e

/-! ### State -/

/-- What a session is started with: what the exchange of configurations gave, and the limit the
caller asked for. -/
structure Setup where
  session : Session
  forwardMaxStreams : Int

inductive Acceptor where
  /-- In `accept_bi`. -/
  | accepting
  /-- In `acquire_owned`, with the stream that was accepted. -/
  | acquiring (stream : Inbound)
  | returned (outcome : TunnelResult)

inductive ListenerTask where
  /-- At the request with this index. -/
  | binding (i : Nat)
  /-- All requests are done with. -/
  | selecting
  | returned (outcome : TunnelResult)

structure Running where
  setup : Setup
  /-- The acceptor's semaphore. -/
  guard : Semaphore
  /-- The caller's token, its child for the session, and the child of that for the listeners, each
  with what was canceled through itself. -/
  cancel : Bool
  session : Bool
  listening : Bool
  acceptor : Acceptor
  listener : ListenerTask
  /-- The channel of the listener task. -/
  errors : List Bytes
  announced : List Nat
  outcome : Option TunnelResult

def Running.cancelled (r : Running) : Bool := r.cancel || r.session

def Running.listenersCancelled (r : Running) : Bool := r.cancelled || r.listening

/-- An accept loop. -/
inductive LoopPhase where
  | accepting
  /-- It has canceled the listeners and not yet sent its error. -/
  | failing (text : Bytes)
  | ended
  deriving DecidableEq, Repr

structure AcceptLoop where
  owner : Nat
  idx : Nat
  req : TunnelRequest
  phase : LoopPhase
  deriving DecidableEq, Repr

/-- `handle_tunnel_stream`. The permit is held to the end. -/
inductive StreamPhase where
  | reading
  /-- In `dial_tcp`, with the addresses behind this one. -/
  | dialing (idx : Nat) (addr : Bytes) (rest : List Bytes)
  | copying (idx : Nat)
  | ended
  deriving DecidableEq, Repr

structure StreamTask where
  owner : Nat
  stream : Inbound
  phase : StreamPhase
  deriving DecidableEq, Repr

/-- `handle_tunnel_tcp`, with the name of the semaphore its permit came from. -/
inductive TcpPhase where
  | spawned
  | opening (permit : Nat)
  | writing (permit : Nat)
  | copying (permit : Nat)
  | ended
  deriving DecidableEq, Repr

structure TcpTask where
  owner : Nat
  idx : Nat
  phase : TcpPhase
  deriving DecidableEq, Repr

structure Process where
  /-- The semaphores of outbound streams that were made. -/
  semaphores : List Semaphore
  /-- `OUTBOUND_GUARD`: the size and the name of the semaphore in use, and whether a panic came while
  it was locked. -/
  outboundGuard : Option (Nat × Nat)
  poisoned : Bool
  sessions : List Running
  loops : List AcceptLoop
  streams : List StreamTask
  tcps : List TcpTask

def Process.empty : Process where
  semaphores := []
  outboundGuard := none
  poisoned := false
  sessions := []
  loops := []
  streams := []
  tcps := []

inductive Event where
  | start (setup : Setup)
  | cancel (i : Nat)
  | accepted (i : Nat) (stream : Inbound)
  | connectionLost (i : Nat) (err : ConnectionError)
  | acquired (i : Nat)
  | acceptorStops (i : Nat)
  /-- The next request of the listener task; `failure` is the text of the error of a bind. -/
  | bind (i : Nat) (failure : Option Bytes)
  | errorReceived (i : Nat)
  | listenersStop (i : Nat)
  | joined (i : Nat)
  | tcpAccepted (l : Nat)
  | acceptFailed (l : Nat) (text : Bytes)
  | errorSent (l : Nat)
  | loopStops (l : Nat)
  /-- The first poll of a handler. -/
  | tcpPolled (t : Nat)
  /-- `open_bi` gave a stream, or it failed or was canceled. -/
  | streamOpened (t : Nat) (ok : Bool)
  | headerWritten (t : Nat) (ok : Bool)
  | tcpCopied (t : Nat)
  | headerRead (s : Nat) (dns : Dns)
  | dialed (s : Nat) (connected : Bool)
  | streamCopied (s : Nat)

inductive Note where
  /-- The call ends before it spawns its tasks. -/
  | refused (e : TunnelError)
  | panicked
  | canceled (i : Nat)
  /-- A stream was accepted, and handed to a handler. -/
  | accepted (i : Nat) (stream : Inbound)
  | handled (i : Nat) (s : Nat)
  | connectionLost (i : Nat) (err : ConnectionError)
  | bindFailed (i : Nat) (text : Bytes)
  | acceptFailed (i : Nat) (text : Bytes)
  /-- A stream was opened, with the header written to it. -/
  | opened (i : Nat) (header : Bytes)
  | dialed (s : Nat) (idx : Nat) (addr : Bytes) (connected : Bool)
  | announced (i : Nat) (idx : Nat)
  /-- `run_tunnel_with_config` returns, which closes the connection. -/
  | returned (i : Nat) (outcome : TunnelResult)

/-! ### Guards -/

def defaultForwardMaxStreams : Int := 200

def getForwardMaxStreams (env : Env) (overrideVal : Option Nat) : Int :=
  match overrideVal with
  | some v =>
      if v > 0 then v else envInt env "QVOLE_FORWARD_MAX_STREAMS" defaultForwardMaxStreams
  | none => envInt env "QVOLE_FORWARD_MAX_STREAMS" defaultForwardMaxStreams

def Setup.limit (setup : Setup) (env : Env) : Int :=
  if setup.forwardMaxStreams > 0 then setup.forwardMaxStreams else getForwardMaxStreams env none

/-- tokio's `Semaphore::MAX_PERMITS`, beyond which `Semaphore::new` panics. -/
def maxPermits : Nat := 2305843009213693951

namespace Process

/-- `Semaphore::new` with the guard locked, if it does not panic. -/
def newGuard (p : Process) (n : Nat) : Process × Option Nat :=
  if n > maxPermits then ({ p with poisoned := true }, none)
  else
    ({ p with
        semaphores := p.semaphores ++ [.new n]
        outboundGuard := some (n, p.semaphores.length) },
      some p.semaphores.length)

/-- `init_outbound_guard`. The name of the semaphore is there unless the call panics. -/
def initOutboundGuard (p : Process) (n : Int) : Process × Option Nat :=
  if p.poisoned then (p, none)
  else
    match p.outboundGuard with
    | some (size, handle) =>
        if size = (max n 0).toNat then (p, some handle) else p.newGuard (max n 0).toNat
    | none => p.newGuard (max n 0).toNat

def getOutboundGuard (p : Process) (env : Env) : Process × Option Nat :=
  if p.poisoned then (p, none)
  else
    match p.outboundGuard with
    | some (_, handle) => (p, some handle)
    | none => p.newGuard (max (getForwardMaxStreams env none) 0).toNat

/-! ### Sessions -/

end Process

/-- The state of a session when its tasks are spawned. -/
def Running.start (setup : Setup) (env : Env) : Running where
  setup
  guard := .new (max (setup.limit env) 0).toNat
  cancel := false
  session := false
  listening := false
  acceptor := .accepting
  listener := .binding 0
  errors := []
  announced := []
  outcome := none

/-- `run_stream_acceptor` returns, and its task cancels the session. -/
def Running.acceptorReturns (r : Running) (outcome : TunnelResult) : Running :=
  { r with acceptor := .returned outcome, session := true }

def Running.listenerReturns (r : Running) (outcome : TunnelResult) : Running :=
  { r with listener := .returned outcome, session := true }

namespace Process

/-- The session begins, unless the call ends before. -/
def start (p : Process) (env : Env) (setup : Setup) : Process × List Note :=
  if setup.session.config.reqs = [] then
    (p, [.refused (.other (ascii "no tunnel requests exchanged"))])
  else
    match p.initOutboundGuard (setup.limit env) with
    | (p, none) => (p, [.panicked])
    | (p, some _) =>
        ({ p with sessions := p.sessions ++ [.start setup env] }, [])

def setSession (p : Process) (i : Nat) (r : Running) : Process :=
  { p with sessions := p.sessions.set i r }

def onSession (p : Process) (i : Nat) (f : Running → Process × List Note) : Process × List Note :=
  match p.sessions[i]? with
  | some r => f r
  | none => (p, [])

def accepted (p : Process) (i : Nat) (stream : Inbound) : Process × List Note :=
  p.onSession i fun r =>
    match r.acceptor with
    | .accepting =>
        (p.setSession i { r with acceptor := .acquiring stream }, [.accepted i stream])
    | _ => (p, [])

def connectionLost (p : Process) (i : Nat) (err : ConnectionError) : Process × List Note :=
  p.onSession i fun r =>
    match r.acceptor with
    | .accepting =>
        (p.setSession i (r.acceptorReturns
            (if isPeerDisconnect err then .ok () else .error (.other err.text))),
          [.connectionLost i err])
    | _ => (p, [])

/-- There is a permit, and the stream gets its handler. -/
def acquired (p : Process) (i : Nat) : Process × List Note :=
  p.onSession i fun r =>
    match r.acceptor, r.guard.tryAcquire with
    | .acquiring stream, some guard =>
        ({ p.setSession i { r with acceptor := .accepting, guard } with
            streams := p.streams ++ [{ owner := i, stream, phase := .reading }] },
          [.handled i p.streams.length])
    | _, _ => (p, [])

/-- The branch of either `select!` for the token of the session. -/
def acceptorStops (p : Process) (i : Nat) : Process × List Note :=
  p.onSession i fun r =>
    match r.acceptor, r.cancelled with
    | .returned _, _ => (p, [])
    | _, true => (p.setSession i (r.acceptorReturns (.error .canceled)), [])
    | _, false => (p, [])

/-- One round of the loop over the requests. -/
def bind (p : Process) (i : Nat) (failure : Option Bytes) : Process × List Note :=
  p.onSession i fun r =>
    match r.listener with
    | .binding idx =>
        match r.setup.session.config.reqs[idx]? with
        | none => (p.setSession i { r with listener := .selecting }, [])
        | some req =>
            if !listensFor (r.setup.session.mine idx) r.setup.session.config.peerAccept
                r.setup.session.allow req then
              (p.setSession i { r with listener := .binding (idx + 1) }, [])
            else
              match failure with
              | some text =>
                  let text := ascii "listen on " ++ req.listenAddr ++ ascii ": " ++ text
                  (p.setSession i (r.listenerReturns (.error (.other text))),
                    [.bindFailed i text])
              | none =>
                  ({ p.setSession i { r with listener := .binding (idx + 1) } with
                      loops := p.loops ++ [{ owner := i, idx, req, phase := .accepting }] }, [])
    | _ => (p, [])

def errorReceived (p : Process) (i : Nat) : Process × List Note :=
  p.onSession i fun r =>
    match r.listener, r.errors with
    | .selecting, text :: rest =>
        (p.setSession i ({ r with errors := rest }.listenerReturns (.error (.other text))), [])
    | _, _ => (p, [])

def listenersStop (p : Process) (i : Nat) : Process × List Note :=
  p.onSession i fun r =>
    match r.listener, r.listenersCancelled with
    | .selecting, true => (p.setSession i (r.listenerReturns (.error .canceled)), [])
    | _, _ => (p, [])

/-- `tokio::join!` has both outcomes. -/
def join (p : Process) (i : Nat) : Process × List Note :=
  p.onSession i fun r =>
    match r.acceptor, r.listener, r.outcome with
    | .returned a, .returned l, none =>
        (p.setSession i { r with outcome := some (joined a l) }, [.returned i (joined a l)])
    | _, _, _ => (p, [])

/-! ### Accept loops -/

def onLoop (p : Process) (l : Nat) (f : AcceptLoop → Running → Process × List Note) :
    Process × List Note :=
  match p.loops[l]? with
  | some loop => p.onSession loop.owner (f loop)
  | none => (p, [])

def setLoop (p : Process) (l : Nat) (loop : AcceptLoop) (phase : LoopPhase) : Process :=
  { p with loops := p.loops.set l { loop with phase } }

def tcpAccepted (p : Process) (l : Nat) : Process × List Note :=
  p.onLoop l fun loop _ =>
    match loop.phase with
    | .accepting =>
        ({ p with tcps := p.tcps ++ [{ owner := loop.owner, idx := loop.idx, phase := .spawned }] },
          [])
    | _ => (p, [])

def acceptFailed (p : Process) (l : Nat) (text : Bytes) : Process × List Note :=
  p.onLoop l fun loop r =>
    match loop.phase with
    | .accepting =>
        if r.listenersCancelled then (p.setLoop l loop .ended, [])
        else
          let text := ascii "accept on " ++ loop.req.listenAddr ++ ascii ": " ++ text
          ((p.setSession loop.owner { r with listening := true }).setLoop l loop (.failing text),
            [.acceptFailed loop.owner text])
    | _ => (p, [])

/-- `err_tx.send`, which has no effect once the listener task has returned. -/
def errorSent (p : Process) (l : Nat) : Process × List Note :=
  p.onLoop l fun loop r =>
    match loop.phase with
    | .failing text =>
        ((p.setSession loop.owner { r with errors := r.errors ++ [text] }).setLoop l loop .ended, [])
    | _ => (p, [])

def loopStops (p : Process) (l : Nat) : Process × List Note :=
  p.onLoop l fun loop r =>
    match loop.phase, r.listenersCancelled with
    | .accepting, true => (p.setLoop l loop .ended, [])
    | _, _ => (p, [])

/-! ### Handlers of connections -/

def setTcp (p : Process) (t : Nat) (task : TcpTask) (phase : TcpPhase) : Process :=
  { p with tcps := p.tcps.set t { task with phase } }

def setSemaphore (p : Process) (handle : Nat) (sem : Semaphore) : Process :=
  { p with semaphores := p.semaphores.set handle sem }

/-- The handler ends, and its permit goes back to where it came from. -/
def endTcp (p : Process) (t : Nat) (task : TcpTask) (permit : Nat) : Process :=
  match p.semaphores[permit]? with
  | some sem => (p.setSemaphore permit sem.release).setTcp t task .ended
  | none => p.setTcp t task .ended

def tcpPolled (p : Process) (env : Env) (t : Nat) : Process × List Note :=
  match p.tcps[t]? with
  | some task =>
      match task.phase with
      | .spawned =>
          if task.idx > 65535 then (p.setTcp t task .ended, [])
          else
            match p.getOutboundGuard env with
            | (p, none) => (p.setTcp t task .ended, [.panicked])
            | (p, some permit) =>
                match p.semaphores[permit]? with
                | some sem =>
                    match sem.tryAcquire with
                    | some sem =>
                        ((p.setSemaphore permit sem).setTcp t task (.opening permit), [])
                    | none => (p.setTcp t task .ended, [])
                | none => (p.setTcp t task .ended, [])
      | _ => (p, [])
  | none => (p, [])

def streamOpened (p : Process) (t : Nat) (ok : Bool) : Process × List Note :=
  match p.tcps[t]? with
  | some task =>
      match task.phase with
      | .opening permit =>
          if ok then (p.setTcp t task (.writing permit), []) else (p.endTcp t task permit, [])
      | _ => (p, [])
  | none => (p, [])

def headerWritten (p : Process) (t : Nat) (ok : Bool) : Process × List Note :=
  match p.tcps[t]? with
  | some task =>
      match task.phase with
      | .writing permit =>
          if ok then
            (p.setTcp t task (.copying permit), [.opened task.owner (Bytes.be16 task.idx)])
          else (p.endTcp t task permit, [])
      | _ => (p, [])
  | none => (p, [])

def tcpCopied (p : Process) (t : Nat) : Process × List Note :=
  match p.tcps[t]? with
  | some task =>
      match task.phase with
      | .copying permit => (p.endTcp t task permit, [])
      | _ => (p, [])
  | none => (p, [])

/-! ### Handlers of streams -/

def onStream (p : Process) (s : Nat) (f : StreamTask → Running → Process × List Note) :
    Process × List Note :=
  match p.streams[s]? with
  | some task => p.onSession task.owner (f task)
  | none => (p, [])

/-- The handler goes on to `phase`. At its end it drops its permit. -/
def setStream (p : Process) (s : Nat) (task : StreamTask) (r : Running) (phase : StreamPhase) :
    Process :=
  let p := { p with streams := p.streams.set s { task with phase } }
  if phase = .ended then p.setSession task.owner { r with guard := r.guard.release }
  else p.setSession task.owner r

/-- To the next address, if there is one. -/
def nextDial (idx : Nat) : List Bytes → StreamPhase
  | [] => .ended
  | addr :: rest => .dialing idx addr rest

/-- The handler with its header read, before the first dial. -/
def behindHeader (session : Session) (stream : Inbound) (dns : Dns) : StreamPhase :=
  let (header, readRes) := stream.readExact 2
  if readRes.isErr || readRes.isErr then .ended
  else
    let idx := Bytes.beNat header
    match session.config.reqs[idx]? with
    | none => .ended
    | some req =>
        let myReq := session.mine idx
        if req.typ = .L ∧ myReq then .ended
        else if req.typ = .R ∧ !myReq then .ended
        else nextDial idx (dialTargets dns session.allow myReq req)

def headerRead (p : Process) (s : Nat) (dns : Dns) : Process × List Note :=
  p.onStream s fun task r =>
    match task.phase with
    | .reading =>
        (p.setStream s task r (behindHeader r.setup.session task.stream dns), [])
    | _ => (p, [])

/-- `announce_tunnel_once`. -/
def announceTunnelOnce (i : Nat) (r : Running) (idx : Nat) : Running × List Note :=
  if idx ∈ r.announced then (r, [])
  else ({ r with announced := idx :: r.announced }, [.announced i idx])

def dialed (p : Process) (s : Nat) (connected : Bool) : Process × List Note :=
  p.onStream s fun task r =>
    match task.phase with
    | .dialing idx addr rest =>
        if connected then
          let (r, notes) := announceTunnelOnce task.owner r idx
          (p.setStream s task r (.copying idx), .dialed s idx addr true :: notes)
        else (p.setStream s task r (nextDial idx rest), [.dialed s idx addr false])
    | _ => (p, [])

def streamCopied (p : Process) (s : Nat) : Process × List Note :=
  p.onStream s fun task r =>
    match task.phase with
    | .copying _ => (p.setStream s task r .ended, [])
    | _ => (p, [])

/-! ### Steps -/

def step (env : Env) (p : Process) : Event → Process × List Note
  | .start setup => p.start env setup
  | .cancel i => p.onSession i fun r => (p.setSession i { r with cancel := true }, [.canceled i])
  | .accepted i stream => p.accepted i stream
  | .connectionLost i err => p.connectionLost i err
  | .acquired i => p.acquired i
  | .acceptorStops i => p.acceptorStops i
  | .bind i failure => p.bind i failure
  | .errorReceived i => p.errorReceived i
  | .listenersStop i => p.listenersStop i
  | .joined i => p.join i
  | .tcpAccepted l => p.tcpAccepted l
  | .acceptFailed l text => p.acceptFailed l text
  | .errorSent l => p.errorSent l
  | .loopStops l => p.loopStops l
  | .tcpPolled t => p.tcpPolled env t
  | .streamOpened t ok => p.streamOpened t ok
  | .headerWritten t ok => p.headerWritten t ok
  | .tcpCopied t => p.tcpCopied t
  | .headerRead s dns => p.headerRead s dns
  | .dialed s connected => p.dialed s connected
  | .streamCopied s => p.streamCopied s

end Process

def tunnelMachine (env : Env) : Machine Process Event Note where
  init := .empty
  step := Process.step env
  start := fun _ => 0
  finish := fun _ => 0

end Qvole.Tunnel
