import Qvole.Tunnel.Request

/-!
# Agreeing on the tunnels

Port of `exchange_tunnel_config`, of the rule by which `run_tcp_listeners` picks the requests to
listen for, and of the header that `handle_tunnel_tcp` writes. Each side writes its requests on the
control stream, reads the other's, and puts the client's before the server's. From then on a request
is known by its index. The texts of the errors are left to their constructors, and the log lines
out.
-/

namespace Qvole.Tunnel

open Outcome (fail expect mapErr)

/-! ### The accept line -/

inductive AcceptError where
  | unexpectedEof
  | tokenTooLong
  | readFailed
  | unexpectedLine (text : Bytes)
  deriving DecidableEq, Repr

/-- Reads on behind the bytes `line`, one byte at a time. -/
def readAcceptFrom (ending : Ending) : Nat → Bytes → Source → Outcome AcceptError (Bytes × Source)
  | 0, _, _ => .error .unfinished
  | fuel + 1, line, source =>
      match source.read 1 with
      | none =>
          match ending with
          | .fin => fail .unexpectedEof
          | .reset => fail .readFailed
          | .silent => .error .unfinished
      | some (byte, source) => do
          let b ← expect byte[0]?
          if b = 10 then return (line, source)
          else if line.length ≥ scannerMaxTokenSize then fail .tokenTooLong
          else readAcceptFrom ending fuel (line ++ [b]) source

def readAcceptLine (ending : Ending) (source : Source) : Outcome AcceptError (Bool × Source) := do
  let (line, source) ← readAcceptFrom ending (source.bytes.length + 1) [] source
  let text := stripEol line
  if text = ascii "ACCEPT true" then return (true, source)
  else if text = ascii "ACCEPT false" then return (false, source)
  else fail (.unexpectedLine text)

/-! ### The exchange -/

/-- How `accept_bi` or `open_bi` ends. -/
inductive Opening where
  | opened
  | timedOut
  | canceled
  | failed
  deriving DecidableEq, Repr

/-- How one `write_all` ends, and how much of it the stream took. -/
inductive WriteResult where
  | done
  | failed (taken : Nat)
  /-- The deadline passed. -/
  | stalled (taken : Nat)
  deriving DecidableEq, Repr

/-- What the control stream does in one exchange: `writes k` is about the `k`-th write. -/
structure ControlStream where
  opening : Opening
  writes : Nat → WriteResult
  source : Source
  ending : Ending

/-- What is being written. -/
inductive ConfigLine where
  | accept
  | request (i : Nat)
  | finish
  deriving DecidableEq, Repr

inductive ConfigError where
  | tooManyRequests (count : Nat)
  | controlStream (why : Opening)
  | write (line : ConfigLine)
  | writeDeadline
  | accept (error : AcceptError)
  | requests (error : TunnelRequestError)
  | readDeadline
  deriving DecidableEq, Repr

/-- What both sides know after the exchange. -/
structure TunnelConfig where
  peerAccept : Bool
  reqs : List TunnelRequest
  myReqStart : Nat
  deriving DecidableEq, Repr

def TunnelType.text : TunnelType → Bytes
  | .L => ascii "L"
  | .R => ascii "R"

/-- The line of a request, without its LF. -/
def TunnelRequest.line (req : TunnelRequest) : Bytes :=
  req.typ.text ++ 32 :: (req.listenAddr ++ 32 :: req.targetAddr)

def acceptLine (accepts : Bool) : Bytes := ascii (if accepts then "ACCEPT true" else "ACCEPT false")

def configLines (myReqs : List TunnelRequest) (allow : TunnelAllow) : List (ConfigLine × Bytes) :=
  (.accept, acceptLine allow.accepts ++ [10]) ::
    (myReqs.mapIdx (fun i req => (.request i, req.line ++ [10])) ++ [(.finish, ascii "END" ++ [10])])

/-- What the peer can read of the lines, and how the write phase ends. -/
def writeLines (writes : Nat → WriteResult) :
    Nat → List (ConfigLine × Bytes) → Bytes × Outcome ConfigError Unit
  | _, [] => ([], .ok ())
  | k, (what, line) :: rest =>
      match writes k with
      | .done =>
          let others := writeLines writes (k + 1) rest
          (line ++ others.1, others.2)
      | .failed taken => (line.take taken, fail (.write what))
      | .stalled taken => (line.take taken, fail .writeDeadline)

def readConfig (ending : Ending) (source : Source) :
    Outcome ConfigError (Bool × List TunnelRequest) := do
  let (peerAccept, source) ← mapErr .accept (readAcceptLine ending source)
  let peerReqs ← mapErr .requests (readRequestsFromStream ending source)
  return (peerAccept, peerReqs)

/-- `timeout(STREAM_CONFIG_TIMEOUT, ..)`. -/
def withDeadline {α : Type} (error : ConfigError) : Outcome ConfigError α → Outcome ConfigError α
  | .error .unfinished => fail error
  | other => other

/-- The client's requests come first. -/
def combine (isServer : Bool) (myReqs peerReqs : List TunnelRequest) (peerAccept : Bool) :
    TunnelConfig :=
  if isServer then { peerAccept, reqs := peerReqs ++ myReqs, myReqStart := peerReqs.length }
  else { peerAccept, reqs := myReqs ++ peerReqs, myReqStart := 0 }

/-- What is written to the peer, and what is returned. -/
def exchangeTunnelConfig (stream : ControlStream) (myReqs : List TunnelRequest)
    (allow : TunnelAllow) (isServer : Bool) : Bytes × Outcome ConfigError TunnelConfig :=
  if myReqs.length > maxTunnelRequests then ([], fail (.tooManyRequests myReqs.length))
  else
    match stream.opening with
    | .opened =>
        let (sent, written) := writeLines stream.writes 0 (configLines myReqs allow)
        (sent, do
          written
          let (peerAccept, peerReqs) ←
            withDeadline .readDeadline (readConfig stream.ending stream.source)
          return combine isServer myReqs peerReqs peerAccept)
    -- only the server bounds the time it waits for the stream
    | .timedOut => ([], if isServer then fail (.controlStream .timedOut) else .error .unfinished)
    | why => ([], fail (.controlStream why))

/-! ### Listening -/

/-- Whether this side listens for a request: its own of type `L` if the peer accepts requests, the
peer's of type `R` if the allowlist has the address. -/
def listensFor (myReq peerAccept : Bool) (allow : TunnelAllow) (req : TunnelRequest) : Bool :=
  if myReq then
    if req.typ = .R then false else if !peerAccept then false else true
  else
    if req.typ = .L then false
    else if !allow.allowsListen req.listenAddr then false else true

/-- Goes on with the requests `reqs` at index `i`. Returned are the indices that are listened for, and
the address that could not be bound if there was one. -/
def startListeners (binds : Nat → Bool) (myReqStart myReqCount : Nat) (peerAccept : Bool)
    (allow : TunnelAllow) : Nat → List TunnelRequest → List Nat × Option Bytes
  | _, [] => ([], none)
  | i, req :: rest =>
      if !listensFor (isMine myReqStart myReqCount i) peerAccept allow req then
        startListeners binds myReqStart myReqCount peerAccept allow (i + 1) rest
      else if !binds i then ([], some req.listenAddr)
      else
        let others := startListeners binds myReqStart myReqCount peerAccept allow (i + 1) rest
        (i :: others.1, others.2)

def runTcpListeners (binds : Nat → Bool) (reqs : List TunnelRequest) (myReqStart myReqCount : Nat)
    (peerAccept : Bool) (allow : TunnelAllow) : List Nat × Option Bytes :=
  startListeners binds myReqStart myReqCount peerAccept allow 0 reqs

/-- The header of the stream for a connection to a listener, if it gets one. -/
def handleTunnelTcp (permit opened : Bool) (specIdx : Nat) : Option Bytes :=
  if specIdx > 65535 then none
  else if !permit then none
  else if !opened then none
  else some (Bytes.be16 specIdx)

/-! ### Sessions -/

/-- What `run_tunnel_with_config` hands to the listeners and to the acceptor of streams. -/
structure Session where
  config : TunnelConfig
  myReqCount : Nat
  allow : TunnelAllow

def Session.mine (session : Session) (i : Nat) : Bool :=
  isMine session.config.myReqStart session.myReqCount i

def Session.listeners (session : Session) (binds : Nat → Bool) : List Nat :=
  (runTcpListeners binds session.config.reqs session.config.myReqStart session.myReqCount
    session.config.peerAccept session.allow).1

def Session.onStream (session : Session) (stream : Inbound) (dns : Dns) (connects : Nat → Bool) :
    List Bytes × Bool :=
  handleTunnelStream stream session.config.reqs session.config.myReqStart session.myReqCount
    session.allow dns connects

end Qvole.Tunnel
