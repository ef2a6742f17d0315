import Qvole.Exchange.Handshake
import Qvole.Exchange.Register
import Qvole.Net.Parse
import Qvole.Lib.Run
import Qvole.Lib.Utf8

/-!
# The exchange loop

Port of the loop of `register_and_exchange`. One turn of the loop sends what is due and handles at
most one datagram; the inputs of a turn are the clock readings it takes, the order in which it
meets the candidates (that of a hash map), the random draws, and what the socket gives. Everything
the socket gives comes from the relay, which is not trusted. Log lines are left out, and with them
the time of the last one about the external address.
-/

namespace Qvole.Exchange

open Spake2 (Curve Primitives Generators State)
open Bytes (isUtf8)

def maxCandidates : Nat := 50
def maxBufferedConfirms : Nat := 200
def maxInboundMsgdPerSecond : Nat := 500
def readBufferSize : Nat := 1500

/-! ### Reading what the relay sends -/

/-- What a line means to the loop. -/
inductive Message where
  | accepted (extAddr : Bytes)
  | challenge (cookie : Bytes)
  | spake2 (hexBody : Bytes)
  | confirm (hexBody : Bytes)
  | other
  deriving DecidableEq, Repr

/-- The rest of a `REGD` for this room: `OK <addr>` or a cookie of 32 hex characters. -/
def classifyRegd (payload : Bytes) : Option Message :=
  match Bytes.stripPrefix (ascii "OK ") payload with
  | some okRest => (trimAscii okRest).map .accepted
  | none =>
      if payload.length = 32 ∧ isUtf8 payload ∧ (hexDecode payload).isSome then
        some (.challenge payload)
      else some .other

/-- `none` is the panic of `trim_ascii`. -/
def classify (room : Room) (line : Bytes) : Option Message :=
  match Bytes.stripPrefix (ascii "REGD ") line with
  | some rest =>
      match Bytes.splitOnce 32 rest with
      | (_, none) => some .other
      | (relayRoom, some relayPayload) =>
          if relayRoom ≠ room then some .other
          else (trimAscii relayPayload).bind classifyRegd
  | none =>
      match Bytes.stripPrefix (ascii "MSGD spake2 ") line with
      | some hexBody => some (if isUtf8 hexBody then .spake2 hexBody else .other)
      | none =>
          match Bytes.stripPrefix (ascii "MSGD confirm ") line with
          | some hexBody => some (if isUtf8 hexBody then .confirm hexBody else .other)
          | none => some .other

/-- What a datagram means to the loop. -/
def readDatagram (room : Room) (data : Bytes) : Option Message :=
  (trimAscii data).bind (classify room)

/-- A byte string read as text, one character a byte. -/
def textOf (b : Bytes) : String := String.ofList (b.map charFrom)

/-- Only a literal address with a port is taken from the relay, never a host name. -/
def adoptable (extAddr : Bytes) : Bool :=
  isUtf8 extAddr && (SocketAddr.parse extAddr).any (fun addr => addr.port ≠ 0) &&
    extAddr.all fun b => 33 ≤ b && b ≤ 126

def detectOutboundAddr (bound : SocketAddr) : String :=
  if bound.ip.isUnspecified then textOf (ascii "localhost:" ++ decimal bound.port.toNat)
  else textOf bound.toText

/-! ### The variables of the loop -/

structure PeerCandidate where
  point : Bytes
  fingerprint : Bytes
  confirmKey : Bytes
  encKey : Bytes
  confirmPayload : Bytes
  isServer : Bool
  effectiveMyPoint : Bytes
  deriving DecidableEq, Repr

def PeerCandidate.new (view : ProcessedSpake) (cp : Bytes) : PeerCandidate where
  point := view.effectivePeerPoint
  fingerprint := view.peerFingerprint
  confirmKey := view.confirmKey
  encKey := view.encKey
  confirmPayload := cp
  isServer := view.isServer
  effectiveMyPoint := view.effectiveMyPoint

/-- The clock readings of one turn, in program order; the readings for the resends are one per
candidate. -/
structure TurnClock where
  top : Instant
  reg : Instant
  regSent : Instant
  spake2 : Instant
  spake2Sent : Instant
  due : Bytes → Instant
  resent : Bytes → Instant
  window : Instant
  confirmSent : Instant
  top_le : top ≤ reg
  reg_le : reg ≤ regSent
  regSent_le : regSent ≤ spake2
  spake2_le : spake2 ≤ spake2Sent
  spake2Sent_le : ∀ key, spake2Sent ≤ due key
  due_le : ∀ key key', due key ≤ resent key'
  resent_le : ∀ key, resent key ≤ window
  window_le : window ≤ confirmSent

def TurnClock.same (now : Instant) : TurnClock where
  top := now
  reg := now
  regSent := now
  spake2 := now
  spake2Sent := now
  due _ := now
  resent _ := now
  window := now
  confirmSent := now
  top_le := le_rfl
  reg_le := le_rfl
  regSent_le := le_rfl
  spake2_le := le_rfl
  spake2Sent_le _ := le_rfl
  due_le _ _ := le_rfl
  resent_le _ := le_rfl
  window_le := le_rfl

/-- What waiting for a datagram ends with. A datagram that is too long for the buffer is cut by the
socket. -/
inductive Inbound where
  | timedOut
  | failed (error : String)
  | datagram (data : Bytes) (fits : data.length ≤ readBufferSize)

abbrev CandidateEntry := (_ : Bytes) × PeerCandidate

structure Turn where
  cancelled : Bool
  clock : TurnClock
  /-- The order in which the hash map of candidates is walked. -/
  arrange : List CandidateEntry → List CandidateEntry
  arrange_perm : ∀ entries, (arrange entries).Perm entries
  inbound : Inbound
  draws : ConfirmDraws

structure Session where
  registrar : Registrar
  myAddr : String
  /-- Keyed by the lowercase hex of the SPAKE2 payload. -/
  candidates : Table Bytes PeerCandidate
  confirmLastSent : Table Bytes Instant
  bufferedConfirms : List Bytes
  lastSpake2Sent : Option Instant
  inboundWindow : Option Instant
  inboundCount : Nat

abbrev Exchanged := Outcome ExchangeError (String × Bytes × Bool)

/-- The loop between two turns, or with what the function returned. -/
structure Loop where
  session : Session
  result : Option Exchanged

/-- What is sent to the relay. -/
inductive Sent where
  | reg (cookie : Bytes)
  | spake2 (payload : Bytes)
  | confirm (cand : PeerCandidate)
  deriving DecidableEq, Repr

def Sent.wire (room : Room) : Sent → Bytes
  | .reg cookie => Registrar.regLine { Registrar.new with pendingCookie := cookie } room
  | .spake2 payload =>
      ascii "MSG " ++ room ++ ascii " spake2 " ++ toHexLower payload ++ ascii "\n"
  | .confirm cand =>
      ascii "MSG " ++ room ++ ascii " confirm " ++ toHexLower cand.confirmPayload ++ ascii "\n"

/-- What stays fixed during an exchange. -/
structure Party (F S : Type) where
  room : Room
  state : State F S
  myFingerprint : Bytes
  bound : SocketAddr
  deadline : Instant
  regInterval : Duration
  spake2Resend : Duration
  confirmResend : Duration

namespace Session

def new (bound : SocketAddr) : Session where
  registrar := .new
  myAddr := detectOutboundAddr bound
  candidates := ∅
  confirmLastSent := ∅
  bufferedConfirms := []
  lastSpake2Sent := none
  inboundWindow := none
  inboundCount := 0

/-! ### Sending -/

def sendReg (s : Session) (regInterval : Duration) (clock : TurnClock) : Session × List Sent :=
  if s.registrar.lastRegSent.all fun t => clock.reg - t > regInterval then
    ({ s with registrar := { s.registrar with lastRegSent := some clock.regSent } },
      [.reg s.registrar.pendingCookie])
  else (s, [])

def sendSpake2 (s : Session) (payload : Bytes) (spake2Resend : Duration) (clock : TurnClock) :
    Session × List Sent :=
  if s.registrar.receivedRegd ∧ s.lastSpake2Sent.all fun t => clock.spake2 - t > spake2Resend then
    ({ s with lastSpake2Sent := some clock.spake2Sent }, [.spake2 payload])
  else (s, [])

/-- The candidates whose confirmation was sent too long ago. All are picked before any is sent. -/
def resends (s : Session) (confirmResend : Duration) (turn : Turn) : List CandidateEntry :=
  (turn.arrange s.candidates.entries).filter fun e =>
    (s.confirmLastSent.lookup e.1).all fun t => turn.clock.due e.1 - t > confirmResend

def resendConfirms (s : Session) (confirmResend : Duration) (turn : Turn) : Session × List Sent :=
  let due := s.resends confirmResend turn
  ({ s with
    confirmLastSent :=
      due.foldl (fun sent e => sent.insert e.1 (turn.clock.resent e.1)) s.confirmLastSent },
    due.map fun e => .confirm e.2)

/-! ### Receiving -/

/-- Counts a `MSGD` in its second; the answer is whether it is one too many. -/
def meter (s : Session) (line : Bytes) (now : Instant) : Session × Bool :=
  if (ascii "MSGD ").isPrefixOf line then
    let s :=
      if s.inboundWindow.all fun t => now - t ≥ fromMillis 1000 then
        { s with inboundWindow := some now, inboundCount := 0 }
      else s
    let s := { s with inboundCount := s.inboundCount + 1 }
    (s, s.inboundCount > maxInboundMsgdPerSecond)
  else (s, false)

def adopt (s : Session) (extAddr : Bytes) : Session :=
  { s with
    registrar := { s.registrar with receivedRegd := true }
    myAddr := if adoptable extAddr then textOf extAddr else s.myAddr }

def challenged (s : Session) (cookie : Bytes) : Session :=
  { s with registrar := { s.registrar with pendingCookie := cookie, lastRegSent := none } }

/-- The order of `Option<Instant>`: an absent value comes first. -/
def earlier : Option Instant → Option Instant → Bool
  | none, some _ => true
  | some t, some t' => t < t'
  | _, none => false

/-- `Iterator::min_by_key`: the first entry with the least value. -/
def minByKey (value : CandidateEntry → Option Instant) : List CandidateEntry → Option CandidateEntry
  | [] => none
  | e :: rest =>
      some (rest.foldl (fun least e => if earlier (value e) (value least) then e else least) e)

/-- A full table gives up the candidate whose confirmation was sent longest ago. -/
def makeRoom (s : Session) (turn : Turn) : Session :=
  if s.candidates.size ≥ maxCandidates then
    match minByKey (fun e => s.confirmLastSent.lookup e.1) (turn.arrange s.candidates.entries) with
    | some e =>
        { s with
          candidates := s.candidates.erase e.1
          confirmLastSent := s.confirmLastSent.erase e.1 }
    | none => s
  else s

def insertCandidate (s : Session) (key : Bytes) (cand : PeerCandidate) (now : Instant) : Session :=
  { s with
    candidates := s.candidates.insert key cand
    confirmLastSent := s.confirmLastSent.insert key now }

def buffer (s : Session) (hexBody : Bytes) : Session :=
  if s.bufferedConfirms.length < maxBufferedConfirms then
    { s with bufferedConfirms := s.bufferedConfirms ++ [hexBody] }
  else s

end Session

/-- An error of the call is logged and the loop goes on; a panic ends it. -/
def Loop.abandon (s : Session) : Fault ExchangeError → Loop
  | .failed _ => ⟨s, none⟩
  | .panicked => ⟨s, some (.error .panicked)⟩
  | .unfinished => ⟨s, some (.error .unfinished)⟩

namespace Party

variable {F S P : Type} [Field F] [DecidableEq F] [Field S] [AddCommGroup P] [DecidableEq P]
  [Module S P] (C : Curve F P) (H : Primitives) (G : Generators C H) (party : Party F S)

def process (hexBody : Bytes) : Outcome ExchangeError ProcessedSpake :=
  processSpakeMsg C H G hexBody party.state (party.state.blindedBytesM C)
    (party.state.blindedBytesN C) party.myFingerprint

omit [Field S] [AddCommGroup P] [DecidableEq P] [Module S P] in
def buildConfirm (draws : ConfirmDraws) (view : ProcessedSpake) (myAddr : String) :
    Outcome ExchangeError Bytes :=
  buildConfirmPayload C H G draws view.confirmKey view.encKey view.effectiveMyPoint
    view.effectivePeerPoint party.myFingerprint view.peerFingerprint myAddr

omit [Field S] [AddCommGroup P] [DecidableEq P] [Module S P] in
def checkConfirm (cand : PeerCandidate) (hexBody : Bytes) : Outcome ExchangeError String :=
  processConfirmMsg C H G hexBody cand.confirmKey cand.encKey cand.effectiveMyPoint cand.point
    party.myFingerprint cand.fingerprint

/-- The new candidate is in the table; confirmations that came before it are tried on it. -/
def onCandidate (s : Session) (cand : PeerCandidate) : Loop :=
  match Outcome.firstOk (party.checkConfirm C H G cand) s.bufferedConfirms with
  | .ok (some (_, addr)) => ⟨s, some (.ok (addr, cand.fingerprint, cand.isServer))⟩
  | .ok none => ⟨s, none⟩
  | .error fault => ⟨s, some (.error fault)⟩

def onSpake2 (s : Session) (turn : Turn) (hexBody : Bytes) : Loop × List Sent :=
  match hexDecode hexBody with
  | none => (⟨s, none⟩, [])
  | some peerPayload =>
      if peerPayload.length < spake2PayloadLen then (⟨s, none⟩, [])
      else
        let payloadKey := toHexLower (peerPayload.take spake2PayloadLen)
        if payloadKey ∈ s.candidates then (⟨s, none⟩, [])
        else
          match party.process C H G hexBody with
          | .error fault => (.abandon s fault, [])
          | .ok view =>
              match party.buildConfirm C H G turn.draws view s.myAddr with
              | .error fault => (.abandon s fault, [])
              | .ok cp =>
                  let cand := PeerCandidate.new view cp
                  let s := (s.makeRoom turn).insertCandidate payloadKey cand turn.clock.confirmSent
                  (party.onCandidate C H G s cand, [.confirm cand])

def onConfirm (s : Session) (turn : Turn) (hexBody : Bytes) : Loop :=
  match Outcome.firstOk (fun e : CandidateEntry => party.checkConfirm C H G e.2 hexBody)
      (turn.arrange s.candidates.entries) with
  | .ok (some (e, addr)) => ⟨s, some (.ok (addr, e.2.fingerprint, e.2.isServer))⟩
  | .ok none => ⟨s.buffer hexBody, none⟩
  | .error fault => ⟨s, some (.error fault)⟩

def handle (s : Session) (turn : Turn) : Message → Loop × List Sent
  | .accepted extAddr => (⟨s.adopt extAddr, none⟩, [])
  | .challenge cookie => (⟨s.challenged cookie, none⟩, [])
  | .spake2 hexBody => party.onSpake2 C H G s turn hexBody
  | .confirm hexBody => (party.onConfirm C H G s turn hexBody, [])
  | .other => (⟨s, none⟩, [])

def receive (s : Session) (turn : Turn) (data : Bytes) : Loop × List Sent :=
  match trimAscii data with
  | none => (⟨s, some (.error .panicked)⟩, [])
  | some line =>
      let metered := s.meter line turn.clock.window
      if metered.2 then (⟨metered.1, none⟩, [])
      else
        match classify party.room line with
        | none => (⟨metered.1, some (.error .panicked)⟩, [])
        | some message => party.handle C H G metered.1 turn message

/-- The part of a turn before it waits for a datagram. -/
def transmit (s : Session) (turn : Turn) : Session × List Sent :=
  let registered := s.sendReg party.regInterval turn.clock
  let announced := registered.1.sendSpake2 (spake2Payload C party.state party.myFingerprint)
    party.spake2Resend turn.clock
  let confirmed := announced.1.resendConfirms party.confirmResend turn
  (confirmed.1, registered.2 ++ announced.2 ++ confirmed.2)

def turn (s : Session) (turn : Turn) : Loop × List Sent :=
  if turn.cancelled then (⟨s, some (.fail .cancelled)⟩, [])
  else if turn.clock.top > party.deadline then (⟨s, some (.fail .timeout)⟩, [])
  else
    let transmitted := party.transmit C s turn
    match turn.inbound with
    | .timedOut => (⟨transmitted.1, none⟩, transmitted.2)
    | .failed error => (⟨transmitted.1, some (.fail (.relayRead error))⟩, transmitted.2)
    | .datagram data _ =>
        let received := party.receive C H G transmitted.1 turn data
        (received.1, transmitted.2 ++ received.2)

/-- `register_and_exchange` from the state of the key agreement on. After it has returned nothing
happens any more. -/
def machine : Machine Loop Turn Sent where
  init := ⟨.new party.bound, none⟩
  step loop turn :=
    match loop.result with
    | some _ => (loop, [])
    | none => party.turn C H G loop.session turn
  start turn := turn.clock.top
  finish turn := turn.clock.confirmSent

end Party

end Qvole.Exchange
