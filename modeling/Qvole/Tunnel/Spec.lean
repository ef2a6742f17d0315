import Qvole.Net.Parse
import Qvole.Net.Resolver
import Qvole.Tunnel.Stream

/-!
# Tunnel specs

Port of the spec parser of `tunnel_request.rs`, `[laddr:]lport:raddr:rport`, and of the validator in
`main.rs`. The delimiters are plain bytes, so a scan of bytes cuts a spec only between characters.
-/

namespace Qvole.Tunnel

open Outcome (fail)

/-- Reads on behind the bytes `part` of a part, `depth` brackets deep. -/
def splitSpecFrom : (part : Bytes) → (depth : Nat) → Bytes → Option (List Bytes)
  | part, depth, [] => if depth ≠ 0 then none else some [part]
  | part, depth, c :: rest =>
      if c = 91 then splitSpecFrom (part ++ [c]) (depth + 1) rest
      else if c = 93 then
        if depth = 0 then none else splitSpecFrom (part ++ [c]) (depth - 1) rest
      else if c = 58 ∧ depth = 0 then (splitSpecFrom [] depth rest).map (part :: ·)
      else splitSpecFrom (part ++ [c]) depth rest

/-- Splits at the colons outside of brackets. -/
def splitTunnelRequest (spec : Bytes) : Option (List Bytes) := splitSpecFrom [] 0 spec

/-- A result of `i32` arithmetic, as it wraps. -/
def wrapI32 (n : Int) : Int := (n + 2147483648) % 4294967296 - 2147483648

/-- The loop on offsets: at byte `i`, with the offset of the part it is in and the parts before. -/
def splitSpecLoop (spec : Bytes) : (i start : Nat) → (depth : Int) → (parts : List Bytes) → Bytes →
    Outcome Unit (Option (List Bytes))
  | _, start, depth, parts, [] =>
      if depth ≠ 0 then return none
      else do
        let part ← .expect (Bytes.strSlice spec start spec.length)
        return some (parts ++ [part])
  | i, start, depth, parts, c :: rest =>
      if c = 91 then splitSpecLoop spec (i + 1) start (wrapI32 (depth + 1)) parts rest
      else if c = 93 then
        if wrapI32 (depth - 1) < 0 then return none
        else splitSpecLoop spec (i + 1) start (wrapI32 (depth - 1)) parts rest
      else if c = 58 ∧ depth = 0 then do
        let part ← .expect (Bytes.strSlice spec start i)
        splitSpecLoop spec (i + 1) (i + 1) depth (parts ++ [part]) rest
      else splitSpecLoop spec (i + 1) start depth parts rest

/-- `splitTunnelRequest` with the ranges and the counter of the source; a range that is out of bounds
or cuts a character panics. -/
def splitTunnelRequestSliced (spec : Bytes) : Outcome Unit (Option (List Bytes)) :=
  splitSpecLoop spec 0 0 0 [] spec

def stripBrackets (s : Bytes) : Bytes :=
  if s.length ≥ 2 ∧ s.head? = some 91 ∧ s.getLast? = some 93 then
    (s.take (s.length - 1)).drop 1
  else s

/-- Puts brackets around a host with a colon. -/
def joinHostPort (host port : Bytes) : Bytes :=
  if host.contains 58 then ascii "[" ++ host ++ ascii "]:" ++ port else host ++ ascii ":" ++ port

def defaultHost : Bytes := ascii "127.0.0.1"

def specFormatError : String :=
  "expected [laddr:]lport:raddr:rport or [raddr:]rport:laddr:lport format"

def parseTunnelRequest (spec : Bytes) (typ : TunnelType) : Outcome String TunnelRequest :=
  match (splitTunnelRequest spec).getD [] with
  | [lport, raddr, rport] =>
      .ok { typ
            listenAddr := joinHostPort defaultHost lport
            targetAddr := joinHostPort (stripBrackets raddr) rport }
  | [laddr, lport, raddr, rport] =>
      let listenHost := stripBrackets laddr
      let listenHost := if listenHost = [] then defaultHost else listenHost
      .ok { typ
            listenAddr := joinHostPort listenHost lport
            targetAddr := joinHostPort (stripBrackets raddr) rport }
  | _ => fail specFormatError

/-! ### Validation -/

inductive SpecError where
  | format (why : String)
  | address (why : Bytes)
  | port (port : Bytes)
  deriving DecidableEq, Repr

/-- `port.parse::<i32>()` is one of a TCP port. -/
def validPort (port : Bytes) : Bool :=
  (parseInt (-2147483648) 2147483647 port).any fun p => 1 ≤ p && p ≤ 65535

def validateAddr (addr : Bytes) : Outcome SpecError Unit := do
  let (_, port) ← Outcome.mapErr .address (Resolver.splitHostPort addr)
  if validPort port then return () else fail (.port port)

def validateTunnelSpec (spec : Bytes) (typ : TunnelType) : Outcome SpecError Unit := do
  let req ← Outcome.mapErr .format (parseTunnelRequest spec typ)
  validateAddr req.listenAddr
  validateAddr req.targetAddr

end Qvole.Tunnel
