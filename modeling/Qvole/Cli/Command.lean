import Qvole.Cli.Flags
import Qvole.Spake2.Code
import Qvole.Tunnel.Allow
import Qvole.Tunnel.Spec

/-!
# The tunnel command

Port of the checks of `main.rs` on the arguments of `tunnel`, and of the command that it prints for the
peer.
-/

namespace Qvole.Cli

open Outcome (fail)
open Tunnel (TunnelAllow TunnelRequest TunnelType SpecError parseTunnelRequest validateTunnelSpec)

def maxTunnelSpecs : Nat := 100

inductive ConfigError where
  | tooMany (n : Nat)
  | spec (typ : TunnelType) (spec : Bytes) (error : SpecError)
  /-- The entries of `-aL` and of `-aF` that are not of the form. -/
  | allow (listen forward : List Bytes)
  deriving DecidableEq, Repr

def validateTunnelSpecs (typ : TunnelType) : List Bytes → Outcome ConfigError Unit
  | [] => .ok ()
  | spec :: specs => do
      Outcome.mapErr (.spec typ spec) (validateTunnelSpec spec typ)
      validateTunnelSpecs typ specs

def validateTunnelConfig (localTunnels remoteTunnels allowListen allowForward : List Bytes)
    (allowAll : Bool) : Outcome ConfigError Unit := do
  let n := localTunnels.length + remoteTunnels.length
  if n > maxTunnelSpecs then fail (.tooMany n)
  validateTunnelSpecs .L localTunnels
  validateTunnelSpecs .R remoteTunnels
  let allow : TunnelAllow :=
    { all := allowAll, listen := allowListen, forward := allowForward, forwardRules := [] }
  match allow.validate with
  | .ok () => .ok ()
  | .error (listen, forward) => fail (.allow listen forward)

/-- Parses the specs in their order. -/
def parseTunnelRequests (typ : TunnelType) : List Bytes → Outcome String (List TunnelRequest)
  | [] => .ok []
  | spec :: specs => do
      let req ← parseTunnelRequest spec typ
      return req :: (← parseTunnelRequests typ specs)

/-- The requests that this side sends. -/
def myRequests (localTunnels remoteTunnels : List Bytes) : Outcome String (List TunnelRequest) := do
  let localReqs ← parseTunnelRequests .L localTunnels
  let remoteReqs ← parseTunnelRequests .R remoteTunnels
  return localReqs ++ remoteReqs

/-- Keeps an address that was not seen before. -/
def pushNew (seen : List Bytes) (v : Bytes) : List Bytes :=
  if seen.any fun e => e = v then seen else seen ++ [v]

/-- Goes on behind the addresses that were seen, each of them once. -/
def peerEntries (typ : TunnelType) (addr : TunnelRequest → Bytes) :
    (seen : List Bytes) → (specs : List Bytes) → Outcome String (List Bytes)
  | seen, [] => .ok seen
  | seen, spec :: specs => do
      let req ← parseTunnelRequest spec typ
      peerEntries typ addr (pushNew seen (addr req)) specs

/-- The command for the peer, or nothing if it has nothing to allow. -/
def tunnelPeerCommand (code : Bytes) (localTunnels remoteTunnels : List Bytes) :
    Outcome String Bytes := do
  let aL ← peerEntries .R (·.listenAddr) [] remoteTunnels
  let aF ← peerEntries .L (·.targetAddr) [] localTunnels
  if aL = [] ∧ aF = [] then return []
  return ascii "QVOLE_CODE=" ++ code ++ ascii " qvole tunnel" ++
    (aL.flatMap fun v => ascii " -aL " ++ v) ++ aF.flatMap fun v => ascii " -aF " ++ v

/-- The allowlist of `run_tunnel`, from the flags. -/
def tunnelAllow (values : FlagValues) : TunnelAllow :=
  { all := values.bool (ascii "a")
    listen := values.slice (ascii "aL")
    forward := values.slice (ascii "aF")
    forwardRules := [] }

end Qvole.Cli
