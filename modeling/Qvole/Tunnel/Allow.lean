import Qvole.Lib.Outcome
import Qvole.Lib.Utf8
import Qvole.Net.Parse

/-!
# The tunnel allowlist

Port of `tunnel_allow.rs`: which addresses a peer may reach through this side, and which it may ask
this side to listen on. A DNS answer is a function from host names to addresses, empty where the
lookup fails or takes too long.
-/

namespace Qvole.Tunnel

/-- What lookups of host names answer. -/
abbrev Dns := Bytes → List IpAddr

/-- One `-aF` rule. No address matches any host on the port. -/
structure IpRule where
  port : Bytes
  ip : Option IpAddr
  deriving DecidableEq, Repr

structure TunnelAllow where
  all : Bool
  listen : List Bytes
  forward : List Bytes
  forwardRules : List IpRule
  deriving DecidableEq, Repr

/-- `host:port` or `[host]:port`. -/
def splitHostPort (hostport : Bytes) : Option (Bytes × Bytes) := do
  let i ← Bytes.rposition (· == 58) hostport
  let (host, j, k) ←
    if hostport.head? = some 91 then do
      let close ← hostport.findIdx? (· == 93)
      if close + 1 = hostport.length then none
      else if close + 1 ≠ i then none
      else some ((hostport.take close).drop 1, 1, close + 1)
    else
      let host := hostport.take i
      if host.contains 58 then none else some (host, 0, 0)
  if (hostport.drop j).contains 91 then none
  else if (hostport.drop k).contains 93 then none
  else return (host, hostport.drop (i + 1))

/-- The host of `splitHostPortSliced`, and from where on no bracket may follow. -/
def splitHostSliced (hostport : Bytes) (i : Nat) : Outcome Unit (Bytes × Nat × Nat) :=
  if hostport.head? = some 91 then
    match hostport.findIdx? (· == 93) with
    | none => .fail ()
    | some close => do
        if close + 1 = hostport.length then .fail ()
        else if close + 1 ≠ i then .fail ()
        else return (← .expect (hostport.strSlice 1 close), 1, close + 1)
  else do
    let host ← .expect (hostport.strSlice 0 i)
    if host.contains 58 then .fail () else return (host, 0, 0)

/-- The same as `splitHostPort` with the ranges of the text that it takes; a text that is not of the
form is a failure. -/
def splitHostPortSliced (hostport : Bytes) : Outcome Unit (Bytes × Bytes) :=
  match Bytes.rposition (· == 58) hostport with
  | none => .fail ()
  | some i => do
      let (host, j, k) ← splitHostSliced hostport i
      if (← .expect (hostport.strSlice j hostport.length)).contains 91 then .fail ()
      else if (← .expect (hostport.strSlice k hostport.length)).contains 93 then .fail ()
      else return (host, ← .expect (hostport.strSlice (i + 1) hostport.length))

def splitDots (s : Bytes) : List Bytes := s.splitOn 46

/-- An IP literal; an IPv4 one in full dotted form. -/
def parseIpGo (s : Bytes) : Option IpAddr := do
  let ip ← IpAddr.parse s
  match ip with
  | .v4 _ =>
      let groups := splitDots s
      if groups.length ≠ 4 then none
      else if groups.any fun g => g = [] || g.length > 3 || (g.length > 1 && g.head? = some 48) then
        none
      else some ip
  | .v6 _ => some ip

/-- An IP literal resolves to itself, a host name to the addresses of the DNS answer. -/
def resolveAllIps (dns : Dns) (host : Bytes) : List IpAddr :=
  match parseIpGo host with
  | some ip => [ip]
  | none => if host = [] then [] else dns host

/-- The rules of one entry. Entries without a port, and names that do not resolve, give none. -/
def entryRules (dns : Dns) (entry : Bytes) : List IpRule :=
  match splitHostPort entry with
  | none => []
  | some (host, port) =>
      if host = [] then [{ port, ip := none }]
      else (resolveAllIps dns host).map fun ip => { port, ip := some ip }

def buildForwardRules (dns : Dns) (entries : List Bytes) : List IpRule :=
  entries.flatMap (entryRules dns)

def matchForwardIps (rules : List IpRule) (ip : IpAddr) (port : Bytes) : Bool :=
  rules.any fun r => r.port = port && (r.ip = none || r.ip = some ip)

/-- `str::to_lowercase` where it gives ASCII: the Kelvin sign is the one character outside of ASCII that
becomes such. Other characters outside of ASCII are left as they are. -/
def toLowercase : Bytes → Bytes
  | [] => []
  | 0xe2 :: 0x84 :: 0xaa :: rest => 107 :: toLowercase rest
  | b :: rest => (if 65 ≤ b ∧ b ≤ 90 then b + 32 else b) :: toLowercase rest

/-- Ports are compared as they are, hosts in the lower case of `lower`; an entry without a host matches
every one. -/
def allowMatchBy (lower : Bytes → Bytes) (entries : List Bytes) (addr : Bytes) : Bool :=
  match splitHostPort addr with
  | none => false
  | some (addrHost, addrPort) =>
      entries.any fun entry =>
        match splitHostPort entry with
        | none => false
        | some (entryHost, entryPort) =>
            entryPort = addrPort && (entryHost = [] || lower entryHost = lower addrHost)

/-- The code asks this of addresses that the peer sent, and `parse_addr` leaves ASCII of them. Against
such an address `toLowercase` compares as all of Unicode does; see `allowMatch_of_peer`. -/
def allowMatch (entries : List Bytes) (addr : Bytes) : Bool := allowMatchBy toLowercase entries addr

namespace TunnelAllow

/-- Whether any request of the peer may be accepted. -/
def accepts (allow : TunnelAllow) : Bool :=
  allow.all || !allow.listen.isEmpty || !allow.forward.isEmpty

def allowsListen (allow : TunnelAllow) (addr : Bytes) : Bool :=
  allow.all || allowMatch allow.listen addr

def allowsForward (allow : TunnelAllow) (addr : Bytes) : Bool :=
  allow.all || allowMatch allow.forward addr

/-- An entry of the form `addr:port`, the port not empty. -/
def wellFormedEntry (entry : Bytes) : Bool :=
  (splitHostPort entry).any fun (_, port) => port ≠ []

/-- The entries that are not of the form, if there are any: those of `-aL` and those of `-aF`. -/
def validate (allow : TunnelAllow) : Except (List Bytes × List Bytes) Unit :=
  let badListen := allow.listen.filter fun entry => !wellFormedEntry entry
  let badForward := allow.forward.filter fun entry => !wellFormedEntry entry
  if badListen = [] ∧ badForward = [] then .ok () else .error (badListen, badForward)

/-- Resolves the entries once, at startup. -/
def resolve (allow : TunnelAllow) (dns : Dns) : TunnelAllow :=
  { allow with forwardRules := buildForwardRules dns allow.forward }

/-- The rules a request is matched against. When there are none they are built again. -/
def currentRules (allow : TunnelAllow) (dns : Dns) : List IpRule :=
  if allow.forwardRules = [] ∧ allow.forward ≠ [] then buildForwardRules dns allow.forward
  else allow.forwardRules

/-- The allowed addresses of a target, the port to dial, and whether there are any. -/
def forwardIps (allow : TunnelAllow) (dns : Dns) (addr : Bytes) : List IpAddr × Bytes × Bool :=
  match splitHostPort addr with
  | none => ([], [], false)
  | some (host, port) =>
      let all := resolveAllIps dns host
      if all = [] then ([], [], false)
      else if allow.all then (all, port, true)
      else
        let allowed := all.filter fun ip => matchForwardIps (allow.currentRules dns) ip port
        if allowed = [] then ([], [], false) else (allowed, port, true)

end TunnelAllow

end Qvole.Tunnel
