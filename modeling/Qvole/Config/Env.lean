import Qvole.Net.Parse
import Qvole.Relay.Server

/-!
# Settings from the environment

Port of `env.rs` and of the settings that are read through it: the rounds of the password hash, the
configuration of the relay, and the number of streams of a peer. An environment gives every variable
that is set to valid text. Addresses and counts have 64 bits.
-/

namespace Qvole

abbrev Env := String → Option Bytes

/-- `str::parse::<i64>`. -/
def parseI64 (s : Bytes) : Option Int := parseInt (-9223372036854775808) 9223372036854775807 s

/-- `n as u32`, which keeps the low bits. -/
def asU32 (n : Int) : Nat := (n % 4294967296).toNat

/-- `n as usize`. -/
def asUsize (n : Int) : Nat := (n % 18446744073709551616).toNat

def envIntFrom (v : Option Bytes) (default : Int) : Int :=
  match v with
  | some s =>
      if s = [] then default
      else
        match parseI64 s with
        | some n => if n > 0 then n else default
        | none => default
  | none => default

def envInt (env : Env) (name : String) (default : Int) : Int := envIntFrom (env name) default

def envDurationMsFrom (v : Option Bytes) (defaultMs : Nat) : Nat :=
  match v with
  | some s =>
      if s = [] then defaultMs
      else
        match parseI64 s with
        | some ms => if ms > 0 then min ms.toNat (9223372036854775807 / 1000) else defaultMs
        | none => defaultMs
  | none => defaultMs

def envDurationMs (env : Env) (name : String) (defaultMs : Nat) : Nat :=
  envDurationMsFrom (env name) defaultMs

/-! ### The password hash -/

def defaultKdfIterations : Nat := 600000

def minKdfIterations : Nat := 100000

def kdfIterations (env : Env) : Nat :=
  match env "QVOLE_KDF_ITERATIONS" with
  | some v =>
      match parseI64 v with
      | some n => if n ≥ minKdfIterations then asU32 n else defaultKdfIterations
      | none => defaultKdfIterations
  | none => defaultKdfIterations

/-! ### The relay -/

namespace Relay

/-- `from_env` and `with_config`: the settings as a relay keeps them. -/
def Config.fromEnv (env : Env) : Config where
  maxRooms := asUsize (envInt env "QVOLE_RELAY_MAX_ROOMS" Config.defaults.maxRooms)
  maxRoomsPerIp := asUsize (envInt env "QVOLE_RELAY_MAX_ROOMS_PER_IP" Config.defaults.maxRoomsPerIp)
  maxMsgRate := asUsize (envInt env "QVOLE_RELAY_MSG_RATE" Config.defaults.maxMsgRate)
  maxRegRate := asUsize (envInt env "QVOLE_RELAY_REG_RATE" Config.defaults.maxRegRate)
  rateWindow := fromMillis (envDurationMs env "QVOLE_RELAY_RATE_WINDOW_MS" 1000)
  regTtl := fromMillis (envDurationMs env "QVOLE_RELAY_TTL_MS" 60000)
  maxClientsHard := asUsize (envInt env "QVOLE_RELAY_MAX_CLIENTS_HARD" Config.defaults.maxClientsHard)
  maxPendingPerIp :=
    asUsize (envInt env "QVOLE_RELAY_MAX_PENDING_PER_IP" Config.defaults.maxPendingPerIp)
  maxPendingGlobal := asUsize (envInt env "QVOLE_RELAY_MAX_PENDING" Config.defaults.maxPendingGlobal)
  maxPendingPerRoom :=
    asUsize (envInt env "QVOLE_RELAY_MAX_PENDING_PER_ROOM" Config.defaults.maxPendingPerRoom)
  maxClientsPerPrefixPerRoom :=
    asUsize (envInt env "QVOLE_RELAY_MAX_CLIENTS_PER_PREFIX_PER_ROOM"
      Config.defaults.maxClientsPerPrefixPerRoom)

end Relay

/-! ### Peers -/

structure PeerConfig where
  maxStreams : Option UInt32
  deriving DecidableEq, Repr

def defaultMaxIncomingStreams : Nat := 100

/-- A number that is set and not zero; else the environment's. -/
def maxStreams (cfg : PeerConfig) (env : Env) : Nat :=
  match cfg.maxStreams with
  | some v =>
      if v > 0 then v.toNat
      else asU32 (envInt env "QVOLE_MAX_STREAMS" defaultMaxIncomingStreams)
  | none => asU32 (envInt env "QVOLE_MAX_STREAMS" defaultMaxIncomingStreams)

end Qvole
