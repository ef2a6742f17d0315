import Qvole.Relay.Hex

/-!
# Critical sections on a room entry

What `relay.rs` does while it holds the lock of one room entry: the sweep of stale clients with the
removal of their IP links, and the three ways a registration is handled in an existing room. Each
section reads and writes the entry and the IP links only, so the same definitions serve whether
entries are reached through the room table or through a handle obtained earlier.
-/

namespace Qvole

namespace Relay

structure Config where
  maxRooms : Nat
  maxRoomsPerIp : Nat
  maxMsgRate : Nat
  maxRegRate : Nat
  rateWindow : Duration
  regTtl : Duration
  maxClientsHard : Nat
  maxPendingPerIp : Nat
  maxPendingGlobal : Nat
  maxPendingPerRoom : Nat
  maxClientsPerPrefixPerRoom : Nat

def Config.defaults : Config where
  maxRooms := 10000
  maxRoomsPerIp := 10
  maxMsgRate := 10
  maxRegRate := 10
  rateWindow := fromMillis 1000
  regTtl := fromMillis 60000
  maxClientsHard := 20
  maxPendingPerIp := 50
  maxPendingGlobal := 65536
  maxPendingPerRoom := 256
  maxClientsPerPrefixPerRoom := 4

/-- The clock readings taken while one datagram is handled, in program order: the rate limiter's,
the cookie's age, the two sweeps, the stamp put on what is created or refreshed, the start of a new
client's rate window, the room's touch time, and the drop log's. -/
structure Clock where
  limit : Instant
  elapsed : Instant
  sweep : Instant
  resweep : Instant
  stamp : Instant
  window : Instant
  touch : Instant
  log : Instant
  limit_le : limit ≤ elapsed
  elapsed_le : elapsed ≤ sweep
  sweep_le : sweep ≤ resweep
  resweep_le : resweep ≤ stamp
  stamp_le : stamp ≤ window
  window_le : window ≤ touch
  touch_le : touch ≤ log

def Clock.same (now : Instant) : Clock where
  limit := now
  elapsed := now
  sweep := now
  resweep := now
  stamp := now
  window := now
  touch := now
  log := now
  limit_le := le_rfl
  elapsed_le := le_rfl
  sweep_le := le_rfl
  resweep_le := le_rfl
  stamp_le := le_rfl
  window_le := le_rfl
  touch_le := le_rfl

/-- Why a datagram was dropped, one case per log line. -/
inductive DropReason where
  | oversized
  | emptyRoom
  | invalidRoom
  | unknownType
  | regRateLimited
  | invalidCookie
  | invalidCookieHex
  | mismatchedPending
  | expiredPending
  | mismatchedInRoom
  | expiredInRoom
  | roomLimitPerIp
  | pendingLimitPerIp
  | pendingStoreFull
  | pendingRoomFull
  | maxRoomsReached
  | hardCap
  | prefixCap
  | malformedMsg
  | unknownPhase
  | invalidMsgRoom
  | invalidBody
  | unknownRoom
  | unregistered
  | msgRateLimited
  deriving DecidableEq, Repr

/-- How the handling of a `REG` ends. The source's silent action always follows a logged drop. -/
inductive RegAction where
  | regd
  | challenge (cookie : Cookie)
  | drop (reason : DropReason)
  deriving DecidableEq, Repr

abbrev Links := Table IpAddr (Finset Room)

namespace Links

def rooms (links : Links) (ip : IpAddr) : Finset Room := (links.lookup ip).getD ∅

def addIpRoom (links : Links) (ip : IpAddr) (room : Room) : Links :=
  links.insert ip (insert room (links.rooms ip))

def removeIpRoom (links : Links) (ip : IpAddr) (room : Room) : Links :=
  match links.lookup ip with
  | none => links
  | some set =>
      if set.erase room = ∅ then links.erase ip else links.insert ip (set.erase room)

def countIpRooms (links : Links) (ip : IpAddr) : Nat := (links.rooms ip).card

def unlink (links : Links) (unlinked : List (IpAddr × Room)) : Links :=
  unlinked.foldl (fun links p => links.removeIpRoom p.1 p.2) links

end Links

namespace RoomEntry

def ofIp (entry : RoomEntry) (ip : IpAddr) : Bool := entry.udpClients.keys.any fun a => ipKey a = ip

def countPrefixClients (entry : RoomEntry) (ip : IpAddr) : Nat :=
  entry.udpClients.countKeys fun a => ipKey a = ip

/-- `remove_stale_clients` with the links it reports dropped. -/
def sweep (entry : RoomEntry) (links : Links) (room : Room) (now : Instant) (regTtl : Duration) :
    RoomEntry × Links :=
  let swept := entry.removeStaleClients room now regTtl
  (swept.1, links.unlink swept.2)

/-- Puts `src` among the admitted clients and touches the room. -/
def admitClient (entry : RoomEntry) (src resolved : SocketAddr) (clock : Clock) : RoomEntry :=
  { entry with
    udpClients := entry.udpClients.insert src (.new (some resolved) clock.stamp clock.window)
    t := clock.touch }

/-- A `REG` with a cookie for an existing room, when the global pending store has no entry. -/
def cookieSection (cfg : Config) (room : Room) (src : SocketAddr) (cookieBytes : Bytes)
    (clock : Clock) (entry : RoomEntry) (links : Links) : RoomEntry × Links × RegAction :=
  match entry.pending.lookup src with
  | none => (entry, links, .drop .mismatchedInRoom)
  | some pend =>
      if pend.cookie.bytes ≠ cookieBytes then (entry, links, .drop .mismatchedInRoom)
      else if pend.expired clock.elapsed then
        (entry.removePending src, links, .drop .expiredInRoom)
      else
        let (entry, links) := entry.sweep links room clock.sweep cfg.regTtl
        let isNew := src ∉ entry.udpClients
        if entry.udpClients.size ≥ cfg.maxClientsHard ∧ isNew then (entry, links, .drop .hardCap)
        else if isNew ∧ !entry.ofIp (ipKey src) ∧
            links.countIpRooms (ipKey src) ≥ cfg.maxRoomsPerIp then
          (entry, links, .drop .roomLimitPerIp)
        else if isNew ∧
            entry.countPrefixClients (ipKey src) ≥ cfg.maxClientsPerPrefixPerRoom then
          (entry, links, .drop .prefixCap)
        else
          let entry := (entry.removePending src).admitClient src pend.resolvedAddr clock
          let links :=
            if entry.otherOfIp src (ipKey src) then links else links.addIpRoom (ipKey src) room
          (entry, links, .regd)

/-- A `REG` without a cookie for an existing room. `pendingForIp` is the source IP's count in the
global pending store. -/
def regSection (cfg : Config) (room : Room) (src : SocketAddr) (clock : Clock) (rnd : Cookie)
    (pendingForIp : Nat) (entry : RoomEntry) (links : Links) : RoomEntry × Links × RegAction :=
  let (entry, links) := entry.sweep links room clock.sweep cfg.regTtl
  if entry.udpClients.size ≥ cfg.maxClientsHard ∧ src ∉ entry.udpClients then
    (entry, links, .drop .hardCap)
  else
    match entry.udpClients.lookup src with
    | some info =>
        let info := { info with lastSeen := clock.stamp, resolvedAddr := some src }
        ({ entry with udpClients := entry.udpClients.insert src info }, links, .regd)
    | none =>
        match entry.pending.lookup src with
        | some pend =>
            let again := { pend with createdAt := clock.stamp, resolvedAddr := src }
            ({ entry with pending := entry.pending.insert src again }, links,
              .challenge pend.cookie)
        | none =>
            if pendingForIp + entry.pendingCountForIp (ipKey src) ≥ cfg.maxPendingPerIp then
              (entry, links, .drop .pendingLimitPerIp)
            else
              let p := { cookie := rnd, createdAt := clock.stamp, resolvedAddr := src }
              let added := entry.addPending src p cfg.maxPendingPerRoom
              if added.2 then (added.1, links, .challenge rnd)
              else (added.1, links, .drop .pendingRoomFull)

/-- Completion of a cookie from the global pending store in a room that exists. -/
def admitSection (cfg : Config) (room : Room) (src resolved : SocketAddr) (clock : Clock)
    (entry : RoomEntry) (links : Links) : RoomEntry × Links × RegAction :=
  let (entry, links) := entry.sweep links room clock.resweep cfg.regTtl
  let ipAlready := entry.ofIp (ipKey src)
  if entry.udpClients.size ≥ cfg.maxClientsHard ∧ src ∉ entry.udpClients then
    (entry, links, .drop .hardCap)
  else if !ipAlready ∧ links.countIpRooms (ipKey src) ≥ cfg.maxRoomsPerIp then
    (entry, links, .drop .roomLimitPerIp)
  else if src ∉ entry.udpClients ∧
      entry.countPrefixClients (ipKey src) ≥ cfg.maxClientsPerPrefixPerRoom then
    (entry, links, .drop .prefixCap)
  else
    let links := if ipAlready then links else links.addIpRoom (ipKey src) room
    (entry.admitClient src resolved clock, links, .regd)

def created (src resolved : SocketAddr) (clock : Clock) : RoomEntry :=
  (RoomEntry.new clock.stamp).admitClient src resolved clock

end RoomEntry

end Relay

end Qvole
