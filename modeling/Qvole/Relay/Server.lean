import Qvole.Relay.Sections
import Qvole.Lib.Run

/-!
# The relay

Port of `relay.rs` as a machine that handles one datagram or one cleanup tick at a time. The tables
(rooms, IP links, pending registrations and their counters) are kept apart from the meters (rate
limits, drop log and statistics), which no registration decision other than the rate limit reads.
Locks that only partition a map are not visible here; the room shards are, since a sweep may cover
one shard only.
-/

namespace Qvole

namespace Relay

/-- `AtomicUsize::fetch_sub`: wraps below zero. -/
def fetchSub (a b : Nat) : Nat := if b ≤ a then a - b else a + 2 ^ 64 - b

structure Tables where
  shards : Fin numShards → Table Room RoomEntry
  ipCounts : Links
  /-- Pending registrations for rooms that did not exist. The source nests two maps, by room and
  then by source. -/
  pendingRegs : Table (Room × SocketAddr) PendingReg
  pendingIp : Table IpAddr Nat
  pendingTotal : Nat
  totalRoomCount : Nat

structure Meters where
  regShards : Fin numRegShards → RegShard
  dropLogLimiter : DropLogLimiter
  statRegs : Nat
  statMsgs : Nat
  statDrops : Nat

namespace Tables

def empty : Tables :=
  { shards := fun _ => ∅, ipCounts := ∅, pendingRegs := ∅, pendingIp := ∅, pendingTotal := 0,
    totalRoomCount := 0 }

def room? (T : Tables) (room : Room) : Option RoomEntry :=
  (T.shards (shardIdx room numShards)).lookup room

def setRoom (T : Tables) (room : Room) (entry : RoomEntry) : Tables :=
  { T with
    shards := Function.update T.shards (shardIdx room numShards)
      ((T.shards (shardIdx room numShards)).insert room entry) }

def inRoom (T : Tables) (room : Room) (result : RoomEntry × Links × RegAction) :
    Tables × RegAction :=
  ({ T.setRoom room result.1 with ipCounts := result.2.1 }, result.2.2)

/-! ### Global pending store -/

def getPendingReg (T : Tables) (room : Room) (src : SocketAddr) : Option PendingReg :=
  T.pendingRegs.lookup (room, src)

def pendingCountForIp (T : Tables) (ip : IpAddr) : Nat := (T.pendingIp.lookup ip).getD 0

/-- Replacing an entry never fails; a new one is refused when the store is full. -/
def storePendingReg (T : Tables) (cfg : Config) (room : Room) (src : SocketAddr) (p : PendingReg) :
    Tables × Bool :=
  if (room, src) ∈ T.pendingRegs then
    ({ T with pendingRegs := T.pendingRegs.insert (room, src) p }, true)
  else if T.pendingTotal ≥ cfg.maxPendingGlobal then (T, false)
  else
    ({ T with
      pendingRegs := T.pendingRegs.insert (room, src) p
      pendingTotal := T.pendingTotal + 1
      pendingIp := T.pendingIp.incr (ipKey src) }, true)

def deletePendingReg (T : Tables) (room : Room) (src : SocketAddr) : Tables :=
  if (room, src) ∈ T.pendingRegs then
    { T with
      pendingRegs := T.pendingRegs.erase (room, src)
      pendingTotal := fetchSub T.pendingTotal 1
      pendingIp := T.pendingIp.decr (ipKey src) }
  else T

def removeStalePendingRegs (T : Tables) (now : Instant) : Tables :=
  let evictedIps :=
    (T.pendingRegs.retain fun _ p => p.expired now).keys.map fun key => ipKey key.2
  let T := { T with pendingRegs := T.pendingRegs.retain fun _ p => !p.expired now }
  if evictedIps.isEmpty then T
  else
    { T with
      pendingTotal := fetchSub T.pendingTotal evictedIps.length
      pendingIp := evictedIps.foldl (fun counts ip => counts.decr ip) T.pendingIp }

/-! ### Room sweeps -/

/-- Sweeps one shard and drops the links its clients lose; the room counter is left to the caller. -/
def evictShard (T : Tables) (i : Fin numShards) (now : Instant) (regTtl : Duration) :
    Tables × Nat :=
  let swept := evictStaleRooms (T.shards i) now regTtl
  ({ T with
    shards := Function.update T.shards i swept.1
    ipCounts := T.ipCounts.unlink swept.2.2 }, swept.2.1)

def evictShards (now : Instant) (regTtl : Duration) : List (Fin numShards) → Tables → Tables × Nat
  | [], T => (T, 0)
  | i :: rest, T =>
      let first := T.evictShard i now regTtl
      let others := evictShards now regTtl rest first.1
      (others.1, first.2 + others.2)

/-- `total_room_count.fetch_sub(n)`, when there is something to subtract. -/
def subRooms (T : Tables) (n : Nat) : Tables :=
  if n > 0 then { T with totalRoomCount := fetchSub T.totalRoomCount n } else T

def evictStaleRoomsAll (T : Tables) (now : Instant) (regTtl : Duration) : Tables :=
  let swept := evictShards now regTtl (List.finRange numShards) T
  swept.1.subRooms swept.2

/-! ### Registration -/

/-- At the room cap, sweeps all shards before the cap is checked again. -/
def sweepIfFull (T : Tables) (cfg : Config) (clock : Clock) : Tables :=
  if T.totalRoomCount ≥ cfg.maxRooms then T.evictStaleRoomsAll clock.sweep cfg.regTtl else T

/-- Still at the cap, sweeps the room's own shard once more. -/
def resweepIfFull (T : Tables) (cfg : Config) (room : Room) (clock : Clock) : Tables :=
  if T.totalRoomCount ≥ cfg.maxRooms then
    let swept := T.evictShard (shardIdx room numShards) clock.resweep cfg.regTtl
    swept.1.subRooms swept.2
  else T

def createRoom (T : Tables) (room : Room) (src resolved : SocketAddr) (clock : Clock) : Tables :=
  { T.setRoom room (.created src resolved clock) with
    totalRoomCount := T.totalRoomCount + 1
    ipCounts := T.ipCounts.addIpRoom (ipKey src) room }

/-- The room that a completed cookie needs does not exist: create it, re-checking the caps. -/
def regCookieCreate (T : Tables) (cfg : Config) (room : Room) (src resolved : SocketAddr)
    (clock : Clock) : Tables × RegAction :=
  let T := T.resweepIfFull cfg room clock
  if T.totalRoomCount ≥ cfg.maxRooms then (T, .drop .maxRoomsReached)
  else if T.ipCounts.countIpRooms (ipKey src) ≥ cfg.maxRoomsPerIp then (T, .drop .roomLimitPerIp)
  else (T.createRoom room src resolved clock, .regd)

/-- Admission after the global pending store matched: create the room if it is missing, or admit the
client into the existing one. -/
def regCookieCreateOrAdmit (T : Tables) (cfg : Config) (room : Room) (src resolved : SocketAddr)
    (clock : Clock) : Tables × RegAction :=
  let T := T.sweepIfFull cfg clock
  match T.room? room with
  | none => T.regCookieCreate cfg room src resolved clock
  | some entry => T.inRoom room (entry.admitSection cfg room src resolved clock T.ipCounts)

/-- A challenge for a room that does not exist: the registration waits in the global store. -/
def challengeUnknown (T : Tables) (cfg : Config) (room : Room) (src : SocketAddr) (clock : Clock)
    (rnd : Cookie) : Tables × RegAction :=
  if T.pendingCountForIp (ipKey src) ≥ cfg.maxPendingPerIp then (T, .drop .pendingLimitPerIp)
  else
    let stored := T.storePendingReg cfg room src
      { cookie := rnd, createdAt := clock.stamp, resolvedAddr := src }
    if stored.2 then (stored.1, .challenge rnd) else (stored.1, .drop .pendingStoreFull)

def regWithCookie (T : Tables) (cfg : Config) (room : Room) (cookieBytes : Bytes)
    (src : SocketAddr) (clock : Clock) (rnd : Cookie) : Tables × RegAction :=
  match T.getPendingReg room src with
  | some pend =>
      if pend.cookie.bytes ≠ cookieBytes then (T, .drop .mismatchedPending)
      else if pend.expired clock.elapsed then
        (T.deletePendingReg room src, .drop .expiredPending)
      else
        (T.deletePendingReg room src).regCookieCreateOrAdmit cfg room src pend.resolvedAddr clock
  | none =>
      match T.room? room with
      | none =>
          if T.ipCounts.countIpRooms (ipKey src) ≥ cfg.maxRoomsPerIp then
            (T, .drop .roomLimitPerIp)
          else T.challengeUnknown cfg room src clock rnd
      | some entry =>
          T.inRoom room (entry.cookieSection cfg room src cookieBytes clock T.ipCounts)

def regInitial (T : Tables) (cfg : Config) (room : Room) (src : SocketAddr) (clock : Clock)
    (rnd : Cookie) : Tables × RegAction :=
  if T.ipCounts.countIpRooms (ipKey src) ≥ cfg.maxRoomsPerIp then (T, .drop .roomLimitPerIp)
  else
    match T.room? room with
    | none => T.challengeUnknown cfg room src clock rnd
    | some entry =>
        T.inRoom room (entry.regSection cfg room src clock rnd (T.pendingCountForIp (ipKey src))
          T.ipCounts)

/-- `handle_reg` after the rate limiter. -/
def handleReg (T : Tables) (cfg : Config) (room : Room) (cookie : Bytes) (src : SocketAddr)
    (clock : Clock) (rnd : Cookie) : Tables × RegAction :=
  if cookie = [] then T.regInitial cfg room src clock rnd
  else if !isValidHex cookie ∨ cookie.length ≠ pendingCookieBytes * 2 then
    (T, .drop .invalidCookie)
  else
    match hexDecode cookie with
    | none => (T, .drop .invalidCookieHex)
    | some cookieBytes => T.regWithCookie cfg room cookieBytes src clock rnd

/-- The room tick of the cleanup task. Its sweep of the shards is that of `evict_stale_rooms_all`. -/
def roomTick (T : Tables) (cfg : Config) (sweep expire : Instant) : Tables :=
  (T.evictStaleRoomsAll sweep cfg.regTtl).removeStalePendingRegs expire

end Tables

end Relay

structure Relay where
  cfg : Relay.Config
  tables : Relay.Tables
  meters : Relay.Meters

namespace Relay

def empty (cfg : Config) : Relay where
  cfg
  tables := .empty
  meters :=
    { regShards := fun _ => .empty, dropLogLimiter := .new 0, statRegs := 0, statMsgs := 0,
      statDrops := 0 }

inductive Reply where
  | regd (room : Room) (src : SocketAddr)
  | challenge (room : Room) (cookie : Cookie) (src : SocketAddr)
  | msgd (phase body : Bytes) (target : SocketAddr)
  deriving DecidableEq, Repr

def Reply.wire : Reply → Bytes
  | .regd room src => ascii "REGD " ++ room ++ ascii " OK " ++ src.toText ++ ascii "\n"
  | .challenge room cookie _ =>
      ascii "REGD " ++ room ++ ascii " " ++ toHexLower cookie.bytes ++ ascii "\n"
  | .msgd phase body _ => ascii "MSGD " ++ phase ++ ascii " " ++ body ++ ascii "\n"

/-- What a registration is answered. -/
def RegAction.replies (room : Room) (src : SocketAddr) : RegAction → List Reply
  | .regd => [.regd room src]
  | .challenge cookie => [.challenge room cookie src]
  | .drop _ => []

/-! ### Meters -/

def dropLogInterval : Duration := fromMillis 1000

/-- `max_msg_rate`, narrowed to 32 bits. -/
def msgRate (cfg : Config) : Nat := cfg.maxMsgRate % 2 ^ 32

/-- `max_reg_rate`, narrowed to 32 bits. -/
def regRate (cfg : Config) : Nat := cfg.maxRegRate % 2 ^ 32

def isRegRateLimited (relay : Relay) (src : SocketAddr) (now : Instant) : Meters × Bool :=
  let key := (ipKey src).toText
  let i := shardIdx key numRegShards
  let limited := (relay.meters.regShards i).isLimited key now relay.cfg.rateWindow (regRate relay.cfg)
  ({ relay.meters with regShards := Function.update relay.meters.regShards i limited.1 }, limited.2)

/-- Always counts the drop; the log line is throttled per source IP. -/
def Meters.dropPacket (meters : Meters) (src : SocketAddr) (now : Instant) : Meters :=
  { meters with
    statDrops := meters.statDrops + 1
    dropLogLimiter := (meters.dropLogLimiter.allow (ipKey src).toText now dropLogInterval).1 }

/-! ### Datagrams -/

def cmdPrefixLen : Nat := 4

def maxMsgBodyLen : Nat := 1024

inductive Packet where
  | drop (reason : DropReason)
  | reg (room : Room) (cookie : Bytes)
  | msg (payload : Bytes)
  deriving DecidableEq, Repr

def parseReg (trimmed : Bytes) : Packet :=
  let rest := trimAsciiSpace (trimmed.drop cmdPrefixLen)
  let split := Bytes.splitOnce 32 rest
  let room := split.1
  let cookie := (split.2.map trimAsciiSpace).getD []
  if room.isEmpty then .drop .emptyRoom
  else if !validRoomName room then .drop .invalidRoom
  else .reg room cookie

def parsePacket (data : Bytes) : Packet :=
  if data.isEmpty || data.length > maxDatagramLen then .drop .oversized
  else
    let trimmed := trimAsciiSpace data
    if trimmed.length ≥ cmdPrefixLen ∧ (ascii "REG ").isPrefixOf trimmed then parseReg trimmed
    else if trimmed.length ≥ cmdPrefixLen ∧ (ascii "MSG ").isPrefixOf trimmed then
      .msg (trimmed.drop cmdPrefixLen)
    else .drop .unknownType

def parseMsg (payload : Bytes) : Except DropReason (Room × Bytes × Bytes) :=
  match Bytes.splitOnce 32 payload with
  | (_, none) => .error .malformedMsg
  | (room, some rest) =>
      match Bytes.splitOnce 32 rest with
      | (_, none) => .error .malformedMsg
      | (phase, some body) =>
          if phase ≠ ascii "spake2" ∧ phase ≠ ascii "confirm" then .error .unknownPhase
          else if !validRoomName room then .error .invalidMsgRoom
          else if !isValidHex body ∨ body.length > maxMsgBodyLen then .error .invalidBody
          else .ok (room, phase, body)

def drop (relay : Relay) (src : SocketAddr) (clock : Clock) : Relay × List Reply :=
  ({ relay with meters := relay.meters.dropPacket src clock.log }, [])

/-- `handle_reg`: every `REG` is rate-limited first. -/
def handleReg (relay : Relay) (room : Room) (cookie : Bytes) (src : SocketAddr) (clock : Clock)
    (rnd : Cookie) : Relay × List Reply :=
  let limited := relay.isRegRateLimited src clock.limit
  let relay := { relay with meters := limited.1 }
  if limited.2 then relay.drop src clock
  else
    let result := relay.tables.handleReg relay.cfg room cookie src clock rnd
    let relay := { relay with tables := result.1 }
    match result.2 with
    | .regd =>
        ({ relay with meters := { relay.meters with statRegs := relay.meters.statRegs + 1 } },
          [.regd room src])
    | .challenge cookie => (relay, [.challenge room cookie src])
    | .drop _ => relay.drop src clock

/-- The clients a message goes to: every admitted one but the sender. -/
def RoomEntry.targets (entry : RoomEntry) (src : SocketAddr) : List SocketAddr :=
  entry.udpClients.entries.filterMap fun e => if e.1 ≠ src then e.2.resolvedAddr else none

def handleMsg (relay : Relay) (payload : Bytes) (src : SocketAddr) (clock : Clock) :
    Relay × List Reply :=
  match parseMsg payload with
  | .error _ => relay.drop src clock
  | .ok (room, phase, body) =>
      match relay.tables.room? room with
      | none => relay.drop src clock
      | some entry =>
          match entry.udpClients.lookup src with
          | none => relay.drop src clock
          | some info =>
              let limited := info.rateLimiter.isLimited clock.limit relay.cfg.rateWindow
                (msgRate relay.cfg)
              let info := { info with rateLimiter := limited.1 }
              let entry := { entry with udpClients := entry.udpClients.insert src info }
              let relay := { relay with tables := relay.tables.setRoom room entry }
              if limited.2 then relay.drop src clock
              else
                let targets := entry.targets src
                let statMsgs := relay.meters.statMsgs + if targets.isEmpty then 0 else 1
                ({ relay with meters := { relay.meters with statMsgs } },
                  targets.map fun t => .msgd phase body t)

def handlePacket (relay : Relay) (data : Bytes) (src : SocketAddr) (clock : Clock) (rnd : Cookie) :
    Relay × List Reply :=
  match parsePacket data with
  | .drop _ => relay.drop src clock
  | .reg room cookie => relay.handleReg room cookie src clock rnd
  | .msg payload => relay.handleMsg payload src clock

/-! ### The machine -/

/-- What the relay handles: a datagram, with the clock readings and the random cookie its handler
would draw, and the two ticks of the cleanup task. -/
inductive Event where
  | packet (data : Bytes) (src : SocketAddr) (clock : Clock) (rnd : Cookie)
  | roomTick (sweep expire : Instant) (ordered : sweep ≤ expire)
  | rateTick (now : Instant)

def rateTick (relay : Relay) (now : Instant) : Relay :=
  { relay with
    meters :=
      { relay.meters with
        regShards := fun i =>
          (relay.meters.regShards i).cleanupStale now (relay.cfg.rateWindow * 2)
        dropLogLimiter := relay.meters.dropLogLimiter.cleanupStale now (dropLogInterval * 2) } }

def step (relay : Relay) : Event → Relay × List Reply
  | .packet data src clock rnd => relay.handlePacket data src clock rnd
  | .roomTick sweep expire _ =>
      ({ relay with tables := relay.tables.roomTick relay.cfg sweep expire }, [])
  | .rateTick now => (relay.rateTick now, [])

def Event.start : Event → Instant
  | .packet _ _ clock _ => clock.limit
  | .roomTick sweep _ _ => sweep
  | .rateTick now => now

def Event.finish : Event → Instant
  | .packet _ _ clock _ => clock.log
  | .roomTick _ expire _ => expire
  | .rateTick now => now

def machine (cfg : Config) : Machine Relay Event Reply where
  init := .empty cfg
  step := step
  start := Event.start
  finish := Event.finish

end Relay

end Qvole
