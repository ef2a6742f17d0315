import Qvole.Lib.Table
import Qvole.Net.Addr

/-!
# Rooms

Port of `room.rs`: room state, sharding, rate limiting, pending (pre-cookie) registrations and the
validation helpers. Instants and durations are nanoseconds. The source keys its client and pending
maps by the text of the source address; text and address determine each other, so the tables here
are keyed by the address itself and parsing a stored key back cannot fail.
-/

namespace Qvole

abbrev Instant := Nat

abbrev Duration := Nat

def fromMillis (ms : Nat) : Duration := ms * 1000000

abbrev Room := Bytes

namespace Relay

def numShards : Nat := 16
def numRegShards : Nat := 16
def maxRoomNameLen : Nat := 64
def maxDatagramLen : Nat := 1400
def pendingRegTtlMs : Nat := 5000
def pendingCookieBytes : Nat := 16
def maxRegShardEntries : Nat := 100000

def pendingRegTtl : Duration := fromMillis pendingRegTtlMs

/-- FNV-1a, 32 bits. -/
def fnv1a32 (key : Bytes) : UInt32 :=
  key.foldl (fun h b => (h ^^^ b.toUInt32) * 0x01000193) 0x811c9dc5

instance : NeZero numShards := ⟨by decide⟩

instance : NeZero numRegShards := ⟨by decide⟩

def shardIdx (key : Bytes) (n : Nat) [NeZero n] : Fin n := Fin.ofNat n (fnv1a32 key).toNat

/-- The IP a source is accounted under: IPv4 exact, mapped IPv6 as its IPv4 address, loopback exact,
other IPv6 by its /64. -/
def ipKey (src : SocketAddr) : IpAddr :=
  match src with
  | .v4 ip _ => .v4 ip
  | .v6 ip _ _ =>
      match ip.toIpv4Mapped with
      | some v4 => .v4 v4
      | none =>
          if ip.isLoopback then .v6 ip
          else .v6 { ip with s4 := 0, s5 := 0, s6 := 0, s7 := 0 }

/-! ### Validation helpers -/

def validRoomName (room : Bytes) : Bool :=
  if room.isEmpty || room.length > maxRoomNameLen then false
  else room.all fun c => 33 ≤ c && c ≤ 126

def isAsciiHexdigit (b : UInt8) : Bool :=
  (48 ≤ b && b ≤ 57) || (97 ≤ b && b ≤ 102) || (65 ≤ b && b ≤ 70)

def isValidHex (s : Bytes) : Bool :=
  if s.isEmpty || s.length % 2 != 0 then false else s.all isAsciiHexdigit

/-- Tab, LF, VT, FF, CR and space. -/
def ws : Bytes := [9, 10, 11, 12, 13, 32]

def trimAsciiSpace (b : Bytes) : Bytes :=
  let start := (b.findIdx? fun c => !ws.contains c).getD b.length
  let stop := ((Bytes.rposition (fun c => !ws.contains c) b).map (· + 1)).getD start
  (b.take stop).drop start

/-! ### Per-client state -/

structure RateLimiter where
  msgCount : Nat
  windowStart : Instant
  deriving DecidableEq, Repr

def RateLimiter.new (now : Instant) : RateLimiter := { msgCount := 0, windowStart := now }

/-- Counts one message; the answer is whether it is over the limit. -/
def RateLimiter.isLimited (limiter : RateLimiter) (now : Instant) (rateWindow : Duration)
    (maxMsgRate : Nat) : RateLimiter × Bool :=
  let limiter :=
    if now - limiter.windowStart > rateWindow then { msgCount := 0, windowStart := now } else limiter
  if limiter.msgCount ≥ maxMsgRate then (limiter, true)
  else ({ limiter with msgCount := limiter.msgCount + 1 }, false)

structure UdpClient where
  lastSeen : Instant
  rateLimiter : RateLimiter
  resolvedAddr : Option SocketAddr
  deriving DecidableEq, Repr

def UdpClient.new (resolvedAddr : Option SocketAddr) (now windowStart : Instant) : UdpClient :=
  { lastSeen := now, rateLimiter := .new windowStart, resolvedAddr }

def UdpClient.stale (info : UdpClient) (now : Instant) (regTtl : Duration) : Bool :=
  now - info.lastSeen > regTtl

structure Cookie where
  bytes : Bytes
  length_eq : bytes.length = pendingCookieBytes
  deriving DecidableEq, Repr

/-- A return-routability cookie for a client that sent `REG` but has not completed the handshake. -/
structure PendingReg where
  cookie : Cookie
  createdAt : Instant
  resolvedAddr : SocketAddr
  deriving DecidableEq, Repr

def PendingReg.expired (pend : PendingReg) (now : Instant) : Bool :=
  now - pend.createdAt > pendingRegTtl

/-! ### Room entries -/

structure RoomEntry where
  udpClients : Table SocketAddr UdpClient
  pending : Table SocketAddr PendingReg
  /-- Pending registrations per IP, kept beside `pending`. -/
  pendingByIp : Table IpAddr Nat
  t : Instant

namespace RoomEntry

def new (now : Instant) : RoomEntry := { udpClients := ∅, pending := ∅, pendingByIp := ∅, t := now }

def addPending (entry : RoomEntry) (src : SocketAddr) (p : PendingReg) (maxPerRoom : Nat) :
    RoomEntry × Bool :=
  if src ∉ entry.pending ∧ entry.pending.size ≥ maxPerRoom then (entry, false)
  else
    let pendingByIp :=
      if src ∈ entry.pending then entry.pendingByIp else entry.pendingByIp.incr (ipKey src)
    ({ entry with pending := entry.pending.insert src p, pendingByIp }, true)

def removePending (entry : RoomEntry) (src : SocketAddr) : RoomEntry :=
  if src ∈ entry.pending then
    { entry with
      pending := entry.pending.erase src
      pendingByIp := entry.pendingByIp.decr (ipKey src) }
  else entry

def pendingCountForIp (entry : RoomEntry) (ip : IpAddr) : Nat := (entry.pendingByIp.lookup ip).getD 0

/-- Some admitted client other than `addr` has the IP `ip`. -/
def otherOfIp (entry : RoomEntry) (addr : SocketAddr) (ip : IpAddr) : Bool :=
  entry.udpClients.keys.any fun other => other ≠ addr && ipKey other = ip

def staleClients (entry : RoomEntry) (now : Instant) (regTtl : Duration) : List SocketAddr :=
  (entry.udpClients.retain fun _ info => info.stale now regTtl).keys

def expiredPending (entry : RoomEntry) (now : Instant) : List SocketAddr :=
  (entry.pending.retain fun _ p => p.expired now).keys

/-- Evicts the stale clients and the expired pending registrations. The second component lists the
IP links to drop: a stale client's, unless another client of its IP is in the room. The test reads
the clients as they were before any of them is removed. -/
def removeStaleClients (entry : RoomEntry) (room : Room) (now : Instant) (regTtl : Duration) :
    RoomEntry × List (IpAddr × Room) :=
  let stale := entry.staleClients now regTtl
  let unlinked := (stale.filter fun addr => !entry.otherOfIp addr (ipKey addr)).map fun addr =>
    (ipKey addr, room)
  let udpClients := stale.foldl (fun clients addr => clients.erase addr) entry.udpClients
  let entry := { entry with udpClients }
  ((entry.expiredPending now).foldl removePending entry, unlinked)

/-- No admitted client, and not touched for longer than `regTtl`. -/
def evictable (entry : RoomEntry) (now : Instant) (regTtl : Duration) : Bool :=
  entry.udpClients.keys.isEmpty && now - entry.t > regTtl

end RoomEntry

/-- Sweeps every room of one shard and removes those left without clients and stale. The answer is
the rooms left, how many were removed, and the IP links to drop. -/
def evictStaleRooms (rooms : Table Room RoomEntry) (now : Instant) (regTtl : Duration) :
    Table Room RoomEntry × Nat × List (IpAddr × Room) :=
  let unlinkedAll := rooms.entries.flatMap fun e => (e.2.removeStaleClients e.1 now regTtl).2
  let swept := rooms.mapVals fun room entry => (entry.removeStaleClients room now regTtl).1
  let toRemove := swept.entries.filter fun e => e.2.evictable now regTtl
  (swept.retain fun _ entry => !entry.evictable now regTtl, toRemove.length, unlinkedAll)

/-! ### Limiters -/

/-- Per-source `REG` rate limiting, keyed by the text of the canonical IP. -/
structure RegShard where
  sent : Table Bytes Nat
  times : Table Bytes Instant

def RegShard.empty : RegShard := { sent := ∅, times := ∅ }

def RegShard.isLimited (shard : RegShard) (src : Bytes) (now : Instant) (rateWindow : Duration)
    (maxRate : Nat) : RegShard × Bool :=
  let restart : RegShard :=
    { sent := shard.sent.insert src 1, times := shard.times.insert src now }
  match shard.times.lookup src with
  | none => if shard.times.size ≥ maxRegShardEntries then (shard, true) else (restart, false)
  | some reset =>
      if now - reset > rateWindow then (restart, false)
      else
        let count := (shard.sent.lookup src).getD 0
        if count ≥ maxRate then ({ shard with sent := shard.sent.insert src count }, true)
        else ({ shard with sent := shard.sent.insert src (count + 1) }, false)

def RegShard.cleanupStale (shard : RegShard) (now : Instant) (maxAge : Duration) : RegShard :=
  let old := (shard.times.retain fun _ t => now - t > maxAge).keys
  let sent := old.foldl (fun sent src => sent.erase src) shard.sent
  let times := shard.times.retain fun _ t => !(now - t > maxAge)
  { sent := if sent.size > maxRegShardEntries then ∅ else sent
    times := if times.size > maxRegShardEntries then ∅ else times }

/-- Throttle of the drop log, per IP and per second. -/
structure DropLogLimiter where
  last : Table Bytes Instant
  windowStart : Instant
  windowCount : Nat
  maxEntries : Nat
  maxPerSec : Nat

def DropLogLimiter.new (now : Instant) : DropLogLimiter :=
  { last := ∅, windowStart := now, windowCount := 0, maxEntries := 100000, maxPerSec := 100 }

def DropLogLimiter.allow (limiter : DropLogLimiter) (ip : Bytes) (now : Instant)
    (interval : Duration) : DropLogLimiter × Bool :=
  let limiter :=
    if now - limiter.windowStart ≥ fromMillis 1000 then
      { limiter with windowStart := now, windowCount := 0 }
    else limiter
  if limiter.windowCount ≥ limiter.maxPerSec then (limiter, false)
  else if (limiter.last.lookup ip).any fun last => now - last < interval then (limiter, false)
  else if ip ∉ limiter.last ∧ limiter.last.size ≥ limiter.maxEntries then (limiter, false)
  else
    ({ limiter with last := limiter.last.insert ip now, windowCount := limiter.windowCount + 1 },
      true)

def DropLogLimiter.cleanupStale (limiter : DropLogLimiter) (now : Instant) (maxAge : Duration) :
    DropLogLimiter :=
  { limiter with last := limiter.last.retain fun _ last => now - last ≤ maxAge }

end Relay

end Qvole
