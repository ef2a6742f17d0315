import Qvole.Relay.Server

/-!
# Interleaved handlers

The locking of `relay.rs`. Every mutex-protected section, and every access to an atomic counter
outside of one, is one step of the task that makes it, and the steps of different tasks interleave
freely. Room entries live on a heap and the room table holds handles to them, as
`Arc<Mutex<RoomEntry>>` does, so a task may hold the handle of an entry that a sweep has meanwhile
removed from the table. Readings of the clock are ordered within a section only.
-/

namespace Qvole.Relay

/-- An `Arc<Mutex<RoomEntry>>`. -/
abbrev Handle := Nat

structure Shared where
  shards : Fin numShards → Table Room Handle
  heap : Handle → RoomEntry
  /-- The handle the next allocation returns. -/
  fresh : Handle
  ipCounts : Links
  pendingRegs : Table (Room × SocketAddr) PendingReg
  pendingIp : Table IpAddr Nat
  pendingTotal : Nat
  totalRoomCount : Nat
  regShards : Fin numRegShards → RegShard

namespace Shared

def empty : Shared where
  shards := fun _ => ∅
  heap := fun _ => .new 0
  fresh := 0
  ipCounts := ∅
  pendingRegs := ∅
  pendingIp := ∅
  pendingTotal := 0
  totalRoomCount := 0
  regShards := fun _ => .empty

def handle? (s : Shared) (room : Room) : Option Handle :=
  (s.shards (shardIdx room numShards)).lookup room

/-- The tables with every handle followed. -/
def view (s : Shared) : Tables where
  shards := fun i => (s.shards i).mapVals fun _ handle => s.heap handle
  ipCounts := s.ipCounts
  pendingRegs := s.pendingRegs
  pendingIp := s.pendingIp
  pendingTotal := s.pendingTotal
  totalRoomCount := s.totalRoomCount

/-- Writes back what a section on the global pending store did. -/
def setPending (s : Shared) (T : Tables) : Shared :=
  { s with
    pendingRegs := T.pendingRegs
    pendingIp := T.pendingIp
    pendingTotal := T.pendingTotal }

def isRegRateLimited (s : Shared) (cfg : Config) (src : SocketAddr) (now : Instant) :
    Shared × Bool :=
  let key := (ipKey src).toText
  let i := shardIdx key numRegShards
  let limited := (s.regShards i).isLimited key now cfg.rateWindow (regRate cfg)
  ({ s with regShards := Function.update s.regShards i limited.1 }, limited.2)

/-! ### Sweeps -/

/-- The loop of `evict_stale_rooms` over the entries of a shard: the heap after it, the rooms to
remove and the IP links to drop. -/
def sweepEntries (now : Instant) (regTtl : Duration) :
    List ((_ : Room) × Handle) → (Handle → RoomEntry) →
      (Handle → RoomEntry) × List Room × List (IpAddr × Room)
  | [], heap => (heap, [], [])
  | ⟨room, handle⟩ :: rest, heap =>
      let swept := (heap handle).removeStaleClients room now regTtl
      let others := sweepEntries now regTtl rest (Function.update heap handle swept.1)
      let toRemove := if swept.1.evictable now regTtl then room :: others.2.1 else others.2.1
      (others.1, toRemove, swept.2 ++ others.2.2)

/-- One shard of a sweep, under the lock of the shard. -/
def evictShard (s : Shared) (i : Fin numShards) (now : Instant) (regTtl : Duration) :
    Shared × Nat :=
  let swept := sweepEntries now regTtl (s.shards i).entries s.heap
  let left := swept.2.1.foldl (fun rooms room => rooms.erase room) (s.shards i)
  ({ s with
    shards := Function.update s.shards i left
    heap := swept.1
    ipCounts := s.ipCounts.unlink swept.2.2 }, swept.2.1.length)

def subRooms (s : Shared) (n : Nat) : Shared :=
  if n > 0 then { s with totalRoomCount := fetchSub s.totalRoomCount n } else s

/-- One shard of `remove_stale_pending_regs`, with the IPs of the entries it evicts. -/
def evictPending (s : Shared) (i : Fin numShards) (now : Instant) : Shared × List IpAddr :=
  let evicts := fun (key : Room × SocketAddr) (p : PendingReg) =>
    shardIdx key.1 numShards = i && p.expired now
  ({ s with pendingRegs := s.pendingRegs.retain fun key p => !evicts key p },
    (s.pendingRegs.retain evicts).keys.map fun key => ipKey key.2)

/-! ### Sections of a registration -/

/-- Writes a section's result through a handle. -/
def inEntry (s : Shared) (handle : Handle) (result : RoomEntry × Links × RegAction) :
    Shared × RegAction :=
  ({ s with
    heap := Function.update s.heap handle result.1
    ipCounts := result.2.1 }, result.2.2)

def createRoom (s : Shared) (room : Room) (src resolved : SocketAddr) (clock : Clock) : Shared :=
  let i := shardIdx room numShards
  { s with
    shards := Function.update s.shards i ((s.shards i).insert room s.fresh)
    heap := Function.update s.heap s.fresh (.created src resolved clock)
    fresh := s.fresh + 1
    ipCounts := s.ipCounts.addIpRoom (ipKey src) room
    totalRoomCount := s.totalRoomCount + 1 }

def resweepIfFull (s : Shared) (cfg : Config) (room : Room) (clock : Clock) : Shared :=
  if s.totalRoomCount ≥ cfg.maxRooms then
    let swept := s.evictShard (shardIdx room numShards) clock.resweep cfg.regTtl
    swept.1.subRooms swept.2
  else s

/-- The last section of `reg_cookie_create_or_admit`. It looks the room up under the lock it writes
under. The third component is the entry it wrote to. -/
def completeReg (s : Shared) (cfg : Config) (room : Room) (src resolved : SocketAddr)
    (clock : Clock) : Shared × RegAction × Option Handle :=
  match s.handle? room with
  | none =>
      let s := s.resweepIfFull cfg room clock
      if s.totalRoomCount ≥ cfg.maxRooms then (s, .drop .maxRoomsReached, none)
      else if s.ipCounts.countIpRooms (ipKey src) ≥ cfg.maxRoomsPerIp then
        (s, .drop .roomLimitPerIp, none)
      else (s.createRoom room src resolved clock, .regd, some s.fresh)
  | some handle =>
      let result := s.inEntry handle
        ((s.heap handle).admitSection cfg room src resolved clock s.ipCounts)
      (result.1, result.2, some handle)

end Shared

/-! ### Tasks -/

/-- Where a `handle_reg` call stands: the section it makes next, with what it holds by then. -/
inductive Stage where
  | limit
  /-- Initial `REG`: the cap on the rooms of the IP. -/
  | countRooms
  | find
  | inRoom (handle : Handle)
  /-- Follow-up `REG`: the global pending store. -/
  | getPending (cookieBytes : Bytes)
  | deleteExpired
  | deleteMatched (resolved : SocketAddr)
  | totalRooms (resolved : SocketAddr)
  | evict (resolved : SocketAddr) (now : Instant) (rest : List (Fin numShards)) (total : Nat)
  | subRooms (resolved : SocketAddr) (total : Nat)
  | complete (resolved : SocketAddr)
  | findCookie (cookieBytes : Bytes)
  | inRoomCookie (handle : Handle) (cookieBytes : Bytes)
  | recountRooms
  /-- Challenge for a room that was not found: the pending cap of the IP, then the store. -/
  | countPending
  | store
  | done (action : RegAction) (handle : Option Handle)

/-- Where a room tick of the cleanup task stands. -/
inductive TickStage where
  | evict (now : Instant) (rest : List (Fin numShards)) (total : Nat)
  | subRooms (total : Nat)
  | evictPending (now : Instant) (rest : List (Fin numShards)) (evictedIps : List IpAddr)
  | subPending (evictedIps : List IpAddr)
  | removeIps (evictedIps : List IpAddr)
  | done

inductive Task where
  | reg (room : Room) (cookie : Bytes) (src : SocketAddr) (stage : Stage)
  | tick (stage : TickStage)

/-- `handle_reg` behind the rate limiter, up to its first section. -/
def Stage.dispatch (cookie : Bytes) : Stage :=
  if cookie = [] then .countRooms
  else if !isValidHex cookie ∨ cookie.length ≠ pendingCookieBytes * 2 then
    .done (.drop .invalidCookie) none
  else
    match hexDecode cookie with
    | none => .done (.drop .invalidCookieHex) none
    | some cookieBytes => .getPending cookieBytes

def Stage.advance (cfg : Config) (room : Room) (cookie : Bytes) (src : SocketAddr) (clock : Clock)
    (rnd : Cookie) (s : Shared) : Stage → Shared × Stage
  | .limit =>
      let limited := s.isRegRateLimited cfg src clock.limit
      (limited.1, if limited.2 then .done (.drop .regRateLimited) none else .dispatch cookie)
  | .countRooms =>
      (s, if s.ipCounts.countIpRooms (ipKey src) ≥ cfg.maxRoomsPerIp then
        .done (.drop .roomLimitPerIp) none else .find)
  | .find =>
      match s.handle? room with
      | none => (s, .countPending)
      | some handle => (s, .inRoom handle)
  | .inRoom handle =>
      let result := s.inEntry handle ((s.heap handle).regSection cfg room src clock rnd
        (s.view.pendingCountForIp (ipKey src)) s.ipCounts)
      (result.1, .done result.2 (some handle))
  | .getPending cookieBytes =>
      match s.pendingRegs.lookup (room, src) with
      | none => (s, .findCookie cookieBytes)
      | some pend =>
          if pend.cookie.bytes ≠ cookieBytes then (s, .done (.drop .mismatchedPending) none)
          else if pend.expired clock.elapsed then (s, .deleteExpired)
          else (s, .deleteMatched pend.resolvedAddr)
  | .deleteExpired =>
      (s.setPending (s.view.deletePendingReg room src), .done (.drop .expiredPending) none)
  | .deleteMatched resolved =>
      (s.setPending (s.view.deletePendingReg room src), .totalRooms resolved)
  | .totalRooms resolved =>
      (s, if s.totalRoomCount ≥ cfg.maxRooms then
        .evict resolved clock.sweep (List.finRange numShards) 0 else .complete resolved)
  | .evict resolved _ [] total => (s, .subRooms resolved total)
  | .evict resolved now (i :: rest) total =>
      let swept := s.evictShard i now cfg.regTtl
      (swept.1, .evict resolved now rest (total + swept.2))
  | .subRooms resolved total => (s.subRooms total, .complete resolved)
  | .complete resolved =>
      let result := s.completeReg cfg room src resolved clock
      (result.1, .done result.2.1 result.2.2)
  | .findCookie cookieBytes =>
      match s.handle? room with
      | none => (s, .recountRooms)
      | some handle => (s, .inRoomCookie handle cookieBytes)
  | .inRoomCookie handle cookieBytes =>
      let result := s.inEntry handle
        ((s.heap handle).cookieSection cfg room src cookieBytes clock s.ipCounts)
      (result.1, .done result.2 (some handle))
  | .recountRooms =>
      (s, if s.ipCounts.countIpRooms (ipKey src) ≥ cfg.maxRoomsPerIp then
        .done (.drop .roomLimitPerIp) none else .countPending)
  | .countPending =>
      (s, if s.view.pendingCountForIp (ipKey src) ≥ cfg.maxPendingPerIp then
        .done (.drop .pendingLimitPerIp) none else .store)
  | .store =>
      let stored := s.view.storePendingReg cfg room src
        { cookie := rnd, createdAt := clock.stamp, resolvedAddr := src }
      (s.setPending stored.1,
        .done (if stored.2 then .challenge rnd else .drop .pendingStoreFull) none)
  | .done action handle => (s, .done action handle)

def TickStage.advance (cfg : Config) (clock : Clock) (s : Shared) : TickStage → Shared × TickStage
  | .evict _ [] total => (s, .subRooms total)
  | .evict now (i :: rest) total =>
      let swept := s.evictShard i now cfg.regTtl
      (swept.1, .evict now rest (total + swept.2))
  | .subRooms total => (s.subRooms total, .evictPending clock.sweep (List.finRange numShards) [])
  | .evictPending _ [] evictedIps => (s, .subPending evictedIps)
  | .evictPending now (i :: rest) evictedIps =>
      let swept := s.evictPending i now
      (swept.1, .evictPending now rest (evictedIps ++ swept.2))
  | .subPending evictedIps =>
      if evictedIps.isEmpty then (s, .done)
      else ({ s with pendingTotal := fetchSub s.pendingTotal evictedIps.length },
        .removeIps evictedIps)
  | .removeIps [] => (s, .done)
  | .removeIps (ip :: rest) => ({ s with pendingIp := s.pendingIp.decr ip }, .removeIps rest)
  | .done => (s, .done)

/-! ### The machine -/

structure System where
  cfg : Config
  shared : Shared
  tasks : List Task

inductive Move where
  | reg (room : Room) (cookie : Bytes) (src : SocketAddr)
  | tick (now : Instant)
  | advance (task : Nat) (clock : Clock) (rnd : Cookie)

structure Answer where
  room : Room
  src : SocketAddr
  action : RegAction
  handle : Option Handle
  deriving DecidableEq, Repr

def Stage.answer (room : Room) (src : SocketAddr) : Stage → List Answer
  | .done action handle => [{ room, src, action, handle }]
  | _ => []

namespace System

def empty (cfg : Config) : System := { cfg, shared := .empty, tasks := [] }

def resume (system : System) (index : Nat) (shared : Shared) (task : Task) : System :=
  { system with shared, tasks := system.tasks.set index task }

def step (system : System) : Move → System × List Answer
  | .reg room cookie src =>
      ({ system with tasks := system.tasks ++ [.reg room cookie src .limit] }, [])
  | .tick now =>
      ({ system with tasks := system.tasks ++ [.tick (.evict now (List.finRange numShards) 0)] }, [])
  | .advance index clock rnd =>
      match system.tasks[index]? with
      | none => (system, [])
      | some (.reg _ _ _ (.done _ _)) => (system, [])
      | some (.reg room cookie src stage) =>
          let next := stage.advance system.cfg room cookie src clock rnd system.shared
          (system.resume index next.1 (.reg room cookie src next.2), next.2.answer room src)
      | some (.tick stage) =>
          let next := stage.advance system.cfg clock system.shared
          (system.resume index next.1 (.tick next.2), [])

def machine (cfg : Config) : Machine System Move Answer where
  init := .empty cfg
  step := step
  start := fun _ => 0
  finish := fun _ => 0

end System

end Qvole.Relay
