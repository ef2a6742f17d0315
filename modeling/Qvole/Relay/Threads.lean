import Qvole.Lib.Threads
import Qvole.Relay.Server

/-!
# Handlers as threads

`relay.rs` lock by lock. The operations are what a handler does to shared memory in one go: taking
and dropping the guard of a mutex, one access to an atomic counter, or a short section on a map that
is never locked together with another one of its kind. A guard hands out the value behind its mutex,
and what the handler has made of it is written back when the guard is dropped; nobody else sees it in
between. Handlers are programs over these operations, with the guards dropped where the source drops
them. Clock readings and random cookies come from outside. Statistics, the drop log and the sending
of replies are left out.
-/

namespace Qvole.Relay.Threads

structure Mutex (α : Type) where
  value : α
  locked : Bool

def Mutex.new {α : Type} (value : α) : Mutex α := { value, locked := false }

/-- An `Arc<Mutex<RoomEntry>>`: the place of the entry on the heap. -/
abbrev Handle := Nat

abbrev Rooms := Table Room Handle

/-- One shard of the global pending store. -/
abbrev PendingRegs := Table (Room × SocketAddr) PendingReg

structure Globals where
  shards : Fin numShards → Mutex Rooms
  heap : List (Mutex RoomEntry)
  ipCounts : Links
  pendingShards : Fin numShards → Mutex PendingRegs
  pendingIp : Table IpAddr Nat
  pendingTotal : Nat
  totalRoomCount : Nat
  regShards : Fin numRegShards → RegShard

def Globals.empty : Globals where
  shards := fun _ => .new ∅
  heap := []
  ipCounts := ∅
  pendingShards := fun _ => .new ∅
  pendingIp := ∅
  pendingTotal := 0
  totalRoomCount := 0
  regShards := fun _ => .empty

/-! ### Operations -/

inductive Op where
  | now
  | randomCookie
  | isLimited (src : SocketAddr) (now : Instant) (rateWindow : Duration) (maxRate : Nat)
  | cleanupStale (i : Fin numRegShards) (now : Instant) (maxAge : Duration)
  | lockShard (i : Fin numShards)
  | unlockShard (i : Fin numShards) (rooms : Rooms)
  | newEntry (entry : RoomEntry)
  | lockEntry (handle : Handle)
  | unlockEntry (handle : Handle) (entry : RoomEntry)
  | lockPending (i : Fin numShards)
  | unlockPending (i : Fin numShards) (regs : PendingRegs)
  | countIpRooms (ip : IpAddr)
  | addIpRoom (ip : IpAddr) (room : Room)
  | removeIpRoom (ip : IpAddr) (room : Room)
  | pendingCountForIp (ip : IpAddr)
  | addPendingIp (ip : IpAddr)
  | removePendingIp (ip : IpAddr)
  | loadPendingTotal
  | addPendingTotal
  | subPendingTotal (n : Nat)
  | loadRoomCount
  | addRoomCount
  | subRoomCount (n : Nat)

def Op.Ret : Op → Type
  | now => Instant
  | randomCookie => Cookie
  | isLimited _ _ _ _ => Bool
  | lockShard _ => Rooms
  | newEntry _ => Handle
  | lockEntry _ => RoomEntry
  | lockPending _ => PendingRegs
  | countIpRooms _ => Nat
  | pendingCountForIp _ => Nat
  | loadPendingTotal => Nat
  | loadRoomCount => Nat
  | _ => Unit

/-- What comes from outside in one step. -/
structure Input where
  now : Instant
  cookie : Cookie

namespace Globals

def entry? (s : Globals) (handle : Handle) : Option (Mutex RoomEntry) := s.heap[handle]?

def setShard (s : Globals) (i : Fin numShards) (cell : Mutex Rooms) : Globals :=
  { s with shards := Function.update s.shards i cell }

def setPending (s : Globals) (i : Fin numShards) (cell : Mutex PendingRegs) : Globals :=
  { s with pendingShards := Function.update s.pendingShards i cell }

def setEntry (s : Globals) (handle : Handle) (cell : Mutex RoomEntry) : Globals :=
  { s with heap := s.heap.set handle cell }

/-- Only taking a guard has to wait. -/
def ready (o : Op) (s : Globals) : Bool :=
  match o with
  | .lockShard i => !(s.shards i).locked
  | .lockEntry handle => (s.entry? handle).any fun cell => !cell.locked
  | .lockPending i => !(s.pendingShards i).locked
  | _ => true

def isLimited (s : Globals) (src : SocketAddr) (now : Instant) (rateWindow : Duration)
    (maxRate : Nat) : Globals × Bool :=
  let key := (ipKey src).toText
  let i := shardIdx key numRegShards
  let limited := (s.regShards i).isLimited key now rateWindow maxRate
  ({ s with regShards := Function.update s.regShards i limited.1 }, limited.2)

def exec : (o : Op) → Input → Globals → Globals × o.Ret
  | .now, input, s => (s, input.now)
  | .randomCookie, input, s => (s, input.cookie)
  | .isLimited src now rateWindow maxRate, _, s => s.isLimited src now rateWindow maxRate
  | .cleanupStale i now maxAge, _, s =>
      ({ s with
        regShards := Function.update s.regShards i ((s.regShards i).cleanupStale now maxAge) }, ())
  | .lockShard i, _, s =>
      (s.setShard i { s.shards i with locked := true }, (s.shards i).value)
  | .unlockShard i rooms, _, s => (s.setShard i (.new rooms), ())
  | .newEntry entry, _, s => ({ s with heap := s.heap ++ [.new entry] }, s.heap.length)
  | .lockEntry handle, _, s =>
      match s.entry? handle with
      | none => (s, .new 0)
      | some cell => (s.setEntry handle { cell with locked := true }, cell.value)
  | .unlockEntry handle entry, _, s => (s.setEntry handle (.new entry), ())
  | .lockPending i, _, s =>
      (s.setPending i { s.pendingShards i with locked := true }, (s.pendingShards i).value)
  | .unlockPending i regs, _, s => (s.setPending i (.new regs), ())
  | .countIpRooms ip, _, s => (s, s.ipCounts.countIpRooms ip)
  | .addIpRoom ip room, _, s => ({ s with ipCounts := s.ipCounts.addIpRoom ip room }, ())
  | .removeIpRoom ip room, _, s => ({ s with ipCounts := s.ipCounts.removeIpRoom ip room }, ())
  | .pendingCountForIp ip, _, s => (s, (s.pendingIp.lookup ip).getD 0)
  | .addPendingIp ip, _, s => ({ s with pendingIp := s.pendingIp.incr ip }, ())
  | .removePendingIp ip, _, s => ({ s with pendingIp := s.pendingIp.decr ip }, ())
  | .loadPendingTotal, _, s => (s, s.pendingTotal)
  | .addPendingTotal, _, s => ({ s with pendingTotal := s.pendingTotal + 1 }, ())
  | .subPendingTotal n, _, s => ({ s with pendingTotal := fetchSub s.pendingTotal n }, ())
  | .loadRoomCount, _, s => (s, s.totalRoomCount)
  | .addRoomCount, _, s => ({ s with totalRoomCount := s.totalRoomCount + 1 }, ())
  | .subRoomCount n, _, s => ({ s with totalRoomCount := fetchSub s.totalRoomCount n }, ())

end Globals

def memory : Memory Op Op.Ret Globals Input where
  ready := Globals.ready
  exec := Globals.exec

abbrev Code := Prog Op Op.Ret

def perform (o : Op) : Code o.Ret := Prog.perform o

def now : Code Instant := perform .now
def randomCookie : Code Cookie := perform .randomCookie
def lockShard (i : Fin numShards) : Code Rooms := perform (.lockShard i)
def unlockShard (i : Fin numShards) (rooms : Rooms) : Code Unit := perform (.unlockShard i rooms)
def newEntry (entry : RoomEntry) : Code Handle := perform (.newEntry entry)
def lockEntry (handle : Handle) : Code RoomEntry := perform (.lockEntry handle)
def unlockEntry (handle : Handle) (entry : RoomEntry) : Code Unit :=
  perform (.unlockEntry handle entry)
def lockPending (i : Fin numShards) : Code PendingRegs := perform (.lockPending i)
def unlockPending (i : Fin numShards) (regs : PendingRegs) : Code Unit :=
  perform (.unlockPending i regs)
def countIpRooms (ip : IpAddr) : Code Nat := perform (.countIpRooms ip)
def addIpRoom (ip : IpAddr) (room : Room) : Code Unit := perform (.addIpRoom ip room)
def removeIpRoom (ip : IpAddr) (room : Room) : Code Unit := perform (.removeIpRoom ip room)
def pendingCountForIp (ip : IpAddr) : Code Nat := perform (.pendingCountForIp ip)
def addPendingIp (ip : IpAddr) : Code Unit := perform (.addPendingIp ip)
def removePendingIp (ip : IpAddr) : Code Unit := perform (.removePendingIp ip)
def loadPendingTotal : Code Nat := perform .loadPendingTotal
def addPendingTotal : Code Unit := perform .addPendingTotal
def subPendingTotal (n : Nat) : Code Unit := perform (.subPendingTotal n)
def totalRooms : Code Nat := perform .loadRoomCount
def addRoomCount : Code Unit := perform .addRoomCount
def subRoomCount (n : Nat) : Code Unit := perform (.subRoomCount n)

def isRegRateLimited (cfg : Config) (src : SocketAddr) : Code Bool := do
  let t ← now
  perform (.isLimited src t cfg.rateWindow (regRate cfg))

/-! ### Global pending store -/

def getPendingReg (room : Room) (src : SocketAddr) : Code (Option PendingReg) := do
  let regs ← lockPending (shardIdx room numShards)
  unlockPending (shardIdx room numShards) regs
  return regs.lookup (room, src)

def storePendingReg (cfg : Config) (room : Room) (src : SocketAddr) (p : PendingReg) :
    Code Bool := do
  let regs ← lockPending (shardIdx room numShards)
  if (room, src) ∈ regs then
    unlockPending (shardIdx room numShards) (regs.insert (room, src) p)
    return true
  else
    let total ← loadPendingTotal
    if total ≥ cfg.maxPendingGlobal then
      unlockPending (shardIdx room numShards) regs
      return false
    else
      addPendingTotal
      addPendingIp (ipKey src)
      unlockPending (shardIdx room numShards) (regs.insert (room, src) p)
      return true

def deletePendingReg (room : Room) (src : SocketAddr) : Code Unit := do
  let regs ← lockPending (shardIdx room numShards)
  if (room, src) ∈ regs then
    subPendingTotal 1
    removePendingIp (ipKey src)
    unlockPending (shardIdx room numShards) (regs.erase (room, src))
  else unlockPending (shardIdx room numShards) regs

/-- The shards of `remove_stale_pending_regs`, with the IPs of what they lose. -/
def evictPending (t : Instant) : List (Fin numShards) → Code (List IpAddr)
  | [] => return []
  | i :: rest => do
      let regs ← lockPending i
      unlockPending i (regs.retain fun _ p => !p.expired t)
      let others ← evictPending t rest
      return (regs.retain fun _ p => p.expired t).keys.map (fun key => ipKey key.2) ++ others

def removePendingIps : List IpAddr → Code Unit
  | [] => return ()
  | ip :: rest => do
      removePendingIp ip
      removePendingIps rest

def removeStalePendingRegs (t : Instant) : Code Unit := do
  let evictedIps ← evictPending t (List.finRange numShards)
  if evictedIps.isEmpty then return ()
  else
    subPendingTotal evictedIps.length
    removePendingIps evictedIps

/-! ### Room sweeps -/

def removeIpRooms : List (IpAddr × Room) → Code Unit
  | [] => return ()
  | (ip, room) :: rest => do
      removeIpRoom ip room
      removeIpRooms rest

/-- The entries of a shard, one guard at a time: the rooms to remove and the links to drop. -/
def sweepEntries (t : Instant) (regTtl : Duration) :
    List ((_ : Room) × Handle) → Code (List Room × List (IpAddr × Room))
  | [] => return ([], [])
  | ⟨room, handle⟩ :: rest => do
      let entry ← lockEntry handle
      let swept := entry.removeStaleClients room t regTtl
      unlockEntry handle swept.1
      let others ← sweepEntries t regTtl rest
      return (if swept.1.evictable t regTtl then room :: others.1 else others.1,
        swept.2 ++ others.2)

/-- The rooms left, how many were removed, and the links to drop. -/
def evictStaleRooms (rooms : Rooms) (t : Instant) (regTtl : Duration) :
    Code (Rooms × Nat × List (IpAddr × Room)) := do
  let (toRemove, unlinked) ← sweepEntries t regTtl rooms.entries
  return (toRemove.foldl (fun rooms room => rooms.erase room) rooms, toRemove.length, unlinked)

def evictShards (t : Instant) (regTtl : Duration) : List (Fin numShards) → Nat → Code Nat
  | [], total => return total
  | i :: rest, total => do
      let rooms ← lockShard i
      let (left, n, unlinked) ← evictStaleRooms rooms t regTtl
      removeIpRooms unlinked
      unlockShard i left
      evictShards t regTtl rest (total + n)

/-- Subtracts when there is something to subtract. -/
def subRooms (n : Nat) : Code Unit := if n > 0 then subRoomCount n else return ()

def evictStaleRoomsAll (t : Instant) (regTtl : Duration) : Code Unit := do
  let total ← evictShards t regTtl (List.finRange numShards) 0
  subRooms total

/-- At the room cap, sweeps all shards before the cap is checked again. -/
def sweepIfFull (cfg : Config) : Code Unit := do
  let total ← totalRooms
  if total ≥ cfg.maxRooms then
    let t ← now
    evictStaleRoomsAll t cfg.regTtl
  else return ()

/-- Still at the cap, sweeps the rooms of one shard under its guard. -/
def resweepIfFull (cfg : Config) (rooms : Rooms) : Code Rooms := do
  let total ← totalRooms
  if total ≥ cfg.maxRooms then
    let t ← now
    let (left, n, unlinked) ← evictStaleRooms rooms t cfg.regTtl
    subRooms n
    removeIpRooms unlinked
    return left
  else return rooms

/-! ### Registration -/

/-- Puts `src` among the clients, with the readings for its own times and for the room's. -/
def addClient (entry : RoomEntry) (src resolved : SocketAddr) : Code RoomEntry := do
  let lastSeen ← now
  let windowStart ← now
  let touched ← now
  return { entry with
    udpClients := entry.udpClients.insert src (.new (some resolved) lastSeen windowStart)
    t := touched }

/-- The cap on the rooms of an IP, which does not apply to one that is linked `already`. -/
def ipCapped (cfg : Config) (ip : IpAddr) (already : Bool) : Code Bool :=
  if already then return false
  else do
    let linked ← countIpRooms ip
    return linked ≥ cfg.maxRoomsPerIp

def linkIp (ip : IpAddr) (room : Room) (already : Bool) : Code Unit :=
  if already then return () else addIpRoom ip room

/-- `remove_stale_clients` under the guard of the entry, and the links it reports. -/
def sweepEntry (cfg : Config) (room : Room) (entry : RoomEntry) : Code RoomEntry := do
  let t ← now
  let swept := entry.removeStaleClients room t cfg.regTtl
  removeIpRooms swept.2
  return swept.1

/-- The room of a completed cookie is missing. The guard of its shard is held by the caller; the rooms
are as the caller has to write them back. -/
def createRoom (cfg : Config) (rooms : Rooms) (room : Room) (src resolved : SocketAddr) :
    Code (Rooms × RegAction) := do
  let rooms ← resweepIfFull cfg rooms
  let total ← totalRooms
  if total ≥ cfg.maxRooms then return (rooms, .drop .maxRoomsReached)
  else
    let linked ← countIpRooms (ipKey src)
    if linked ≥ cfg.maxRoomsPerIp then return (rooms, .drop .roomLimitPerIp)
    else
      let created ← now
      let entry ← addClient (.new created) src resolved
      let handle ← newEntry entry
      addRoomCount
      addIpRoom (ipKey src) room
      return (rooms.insert room handle, .regd)

/-- Completion of a cookie in a room that exists, under the guard of its entry. -/
def admitInRoom (cfg : Config) (room : Room) (src resolved : SocketAddr) (entry : RoomEntry) :
    Code (RoomEntry × RegAction) := do
  let entry ← sweepEntry cfg room entry
  let ipAlready := entry.ofIp (ipKey src)
  if entry.udpClients.size ≥ cfg.maxClientsHard ∧ src ∉ entry.udpClients then
    return (entry, .drop .hardCap)
  else
    let capped ← ipCapped cfg (ipKey src) ipAlready
    if capped then return (entry, .drop .roomLimitPerIp)
    else if src ∉ entry.udpClients ∧
        entry.countPrefixClients (ipKey src) ≥ cfg.maxClientsPerPrefixPerRoom then
      return (entry, .drop .prefixCap)
    else
      let entry ← addClient entry src resolved
      linkIp (ipKey src) room ipAlready
      return (entry, .regd)

def regCookieCreateOrAdmit (cfg : Config) (room : Room) (src resolved : SocketAddr) :
    Code RegAction := do
  sweepIfFull cfg
  let rooms ← lockShard (shardIdx room numShards)
  match rooms.lookup room with
  | none =>
      let (rooms, action) ← createRoom cfg rooms room src resolved
      unlockShard (shardIdx room numShards) rooms
      return action
  | some handle =>
      let entry ← lockEntry handle
      let (entry, action) ← admitInRoom cfg room src resolved entry
      unlockEntry handle entry
      unlockShard (shardIdx room numShards) rooms
      return action

/-- A challenge for a room that was not found. -/
def challengeUnknown (cfg : Config) (room : Room) (src : SocketAddr) : Code RegAction := do
  let waiting ← pendingCountForIp (ipKey src)
  if waiting ≥ cfg.maxPendingPerIp then return .drop .pendingLimitPerIp
  else
    let cookie ← randomCookie
    let t ← now
    let stored ← storePendingReg cfg room src { cookie, createdAt := t, resolvedAddr := src }
    return if stored then .challenge cookie else .drop .pendingStoreFull

/-- The lookup that every registration begins with. The guard is dropped before the entry is used. -/
def findRoom (room : Room) : Code (Option Handle) := do
  let rooms ← lockShard (shardIdx room numShards)
  unlockShard (shardIdx room numShards) rooms
  return rooms.lookup room

/-- A `REG` with a cookie in a room that exists, under the guard of its entry. -/
def cookieInRoom (cfg : Config) (room : Room) (src : SocketAddr) (cookieBytes : Bytes)
    (entry : RoomEntry) : Code (RoomEntry × RegAction) :=
  match entry.pending.lookup src with
  | none => return (entry, .drop .mismatchedInRoom)
  | some pend =>
      if pend.cookie.bytes ≠ cookieBytes then return (entry, .drop .mismatchedInRoom)
      else do
        let t ← now
        if pend.expired t then return (entry.removePending src, .drop .expiredInRoom)
        else
          let entry ← sweepEntry cfg room entry
          let isNew : Bool := src ∉ entry.udpClients
          let capped ← ipCapped cfg (ipKey src) (!isNew || entry.ofIp (ipKey src))
          if entry.udpClients.size ≥ cfg.maxClientsHard ∧ isNew then
            return (entry, .drop .hardCap)
          else if capped then return (entry, .drop .roomLimitPerIp)
          else if isNew ∧
              entry.countPrefixClients (ipKey src) ≥ cfg.maxClientsPerPrefixPerRoom then
            return (entry, .drop .prefixCap)
          else
            let entry ← addClient (entry.removePending src) src pend.resolvedAddr
            linkIp (ipKey src) room (entry.otherOfIp src (ipKey src))
            return (entry, .regd)

/-- A `REG` without a cookie in a room that exists, under the guard of its entry. -/
def regInRoom (cfg : Config) (room : Room) (src : SocketAddr) (entry : RoomEntry) :
    Code (RoomEntry × RegAction) := do
  let entry ← sweepEntry cfg room entry
  if entry.udpClients.size ≥ cfg.maxClientsHard ∧ src ∉ entry.udpClients then
    return (entry, .drop .hardCap)
  else
    match entry.udpClients.lookup src with
    | some info =>
        let t ← now
        let info := { info with lastSeen := t, resolvedAddr := some src }
        return ({ entry with udpClients := entry.udpClients.insert src info }, .regd)
    | none =>
        match entry.pending.lookup src with
        | some pend =>
            let t ← now
            let again := { pend with createdAt := t, resolvedAddr := src }
            return ({ entry with pending := entry.pending.insert src again },
              .challenge pend.cookie)
        | none =>
            let waiting ← pendingCountForIp (ipKey src)
            if waiting + entry.pendingCountForIp (ipKey src) ≥ cfg.maxPendingPerIp then
              return (entry, .drop .pendingLimitPerIp)
            else
              let cookie ← randomCookie
              let t ← now
              let added := entry.addPending src { cookie, createdAt := t, resolvedAddr := src }
                cfg.maxPendingPerRoom
              return (added.1, if added.2 then .challenge cookie else .drop .pendingRoomFull)

/-- A section on an entry found earlier: the guard of the shard is held, its rooms are not used. -/
def inRoom (room : Room) (handle : Handle)
    (body : RoomEntry → Code (RoomEntry × RegAction)) : Code RegAction := do
  let rooms ← lockShard (shardIdx room numShards)
  let entry ← lockEntry handle
  let (entry, action) ← body entry
  unlockEntry handle entry
  unlockShard (shardIdx room numShards) rooms
  return action

def regWithCookie (cfg : Config) (room : Room) (cookieBytes : Bytes) (src : SocketAddr) :
    Code RegAction := do
  match ← getPendingReg room src with
  | some pend =>
      if pend.cookie.bytes ≠ cookieBytes then return .drop .mismatchedPending
      else
        let t ← now
        if pend.expired t then
          deletePendingReg room src
          return .drop .expiredPending
        else
          deletePendingReg room src
          regCookieCreateOrAdmit cfg room src pend.resolvedAddr
  | none =>
      match ← findRoom room with
      | none =>
          let linked ← countIpRooms (ipKey src)
          if linked ≥ cfg.maxRoomsPerIp then return .drop .roomLimitPerIp
          else challengeUnknown cfg room src
      | some handle => inRoom room handle (cookieInRoom cfg room src cookieBytes)

def regInitial (cfg : Config) (room : Room) (src : SocketAddr) : Code RegAction := do
  let linked ← countIpRooms (ipKey src)
  if linked ≥ cfg.maxRoomsPerIp then return .drop .roomLimitPerIp
  else
    match ← findRoom room with
    | none => challengeUnknown cfg room src
    | some handle => inRoom room handle (regInRoom cfg room src)

def handleReg (cfg : Config) (room : Room) (cookie : Bytes) (src : SocketAddr) :
    Code RegAction := do
  let limited ← isRegRateLimited cfg src
  if limited then return .drop .regRateLimited
  else if cookie = [] then regInitial cfg room src
  else if !isValidHex cookie ∨ cookie.length ≠ pendingCookieBytes * 2 then
    return .drop .invalidCookie
  else
    match hexDecode cookie with
    | none => return .drop .invalidCookieHex
    | some cookieBytes => regWithCookie cfg room cookieBytes src

/-! ### Messages and ticks -/

/-- The targets of a message, read under the guard of the entry alone. -/
def handleMsg (cfg : Config) (payload : Bytes) (src : SocketAddr) : Code (List Reply) :=
  match parseMsg payload with
  | .error _ => return []
  | .ok (room, phase, body) => do
      match ← findRoom room with
      | none => return []
      | some handle =>
          let entry ← lockEntry handle
          match entry.udpClients.lookup src with
          | none =>
              unlockEntry handle entry
              return []
          | some info =>
              let t ← now
              let limited := info.rateLimiter.isLimited t cfg.rateWindow (msgRate cfg)
              let info := { info with rateLimiter := limited.1 }
              let entry := { entry with udpClients := entry.udpClients.insert src info }
              unlockEntry handle entry
              return if limited.2 then [] else
                (entry.targets src).map fun target => .msgd phase body target

def handlePacket (cfg : Config) (data : Bytes) (src : SocketAddr) : Code (List Reply) :=
  match parsePacket data with
  | .drop _ => return []
  | .reg room cookie => do
      let action ← handleReg cfg room cookie src
      return RegAction.replies room src action
  | .msg payload => handleMsg cfg payload src

def roomTick (cfg : Config) : Code Unit := do
  let t ← now
  evictStaleRoomsAll t cfg.regTtl
  let t ← now
  removeStalePendingRegs t

def cleanupRegShards (maxAge : Duration) : List (Fin numRegShards) → Code Unit
  | [] => return ()
  | i :: rest => do
      let t ← now
      perform (.cleanupStale i t maxAge)
      cleanupRegShards maxAge rest

/-- The rate tick of the cleanup task, without the drop log. -/
def rateTick (cfg : Config) : Code Unit :=
  cleanupRegShards (cfg.rateWindow * 2) (List.finRange numRegShards)

inductive Job where
  | packet (data : Bytes) (src : SocketAddr)
  | roomTick
  | rateTick

/-- What a handler sends. -/
def code (cfg : Config) : Job → Code (List Reply)
  | .packet data src => handlePacket cfg data src
  | .roomTick => do
      roomTick cfg
      return []
  | .rateTick => do
      rateTick cfg
      return []

/-- Any number of handlers and ticks, in any order of their steps. -/
def machine (cfg : Config) :
    Machine (Pool Op Op.Ret Globals (List Reply)) (Schedule Job Input) Op :=
  memory.machine .empty (code cfg)

end Qvole.Relay.Threads
