import Qvole.Relay.Proof.Caps
import Qvole.Relay.Proof.Holds
import Qvole.Relay.Proof.Limits
import Qvole.Relay.Proof.Waiting

/-!
# A silent relay forgets

What the relay keeps carries the time it was last written, and no packet writes a time later than
its own. So when every packet was handled by `last`, a tick of the cleanup task that comes later than
`last` by the time limits finds everything stale, whatever happened before, and nothing comes back
after it. The IP links are not among what goes: of two clients of one IP that go stale in the same
sweep neither takes the link with it.
-/

namespace Qvole.Relay

variable {cfg : Config} {room : Room} {cookie : Bytes} {src resolved : SocketAddr} {clock : Clock}
  {rnd : Cookie} {entry : RoomEntry} {links : Links} {T : Tables} {last now : Instant}

theorem stale_of_le {t ttl : Nat} (ht : t ≤ last) (hnow : last + ttl < now) : ttl < now - t := by
  have hsum : ttl + t ≤ last + ttl := by
    rw [Nat.add_comm ttl t]
    exact Nat.add_le_add_right ht ttl
  exact Nat.lt_sub_of_add_lt (hsum.trans_lt hnow)

/-! ### The times in the tables -/

theorem RoomEntry.sweep_t {regTtl : Duration} :
    (entry.sweep links room now regTtl).1.t = entry.t := by
  change (entry.removeStaleClients room now regTtl).1.t = entry.t
  exact RoomEntry.removeStaleClients_t

theorem SectionStep.t_cases {due : Prop} {result : RoomEntry × Links × RegAction}
    (hstep : SectionStep cfg room cookie src clock rnd due entry links result) :
    result.1.t = entry.t ∨ result.1.t = clock.touch := by
  cases hstep with
  | rejected => exact Or.inl rfl
  | expired => exact Or.inl (RoomEntry.removePending_t entry src)
  | swept _ _ hswept =>
      have hkept : (entry.sweep links room clock.sweep cfg.regTtl).1.t = entry.t :=
        RoomEntry.sweep_t
      cases hswept with
      | full => exact Or.inl hkept
      | refreshed => exact Or.inl hkept
      | reissued => exact Or.inl hkept
      | added =>
          refine Or.inl ?_
          rw [← hkept]
          unfold RoomEntry.addPending
          split <;> rfl
      | completed => exact Or.inr rfl

theorem AdmitStep.t_cases {result : RoomEntry × Links × RegAction}
    (hstep : AdmitStep cfg room src resolved clock entry links result) :
    result.1.t = entry.t ∨ result.1.t = clock.touch := by
  cases hstep with
  | full => exact Or.inl rfl
  | admitted => exact Or.inr rfl

namespace Tables

/-- No room was touched later than `last`. -/
def TouchedBy (last : Instant) (T : Tables) : Prop :=
  ∀ room entry, T.room? room = some entry → entry.t ≤ last

theorem TouchedBy.congr {T' : Tables} (h : T.TouchedBy last) (hsame : SameRooms T T') :
    T'.TouchedBy last :=
  fun room entry hroom => h room entry (hsame.room? room ▸ hroom)

theorem TouchedBy.setRoom (h : T.TouchedBy last) (hentry : entry.t ≤ last) :
    (T.setRoom room entry).TouchedBy last := by
  intro room' after hafter
  rw [room?_setRoom] at hafter
  split at hafter
  · cases hafter
    exact hentry
  · exact h room' after hafter

theorem TouchedBy.evictShard (h : T.TouchedBy last) (i : Fin numShards) (now : Instant)
    (regTtl : Duration) : (T.evictShard i now regTtl).1.TouchedBy last := by
  intro room after hafter
  rcases room?_evictShard_cases hafter with ⟨hold, -⟩ | ⟨entry, hentry, rfl⟩
  · exact h room after hold
  · rw [RoomEntry.removeStaleClients_t]
    exact h room entry hentry

theorem TouchedBy.subRooms (h : T.TouchedBy last) (n : Nat) : (T.subRooms n).TouchedBy last := by
  intro room entry hentry
  rw [room?_subRooms] at hentry
  exact h room entry hentry

theorem TouchedBy.evictStaleRoomsAll (h : T.TouchedBy last) (now : Instant) (regTtl : Duration) :
    (T.evictStaleRoomsAll now regTtl).TouchedBy last :=
  TouchedBy.subRooms
    (evictShards_induct (fun _ i hT => hT.evictShard i now regTtl) (List.finRange numShards) h) _

theorem TouchedBy.regStep (h : T.TouchedBy last) (hlast : clock.touch ≤ last)
    {result : Tables × RegAction} (hstep : RegStep cfg room cookie src clock rnd T result) :
    result.1.TouchedBy last := by
  have hdelete := h.congr (sameRooms_deletePendingReg T room src)
  cases hstep with
  | rejected => exact h
  | expired => exact hdelete
  | stored => exact h.congr (sameRooms_storePendingReg T cfg room src _)
  | inRoom entry result _ hroom hsection =>
      refine h.setRoom ?_
      rcases hsection.t_cases with ht | ht
      · exact ht ▸ h room entry hroom
      · exact ht ▸ hlast
  | completing pend result _ _ hcomplete =>
      have hswept : ((T.deletePendingReg room src).sweepIfFull cfg clock).TouchedBy last := by
        unfold Tables.sweepIfFull
        split
        · exact hdelete.evictStaleRoomsAll _ _
        · exact hdelete
      have hresweep : (((T.deletePendingReg room src).sweepIfFull cfg clock).resweepIfFull cfg room
          clock).TouchedBy last := by
        unfold Tables.resweepIfFull
        split
        · exact (hswept.evictShard _ _ _).subRooms _
        · exact hswept
      cases hcomplete with
      | refused => exact hresweep
      | created => exact hresweep.setRoom hlast
      | inRoom entry result hentry hadmitted =>
          refine hswept.setRoom ?_
          rcases hadmitted.t_cases with ht | ht
          · rw [ht, RoomEntry.sweep_t]
            exact hswept room entry hentry
          · exact ht ▸ hlast

/-- No time in the tables is later than `last`. -/
structure WrittenBy (last : Instant) (T : Tables) : Prop where
  holds : T.Holds (fun _ _ pend => pend.createdAt ≤ last) (fun _ _ pend => pend.createdAt ≤ last)
    (fun _ _ info => info.lastSeen ≤ last)
  touched : T.TouchedBy last

theorem writtenBy_empty (last : Instant) : Tables.empty.WrittenBy last :=
  ⟨holds_empty, fun room entry hroom => by cases hroom⟩

theorem WrittenBy.regStep (h : T.WrittenBy last) (hlast : clock.log ≤ last)
    {result : Tables × RegAction} (hstep : RegStep cfg room cookie src clock rnd T result) :
    result.1.WrittenBy last := by
  have htouch : clock.touch ≤ last := clock.touch_le.trans hlast
  have hstamp : clock.stamp ≤ last := clock.stamp_le.trans (clock.window_le.trans htouch)
  refine ⟨h.holds.regStep ?_ ?_ ?_ ?_ hstep, h.touched.regStep htouch hstep⟩
  · exact fun _ _ => hstamp
  · exact fun _ _ => hstamp
  · exact fun _ _ => hstamp
  · exact fun _ _ _ => hstamp

theorem WrittenBy.metered (h : T.WrittenBy last) {info : UdpClient}
    (hroom : T.room? room = some entry) (hinfo : entry.udpClients.lookup src = some info)
    (rateLimiter : RateLimiter) :
    (T.setRoom room (entry.metered src info rateLimiter)).WrittenBy last := by
  have hentry := h.holds.rooms room entry hroom
  have hseen : ({ info with rateLimiter } : UdpClient).lastSeen ≤ last :=
    hentry.clients src info hinfo
  have hmetered : (entry.metered src info rateLimiter).Holds (fun _ pend => pend.createdAt ≤ last)
      (fun _ info => info.lastSeen ≤ last) :=
    hentry.insertClient hseen entry.t
  exact ⟨h.holds.setRoom hmetered, h.touched.setRoom (h.touched room entry hroom)⟩

theorem WrittenBy.roomTick (h : T.WrittenBy last) (cfg : Config) (sweep expire : Instant) :
    (T.roomTick cfg sweep expire).WrittenBy last :=
  ⟨h.holds.roomTick cfg sweep expire,
    (h.touched.evictStaleRoomsAll sweep cfg.regTtl).congr (sameRooms_removeStalePendingRegs _ _)⟩

/-! ### The late room tick -/

/-- Nothing is kept, and the counters show it. -/
structure Forgotten (T : Tables) : Prop where
  shards : ∀ i, T.shards i = ∅
  pendingRegs : T.pendingRegs = ∅
  pendingIp : T.pendingIp = ∅
  pendingTotal : T.pendingTotal = 0
  totalRoomCount : T.totalRoomCount = 0

theorem WrittenBy.room?_roomTick (h : T.WrittenBy last) {sweep : Instant}
    (hsweep : last + cfg.regTtl < sweep) (expire : Instant) (room : Room) :
    (T.roomTick cfg sweep expire).room? room = none := by
  unfold Tables.roomTick
  rw [(sameRooms_removeStalePendingRegs _ expire).room?, room?_evictStaleRoomsAll]
  cases hroom : T.room? room with
  | none => rfl
  | some entry =>
      have hdoomed : entry.Doomed sweep cfg.regTtl := by
        refine ⟨fun src info hinfo => ?_, stale_of_le (h.touched room entry hroom) hsweep⟩
        have hseen := (h.holds.rooms room entry hroom).clients src info hinfo
        exact decide_eq_true (stale_of_le hseen hsweep)
      rw [Option.bind_some, sweptRoom, if_pos (RoomEntry.evictable_iff_doomed.mpr hdoomed)]

theorem pendingRegs_removeStalePendingRegs (T : Tables) (now : Instant) :
    (T.removeStalePendingRegs now).pendingRegs =
      T.pendingRegs.retain fun _ p => !p.expired now := by
  unfold Tables.removeStalePendingRegs
  simp only
  split <;> rfl

theorem WrittenBy.getPendingReg_roomTick (h : T.WrittenBy last) {expire : Instant}
    (hexpire : last + pendingRegTtl < expire) (sweep : Instant) (key : Room × SocketAddr) :
    (T.roomTick cfg sweep expire).pendingRegs.lookup key = none := by
  have hevict : (T.evictStaleRoomsAll sweep cfg.regTtl).WrittenBy last :=
    ⟨h.holds.evictStaleRoomsAll, h.touched.evictStaleRoomsAll sweep cfg.regTtl⟩
  unfold Tables.roomTick
  rw [pendingRegs_removeStalePendingRegs, AList.lookup_retain]
  cases hpend : (T.evictStaleRoomsAll sweep cfg.regTtl).pendingRegs.lookup key with
  | none => rfl
  | some pend =>
      have hcreated : pend.createdAt ≤ last := hevict.holds.global key.1 key.2 pend hpend
      have hexpired : pend.expired expire = true := decide_eq_true (stale_of_le hcreated hexpire)
      rw [Option.filter_some, hexpired]
      rfl

theorem Sound.forgotten (h : T.Sound cfg) (hrooms : ∀ room, T.room? room = none)
    (hpending : ∀ key, T.pendingRegs.lookup key = none) : T.Forgotten := by
  have hshards : ∀ i, T.shards i = ∅ := by
    intro i
    apply AList.eq_empty_of_lookup
    intro room
    cases hlookup : (T.shards i).lookup room with
    | none => rfl
    | some entry =>
        have hroom := ((room?_eq_some_iff h.placed).mp hlookup).2
        cases (hrooms room).symm.trans hroom
  have hregs : T.pendingRegs = ∅ := AList.eq_empty_of_lookup hpending
  refine ⟨hshards, hregs, ?_, ?_, ?_⟩
  · apply AList.eq_empty_of_lookup
    intro ip
    rw [h.tally ip, hregs]
    rfl
  · rw [h.total, hregs]
    rfl
  · rw [h.counted, roomCount]
    simp only [hshards]
    rfl

end Tables

/-! ### The times in the meters -/

/-- No time in the limiter's tables is later than `last`. -/
structure RegShard.WrittenBy (last : Instant) (shard : RegShard) : Prop extends shard.Paired where
  times_le : ∀ k t, shard.times.lookup k = some t → t ≤ last

theorem RegShard.writtenBy_empty (last : Instant) : RegShard.empty.WrittenBy last :=
  { RegShard.paired_empty with times_le := fun k t hlookup => by cases hlookup }

theorem RegShard.WrittenBy.isLimited {shard : RegShard} (h : shard.WrittenBy last) (src : Bytes)
    (hnow : now ≤ last) (rateWindow : Duration) (maxRate : Nat) :
    (shard.isLimited src now rateWindow maxRate).1.WrittenBy last := by
  refine { h.toPaired.isLimited src now rateWindow maxRate with times_le := fun k t hlookup => ?_ }
  rcases shard.isLimited_cases src now rateWindow maxRate with
    ⟨-, -, heq⟩ | ⟨-, heq⟩ | ⟨reset, -, -, ⟨-, heq⟩ | ⟨-, heq⟩⟩ <;> rw [heq] at hlookup
  · exact h.times_le k t hlookup
  · rw [AList.lookup_insert_ite] at hlookup
    split at hlookup
    · cases hlookup
      exact hnow
    · exact h.times_le k t hlookup
  · exact h.times_le k t hlookup
  · exact h.times_le k t hlookup

theorem RegShard.WrittenBy.cleanupStale {shard : RegShard} (h : shard.WrittenBy last)
    (now : Instant) (maxAge : Duration) : (shard.cleanupStale now maxAge).WrittenBy last := by
  refine { h.toPaired.cleanupStale now maxAge with times_le := fun k t hlookup => ?_ }
  rcases lookup_cleanupStale h.toPaired now maxAge k with ⟨t', -, -, htimes, -⟩ | ⟨-, htimes, -⟩
  · cases htimes.symm.trans hlookup
  · exact h.times_le k t (htimes.symm.trans hlookup)

theorem RegShard.WrittenBy.forgotten {shard : RegShard} (h : shard.WrittenBy last)
    {maxAge : Duration} (hnow : last + maxAge < now) : shard.cleanupStale now maxAge = .empty := by
  have hnone : ∀ k, (shard.cleanupStale now maxAge).times.lookup k = none := by
    intro k
    rcases lookup_cleanupStale h.toPaired now maxAge k with ⟨t, -, -, htimes, -⟩ | ⟨hkept, htimes, -⟩
    · exact htimes
    · rw [htimes]
      cases hlookup : shard.times.lookup k with
      | none => rfl
      | some t =>
          have hle := h.times_le k t hlookup
          have hover := hnow.trans_le (hkept t hlookup)
          exact absurd (Nat.add_le_add_right hle maxAge) (Nat.not_le_of_lt hover)
  have hpaired := h.toPaired.cleanupStale now maxAge
  have htimes : (shard.cleanupStale now maxAge).times = ∅ := AList.eq_empty_of_lookup hnone
  have hsent : (shard.cleanupStale now maxAge).sent = ∅ := by
    apply AList.eq_empty_of_lookup
    intro k
    rw [AList.lookup_eq_none, hpaired.keys, ← AList.lookup_eq_none]
    exact hnone k
  calc shard.cleanupStale now maxAge
      = ⟨(shard.cleanupStale now maxAge).sent, (shard.cleanupStale now maxAge).times⟩ := rfl
    _ = .empty := by rw [hsent, htimes]; rfl

/-- No time in the table of the drop log is later than `last`. -/
def DropLogLimiter.WrittenBy (last : Instant) (limiter : DropLogLimiter) : Prop :=
  ∀ ip t, limiter.last.lookup ip = some t → t ≤ last

theorem DropLogLimiter.WrittenBy.allow {limiter : DropLogLimiter} (h : limiter.WrittenBy last)
    (ip : Bytes) (hnow : now ≤ last) (interval : Duration) :
    (limiter.allow ip now interval).1.WrittenBy last := by
  have hinsert : ∀ ip' t, (limiter.last.insert ip now).lookup ip' = some t → t ≤ last := by
    intro ip' t hlookup
    rw [AList.lookup_insert_ite] at hlookup
    split at hlookup
    · cases hlookup
      exact hnow
    · exact h ip' t hlookup
  have hlast : (limiter.allow ip now interval).1.last = limiter.last ∨
      (limiter.allow ip now interval).1.last = limiter.last.insert ip now := by
    unfold DropLogLimiter.allow
    by_cases hwindow : now - limiter.windowStart ≥ fromMillis 1000
    · simp only [if_pos hwindow]
      split_ifs <;> simp
    · simp only [if_neg hwindow]
      split_ifs <;> simp
  intro ip' t hlookup
  rcases hlast with heq | heq
  · exact h ip' t (heq ▸ hlookup)
  · exact hinsert ip' t (heq ▸ hlookup)

theorem DropLogLimiter.WrittenBy.cleanupStale {limiter : DropLogLimiter}
    (h : limiter.WrittenBy last) (now : Instant) (maxAge : Duration) :
    (limiter.cleanupStale now maxAge).WrittenBy last := by
  intro ip t hlookup
  rw [DropLogLimiter.cleanupStale, AList.lookup_retain, Option.filter_eq_some_iff] at hlookup
  exact h ip t hlookup.1

theorem DropLogLimiter.WrittenBy.forgotten {limiter : DropLogLimiter} (h : limiter.WrittenBy last)
    {maxAge : Duration} (hnow : last + maxAge < now) :
    (limiter.cleanupStale now maxAge).last = ∅ := by
  apply AList.eq_empty_of_lookup
  intro ip
  rw [DropLogLimiter.cleanupStale, AList.lookup_retain]
  cases hlookup : limiter.last.lookup ip with
  | none => rfl
  | some t =>
      have hle := h ip t hlookup
      have hold : decide (now - t ≤ maxAge) = false :=
        decide_eq_false (Nat.not_le_of_lt (stale_of_le hle hnow))
      rw [Option.filter_some, hold]
      rfl

structure Meters.WrittenBy (last : Instant) (meters : Meters) : Prop where
  regShards : ∀ i, (meters.regShards i).WrittenBy last
  dropLog : meters.dropLogLimiter.WrittenBy last

theorem Meters.WrittenBy.dropPacket {meters : Meters} (h : meters.WrittenBy last)
    (src : SocketAddr) (hnow : now ≤ last) : (meters.dropPacket src now).WrittenBy last :=
  ⟨h.regShards, h.dropLog.allow _ hnow _⟩

variable {relay : Relay}

theorem Meters.WrittenBy.isRegRateLimited (h : relay.meters.WrittenBy last) (src : SocketAddr)
    (hnow : now ≤ last) : (relay.isRegRateLimited src now).1.WrittenBy last := by
  refine ⟨fun i => ?_, h.dropLog⟩
  simp only [Relay.isRegRateLimited]
  by_cases hi : i = shardIdx (ipKey src).toText numRegShards
  · subst hi
    rw [Function.update_self]
    exact (h.regShards _).isLimited _ hnow _ _
  · rw [Function.update_of_ne hi]
    exact h.regShards i

theorem Meters.WrittenBy.handleReg (h : relay.meters.WrittenBy last) (room : Room) (cookie : Bytes)
    (src : SocketAddr) (rnd : Cookie) (hlast : clock.log ≤ last) :
    (relay.handleReg room cookie src clock rnd).1.meters.WrittenBy last := by
  have hlimit : clock.limit ≤ last := clock.limit_le_log.trans hlast
  have hlimited := h.isRegRateLimited src hlimit
  unfold Relay.handleReg
  simp only
  split
  · exact hlimited.dropPacket src hlast
  · split
    · exact ⟨hlimited.regShards, hlimited.dropLog⟩
    · exact hlimited
    · exact hlimited.dropPacket src hlast

theorem Meters.WrittenBy.handleMsg (h : relay.meters.WrittenBy last) (payload : Bytes)
    (src : SocketAddr) (hlast : clock.log ≤ last) :
    (relay.handleMsg payload src clock).1.meters.WrittenBy last := by
  unfold Relay.handleMsg
  split
  · exact h.dropPacket src hlast
  · split
    · exact h.dropPacket src hlast
    · split
      · exact h.dropPacket src hlast
      · simp only
        split
        · exact h.dropPacket src hlast
        · exact ⟨h.regShards, h.dropLog⟩

theorem Meters.WrittenBy.rateTick (h : relay.meters.WrittenBy last) (now : Instant) :
    (relay.rateTick now).meters.WrittenBy last :=
  ⟨fun i => (h.regShards i).cleanupStale now _, h.dropLog.cleanupStale now _⟩

/-! ### Whole runs -/

/-- A packet is handled by `last`. -/
def Event.By (last : Instant) : Event → Prop
  | .packet _ _ clock _ => clock.log ≤ last
  | .roomTick _ _ _ => True
  | .rateTick _ => True

/-- A room tick that is later than `last` by both time limits. -/
def Event.LateRoomTick (cfg : Config) (last : Instant) : Event → Prop
  | .packet _ _ _ _ => False
  | .roomTick sweep expire _ => last + cfg.regTtl < sweep ∧ last + pendingRegTtl < expire
  | .rateTick _ => False

/-- A rate tick that is later than `last` by twice both intervals. -/
def Event.LateRateTick (cfg : Config) (last : Instant) : Event → Prop
  | .packet _ _ _ _ => False
  | .roomTick _ _ _ => False
  | .rateTick now => last + cfg.rateWindow * 2 < now ∧ last + dropLogInterval * 2 < now

structure WrittenBy (last : Instant) (relay : Relay) : Prop where
  tables : relay.tables.WrittenBy last
  meters : relay.meters.WrittenBy last

theorem writtenBy_empty (cfg : Config) (last : Instant) : (Relay.empty cfg).WrittenBy last :=
  ⟨Tables.writtenBy_empty last, fun _ => RegShard.writtenBy_empty last,
    fun ip t hlookup => by cases hlookup⟩

theorem Tables.WrittenBy.relayStep (h : relay.tables.WrittenBy last) {event : Event}
    (hevent : event.By last) {sent : List Reply} (hstep : RelayStep relay event T sent) :
    T.WrittenBy last := by
  cases hstep with
  | quiet => exact h
  | reg room cookie T action _ _ hreg => exact h.regStep hevent hreg
  | msg room phase body entry info rateLimiter sent hroom hinfo _ =>
      exact h.metered hroom hinfo rateLimiter
  | roomTick => exact h.roomTick _ _ _

theorem meters_step_roomTick (relay : Relay) {sweep expire : Instant} (ordered : sweep ≤ expire) :
    (relay.step (.roomTick sweep expire ordered)).1.meters = relay.meters := by
  simp only [Relay.step]

theorem WrittenBy.step (h : relay.WrittenBy last) {event : Event} (hevent : event.By last) :
    (relay.step event).1.WrittenBy last := by
  constructor
  · exact h.tables.relayStep hevent (step_relayStep relay event).2
  · cases event with
    | roomTick sweep expire ordered =>
        rw [meters_step_roomTick]
        exact h.meters
    | rateTick now =>
        simp only [Relay.step]
        exact h.meters.rateTick now
    | packet data src clock rnd =>
        simp only [Relay.step, handlePacket]
        cases parsePacket data with
        | drop reason => exact h.meters.dropPacket src hevent
        | reg room cookie => exact h.meters.handleReg room cookie src rnd hevent
        | msg payload => exact h.meters.handleMsg payload src hevent

structure Meters.Forgotten (meters : Meters) : Prop where
  regShards : ∀ i, meters.regShards i = .empty
  dropLog : meters.dropLogLimiter.last = ∅

theorem WrittenBy.roomTick_forgotten (h : relay.WrittenBy last) {event : Event}
    (hlate : event.LateRoomTick relay.cfg last)
    (hsound : (relay.step event).1.tables.Sound cfg) : (relay.step event).1.tables.Forgotten := by
  cases event with
  | packet data src clock rnd => exact hlate.elim
  | rateTick now => exact hlate.elim
  | roomTick sweep expire ordered =>
      simp only [Relay.step] at hsound ⊢
      exact hsound.forgotten (h.tables.room?_roomTick hlate.1 expire)
        (h.tables.getPendingReg_roomTick hlate.2 sweep)

theorem WrittenBy.rateTick_forgotten (h : relay.WrittenBy last) {event : Event}
    (hlate : event.LateRateTick relay.cfg last) : (relay.step event).1.meters.Forgotten := by
  cases event with
  | packet data src clock rnd => exact hlate.elim
  | roomTick sweep expire ordered => exact hlate.elim
  | rateTick now =>
      simp only [Relay.step]
      exact ⟨fun i => (h.meters.regShards i).forgotten hlate.1, h.meters.dropLog.forgotten hlate.2⟩

variable {history : List (Machine.Record Relay Event Reply)}

theorem writtenBy_of_run (hrun : Machine.Run (machine cfg) history relay now)
    (hsilent : ∀ r ∈ history, r.event.By last) : relay.WrittenBy last :=
  hrun.inv (G := fun _ event => event.By last) (I := fun _ relay _ => relay.WrittenBy last)
    (writtenBy_empty cfg last) (fun _ _ _ hby h => h.step hby) hsilent

theorem tables_of_lateRoomTick (hhard : 1 ≤ cfg.maxClientsHard)
    (hperPrefix : 1 ≤ cfg.maxClientsPerPrefixPerRoom)
    (hrun : Machine.Run (machine cfg) history relay now)
    (hsilent : ∀ r ∈ history, r.event.By last) {r : Machine.Record Relay Event Reply}
    (hr : r ∈ history) (hlate : r.event.LateRoomTick cfg last) :
    relay.tables.Forgotten ∧ last + cfg.regTtl < now ∧ last + pendingRegTtl < now := by
  have hlateStep : ∀ {history relay now} (event : Event),
      Machine.Run (machine cfg) history relay now → now ≤ event.start →
      (∀ r ∈ history, r.event.By last) → event.LateRoomTick cfg last →
      (relay.step event).1.tables.Forgotten ∧ last + cfg.regTtl < event.finish ∧
        last + pendingRegTtl < event.finish := by
    intro history relay now event hrun hstart hsilent hlate
    have hsound := sound_of_run hhard hperPrefix (hrun.snoc event hstart)
    have hforgotten := (writtenBy_of_run hrun hsilent).roomTick_forgotten
      ((cfg_of_run hrun).symm ▸ hlate) hsound
    cases event with
    | packet data src clock rnd => exact hlate.elim
    | rateTick t => exact hlate.elim
    | roomTick sweep expire ordered =>
        exact ⟨hforgotten, hlate.1.trans_le ordered, hlate.2⟩
  refine hrun.since (G := fun _ event => event.By last)
    (E := fun event => event.LateRoomTick cfg last)
    (I := fun relay now => relay.tables.Forgotten ∧ last + cfg.regTtl < now ∧
      last + pendingRegTtl < now) ?_ ?_ hsilent hr hlate
  · intro history relay now event hrun hstart hsilent _ hlate
    exact hlateStep event hrun hstart hsilent hlate
  · intro history relay now event hrun hstart hsilent hby hI
    obtain ⟨hforgotten, hrooms, hpending⟩ := hI
    cases event with
    | packet data src clock rnd =>
        -- too late for a packet that is handled by `last`
        have hend : now ≤ last := hstart.trans (clock.limit_le_log.trans hby)
        exact absurd ((Nat.le_add_right last cfg.regTtl).trans_lt hrooms) (Nat.not_lt_of_le hend)
    | rateTick t => exact ⟨hforgotten, hrooms.trans_le hstart, hpending.trans_le hstart⟩
    | roomTick sweep expire ordered =>
        have hagain : (Event.roomTick sweep expire ordered).LateRoomTick cfg last :=
          ⟨hrooms.trans_le hstart, hpending.trans_le (hstart.trans ordered)⟩
        exact hlateStep _ hrun hstart hsilent hagain

theorem meters_of_lateRateTick (hrun : Machine.Run (machine cfg) history relay now)
    (hsilent : ∀ r ∈ history, r.event.By last) {r : Machine.Record Relay Event Reply}
    (hr : r ∈ history) (hlate : r.event.LateRateTick cfg last) :
    relay.meters.Forgotten ∧ last + cfg.rateWindow * 2 < now ∧ last + dropLogInterval * 2 < now := by
  have hlateStep : ∀ {history relay now} (event : Event),
      Machine.Run (machine cfg) history relay now → (∀ r ∈ history, r.event.By last) →
      event.LateRateTick cfg last →
      (relay.step event).1.meters.Forgotten ∧ last + cfg.rateWindow * 2 < event.finish ∧
        last + dropLogInterval * 2 < event.finish := by
    intro history relay now event hrun hsilent hlate
    have hforgotten := (writtenBy_of_run hrun hsilent).rateTick_forgotten
      ((cfg_of_run hrun).symm ▸ hlate)
    cases event with
    | packet data src clock rnd => exact hlate.elim
    | roomTick sweep expire ordered => exact hlate.elim
    | rateTick t => exact ⟨hforgotten, hlate⟩
  refine hrun.since (G := fun _ event => event.By last)
    (E := fun event => event.LateRateTick cfg last)
    (I := fun relay now => relay.meters.Forgotten ∧ last + cfg.rateWindow * 2 < now ∧
      last + dropLogInterval * 2 < now) ?_ ?_ hsilent hr hlate
  · intro history relay now event hrun _ hsilent _ hlate
    exact hlateStep event hrun hsilent hlate
  · intro history relay now event hrun hstart hsilent hby hI
    obtain ⟨hforgotten, hrates, hlog⟩ := hI
    cases event with
    | packet data src clock rnd =>
        have hend : now ≤ last := hstart.trans (clock.limit_le_log.trans hby)
        exact absurd ((Nat.le_add_right last _).trans_lt hrates) (Nat.not_lt_of_le hend)
    | roomTick sweep expire ordered =>
        have hend : now ≤ expire := hstart.trans ordered
        refine ⟨?_, hrates.trans_le hend, hlog.trans_le hend⟩
        rw [← meters_step_roomTick relay ordered] at hforgotten
        exact hforgotten
    | rateTick t =>
        have hagain : (Event.rateTick t).LateRateTick cfg last :=
          ⟨hrates.trans_le hstart, hlog.trans_le hstart⟩
        exact hlateStep _ hrun hsilent hagain

/-- **A silent relay forgets.** When every packet of a run was handled by `last`, a room tick later
than `last` by both time limits leaves no room, no pending registration and no count of either, and a
rate tick later than `last` by twice both intervals leaves the rate limiter and the drop log without
an entry. It stays so up to the end of the run. Both client caps have to allow one client, as
those that `env_int` reads do: that the counters are right is part of the invariant of the caps. -/
theorem forgets_of_silence (last : Instant) (hhard : 1 ≤ cfg.maxClientsHard)
    (hperPrefix : 1 ≤ cfg.maxClientsPerPrefixPerRoom)
    (hrun : Machine.Run (machine cfg) history relay now)
    (hsilent : ∀ r ∈ history, r.event.By last) :
    ((∃ r ∈ history, r.event.LateRoomTick cfg last) → relay.tables.Forgotten) ∧
      ((∃ r ∈ history, r.event.LateRateTick cfg last) → relay.meters.Forgotten) := by
  constructor
  · rintro ⟨r, hr, hlate⟩
    exact (tables_of_lateRoomTick hhard hperPrefix hrun hsilent hr hlate).1
  · rintro ⟨r, hr, hlate⟩
    exact (meters_of_lateRateTick hrun hsilent hr hlate).1

/-- A source registers at time zero; both ticks come after an hour, and more of them. -/
def registersThenSilent : List Event :=
  handshake (ascii "r") (.v4 ⟨10, 0, 0, 1⟩ 1000) 0 (.fill 1) ++
    [.roomTick (fromMillis 3600000) (fromMillis 3600000) le_rfl, .rateTick (fromMillis 3600000),
      .roomTick (fromMillis 3700000) (fromMillis 3700000) le_rfl]

theorem forgets_of_silence_hour :
    let relay := (machine .defaults).exec (machine .defaults).init registersThenSilent
    relay.tables.Forgotten ∧ relay.meters.Forgotten := by
  have hordered : (machine .defaults).Ordered 0 registersThenSilent := by decide
  have hsilent : ∀ r ∈ (machine .defaults).trace (machine .defaults).init registersThenSilent,
      r.event.By 0 := by
    intro r hr
    have hmem := Machine.event_mem_of_mem_trace hr
    simp only [registersThenSilent, handshake, List.cons_append, List.nil_append, List.mem_cons,
      List.not_mem_nil, or_false] at hmem
    rcases hmem with heq | heq | heq | heq | heq <;> rw [heq]
    · exact Nat.le_refl 0
    · exact Nat.le_refl 0
    all_goals exact trivial
  obtain ⟨htables, hmeters⟩ := forgets_of_silence 0 (by decide) (by decide)
    ((machine .defaults).run_exec hordered) hsilent
  have hroomTick : (Event.roomTick (fromMillis 3600000) (fromMillis 3600000) le_rfl).LateRoomTick
      .defaults 0 := ⟨by decide, by decide⟩
  have hrateTick : (Event.rateTick (fromMillis 3600000)).LateRateTick .defaults 0 :=
    ⟨by decide, by decide⟩
  constructor
  · obtain ⟨r, hr, heq⟩ := Machine.exists_mem_trace (M := machine .defaults)
      (show Event.roomTick (fromMillis 3600000) (fromMillis 3600000) le_rfl ∈ registersThenSilent
        by simp [registersThenSilent]) _
    exact htables ⟨r, hr, heq ▸ hroomTick⟩
  · obtain ⟨r, hr, heq⟩ := Machine.exists_mem_trace (M := machine .defaults)
      (show Event.rateTick (fromMillis 3600000) ∈ registersThenSilent
        by simp [registersThenSilent]) _
    exact hmeters ⟨r, hr, heq ▸ hrateTick⟩

end Qvole.Relay
