import Qvole.Relay.Proof.Caps

/-!
# Exact IP links

A sweep asks whether a stale client is the last of its IP before it removes any client. Two clients
of one IP that go stale together each see the other, and neither drops the link. As long as no sweep
meets that case the link table is exact: it links an IP to a room if and only if the IP has an
admitted client there.
-/

namespace Qvole.Relay

/-! ### One room -/

namespace RoomEntry

variable {cfg : Config} {room : Room} {cookie : Bytes} {src resolved : SocketAddr} {clock : Clock}
  {rnd : Cookie} {before entry : RoomEntry} {links links' : Links} {now later : Instant}
  {regTtl : Duration}

/-- Every IP with two clients or more in the room has one that is not stale. -/
def Covered (entry : RoomEntry) (now : Instant) (regTtl : Duration) : Prop :=
  ∀ ip, 2 ≤ entry.countPrefixClients ip →
    ∃ addr info, entry.udpClients.lookup addr = some info ∧ ipKey addr = ip ∧
      info.stale now regTtl = false

def ExactIn (entry : RoomEntry) (room : Room) (links : Links) : Prop :=
  ∀ ip, room ∈ links.rooms ip ↔ entry.ofIp ip = true

theorem not_stale_mono {info : UdpClient} (hle : now ≤ later)
    (h : info.stale later regTtl = false) : info.stale now regTtl = false := by
  simp only [UdpClient.stale, decide_eq_false_iff_not, not_lt] at h ⊢
  exact (Nat.sub_le_sub_right hle _).trans h

theorem Covered.mono (h : entry.Covered later regTtl) (hle : now ≤ later) :
    entry.Covered now regTtl := by
  intro ip htwo
  obtain ⟨addr, info, hlookup, hip, hlive⟩ := h ip htwo
  exact ⟨addr, info, hlookup, hip, not_stale_mono hle hlive⟩

theorem Covered.removeStaleClients (h : entry.Covered later regTtl) (hle : now ≤ later) :
    (entry.removeStaleClients room now regTtl).1.Covered later regTtl := by
  intro ip htwo
  have hcount := htwo.trans (removeStaleClients_countKeys_udpClients_le fun a => ipKey a = ip)
  obtain ⟨addr, info, hlookup, hip, hlive⟩ := h ip hcount
  refine ⟨addr, info, ?_, hip, hlive⟩
  rw [removeStaleClients_lookup_udpClients, hlookup, Option.filter_some,
    not_stale_mono hle hlive]
  rfl

/-- An IP that loses its last client to a sweep of a covered room had only that one. -/
theorem Covered.unlinked (h : entry.Covered now regTtl) {ip : IpAddr}
    (hof : entry.ofIp ip = true) (hgone : (entry.removeStaleClients room now regTtl).1.ofIp ip = false) :
    (ip, room) ∈ (entry.removeStaleClients room now regTtl).2 := by
  have hstale : ∀ addr info, entry.udpClients.lookup addr = some info → ipKey addr = ip →
      info.stale now regTtl = true := by
    intro addr info hlookup hip
    by_contra hlive
    have hkept : (entry.removeStaleClients room now regTtl).1.ofIp ip = true :=
      ofIp_iff.mpr ⟨addr, mem_removeStaleClients_udpClients.mpr ⟨info, hlookup, by simpa using hlive⟩,
        hip⟩
    rw [hgone] at hkept
    cases hkept
  obtain ⟨addr, hmem, hip⟩ := ofIp_iff.mp hof
  obtain ⟨info, hlookup⟩ := AList.mem_iff_lookup.mp hmem
  refine mem_removeStaleClients_unlinked.mpr
    ⟨rfl, addr, info, hlookup, hstale addr info hlookup hip, hip, ?_⟩
  by_contra hother
  rw [Bool.not_eq_false, otherOfIp_iff] at hother
  obtain ⟨other, hotherMem, hne, hotherIp⟩ := hother
  have htwo : 2 ≤ entry.countPrefixClients ip :=
    AList.two_le_countKeys hotherMem hmem hne (by simpa using hotherIp) (by simpa using hip)
  obtain ⟨live, liveInfo, hliveLookup, hliveIp, hlive⟩ := h ip htwo
  rw [hstale live liveInfo hliveLookup hliveIp] at hlive
  cases hlive

theorem covered_iff : entry.Covered now regTtl ↔
    ∀ e ∈ entry.udpClients.entries, 2 ≤ entry.countPrefixClients (ipKey e.1) →
      ∃ other ∈ entry.udpClients.entries, ipKey other.1 = ipKey e.1 ∧
        other.2.stale now regTtl = false := by
  constructor
  · intro h e _ htwo
    obtain ⟨addr, info, hlookup, hip, hlive⟩ := h _ htwo
    exact ⟨⟨addr, info⟩, AList.lookup_eq_some_iff.mp hlookup, hip, hlive⟩
  · intro h ip htwo
    obtain ⟨addr, hmem, hip⟩ := AList.countKeys_pos_iff.mp (Nat.zero_lt_of_lt htwo)
    obtain ⟨info, hlookup⟩ := AList.mem_iff_lookup.mp hmem
    obtain rfl : ipKey addr = ip := by simpa using hip
    obtain ⟨other, hother, hip', hlive⟩ :=
      h ⟨addr, info⟩ (AList.lookup_eq_some_iff.mp hlookup) htwo
    exact ⟨other.1, other.2, AList.lookup_eq_some_iff.mpr hother, hip', hlive⟩

instance (entry : RoomEntry) (now : Instant) (regTtl : Duration) :
    Decidable (entry.Covered now regTtl) :=
  decidable_of_iff _ covered_iff.symm

theorem ExactIn.linkedTo (h : entry.ExactIn room links) : entry.LinkedTo room links :=
  fun ip hof => (h ip).mpr hof

theorem ExactIn.sweep (h : entry.ExactIn room links) (hcovered : entry.Covered now regTtl) :
    (entry.sweep links room now regTtl).1.ExactIn room (entry.sweep links room now regTtl).2 := by
  intro ip
  constructor
  · intro hlinked
    obtain ⟨hold, hkept⟩ := Links.mem_rooms_unlink.mp hlinked
    by_contra hgone
    exact hkept (hcovered.unlinked ((h ip).mp hold) (by simpa [RoomEntry.sweep] using hgone))
  · exact h.linkedTo.sweep now regTtl ip

theorem ExactIn.congr (h : entry.ExactIn room links) {after : RoomEntry}
    (hof : ∀ ip, after.ofIp ip = entry.ofIp ip) : after.ExactIn room links := by
  intro ip
  rw [h ip, hof ip]

theorem ExactIn.admitClient (h : entry.ExactIn room links)
    (hlinks : LinkUpdate room src entry links links') :
    (entry.admitClient src resolved clock).ExactIn room links' := by
  intro ip
  rw [ofIp_admitClient]
  rcases hlinks with ⟨rfl, hsrc⟩ | ⟨rfl, -⟩
  · rw [h ip]
    constructor
    · exact Or.inr
    · rintro (rfl | hof)
      · exact hsrc
      · exact hof
  · rw [Links.mem_rooms_addIpRoom, h ip]
    simp only [and_true, eq_comm]

theorem ExactIn.sweptStep (h : entry.ExactIn room links) {result : RoomEntry × Links × RegAction}
    (hstep : SweptStep cfg room cookie src clock rnd before entry links result) :
    result.1.ExactIn room result.2.1 := by
  cases hstep with
  | full => exact h
  | refreshed info hinfo => exact h.congr (ofIp_updateClient (AList.mem_of_lookup hinfo) _)
  | reissued => exact h
  | added => exact h.congr (ofIp_addPending _ _ _)
  | completed pend links' _ _ _ _ hlinks =>
      refine (h.congr (ofIp_removePending entry src)).admitClient ?_
      simpa [LinkUpdate, RoomEntry.otherOfIp] using hlinks

theorem ExactIn.admitStep (h : entry.ExactIn room links) {result : RoomEntry × Links × RegAction}
    (hstep : AdmitStep cfg room src resolved clock entry links result) :
    result.1.ExactIn room result.2.1 := by
  cases hstep with
  | full => exact h
  | admitted links' _ hlinks => exact h.admitClient hlinks

end RoomEntry

/-! ### The tables -/

namespace Tables

variable {cfg : Config} {room : Room} {cookie : Bytes} {src resolved : SocketAddr} {clock : Clock}
  {rnd : Cookie} {T : Tables} {now later : Instant} {regTtl : Duration}

structure Exact (T : Tables) : Prop where
  placed : T.Placed
  links : ∀ room ip, room ∈ T.ipCounts.rooms ip ↔
    ∃ entry, T.room? room = some entry ∧ entry.ofIp ip = true

/-- The rooms of a kind are covered. -/
def CoveredAt (T : Tables) (kind : Room → Prop) (now : Instant) (regTtl : Duration) : Prop :=
  ∀ room entry, kind room → T.room? room = some entry → entry.Covered now regTtl

theorem Exact.exactIn (h : T.Exact) {entry : RoomEntry} (hroom : T.room? room = some entry) :
    entry.ExactIn room T.ipCounts := by
  intro ip
  rw [h.links room ip, hroom]
  simp

theorem Exact.congr {T' : Tables} (h : T.Exact) (hsame : SameRooms T T') : T'.Exact := by
  refine ⟨?_, fun room ip => ?_⟩
  · rw [Placed, hsame.shards]
    exact h.placed
  · rw [hsame.ipCounts, hsame.room?]
    exact h.links room ip

theorem CoveredAt.evictShard {kind : Room → Prop} (h : T.CoveredAt kind later regTtl)
    (hle : now ≤ later) (i : Fin numShards) :
    (T.evictShard i now regTtl).1.CoveredAt kind later regTtl := by
  intro room after hkind hafter
  rcases room?_evictShard_cases hafter with ⟨hold, -⟩ | ⟨entry, hentry, rfl⟩
  · exact h room after hkind hold
  · exact (h room entry hkind hentry).removeStaleClients hle

theorem CoveredAt.evictShards {kind : Room → Prop} (h : T.CoveredAt kind later regTtl)
    (hle : now ≤ later) (shards : List (Fin numShards)) :
    ((Tables.evictShards now regTtl shards T).1.subRooms
      (Tables.evictShards now regTtl shards T).2).CoveredAt kind later regTtl := by
  intro room entry hkind hroom
  rw [room?_subRooms] at hroom
  exact evictShards_induct (P := fun T => T.CoveredAt kind later regTtl)
    (fun _ i hcovered => hcovered.evictShard hle i) shards h room entry hkind hroom

theorem Exact.evictShard (h : T.Exact) (i : Fin numShards)
    (hcovered : T.CoveredAt (shardIdx · numShards = i) now regTtl) :
    (T.evictShard i now regTtl).1.Exact := by
  refine ⟨placed_evictShard h.placed i, fun room ip => ?_⟩
  rw [mem_rooms_evictShard h.placed, room?_evictShard]
  by_cases hi : shardIdx room numShards = i
  · rw [if_pos hi, h.links room ip]
    cases hroom : T.room? room with
    | none => simp
    | some entry =>
        -- A room that the sweep removes has no client left, so it is linked to no IP either.
        have hexact := (h.exactIn hroom).sweep (hcovered room entry hi hroom) ip
        have hkept : (∃ after, sweptRoom now regTtl room entry = some after ∧
            after.ofIp ip = true) ↔
              (entry.removeStaleClients room now regTtl).1.ofIp ip = true := by
          unfold sweptRoom
          by_cases hevict : (entry.removeStaleClients room now regTtl).1.evictable now regTtl = true
          · have hnone : (entry.removeStaleClients room now regTtl).1.ofIp ip = false := by
              simp only [RoomEntry.evictable, Bool.and_eq_true, List.isEmpty_iff] at hevict
              simp [RoomEntry.ofIp, hevict.1]
            simp [hevict, hnone]
          · simp [hevict]
        rw [Option.bind_some, hkept]
        simp only [RoomEntry.sweep, Links.mem_rooms_unlink, h.links room ip, hroom] at hexact
        rw [← hexact]
        simp [hi]
  · rw [if_neg hi, h.links room ip]
    simp [hi]

theorem Exact.setRoom (h : T.Exact) {entry : RoomEntry} {links : Links}
    (hentry : entry.ExactIn room links) (houtside : Links.SameOutside room T.ipCounts links) :
    Tables.Exact { T.setRoom room entry with ipCounts := links } := by
  refine ⟨placed_setRoom h.placed entry, fun room' ip => ?_⟩
  change room' ∈ links.rooms ip ↔ ∃ after, (T.setRoom room entry).room? room' = some after ∧ _
  rw [room?_setRoom]
  by_cases hroom : room' = room
  · subst hroom
    rw [hentry ip]
    simp
  · rw [if_neg hroom, houtside room' ip hroom]
    exact h.links room' ip

theorem Exact.subRooms (h : T.Exact) (n : Nat) : (T.subRooms n).Exact := by
  refine ⟨?_, fun room ip => ?_⟩
  · rw [Placed, shards_subRooms]
    exact h.placed
  · rw [ipCounts_subRooms, room?_subRooms]
    exact h.links room ip

/-- A sweep of all shards at one time. -/
theorem Exact.sweepAll (h : T.Exact) (hcovered : T.CoveredAt (fun _ => True) now regTtl) :
    (T.evictStaleRoomsAll now regTtl).Exact := by
  refine Exact.subRooms ?_ _
  refine (evictShards_induct (P := fun T => T.Exact ∧ T.CoveredAt (fun _ => True) now regTtl) ?_
    (List.finRange numShards) ⟨h, hcovered⟩).1
  rintro T i ⟨hexact, hcovered⟩
  refine ⟨hexact.evictShard i fun room entry _ => ?_, hcovered.evictShard le_rfl i⟩
  exact hcovered room entry trivial

/-! ### Which rooms a registration sweeps -/

/-- Handling this `REG` sweeps `room'` at `now`: the room it names, in the section on that room. When
it completes a cookie from the global pending store at the room cap, all rooms are swept first, and
then the rooms of the shard once more. -/
def Sweeps (T : Tables) (cfg : Config) (room : Room) (cookie : Bytes) (src : SocketAddr)
    (clock : Clock) (room' : Room) (now : Instant) : Prop :=
  (now = clock.sweep ∧ room' = room ∧ (cookie = [] ∨ T.getPendingReg room src = none) ∧
      ∃ entry, T.room? room = some entry ∧ InRoomDue cfg cookie src clock entry T.ipCounts) ∨
    (∃ pend, T.getPendingReg room src = some pend ∧ pend.Accepts cookie clock) ∧
      (now = clock.sweep ∧ T.totalRoomCount ≥ cfg.maxRooms ∨
        now = clock.resweep ∧ (room' = room ∨ T.totalRoomCount ≥ cfg.maxRooms ∧
          shardIdx room' numShards = shardIdx room numShards))

theorem Exact.sectionStep (h : T.Exact) {entry : RoomEntry} {due : Prop}
    {result : RoomEntry × Links × RegAction} (hroom : T.room? room = some entry)
    (hcovered : due → entry.Covered clock.sweep cfg.regTtl)
    (hstep : SectionStep cfg room cookie src clock rnd due entry T.ipCounts result) :
    (T.inRoom room result).1.Exact := by
  have houtside := hstep.sameOutside
  have hexact := h.exactIn hroom
  cases hstep with
  | rejected => exact h.setRoom hexact houtside
  | expired =>
      exact h.setRoom (hexact.congr (RoomEntry.ofIp_removePending entry src)) houtside
  | swept _ hdue hswept =>
      exact h.setRoom ((hexact.sweep (hcovered hdue)).sweptStep hswept) houtside

theorem Exact.admitStep (h : T.Exact) {entry : RoomEntry} {result : RoomEntry × Links × RegAction}
    (hroom : T.room? room = some entry) (hcovered : entry.Covered clock.resweep cfg.regTtl)
    (hstep : AdmitStep cfg room src resolved clock
      (entry.sweep T.ipCounts room clock.resweep cfg.regTtl).1
      (entry.sweep T.ipCounts room clock.resweep cfg.regTtl).2 result) :
    (T.inRoom room result).1.Exact := by
  have houtside := (entry.sameOutside_sweep T.ipCounts room _ _).trans hstep.sameOutside
  exact h.setRoom (((h.exactIn hroom).sweep hcovered).admitStep hstep) houtside

theorem Exact.createRoom (h : T.Exact) (hroom : T.room? room = none) :
    (T.createRoom room src resolved clock).Exact := by
  have hentry : (RoomEntry.created src resolved clock).ExactIn room
      (T.ipCounts.addIpRoom (ipKey src) room) := by
    intro ip
    have hnone : room ∉ T.ipCounts.rooms ip := by
      rw [h.links room ip, hroom]
      simp
    have hnew : (RoomEntry.new clock.stamp).ofIp ip = false := rfl
    rw [Links.mem_rooms_addIpRoom, RoomEntry.created, RoomEntry.ofIp_admitClient]
    simp only [and_true, hnone, or_false, hnew, Bool.false_eq_true, eq_comm]
  have hset := h.setRoom hentry (Links.sameOutside_addIpRoom _ _ _)
  exact ⟨hset.placed, hset.links⟩

theorem Exact.completeStep (h : T.Exact)
    (hall : T.totalRoomCount ≥ cfg.maxRooms → T.CoveredAt (fun _ => True) clock.sweep cfg.regTtl)
    (hown : T.totalRoomCount ≥ cfg.maxRooms →
      T.CoveredAt (shardIdx · numShards = shardIdx room numShards) clock.resweep cfg.regTtl)
    (hroom : T.CoveredAt (· = room) clock.resweep cfg.regTtl)
    {result : Tables × RegAction} (hstep : CompleteStep cfg room src resolved clock T result) :
    result.1.Exact := by
  have hswept : (T.sweepIfFull cfg clock).Exact ∧
      ((T.sweepIfFull cfg clock).totalRoomCount ≥ cfg.maxRooms → (T.sweepIfFull cfg clock).CoveredAt
        (shardIdx · numShards = shardIdx room numShards) clock.resweep cfg.regTtl) ∧
      (T.sweepIfFull cfg clock).CoveredAt (· = room) clock.resweep cfg.regTtl := by
    unfold Tables.sweepIfFull
    split
    · rename_i hfull
      exact ⟨h.sweepAll (hall hfull), fun _ => (hown hfull).evictShards clock.sweep_le _,
        hroom.evictShards clock.sweep_le _⟩
    · exact ⟨h, hown, hroom⟩
  obtain ⟨hexact, hcoveredOwn, hcoveredRoom⟩ := hswept
  have hresweep : ((T.sweepIfFull cfg clock).resweepIfFull cfg room clock).Exact := by
    unfold Tables.resweepIfFull
    split
    · rename_i hfull
      exact (hexact.evictShard _ (hcoveredOwn hfull)).subRooms _
    · exact hexact
  cases hstep with
  | refused => exact hresweep
  | created hnone => exact hresweep.createRoom (room?_resweepIfFull_eq_none hnone cfg clock)
  | inRoom entry result hentry hadmits =>
      exact hexact.admitStep hentry (hcoveredRoom room entry rfl hentry) hadmits

theorem Exact.regStep (h : T.Exact)
    (hcovered : ∀ room' entry now, T.room? room' = some entry →
      T.Sweeps cfg room cookie src clock room' now → entry.Covered now cfg.regTtl)
    {result : Tables × RegAction} (hstep : RegStep cfg room cookie src clock rnd T result) :
    result.1.Exact := by
  have hdelete := sameRooms_deletePendingReg T room src
  cases hstep with
  | rejected => exact h
  | expired => exact h.congr hdelete
  | stored => exact h.congr (sameRooms_storePendingReg T cfg room src _)
  | inRoom entry result hnone hroom hsection =>
      refine h.sectionStep hroom (fun hdue => ?_) hsection
      exact hcovered room entry clock.sweep hroom (Or.inl ⟨rfl, rfl, hnone, entry, hroom, hdue⟩)
  | completing pend result hpend haccepts hcomplete =>
      have hcompletes : ∃ pend, T.getPendingReg room src = some pend ∧ pend.Accepts cookie clock :=
        ⟨pend, hpend, haccepts⟩
      refine (h.congr hdelete).completeStep ?_ ?_ ?_ hcomplete
      · intro hfull room' entry _ hentry
        rw [hdelete.totalRoomCount] at hfull
        rw [hdelete.room?] at hentry
        exact hcovered room' entry _ hentry (Or.inr ⟨hcompletes, Or.inl ⟨rfl, hfull⟩⟩)
      · intro hfull room' entry hshard hentry
        rw [hdelete.totalRoomCount] at hfull
        rw [hdelete.room?] at hentry
        exact hcovered room' entry _ hentry
          (Or.inr ⟨hcompletes, Or.inr ⟨rfl, Or.inr ⟨hfull, hshard⟩⟩⟩)
      · intro room' entry hnamed hentry
        rw [hdelete.room?] at hentry
        exact hcovered room' entry _ hentry
          (Or.inr ⟨hcompletes, Or.inr ⟨rfl, Or.inl hnamed⟩⟩)

theorem Exact.metered (h : T.Exact) {entry : RoomEntry} {info : UdpClient}
    (hroom : T.room? room = some entry) (hinfo : entry.udpClients.lookup src = some info)
    (rateLimiter : RateLimiter) :
    (T.setRoom room (entry.metered src info rateLimiter)).Exact := by
  have hentry : (entry.metered src info rateLimiter).ExactIn room T.ipCounts :=
    (h.exactIn hroom).congr (RoomEntry.ofIp_updateClient (AList.mem_of_lookup hinfo) _)
  exact h.setRoom hentry fun _ _ _ => Iff.rfl

theorem Exact.roomTick (h : T.Exact) {sweep : Instant}
    (hcovered : T.CoveredAt (fun _ => True) sweep cfg.regTtl) (expire : Instant) :
    (T.roomTick cfg sweep expire).Exact :=
  Exact.congr (h.sweepAll hcovered) (sameRooms_removeStalePendingRegs _ expire)

end Tables

/-! ### Runs -/

/-- Handling the event sweeps `room` at `now`. -/
def Sweeps (relay : Relay) : Event → Room → Instant → Prop
  | .packet data src clock _, room', now => ∃ room cookie, parsePacket data = .reg room cookie ∧
      (relay.isRegRateLimited src clock.limit).2 = false ∧
      relay.tables.Sweeps relay.cfg room cookie src clock room' now
  | .roomTick sweep _ _, _, now => now = sweep
  | .rateTick _, _, _ => False

theorem Sweeps.le_finish {relay : Relay} {event : Event} {room : Room} {now : Instant}
    (h : relay.Sweeps event room now) : now ≤ event.finish := by
  cases event with
  | packet data src clock rnd =>
      obtain ⟨room, cookie, -, -, ⟨rfl, -⟩ | ⟨-, ⟨rfl, -⟩ | ⟨rfl, -⟩⟩⟩ := h
      · exact clock.sweep_le_log
      · exact clock.sweep_le_log
      · exact clock.resweep_le_log
  | roomTick sweep expire ordered =>
      obtain rfl : now = sweep := h
      exact ordered
  | rateTick t => exact h.elim

/-- No sweep of the step meets an IP whose clients in the room, two or more, are all stale. -/
def NoTwinExpiry (relay : Relay) (event : Event) : Prop :=
  ∀ room entry now, relay.tables.room? room = some entry → relay.Sweeps event room now →
    entry.Covered now relay.cfg.regTtl

theorem exact_step {relay : Relay} {event : Event} (h : relay.tables.Exact)
    (hguard : relay.NoTwinExpiry event) : (relay.step event).1.tables.Exact := by
  obtain ⟨-, hstep⟩ := step_relayStep relay event
  generalize (relay.step event).1.tables = T at hstep ⊢
  generalize (relay.step event).2 = sent at hstep
  cases hstep with
  | quiet => exact h
  | reg room cookie T action hparse hlimited hreg =>
      refine h.regStep (fun room' entry now hentry hsweeps => ?_) hreg
      exact hguard room' entry now hentry ⟨room, cookie, hparse, hlimited, hsweeps⟩
  | msg room phase body entry info rateLimiter sent hroom hinfo _ =>
      exact h.metered hroom hinfo rateLimiter
  | roomTick =>
      exact h.roomTick (fun room entry _ hroom => hguard room entry _ hroom rfl) _

/-- **Exact links.** In every run whose steps meet no twin expiry, the link table is that of the
admitted clients in every state reached, and an IP's count is the number of live rooms it has
clients in. -/
theorem links_exact_of_run {cfg : Config} {relay : Relay} {now : Nat}
    {history : List (Machine.Record Relay Event Reply)}
    (hrun : Machine.Run (machine cfg) history relay now)
    (hguard : ∀ r ∈ history, r.before.NoTwinExpiry r.event) :
    (∀ ip room, room ∈ relay.tables.ipCounts.rooms ip ↔
      ∃ entry, relay.tables.room? room = some entry ∧
        ∃ addr ∈ entry.udpClients, ipKey addr = ip) ∧
      ∀ ip, relay.tables.ipCounts.countIpRooms ip = (relay.tables.roomsOf ip).card := by
  have hexact : relay.tables.Exact := by
    refine hrun.inv (I := fun _ relay _ => relay.tables.Exact) ?_ ?_ hguard
    · refine ⟨fun i room hmem => absurd hmem (AList.notMem_empty room), fun room ip => ?_⟩
      constructor
      · intro hmem
        exact absurd hmem (Finset.notMem_empty room)
      · rintro ⟨entry, hroom, -⟩
        cases hroom
    · intro history relay now event _ _ hstep hI
      exact exact_step hI hstep
  refine ⟨fun ip room => ?_, fun ip => ?_⟩
  · rw [hexact.links room ip]
    simp only [RoomEntry.ofIp_iff]
  · unfold Links.countIpRooms
    congr 1
    ext room
    rw [hexact.links room ip, Tables.mem_roomsOf hexact.placed]

/-- Two clients of one IP register in one room, a minute apart, and a room tick finds only the first
one stale. -/
def staggeredExpiry : List Event :=
  handshake (ascii "r") (.v4 ⟨10, 0, 0, 1⟩ 1000) 0 (.fill 1) ++
    handshake (ascii "r") (.v4 ⟨10, 0, 0, 1⟩ 1001) (fromMillis 60000) (.fill 2) ++
    [.roomTick (fromMillis 70000) (fromMillis 70000) le_rfl]

theorem links_exact_of_run_staggered :
    let history := (machine .defaults).trace (machine .defaults).init staggeredExpiry
    let relay := (machine .defaults).exec (machine .defaults).init staggeredExpiry
    (history.getLast?.bind fun r => (r.before.tables.room? (ascii "r")).map (·.udpClients.size)) =
        some 2 ∧
      (relay.tables.room? (ascii "r")).map (·.udpClients.size) = some 1 ∧
      relay.tables.ipCounts.countIpRooms (.v4 ⟨10, 0, 0, 1⟩) = 1 ∧
      relay.tables.ipCounts.countIpRooms (.v4 ⟨10, 0, 0, 1⟩) =
        (relay.tables.roomsOf (.v4 ⟨10, 0, 0, 1⟩)).card := by
  intro history relay
  have hcovered : ∀ r ∈ history, ∀ i, ∀ e ∈ (r.before.tables.shards i).entries,
      e.2.Covered r.event.finish r.before.cfg.regTtl := by
    decide +kernel
  have hguard : ∀ r ∈ history, r.before.NoTwinExpiry r.event := by
    intro r hr room entry now hroom hsweeps
    exact (hcovered r hr _ ⟨room, entry⟩ (AList.lookup_eq_some_iff.mp hroom)).mono
      hsweeps.le_finish
  refine ⟨by decide +kernel, by decide +kernel, by decide +kernel, ?_⟩
  exact (links_exact_of_run ((machine .defaults).run_exec (by decide)) hguard).2 _

/-- Two clients of one IP register in one room, and one room tick finds both stale. -/
def twinExpiry : List Event :=
  handshake (ascii "r") (.v4 ⟨10, 0, 0, 1⟩ 1000) 0 (.fill 1) ++
    handshake (ascii "r") (.v4 ⟨10, 0, 0, 1⟩ 1001) 0 (.fill 2) ++
    [.roomTick (fromMillis 70000) (fromMillis 70000) le_rfl]

/-- The room is gone, and the IP is still linked to it. -/
theorem links_inexact_after_twinExpiry :
    Machine.Run (machine .defaults) ((machine .defaults).trace (machine .defaults).init twinExpiry)
        ((machine .defaults).exec (machine .defaults).init twinExpiry)
        ((machine .defaults).clockAfter 0 twinExpiry) ∧
      ascii "r" ∈ ((machine .defaults).exec (machine .defaults).init twinExpiry).tables.ipCounts.rooms
        (.v4 ⟨10, 0, 0, 1⟩) ∧
      (¬ ∃ entry, ((machine .defaults).exec (machine .defaults).init twinExpiry).tables.room?
          (ascii "r") = some entry ∧ ∃ addr ∈ entry.udpClients, ipKey addr = .v4 ⟨10, 0, 0, 1⟩) ∧
      ((machine .defaults).exec (machine .defaults).init twinExpiry).tables.ipCounts.countIpRooms
        (.v4 ⟨10, 0, 0, 1⟩) ≠
          (((machine .defaults).exec (machine .defaults).init twinExpiry).tables.roomsOf
            (.v4 ⟨10, 0, 0, 1⟩)).card := by
  refine ⟨(machine .defaults).run_exec (by decide), by decide +kernel, ?_, by decide +kernel⟩
  rintro ⟨entry, hroom, -⟩
  have hnone : (((machine .defaults).exec (machine .defaults).init twinExpiry).tables.room?
      (ascii "r")).isNone = true := by
    decide +kernel
  rw [hroom] at hnone
  cases hnone

end Qvole.Relay
