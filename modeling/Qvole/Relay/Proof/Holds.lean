import Qvole.Relay.Proof.Steps

/-!
# What holds of every pending registration and every client

A property of all pending registrations and all admitted clients survives whatever only removes
some of them: sweeps, expiries and deletions. What is left to show of a step is the property of the
one entry it writes.
-/

namespace Qvole.Relay

/-- Every pending registration of a room satisfies `P` and every client `C`. -/
structure RoomEntry.Holds (P : SocketAddr → PendingReg → Prop) (C : SocketAddr → UdpClient → Prop)
    (entry : RoomEntry) : Prop where
  pending : ∀ src pend, entry.pending.lookup src = some pend → P src pend
  clients : ∀ src info, entry.udpClients.lookup src = some info → C src info

/-- Every registration in the global pending store satisfies `G`, every one in a room `P` and every
admitted client `C`. -/
structure Tables.Holds (G P : Room → SocketAddr → PendingReg → Prop)
    (C : Room → SocketAddr → UdpClient → Prop) (T : Tables) : Prop where
  global : ∀ room src pend, T.getPendingReg room src = some pend → G room src pend
  rooms : ∀ room entry, T.room? room = some entry → entry.Holds (P room) (C room)

namespace RoomEntry

variable {P P' : SocketAddr → PendingReg → Prop} {C C' : SocketAddr → UdpClient → Prop}
  {entry : RoomEntry} {src resolved : SocketAddr} {clock : Clock}

theorem holds_new (now : Instant) : (RoomEntry.new now).Holds P C where
  pending src pend hpend := by cases hpend
  clients src info hinfo := by cases hinfo

theorem Holds.imp (h : entry.Holds P C) (hP : ∀ src pend, P src pend → P' src pend)
    (hC : ∀ src info, C src info → C' src info) : entry.Holds P' C' :=
  ⟨fun src pend hpend => hP src pend (h.pending src pend hpend),
    fun src info hinfo => hC src info (h.clients src info hinfo)⟩

theorem Holds.removePending (h : entry.Holds P C) (src : SocketAddr) :
    (entry.removePending src).Holds P C := by
  refine ⟨fun src' pend hpend => ?_, fun src' info hinfo => ?_⟩
  · rw [removePending_pending, AList.lookup_erase_ite] at hpend
    split at hpend
    · cases hpend
    · exact h.pending src' pend hpend
  · rw [removePending_udpClients] at hinfo
    exact h.clients src' info hinfo

theorem Holds.removeStaleClients (h : entry.Holds P C) (room : Room) (now : Instant)
    (regTtl : Duration) : (entry.removeStaleClients room now regTtl).1.Holds P C := by
  refine ⟨fun src pend hpend => ?_, fun src info hinfo => ?_⟩
  · rw [removeStaleClients_lookup_pending, Option.filter_eq_some_iff] at hpend
    exact h.pending src pend hpend.1
  · rw [removeStaleClients_lookup_udpClients, Option.filter_eq_some_iff] at hinfo
    exact h.clients src info hinfo.1

theorem Holds.insertPending (h : entry.Holds P C) {pend : PendingReg} (hpend : P src pend)
    (pendingByIp : Table IpAddr Nat) :
    Holds P C { entry with pending := entry.pending.insert src pend, pendingByIp } := by
  refine ⟨fun src' pend' hlookup => ?_, h.clients⟩
  rw [AList.lookup_insert_ite] at hlookup
  split at hlookup
  · rename_i heq
    cases hlookup
    exact heq ▸ hpend
  · exact h.pending src' pend' hlookup

theorem Holds.insertClient (h : entry.Holds P C) {info : UdpClient} (hinfo : C src info)
    (t : Instant) : Holds P C { entry with udpClients := entry.udpClients.insert src info, t } := by
  refine ⟨h.pending, fun src' info' hlookup => ?_⟩
  rw [AList.lookup_insert_ite] at hlookup
  split at hlookup
  · rename_i heq
    cases hlookup
    exact heq ▸ hinfo
  · exact h.clients src' info' hlookup

theorem Holds.addPending (h : entry.Holds P C) {pend : PendingReg} (hpend : P src pend)
    (maxPerRoom : Nat) : (entry.addPending src pend maxPerRoom).1.Holds P C := by
  unfold RoomEntry.addPending
  split
  · exact h
  · exact h.insertPending hpend _

/-- The rule for a registration in an existing room: what it writes is a challenge it sends, a
refreshed client, or a client whose cookie was accepted. -/
theorem Holds.sectionStep (h : entry.Holds P C) {cfg : Config} {room : Room} {cookie : Bytes}
    {rnd : Cookie} {due : Prop} {links : Links} {result : RoomEntry × Links × RegAction}
    (hissue : ∀ c, result.2.2 = .challenge c →
      P src { cookie := c, createdAt := clock.stamp, resolvedAddr := src })
    (hrefresh : ∀ info, C src info →
      C src { info with lastSeen := clock.stamp, resolvedAddr := some src })
    (hadmits : ∀ pend, entry.pending.lookup src = some pend → pend.Accepts cookie clock →
      C src (.new (some pend.resolvedAddr) clock.stamp clock.window))
    (hstep : SectionStep cfg room cookie src clock rnd due entry links result) :
    result.1.Holds P C := by
  cases hstep with
  | rejected => exact h
  | expired => exact h.removePending src
  | swept _ _ hswept =>
      have hafter := h.removeStaleClients room clock.sweep cfg.regTtl
      cases hswept with
      | full => exact hafter
      | refreshed info hinfo =>
          exact hafter.insertClient (hrefresh info (hafter.clients src info hinfo)) _
      | reissued pend _ _ => exact hafter.insertPending (hissue _ rfl) _
      | added => exact hafter.addPending (hissue _ rfl) _
      | completed pend links' hpend hmatch hexpired _ _ =>
          exact (hafter.removePending src).insertClient (hadmits pend hpend ⟨hmatch, hexpired⟩) _

end RoomEntry

namespace Tables

variable {G G' P P' : Room → SocketAddr → PendingReg → Prop}
  {C C' : Room → SocketAddr → UdpClient → Prop}
  {T : Tables} {room : Room} {src : SocketAddr} {now : Instant} {regTtl : Duration}

theorem holds_empty : Tables.empty.Holds G P C where
  global room src pend hpend := by cases hpend
  rooms room entry hentry := by cases hentry

theorem Holds.imp (h : T.Holds G P C) (hG : ∀ room src pend, G room src pend → G' room src pend)
    (hP : ∀ room src pend, P room src pend → P' room src pend)
    (hC : ∀ room src info, C room src info → C' room src info) : T.Holds G' P' C' :=
  ⟨fun room src pend hpend => hG room src pend (h.global room src pend hpend),
    fun room entry hentry => (h.rooms room entry hentry).imp (hP room) (hC room)⟩

theorem Holds.pendingStep {T' : Tables} (h : T.Holds G P C) (hsame : SameRooms T T')
    (hglobal : ∀ room src pend, T'.getPendingReg room src = some pend → G room src pend) :
    T'.Holds G P C :=
  ⟨hglobal, fun room entry hentry => h.rooms room entry (hsame.room? room ▸ hentry)⟩

theorem Holds.deletePendingReg (h : T.Holds G P C) (room : Room) (src : SocketAddr) :
    (T.deletePendingReg room src).Holds G P C := by
  refine h.pendingStep (sameRooms_deletePendingReg T room src) fun room' src' pend hpend => ?_
  unfold Tables.deletePendingReg getPendingReg at hpend
  split at hpend
  · simp only [AList.lookup_erase_ite] at hpend
    split at hpend
    · cases hpend
    · exact h.global room' src' pend hpend
  · exact h.global room' src' pend hpend

theorem Holds.removeStalePendingRegs (h : T.Holds G P C) (now : Instant) :
    (T.removeStalePendingRegs now).Holds G P C := by
  refine h.pendingStep (sameRooms_removeStalePendingRegs T now) fun room' src' pend hpend => ?_
  have hkept : (T.removeStalePendingRegs now).pendingRegs =
      T.pendingRegs.retain fun _ p => !p.expired now := by
    unfold Tables.removeStalePendingRegs
    simp only
    split <;> rfl
  rw [getPendingReg, hkept, AList.lookup_retain, Option.filter_eq_some_iff] at hpend
  exact h.global room' src' pend hpend.1

theorem Holds.storePendingReg (h : T.Holds G P C) {cfg : Config} {pend : PendingReg}
    (hpend : G room src pend) :
    (T.storePendingReg cfg room src pend).1.Holds G P C := by
  have hinsert : ∀ room' src' pend', (T.pendingRegs.insert (room, src) pend).lookup (room', src') =
      some pend' → G room' src' pend' := by
    intro room' src' pend' hlookup
    rw [AList.lookup_insert_ite] at hlookup
    split at hlookup
    · rename_i heq
      cases hlookup
      cases heq
      exact hpend
    · exact h.global room' src' pend' hlookup
  refine h.pendingStep (sameRooms_storePendingReg T cfg room src pend) ?_
  unfold Tables.storePendingReg getPendingReg
  split
  · exact hinsert
  · split
    · exact h.global
    · exact hinsert

theorem Holds.evictShard (h : T.Holds G P C) (i : Fin numShards) :
    (T.evictShard i now regTtl).1.Holds G P C := by
  refine ⟨h.global, fun room after hafter => ?_⟩
  rcases room?_evictShard_cases hafter with ⟨hold, -⟩ | ⟨entry, hentry, rfl⟩
  · exact h.rooms room after hold
  · exact (h.rooms room entry hentry).removeStaleClients room now regTtl

theorem Holds.subRooms (h : T.Holds G P C) (n : Nat) : (T.subRooms n).Holds G P C := by
  refine ⟨fun room src pend hpend => ?_, fun room entry hentry => ?_⟩
  · rw [getPendingReg, pendingRegs_subRooms] at hpend
    exact h.global room src pend hpend
  · rw [room?_subRooms] at hentry
    exact h.rooms room entry hentry

theorem Holds.evictStaleRoomsAll (h : T.Holds G P C) :
    (T.evictStaleRoomsAll now regTtl).Holds G P C :=
  Holds.subRooms (evictShards_induct (fun _ i hT => hT.evictShard i) (List.finRange numShards) h) _

theorem Holds.sweepIfFull (h : T.Holds G P C) (cfg : Config) (clock : Clock) :
    (T.sweepIfFull cfg clock).Holds G P C := by
  unfold Tables.sweepIfFull
  split
  · exact h.evictStaleRoomsAll
  · exact h

theorem Holds.resweepIfFull (h : T.Holds G P C) (cfg : Config) (room : Room) (clock : Clock) :
    (T.resweepIfFull cfg room clock).Holds G P C := by
  unfold Tables.resweepIfFull
  split
  · exact (h.evictShard _).subRooms _
  · exact h

theorem Holds.roomTick (h : T.Holds G P C) (cfg : Config) (sweep expire : Instant) :
    (T.roomTick cfg sweep expire).Holds G P C :=
  h.evictStaleRoomsAll.removeStalePendingRegs expire

theorem Holds.setRoom (h : T.Holds G P C) {entry : RoomEntry} (hentry : entry.Holds (P room) (C room)) :
    (T.setRoom room entry).Holds G P C := by
  refine ⟨h.global, fun room' after hafter => ?_⟩
  rw [room?_setRoom] at hafter
  split at hafter
  · rename_i heq
    cases hafter
    exact heq ▸ hentry
  · exact h.rooms room' after hafter

theorem Holds.inRoom (h : T.Holds G P C) {result : RoomEntry × Links × RegAction}
    (hentry : result.1.Holds (P room) (C room)) : (T.inRoom room result).1.Holds G P C := by
  have hset := h.setRoom hentry
  exact ⟨hset.global, hset.rooms⟩

/-! ### Registrations -/

/-- The relay holds `pend` for `src` in `room`, in the global store or in the room. -/
def Pending (T : Tables) (room : Room) (src : SocketAddr) (pend : PendingReg) : Prop :=
  T.getPendingReg room src = some pend ∨
    ∃ entry, T.room? room = some entry ∧ entry.pending.lookup src = some pend

theorem Holds.regStep (h : T.Holds G P C) {cfg : Config} {cookie : Bytes} {clock : Clock}
    {rnd : Cookie} {result : Tables × RegAction}
    (hstore : ∀ c, result.2 = .challenge c →
      G room src { cookie := c, createdAt := clock.stamp, resolvedAddr := src })
    (hissue : ∀ c, result.2 = .challenge c →
      P room src { cookie := c, createdAt := clock.stamp, resolvedAddr := src })
    (hrefresh : ∀ info, C room src info →
      C room src { info with lastSeen := clock.stamp, resolvedAddr := some src })
    (hadmits : ∀ pend, T.Pending room src pend → pend.Accepts cookie clock →
      C room src (.new (some pend.resolvedAddr) clock.stamp clock.window))
    (hstep : RegStep cfg room cookie src clock rnd T result) : result.1.Holds G P C := by
  cases hstep with
  | rejected => exact h
  | expired => exact h.deletePendingReg room src
  | stored => exact h.storePendingReg (hstore _ rfl)
  | inRoom entry result _ hroom hsection =>
      refine h.inRoom ((h.rooms room entry hroom).sectionStep hissue hrefresh ?_ hsection)
      exact fun pend hpend => hadmits pend (Or.inr ⟨entry, hroom, hpend⟩)
  | completing pend result hpend haccepts hcomplete =>
      have hclient := hadmits pend (Or.inl hpend) haccepts
      have hswept := (h.deletePendingReg room src).sweepIfFull cfg clock
      cases hcomplete with
      | refused => exact hswept.resweepIfFull cfg room clock
      | created =>
          have hset := (hswept.resweepIfFull cfg room clock).setRoom
            ((RoomEntry.holds_new clock.stamp).insertClient hclient clock.touch)
          exact ⟨hset.global, hset.rooms⟩
      | inRoom entry result hentry hadmitted =>
          have hafter := (hswept.rooms room entry hentry).removeStaleClients room clock.resweep
            cfg.regTtl
          refine hswept.inRoom ?_
          cases hadmitted with
          | full => exact hafter
          | admitted => exact hafter.insertClient hclient _

end Tables

end Qvole.Relay
