import Qvole.Relay.Sections

/-!
# Room entries under a sweep

A sweep keeps exactly the clients that are not stale and the pending registrations that have not
expired, and it keeps the per-IP tally of the pending map. The links it drops are those of stale
clients that had the only address of their IP in the room.
-/

namespace Qvole.Relay

/-! ### IP links -/

namespace Links

theorem rooms_addIpRoom (links : Links) (ip ip' : IpAddr) (room : Room) :
    (links.addIpRoom ip room).rooms ip' =
      if ip' = ip then insert room (links.rooms ip) else links.rooms ip' := by
  unfold addIpRoom
  rw [rooms, AList.lookup_insert_ite]
  by_cases hip : ip' = ip <;> simp [hip, rooms]

theorem mem_rooms_addIpRoom {links : Links} {ip ip' : IpAddr} {room room' : Room} :
    room' ∈ (links.addIpRoom ip room).rooms ip' ↔
      (ip' = ip ∧ room' = room) ∨ room' ∈ links.rooms ip' := by
  rw [rooms_addIpRoom]
  by_cases hip : ip' = ip
  · subst hip
    simp
  · simp [hip]

theorem rooms_removeIpRoom (links : Links) (ip ip' : IpAddr) (room : Room) :
    (links.removeIpRoom ip room).rooms ip' =
      if ip' = ip then (links.rooms ip).erase room else links.rooms ip' := by
  unfold removeIpRoom
  cases hlookup : links.lookup ip with
  | none =>
      by_cases hip : ip' = ip
      · subst hip
        simp [rooms, hlookup]
      · simp [hip]
  | some set =>
      by_cases hempty : set.erase room = ∅
      · simp only [if_pos hempty]
        rw [rooms, AList.lookup_erase_ite]
        by_cases hip : ip' = ip
        · subst hip
          simp [rooms, hlookup, hempty]
        · simp [hip, rooms]
      · simp only [if_neg hempty]
        rw [rooms, AList.lookup_insert_ite]
        by_cases hip : ip' = ip
        · subst hip
          simp [rooms, hlookup]
        · simp [hip, rooms]

theorem mem_rooms_unlink {links : Links} {unlinked : List (IpAddr × Room)} {ip : IpAddr}
    {room : Room} :
    room ∈ (links.unlink unlinked).rooms ip ↔ room ∈ links.rooms ip ∧ (ip, room) ∉ unlinked := by
  unfold unlink
  induction unlinked generalizing links with
  | nil => simp
  | cons p unlinked ih =>
      rw [List.foldl_cons, ih, rooms_removeIpRoom]
      by_cases hip : ip = p.1
      · subst hip
        simp only [if_true, Finset.mem_erase, List.mem_cons, not_or, Prod.ext_iff, true_and]
        tauto
      · simp [hip, Prod.ext_iff]

theorem rooms_unlink_subset (links : Links) (unlinked : List (IpAddr × Room)) (ip : IpAddr) :
    (links.unlink unlinked).rooms ip ⊆ links.rooms ip := by
  intro room hroom
  exact (mem_rooms_unlink.mp hroom).1

end Links

namespace RoomEntry

variable {entry : RoomEntry} {room : Room} {now : Instant} {regTtl : Duration}

/-! ### Clients by IP -/

theorem ofIp_iff {ip : IpAddr} :
    entry.ofIp ip = true ↔ ∃ addr ∈ entry.udpClients, ipKey addr = ip := by
  simp [ofIp, AList.mem_keys]

theorem otherOfIp_iff {addr : SocketAddr} {ip : IpAddr} :
    entry.otherOfIp addr ip = true ↔ ∃ other ∈ entry.udpClients, other ≠ addr ∧ ipKey other = ip := by
  simp [otherOfIp, AList.mem_keys]

/-! ### The per-IP tally of the pending map -/

/-- The per-IP counts are those of the pending map. -/
def Tallied (entry : RoomEntry) : Prop :=
  entry.pendingByIp.Tallies fun ip => entry.pending.countKeys fun a => ipKey a = ip

theorem Tallied.pendingCountForIp (h : entry.Tallied) (ip : IpAddr) :
    entry.pendingCountForIp ip = entry.pending.countKeys fun a => ipKey a = ip :=
  AList.Tallies.getD h ip

theorem Tallied.one_le (h : entry.Tallied) {src : SocketAddr} (hsrc : src ∈ entry.pending) :
    1 ≤ entry.pendingCountForIp (ipKey src) := by
  rw [h.pendingCountForIp]
  exact AList.countKeys_pos_iff.mpr ⟨src, hsrc, by simp⟩

theorem tallied_new (now : Instant) : (RoomEntry.new now).Tallied :=
  AList.tallies_empty fun _ => rfl

theorem Tallied.removePending (h : entry.Tallied) (src : SocketAddr) :
    (entry.removePending src).Tallied := by
  unfold RoomEntry.removePending
  by_cases hmem : src ∈ entry.pending
  · rw [if_pos hmem]
    exact AList.Tallies.erase h hmem
  · rwa [if_neg hmem]

theorem Tallied.addPending (h : entry.Tallied) (src : SocketAddr) (p : PendingReg) (maxPerRoom : Nat) :
    (entry.addPending src p maxPerRoom).1.Tallied := by
  unfold RoomEntry.addPending
  split
  · exact h
  · by_cases hmem : src ∈ entry.pending
    · simp only [if_pos hmem]
      exact AList.Tallies.replace h hmem p
    · simp only [if_neg hmem]
      exact AList.Tallies.insert h hmem p

theorem addPending_full {src : SocketAddr} {maxPerRoom : Nat} (hnew : src ∉ entry.pending)
    (hfull : entry.pending.size ≥ maxPerRoom) (p : PendingReg) :
    entry.addPending src p maxPerRoom = (entry, false) :=
  if_pos ⟨hnew, hfull⟩

theorem addPending_added {maxPerRoom : Nat} (hfree : ¬ entry.pending.size ≥ maxPerRoom)
    (src : SocketAddr) (p : PendingReg) : (entry.addPending src p maxPerRoom).2 = true := by
  rw [addPending, if_neg fun h => hfree h.2]

/-! ### Removing pending registrations -/

@[simp]
theorem removePending_udpClients (entry : RoomEntry) (src : SocketAddr) :
    (entry.removePending src).udpClients = entry.udpClients := by
  unfold removePending
  split <;> rfl

@[simp]
theorem removePending_t (entry : RoomEntry) (src : SocketAddr) :
    (entry.removePending src).t = entry.t := by
  unfold removePending
  split <;> rfl

theorem removePending_pending (entry : RoomEntry) (src : SocketAddr) :
    (entry.removePending src).pending = entry.pending.erase src := by
  unfold removePending
  split
  · rfl
  · rename_i hmem
    symm
    apply AList.ext
    exact List.kerase_of_notMem_keys fun h => hmem (AList.mem_keys.mpr h)

theorem foldl_removePending (srcs : List SocketAddr) (entry : RoomEntry) :
    (srcs.foldl removePending entry).udpClients = entry.udpClients ∧
      (srcs.foldl removePending entry).t = entry.t ∧
      (srcs.foldl removePending entry).pending =
        srcs.foldl (fun pending src => pending.erase src) entry.pending ∧
      (entry.Tallied → (srcs.foldl removePending entry).Tallied) := by
  induction srcs generalizing entry with
  | nil => exact ⟨rfl, rfl, rfl, id⟩
  | cons src srcs ih =>
      obtain ⟨hclients, ht, hpending, htallied⟩ := ih (entry.removePending src)
      refine ⟨?_, ?_, ?_, fun h => htallied (h.removePending src)⟩
      · rw [List.foldl_cons, hclients, removePending_udpClients]
      · rw [List.foldl_cons, ht, removePending_t]
      · rw [List.foldl_cons, hpending, removePending_pending, List.foldl_cons]

/-! ### The sweep -/

theorem removeStaleClients_lookup_udpClients (addr : SocketAddr) :
    (entry.removeStaleClients room now regTtl).1.udpClients.lookup addr =
      (entry.udpClients.lookup addr).filter fun info => !info.stale now regTtl := by
  unfold removeStaleClients
  simp only [(foldl_removePending _ _).1, staleClients]
  exact AList.lookup_foldl_erase_retain _ _ addr

theorem removeStaleClients_lookup_pending (addr : SocketAddr) :
    (entry.removeStaleClients room now regTtl).1.pending.lookup addr =
      (entry.pending.lookup addr).filter fun p => !p.expired now := by
  unfold removeStaleClients
  simp only [(foldl_removePending _ _).2.2.1, expiredPending]
  exact AList.lookup_foldl_erase_retain _ _ addr

@[simp]
theorem removeStaleClients_t : (entry.removeStaleClients room now regTtl).1.t = entry.t := by
  unfold removeStaleClients
  simp only [(foldl_removePending _ _).2.1]

theorem Tallied.removeStaleClients (h : entry.Tallied) :
    (entry.removeStaleClients room now regTtl).1.Tallied := by
  unfold RoomEntry.removeStaleClients
  exact (foldl_removePending _ _).2.2.2 h

theorem removeStaleClients_countKeys_udpClients_le (p : SocketAddr → Bool) :
    (entry.removeStaleClients room now regTtl).1.udpClients.countKeys p ≤
      entry.udpClients.countKeys p := by
  unfold removeStaleClients
  simp only [(foldl_removePending _ _).1]
  exact AList.countKeys_foldl_erase_le p _ _

theorem removeStaleClients_countKeys_pending_le (p : SocketAddr → Bool) :
    (entry.removeStaleClients room now regTtl).1.pending.countKeys p ≤
      entry.pending.countKeys p := by
  unfold removeStaleClients
  simp only [(foldl_removePending _ _).2.2.1]
  exact AList.countKeys_foldl_erase_le p _ _

theorem mem_removeStaleClients_udpClients {addr : SocketAddr} :
    addr ∈ (entry.removeStaleClients room now regTtl).1.udpClients ↔
      ∃ info, entry.udpClients.lookup addr = some info ∧ info.stale now regTtl = false := by
  rw [AList.mem_iff_lookup]
  simp only [removeStaleClients_lookup_udpClients, Option.filter_eq_some_iff]
  simp

theorem mem_udpClients_of_mem_removeStaleClients {addr : SocketAddr}
    (h : addr ∈ (entry.removeStaleClients room now regTtl).1.udpClients) :
    addr ∈ entry.udpClients := by
  obtain ⟨info, hinfo, -⟩ := mem_removeStaleClients_udpClients.mp h
  exact AList.mem_of_lookup hinfo

theorem mem_removeStaleClients_unlinked {ip : IpAddr} {room' : Room} :
    (ip, room') ∈ (entry.removeStaleClients room now regTtl).2 ↔
      room' = room ∧ ∃ addr info, entry.udpClients.lookup addr = some info ∧
        info.stale now regTtl = true ∧ ipKey addr = ip ∧ entry.otherOfIp addr ip = false := by
  unfold removeStaleClients
  simp only [List.mem_map, List.mem_filter, staleClients, ← AList.mem_keys, AList.mem_retain,
    Prod.mk.injEq, Bool.not_eq_true']
  constructor
  · rintro ⟨addr, ⟨⟨info, hlookup, hstale⟩, hother⟩, hip, hroom⟩
    exact ⟨hroom.symm, addr, info, hlookup, hstale, hip, hip ▸ hother⟩
  · rintro ⟨hroom, addr, info, hlookup, hstale, hip, hother⟩
    exact ⟨addr, ⟨⟨info, hlookup, hstale⟩, hip ▸ hother⟩, hip, hroom.symm⟩

theorem not_ofIp_of_unlinked {ip : IpAddr} {room' : Room}
    (h : (ip, room') ∈ (entry.removeStaleClients room now regTtl).2) :
    (entry.removeStaleClients room now regTtl).1.ofIp ip = false := by
  obtain ⟨-, addr, info, hlookup, hstale, hip, hother⟩ := mem_removeStaleClients_unlinked.mp h
  by_contra hof
  rw [Bool.not_eq_false, ofIp_iff] at hof
  obtain ⟨left, hleft, hleftIp⟩ := hof
  obtain ⟨leftInfo, hleftLookup, hleftLive⟩ := mem_removeStaleClients_udpClients.mp hleft
  have hne : left ≠ addr := by
    intro heq
    subst heq
    rw [hlookup] at hleftLookup
    cases hleftLookup
    rw [hstale] at hleftLive
    cases hleftLive
  have hcontra : entry.otherOfIp addr ip = true :=
    otherOfIp_iff.mpr ⟨left, AList.mem_of_lookup hleftLookup, hne, hleftIp⟩
  rw [hother] at hcontra
  cases hcontra

theorem ofIp_of_ofIp_removeStaleClients {ip : IpAddr}
    (h : (entry.removeStaleClients room now regTtl).1.ofIp ip = true) : entry.ofIp ip = true := by
  obtain ⟨addr, haddr, hip⟩ := ofIp_iff.mp h
  exact ofIp_iff.mpr ⟨addr, mem_udpClients_of_mem_removeStaleClients haddr, hip⟩

end RoomEntry

end Qvole.Relay
