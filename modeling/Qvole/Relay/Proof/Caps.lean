import Qvole.Relay.Proof.Entries
import Qvole.Relay.Proof.Wire

/-!
# Admission caps

The counters the caps are checked against are those of the maps they stand for, every admitted
client's IP is linked to its room, and every cap holds. The three facts are one invariant: a cap is
kept because the counter that was compared with it is the number it claims to be.
-/

namespace Qvole.Relay

/-! ### Links of one room -/

def RoomEntry.LinkedTo (entry : RoomEntry) (room : Room) (links : Links) : Prop :=
  ∀ ip, entry.ofIp ip = true → room ∈ links.rooms ip

def Links.SameOutside (room : Room) (links links' : Links) : Prop :=
  ∀ room' ip, room' ≠ room → (room' ∈ links'.rooms ip ↔ room' ∈ links.rooms ip)

section Sections

variable {cfg : Config} {room : Room} {cookie : Bytes} {src resolved : SocketAddr} {clock : Clock}
  {rnd : Cookie} {before entry : RoomEntry} {links links' : Links}

theorem Links.SameOutside.trans {links'' : Links} (h : Links.SameOutside room links links')
    (h' : Links.SameOutside room links' links'') : Links.SameOutside room links links'' :=
  fun room' ip hne => (h' room' ip hne).trans (h room' ip hne)

theorem Links.sameOutside_addIpRoom (links : Links) (ip : IpAddr) (room : Room) :
    Links.SameOutside room links (links.addIpRoom ip room) := by
  intro room' ip' hne
  rw [Links.mem_rooms_addIpRoom]
  simp [hne]

theorem RoomEntry.sameOutside_sweep (entry : RoomEntry) (links : Links) (room : Room)
    (now : Instant) (regTtl : Duration) :
    Links.SameOutside room links (entry.sweep links room now regTtl).2 := by
  intro room' ip hne
  simp only [RoomEntry.sweep, Links.mem_rooms_unlink, RoomEntry.mem_removeStaleClients_unlinked,
    hne, false_and, not_false_eq_true, and_true]

theorem LinkUpdate.sameOutside (h : LinkUpdate room src entry links links') :
    Links.SameOutside room links links' := by
  rcases h with ⟨rfl, -⟩ | ⟨rfl, -⟩
  · exact fun _ _ _ => Iff.rfl
  · exact Links.sameOutside_addIpRoom _ _ _

theorem SweptStep.sameOutside {result : RoomEntry × Links × RegAction}
    (h : SweptStep cfg room cookie src clock rnd before entry links result) :
    Links.SameOutside room links result.2.1 := by
  cases h with
  | completed pend links' _ _ _ _ hlinks => exact hlinks.sameOutside
  | _ => exact fun _ _ _ => Iff.rfl

theorem SectionStep.sameOutside {due : Prop} {result : RoomEntry × Links × RegAction}
    (h : SectionStep cfg room cookie src clock rnd due entry links result) :
    Links.SameOutside room links result.2.1 := by
  cases h with
  | rejected => exact fun _ _ _ => Iff.rfl
  | expired => exact fun _ _ _ => Iff.rfl
  | swept _ _ hswept => exact (entry.sameOutside_sweep links room _ _).trans hswept.sameOutside

theorem AdmitStep.sameOutside {result : RoomEntry × Links × RegAction}
    (h : AdmitStep cfg room src resolved clock entry links result) :
    Links.SameOutside room links result.2.1 := by
  cases h with
  | full => exact fun _ _ _ => Iff.rfl
  | admitted links' _ hlinks => exact hlinks.sameOutside

theorem RoomEntry.ofIp_admitClient {ip : IpAddr} :
    (entry.admitClient src resolved clock).ofIp ip = true ↔ ipKey src = ip ∨ entry.ofIp ip = true := by
  simp only [RoomEntry.ofIp_iff, RoomEntry.admitClient, AList.mem_insert]
  constructor
  · rintro ⟨addr, rfl | hmem, hip⟩
    · exact Or.inl hip
    · exact Or.inr ⟨addr, hmem, hip⟩
  · rintro (hip | ⟨addr, hmem, hip⟩)
    · exact ⟨src, Or.inl rfl, hip⟩
    · exact ⟨addr, Or.inr hmem, hip⟩

@[simp]
theorem RoomEntry.ofIp_removePending (entry : RoomEntry) (src : SocketAddr) (ip : IpAddr) :
    (entry.removePending src).ofIp ip = entry.ofIp ip := by
  simp [RoomEntry.ofIp]

theorem RoomEntry.ofIp_updateClient (hmem : src ∈ entry.udpClients) (info : UdpClient)
    (ip : IpAddr) :
    RoomEntry.ofIp { entry with udpClients := entry.udpClients.insert src info } ip =
      entry.ofIp ip := by
  rw [Bool.eq_iff_iff, RoomEntry.ofIp_iff, RoomEntry.ofIp_iff]
  simp only [AList.mem_insert]
  constructor
  · rintro ⟨addr, rfl | hold, hip⟩
    · exact ⟨addr, hmem, hip⟩
    · exact ⟨addr, hold, hip⟩
  · rintro ⟨addr, hold, hip⟩
    exact ⟨addr, Or.inr hold, hip⟩

theorem RoomEntry.ofIp_addPending (src : SocketAddr) (p : PendingReg) (max : Nat) (ip : IpAddr) :
    (entry.addPending src p max).1.ofIp ip = entry.ofIp ip := by
  unfold RoomEntry.addPending
  split <;> rfl

theorem RoomEntry.LinkedTo.sweep (h : entry.LinkedTo room links) (now : Instant)
    (regTtl : Duration) :
    (entry.sweep links room now regTtl).1.LinkedTo room
      (entry.sweep links room now regTtl).2 := by
  intro ip hof
  simp only [RoomEntry.sweep] at hof ⊢
  rw [Links.mem_rooms_unlink]
  refine ⟨h ip (RoomEntry.ofIp_of_ofIp_removeStaleClients hof), fun hunlinked => ?_⟩
  rw [RoomEntry.not_ofIp_of_unlinked hunlinked] at hof
  cases hof

theorem RoomEntry.LinkedTo.admitClient (h : entry.LinkedTo room links)
    (hlinks : LinkUpdate room src entry links links') :
    (entry.admitClient src resolved clock).LinkedTo room links' := by
  intro ip hof
  rcases hlinks with ⟨rfl, hsrc⟩ | ⟨rfl, -⟩
  · rcases RoomEntry.ofIp_admitClient.mp hof with rfl | hold
    · exact h _ hsrc
    · exact h ip hold
  · rw [Links.mem_rooms_addIpRoom]
    rcases RoomEntry.ofIp_admitClient.mp hof with hip | hold
    · exact Or.inl ⟨hip.symm, rfl⟩
    · exact Or.inr (h ip hold)

theorem RoomEntry.LinkedTo.sweptStep (h : entry.LinkedTo room links)
    {result : RoomEntry × Links × RegAction}
    (hstep : SweptStep cfg room cookie src clock rnd before entry links result) :
    result.1.LinkedTo room result.2.1 := by
  cases hstep with
  | full => exact h
  | refreshed info hinfo =>
      intro ip hof
      rw [RoomEntry.ofIp_updateClient (AList.mem_of_lookup hinfo)] at hof
      exact h ip hof
  | reissued => exact h
  | added =>
      intro ip hof
      rw [RoomEntry.ofIp_addPending] at hof
      exact h ip hof
  | completed pend links' _ _ _ _ hlinks =>
      have hentry : (entry.removePending src).LinkedTo room links := by
        intro ip hof
        rw [RoomEntry.ofIp_removePending] at hof
        exact h ip hof
      refine hentry.admitClient ?_
      simpa [LinkUpdate, RoomEntry.otherOfIp] using hlinks

/-! ### Links within the cap -/

def Links.Capped (cfg : Config) (links : Links) : Prop :=
  ∀ ip, links.countIpRooms ip ≤ cfg.maxRoomsPerIp

theorem Links.Capped.subset (h : links.Capped cfg)
    (hsub : ∀ ip, links'.rooms ip ⊆ links.rooms ip) : links'.Capped cfg :=
  fun ip => (Finset.card_le_card (hsub ip)).trans (h ip)

theorem Links.Capped.addIpRoom (h : links.Capped cfg) {ip : IpAddr}
    (hroom : room ∈ links.rooms ip ∨ links.countIpRooms ip < cfg.maxRoomsPerIp) :
    (links.addIpRoom ip room).Capped cfg := by
  intro ip'
  unfold Links.countIpRooms
  rw [Links.rooms_addIpRoom]
  by_cases hip : ip' = ip
  · subst hip
    rw [if_pos rfl]
    rcases hroom with hmem | hlt
    · rw [Finset.insert_eq_of_mem hmem]
      exact h ip'
    · exact (Finset.card_insert_le _ _).trans hlt
  · rw [if_neg hip]
    exact h ip'

theorem Links.Capped.linkUpdate (h : links.Capped cfg) (hlinked : entry.LinkedTo room links)
    (hadmits : MayAdmit cfg src entry links) (hlinks : LinkUpdate room src entry links links') :
    links'.Capped cfg := by
  rcases hlinks with ⟨rfl, -⟩ | ⟨rfl, -⟩
  · exact h
  · refine h.addIpRoom ?_
    cases hof : entry.ofIp (ipKey src) with
    | true => exact Or.inl (hlinked _ hof)
    | false => exact Or.inr (hadmits.links hof)

theorem Links.Capped.sweep (h : links.Capped cfg) (entry : RoomEntry) (room : Room) (now : Instant)
    (regTtl : Duration) : (entry.sweep links room now regTtl).2.Capped cfg :=
  h.subset fun ip => Links.rooms_unlink_subset links _ ip

theorem Links.Capped.sweptStep (h : links.Capped cfg) (hlinked : entry.LinkedTo room links)
    {result : RoomEntry × Links × RegAction}
    (hstep : SweptStep cfg room cookie src clock rnd before entry links result) :
    result.2.1.Capped cfg := by
  cases hstep with
  | completed pend links' _ _ _ hadmits hlinks => exact h.linkUpdate hlinked hadmits hlinks
  | _ => exact h

end Sections

/-! ### The room table -/

/-- The part of the invariant about rooms and links. -/
structure Tables.RoomsSound (cfg : Config) (T : Tables) : Prop where
  placed : T.Placed
  entries : ∀ room entry, T.room? room = some entry → entry.Capped cfg
  linked : ∀ room entry, T.room? room = some entry → entry.LinkedTo room T.ipCounts
  links : T.ipCounts.Capped cfg

namespace Tables

variable {cfg : Config} {room : Room} {cookie : Bytes} {src resolved : SocketAddr} {clock : Clock}
  {rnd : Cookie} {T : Tables}

theorem RoomsSound.evictShard (h : T.RoomsSound cfg) (i : Fin numShards) (now : Instant)
    (regTtl : Duration) : (T.evictShard i now regTtl).1.RoomsSound cfg := by
  refine ⟨placed_evictShard h.placed i, ?_, ?_, ?_⟩
  · intro room after hafter
    rcases room?_evictShard_cases hafter with ⟨hold, -⟩ | ⟨entry, hentry, rfl⟩
    · exact h.entries room after hold
    · exact (h.entries room entry hentry).removeStaleClients room now regTtl
  · intro room after hafter ip hof
    rw [mem_rooms_evictShard h.placed]
    rcases room?_evictShard_cases hafter with ⟨hold, hi⟩ | ⟨entry, hentry, rfl⟩
    · refine ⟨h.linked room after hold ip hof, ?_⟩
      rintro ⟨-, hcontra, -, -⟩
      exact hi hcontra
    · refine ⟨h.linked room entry hentry ip (RoomEntry.ofIp_of_ofIp_removeStaleClients hof), ?_⟩
      rintro ⟨entry', -, hentry', hunlinked⟩
      rw [hentry] at hentry'
      cases hentry'
      rw [RoomEntry.not_ofIp_of_unlinked hunlinked] at hof
      cases hof
  · exact h.links.subset fun ip => Links.rooms_unlink_subset _ _ ip

theorem RoomsSound.setRoom (h : T.RoomsSound cfg) {entry : RoomEntry} {links : Links}
    (hentry : entry.Capped cfg) (hlinked : entry.LinkedTo room links) (hlinks : links.Capped cfg)
    (houtside : Links.SameOutside room T.ipCounts links) :
    Tables.RoomsSound cfg { T.setRoom room entry with ipCounts := links } := by
  refine ⟨placed_setRoom h.placed entry, ?_, ?_, hlinks⟩
  · intro room' after hafter
    change (T.setRoom room entry).room? room' = some after at hafter
    rw [room?_setRoom] at hafter
    by_cases hroom : room' = room
    · rw [if_pos hroom] at hafter
      cases hafter
      exact hentry
    · rw [if_neg hroom] at hafter
      exact h.entries room' after hafter
  · intro room' after hafter ip hof
    change (T.setRoom room entry).room? room' = some after at hafter
    change room' ∈ links.rooms ip
    rw [room?_setRoom] at hafter
    by_cases hroom : room' = room
    · subst hroom
      rw [if_pos rfl] at hafter
      cases hafter
      exact hlinked ip hof
    · rw [if_neg hroom] at hafter
      rw [houtside room' ip hroom]
      exact h.linked room' after hafter ip hof

theorem RoomsSound.sectionStep (h : T.RoomsSound cfg) {entry : RoomEntry} {due : Prop}
    {result : RoomEntry × Links × RegAction} (hroom : T.room? room = some entry)
    (hstep : SectionStep cfg room cookie src clock rnd due entry T.ipCounts result) :
    (T.inRoom room result).1.RoomsSound cfg := by
  have hcapped := (h.entries room entry hroom).sectionStep hstep
  have houtside := hstep.sameOutside
  have hlinked := h.linked room entry hroom
  cases hstep with
  | rejected => exact h.setRoom hcapped hlinked h.links houtside
  | expired =>
      refine h.setRoom hcapped (fun ip hof => hlinked ip ?_) h.links houtside
      rwa [RoomEntry.ofIp_removePending] at hof
  | swept _ _ hswept =>
      have hafter := hlinked.sweep clock.sweep cfg.regTtl
      exact h.setRoom hcapped (hafter.sweptStep hswept)
        ((h.links.sweep entry room _ _).sweptStep hafter hswept) houtside

theorem RoomsSound.admitStep (h : T.RoomsSound cfg) {entry : RoomEntry} {now : Instant}
    {result : RoomEntry × Links × RegAction} (hroom : T.room? room = some entry)
    (hstep : AdmitStep cfg room src resolved clock
      (entry.sweep T.ipCounts room now cfg.regTtl).1
      (entry.sweep T.ipCounts room now cfg.regTtl).2 result) :
    (T.inRoom room result).1.RoomsSound cfg := by
  have hentry : (entry.sweep T.ipCounts room now cfg.regTtl).1.Capped cfg :=
    (h.entries room entry hroom).removeStaleClients room now cfg.regTtl
  have hlinked := (h.linked room entry hroom).sweep now cfg.regTtl
  have hlinks := h.links.sweep entry room now cfg.regTtl
  have houtside := (entry.sameOutside_sweep T.ipCounts room now cfg.regTtl).trans hstep.sameOutside
  have hcapped := hentry.admitStep hstep
  cases hstep with
  | full => exact h.setRoom hcapped hlinked hlinks houtside
  | admitted links' hadmits hupdate =>
      exact h.setRoom hcapped (hlinked.admitClient hupdate) (hlinks.linkUpdate hlinked hadmits hupdate)
        houtside

theorem RoomsSound.createRoom (h : T.RoomsSound cfg) (hhard : 1 ≤ cfg.maxClientsHard)
    (hperPrefix : 1 ≤ cfg.maxClientsPerPrefixPerRoom)
    (hlinks : T.ipCounts.countIpRooms (ipKey src) < cfg.maxRoomsPerIp) :
    (T.createRoom room src resolved clock).RoomsSound cfg := by
  have hlinked : (RoomEntry.created src resolved clock).LinkedTo room
      (T.ipCounts.addIpRoom (ipKey src) room) := by
    intro ip hof
    rcases RoomEntry.ofIp_admitClient.mp hof with hip | hnone
    · exact Links.mem_rooms_addIpRoom.mpr (Or.inl ⟨hip.symm, rfl⟩)
    · cases hnone
  have hset := h.setRoom (RoomEntry.capped_created hhard hperPrefix) hlinked
    (h.links.addIpRoom (Or.inr hlinks)) (Links.sameOutside_addIpRoom _ _ _)
  exact ⟨hset.placed, hset.entries, hset.linked, hset.links⟩

/-! ### The global pending store -/

/-- The part of the invariant about the global pending store. -/
structure PendingSound (cfg : Config) (T : Tables) : Prop where
  total : T.pendingTotal = T.pendingRegs.size
  tally : T.pendingIp.Tallies fun ip => T.pendingRegs.countKeys fun key => ipKey key.2 = ip
  capped : T.pendingRegs.size ≤ cfg.maxPendingGlobal
  perIp : ∀ ip, T.pendingCountForIp ip ≤ cfg.maxPendingPerIp

theorem pendingCountForIp_of_tally
    (h : T.pendingIp.Tallies fun ip => T.pendingRegs.countKeys fun key => ipKey key.2 = ip)
    (ip : IpAddr) :
    T.pendingCountForIp ip = T.pendingRegs.countKeys fun key => ipKey key.2 = ip :=
  h.getD ip

theorem fetchSub_of_le {a b : Nat} (h : b ≤ a) : fetchSub a b = a - b := if_pos h

theorem PendingSound.deletePendingReg (h : T.PendingSound cfg) (room : Room) (src : SocketAddr) :
    (T.deletePendingReg room src).PendingSound cfg := by
  unfold Tables.deletePendingReg
  by_cases hmem : (room, src) ∈ T.pendingRegs
  · rw [if_pos hmem]
    have hsize := AList.size_erase T.pendingRegs (room, src)
    rw [if_pos hmem] at hsize
    have htally : (T.pendingIp.decr (ipKey src)).Tallies fun ip =>
        (T.pendingRegs.erase (room, src)).countKeys fun key => ipKey key.2 = ip :=
      AList.Tallies.erase h.tally hmem
    refine ⟨?_, htally, ?_, fun ip => ?_⟩
    · simp only [h.total]
      rw [fetchSub_of_le (by omega)]
      omega
    · exact (AList.size_erase_le _ _).trans h.capped
    · have hold := h.perIp ip
      rw [pendingCountForIp_of_tally h.tally] at hold
      rw [pendingCountForIp_of_tally htally]
      exact (AList.countKeys_erase_le _ _ _).trans hold
  · rwa [if_neg hmem]

theorem PendingSound.storePendingReg (h : T.PendingSound cfg) (p : PendingReg)
    (hip : T.pendingCountForIp (ipKey src) < cfg.maxPendingPerIp)
    (htotal : (room, src) ∉ T.pendingRegs → T.pendingTotal < cfg.maxPendingGlobal) :
    (T.storePendingReg cfg room src p).1.PendingSound cfg := by
  unfold Tables.storePendingReg
  by_cases hmem : (room, src) ∈ T.pendingRegs
  · rw [if_pos hmem]
    refine ⟨?_, ?_, ?_, h.perIp⟩
    · simp only [AList.size_insert, if_pos hmem]
      exact h.total
    · exact AList.Tallies.replace h.tally hmem p
    · simp only [AList.size_insert, if_pos hmem]
      exact h.capped
  · have hlt := htotal hmem
    rw [if_neg hmem, if_neg (Nat.not_le_of_lt hlt)]
    have htally : (T.pendingIp.incr (ipKey src)).Tallies fun ip =>
        (T.pendingRegs.insert (room, src) p).countKeys fun key => ipKey key.2 = ip :=
      AList.Tallies.insert h.tally hmem p
    refine ⟨?_, htally, ?_, fun ip => ?_⟩
    · simp only [AList.size_insert, if_neg hmem, h.total]
    · simp only [AList.size_insert, if_neg hmem]
      rw [h.total] at hlt
      exact hlt
    · have hold := h.perIp ip
      rw [pendingCountForIp_of_tally h.tally] at hold hip
      rw [pendingCountForIp_of_tally htally, AList.countKeys_insert]
      by_cases heq : ipKey src = ip
      · subst heq
        rw [if_pos ⟨by simp, hmem⟩]
        exact hip
      · rw [if_neg fun hcond => heq (by simpa using hcond.1)]
        exact hold

theorem PendingSound.removeStalePendingRegs (h : T.PendingSound cfg) (now : Instant) :
    (T.removeStalePendingRegs now).PendingSound cfg := by
  let stale := T.pendingRegs.retain fun _ p => p.expired now
  let kept := T.pendingRegs.retain fun _ p => !p.expired now
  have hsize : stale.size + kept.size = T.pendingRegs.size := by
    have hsplit := AList.countKeys_retain_add (fun _ p => p.expired now) (fun _ => true) T.pendingRegs
    simpa only [← AList.size_eq_countKeys] using hsplit
  have hkeptTally : (List.foldl (fun counts ip => counts.decr ip) T.pendingIp
      (stale.keys.map fun key => ipKey key.2)).Tallies fun ip =>
        kept.countKeys fun key => ipKey key.2 = ip :=
    AList.Tallies.retain h.tally _
  -- the counters are those of what is kept, whichever branch computes them
  have hsound : ∀ counted : Tables, counted.pendingRegs = kept →
      counted.pendingIp = List.foldl (fun counts ip => counts.decr ip) T.pendingIp
        (stale.keys.map fun key => ipKey key.2) →
      counted.pendingTotal = kept.size → counted.PendingSound cfg := by
    intro counted hregs hip htotal
    have htally : counted.pendingIp.Tallies fun ip =>
        counted.pendingRegs.countKeys fun key => ipKey key.2 = ip := by
      rw [hip, hregs]
      exact hkeptTally
    refine ⟨by rw [htotal, hregs], htally, ?_, fun ip => ?_⟩
    · have hold := h.capped
      rw [hregs]
      omega
    · have hold := h.perIp ip
      rw [pendingCountForIp_of_tally h.tally] at hold
      rw [pendingCountForIp_of_tally htally, hregs]
      exact (AList.countKeys_retain_le _ _ _).trans hold
  have htotal := h.total
  unfold Tables.removeStalePendingRegs
  by_cases hempty : (stale.keys.map fun key => ipKey key.2).isEmpty = true
  · have hnil : stale.keys.map (fun key => ipKey key.2) = [] := List.isEmpty_iff.mp hempty
    have hzero : stale.size = 0 := by
      rw [AList.size, List.map_eq_nil_iff.mp hnil]
      rfl
    rw [hnil] at hsound
    simp only [stale] at hempty
    simp only [hempty, if_true]
    refine hsound _ rfl rfl ?_
    change T.pendingTotal = kept.size
    omega
  · simp only [stale] at hempty
    simp only [hempty, Bool.false_eq_true, if_false]
    refine hsound _ rfl rfl ?_
    have hlength : (stale.keys.map fun key => ipKey key.2).length = stale.size :=
      List.length_map _
    change fetchSub T.pendingTotal (stale.keys.map fun key => ipKey key.2).length = kept.size
    rw [hlength, fetchSub_of_le (by omega)]
    omega

/-! ### The whole invariant -/

/-- Counters and links are those of the maps, and every cap holds. -/
structure Sound (cfg : Config) (T : Tables) : Prop extends T.RoomsSound cfg, T.PendingSound cfg where
  counted : T.totalRoomCount = T.roomCount
  rooms : T.roomCount ≤ cfg.maxRooms

theorem sound_empty (cfg : Config) : Tables.empty.Sound cfg where
  placed i room hmem := absurd hmem (AList.notMem_empty room)
  entries room entry hroom := by cases hroom
  linked room entry hroom := by cases hroom
  links ip := Nat.zero_le _
  total := rfl
  tally := AList.tallies_empty fun _ => rfl
  capped := Nat.zero_le _
  perIp ip := Nat.zero_le _
  counted := rfl
  rooms := Nat.zero_le _

theorem RoomsSound.congr {T' : Tables} (h : T.RoomsSound cfg) (hsame : SameRooms T T') :
    T'.RoomsSound cfg where
  placed := by
    rw [Placed, hsame.shards]
    exact h.placed
  entries room entry hroom := h.entries room entry (hsame.room? room ▸ hroom)
  linked room entry hroom := by
    rw [hsame.ipCounts]
    exact h.linked room entry (hsame.room? room ▸ hroom)
  links := by
    rw [hsame.ipCounts]
    exact h.links

theorem Sound.pendingStep {T' : Tables} (h : T.Sound cfg) (hsame : SameRooms T T')
    (hpending : T'.PendingSound cfg) : T'.Sound cfg := by
  have hcount : T'.roomCount = T.roomCount := by
    rw [roomCount, roomCount, hsame.shards]
  refine { h.toRoomsSound.congr hsame, hpending with counted := ?_, rooms := ?_ }
  · rw [hsame.totalRoomCount, hcount]
    exact h.counted
  · rw [hcount]
    exact h.rooms

theorem Sound.roomsStep {T' : Tables} (h : T.Sound cfg) (hrooms : T'.RoomsSound cfg)
    (hregs : T'.pendingRegs = T.pendingRegs) (hip : T'.pendingIp = T.pendingIp)
    (htotal : T'.pendingTotal = T.pendingTotal) (hcounted : T'.totalRoomCount = T'.roomCount)
    (hcap : T'.roomCount ≤ cfg.maxRooms) : T'.Sound cfg := by
  refine { hrooms with
    total := ?_, tally := ?_, capped := ?_, perIp := fun ip => ?_, counted := hcounted
    rooms := hcap }
  · rw [hregs, htotal]
    exact h.total
  · rw [hregs, hip]
    exact h.tally
  · rw [hregs]
    exact h.capped
  · rw [pendingCountForIp, hip]
    exact h.perIp ip

theorem Sound.sweep (h : T.Sound cfg) (shards : List (Fin numShards)) (now : Instant)
    (regTtl : Duration) :
    Tables.Sound cfg
      ((evictShards now regTtl shards T).1.subRooms (evictShards now regTtl shards T).2) := by
  have hsound : (evictShards now regTtl shards T).1.RoomsSound cfg :=
    evictShards_induct (fun _ i hT => hT.evictShard i now regTtl) shards h.toRoomsSound
  have hcount := roomCount_evictShards shards T now regTtl
  obtain ⟨hregs, hip, htotal, hrooms⟩ := pending_evictShards shards T now regTtl
  have hold := h.counted
  have hcap := h.rooms
  unfold subRooms
  split
  · refine h.roomsStep ⟨hsound.placed, hsound.entries, hsound.linked, hsound.links⟩ hregs hip
      htotal ?_ ?_
    · change fetchSub (evictShards now regTtl shards T).1.totalRoomCount _ =
        (evictShards now regTtl shards T).1.roomCount
      rw [hrooms, fetchSub_of_le (by omega)]
      omega
    · change (evictShards now regTtl shards T).1.roomCount ≤ cfg.maxRooms
      omega
  · exact h.roomsStep hsound hregs hip htotal (by omega) (by omega)

theorem Sound.sweepIfFull (h : T.Sound cfg) (clock : Clock) :
    (T.sweepIfFull cfg clock).Sound cfg := by
  unfold Tables.sweepIfFull
  split
  · exact h.sweep _ _ _
  · exact h

theorem Sound.resweepIfFull (h : T.Sound cfg) (room : Room) (clock : Clock) :
    (T.resweepIfFull cfg room clock).Sound cfg := by
  unfold Tables.resweepIfFull
  split
  · have hsweep := h.sweep [shardIdx room numShards] clock.resweep cfg.regTtl
    simpa only [evictShards, Nat.add_zero] using hsweep
  · exact h

theorem Sound.inRoom (h : T.Sound cfg) {entry : RoomEntry}
    {result : RoomEntry × Links × RegAction} (hroom : T.room? room = some entry)
    (hrooms : (T.inRoom room result).1.RoomsSound cfg) : (T.inRoom room result).1.Sound cfg := by
  have hcount : (T.inRoom room result).1.roomCount = T.roomCount := by
    have hset := roomCount_setRoom T room result.1
    simp only [hroom, Option.isSome_some, if_true, Nat.add_zero] at hset
    exact hset
  refine h.roomsStep hrooms rfl rfl rfl ?_ ?_
  · rw [hcount]
    exact h.counted
  · rw [hcount]
    exact h.rooms

theorem Sound.createRoom (h : T.Sound cfg) (hhard : 1 ≤ cfg.maxClientsHard)
    (hperPrefix : 1 ≤ cfg.maxClientsPerPrefixPerRoom) (hroom : T.room? room = none)
    (hrooms : T.totalRoomCount < cfg.maxRooms)
    (hlinks : T.ipCounts.countIpRooms (ipKey src) < cfg.maxRoomsPerIp) :
    (T.createRoom room src resolved clock).Sound cfg := by
  have hcount : (T.createRoom room src resolved clock).roomCount = T.roomCount + 1 := by
    have hset := roomCount_setRoom T room (RoomEntry.created src resolved clock)
    simp only [hroom, Option.isSome_none, Bool.false_eq_true, if_false] at hset
    exact hset
  have hold := h.counted
  refine h.roomsStep (h.toRoomsSound.createRoom hhard hperPrefix hlinks) rfl rfl rfl ?_ ?_
  · rw [hcount, ← hold]
    rfl
  · omega

theorem Sound.completeStep (h : T.Sound cfg) (hhard : 1 ≤ cfg.maxClientsHard)
    (hperPrefix : 1 ≤ cfg.maxClientsPerPrefixPerRoom) {result : Tables × RegAction}
    (hstep : CompleteStep cfg room src resolved clock T result) : result.1.Sound cfg := by
  have hswept := h.sweepIfFull clock
  cases hstep with
  | refused reason hroom => exact hswept.resweepIfFull room clock
  | created hroom hrooms hlinks =>
      exact (hswept.resweepIfFull room clock).createRoom hhard hperPrefix
        (room?_resweepIfFull_eq_none hroom cfg clock) hrooms hlinks
  | inRoom entry result hroom hadmits =>
      exact hswept.inRoom hroom (hswept.toRoomsSound.admitStep hroom hadmits)

theorem Sound.regStep (h : T.Sound cfg) (hhard : 1 ≤ cfg.maxClientsHard)
    (hperPrefix : 1 ≤ cfg.maxClientsPerPrefixPerRoom) {result : Tables × RegAction}
    (hstep : RegStep cfg room cookie src clock rnd T result) : result.1.Sound cfg := by
  have hdelete := h.pendingStep (sameRooms_deletePendingReg T room src)
    (h.toPendingSound.deletePendingReg room src)
  cases hstep with
  | rejected => exact h
  | expired => exact hdelete
  | stored _ hip htotal =>
      exact h.pendingStep (sameRooms_storePendingReg T cfg room src _)
        (h.toPendingSound.storePendingReg _ hip htotal)
  | inRoom entry result _ hroom hsection =>
      exact h.inRoom hroom (h.toRoomsSound.sectionStep hroom hsection)
  | completing pend result _ _ hcomplete => exact hdelete.completeStep hhard hperPrefix hcomplete

theorem Sound.roomTick (h : T.Sound cfg) (sweep expire : Instant) :
    (T.roomTick cfg sweep expire).Sound cfg := by
  have hswept : (T.evictStaleRoomsAll sweep cfg.regTtl).Sound cfg := h.sweep _ _ _
  exact hswept.pendingStep (sameRooms_removeStalePendingRegs _ expire)
    (hswept.toPendingSound.removeStalePendingRegs expire)

theorem Sound.metered (h : T.Sound cfg) {entry : RoomEntry} {info : UdpClient}
    (hroom : T.room? room = some entry) (hinfo : entry.udpClients.lookup src = some info)
    (rateLimiter : RateLimiter) :
    (T.setRoom room (entry.metered src info rateLimiter)).Sound cfg := by
  have hmem := AList.mem_of_lookup hinfo
  have hlinked : (entry.metered src info rateLimiter).LinkedTo room T.ipCounts := by
    intro ip hof
    rw [RoomEntry.metered, RoomEntry.ofIp_updateClient hmem] at hof
    exact h.linked room entry hroom ip hof
  have hrooms : (T.inRoom room (entry.metered src info rateLimiter, T.ipCounts, .regd)).1.RoomsSound
      cfg :=
    h.toRoomsSound.setRoom ((h.entries room entry hroom).updateClient hmem _) hlinked h.links
      fun _ _ _ => Iff.rfl
  exact h.inRoom hroom hrooms

end Tables

theorem sound_of_run {cfg : Config} (hhard : 1 ≤ cfg.maxClientsHard)
    (hperPrefix : 1 ≤ cfg.maxClientsPerPrefixPerRoom) {relay : Relay} {now : Nat}
    {history : List (Machine.Record Relay Event Reply)}
    (hrun : Machine.Run (machine cfg) history relay now) : relay.tables.Sound cfg := by
  refine (hrun.stateInv (I := fun relay => relay.cfg = cfg ∧ relay.tables.Sound cfg)
    ⟨rfl, Tables.sound_empty cfg⟩ ?_).2
  rintro relay event ⟨rfl, hsound⟩
  obtain ⟨hcfg, hstep⟩ := step_relayStep relay event
  refine ⟨hcfg, ?_⟩
  change (relay.step event).1.tables.Sound relay.cfg
  generalize (relay.step event).1.tables = T at hstep ⊢
  generalize (relay.step event).2 = sent at hstep
  cases hstep with
  | quiet => exact hsound
  | reg room cookie T action _ _ hreg => exact hsound.regStep hhard hperPrefix hreg
  | msg room phase body entry info rateLimiter sent hroom hinfo _ =>
      exact hsound.metered hroom hinfo rateLimiter
  | roomTick => exact hsound.roomTick _ _

theorem Tables.RoomsSound.card_roomsOf_le {cfg : Config} {T : Tables} (h : T.RoomsSound cfg)
    (ip : IpAddr) : (T.roomsOf ip).card ≤ cfg.maxRoomsPerIp := by
  have hsub : T.roomsOf ip ⊆ T.ipCounts.rooms ip := by
    intro room hroom
    obtain ⟨entry, hentry, hof⟩ := (Tables.mem_roomsOf h.placed).mp hroom
    exact h.linked room entry hentry ip hof
  exact (Finset.card_le_card hsub).trans (h.links ip)

/-- **Admission caps.** In every reachable state every cap holds of the maps themselves. The first
client of a new room is admitted without a check of the two client caps, which is why these have to
allow one client. -/
theorem caps_of_run {cfg : Config} (hhard : 1 ≤ cfg.maxClientsHard)
    (hperPrefix : 1 ≤ cfg.maxClientsPerPrefixPerRoom) {relay : Relay} {now : Nat}
    {history : List (Machine.Record Relay Event Reply)}
    (hrun : Machine.Run (machine cfg) history relay now) :
    relay.tables.roomCount ≤ cfg.maxRooms ∧
      (∀ ip, (relay.tables.roomsOf ip).card ≤ cfg.maxRoomsPerIp) ∧
      (∀ room entry, relay.tables.room? room = some entry →
        entry.udpClients.size ≤ cfg.maxClientsHard ∧
        (∀ ip, (entry.udpClients.countKeys fun addr => ipKey addr = ip) ≤
          cfg.maxClientsPerPrefixPerRoom) ∧
        entry.pending.size ≤ cfg.maxPendingPerRoom ∧
        ∀ ip, (entry.pending.countKeys fun addr => ipKey addr = ip) ≤ cfg.maxPendingPerIp) ∧
      relay.tables.pendingRegs.size ≤ cfg.maxPendingGlobal ∧
      ∀ ip, (relay.tables.pendingRegs.countKeys fun key => ipKey key.2 = ip) ≤
        cfg.maxPendingPerIp := by
  have hsound := sound_of_run hhard hperPrefix hrun
  refine ⟨hsound.rooms, hsound.card_roomsOf_le, ?_, hsound.capped, ?_⟩
  · intro room entry hroom
    have hcapped := hsound.entries room entry hroom
    refine ⟨hcapped.clients, hcapped.perPrefix, hcapped.pending, fun ip => ?_⟩
    rw [← hcapped.tallied.pendingCountForIp]
    exact hcapped.pendingPerIp ip
  · intro ip
    rw [← Tables.pendingCountForIp_of_tally hsound.tally]
    exact hsound.perIp ip

theorem caps_of_run_handshake :
    ((machine .defaults).exec (.empty .defaults)
        (handshake (ascii "r") (.v4 ⟨10, 0, 0, 1⟩ 1000) 0 (.fill 1))).tables.roomCount = 1 ∧
      ((machine .defaults).exec (.empty .defaults)
        (handshake (ascii "r") (.v4 ⟨10, 0, 0, 1⟩ 1000) 0 (.fill 1))).tables.roomCount ≤
          Config.defaults.maxRooms :=
  ⟨by decide +kernel,
    (caps_of_run (by decide) (by decide) ((machine .defaults).run_exec (by decide))).1⟩

end Qvole.Relay
