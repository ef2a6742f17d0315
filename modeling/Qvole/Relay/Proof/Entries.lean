import Qvole.Relay.Proof.Steps

/-!
# Room entries within their caps

The caps that concern one room: its clients, in all and per IP, and its pending registrations, in
all and per IP. Sweeps and removals only lower these numbers, and every case that adds a client or
a pending registration has checked the number it raises.
-/

namespace Qvole.Relay

namespace RoomEntry

variable {cfg : Config} {room : Room} {cookie : Bytes} {src resolved : SocketAddr} {clock : Clock}
  {rnd : Cookie} {before entry : RoomEntry} {links : Links}

/-- A room entry whose tally is exact and whose maps are within the caps. -/
structure Capped (cfg : Config) (entry : RoomEntry) : Prop where
  tallied : entry.Tallied
  clients : entry.udpClients.size ≤ cfg.maxClientsHard
  perPrefix : ∀ ip, entry.countPrefixClients ip ≤ cfg.maxClientsPerPrefixPerRoom
  pending : entry.pending.size ≤ cfg.maxPendingPerRoom
  pendingPerIp : ∀ ip, entry.pendingCountForIp ip ≤ cfg.maxPendingPerIp

theorem Capped.removePending (h : entry.Capped cfg) (src : SocketAddr) :
    (entry.removePending src).Capped cfg where
  tallied := h.tallied.removePending src
  clients := by
    rw [removePending_udpClients]
    exact h.clients
  perPrefix ip := by
    rw [countPrefixClients, removePending_udpClients]
    exact h.perPrefix ip
  pending := by
    rw [removePending_pending]
    exact (AList.size_erase_le _ _).trans h.pending
  pendingPerIp ip := by
    rw [(h.tallied.removePending src).pendingCountForIp, removePending_pending]
    have hold := h.pendingPerIp ip
    rw [h.tallied.pendingCountForIp] at hold
    exact (AList.countKeys_erase_le _ _ _).trans hold

theorem Capped.removeStaleClients (h : entry.Capped cfg) (room : Room) (now : Instant)
    (regTtl : Duration) : (entry.removeStaleClients room now regTtl).1.Capped cfg where
  tallied := h.tallied.removeStaleClients
  clients := by
    rw [AList.size_eq_countKeys]
    refine (removeStaleClients_countKeys_udpClients_le _).trans ?_
    rw [← AList.size_eq_countKeys]
    exact h.clients
  perPrefix ip := (removeStaleClients_countKeys_udpClients_le _).trans (h.perPrefix ip)
  pending := by
    rw [AList.size_eq_countKeys]
    refine (removeStaleClients_countKeys_pending_le _).trans ?_
    rw [← AList.size_eq_countKeys]
    exact h.pending
  pendingPerIp ip := by
    rw [h.tallied.removeStaleClients.pendingCountForIp]
    have hold := h.pendingPerIp ip
    rw [h.tallied.pendingCountForIp] at hold
    exact (removeStaleClients_countKeys_pending_le _).trans hold

theorem Capped.updateClient (h : entry.Capped cfg) (hmem : src ∈ entry.udpClients)
    (info : UdpClient) :
    Capped cfg { entry with udpClients := entry.udpClients.insert src info } where
  tallied := h.tallied
  clients := by
    rw [AList.size_insert, if_pos hmem]
    exact h.clients
  perPrefix ip := by
    simp only [countPrefixClients, AList.countKeys_insert]
    rw [if_neg fun hnew => hnew.2 hmem]
    exact h.perPrefix ip
  pending := h.pending
  pendingPerIp := h.pendingPerIp

theorem Capped.updatePending (h : entry.Capped cfg) (hmem : src ∈ entry.pending)
    (pend : PendingReg) :
    Capped cfg { entry with pending := entry.pending.insert src pend } where
  tallied := by
    refine AList.Tallies.congr h.tallied fun ip => ?_
    rw [AList.countKeys_insert, if_neg fun hnew => hnew.2 hmem, add_zero]
  clients := h.clients
  perPrefix := h.perPrefix
  pending := by
    rw [AList.size_insert, if_pos hmem]
    exact h.pending
  pendingPerIp := h.pendingPerIp

theorem Capped.addPending (h : entry.Capped cfg) (hnew : src ∉ entry.pending)
    (hip : entry.pendingCountForIp (ipKey src) < cfg.maxPendingPerIp)
    (hroom : entry.pending.size < cfg.maxPendingPerRoom) (p : PendingReg) :
    (entry.addPending src p cfg.maxPendingPerRoom).1.Capped cfg := by
  have htallied := h.tallied.addPending src p cfg.maxPendingPerRoom
  rw [RoomEntry.addPending, if_neg fun hfull => Nat.not_le_of_lt hroom hfull.2] at htallied ⊢
  refine ⟨htallied, h.clients, h.perPrefix, ?_, fun ip => ?_⟩
  · rw [AList.size_insert, if_neg hnew]
    exact hroom
  · rw [htallied.pendingCountForIp, AList.countKeys_insert]
    have hold := h.pendingPerIp ip
    rw [h.tallied.pendingCountForIp] at hold hip
    by_cases heq : ipKey src = ip
    · subst heq
      rw [if_pos ⟨by simp, hnew⟩]
      exact hip
    · rw [if_neg fun hcond => heq (by simpa using hcond.1)]
      exact hold

theorem Capped.admitClient (h : entry.Capped cfg) (hadmits : MayAdmit cfg src entry links) :
    (entry.admitClient src resolved clock).Capped cfg := by
  refine ⟨h.tallied, ?_, fun ip => ?_, h.pending, h.pendingPerIp⟩
  · simp only [RoomEntry.admitClient, AList.size_insert]
    by_cases hmem : src ∈ entry.udpClients
    · rw [if_pos hmem]
      exact h.clients
    · rw [if_neg hmem]
      exact hadmits.clients hmem
  · simp only [RoomEntry.admitClient, countPrefixClients, AList.countKeys_insert]
    have hold := h.perPrefix ip
    by_cases hnew : ipKey src = ip ∧ src ∉ entry.udpClients
    · obtain ⟨rfl, hmem⟩ := hnew
      rw [if_pos ⟨by simp, hmem⟩]
      exact hadmits.perPrefix hmem
    · rw [if_neg fun hcond => hnew ⟨by simpa using hcond.1, hcond.2⟩]
      exact hold

theorem capped_created (hhard : 1 ≤ cfg.maxClientsHard)
    (hperPrefix : 1 ≤ cfg.maxClientsPerPrefixPerRoom) :
    (RoomEntry.created src resolved clock).Capped cfg := by
  have hnew : (RoomEntry.new clock.stamp).Capped cfg :=
    ⟨tallied_new _, Nat.zero_le _, fun _ => Nat.zero_le _, Nat.zero_le _, fun _ => Nat.zero_le _⟩
  unfold RoomEntry.created
  refine ⟨hnew.tallied, ?_, fun ip => ?_, hnew.pending, hnew.pendingPerIp⟩
  · rw [RoomEntry.admitClient, AList.size_insert]
    simpa [RoomEntry.new] using hhard
  · simp only [RoomEntry.admitClient, countPrefixClients, AList.countKeys_insert]
    split
    · simpa [RoomEntry.new] using hperPrefix
    · simp [RoomEntry.new]

theorem Capped.sweptStep (h : entry.Capped cfg) {result : RoomEntry × Links × RegAction}
    (hstep : SweptStep cfg room cookie src clock rnd before entry links result) :
    result.1.Capped cfg := by
  cases hstep with
  | full => exact h
  | refreshed info hinfo => exact h.updateClient (AList.mem_of_lookup hinfo) _
  | reissued pend _ hpend => exact h.updatePending (AList.mem_of_lookup hpend) _
  | added _ hnew hip hroom => exact h.addPending hnew hip hroom _
  | completed pend links' _ _ _ hadmits _ =>
      have hadmits' : MayAdmit cfg src (entry.removePending src) links := by
        obtain ⟨hclients, hlinks, hperPrefix⟩ := hadmits
        refine ⟨?_, ?_, ?_⟩
        · simpa using hclients
        · simpa [RoomEntry.ofIp] using hlinks
        · simpa [countPrefixClients] using hperPrefix
      exact (h.removePending src).admitClient hadmits'

theorem Capped.sectionStep (h : entry.Capped cfg) {due : Prop}
    {result : RoomEntry × Links × RegAction}
    (hstep : SectionStep cfg room cookie src clock rnd due entry links result) :
    result.1.Capped cfg := by
  cases hstep with
  | rejected => exact h
  | expired => exact h.removePending src
  | swept _ _ hswept =>
      have hentry : (entry.sweep links room clock.sweep cfg.regTtl).1.Capped cfg :=
        h.removeStaleClients room _ _
      exact hentry.sweptStep hswept

theorem Capped.admitStep (h : entry.Capped cfg) {result : RoomEntry × Links × RegAction}
    (hstep : AdmitStep cfg room src resolved clock entry links result) : result.1.Capped cfg := by
  cases hstep with
  | full => exact h
  | admitted links' hadmits _ => exact h.admitClient hadmits

end RoomEntry

end Qvole.Relay
