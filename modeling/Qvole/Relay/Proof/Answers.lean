import Qvole.Relay.Proof.Steps
import Qvole.Relay.Proof.Wire

/-!
# When a registration is answered

The exact conditions under which the relay accepts a cookie or answers a bare `REG`. A cookie is
compared with one pending registration only, the one in the global store if there is one; once it
matches in time, only the caps can refuse it.
-/

namespace Qvole.Relay

/-- The reasons that are caps on admitted clients and rooms. -/
def DropReason.isCap : DropReason → Bool
  | .maxRoomsReached | .roomLimitPerIp | .hardCap | .prefixCap => true
  | _ => false

/-- The pending registration that a cookie from `src` for `room` is compared with. -/
def Tables.consulted (T : Tables) (room : Room) (src : SocketAddr) : Option PendingReg :=
  match T.getPendingReg room src with
  | some pend => some pend
  | none => (T.room? room).bind fun entry => entry.pending.lookup src

section Sections

variable {cfg : Config} {room : Room} {src resolved : SocketAddr} {clock : Clock} {entry : RoomEntry}
  {links : Links}

theorem mayAdmit_of_mem (h : src ∈ entry.udpClients) : MayAdmit cfg src entry links := by
  refine ⟨fun hnew => absurd h hnew, fun hof => ?_, fun hnew => absurd h hnew⟩
  rw [ofIp_of_mem h] at hof
  cases hof

theorem admitSection_of_mayAdmit
    (h : MayAdmit cfg src (entry.sweep links room clock.resweep cfg.regTtl).1
      (entry.sweep links room clock.resweep cfg.regTtl).2) :
    (entry.admitSection cfg room src resolved clock links).1 =
        (entry.sweep links room clock.resweep cfg.regTtl).1.admitClient src resolved clock ∧
      (entry.admitSection cfg room src resolved clock links).2.2 = .regd := by
  unfold RoomEntry.admitSection
  generalize entry.sweep links room clock.resweep cfg.regTtl = swept at h ⊢
  obtain ⟨after, links'⟩ := swept
  simp only at h ⊢
  rw [if_neg fun hfull => Nat.not_le_of_lt (h.clients hfull.2) hfull.1,
    if_neg fun hfull => Nat.not_le_of_lt (h.links (by simpa using hfull.1)) hfull.2,
    if_neg fun hfull => Nat.not_le_of_lt (h.perPrefix hfull.1) hfull.2]
  exact ⟨rfl, rfl⟩

theorem admitSection_of_not_mayAdmit
    (h : ¬ MayAdmit cfg src (entry.sweep links room clock.resweep cfg.regTtl).1
      (entry.sweep links room clock.resweep cfg.regTtl).2) :
    ∃ reason, reason.isCap = true ∧
      (entry.admitSection cfg room src resolved clock links).2.2 = .drop reason := by
  unfold RoomEntry.admitSection
  simp only
  split
  · exact ⟨.hardCap, rfl, rfl⟩
  · split
    · exact ⟨.roomLimitPerIp, rfl, rfl⟩
    · split
      · exact ⟨.prefixCap, rfl, rfl⟩
      · rename_i hhard hip hperPrefix
        refine absurd ⟨fun hnew => ?_, fun hof => ?_, fun hnew => ?_⟩ h
        · exact Nat.lt_of_not_le fun hfull => hhard ⟨hfull, hnew⟩
        · exact Nat.lt_of_not_le fun hfull => hip ⟨by simp [hof], hfull⟩
        · exact Nat.lt_of_not_le fun hfull => hperPrefix ⟨hnew, hfull⟩

theorem cookieSection_of_mayAdmit {pend : PendingReg} (hpend : entry.pending.lookup src = some pend)
    (hfresh : pend.expired clock.elapsed = false)
    (h : MayAdmit cfg src (entry.sweep links room clock.sweep cfg.regTtl).1
      (entry.sweep links room clock.sweep cfg.regTtl).2) :
    (entry.cookieSection cfg room src pend.cookie.bytes clock links).1 =
        ((entry.sweep links room clock.sweep cfg.regTtl).1.removePending src).admitClient src
          pend.resolvedAddr clock ∧
      (entry.cookieSection cfg room src pend.cookie.bytes clock links).2.2 = .regd := by
  unfold RoomEntry.cookieSection
  simp only [hpend, ne_eq, not_true_eq_false, if_false, hfresh, Bool.false_eq_true]
  generalize entry.sweep links room clock.sweep cfg.regTtl = swept at h ⊢
  obtain ⟨after, links'⟩ := swept
  simp only at h ⊢
  rw [if_neg fun hfull => Nat.not_le_of_lt (h.clients hfull.2) hfull.1,
    if_neg fun hfull => Nat.not_le_of_lt (h.links (by simpa using hfull.2.1)) hfull.2.2,
    if_neg fun hfull => Nat.not_le_of_lt (h.perPrefix hfull.1) hfull.2]
  exact ⟨rfl, rfl⟩

theorem cookieSection_of_not_mayAdmit {pend : PendingReg}
    (hpend : entry.pending.lookup src = some pend) (hfresh : pend.expired clock.elapsed = false)
    (h : ¬ MayAdmit cfg src (entry.sweep links room clock.sweep cfg.regTtl).1
      (entry.sweep links room clock.sweep cfg.regTtl).2) :
    ∃ reason, reason.isCap = true ∧
      (entry.cookieSection cfg room src pend.cookie.bytes clock links).2.2 = .drop reason := by
  unfold RoomEntry.cookieSection
  simp only [hpend, ne_eq, not_true_eq_false, if_false, hfresh, Bool.false_eq_true]
  split
  · exact ⟨.hardCap, rfl, rfl⟩
  · split
    · exact ⟨.roomLimitPerIp, rfl, rfl⟩
    · split
      · exact ⟨.prefixCap, rfl, rfl⟩
      · rename_i hhard hip hperPrefix
        refine absurd ⟨fun hnew => ?_, fun hof => ?_, fun hnew => ?_⟩ h
        · exact Nat.lt_of_not_le fun hfull => hhard ⟨hfull, hnew⟩
        · refine Nat.lt_of_not_le fun hfull => hip ⟨fun hmem => ?_, by simp [hof], hfull⟩
          rw [ofIp_of_mem hmem] at hof
          cases hof
        · exact Nat.lt_of_not_le fun hfull => hperPrefix ⟨hnew, hfull⟩

end Sections

/-! ### The tables -/

namespace Tables

variable {cfg : Config} {room : Room} {src resolved : SocketAddr} {clock : Clock} {rnd : Cookie}
  {T : Tables}

/-- The caps let a completed cookie from the global pending store in. -/
def MayComplete (T : Tables) (cfg : Config) (room : Room) (src : SocketAddr) (clock : Clock) : Prop :=
  match (T.sweepIfFull cfg clock).room? room with
  | some entry =>
      MayAdmit cfg src
        (entry.sweep (T.sweepIfFull cfg clock).ipCounts room clock.resweep cfg.regTtl).1
        (entry.sweep (T.sweepIfFull cfg clock).ipCounts room clock.resweep cfg.regTtl).2
  | none =>
      ((T.sweepIfFull cfg clock).resweepIfFull cfg room clock).totalRoomCount < cfg.maxRooms ∧
        ((T.sweepIfFull cfg clock).resweepIfFull cfg room clock).ipCounts.countIpRooms (ipKey src) <
          cfg.maxRoomsPerIp

def SeenAt (T : Tables) (room : Room) (src : SocketAddr) (now : Instant) : Prop :=
  ∃ entry info, T.room? room = some entry ∧ entry.udpClients.lookup src = some info ∧
    info.lastSeen = now

theorem seenAt_inRoom (result : RoomEntry × Links × RegAction) {info : UdpClient}
    (hinfo : result.1.udpClients.lookup src = some info) :
    (T.inRoom room result).1.SeenAt room src info.lastSeen := by
  refine ⟨result.1, info, ?_, hinfo, rfl⟩
  change (T.setRoom room result.1).room? room = some result.1
  rw [room?_setRoom, if_pos rfl]

theorem lookup_admitClient (entry : RoomEntry) :
    (entry.admitClient src resolved clock).udpClients.lookup src =
      some (.new (some resolved) clock.stamp clock.window) := by
  simp [RoomEntry.admitClient]

theorem regCookieCreateOrAdmit_of_mayComplete (h : T.MayComplete cfg room src clock) :
    (T.regCookieCreateOrAdmit cfg room src resolved clock).2 = .regd ∧
      (T.regCookieCreateOrAdmit cfg room src resolved clock).1.SeenAt room src clock.stamp := by
  unfold MayComplete at h
  unfold regCookieCreateOrAdmit
  cases hroom : (T.sweepIfFull cfg clock).room? room with
  | some entry =>
      simp only [hroom] at h ⊢
      obtain ⟨hentry, haction⟩ := admitSection_of_mayAdmit h
      exact ⟨haction, seenAt_inRoom _ (by rw [hentry]; exact lookup_admitClient _)⟩
  | none =>
      simp only [hroom] at h ⊢
      unfold regCookieCreate
      simp only [Nat.not_le_of_lt h.1, Nat.not_le_of_lt h.2, if_false, true_and]
      refine ⟨.created src resolved clock, _, ?_, lookup_admitClient (.new clock.stamp), rfl⟩
      change (Tables.setRoom _ room _).room? room = _
      rw [room?_setRoom, if_pos rfl]

theorem regCookieCreateOrAdmit_of_not_mayComplete (h : ¬ T.MayComplete cfg room src clock) :
    ∃ reason, reason.isCap = true ∧
      (T.regCookieCreateOrAdmit cfg room src resolved clock).2 = .drop reason := by
  unfold MayComplete at h
  unfold regCookieCreateOrAdmit
  cases hroom : (T.sweepIfFull cfg clock).room? room with
  | some entry =>
      simp only [hroom] at h ⊢
      exact admitSection_of_not_mayAdmit h
  | none =>
      simp only [hroom] at h ⊢
      unfold regCookieCreate
      simp only
      split
      · exact ⟨.maxRoomsReached, rfl, rfl⟩
      · split
        · exact ⟨.roomLimitPerIp, rfl, rfl⟩
        · rename_i hrooms hlinks
          exact absurd ⟨Nat.lt_of_not_le hrooms, Nat.lt_of_not_le hlinks⟩ h

/-! ### A cookie -/

/-- The caps let the cookie of the consulted registration in. -/
def MayAccept (T : Tables) (cfg : Config) (room : Room) (src : SocketAddr) (clock : Clock) : Prop :=
  match T.getPendingReg room src, T.room? room with
  | some _, _ => (T.deletePendingReg room src).MayComplete cfg room src clock
  | none, some entry =>
      MayAdmit cfg src (entry.sweep T.ipCounts room clock.sweep cfg.regTtl).1
        (entry.sweep T.ipCounts room clock.sweep cfg.regTtl).2
  | none, none => True

def Matches (T : Tables) (room : Room) (src : SocketAddr) (cookie : Cookie) (clock : Clock) : Prop :=
  ∃ pend, T.consulted room src = some pend ∧ pend.cookie = cookie ∧
    pend.expired clock.elapsed = false

theorem handleReg_some (cookie : Cookie) :
    T.handleReg cfg room (cookieText (some cookie)) src clock rnd =
      T.regWithCookie cfg room cookie.bytes src clock rnd := by
  have hne : cookieText (some cookie) ≠ [] := (unblank_cookie cookie).ne_nil
  have hbytes : cookie.bytes ≠ [] := by
    intro hnil
    have hlen := cookie.length_eq
    rw [hnil] at hlen
    exact absurd hlen (by decide)
  have hvalid : ¬ ((!isValidHex (cookieText (some cookie))) = true ∨
      (cookieText (some cookie)).length ≠ pendingCookieBytes * 2) := by
    rintro (hhex | hlen)
    · rw [cookieText, isValidHex_toHexLower hbytes] at hhex
      cases hhex
    · exact hlen (length_cookie cookie)
  unfold handleReg
  rw [if_neg hne, if_neg hvalid, cookieText, hexDecode_cookie]

theorem cookie_bytes_inj {c c' : Cookie} : c.bytes = c'.bytes ↔ c = c' := by
  constructor
  · intro heq
    cases c
    cases c'
    cases heq
    rfl
  · rintro rfl
    rfl

theorem regWithCookie_accepted {cookie : Cookie} (hmatch : T.Matches room src cookie clock)
    (hcaps : T.MayAccept cfg room src clock) (rnd : Cookie) :
    (T.regWithCookie cfg room cookie.bytes src clock rnd).2 = .regd ∧
      (T.regWithCookie cfg room cookie.bytes src clock rnd).1.SeenAt room src clock.stamp := by
  obtain ⟨pend, hconsulted, rfl, hfresh⟩ := hmatch
  unfold consulted at hconsulted
  unfold MayAccept at hcaps
  unfold regWithCookie
  cases hglobal : T.getPendingReg room src with
  | some found =>
      simp only [hglobal, Option.some.injEq] at hconsulted hcaps ⊢
      subst hconsulted
      simp only [ne_eq, not_true_eq_false, if_false, hfresh, Bool.false_eq_true]
      exact regCookieCreateOrAdmit_of_mayComplete hcaps
  | none =>
      simp only [hglobal, Option.bind_eq_some_iff] at hconsulted
      obtain ⟨entry, hroom, hpend⟩ := hconsulted
      simp only [hglobal, hroom] at hcaps ⊢
      obtain ⟨hentry, haction⟩ := cookieSection_of_mayAdmit hpend hfresh hcaps
      exact ⟨haction, seenAt_inRoom _ (by rw [hentry]; exact lookup_admitClient _)⟩

theorem regWithCookie_capped {cookie : Cookie} (hmatch : T.Matches room src cookie clock)
    (hcaps : ¬ T.MayAccept cfg room src clock) (rnd : Cookie) :
    ∃ reason, reason.isCap = true ∧
      (T.regWithCookie cfg room cookie.bytes src clock rnd).2 = .drop reason := by
  obtain ⟨pend, hconsulted, rfl, hfresh⟩ := hmatch
  unfold consulted at hconsulted
  unfold MayAccept at hcaps
  unfold regWithCookie
  cases hglobal : T.getPendingReg room src with
  | some found =>
      simp only [hglobal, Option.some.injEq] at hconsulted hcaps ⊢
      subst hconsulted
      simp only [ne_eq, not_true_eq_false, if_false, hfresh, Bool.false_eq_true]
      exact regCookieCreateOrAdmit_of_not_mayComplete hcaps
  | none =>
      simp only [hglobal, Option.bind_eq_some_iff] at hconsulted
      obtain ⟨entry, hroom, hpend⟩ := hconsulted
      simp only [hglobal, hroom] at hcaps ⊢
      exact cookieSection_of_not_mayAdmit hpend hfresh hcaps

theorem regWithCookie_unmatched {cookie : Cookie}
    (hfound : (T.getPendingReg room src).isSome ∨ (T.room? room).isSome)
    (hmatch : ¬ T.Matches room src cookie clock) (cfg : Config) (rnd : Cookie) :
    ∃ reason, reason.isCap = false ∧
      (T.regWithCookie cfg room cookie.bytes src clock rnd).2 = .drop reason := by
  unfold Matches consulted at hmatch
  unfold regWithCookie
  cases hglobal : T.getPendingReg room src with
  | some pend =>
      simp only [hglobal, Option.some.injEq, exists_eq_left', not_and, Bool.not_eq_false] at hmatch ⊢
      split
      · exact ⟨.mismatchedPending, rfl, rfl⟩
      · rename_i hbytes
        rw [hmatch (cookie_bytes_inj.mp (not_ne_iff.mp hbytes)), if_pos rfl]
        exact ⟨.expiredPending, rfl, rfl⟩
  | none =>
      rw [hglobal] at hfound
      obtain ⟨entry, hroom⟩ := Option.isSome_iff_exists.mp (hfound.resolve_left (by simp))
      simp only [hglobal, hroom, Option.bind_some] at hmatch ⊢
      unfold RoomEntry.cookieSection
      cases hpend : entry.pending.lookup src with
      | none => exact ⟨.mismatchedInRoom, rfl, rfl⟩
      | some pend =>
          simp only [hpend, Option.some.injEq, exists_eq_left', not_and, Bool.not_eq_false] at hmatch ⊢
          by_cases hbytes : pend.cookie.bytes = cookie.bytes
          · rw [if_neg (not_ne_iff.mpr hbytes), hmatch (cookie_bytes_inj.mp hbytes), if_pos rfl]
            exact ⟨.expiredInRoom, rfl, rfl⟩
          · rw [if_pos hbytes]
            exact ⟨.mismatchedInRoom, rfl, rfl⟩

/-- With neither a registration nor a room, a cookie is dropped at the IP's cap on rooms only. -/
theorem regWithCookie_unknown (hglobal : T.getPendingReg room src = none)
    (hroom : T.room? room = none) (cfg : Config) (cookie : Cookie) (clock : Clock) (rnd : Cookie) :
    (T.regWithCookie cfg room cookie.bytes src clock rnd).2 ≠ .regd ∧
      ((∃ reason, reason.isCap = true ∧
        (T.regWithCookie cfg room cookie.bytes src clock rnd).2 = .drop reason) ↔
          T.ipCounts.countIpRooms (ipKey src) ≥ cfg.maxRoomsPerIp) := by
  unfold regWithCookie
  simp only [hglobal, hroom]
  split
  · rename_i hfull
    simp [hfull, DropReason.isCap]
  · rename_i hfull
    unfold challengeUnknown
    split
    · simp [hfull, DropReason.isCap]
    · simp only
      split <;> simp [hfull, DropReason.isCap]

/-! ### A bare registration -/

theorem regInitial_refreshed {entry : RoomEntry} {info : UdpClient}
    (hroom : T.room? room = some entry) (hinfo : entry.udpClients.lookup src = some info)
    (hlive : info.stale clock.sweep cfg.regTtl = false)
    (hlinks : T.ipCounts.countIpRooms (ipKey src) < cfg.maxRoomsPerIp) :
    (T.regInitial cfg room src clock rnd).2 = .regd ∧
      (T.regInitial cfg room src clock rnd).1.SeenAt room src clock.stamp := by
  have hkept : (entry.sweep T.ipCounts room clock.sweep cfg.regTtl).1.udpClients.lookup src =
      some info := by
    rw [RoomEntry.sweep, RoomEntry.removeStaleClients_lookup_udpClients, hinfo, Option.filter_some,
      hlive]
    rfl
  have hmem := AList.mem_of_lookup hkept
  have hsection : entry.regSection cfg room src clock rnd (T.pendingCountForIp (ipKey src))
      T.ipCounts =
        ({ (entry.sweep T.ipCounts room clock.sweep cfg.regTtl).1 with
            udpClients := (entry.sweep T.ipCounts room clock.sweep cfg.regTtl).1.udpClients.insert src
              { info with lastSeen := clock.stamp, resolvedAddr := some src } },
          (entry.sweep T.ipCounts room clock.sweep cfg.regTtl).2, .regd) := by
    unfold RoomEntry.regSection
    simp only
    rw [if_neg fun hfull => hfull.2 hmem, hkept]
  unfold regInitial
  rw [if_neg (Nat.not_le_of_lt hlinks), hroom]
  simp only
  rw [hsection]
  refine ⟨rfl, ?_⟩
  exact seenAt_inRoom ({ (entry.sweep T.ipCounts room clock.sweep cfg.regTtl).1 with
    udpClients := _ }, _, .regd) (AList.lookup_insert _)

/-- At the IP's cap on rooms a bare registration is dropped, also that of an admitted client. -/
theorem regInitial_at_cap (hlinks : ¬ T.ipCounts.countIpRooms (ipKey src) < cfg.maxRoomsPerIp) :
    (T.regInitial cfg room src clock rnd).2 = .drop .roomLimitPerIp := by
  unfold regInitial
  rw [if_pos (Nat.le_of_not_lt hlinks)]

/-- A place for one who is not, or no longer, a client: among the clients, and among the pending
registrations unless it has one. -/
structure MayChallenge (T : Tables) (cfg : Config) (src : SocketAddr) (entry : RoomEntry) : Prop where
  clients : entry.udpClients.size < cfg.maxClientsHard
  pending : src ∈ entry.pending ∨
    (T.pendingCountForIp (ipKey src) + entry.pendingCountForIp (ipKey src) < cfg.maxPendingPerIp ∧
      entry.pending.size < cfg.maxPendingPerRoom)

theorem regSection_challenged_iff {entry : RoomEntry} (links : Links)
    (hgone : src ∉ (entry.sweep links room clock.sweep cfg.regTtl).1.udpClients) (rnd : Cookie) :
    (∃ c, (entry.regSection cfg room src clock rnd (T.pendingCountForIp (ipKey src)) links).2.2 =
        .challenge c) ↔
      T.MayChallenge cfg src (entry.sweep links room clock.sweep cfg.regTtl).1 := by
  unfold RoomEntry.regSection
  generalize entry.sweep links room clock.sweep cfg.regTtl = swept at hgone ⊢
  obtain ⟨after, links'⟩ := swept
  simp only at hgone ⊢
  by_cases hfull : after.udpClients.size ≥ cfg.maxClientsHard
  · rw [if_pos ⟨hfull, hgone⟩]
    constructor
    · rintro ⟨c, hc⟩
      cases hc
    · intro hmay
      exact absurd hmay.clients (Nat.not_lt_of_le hfull)
  · rw [if_neg fun h => hfull h.1, AList.lookup_eq_none.mpr hgone]
    simp only
    have hclients := Nat.lt_of_not_le hfull
    cases hpend : after.pending.lookup src with
    | some pend =>
        constructor
        · exact fun _ => ⟨hclients, Or.inl (AList.mem_of_lookup hpend)⟩
        · exact fun _ => ⟨pend.cookie, rfl⟩
    | none =>
        have hnew : src ∉ after.pending := AList.lookup_eq_none.mp hpend
        simp only
        split
        · rename_i hip
          constructor
          · rintro ⟨c, hc⟩
            cases hc
          · rintro ⟨-, hmem | ⟨hlt, -⟩⟩
            · exact absurd hmem hnew
            · exact absurd hlt (Nat.not_lt_of_le hip)
        · rename_i hip
          by_cases hroomFull : after.pending.size ≥ cfg.maxPendingPerRoom
          · rw [RoomEntry.addPending_full hnew hroomFull]
            constructor
            · rintro ⟨c, hc⟩
              cases hc
            · rintro ⟨-, hmem | ⟨-, hlt⟩⟩
              · exact absurd hmem hnew
              · exact absurd hlt (Nat.not_lt_of_le hroomFull)
          · rw [if_pos (RoomEntry.addPending_added hroomFull src _)]
            constructor
            · exact fun _ => ⟨hclients, Or.inr ⟨Nat.lt_of_not_le hip, Nat.lt_of_not_le hroomFull⟩⟩
            · exact fun _ => ⟨rnd, rfl⟩

theorem regSection_ne_regd {entry : RoomEntry} (links : Links) (pendingForIp : Nat)
    (hgone : src ∉ (entry.sweep links room clock.sweep cfg.regTtl).1.udpClients) (rnd : Cookie) :
    (entry.regSection cfg room src clock rnd pendingForIp links).2.2 ≠ .regd := by
  unfold RoomEntry.regSection
  generalize entry.sweep links room clock.sweep cfg.regTtl = swept at hgone ⊢
  obtain ⟨after, links'⟩ := swept
  simp only at hgone ⊢
  rw [AList.lookup_eq_none.mpr hgone]
  split
  · simp
  · cases after.pending.lookup src with
    | some pend => simp
    | none =>
        simp only
        split
        · simp
        · split <;> simp

end Tables

end Qvole.Relay
