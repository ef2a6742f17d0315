import Qvole.Relay.Proof.Tables

/-!
# What one registration can do

The handler of a `REG` has some twenty exits. Up to the reason of a drop they come down to the few
cases listed here, first for the sections that run on one room entry and then for the tables as a
whole. Every invariant of the relay is proved by going through these cases.
-/

namespace Qvole.Relay

/-! ### Readings of a clock -/

theorem Clock.stamp_le_log (clock : Clock) : clock.stamp ≤ clock.log :=
  calc clock.stamp ≤ clock.window := clock.stamp_le
    _ ≤ clock.touch := clock.window_le
    _ ≤ clock.log := clock.touch_le

theorem Clock.resweep_le_log (clock : Clock) : clock.resweep ≤ clock.log :=
  clock.resweep_le.trans clock.stamp_le_log

theorem Clock.sweep_le_log (clock : Clock) : clock.sweep ≤ clock.log :=
  clock.sweep_le.trans clock.resweep_le_log

theorem Clock.elapsed_le_log (clock : Clock) : clock.elapsed ≤ clock.log :=
  clock.elapsed_le.trans clock.sweep_le_log

theorem Clock.limit_le_log (clock : Clock) : clock.limit ≤ clock.log :=
  clock.limit_le.trans clock.elapsed_le_log

theorem Clock.limit_le_stamp (clock : Clock) : clock.limit ≤ clock.stamp :=
  calc clock.limit ≤ clock.elapsed := clock.limit_le
    _ ≤ clock.sweep := clock.elapsed_le
    _ ≤ clock.resweep := clock.sweep_le
    _ ≤ clock.stamp := clock.resweep_le

/-! ### Sections of one room -/

/-- The caps that admitting `src` into a swept entry checks. -/
structure MayAdmit (cfg : Config) (src : SocketAddr) (entry : RoomEntry) (links : Links) : Prop where
  clients : src ∉ entry.udpClients → entry.udpClients.size < cfg.maxClientsHard
  links : entry.ofIp (ipKey src) = false → links.countIpRooms (ipKey src) < cfg.maxRoomsPerIp
  perPrefix : src ∉ entry.udpClients →
    entry.countPrefixClients (ipKey src) < cfg.maxClientsPerPrefixPerRoom

/-- How admitting `src` changes the links: not at all when a client of its IP is there, and by its
link when no other is. -/
def LinkUpdate (room : Room) (src : SocketAddr) (entry : RoomEntry) (links links' : Links) : Prop :=
  (links' = links ∧ entry.ofIp (ipKey src) = true) ∨
    (links' = links.addIpRoom (ipKey src) room ∧ entry.otherOfIp src (ipKey src) = false)

/-- The cases of a registration handled in an existing room, once its sweep has left `entry` and
`links`. `before` is the entry as it was found. -/
inductive SweptStep (cfg : Config) (room : Room) (cookie : Bytes) (src : SocketAddr) (clock : Clock)
    (rnd : Cookie) (before entry : RoomEntry) (links : Links) : RoomEntry × Links × RegAction → Prop
  | full (reason : DropReason) :
      SweptStep cfg room cookie src clock rnd before entry links (entry, links, .drop reason)
  | refreshed (info : UdpClient) : entry.udpClients.lookup src = some info →
      SweptStep cfg room cookie src clock rnd before entry links
        ({ entry with
            udpClients := entry.udpClients.insert src
              { info with lastSeen := clock.stamp, resolvedAddr := some src } }, links, .regd)
  | reissued (pend : PendingReg) : src ∉ entry.udpClients → entry.pending.lookup src = some pend →
      SweptStep cfg room cookie src clock rnd before entry links
        ({ entry with
            pending := entry.pending.insert src
              { pend with createdAt := clock.stamp, resolvedAddr := src } }, links,
          .challenge pend.cookie)
  | added : src ∉ entry.udpClients → src ∉ entry.pending →
      entry.pendingCountForIp (ipKey src) < cfg.maxPendingPerIp →
      entry.pending.size < cfg.maxPendingPerRoom →
      SweptStep cfg room cookie src clock rnd before entry links
        ((entry.addPending src { cookie := rnd, createdAt := clock.stamp, resolvedAddr := src }
            cfg.maxPendingPerRoom).1, links, .challenge rnd)
  | completed (pend : PendingReg) (links' : Links) : before.pending.lookup src = some pend →
      hexDecode cookie = some pend.cookie.bytes → pend.expired clock.elapsed = false →
      MayAdmit cfg src entry links → LinkUpdate room src entry links links' →
      SweptStep cfg room cookie src clock rnd before entry links
        ((entry.removePending src).admitClient src pend.resolvedAddr clock, links', .regd)

/-- The cases of a registration handled in an existing room. `due` is what has to hold for it to get
as far as the sweep. -/
inductive SectionStep (cfg : Config) (room : Room) (cookie : Bytes) (src : SocketAddr)
    (clock : Clock) (rnd : Cookie) (due : Prop) (entry : RoomEntry) (links : Links) :
    RoomEntry × Links × RegAction → Prop
  | rejected (reason : DropReason) :
      SectionStep cfg room cookie src clock rnd due entry links (entry, links, .drop reason)
  | expired :
      SectionStep cfg room cookie src clock rnd due entry links
        (entry.removePending src, links, .drop .expiredInRoom)
  | swept (result : RoomEntry × Links × RegAction) : due →
      SweptStep cfg room cookie src clock rnd entry
        (entry.sweep links room clock.sweep cfg.regTtl).1
        (entry.sweep links room clock.sweep cfg.regTtl).2 result →
      SectionStep cfg room cookie src clock rnd due entry links result

/-- The cases of a completed cookie from the global pending store in an existing room, once its
sweep has left `entry` and `links`. -/
inductive AdmitStep (cfg : Config) (room : Room) (src resolved : SocketAddr) (clock : Clock)
    (entry : RoomEntry) (links : Links) : RoomEntry × Links × RegAction → Prop
  | full (reason : DropReason) :
      AdmitStep cfg room src resolved clock entry links (entry, links, .drop reason)
  | admitted (links' : Links) : MayAdmit cfg src entry links →
      LinkUpdate room src entry links links' →
      AdmitStep cfg room src resolved clock entry links
        (entry.admitClient src resolved clock, links', .regd)

section Sections

variable {cfg : Config} {room : Room} {cookie : Bytes} {src resolved : SocketAddr} {clock : Clock}
  {rnd : Cookie} {entry : RoomEntry} {links : Links}

theorem ofIp_of_mem (h : src ∈ entry.udpClients) : entry.ofIp (ipKey src) = true :=
  RoomEntry.ofIp_iff.mpr ⟨src, h, rfl⟩

theorem otherOfIp_admitClient (src resolved : SocketAddr) (clock : Clock) (ip : IpAddr) :
    (entry.admitClient src resolved clock).otherOfIp src ip = entry.otherOfIp src ip := by
  rw [Bool.eq_iff_iff, RoomEntry.otherOfIp_iff, RoomEntry.otherOfIp_iff]
  simp only [RoomEntry.admitClient, AList.mem_insert]
  constructor
  · rintro ⟨other, hmem | hmem, hne, hip⟩
    · exact absurd hmem hne
    · exact ⟨other, hmem, hne, hip⟩
  · rintro ⟨other, hmem, hne, hip⟩
    exact ⟨other, Or.inr hmem, hne, hip⟩

theorem ofIp_of_otherOfIp {ip : IpAddr} (h : entry.otherOfIp src ip = true) :
    entry.ofIp ip = true := by
  obtain ⟨other, hmem, -, hip⟩ := RoomEntry.otherOfIp_iff.mp h
  exact RoomEntry.ofIp_iff.mpr ⟨other, hmem, hip⟩

/-- Whether a cookie gets past the checks of the pending entry it is compared with. -/
def PendingReg.Accepts (pend : PendingReg) (cookie : Bytes) (clock : Clock) : Prop :=
  hexDecode cookie = some pend.cookie.bytes ∧ pend.expired clock.elapsed = false

theorem cookieSection_step {cookieBytes : Bytes} (hcookie : hexDecode cookie = some cookieBytes) :
    SectionStep cfg room cookie src clock rnd
      (∃ pend, entry.pending.lookup src = some pend ∧ pend.Accepts cookie clock) entry links
      (entry.cookieSection cfg room src cookieBytes clock links) := by
  unfold RoomEntry.cookieSection
  cases hpend : entry.pending.lookup src with
  | none => exact .rejected _
  | some pend =>
      simp only
      by_cases hmatch : pend.cookie.bytes = cookieBytes
      · rw [if_neg (by simp [hmatch])]
        by_cases hexpired : pend.expired clock.elapsed = true
        · rw [if_pos hexpired]
          exact .expired
        · rw [if_neg hexpired]
          have haccepts : pend.Accepts cookie clock :=
            ⟨hmatch ▸ hcookie, by simpa using hexpired⟩
          refine .swept _ ⟨pend, rfl, haccepts⟩ ?_
          split
          · exact .full _
          · rename_i hhard
            split
            · exact .full _
            · rename_i hip
              split
              · exact .full _
              · rename_i hperPrefix
                refine .completed pend _ hpend haccepts.1 haccepts.2 ⟨?_, ?_, ?_⟩ ?_
                · intro hnew
                  by_contra hfull
                  exact hhard ⟨Nat.le_of_not_lt hfull, hnew⟩
                · intro hof
                  by_contra hfull
                  refine hip ⟨?_, by simp [hof], Nat.le_of_not_lt hfull⟩
                  intro hmem
                  rw [ofIp_of_mem hmem] at hof
                  cases hof
                · intro hnew
                  by_contra hfull
                  exact hperPrefix ⟨hnew, Nat.le_of_not_lt hfull⟩
                · simp only [otherOfIp_admitClient]
                  split
                  · rename_i hother
                    refine Or.inl ⟨rfl, ?_⟩
                    simpa [RoomEntry.ofIp] using ofIp_of_otherOfIp hother
                  · rename_i hother
                    refine Or.inr ⟨rfl, ?_⟩
                    simpa [RoomEntry.otherOfIp] using hother
      · rw [if_pos (by simpa using hmatch)]
        exact .rejected _

theorem regSection_step (pendingForIp : Nat) :
    SectionStep cfg room cookie src clock rnd True entry links
      (entry.regSection cfg room src clock rnd pendingForIp links) := by
  refine .swept _ trivial ?_
  unfold RoomEntry.regSection
  generalize entry.sweep links room clock.sweep cfg.regTtl = swept
  obtain ⟨after, links⟩ := swept
  simp only
  split
  · exact .full _
  · cases hclient : after.udpClients.lookup src with
    | some info => exact .refreshed info hclient
    | none =>
        have hgone : src ∉ after.udpClients := AList.lookup_eq_none.mp hclient
        simp only
        cases hpend : after.pending.lookup src with
        | some pend => exact .reissued pend hgone hpend
        | none =>
            simp only
            split
            · exact .full _
            · rename_i hip
              have hnew : src ∉ after.pending := AList.lookup_eq_none.mp hpend
              by_cases hfull : after.pending.size ≥ cfg.maxPendingPerRoom
              · rw [RoomEntry.addPending_full hnew hfull]
                exact .full _
              · rw [if_pos (RoomEntry.addPending_added hfull src _)]
                exact .added hgone hnew (by omega) (Nat.lt_of_not_le hfull)

theorem admitSection_step :
    AdmitStep cfg room src resolved clock (entry.sweep links room clock.resweep cfg.regTtl).1
      (entry.sweep links room clock.resweep cfg.regTtl).2
      (entry.admitSection cfg room src resolved clock links) := by
  unfold RoomEntry.admitSection
  simp only
  split
  · exact .full _
  · rename_i hhard
    split
    · exact .full _
    · rename_i hip
      split
      · exact .full _
      · rename_i hperPrefix
        refine .admitted _ ⟨?_, ?_, ?_⟩ ?_
        · intro hnew
          by_contra hfull
          exact hhard ⟨Nat.le_of_not_lt hfull, hnew⟩
        · intro hof
          by_contra hfull
          exact hip ⟨by simp [hof], Nat.le_of_not_lt hfull⟩
        · intro hnew
          by_contra hfull
          exact hperPrefix ⟨hnew, Nat.le_of_not_lt hfull⟩
        · split
          · rename_i hof
            exact Or.inl ⟨rfl, hof⟩
          · rename_i hof
            refine Or.inr ⟨rfl, ?_⟩
            by_contra hother
            exact hof (ofIp_of_otherOfIp (by simpa using hother))

end Sections

/-! ### The tables -/

inductive CompleteStep (cfg : Config) (room : Room) (src resolved : SocketAddr) (clock : Clock)
    (T : Tables) : Tables × RegAction → Prop
  | refused (reason : DropReason) : (T.sweepIfFull cfg clock).room? room = none →
      CompleteStep cfg room src resolved clock T
        ((T.sweepIfFull cfg clock).resweepIfFull cfg room clock, .drop reason)
  | created : (T.sweepIfFull cfg clock).room? room = none →
      ((T.sweepIfFull cfg clock).resweepIfFull cfg room clock).totalRoomCount < cfg.maxRooms →
      ((T.sweepIfFull cfg clock).resweepIfFull cfg room clock).ipCounts.countIpRooms (ipKey src) <
        cfg.maxRoomsPerIp →
      CompleteStep cfg room src resolved clock T
        (((T.sweepIfFull cfg clock).resweepIfFull cfg room clock).createRoom room src resolved
          clock, .regd)
  | inRoom (entry : RoomEntry) (result : RoomEntry × Links × RegAction) :
      (T.sweepIfFull cfg clock).room? room = some entry →
      AdmitStep cfg room src resolved clock
        (entry.sweep (T.sweepIfFull cfg clock).ipCounts room clock.resweep cfg.regTtl).1
        (entry.sweep (T.sweepIfFull cfg clock).ipCounts room clock.resweep cfg.regTtl).2 result →
      CompleteStep cfg room src resolved clock T ((T.sweepIfFull cfg clock).inRoom room result)

/-- What has to hold for a `REG` to sweep the existing room it names, when the global pending store
has no entry for it: no cookie and a free place in the IP's rooms, or the cookie of its entry in the
room. -/
def InRoomDue (cfg : Config) (cookie : Bytes) (src : SocketAddr) (clock : Clock)
    (entry : RoomEntry) (links : Links) : Prop :=
  (cookie = [] ∧ links.countIpRooms (ipKey src) < cfg.maxRoomsPerIp) ∨
    ∃ pend, entry.pending.lookup src = some pend ∧ pend.Accepts cookie clock

/-- The cases of a `REG` that passed the rate limiter. -/
inductive RegStep (cfg : Config) (room : Room) (cookie : Bytes) (src : SocketAddr) (clock : Clock)
    (rnd : Cookie) (T : Tables) : Tables × RegAction → Prop
  | rejected (reason : DropReason) : RegStep cfg room cookie src clock rnd T (T, .drop reason)
  | expired :
      RegStep cfg room cookie src clock rnd T (T.deletePendingReg room src, .drop .expiredPending)
  | stored : T.room? room = none → T.pendingCountForIp (ipKey src) < cfg.maxPendingPerIp →
      ((room, src) ∉ T.pendingRegs → T.pendingTotal < cfg.maxPendingGlobal) →
      RegStep cfg room cookie src clock rnd T
        ((T.storePendingReg cfg room src
          { cookie := rnd, createdAt := clock.stamp, resolvedAddr := src }).1, .challenge rnd)
  | inRoom (entry : RoomEntry) (result : RoomEntry × Links × RegAction) :
      (cookie = [] ∨ T.getPendingReg room src = none) → T.room? room = some entry →
      SectionStep cfg room cookie src clock rnd (InRoomDue cfg cookie src clock entry T.ipCounts)
        entry T.ipCounts result →
      RegStep cfg room cookie src clock rnd T (T.inRoom room result)
  | completing (pend : PendingReg) (result : Tables × RegAction) :
      T.getPendingReg room src = some pend → pend.Accepts cookie clock →
      CompleteStep cfg room src pend.resolvedAddr clock (T.deletePendingReg room src) result →
      RegStep cfg room cookie src clock rnd T result

theorem SectionStep.mono {cfg : Config} {room : Room} {cookie : Bytes} {src : SocketAddr}
    {clock : Clock} {rnd : Cookie} {entry : RoomEntry} {links : Links} {due due' : Prop}
    {result : RoomEntry × Links × RegAction} (himp : due → due')
    (h : SectionStep cfg room cookie src clock rnd due entry links result) :
    SectionStep cfg room cookie src clock rnd due' entry links result := by
  cases h with
  | rejected reason => exact .rejected reason
  | expired => exact .expired
  | swept _ hdue hstep => exact .swept _ (himp hdue) hstep

namespace Tables

variable {cfg : Config} {room : Room} {cookie : Bytes} {src : SocketAddr} {clock : Clock}
  {rnd : Cookie} {T : Tables}

theorem challengeUnknown_step (hroom : T.room? room = none) :
    RegStep cfg room cookie src clock rnd T (T.challengeUnknown cfg room src clock rnd) := by
  unfold challengeUnknown
  split
  · exact .rejected _
  · rename_i hip
    by_cases hfull : (room, src) ∉ T.pendingRegs ∧ T.pendingTotal ≥ cfg.maxPendingGlobal
    · have hrefused : T.storePendingReg cfg room src
          { cookie := rnd, createdAt := clock.stamp, resolvedAddr := src } = (T, false) := by
        rw [storePendingReg, if_neg hfull.1, if_pos hfull.2]
      rw [hrefused]
      exact .rejected _
    · have hstored : (T.storePendingReg cfg room src
          { cookie := rnd, createdAt := clock.stamp, resolvedAddr := src }).2 = true := by
        unfold storePendingReg
        by_cases hmem : (room, src) ∈ T.pendingRegs
        · rw [if_pos hmem]
        · rw [if_neg hmem, if_neg fun h => hfull ⟨hmem, h⟩]
      simp only [hstored, if_true]
      exact .stored hroom (Nat.lt_of_not_le hip)
        fun hmem => Nat.lt_of_not_le fun h => hfull ⟨hmem, h⟩

theorem regCookieCreateOrAdmit_step (resolved : SocketAddr) :
    CompleteStep cfg room src resolved clock T
      (T.regCookieCreateOrAdmit cfg room src resolved clock) := by
  unfold regCookieCreateOrAdmit
  cases hroom : (T.sweepIfFull cfg clock).room? room with
  | some entry =>
      simp only [hroom]
      exact .inRoom entry _ hroom admitSection_step
  | none =>
      simp only [hroom]
      unfold regCookieCreate
      simp only
      split
      · exact .refused _ hroom
      · rename_i hrooms
        split
        · exact .refused _ hroom
        · rename_i hip
          exact .created hroom (Nat.lt_of_not_le hrooms) (Nat.lt_of_not_le hip)

/-- **Inversion.** Every `REG` that passes the rate limiter is one of the cases. -/
theorem handleReg_step :
    RegStep cfg room cookie src clock rnd T (T.handleReg cfg room cookie src clock rnd) := by
  unfold handleReg
  split
  · rename_i hempty
    unfold regInitial
    split
    · exact .rejected _
    · rename_i hlinks
      cases hroom : T.room? room with
      | none => exact challengeUnknown_step hroom
      | some entry =>
          refine .inRoom entry _ (Or.inl hempty) hroom ((regSection_step _).mono fun _ => ?_)
          exact Or.inl ⟨hempty, Nat.lt_of_not_le hlinks⟩
  · split
    · exact .rejected _
    · cases hcookie : hexDecode cookie with
      | none => exact .rejected _
      | some cookieBytes =>
          simp only
          unfold regWithCookie
          cases hpend : T.getPendingReg room src with
          | some pend =>
              simp only
              split
              · exact .rejected _
              · rename_i hmatch
                split
                · exact .expired
                · rename_i hexpired
                  refine .completing pend _ hpend ⟨?_, by simpa using hexpired⟩
                    (regCookieCreateOrAdmit_step _)
                  rw [hcookie, not_ne_iff.mp hmatch]
          | none =>
              simp only
              cases hroom : T.room? room with
              | none =>
                  simp only
                  split
                  · exact .rejected _
                  · exact challengeUnknown_step hroom
              | some entry =>
                  exact .inRoom entry _ (Or.inr hpend) hroom
                    ((cookieSection_step hcookie).mono Or.inr)

end Tables

/-! ### The relay -/

theorem RegAction.replies_eq_regd_iff {action : RegAction} {room : Room} {src : SocketAddr} :
    action.replies room src = [.regd room src] ↔ action = .regd := by
  cases action with
  | regd => simp [replies]
  | challenge c => simp [replies]
  | drop reason => simp [replies]

theorem RegAction.replies_ne_nil_iff {action : RegAction} {room : Room} {src : SocketAddr} :
    action.replies room src ≠ [] ↔ ∀ reason, action ≠ .drop reason := by
  cases action with
  | regd => simp [replies]
  | challenge c => simp [replies]
  | drop reason => simp [replies]

def RoomEntry.metered (entry : RoomEntry) (src : SocketAddr) (info : UdpClient)
    (rateLimiter : RateLimiter) : RoomEntry :=
  { entry with udpClients := entry.udpClients.insert src { info with rateLimiter } }

theorem mem_metered {entry : RoomEntry} {src : SocketAddr} {info : UdpClient}
    (hinfo : entry.udpClients.lookup src = some info) (rateLimiter : RateLimiter)
    (addr : SocketAddr) :
    addr ∈ (entry.metered src info rateLimiter).udpClients ↔ addr ∈ entry.udpClients := by
  rw [RoomEntry.metered, AList.mem_insert]
  constructor
  · rintro (rfl | hmem)
    · exact AList.mem_of_lookup hinfo
    · exact hmem
  · exact Or.inr

/-- The cases of a step of the relay: the event, the tables after it and what is sent. -/
inductive RelayStep (relay : Relay) : Event → Tables → List Reply → Prop
  | quiet (event : Event) : RelayStep relay event relay.tables []
  | reg {data : Bytes} {src : SocketAddr} {clock : Clock} {rnd : Cookie} (room : Room)
      (cookie : Bytes) (T : Tables) (action : RegAction) :
      parsePacket data = .reg room cookie → (relay.isRegRateLimited src clock.limit).2 = false →
      RegStep relay.cfg room cookie src clock rnd relay.tables (T, action) →
      RelayStep relay (.packet data src clock rnd) T (action.replies room src)
  | msg {data : Bytes} {src : SocketAddr} {clock : Clock} {rnd : Cookie} (room : Room)
      (phase body : Bytes) (entry : RoomEntry) (info : UdpClient) (rateLimiter : RateLimiter)
      (sent : List Reply) :
      relay.tables.room? room = some entry → entry.udpClients.lookup src = some info →
      (∀ reply ∈ sent, ∃ target ∈ entry.targets src, reply = .msgd phase body target) →
      RelayStep relay (.packet data src clock rnd)
        (relay.tables.setRoom room (entry.metered src info rateLimiter)) sent
  | roomTick {sweep expire : Instant} {ordered : sweep ≤ expire} :
      RelayStep relay (.roomTick sweep expire ordered)
        (relay.tables.roomTick relay.cfg sweep expire) []

variable {relay : Relay} {data : Bytes} {src : SocketAddr} {clock : Clock} {rnd : Cookie}

theorem targets_metered (entry : RoomEntry) (info : UdpClient) (rateLimiter : RateLimiter)
    {target : SocketAddr} :
    target ∈ (entry.metered src info rateLimiter).targets src ↔ target ∈ entry.targets src := by
  unfold RoomEntry.targets
  simp only [List.mem_filterMap]
  constructor
  · rintro ⟨e, he, htarget⟩
    have hne : e.1 ≠ src := by
      intro heq
      simp [heq] at htarget
    have hlookup := AList.lookup_eq_some_iff.mpr he
    rw [RoomEntry.metered, AList.lookup_insert_ite, if_neg hne] at hlookup
    exact ⟨e, AList.lookup_eq_some_iff.mp hlookup, htarget⟩
  · rintro ⟨e, he, htarget⟩
    have hne : e.1 ≠ src := by
      intro heq
      simp [heq] at htarget
    have hlookup := AList.lookup_eq_some_iff.mpr he
    refine ⟨e, AList.lookup_eq_some_iff.mp ?_, htarget⟩
    rw [RoomEntry.metered, AList.lookup_insert_ite, if_neg hne]
    exact hlookup

theorem handleReg_relayStep {room : Room} {cookie : Bytes}
    (hparse : parsePacket data = .reg room cookie) :
    (relay.handleReg room cookie src clock rnd).1.cfg = relay.cfg ∧
      RelayStep relay (.packet data src clock rnd)
        (relay.handleReg room cookie src clock rnd).1.tables
        (relay.handleReg room cookie src clock rnd).2 := by
  unfold Relay.handleReg
  simp only
  cases hlimited : (relay.isRegRateLimited src clock.limit).2 with
  | true =>
      rw [if_pos rfl]
      exact ⟨rfl, .quiet _⟩
  | false =>
      rw [if_neg (by simp)]
      have hstep : RegStep relay.cfg room cookie src clock rnd relay.tables
          (relay.tables.handleReg relay.cfg room cookie src clock rnd) := Tables.handleReg_step
      generalize relay.tables.handleReg relay.cfg room cookie src clock rnd = result at hstep ⊢
      obtain ⟨T, action⟩ := result
      have hreg : RelayStep relay (.packet data src clock rnd) T (action.replies room src) :=
        .reg room cookie T action hparse hlimited hstep
      cases action with
      | regd => exact ⟨rfl, hreg⟩
      | challenge cookie => exact ⟨rfl, hreg⟩
      | drop reason => exact ⟨rfl, hreg⟩

theorem handleMsg_relayStep (payload : Bytes) :
    (relay.handleMsg payload src clock).1.cfg = relay.cfg ∧
      RelayStep relay (.packet data src clock rnd) (relay.handleMsg payload src clock).1.tables
        (relay.handleMsg payload src clock).2 := by
  unfold Relay.handleMsg
  cases parseMsg payload with
  | error reason => exact ⟨rfl, .quiet _⟩
  | ok parsed =>
      obtain ⟨room, phase, body⟩ := parsed
      simp only
      cases hroom : relay.tables.room? room with
      | none => exact ⟨rfl, .quiet _⟩
      | some entry =>
          simp only
          cases hinfo : entry.udpClients.lookup src with
          | none => exact ⟨rfl, .quiet _⟩
          | some info =>
              simp only
              split
              · refine ⟨rfl, .msg room phase body entry info _ [] hroom hinfo ?_⟩
                simp
              · refine ⟨rfl, .msg room phase body entry info _ _ hroom hinfo ?_⟩
                intro reply hreply
                obtain ⟨target, htarget, rfl⟩ := List.mem_map.mp hreply
                exact ⟨target, (targets_metered entry info _).mp htarget, rfl⟩

/-- **Inversion.** Every step of the relay keeps the configuration and is one of the cases. -/
theorem step_relayStep (relay : Relay) (event : Event) :
    (relay.step event).1.cfg = relay.cfg ∧
      RelayStep relay event (relay.step event).1.tables (relay.step event).2 := by
  cases event with
  | roomTick sweep expire ordered =>
      simp only [step, true_and]
      exact .roomTick
  | rateTick now => exact ⟨rfl, .quiet _⟩
  | packet data src clock rnd =>
      simp only [step, handlePacket]
      cases hparse : parsePacket data with
      | drop reason => exact ⟨rfl, .quiet _⟩
      | reg room cookie => exact handleReg_relayStep hparse
      | msg payload => exact handleMsg_relayStep payload

theorem cfg_of_run {cfg : Config} {history : List (Machine.Record Relay Event Reply)} {now : Nat}
    (hrun : Machine.Run (machine cfg) history relay now) : relay.cfg = cfg := by
  refine hrun.stateInv (I := fun relay => relay.cfg = cfg) rfl ?_
  intro relay event hcfg
  exact (step_relayStep relay event).1.trans hcfg

end Qvole.Relay
