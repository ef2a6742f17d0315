import Qvole.Relay.Proof.Answers
import Qvole.Relay.Proof.Links

/-!
# Keeping a registration alive

A client repeats its `REG` to stay in the room, and repeats it with the last cookie it was sent. The
relay consumes the pending registration when the cookie completes, so the same datagram finds
nothing to compare the cookie with. This module composes the two sides and says exactly when the
repeated `REG` refreshes the client, and when it is answered at all.
-/

namespace Qvole.Relay

open Exchange (Registrar)
open Machine (Run)

/-! ### The client between two registrations -/

def feed (room : Room) (client : Registrar) (datagrams : List Bytes) : Option Registrar :=
  datagrams.foldlM (fun client data => client.onDatagram room data) client

/-- The datagrams of the relay's answers to registrations of `src` for `room`. -/
def answers (room : Room) (src : SocketAddr) (actions : List RegAction) : List Bytes :=
  (actions.flatMap fun action => action.replies room src).map Reply.wire

def lastCookie (actions : List RegAction) : Option Cookie :=
  actions.foldl (fun last action =>
    match action with
    | .challenge cookie => some cookie
    | _ => last) none

theorem feed_answers {room : Room} (hroom : validRoomName room = true) (src : SocketAddr)
    (actions : List RegAction) :
    ∃ client, feed room .new (answers room src actions) = some client ∧
      client.pendingCookie = cookieText (lastCookie actions) := by
  have hgeneral : ∀ (actions : List RegAction) (client : Registrar) (last : Option Cookie),
      client.pendingCookie = cookieText last →
      ∃ after, feed room client (answers room src actions) = some after ∧
        after.pendingCookie = cookieText (actions.foldl (fun last action =>
          match action with
          | .challenge cookie => some cookie
          | _ => last) last) := by
    intro actions
    induction actions with
    | nil => exact fun client last hclient => ⟨client, rfl, hclient⟩
    | cons action actions ih =>
        intro client last hclient
        cases action with
        | drop reason => exact ih client last hclient
        | regd =>
            have hnext := ih { client with receivedRegd := true } last hclient
            simpa [feed, answers, RegAction.replies, onDatagram_accepted hroom] using hnext
        | challenge cookie =>
            have hnext := ih { client with pendingCookie := toHexLower cookie.bytes
                                           lastRegSent := none } (some cookie) rfl
            simpa [feed, answers, RegAction.replies, onDatagram_challenge hroom] using hnext
  exact hgeneral actions .new none rfl

/-! ### Rooms have valid names -/

namespace Tables

variable {N : Room → Prop} {T : Tables} {room : Room} {src resolved : SocketAddr} {clock : Clock}
  {rnd : Cookie} {cookie : Bytes} {cfg : Config}

def OnlyRooms (N : Room → Prop) (T : Tables) : Prop :=
  ∀ room entry, T.room? room = some entry → N room

theorem OnlyRooms.setRoom (h : T.OnlyRooms N) (hroom : N room) (entry : RoomEntry) :
    (T.setRoom room entry).OnlyRooms N := by
  intro room' after hafter
  rw [room?_setRoom] at hafter
  split at hafter
  · rename_i heq
    exact heq ▸ hroom
  · exact h room' after hafter

theorem OnlyRooms.evictShard (h : T.OnlyRooms N) (i : Fin numShards) (now : Instant)
    (regTtl : Duration) : (T.evictShard i now regTtl).1.OnlyRooms N := by
  intro room after hafter
  rcases room?_evictShard_cases hafter with ⟨hold, -⟩ | ⟨entry, hentry, -⟩
  · exact h room after hold
  · exact h room entry hentry

theorem OnlyRooms.evictStaleRoomsAll (h : T.OnlyRooms N) (now : Instant) (regTtl : Duration) :
    (T.evictStaleRoomsAll now regTtl).OnlyRooms N := by
  intro room after hafter
  rw [room?_evictStaleRoomsAll, Option.bind_eq_some_iff] at hafter
  obtain ⟨entry, hentry, -⟩ := hafter
  exact h room entry hentry

theorem OnlyRooms.congr {T' : Tables} (h : T.OnlyRooms N) (hsame : SameRooms T T') :
    T'.OnlyRooms N :=
  fun room entry hroom => h room entry (hsame.room? room ▸ hroom)

theorem OnlyRooms.regStep (h : T.OnlyRooms N) (hroom : N room) {result : Tables × RegAction}
    (hstep : RegStep cfg room cookie src clock rnd T result) : result.1.OnlyRooms N := by
  have hdelete := h.congr (sameRooms_deletePendingReg T room src)
  cases hstep with
  | rejected => exact h
  | expired => exact hdelete
  | stored => exact h.congr (sameRooms_storePendingReg T cfg room src _)
  | inRoom entry result _ _ _ => exact h.setRoom hroom result.1
  | completing pend result _ _ hcomplete =>
      have hswept : ((T.deletePendingReg room src).sweepIfFull cfg clock).OnlyRooms N := by
        unfold Tables.sweepIfFull
        split
        · exact hdelete.evictStaleRoomsAll _ _
        · exact hdelete
      have hresweep : (((T.deletePendingReg room src).sweepIfFull cfg clock).resweepIfFull cfg room
          clock).OnlyRooms N := by
        unfold Tables.resweepIfFull
        split
        · intro room' after hafter
          rw [room?_subRooms] at hafter
          exact hswept.evictShard _ _ _ room' after hafter
        · exact hswept
      cases hcomplete with
      | refused => exact hresweep
      | created => exact hresweep.setRoom hroom _
      | inRoom entry result _ _ => exact hswept.setRoom hroom _

end Tables

theorem validRoomName_of_parsePacket {data : Bytes} {room : Room} {cookie : Bytes}
    (h : parsePacket data = .reg room cookie) : validRoomName room = true := by
  unfold parsePacket at h
  split at h
  · cases h
  · simp only at h
    split at h
    · unfold parseReg at h
      simp only at h
      split at h
      · cases h
      · split at h
        · cases h
        · rename_i hvalid
          cases h
          simpa using hvalid
    · split at h <;> cases h

theorem validRooms_of_run {cfg : Config} {relay : Relay} {now : Nat}
    {history : List (Machine.Record Relay Event Reply)}
    (hrun : Run (machine cfg) history relay now) :
    relay.tables.OnlyRooms fun room => validRoomName room = true := by
  refine hrun.stateInv (I := fun relay =>
    relay.tables.OnlyRooms fun room => validRoomName room = true) (fun _ _ h => by cases h) ?_
  intro relay event hI
  obtain ⟨-, hstep⟩ := step_relayStep relay event
  change (relay.step event).1.tables.OnlyRooms _
  generalize (relay.step event).1.tables = T at hstep ⊢
  generalize (relay.step event).2 = sent at hstep
  cases hstep with
  | quiet => exact hI
  | reg room cookie T action hparse _ hreg =>
      exact hI.regStep (validRoomName_of_parsePacket hparse) hreg
  | msg room phase body entry info rateLimiter sent hroom _ _ =>
      exact hI.setRoom (hI room entry hroom) _
  | roomTick =>
      exact (hI.evictStaleRoomsAll _ _).congr (Tables.sameRooms_removeStalePendingRegs _ _)

/-! ### The repeated registration -/

/-- When the relay refreshes a live client: for a bare `REG`, while its IP may have another room; for
a `REG` with a cookie, when a pending registration with that cookie is still there. -/
def RefreshDue (T : Tables) (cfg : Config) (room : Room) (src : SocketAddr) (clock : Clock) :
    Option Cookie → Prop
  | none => T.ipCounts.countIpRooms (ipKey src) < cfg.maxRoomsPerIp
  | some cookie => T.Matches room src cookie clock

/-- When the relay answers one who was evicted from `entry`. -/
def AnswerDue (T : Tables) (cfg : Config) (room : Room) (src : SocketAddr) (clock : Clock)
    (entry : RoomEntry) : Option Cookie → Prop
  | none => T.ipCounts.countIpRooms (ipKey src) < cfg.maxRoomsPerIp ∧
      T.MayChallenge cfg src (entry.sweep T.ipCounts room clock.sweep cfg.regTtl).1
  | some cookie => T.Matches room src cookie clock ∧ T.MayAccept cfg room src clock

namespace Tables

variable {T : Tables} {room : Room} {src : SocketAddr} {clock : Clock} {rnd : Cookie} {cfg : Config}
  {entry : RoomEntry} {info : UdpClient}

theorem mem_sweep_of_live (links : Links) {now : Instant}
    (hinfo : entry.udpClients.lookup src = some info)
    (hlive : info.stale now cfg.regTtl = false) :
    src ∈ (entry.sweep links room now cfg.regTtl).1.udpClients := by
  change src ∈ (entry.removeStaleClients room now cfg.regTtl).1.udpClients
  exact RoomEntry.mem_removeStaleClients_udpClients.mpr ⟨info, hinfo, hlive⟩

/-- The caps never stand in the way of a live client. -/
theorem mayAccept_of_live (hroom : T.room? room = some entry)
    (hinfo : entry.udpClients.lookup src = some info)
    (hlive : info.stale clock.resweep cfg.regTtl = false) : T.MayAccept cfg room src clock := by
  have hearly : info.stale clock.sweep cfg.regTtl = false :=
    RoomEntry.not_stale_mono clock.sweep_le hlive
  unfold MayAccept
  cases hglobal : T.getPendingReg room src with
  | none =>
      simp only [hroom]
      exact mayAdmit_of_mem (mem_sweep_of_live T.ipCounts hinfo hearly)
  | some pend =>
      -- A sweep of all rooms keeps the room, since the client is still in it.
      have hswept : ∃ after, ((T.deletePendingReg room src).sweepIfFull cfg clock).room? room =
          some after ∧ after.udpClients.lookup src = some info := by
        have hdelete := (sameRooms_deletePendingReg T room src).room? room
        unfold Tables.sweepIfFull
        split
        · rw [room?_evictStaleRoomsAll, hdelete, hroom, Option.bind_some]
          have hkept : (entry.removeStaleClients room clock.sweep cfg.regTtl).1.udpClients.lookup
              src = some info := by
            rw [RoomEntry.removeStaleClients_lookup_udpClients, hinfo, Option.filter_some, hearly]
            rfl
          refine ⟨_, ?_, hkept⟩
          unfold sweptRoom
          rw [if_neg]
          simp only [RoomEntry.evictable, Bool.and_eq_true, List.isEmpty_iff, not_and]
          intro hempty
          have hmem := AList.mem_keys.mp (AList.mem_of_lookup hkept)
          rw [hempty] at hmem
          cases hmem
        · exact ⟨entry, hdelete.trans hroom, hinfo⟩
      obtain ⟨after, hafter, hafterInfo⟩ := hswept
      simp only [MayComplete, hafter]
      exact mayAdmit_of_mem (mem_sweep_of_live _ hafterInfo hlive)

theorem handleReg_refreshes_iff (cookie : Option Cookie) (hroom : T.room? room = some entry)
    (hinfo : entry.udpClients.lookup src = some info)
    (hlive : info.stale clock.resweep cfg.regTtl = false) (rnd : Cookie) :
    ((T.handleReg cfg room (cookieText cookie) src clock rnd).2 = .regd ∧
        (T.handleReg cfg room (cookieText cookie) src clock rnd).1.SeenAt room src clock.stamp) ↔
      RefreshDue T cfg room src clock cookie := by
  have hearly : info.stale clock.sweep cfg.regTtl = false :=
    RoomEntry.not_stale_mono clock.sweep_le hlive
  cases cookie with
  | none =>
      have hbare : T.handleReg cfg room (cookieText none) src clock rnd =
          T.regInitial cfg room src clock rnd := rfl
      rw [hbare]
      constructor
      · intro hrefreshed
        by_contra hlinks
        rw [regInitial_at_cap hlinks] at hrefreshed
        cases hrefreshed.1
      · exact regInitial_refreshed hroom hinfo hearly
  | some cookie =>
      rw [handleReg_some]
      constructor
      · intro hrefreshed
        by_contra hmatch
        obtain ⟨reason, -, hdrop⟩ := regWithCookie_unmatched (Or.inr (by rw [hroom]; rfl))
          hmatch cfg rnd
        rw [hdrop] at hrefreshed
        cases hrefreshed.1
      · intro hmatch
        exact regWithCookie_accepted hmatch (mayAccept_of_live hroom hinfo hlive) rnd

theorem handleReg_answers_iff (cookie : Option Cookie) (hroom : T.room? room = some entry)
    (hgone : src ∉ (entry.sweep T.ipCounts room clock.sweep cfg.regTtl).1.udpClients)
    (rnd : Cookie) :
    (∀ reason, (T.handleReg cfg room (cookieText cookie) src clock rnd).2 ≠ .drop reason) ↔
      AnswerDue T cfg room src clock entry cookie := by
  cases cookie with
  | none =>
      have hbare : T.handleReg cfg room (cookieText none) src clock rnd =
          T.regInitial cfg room src clock rnd := rfl
      rw [hbare]
      by_cases hlinks : T.ipCounts.countIpRooms (ipKey src) < cfg.maxRoomsPerIp
      · have hsection : (T.regInitial cfg room src clock rnd).2 =
            (entry.regSection cfg room src clock rnd (T.pendingCountForIp (ipKey src))
              T.ipCounts).2.2 := by
          unfold regInitial
          rw [if_neg (Nat.not_le_of_lt hlinks), hroom]
          rfl
        have hne := regSection_ne_regd T.ipCounts (T.pendingCountForIp (ipKey src)) hgone rnd
        rw [hsection]
        simp only [AnswerDue, hlinks, true_and]
        rw [← regSection_challenged_iff T.ipCounts hgone rnd]
        cases haction : (entry.regSection cfg room src clock rnd (T.pendingCountForIp (ipKey src))
            T.ipCounts).2.2 with
        | regd => exact absurd haction hne
        | challenge c => simp
        | drop reason => simp
      · rw [regInitial_at_cap hlinks]
        simp [AnswerDue, hlinks]
  | some cookie =>
      rw [handleReg_some]
      by_cases hmatch : T.Matches room src cookie clock
      · by_cases hcaps : T.MayAccept cfg room src clock
        · rw [(regWithCookie_accepted hmatch hcaps rnd).1]
          simp [AnswerDue, hmatch, hcaps]
        · obtain ⟨reason, -, hdrop⟩ := regWithCookie_capped hmatch hcaps rnd
          rw [hdrop]
          simp [AnswerDue, hcaps]
      · obtain ⟨reason, -, hdrop⟩ := regWithCookie_unmatched (Or.inr (by rw [hroom]; rfl))
          hmatch cfg rnd
        rw [hdrop]
        simp [AnswerDue, hmatch]

end Tables

/-! ### Client and relay together -/

theorem step_regData {relay : Relay} {room : Room} (hvalid : validRoomName room = true)
    (cookie : Option Cookie) {src : SocketAddr} {clock : Clock}
    (hlimited : (relay.isRegRateLimited src clock.limit).2 = false) (rnd : Cookie) :
    (relay.step (.packet (regData room cookie) src clock rnd)).1.tables =
        (relay.tables.handleReg relay.cfg room (cookieText cookie) src clock rnd).1 ∧
      (relay.step (.packet (regData room cookie) src clock rnd)).2 =
        (relay.tables.handleReg relay.cfg room (cookieText cookie) src clock rnd).2.replies room
          src := by
  simp only [step, handlePacket, parsePacket_regData hvalid, handleReg, hlimited,
    Bool.false_eq_true, if_false]
  cases (relay.tables.handleReg relay.cfg room (cookieText cookie) src clock rnd).2 with
  | regd => exact ⟨rfl, rfl⟩
  | challenge c => exact ⟨rfl, rfl⟩
  | drop reason => exact ⟨rfl, rfl⟩

/-- **Keep-alive.** In every reachable state, what a client that got the answers `actions` sends
next for its room, if the rate limiter lets it pass: as long as it is an admitted client that is not
stale, it is refreshed and answered `OK` exactly when that is due; and once it was evicted from a
room that still exists, it is answered exactly when that is due. -/
theorem keepAlive_iff {cfg : Config} {relay : Relay} {now : Nat}
    {history : List (Machine.Record Relay Event Reply)}
    (hrun : Run (machine cfg) history relay now) {room : Room} {entry : RoomEntry}
    (hroom : relay.tables.room? room = some entry) {src : SocketAddr} {actions : List RegAction}
    {client : Registrar} (hclient : feed room .new (answers room src actions) = some client)
    {sending : Instant} {regInterval : Duration} {data : Bytes}
    (hdata : (client.register room sending regInterval).2 = some data) {clock : Clock}
    (hlimited : (relay.isRegRateLimited src clock.limit).2 = false) (rnd : Cookie) :
    (∀ info, entry.udpClients.lookup src = some info →
      info.stale clock.resweep cfg.regTtl = false →
        (((relay.step (.packet data src clock rnd)).2 = [.regd room src] ∧
            (relay.step (.packet data src clock rnd)).1.tables.SeenAt room src clock.stamp) ↔
          RefreshDue relay.tables cfg room src clock (lastCookie actions))) ∧
      ((∀ info, entry.udpClients.lookup src = some info →
          info.stale clock.sweep cfg.regTtl = true) →
        ((relay.step (.packet data src clock rnd)).2 ≠ [] ↔
          AnswerDue relay.tables cfg room src clock entry (lastCookie actions))) := by
  have hcfg := cfg_of_run hrun
  subst hcfg
  have hvalid := validRooms_of_run hrun room entry hroom
  obtain ⟨fed, hfed, hcookie⟩ := feed_answers hvalid src actions
  obtain rfl : fed = client := Option.some.inj (hfed.symm.trans hclient)
  have hline : data = regData room (lastCookie actions) := by
    unfold Registrar.register at hdata
    split at hdata
    · cases hdata
      exact regLine_eq_regData hcookie room
    · cases hdata
  subst hline
  obtain ⟨htables, hsent⟩ := step_regData hvalid (lastCookie actions) hlimited rnd
  rw [htables, hsent]
  refine ⟨fun info hinfo hlive => ?_, fun hstale => ?_⟩
  · rw [← Tables.handleReg_refreshes_iff (lastCookie actions) hroom hinfo hlive rnd]
    apply and_congr_left'
    exact RegAction.replies_eq_regd_iff
  · have hgone : src ∉ (entry.sweep relay.tables.ipCounts room clock.sweep
        relay.cfg.regTtl).1.udpClients := by
      change src ∉ (entry.removeStaleClients room clock.sweep relay.cfg.regTtl).1.udpClients
      rw [RoomEntry.mem_removeStaleClients_udpClients]
      rintro ⟨info, hinfo, hlive⟩
      rw [hstale info hinfo] at hlive
      cases hlive
    rw [← Tables.handleReg_answers_iff (lastCookie actions) hroom hgone rnd]
    exact RegAction.replies_ne_nil_iff

def admittedRelay : Relay :=
  (machine .defaults).exec (machine .defaults).init
    (handshake (ascii "r") (.v4 ⟨10, 0, 0, 1⟩ 1000) 0 (.fill 1))

/-- A bare registration of its client half a minute later is accepted. -/
theorem keepAlive_iff_bare :
    (admittedRelay.step (regEvent (ascii "r") none (.v4 ⟨10, 0, 0, 1⟩ 1000) (fromMillis 30000)
      (.fill 2))).2 = [.regd (ascii "r") (.v4 ⟨10, 0, 0, 1⟩ 1000)] := by
  have hadmitted : (admittedRelay.tables.room? (ascii "r")).any
      (fun entry => (entry.udpClients.lookup (.v4 ⟨10, 0, 0, 1⟩ 1000)).any
        fun info => !info.stale (fromMillis 30000) Config.defaults.regTtl) = true := by
    decide +kernel
  obtain ⟨entry, hroom, hsome⟩ := (Option.any_eq_true _ _).mp hadmitted
  obtain ⟨info, hinfo, hlive⟩ := (Option.any_eq_true _ _).mp hsome
  have hclient : feed (ascii "r") .new (answers (ascii "r") (.v4 ⟨10, 0, 0, 1⟩ 1000) []) =
      some .new := rfl
  have hdata : (Registrar.new.register (ascii "r") (fromMillis 30000) (fromMillis 30000)).2 =
      some (regData (ascii "r") none) := rfl
  have hlimited : (admittedRelay.isRegRateLimited (.v4 ⟨10, 0, 0, 1⟩ 1000)
      (Clock.same (fromMillis 30000)).limit).2 = false := by
    decide +kernel
  have hfresh : info.stale (Clock.same (fromMillis 30000)).resweep Config.defaults.regTtl = false := by
    rw [Bool.not_eq_true'] at hlive
    exact hlive
  have hdue : RefreshDue admittedRelay.tables .defaults (ascii "r") (.v4 ⟨10, 0, 0, 1⟩ 1000)
      (.same (fromMillis 30000)) (lastCookie []) := by
    have hlinks : admittedRelay.tables.ipCounts.countIpRooms (ipKey (.v4 ⟨10, 0, 0, 1⟩ 1000)) <
        Config.defaults.maxRoomsPerIp := by
      decide +kernel
    exact hlinks
  exact (((keepAlive_iff ((machine .defaults).run_exec (by decide)) hroom hclient hdata hlimited
    (.fill 2)).1 info hinfo hfresh).mpr hdue).1

def admittedClient : Registrar :=
  { pendingCookie := toHexLower (Cookie.fill 1).bytes, lastRegSent := none, receivedRegd := true }

/-- The registration that this client repeats half a minute later gets no answer, though it is an
admitted client, not stale and not rate-limited. -/
theorem keepAlive_dropped :
    Run (machine .defaults)
        ((machine .defaults).trace (machine .defaults).init
          (handshake (ascii "r") (.v4 ⟨10, 0, 0, 1⟩ 1000) 0 (.fill 1))) admittedRelay 0 ∧
      feed (ascii "r") .new
          (answers (ascii "r") (.v4 ⟨10, 0, 0, 1⟩ 1000) [.challenge (.fill 1), .regd]) =
        some admittedClient ∧
      (admittedClient.register (ascii "r") (fromMillis 30000) (fromMillis 30000)).2 =
        some (regData (ascii "r") (some (.fill 1))) ∧
      (∃ entry info, admittedRelay.tables.room? (ascii "r") = some entry ∧
        entry.udpClients.lookup (.v4 ⟨10, 0, 0, 1⟩ 1000) = some info ∧
        info.stale (fromMillis 30000) Config.defaults.regTtl = false) ∧
      (admittedRelay.isRegRateLimited (.v4 ⟨10, 0, 0, 1⟩ 1000) (fromMillis 30000)).2 = false ∧
      (admittedRelay.step (regEvent (ascii "r") (some (.fill 1)) (.v4 ⟨10, 0, 0, 1⟩ 1000)
        (fromMillis 30000) (.fill 2))).2 = [] := by
  have hadmitted : (admittedRelay.tables.room? (ascii "r")).any
      (fun entry => (entry.udpClients.lookup (.v4 ⟨10, 0, 0, 1⟩ 1000)).any
        fun info => !info.stale (fromMillis 30000) Config.defaults.regTtl) = true := by
    decide +kernel
  obtain ⟨entry, hroom, hsome⟩ := (Option.any_eq_true _ _).mp hadmitted
  obtain ⟨info, hinfo, hlive⟩ := (Option.any_eq_true _ _).mp hsome
  exact ⟨(machine .defaults).run_exec (by decide), by decide +kernel, by decide +kernel,
    ⟨entry, info, hroom, hinfo, by simpa using hlive⟩, by decide +kernel, by decide +kernel⟩

end Qvole.Relay
