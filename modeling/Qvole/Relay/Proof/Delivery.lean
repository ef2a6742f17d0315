import Qvole.Relay.Proof.Routability

/-!
# Delivery

A `MSG` goes once to every other client of its room and nowhere else. That no client gets it twice
rests on the clients' keys being their addresses, which holds in every reachable state; that the
bytes of phase and body are those sent, on the parser cutting the datagram at its blanks only.
-/

namespace Qvole.Relay

/-- The messages counted in the window that is current at `now`. -/
def RateLimiter.counted (limiter : RateLimiter) (now : Instant) (rateWindow : Duration) : Nat :=
  if now - limiter.windowStart > rateWindow then 0 else limiter.msgCount

theorem RateLimiter.isLimited_eq_false_iff {limiter : RateLimiter} {now : Instant}
    {rateWindow : Duration} {rate : Nat} :
    (limiter.isLimited now rateWindow rate).2 = false ↔ limiter.counted now rateWindow < rate := by
  unfold isLimited counted
  by_cases hwindow : now - limiter.windowStart > rateWindow
  · simp only [hwindow, if_true]
    by_cases hrate : rate ≤ 0
    · simp [hrate]
    · simp [hrate, Nat.pos_of_ne_zero (by omega : rate ≠ 0)]
  · simp only [hwindow, if_false]
    by_cases hrate : rate ≤ limiter.msgCount
    · simp [hrate]
    · simp [hrate, Nat.lt_of_not_le hrate]

/-! ### What a message says -/

/-- The datagram reads `MSG room phase body`, with fields that pass every check. -/
structure SaysMsg (data : Bytes) (room : Room) (phase body : Bytes) : Prop where
  size : data.length ≤ maxDatagramLen
  line : trimAsciiSpace data =
    ascii "MSG " ++ room ++ ascii " " ++ phase ++ ascii " " ++ body
  phase : phase = ascii "spake2" ∨ phase = ascii "confirm"
  room : validRoomName room = true
  body_ne_nil : body ≠ []
  body_even : body.length % 2 = 0
  body_hex : ∀ c ∈ body, isAsciiHexdigit c = true
  body_length : body.length ≤ maxMsgBodyLen

theorem isValidHex_iff {b : Bytes} :
    isValidHex b = true ↔ b ≠ [] ∧ b.length % 2 = 0 ∧ ∀ c ∈ b, isAsciiHexdigit c = true := by
  unfold isValidHex
  by_cases hnil : b = []
  · simp [hnil]
  · by_cases heven : b.length % 2 = 0
    · simp [hnil, heven]
    · simp [hnil, heven]

theorem parsePacket_eq_msg_iff {data payload : Bytes} :
    parsePacket data = .msg payload ↔
      data ≠ [] ∧ data.length ≤ maxDatagramLen ∧
        trimAsciiSpace data = ascii "MSG " ++ payload := by
  have hmsg : (ascii "MSG ").length = cmdPrefixLen := by decide
  unfold parsePacket
  by_cases hsize : (data.isEmpty || data.length > maxDatagramLen) = true
  · rw [if_pos hsize]
    simp only [Bool.or_eq_true, List.isEmpty_iff, decide_eq_true_eq] at hsize
    constructor
    · intro h
      cases h
    · rintro ⟨hne, hlen, -⟩
      rcases hsize with hnil | hlong
      · exact absurd hnil hne
      · exact absurd hlong (Nat.not_lt_of_le hlen)
  · rw [if_neg hsize]
    simp only [Bool.or_eq_true, List.isEmpty_iff, decide_eq_true_eq, not_or, not_lt] at hsize
    simp only [ne_eq, hsize, not_false_eq_true, true_and]
    constructor
    · intro h
      split at h
      · unfold parseReg at h
        simp only at h
        split at h
        · cases h
        · split at h <;> cases h
      · split at h
        · rename_i hhead
          obtain ⟨rest, hrest⟩ := List.isPrefixOf_iff_prefix.mp hhead.2
          cases h
          rw [← hrest, List.drop_left' hmsg]
        · cases h
    · intro hline
      rw [hline, if_neg, if_pos, List.drop_left' hmsg]
      · refine ⟨?_, List.isPrefixOf_iff_prefix.mpr ⟨_, rfl⟩⟩
        rw [List.length_append, hmsg]
        exact Nat.le_add_right _ _
      · rintro ⟨-, hreg⟩
        obtain ⟨rest, hrest⟩ := List.isPrefixOf_iff_prefix.mp hreg
        have hfirst := (List.cons.inj hrest).1
        exact absurd hfirst (by decide)

theorem parseMsg_eq_ok_iff {payload : Bytes} {room : Room} {phase body : Bytes} :
    parseMsg payload = .ok (room, phase, body) ↔
      payload = room ++ ascii " " ++ phase ++ ascii " " ++ body ∧
        (phase = ascii "spake2" ∨ phase = ascii "confirm") ∧ validRoomName room = true ∧
        isValidHex body = true ∧ body.length ≤ maxMsgBodyLen := by
  have hspace : ∀ b : Bytes, ascii " " ++ b = 32 :: b := fun b => rfl
  constructor
  · intro h
    unfold parseMsg at h
    split at h
    · cases h
    · rename_i room' rest hroom
      split at h
      · cases h
      · rename_i phase' body' hphase
        split at h
        · cases h
        · rename_i hknown
          split at h
          · cases h
          · rename_i hvalid
            split at h
            · cases h
            · rename_i hbody
              cases h
              obtain ⟨rfl, -⟩ := Bytes.splitOnce_eq_some_iff.mp hroom
              obtain ⟨rfl, -⟩ := Bytes.splitOnce_eq_some_iff.mp hphase
              rw [not_or, not_lt] at hbody
              refine ⟨by simp only [List.append_assoc, hspace, List.cons_append], ?_, by simpa using hvalid,
                by simpa using hbody.1, hbody.2⟩
              by_contra hneither
              rw [not_or] at hneither
              exact hknown hneither
  · rintro ⟨rfl, hphase, hvalid, hhex, hlen⟩
    have hphaseSpace : (32 : UInt8) ∉ phase := by
      rcases hphase with rfl | rfl <;> decide
    have hfirst : Bytes.splitOnce 32 (room ++ ascii " " ++ phase ++ ascii " " ++ body) =
        (room, some (phase ++ ascii " " ++ body)) := by
      simp only [List.append_assoc, hspace]
      exact Bytes.splitOnce_append (unblank_room hvalid).space _
    have hsecond : Bytes.splitOnce 32 (phase ++ ascii " " ++ body) = (phase, some body) := by
      simp only [List.append_assoc, hspace]
      exact Bytes.splitOnce_append hphaseSpace _
    have hknown : ¬ (phase ≠ ascii "spake2" ∧ phase ≠ ascii "confirm") := by
      rintro ⟨hspake, hconfirm⟩
      exact hphase.elim hspake hconfirm
    unfold parseMsg
    simp only [hfirst, hsecond]
    rw [if_neg hknown, if_neg (by simp [hvalid]), if_neg]
    rw [not_or, not_lt]
    exact ⟨by simp [hhex], hlen⟩

/-- **The parser.** A datagram gets through to the room exactly when it says so. -/
theorem parse_iff_saysMsg {data : Bytes} {room : Room} {phase body : Bytes} :
    (∃ payload, parsePacket data = .msg payload ∧ parseMsg payload = .ok (room, phase, body)) ↔
      SaysMsg data room phase body := by
  simp only [parsePacket_eq_msg_iff, parseMsg_eq_ok_iff, isValidHex_iff]
  constructor
  · rintro ⟨payload, ⟨-, hsize, hline⟩, rfl, hphase, hroom, ⟨hne, heven, hhex⟩, hlen⟩
    exact ⟨hsize, by rw [hline]; simp only [List.append_assoc], hphase, hroom, hne, heven, hhex,
      hlen⟩
  · intro h
    refine ⟨_, ⟨?_, h.size, ?_⟩, rfl, h.phase, h.room, ⟨h.body_ne_nil, h.body_even, h.body_hex⟩,
      h.body_length⟩
    · intro hnil
      have hline := h.line
      rw [hnil] at hline
      cases hline
    · rw [h.line]
      simp only [List.append_assoc]

/-! ### Who gets it -/

/-- Every client's resolved address is its key. -/
def RoomEntry.Resolved (entry : RoomEntry) : Prop :=
  ∀ addr info, entry.udpClients.lookup addr = some info → info.resolvedAddr = some addr

theorem targets_of_resolved {entry : RoomEntry} (h : entry.Resolved) (src : SocketAddr) :
    entry.targets src = entry.udpClients.keys.filter fun addr => addr ≠ src := by
  have htarget : ∀ e ∈ entry.udpClients.entries,
      (if e.1 ≠ src then e.2.resolvedAddr else none) =
        if e.1 ≠ src then some e.1 else none := by
    intro e he
    rw [h e.1 e.2 (AList.lookup_eq_some_iff.mpr he)]
  unfold RoomEntry.targets
  rw [List.filterMap_congr htarget, AList.keys, List.keys]
  generalize entry.udpClients.entries = entries
  induction entries with
  | nil => rfl
  | cons e entries ih =>
      by_cases heq : e.1 = src
      · simpa [heq] using ih
      · simpa [heq] using ih

theorem count_targets {entry : RoomEntry} (h : entry.Resolved) (src target : SocketAddr) :
    (entry.targets src).count target =
      if target ∈ entry.udpClients ∧ target ≠ src then 1 else 0 := by
  have hnodup : (entry.targets src).Nodup := by
    rw [targets_of_resolved h]
    exact entry.udpClients.keys_nodup.filter _
  have hmem : target ∈ entry.targets src ↔ target ∈ entry.udpClients ∧ target ≠ src := by
    rw [targets_of_resolved h, List.mem_filter, ← AList.mem_keys, decide_eq_true_eq]
  rw [hnodup.count]
  exact if_congr hmem rfl rfl

theorem RoomEntry.Resolved.metered {entry : RoomEntry} (h : entry.Resolved) {src : SocketAddr}
    {info : UdpClient} (hinfo : entry.udpClients.lookup src = some info)
    (rateLimiter : RateLimiter) : (entry.metered src info rateLimiter).Resolved := by
  intro addr info' hlookup
  rw [RoomEntry.metered, AList.lookup_insert_ite] at hlookup
  split at hlookup
  · rename_i heq
    cases hlookup
    rw [heq]
    exact h src info hinfo
  · exact h addr info' hlookup

/-! ### The handler -/

/-- What a datagram has to say, and its sender to be, for it to be passed on. -/
structure Deliverable (relay : Relay) (data : Bytes) (src : SocketAddr) (now : Instant)
    (room : Room) (phase body : Bytes) (entry : RoomEntry) (info : UdpClient) : Prop where
  message : SaysMsg data room phase body
  room : relay.tables.room? room = some entry
  admitted : entry.udpClients.lookup src = some info
  free : info.rateLimiter.counted now relay.cfg.rateWindow < msgRate relay.cfg

section Handler

variable {relay : Relay} {data payload : Bytes} {src : SocketAddr} {clock : Clock} {rnd : Cookie}
  {room : Room} {phase body : Bytes} {entry : RoomEntry} {info : UdpClient}

theorem handleMsg_delivers (hparse : parseMsg payload = .ok (room, phase, body))
    (hroom : relay.tables.room? room = some entry)
    (hinfo : entry.udpClients.lookup src = some info)
    (hfree : info.rateLimiter.counted clock.limit relay.cfg.rateWindow < msgRate relay.cfg) :
    ∃ rateLimiter, (relay.handleMsg payload src clock).2 =
      ((entry.metered src info rateLimiter).targets src).map fun t => .msgd phase body t := by
  have hlimited := RateLimiter.isLimited_eq_false_iff.mpr hfree
  unfold handleMsg
  simp only [hparse, hroom, hinfo, hlimited, Bool.false_eq_true, if_false]
  exact ⟨_, rfl⟩

theorem handleMsg_sent {reply : Reply} (h : reply ∈ (relay.handleMsg payload src clock).2) :
    ∃ room phase body entry info, parseMsg payload = .ok (room, phase, body) ∧
      relay.tables.room? room = some entry ∧ entry.udpClients.lookup src = some info ∧
      info.rateLimiter.counted clock.limit relay.cfg.rateWindow < msgRate relay.cfg ∧
      ∃ target, reply = .msgd phase body target := by
  unfold handleMsg at h
  split at h
  · cases h
  · rename_i room phase body hparse
    split at h
    · cases h
    · rename_i entry hroom
      split at h
      · cases h
      · rename_i info hinfo
        simp only at h
        split at h
        · cases h
        · rename_i hfree
          obtain ⟨target, -, rfl⟩ := List.mem_map.mp h
          refine ⟨room, phase, body, entry, info, hparse, hroom, hinfo, ?_, target, rfl⟩
          exact RateLimiter.isLimited_eq_false_iff.mp (by simpa using hfree)

/-- Nothing differs but the rate limiter of `src` in one room, the statistics and the drop log. -/
structure OnlyMetered (src : SocketAddr) (relay relay' : Relay) : Prop where
  cfg : relay'.cfg = relay.cfg
  regShards : relay'.meters.regShards = relay.meters.regShards
  tables : relay'.tables = relay.tables ∨
    ∃ room entry info rateLimiter, relay.tables.room? room = some entry ∧
      entry.udpClients.lookup src = some info ∧
      relay'.tables = relay.tables.setRoom room (entry.metered src info rateLimiter)

theorem handleMsg_onlyMetered (relay : Relay) (payload : Bytes) (src : SocketAddr)
    (clock : Clock) : OnlyMetered src relay (relay.handleMsg payload src clock).1 := by
  have hdrop : OnlyMetered src relay (relay.drop src clock).1 := ⟨rfl, rfl, Or.inl rfl⟩
  unfold handleMsg
  cases parseMsg payload with
  | error reason => exact hdrop
  | ok parsed =>
      obtain ⟨room, phase, body⟩ := parsed
      simp only
      cases hroom : relay.tables.room? room with
      | none => exact hdrop
      | some entry =>
          simp only
          cases hinfo : entry.udpClients.lookup src with
          | none => exact hdrop
          | some info =>
              simp only
              split
              · exact ⟨rfl, rfl, Or.inr ⟨room, entry, info, _, hroom, hinfo, rfl⟩⟩
              · exact ⟨rfl, rfl, Or.inr ⟨room, entry, info, _, hroom, hinfo, rfl⟩⟩

theorem handleReg_not_msgd {cookie : Bytes} {target : SocketAddr} :
    .msgd phase body target ∉ (relay.handleReg room cookie src clock rnd).2 := by
  unfold handleReg
  simp only
  split
  · simp [drop]
  · split <;> simp [drop]

theorem handlePacket_deliverable {target : SocketAddr}
    (h : .msgd phase body target ∈ (relay.handlePacket data src clock rnd).2) :
    ∃ room entry info, Deliverable relay data src clock.limit room phase body entry info := by
  unfold handlePacket at h
  split at h
  · cases h
  · exact absurd h handleReg_not_msgd
  · rename_i payload hpacket
    obtain ⟨room, phase', body', entry, info, hparse, hroom, hinfo, hfree, target', heq⟩ :=
      handleMsg_sent h
    cases heq
    exact ⟨room, entry, info, parse_iff_saysMsg.mp ⟨payload, hpacket, hparse⟩, hroom, hinfo, hfree⟩

theorem handlePacket_delivers (hentry : entry.Resolved)
    (h : Deliverable relay data src clock.limit room phase body entry info) :
    (∀ reply ∈ (relay.handlePacket data src clock rnd).2, ∃ target, reply = .msgd phase body target) ∧
      ∀ target, (relay.handlePacket data src clock rnd).2.count (.msgd phase body target) =
        if target ∈ entry.udpClients ∧ target ≠ src then 1 else 0 := by
  obtain ⟨payload, hpacket, hparse⟩ := parse_iff_saysMsg.mpr h.message
  obtain ⟨rateLimiter, hsent⟩ := handleMsg_delivers hparse h.room h.admitted h.free
  have hinj : Function.Injective fun t => Reply.msgd phase body t := by
    intro t t' heq
    cases heq
    rfl
  have hpacketSent : (relay.handlePacket data src clock rnd).2 =
      ((entry.metered src info rateLimiter).targets src).map fun t => .msgd phase body t := by
    rw [handlePacket, hpacket]
    exact hsent
  rw [hpacketSent]
  refine ⟨fun reply hreply => ?_, fun target => ?_⟩
  · obtain ⟨target, -, rfl⟩ := List.mem_map.mp hreply
    exact ⟨target, rfl⟩
  · rw [List.count_map_of_injective _ _ hinj, count_targets (hentry.metered h.admitted _)]
    exact if_congr (and_congr_left' (mem_metered h.admitted rateLimiter target)) rfl rfl

end Handler

/-! ### Runs -/

/-- **Delivery is exact and stays in the room.** In every reachable state, a datagram makes the relay
send messages only if it is deliverable, and then exactly one to each other client of its room, with
the phase and body it has. Handling a `MSG` leaves all else as it was. -/
theorem delivery_of_run {cfg : Config} {history : List (Machine.Record Relay Event Reply)}
    {relay : Relay} {now : Nat} (hrun : Machine.Run (machine cfg) history relay now) (data : Bytes)
    (src : SocketAddr) (clock : Clock) (rnd : Cookie) :
    (∀ phase body target, .msgd phase body target ∈ (relay.handlePacket data src clock rnd).2 →
      ∃ room entry info, Deliverable relay data src clock.limit room phase body entry info) ∧
    (∀ room phase body entry info,
      Deliverable relay data src clock.limit room phase body entry info →
        (∀ reply ∈ (relay.handlePacket data src clock rnd).2,
          ∃ target, reply = .msgd phase body target) ∧
        ∀ target, (relay.handlePacket data src clock rnd).2.count (.msgd phase body target) =
          if target ∈ entry.udpClients ∧ target ≠ src then 1 else 0) ∧
    ∀ payload, parsePacket data = .msg payload →
      OnlyMetered src relay (relay.handlePacket data src clock rnd).1 := by
  refine ⟨fun _ _ _ h => handlePacket_deliverable h, fun room phase body entry info h => ?_,
    fun payload hpacket => ?_⟩
  · have hentry : entry.Resolved := fun addr info hinfo =>
      (((traced_of_run hrun).rooms room entry h.room).clients addr info hinfo).1
    exact handlePacket_delivers hentry h
  · rw [handlePacket, hpacket]
    exact handleMsg_onlyMetered relay payload src clock

def pairJoins : List Event :=
  handshake (ascii "r") (.v4 ⟨10, 0, 0, 1⟩ 1000) 0 (.fill 1) ++
    handshake (ascii "r") (.v4 ⟨10, 0, 0, 2⟩ 1000) 0 (.fill 2)

theorem delivery_of_run_pair :
    (((machine .defaults).exec (machine .defaults).init pairJoins).handlePacket
      (ascii "MSG r spake2 0aFF\n") (.v4 ⟨10, 0, 0, 1⟩ 1000) (.same 0) (.fill 3)).2.count
        (.msgd (ascii "spake2") (ascii "0aFF") (.v4 ⟨10, 0, 0, 2⟩ 1000)) = 1 := by
  have hordered : (machine .defaults).Ordered 0 pairJoins := by decide
  have hrun := (machine .defaults).run_exec hordered
  have hroom : (((machine .defaults).exec (machine .defaults).init pairJoins).tables.room?
      (ascii "r")).any (fun entry => (.v4 ⟨10, 0, 0, 2⟩ 1000 : SocketAddr) ∈ entry.udpClients ∧
        (entry.udpClients.lookup (.v4 ⟨10, 0, 0, 1⟩ 1000)).any fun info =>
          info.rateLimiter.counted 0 Config.defaults.rateWindow < msgRate .defaults) = true := by
    decide +kernel
  obtain ⟨entry, hentry, hclients⟩ := (Option.any_eq_true _ _).mp hroom
  obtain ⟨hother, hsender⟩ := of_decide_eq_true hclients
  obtain ⟨info, hinfo, hfree⟩ := (Option.any_eq_true _ _).mp hsender
  have hmessage : SaysMsg (ascii "MSG r spake2 0aFF\n") (ascii "r") (ascii "spake2")
      (ascii "0aFF") :=
    parse_iff_saysMsg.mp ⟨ascii "r spake2 0aFF", by decide, by decide⟩
  have hcfg := cfg_of_run hrun
  rw [((delivery_of_run hrun (ascii "MSG r spake2 0aFF\n") (.v4 ⟨10, 0, 0, 1⟩ 1000) (.same 0)
    (.fill 3)).2.1 _ _ _ entry info ⟨hmessage, hentry, hinfo, ?_⟩).2]
  · rw [if_pos ⟨hother, by decide⟩]
  · rw [hcfg]
    exact of_decide_eq_true hfree

end Qvole.Relay
