import Qvole.Exchange.Proof.Candidates
import Qvole.Exchange.Proof.Panics

/-!
# The order of messages

A payload and the confirmation that goes with it may come in either order, with anything before,
between and after them. The candidate waits in the table, or the confirmation in the buffer, and when
the second of the two comes the loop returns.
-/

namespace Qvole.Exchange

open Spake2 (Curve Primitives Generators State)

/-! ### What a turn receives -/

def Turn.line (turn : Turn) : Option Bytes :=
  match turn.inbound with
  | .timedOut => none
  | .failed _ => none
  | .datagram data _ => trimAscii data

def Turn.message (turn : Turn) (room : Room) : Option Message := turn.line.bind (classify room)

def Message.spakeBody : Message → Option Bytes
  | .spake2 hexBody => some hexBody
  | _ => none

theorem Turn.hears_iff {turn : Turn} {room : Room} {message : Message} :
    turn.Hears room message ↔ turn.message room = some message := by
  unfold Turn.Hears Turn.message Turn.line
  cases hinbound : turn.inbound with
  | timedOut => simp
  | failed error => simp
  | datagram data fits =>
      rw [Option.bind_eq_some_iff]
      constructor
      · rintro ⟨data', fits', line, hdata, hline, hmessage⟩
        cases hdata
        exact ⟨line, hline, hmessage⟩
      · rintro ⟨line, hline, hmessage⟩
        exact ⟨data, fits, line, rfl, hline, hmessage⟩

def Turn.isMsgd (turn : Turn) : Bool := turn.line.any (ascii "MSGD ").isPrefixOf

def Turn.isConfirm (turn : Turn) (room : Room) : Bool :=
  match turn.message room with
  | some (.confirm _) => true
  | _ => false

theorem Turn.isConfirm_of_hears {turn : Turn} {room : Room} {hexBody : Bytes}
    (h : turn.Hears room (.confirm hexBody)) : turn.isConfirm room = true := by
  rw [Turn.isConfirm, Turn.hears_iff.mp h]

/-- The turn is not the last for another reason than its message. -/
structure Turn.Lively (deadline : Instant) (turn : Turn) : Prop where
  running : turn.cancelled = false
  inTime : turn.clock.top ≤ deadline
  readable : ∀ error, turn.inbound ≠ .failed error
  notBlank : ∀ data fits, turn.inbound = .datagram data fits → ∃ c ∈ data, ws.contains c = false

theorem Turn.Lively.line_isSome {deadline : Instant} {turn : Turn} (h : turn.Lively deadline)
    {data : Bytes} {fits : data.length ≤ readBufferSize} (hinbound : turn.inbound = .datagram data fits) :
    trimAscii data = some (Relay.trimAsciiSpace data) := by
  obtain ⟨c, hc, hsolid⟩ := h.notBlank data fits hinbound
  exact Relay.trimAscii_eq_some_of (Or.inr ⟨c, hc, Relay.ws_contains_eq c ▸ hsolid⟩)

theorem TurnClock.top_le_window (clock : TurnClock) : clock.top ≤ clock.window :=
  calc
    clock.top ≤ clock.reg := clock.top_le
    _ ≤ clock.regSent := clock.reg_le
    _ ≤ clock.spake2 := clock.regSent_le
    _ ≤ clock.spake2Sent := clock.spake2_le
    _ ≤ clock.due [] := clock.spake2Sent_le []
    _ ≤ clock.resent [] := clock.due_le [] []
    _ ≤ clock.window := clock.resent_le []

/-- The turn receives a `MSGD` in the second from `t` on. -/
def Turn.isMsgdIn (turn : Turn) (t : Instant) : Bool :=
  turn.isMsgd && (decide (t ≤ turn.clock.window) && decide (turn.clock.window < t + fromMillis 1000))

def msgdIn (history : List (Machine.Record Loop Turn Sent)) (t : Instant) : Nat :=
  history.countP fun r => r.event.isMsgdIn t

theorem msgdIn_snoc (history : List (Machine.Record Loop Turn Sent))
    (r : Machine.Record Loop Turn Sent) (t : Instant) :
    msgdIn (history ++ [r]) t = msgdIn history t + if r.event.isMsgdIn t then 1 else 0 := by
  rw [msgdIn, List.countP_append, List.countP_singleton]
  rfl

section Party

variable {F S P : Type} [Field F] [DecidableEq F] [Field S] [AddCommGroup P] [DecidableEq P]
  [Module S P] {C : Curve F P} {H : Primitives} {G : Generators C H} {party : Party F S}
  {history : List (Machine.Record Loop Turn Sent)} {s s' : Session} {turn : Turn}
  {r : Machine.Record Loop Turn Sent} {now : Instant}

/-- The turn that `r` records receives this payload and can take it up. -/
def Offers (C : Curve F P) (H : Primitives) (G : Generators C H) (party : Party F S)
    (r : Machine.Record Loop Turn Sent) (payload : Bytes) (view : ProcessedSpake) (cp : Bytes) :
    Prop :=
  ∃ hexBody, r.event.Hears party.room (.spake2 hexBody) ∧
    Acceptable C H G party r.event.draws r.before.session.myAddr hexBody payload view cp

/-- The sequences of turns in question: nothing but the messages ends the loop, and there are not too
many of them. -/
structure Admissible (C : Curve F P) (H : Primitives) (G : Generators C H) (party : Party F S)
    (history : List (Machine.Record Loop Turn Sent)) : Prop where
  lively : ∀ r ∈ history, r.event.Lively party.deadline
  msgd_le : ∀ t, msgdIn history t ≤ maxInboundMsgdPerSecond
  payloads_le : ∃ keys : Finset Bytes, keys.card ≤ maxCandidates ∧
    ∀ r ∈ history, ∀ payload view cp, Offers C H G party r payload view cp →
      payloadKey payload ∈ keys
  confirms_le : (history.countP fun r => r.event.isConfirm party.room) ≤ maxBufferedConfirms

theorem Admissible.of_append {more : List (Machine.Record Loop Turn Sent)}
    (h : Admissible C H G party (history ++ more)) : Admissible C H G party history := by
  obtain ⟨keys, hcard, hkeys⟩ := h.payloads_le
  refine ⟨fun r hr => h.lively r (List.mem_append_left _ hr), fun t => ?_,
    ⟨keys, hcard, fun r hr => hkeys r (List.mem_append_left _ hr)⟩, ?_⟩
  · have hle := h.msgd_le t
    rw [msgdIn, List.countP_append] at hle
    exact (Nat.le_add_right _ _).trans hle
  · have hle := h.confirms_le
    rw [List.countP_append] at hle
    exact (Nat.le_add_right _ _).trans hle

/-! ### The rate limit -/

/-- The count of the current second covers no more than the turns that fall into it. -/
def Paced (history : List (Machine.Record Loop Turn Sent)) (s : Session) (now : Instant) : Prop :=
  ∀ t, s.inboundWindow = some t → t ≤ now ∧ s.inboundCount ≤ msgdIn history t

theorem Paced.extend (h : Paced history s now) (r : Machine.Record Loop Turn Sent)
    {later : Instant} (hlater : now ≤ later) (hwindow : s'.inboundWindow = s.inboundWindow)
    (hcount : s'.inboundCount = s.inboundCount) : Paced (history ++ [r]) s' later := by
  intro t ht
  obtain ⟨hle, hcounted⟩ := h t (hwindow.symm.trans ht)
  refine ⟨hle.trans hlater, ?_⟩
  rw [hcount, msgdIn_snoc]
  exact hcounted.trans (Nat.le_add_right _ _)

theorem Paced.meter (h : Paced history s now) (hturn : r.event = turn)
    (hnow : now ≤ turn.clock.window) {line : Bytes} (hline : turn.line = some line) :
    Paced (history ++ [r]) (s.meter line turn.clock.window).1 turn.clock.window := by
  unfold Session.meter
  by_cases hmsgd : (ascii "MSGD ").isPrefixOf line = true
  · have hcounted : ∀ t, t ≤ turn.clock.window → turn.clock.window < t + fromMillis 1000 →
        msgdIn (history ++ [r]) t = msgdIn history t + 1 := by
      intro t hle hlt
      have hin : r.event.isMsgdIn t = true := by
        rw [hturn, Turn.isMsgdIn, Turn.isMsgd, hline, Option.any_some, hmsgd]
        simp [hle, hlt]
      rw [msgdIn_snoc, if_pos hin]
    rw [if_pos hmsgd]
    by_cases hnew : (s.inboundWindow.all fun t => turn.clock.window - t ≥ fromMillis 1000) = true
    · simp only [if_pos hnew]
      intro t ht
      obtain rfl : turn.clock.window = t := Option.some.inj ht
      refine ⟨le_rfl, ?_⟩
      rw [hcounted _ le_rfl (Nat.lt_add_of_pos_right (by decide))]
      exact Nat.le_add_left _ _
    · simp only [if_neg hnew]
      intro t ht
      change s.inboundWindow = some t at ht
      obtain ⟨hle, hcount⟩ := h t ht
      refine ⟨hle.trans hnow, ?_⟩
      have hwithin : turn.clock.window < t + fromMillis 1000 := by
        simp only [ht, Option.all_some, decide_eq_true_eq, ge_iff_le, Nat.not_le] at hnew
        exact (Nat.sub_lt_iff_lt_add' (hle.trans hnow)).mp hnew
      rw [hcounted t (hle.trans hnow) hwithin]
      exact Nat.add_le_add_right hcount 1
  · rw [if_neg hmsgd]
    exact h.extend r hnow rfl rfl

/-- A session that keeps pace drops no message. -/
theorem Paced.not_metered {line : Bytes}
    (h : Paced (history ++ [r]) (s.meter line turn.clock.window).1 turn.clock.window)
    (hadmissible : Admissible C H G party (history ++ [r])) :
    (s.meter line turn.clock.window).2 = false := by
  unfold Session.meter at h ⊢
  by_cases hmsgd : (ascii "MSGD ").isPrefixOf line = true
  · rw [if_pos hmsgd] at h ⊢
    simp only [decide_eq_false_iff_not, Nat.not_lt] at h ⊢
    by_cases hnew : (s.inboundWindow.all fun t => turn.clock.window - t ≥ fromMillis 1000) = true
    · simp only [if_pos hnew]
      decide
    · simp only [if_neg hnew] at h ⊢
      cases hwindow : s.inboundWindow with
      | none => simp [hwindow] at hnew
      | some t => exact (h t hwindow).2.trans (hadmissible.msgd_le t)
  · rw [if_neg hmsgd]

/-! ### A turn in full -/

omit [Field F] [DecidableEq F] [Field S] [AddCommGroup P] [DecidableEq P] [Module S P] in
theorem transmit_window (C : Curve F P) (party : Party F S) (s : Session) (turn : Turn) :
    (party.transmit C s turn).1.inboundWindow = s.inboundWindow ∧
      (party.transmit C s turn).1.inboundCount = s.inboundCount := by
  unfold Party.transmit Session.sendReg
  simp only [Session.resendConfirms]
  split
  · unfold Session.sendSpake2
    split <;> exact ⟨rfl, rfl⟩
  · unfold Session.sendSpake2
    split <;> exact ⟨rfl, rfl⟩

/-- A turn in which nothing comes. -/
theorem turn_of_silence (h : turn.Lively party.deadline) (hline : turn.line = none) :
    (party.turn C H G s turn).1 = ⟨(party.transmit C s turn).1, none⟩ := by
  have hsilent : turn.inbound = .timedOut := by
    unfold Turn.line at hline
    cases hinbound : turn.inbound with
    | timedOut => rfl
    | failed error => exact absurd hinbound (h.readable error)
    | datagram data fits =>
        rw [hinbound] at hline
        simp only [h.line_isSome hinbound] at hline
        cases hline
  unfold Party.turn
  rw [if_neg (by simp [h.running]), if_neg (Nat.not_lt_of_le h.inTime)]
  simp only [hsilent]

/-- A turn with a message that is not one too many. -/
theorem turn_of_line (h : turn.Lively party.deadline) {line : Bytes} (hline : turn.line = some line)
    (hmeter : ((party.transmit C s turn).1.meter line turn.clock.window).2 = false) :
    ∃ message, turn.Hears party.room message ∧ (party.turn C H G s turn).1 =
      (party.handle C H G ((party.transmit C s turn).1.meter line turn.clock.window).1 turn
        message).1 := by
  unfold Turn.line at hline
  cases hinbound : turn.inbound with
  | timedOut =>
      rw [hinbound] at hline
      cases hline
  | failed error => exact absurd hinbound (h.readable error)
  | datagram data fits =>
      rw [hinbound] at hline
      have htrim := h.line_isSome hinbound
      obtain rfl : Relay.trimAsciiSpace data = line := Option.some.inj (htrim.symm.trans hline)
      have hbare := (Relay.trimAsciiSpace_isTrim data).2.bare
      obtain ⟨message, hmessage⟩ := Option.isSome_iff_exists.mp (Relay.classify_isSome hbare party.room)
      refine ⟨message, ⟨data, fits, _, hinbound, htrim, hmessage⟩, ?_⟩
      unfold Party.turn
      rw [if_neg (by simp [h.running]), if_neg (Nat.not_lt_of_le h.inTime)]
      simp only [hinbound, Party.receive, htrim, hmeter, hmessage, Bool.false_eq_true, if_false]

/-! ### Waiting for the other half -/

/-- While the loop runs, every payload that could be taken up is in the table, every confirmation is
in the buffer, and no two of them belong together. -/
structure Waiting (C : Curve F P) (H : Primitives) (G : Generators C H) (party : Party F S)
    (history : List (Machine.Record Loop Turn Sent)) (s : Session) : Prop where
  candidates : ∀ r ∈ history, ∀ payload view cp, Offers C H G party r payload view cp →
    ∃ cp', s.candidates.lookup (payloadKey payload) = some (.new view cp')
  buffered : ∀ r ∈ history, ∀ hexBody, r.event.Hears party.room (.confirm hexBody) →
    hexBody ∈ s.bufferedConfirms
  length_le : s.bufferedConfirms.length ≤ history.countP fun r => r.event.isConfirm party.room
  unmatched : ∀ key cand, s.candidates.lookup key = some cand →
    ∀ hexBody ∈ s.bufferedConfirms, ∃ error, party.checkConfirm C H G cand hexBody = .fail error

theorem Waiting.quiet {sent : List Sent} (h : Waiting C H G party history s)
    (hquiet : Quiet s s' sent) : Waiting C H G party history s' := by
  refine ⟨?_, ?_, ?_, ?_⟩
  · rw [hquiet.candidates]
    exact h.candidates
  · rw [hquiet.bufferedConfirms]
    exact h.buffered
  · rw [hquiet.bufferedConfirms]
    exact h.length_le
  · rw [hquiet.candidates, hquiet.bufferedConfirms]
    exact h.unmatched

/-- A turn that brings neither half. -/
theorem Waiting.extend (h : Waiting C H G party history s) (r : Machine.Record Loop Turn Sent)
    (hoffers : ∀ payload view cp, Offers C H G party r payload view cp →
      ∃ cp', s.candidates.lookup (payloadKey payload) = some (.new view cp'))
    (hconfirm : ∀ hexBody, ¬ r.event.Hears party.room (.confirm hexBody)) :
    Waiting C H G party (history ++ [r]) s := by
  refine ⟨fun r' hr' => ?_, fun r' hr' => ?_, ?_, h.unmatched⟩
  · rcases List.mem_append.mp hr' with hr' | hr'
    · exact h.candidates r' hr'
    · rw [List.mem_singleton.mp hr']
      exact hoffers
  · rcases List.mem_append.mp hr' with hr' | hr'
    · exact h.buffered r' hr'
    · rw [List.mem_singleton.mp hr']
      exact fun hexBody hhears => absurd hhears (hconfirm hexBody)
  · rw [List.countP_append]
    exact h.length_le.trans (Nat.le_add_right _ _)

/-- With few payloads around, no candidate has to go. -/
theorem size_lt_of_admissible {loop : Loop}
    (hrun : Machine.Run (party.machine C H G) history loop now)
    (hadmissible : Admissible C H G party (history ++ [r])) {payload cp : Bytes}
    {view : ProcessedSpake} (hoffers : Offers C H G party r payload view cp)
    (hnew : payloadKey payload ∉ loop.session.candidates) :
    loop.session.candidates.size < maxCandidates := by
  obtain ⟨keys, hcard, hkeys⟩ := hadmissible.payloads_le
  have hsubset : insert (payloadKey payload) loop.session.candidates.keys.toFinset ⊆ keys := by
    intro key hkey
    rcases Finset.mem_insert.mp hkey with rfl | hkey
    · exact hkeys r (List.mem_append_right _ List.mem_cons_self) _ _ _ hoffers
    · rw [List.mem_toFinset, ← AList.mem_keys] at hkey
      obtain ⟨cand, hcand⟩ := Option.isSome_iff_exists.mp (AList.lookup_isSome.mpr hkey)
      obtain ⟨r', hr', hexBody, payload', view', cp', hhears, haccepts, rfl, -⟩ :=
        (takenUp_of_run hrun).1 key cand hcand
      exact hkeys r' (List.mem_append_left _ hr') _ _ _ ⟨hexBody, hhears, haccepts⟩
  have hfresh : payloadKey payload ∉ loop.session.candidates.keys.toFinset := by
    rwa [List.mem_toFinset, ← AList.mem_keys]
  have hle := (Finset.card_le_card hsubset).trans hcard
  rw [Finset.card_insert_of_notMem hfresh,
    List.toFinset_card_of_nodup loop.session.candidates.keys_nodup] at hle
  exact hle

omit [Field S] [DecidableEq P] [Module S P] in
theorem onCandidate_ne_error (hC : C.Lawful) (s : Session) (cand : PeerCandidate)
    (fault : Fault ExchangeError) :
    (party.onCandidate C H G s cand).result ≠ some (.error fault) := by
  have hreturns : Outcome.Returns
      (Outcome.firstOk (party.checkConfirm C H G cand) s.bufferedConfirms) :=
    Outcome.returns_firstOk fun hexBody _ => returns_checkConfirm hC cand hexBody
  unfold Party.onCandidate
  split
  · simp
  · simp
  · rename_i fault' hfault
    obtain ⟨error, rfl⟩ := hreturns _ hfault
    exact absurd hfault Outcome.firstOk_ne_failed

omit [Field S] [DecidableEq P] [Module S P] in
theorem onConfirm_ne_error (hC : C.Lawful) (s : Session) (turn : Turn) (hexBody : Bytes)
    (fault : Fault ExchangeError) :
    (party.onConfirm C H G s turn hexBody).result ≠ some (.error fault) := by
  have hreturns : Outcome.Returns
      (Outcome.firstOk (fun e : CandidateEntry => party.checkConfirm C H G e.2 hexBody)
        (turn.arrange s.candidates.entries)) :=
    Outcome.returns_firstOk fun e _ => returns_checkConfirm hC e.2 hexBody
  unfold Party.onConfirm
  split
  · simp
  · simp
  · rename_i fault' hfault
    obtain ⟨error, rfl⟩ := hreturns _ hfault
    exact absurd hfault Outcome.firstOk_ne_failed

/-- The loop has returned a peer, or it goes on and both halves are still to be matched. -/
def Settled (C : Curve F P) (H : Primitives) (G : Generators C H) (party : Party F S)
    (history : List (Machine.Record Loop Turn Sent)) (loop : Loop) : Prop :=
  (∃ peer, loop.result = some (.ok peer)) ∨
    loop.result = none ∧ Waiting C H G party history loop.session

/-- A confirmation comes: a candidate accepts it, or it waits. -/
theorem Waiting.onConfirm (hC : C.Lawful) (h : Waiting C H G party history s) {hexBody : Bytes}
    (hhears : r.event.Hears party.room (.confirm hexBody))
    (hle : ((history ++ [r]).countP fun r => r.event.isConfirm party.room) ≤ maxBufferedConfirms) :
    Settled C H G party (history ++ [r]) (party.onConfirm C H G s turn hexBody) := by
  have hne : ∀ fault, (party.onConfirm C H G s turn hexBody).result ≠ some (.error fault) :=
    onConfirm_ne_error hC s turn hexBody
  have hstep : ConfirmStep C H G party s hexBody (party.onConfirm C H G s turn hexBody) :=
    onConfirm_step
  have hcount : ((history ++ [r]).countP fun r => r.event.isConfirm party.room) =
      (history.countP fun r => r.event.isConfirm party.room) + 1 := by
    rw [List.countP_append, List.countP_singleton, if_pos (Turn.isConfirm_of_hears hhears)]
  generalize party.onConfirm C H G s turn hexBody = loop at hne hstep
  cases hstep with
  | crashed fault _ => exact absurd rfl (hne fault)
  | authenticated key cand addr _ _ => exact Or.inl ⟨_, rfl⟩
  | buffered hfails =>
      have hspace : s.bufferedConfirms.length < maxBufferedConfirms := by
        have hlength := h.length_le
        omega
      refine Or.inr ⟨rfl, ?_⟩
      rw [Session.buffer, if_pos hspace]
      refine ⟨fun r' hr' payload view cp hoffers => ?_, fun r' hr' hexBody' hhears' => ?_, ?_,
        fun key cand hcand hexBody' hmem => ?_⟩
      · rcases List.mem_append.mp hr' with hr' | hr'
        · exact h.candidates r' hr' payload view cp hoffers
        · obtain ⟨hexBody', hspake2, -⟩ := hoffers
          rw [List.mem_singleton.mp hr'] at hspake2
          cases hspake2.unique hhears
      · rcases List.mem_append.mp hr' with hr' | hr'
        · exact List.mem_append_left _ (h.buffered r' hr' hexBody' hhears')
        · rw [List.mem_singleton.mp hr'] at hhears'
          cases hhears'.unique hhears
          exact List.mem_append_right _ List.mem_cons_self
      · rw [hcount, List.length_append, List.length_singleton]
        exact Nat.add_le_add_right h.length_le 1
      · rcases List.mem_append.mp hmem with hmem | hmem
        · exact h.unmatched key cand hcand hexBody' hmem
        · rw [List.mem_singleton.mp hmem]
          exact hfails key cand hcand

/-- A payload is taken up: a buffered confirmation goes with it, or it waits. -/
theorem Waiting.added (hC : C.Lawful) (h : Waiting C H G party history s) {hexBody payload cp : Bytes}
    {view : ProcessedSpake} (hhears : r.event.Hears party.room (.spake2 hexBody))
    (haccepts : Acceptable C H G party r.event.draws r.before.session.myAddr hexBody payload view cp)
    (hnew : payloadKey payload ∉ s.candidates) (sentAt : Instant) :
    Settled C H G party (history ++ [r])
      (party.onCandidate C H G (s.insertCandidate (payloadKey payload) (.new view cp) sentAt)
        (.new view cp)) := by
  have hne : ∀ fault, (party.onCandidate C H G
      (s.insertCandidate (payloadKey payload) (.new view cp) sentAt) (.new view cp)).result ≠
        some (.error fault) := onCandidate_ne_error hC _ _
  have hstep : CandidateStep C H G party
      (s.insertCandidate (payloadKey payload) (.new view cp) sentAt) (.new view cp)
      (party.onCandidate C H G (s.insertCandidate (payloadKey payload) (.new view cp) sentAt)
        (.new view cp)) := onCandidate_step _
  generalize party.onCandidate C H G (s.insertCandidate (payloadKey payload) (.new view cp) sentAt)
    (.new view cp) = loop at hne hstep
  cases hstep with
  | crashed fault _ => exact absurd rfl (hne fault)
  | authenticated confirmBody addr _ _ => exact Or.inl ⟨_, rfl⟩
  | none hfails =>
      have hold : ∀ {key}, key ∈ s.candidates →
          (s.candidates.insert (payloadKey payload) (.new view cp)).lookup key =
            s.candidates.lookup key := by
        intro key hkey
        exact AList.lookup_insert_ne fun heq => hnew (heq ▸ hkey)
      refine Or.inr ⟨rfl, ?_⟩
      refine ⟨fun r' hr' payload' view' cp' hoffers => ?_, fun r' hr' hexBody' hhears' => ?_, ?_,
        fun key cand hcand => ?_⟩
      · rcases List.mem_append.mp hr' with hr' | hr'
        · obtain ⟨cp'', hcand⟩ := h.candidates r' hr' payload' view' cp' hoffers
          refine ⟨cp'', ?_⟩
          rw [Session.insertCandidate, hold (AList.mem_of_lookup hcand)]
          exact hcand
        · obtain ⟨hexBody', hhears', haccepts'⟩ := hoffers
          rw [List.mem_singleton.mp hr'] at hhears' haccepts'
          cases hhears'.unique hhears
          obtain rfl := Option.some.inj (haccepts'.decoded.symm.trans haccepts.decoded)
          obtain rfl := Except.ok.inj (haccepts'.processed.symm.trans haccepts.processed)
          exact ⟨cp, AList.lookup_insert _⟩
      · rcases List.mem_append.mp hr' with hr' | hr'
        · exact h.buffered r' hr' hexBody' hhears'
        · rw [List.mem_singleton.mp hr'] at hhears'
          cases hhears'.unique hhears
      · rw [List.countP_append]
        exact h.length_le.trans (Nat.le_add_right _ _)
      · by_cases heq : key = payloadKey payload
        · rw [Session.insertCandidate, heq, AList.lookup_insert] at hcand
          obtain rfl := Option.some.inj hcand
          exact hfails
        · rw [Session.insertCandidate, AList.lookup_insert_ne heq] at hcand
          exact h.unmatched key cand hcand

/-- A SPAKE2 message comes. -/
theorem Waiting.onSpake2 (hC : C.Lawful) (hpw : party.state.pwScalar ≠ 0) {loop : Loop}
    (hrun : Machine.Run (party.machine C H G) history loop now) {sent : List Sent}
    (hquiet : Quiet loop.session s sent) (h : Waiting C H G party history s)
    (hturn : r.event = turn) (hbefore : r.before = loop) {hexBody : Bytes}
    (hhears : r.event.Hears party.room (.spake2 hexBody))
    (hadmissible : Admissible C H G party (history ++ [r]))
    (hsafe : ∀ payload, ¬ party.SharesIdentity C H G hexBody payload) :
    Settled C H G party (history ++ [r]) (party.onSpake2 C H G s turn hexBody).1 := by
  have hmyAddr : s.myAddr = r.before.session.myAddr := by
    rw [hquiet.myAddr, hbefore]
  have hnoConfirm : ∀ confirmBody, ¬ r.event.Hears party.room (.confirm confirmBody) := by
    intro confirmBody hconfirm
    cases hconfirm.unique hhears
  have hstep : Spake2Step C H G party s turn hexBody (party.onSpake2 C H G s turn hexBody) :=
    onSpake2_step
  generalize party.onSpake2 C H G s turn hexBody = result at hstep
  cases hstep with
  | known payload hdecoded hknown =>
      refine Or.inr ⟨rfl, h.extend r (fun payload' view cp hoffers => ?_) hnoConfirm⟩
      obtain ⟨hexBody', hhears', haccepts⟩ := hoffers
      cases hhears'.unique hhears
      obtain rfl := Option.some.inj (hdecoded.symm.trans haccepts.decoded)
      -- what the table has under the key is derived from the same bytes
      obtain ⟨cand, hcand⟩ := Option.isSome_iff_exists.mp (AList.lookup_isSome.mpr hknown)
      obtain ⟨-, view', cp', -, -, hprocessed, rfl⟩ :=
        (sound_of_run hrun).spells _ cand (hquiet.candidates ▸ hcand)
      rw [process_payloadKey hdecoded haccepts.long, haccepts.processed] at hprocessed
      obtain rfl := Except.ok.inj hprocessed
      exact ⟨cp', hcand⟩
  | refused hrefused =>
      refine Or.inr ⟨rfl, h.extend r (fun payload view cp hoffers => ?_) hnoConfirm⟩
      obtain ⟨hexBody', hhears', haccepts⟩ := hoffers
      cases hhears'.unique hhears
      rw [hturn, ← hmyAddr] at haccepts
      exact absurd haccepts (hrefused payload view cp)
  | crashed fault hfault hcrash =>
      have hreturned : ∃ error, fault = .failed error := by
        rcases hcrash with hprocess | ⟨view, hbuild⟩
        · exact (returns_process_iff hC hpw hexBody).mpr hsafe fault hprocess
        · exact returns_buildConfirm hC turn.draws view s.myAddr fault hbuild
      obtain ⟨error, herror⟩ := hreturned
      exact absurd herror (hfault error)
  | added payload view cp haccepts hnew =>
      rw [← hturn, hmyAddr] at haccepts
      have hsize : s.candidates.size < maxCandidates := by
        rw [hquiet.candidates] at hnew ⊢
        exact size_lt_of_admissible hrun hadmissible ⟨hexBody, hhears, haccepts⟩ hnew
      have hroom : s.makeRoom turn = s := by
        rw [Session.makeRoom, if_neg (Nat.not_le_of_lt hsize)]
      rw [hroom]
      exact h.added hC hhears haccepts hnew _

theorem Waiting.handle (hC : C.Lawful) (hpw : party.state.pwScalar ≠ 0) {loop : Loop}
    (hrun : Machine.Run (party.machine C H G) history loop now) {sent : List Sent}
    (hquiet : Quiet loop.session s sent) (h : Waiting C H G party history s)
    (hturn : r.event = turn) (hbefore : r.before = loop) {message : Message}
    (hhears : r.event.Hears party.room message)
    (hadmissible : Admissible C H G party (history ++ [r]))
    (hsafe : ∀ hexBody, r.event.Hears party.room (.spake2 hexBody) →
      ∀ payload, ¬ party.SharesIdentity C H G hexBody payload) :
    Settled C H G party (history ++ [r]) (party.handle C H G s turn message).1 := by
  have hneither : (∀ hexBody, message ≠ .spake2 hexBody) → (∀ hexBody, message ≠ .confirm hexBody) →
      Waiting C H G party (history ++ [r]) s := by
    intro hspake2 hconfirm
    refine h.extend r ?_ fun hexBody hhears' => hconfirm hexBody (hhears.unique hhears')
    rintro payload view cp ⟨hexBody, hhears', -⟩
    exact absurd (hhears.unique hhears') (hspake2 hexBody)
  cases message with
  | accepted extAddr =>
      have hwaiting := hneither (by simp) (by simp)
      exact Or.inr ⟨rfl, hwaiting.candidates, hwaiting.buffered, hwaiting.length_le,
        hwaiting.unmatched⟩
  | challenge cookie =>
      have hwaiting := hneither (by simp) (by simp)
      exact Or.inr ⟨rfl, hwaiting.candidates, hwaiting.buffered, hwaiting.length_le,
        hwaiting.unmatched⟩
  | other => exact Or.inr ⟨rfl, hneither (by simp) (by simp)⟩
  | confirm hexBody => exact h.onConfirm hC hhears hadmissible.confirms_le
  | spake2 hexBody =>
      exact h.onSpake2 hC hpw hrun hquiet hturn hbefore hhears hadmissible (hsafe hexBody hhears)

theorem handle_window (s : Session) (turn : Turn) (message : Message) :
    (party.handle C H G s turn message).1.session.inboundWindow = s.inboundWindow ∧
      (party.handle C H G s turn message).1.session.inboundCount = s.inboundCount := by
  cases message with
  | accepted extAddr => exact ⟨rfl, rfl⟩
  | challenge cookie => exact ⟨rfl, rfl⟩
  | other => exact ⟨rfl, rfl⟩
  | confirm hexBody =>
      have hstep : ConfirmStep C H G party s hexBody (party.onConfirm C H G s turn hexBody) :=
        onConfirm_step
      rw [Party.handle]
      generalize party.onConfirm C H G s turn hexBody = loop at hstep
      cases hstep with
      | buffered _ =>
          unfold Session.buffer
          split <;> exact ⟨rfl, rfl⟩
      | authenticated => exact ⟨rfl, rfl⟩
      | crashed => exact ⟨rfl, rfl⟩
  | spake2 hexBody =>
      have hstep : Spake2Step C H G party s turn hexBody (party.onSpake2 C H G s turn hexBody) :=
        onSpake2_step
      rw [Party.handle]
      generalize party.onSpake2 C H G s turn hexBody = result at hstep
      cases hstep with
      | known => exact ⟨rfl, rfl⟩
      | refused => exact ⟨rfl, rfl⟩
      | crashed => exact ⟨rfl, rfl⟩
      | added payload view cp _ _ =>
          rw [(onCandidate_step _).session]
          rcases s.makeRoom_cases turn with ⟨hsame, -⟩ | ⟨key, -, hroom⟩
          · rw [hsame]
            exact ⟨rfl, rfl⟩
          · rw [hroom]
            exact ⟨rfl, rfl⟩

/-- **One turn.** Nothing but a match ends the loop, and nothing that came is lost. -/
theorem settled_turn (hC : C.Lawful) (hpw : party.state.pwScalar ≠ 0) {loop : Loop}
    (hrun : Machine.Run (party.machine C H G) history loop now) (hnow : now ≤ turn.clock.top)
    (hwaiting : Waiting C H G party history loop.session) (hpaced : Paced history loop.session now)
    (hturn : r.event = turn) (hbefore : r.before = loop)
    (hadmissible : Admissible C H G party (history ++ [r]))
    (hsafe : ∀ hexBody, turn.Hears party.room (.spake2 hexBody) →
      ∀ payload, ¬ party.SharesIdentity C H G hexBody payload) :
    Settled C H G party (history ++ [r]) (party.turn C H G loop.session turn).1 ∧
      Paced (history ++ [r]) (party.turn C H G loop.session turn).1.session
        turn.clock.confirmSent := by
  have hlively : turn.Lively party.deadline :=
    hturn ▸ hadmissible.lively r (List.mem_append_right _ List.mem_cons_self)
  have hsent := transmit_quiet C party loop.session turn
  obtain ⟨hwindow, hcount⟩ := transmit_window C party loop.session turn
  have hnow' : now ≤ turn.clock.window :=
    hnow.trans turn.clock.top_le_window
  cases hline : turn.line with
  | none =>
      have hnothing : ∀ message, ¬ r.event.Hears party.room message := by
        intro message hhears
        rw [hturn, Turn.hears_iff, Turn.message, hline] at hhears
        cases hhears
      rw [turn_of_silence hlively hline]
      refine ⟨Or.inr ⟨rfl, (hwaiting.quiet hsent).extend r ?_ fun _ => hnothing _⟩,
        hpaced.extend r (hnow'.trans turn.clock.window_le) hwindow hcount⟩
      rintro payload view cp ⟨hexBody, hhears, -⟩
      exact absurd hhears (hnothing _)
  | some line =>
      have hmetered : Paced (history ++ [r])
          ((party.transmit C loop.session turn).1.meter line turn.clock.window).1
          turn.clock.window := by
        refine Paced.meter (fun t ht => ?_) hturn hnow' hline
        rw [hcount]
        exact hpaced t (hwindow ▸ ht)
      obtain ⟨message, hhears, heq⟩ := turn_of_line (G := G) hlively hline
        (hmetered.not_metered hadmissible)
      have hquiet := hsent.trans (Session.meter_quiet _ line turn.clock.window)
      have hwaiting' := hwaiting.quiet hquiet
      rw [heq]
      constructor
      · rw [← hturn] at hhears hsafe
        exact hwaiting'.handle hC hpw hrun hquiet hturn hbefore hhears hadmissible hsafe
      · intro t ht
        rw [(handle_window _ turn message).1] at ht
        rw [(handle_window _ turn message).2]
        obtain ⟨hle, hcounted⟩ := hmetered t ht
        exact ⟨hle.trans turn.clock.window_le, hcounted⟩

/-- Every run that the claims on order are about is settled. -/
theorem settled_of_run (hC : C.Lawful) (hpw : party.state.pwScalar ≠ 0) {loop : Loop}
    (hrun : Machine.Run (party.machine C H G) history loop now)
    (hsafe : ∀ r ∈ history, ∀ hexBody, r.event.Hears party.room (.spake2 hexBody) →
      ∀ payload, ¬ party.SharesIdentity C H G hexBody payload)
    (hadmissible : Admissible C H G party history) : Settled C H G party history loop := by
  have hinv := hrun.inv (G := fun _ turn => ∀ hexBody, turn.Hears party.room (.spake2 hexBody) →
      ∀ payload, ¬ party.SharesIdentity C H G hexBody payload)
    (I := fun history loop now => Admissible C H G party history →
      Settled C H G party history loop ∧
        (loop.result = none → Paced history loop.session now)) ?_ ?_ hsafe
  · exact (hinv hadmissible).1
  · intro _
    refine ⟨Or.inr ⟨rfl, by simp, by simp, Nat.zero_le _, ?_⟩, fun _ t ht => ?_⟩
    · intro key cand hcand
      simp [Party.machine, Session.new] at hcand
    · cases ht
  · intro history loop now turn hrun hnow hsafe hI hadmissible
    obtain ⟨hsettled, hpaced⟩ := hI hadmissible.of_append
    rcases hsettled with ⟨peer, hpeer⟩ | ⟨hnone, hwaiting⟩
    · have hstep : ((party.machine C H G).step loop turn).1 = loop := by
        simp only [Party.machine, hpeer]
      rw [hstep]
      refine ⟨Or.inl ⟨peer, hpeer⟩, fun hnone => ?_⟩
      cases hpeer.symm.trans hnone
    · have hstep : ((party.machine C H G).step loop turn).1 =
          (party.turn C H G loop.session turn).1 := by
        simp only [Party.machine, hnone]
      rw [hstep]
      obtain ⟨hsettled, hpaced⟩ := settled_turn hC hpw hrun hnow hwaiting (hpaced hnone) rfl rfl
        hadmissible hsafe
      exact ⟨hsettled, fun _ => hpaced⟩

/-! ### Where a peer comes from -/

/-- The peer that the loop returned is the one of a payload that came, and a confirmation that came
is accepted for it. -/
def Authenticates (C : Curve F P) (H : Primitives) (G : Generators C H) (party : Party F S)
    (history : List (Machine.Record Loop Turn Sent)) (peer : String × Bytes × Bool) : Prop :=
  ∃ rp ∈ history, ∃ rc ∈ history, ∃ payload view cp confirmBody,
    Offers C H G party rp payload view cp ∧ rc.event.Hears party.room (.confirm confirmBody) ∧
    party.checkConfirm C H G (.new view cp) confirmBody = .ok peer.1 ∧
    peer.2 = (view.peerFingerprint, view.isServer)

theorem Authenticates.append {peer : String × Bytes × Bool}
    (h : Authenticates C H G party history peer) (more : List (Machine.Record Loop Turn Sent)) :
    Authenticates C H G party (history ++ more) peer := by
  obtain ⟨rp, hrp, rc, hrc, h⟩ := h
  exact ⟨rp, List.mem_append_left _ hrp, rc, List.mem_append_left _ hrc, h⟩

theorem TurnStep.buffered {loop : Loop} {sent : List Sent}
    (h : TurnStep C H G party s turn loop sent) {hexBody : Bytes}
    (hmem : hexBody ∈ loop.session.bufferedConfirms) :
    hexBody ∈ s.bufferedConfirms ∨ turn.Hears party.room (.confirm hexBody) := by
  cases h with
  | idle s' result sent hquiet _ => exact Or.inl (hquiet.bufferedConfirms ▸ hmem)
  | adopted s' sent extAddr hquiet _ => exact Or.inl (hquiet.bufferedConfirms ▸ hmem)
  | added s' sent hexBody' payload view cp loop hquiet _ _ _ hstep =>
      rw [hstep.session, Session.insertCandidate, s'.bufferedConfirms_makeRoom,
        hquiet.bufferedConfirms] at hmem
      exact Or.inl hmem
  | confirmed s' sent confirmBody loop hquiet hhears hstep =>
      cases hstep with
      | authenticated => exact Or.inl (hquiet.bufferedConfirms ▸ hmem)
      | crashed => exact Or.inl (hquiet.bufferedConfirms ▸ hmem)
      | buffered _ =>
          unfold Session.buffer at hmem
          split at hmem
          · rcases List.mem_append.mp hmem with hmem | hmem
            · exact Or.inl (hquiet.bufferedConfirms ▸ hmem)
            · rw [List.mem_singleton.mp hmem]
              exact Or.inr hhears
          · exact Or.inl (hquiet.bufferedConfirms ▸ hmem)

/-- The two ways to return a peer: a payload meets a buffered confirmation, or a confirmation meets a
candidate. -/
theorem TurnStep.authenticated {loop : Loop} {sent : List Sent}
    (h : TurnStep C H G party s turn loop sent) {peer : String × Bytes × Bool}
    (hpeer : loop.result = some (.ok peer)) :
    (∃ hexBody payload view cp confirmBody, turn.Hears party.room (.spake2 hexBody) ∧
      Acceptable C H G party turn.draws s.myAddr hexBody payload view cp ∧
      confirmBody ∈ s.bufferedConfirms ∧
      party.checkConfirm C H G (.new view cp) confirmBody = .ok peer.1 ∧
      peer.2 = (view.peerFingerprint, view.isServer)) ∨
    ∃ key cand confirmBody, s.candidates.lookup key = some cand ∧
      turn.Hears party.room (.confirm confirmBody) ∧
      party.checkConfirm C H G cand confirmBody = .ok peer.1 ∧
      peer.2 = (cand.fingerprint, cand.isServer) := by
  cases h with
  | idle s' result sent _ hnot => exact absurd hpeer (hnot peer)
  | adopted s' sent extAddr _ _ => cases hpeer
  | added s' sent hexBody payload view cp loop hquiet hhears haccepts _ hstep =>
      cases hstep with
      | none _ => cases hpeer
      | crashed fault _ => cases hpeer
      | authenticated confirmBody addr hmem hcheck =>
          cases hpeer
          rw [Session.insertCandidate, s'.bufferedConfirms_makeRoom, hquiet.bufferedConfirms] at hmem
          exact Or.inl ⟨hexBody, payload, view, cp, confirmBody, hhears, haccepts, hmem, hcheck, rfl⟩
  | confirmed s' sent confirmBody loop hquiet hhears hstep =>
      cases hstep with
      | buffered _ => cases hpeer
      | crashed fault _ => cases hpeer
      | authenticated key cand addr hcand hcheck =>
          cases hpeer
          rw [hquiet.candidates] at hcand
          exact Or.inr ⟨key, cand, confirmBody, hcand, hhears, hcheck, rfl⟩

theorem authenticates_of_run {loop : Loop}
    (hrun : Machine.Run (party.machine C H G) history loop now) :
    (∀ hexBody ∈ loop.session.bufferedConfirms, ∃ r ∈ history,
      r.event.Hears party.room (.confirm hexBody)) ∧
    ∀ peer, loop.result = some (.ok peer) → Authenticates C H G party history peer := by
  refine hrun.inv (G := fun _ _ => True) (I := fun history loop _ =>
    (∀ hexBody ∈ loop.session.bufferedConfirms, ∃ r ∈ history,
      r.event.Hears party.room (.confirm hexBody)) ∧
    ∀ peer, loop.result = some (.ok peer) → Authenticates C H G party history peer) ?_ ?_
    fun _ _ => trivial
  · refine ⟨fun hexBody h => ?_, fun peer h => ?_⟩
    · cases h
    · cases h
  · intro history loop now turn hrun _ _ hI
    obtain ⟨hbuffered, hpeer⟩ := hI
    let r := (party.machine C H G).record loop turn
    have hlast : r ∈ history ++ [r] := List.mem_append_right _ List.mem_cons_self
    have hheard : ∀ {hexBody}, hexBody ∈ loop.session.bufferedConfirms →
        ∃ r' ∈ history ++ [r], r'.event.Hears party.room (.confirm hexBody) := by
      intro hexBody hmem
      obtain ⟨r', hr', hhears⟩ := hbuffered hexBody hmem
      exact ⟨r', List.mem_append_left _ hr', hhears⟩
    rcases machine_step (C := C) (H := H) (G := G) party loop turn with
      ⟨hend, -⟩ | ⟨hturn, hnone⟩
    · rw [hend]
      exact ⟨fun hexBody => hheard, fun peer h => (hpeer peer h).append [r]⟩
    · refine ⟨fun hexBody hmem => ?_, fun peer hreturned => ?_⟩
      · rcases hturn.buffered hmem with hold | hhears
        · exact hheard hold
        · exact ⟨r, hlast, hhears⟩
      · rcases hturn.authenticated hreturned with
          ⟨hexBody, payload, view, cp, confirmBody, hhears, haccepts, hmem, hcheck, heq⟩ |
          ⟨key, cand, confirmBody, hcand, hhears, hcheck, heq⟩
        · obtain ⟨rc, hrc, hconfirm⟩ := hheard hmem
          exact ⟨r, hlast, rc, hrc, payload, view, cp, confirmBody, ⟨hexBody, hhears, haccepts⟩,
            hconfirm, hcheck, heq⟩
        · obtain ⟨rp, hrp, hexBody, payload, view, cp, hspake2, haccepts, -, rfl⟩ :=
            (takenUp_of_run hrun).1 key cand hcand
          exact ⟨rp, List.mem_append_left _ hrp, r, hlast, payload, view, cp, confirmBody,
            ⟨hexBody, hspake2, haccepts⟩, hhears, hcheck, heq⟩

/-- What the order of the messages must not change. If a payload and a confirmation that is accepted
for it are among the messages, the loop has returned a peer; and the peer it returns always comes
from such a pair. -/
def OrderFree (C : Curve F P) (H : Primitives) (G : Generators C H) (party : Party F S)
    (history : List (Machine.Record Loop Turn Sent)) (loop : Loop) : Prop :=
  (Admissible C H G party history →
    ∀ rp ∈ history, ∀ rc ∈ history, ∀ payload view cp confirmBody addr,
      Offers C H G party rp payload view cp → rc.event.Hears party.room (.confirm confirmBody) →
      party.checkConfirm C H G (.new view cp) confirmBody = .ok addr →
      ∃ peer, loop.result = some (.ok peer)) ∧
    ∀ peer, loop.result = some (.ok peer) → Authenticates C H G party history peer

/-- **The order of messages.** It makes no difference in any run in which no payload meets an
ephemeral scalar that is zero. -/
theorem orderFree_of_run [DecidableEq S] (hC : C.Lawful) {iterations fuel : Nat}
    {code privM privN : Bytes}
    (hstate : Spake2.newState C H G iterations fuel code privM privN = .ok party.state) {loop : Loop}
    (hrun : Machine.Run (party.machine C H G) history loop now)
    (hsafe : ∀ r ∈ history, ∀ hexBody, r.event.Hears party.room (.spake2 hexBody) →
      ∀ payload, ¬ party.SharesIdentity C H G hexBody payload) :
    OrderFree C H G party history loop := by
  refine ⟨?_, (authenticates_of_run hrun).2⟩
  intro hadmissible rp hrp rc hrc payload view cp confirmBody addr hoffers hhears hcheck
  obtain ⟨pw, -, hpw, hblinds⟩ := Spake2.blinds_of_stateFromScalars hC hstate
  rcases settled_of_run hC (hblinds.pwScalar ▸ hpw) hrun hsafe hadmissible with
    hpeer | ⟨-, hwaiting⟩
  · exact hpeer
  · obtain ⟨cp', hcand⟩ := hwaiting.candidates rp hrp payload view cp hoffers
    obtain ⟨error, hfails⟩ := hwaiting.unmatched _ _ hcand confirmBody
      (hwaiting.buffered rc hrc confirmBody hhears)
    cases hcheck.symm.trans hfails

/-- Few turns are not too many of any kind. -/
theorem admissible_of_short (hlively : ∀ r ∈ history, r.event.Lively party.deadline)
    (hshort : history.length ≤ maxCandidates) : Admissible C H G party history := by
  let keyOf := fun r : Machine.Record Loop Turn Sent =>
    ((r.event.message party.room).bind Message.spakeBody).bind fun hexBody =>
      (hexDecode hexBody).map payloadKey
  refine ⟨hlively, fun t => ?_, ⟨(history.filterMap keyOf).toFinset, ?_, ?_⟩, ?_⟩
  · exact List.countP_le_length.trans (hshort.trans (by decide))
  · calc
      (history.filterMap keyOf).toFinset.card ≤ (history.filterMap keyOf).length :=
        List.toFinset_card_le _
      _ ≤ history.length := List.length_filterMap_le _ _
      _ ≤ maxCandidates := hshort
  · rintro r hr payload view cp ⟨hexBody, hhears, haccepts⟩
    rw [List.mem_toFinset, List.mem_filterMap]
    refine ⟨r, hr, ?_⟩
    simp only [keyOf, Turn.hears_iff.mp hhears, Option.bind_some, Message.spakeBody,
      haccepts.decoded, Option.map_some]
  · exact List.countP_le_length.trans (hshort.trans (by decide))

omit [DecidableEq P] in
theorem not_sharesIdentity (hM : party.state.scalarM ≠ 0) (hN : party.state.scalarN ≠ 0)
    (hexBody payload : Bytes) : ¬ party.SharesIdentity C H G hexBody payload := by
  intro h
  have hzero := h.shares.1
  split at hzero
  · exact hN hzero
  · exact hM hzero

end Party

/-! ### On the small curve -/

theorem smallTurn_lively {now : Instant} {data : Bytes} {fits : data.length ≤ readBufferSize}
    (hnow : now ≤ smallParty.deadline) (hdata : ∃ c ∈ data, ws.contains c = false) :
    (smallTurn now data fits).Lively smallParty.deadline where
  running := rfl
  inTime := hnow
  readable := by simp [smallTurn]
  notBlank := by
    rintro data' fits' hinbound
    cases hinbound
    exact hdata

def smallConfirmTurn (now : Instant) : Turn :=
  smallTurn now (ascii "MSGD confirm " ++ toHexLower smallPayload ++ ascii "\n") (by decide +kernel)

theorem newState_smallParty :
    Spake2.newState Spake2.smallCurve Spake2.smallHashes Spake2.smallGenerators 1 5 (ascii "pw")
      (Spake2.smallRepr 1) (Spake2.smallRepr 2) = .ok smallParty.state := by
  have hM : (Spake2.reduceModN (Spake2.smallRepr 1) : ZMod 7) = 1 := by decide +kernel
  have hN : (Spake2.reduceModN (Spake2.smallRepr 2) : ZMod 7) = 2 := by decide +kernel
  rw [Spake2.newState, hM, hN]
  exact Spake2.smallStateFrom_A

/-- The confirmation comes first. -/
def confirmFirst : List Turn := [smallConfirmTurn 0, smallSpake2Turn 1]

theorem orderFree_of_run_confirmFirst :
    ∃ peer, (smallMachine.exec smallMachine.init confirmFirst).result = some (.ok peer) := by
  have hordered : smallMachine.Ordered 0 confirmFirst := by decide
  have hrun : Machine.Run
      (smallParty.machine Spake2.smallCurve Spake2.smallHashes Spake2.smallGenerators)
      (smallMachine.trace smallMachine.init confirmFirst)
      (smallMachine.exec smallMachine.init confirmFirst) _ := smallMachine.run_exec hordered
  have hlively : ∀ r ∈ smallMachine.trace smallMachine.init confirmFirst,
      r.event.Lively smallParty.deadline := by
    intro r hr
    rcases List.mem_cons.mp hr with rfl | hr
    · exact smallTurn_lively (by decide) ⟨77, List.mem_cons_self, by decide⟩
    · cases List.mem_singleton.mp hr
      exact smallTurn_lively (by decide) ⟨77, List.mem_cons_self, by decide⟩
  refine (orderFree_of_run Spake2.smallCurve_lawful newState_smallParty hrun ?_).1
    (admissible_of_short hlively (by decide)) _ (List.mem_cons_of_mem _ List.mem_cons_self) _
    List.mem_cons_self smallPeerPayload smallViewA
    ((smallParty.buildConfirm Spake2.smallCurve Spake2.smallHashes Spake2.smallGenerators smallDraws
      smallViewA "192.168.0.2:4000").get (by decide +kernel))
    (toHexLower smallPayload) "10.0.0.2:4433" ?_ ?_ ?_
  · intro r _ hexBody _ payload
    exact not_sharesIdentity (by decide +kernel) (by decide +kernel) hexBody payload
  · refine ⟨toHexLower smallPeerPayload, ?_, ?_⟩
    · exact ⟨_, _, ascii "MSGD spake2 " ++ toHexLower smallPeerPayload, rfl, by decide +kernel,
        by decide +kernel⟩
    · have haddr : (smallMachine.step smallMachine.init (smallConfirmTurn 0)).1.session.myAddr =
          "192.168.0.2:4000" := by
        decide +kernel
      simp only [Machine.record, haddr]
      exact ⟨hexDecode_toHexLower _, by decide +kernel, Outcome.eq_ok_get _, Outcome.eq_ok_get _⟩
  · exact ⟨_, _, ascii "MSGD confirm " ++ toHexLower smallPayload, rfl, by decide +kernel,
      by decide +kernel⟩
  · decide +kernel

/-- The state of a side that draws the given bytes, all with one password. -/
def smallDrawn (privM privN : Bytes) : Outcome Spake2.Error (State (ZMod 5) (ZMod 7)) :=
  Spake2.newState Spake2.smallCurve Spake2.smallHashes Spake2.smallGenerators 1 5 (ascii "pw")
    privM privN

/-- The side that draws 32 zero bytes for its M-scalar. -/
def zeroParty : Party (ZMod 5) (ZMod 7) :=
  { smallParty with
    state := (smallDrawn (List.replicate 32 0) (Spake2.smallRepr 2)).get (by decide +kernel) }

def zeroMachine : Machine Loop Turn Sent :=
  zeroParty.machine Spake2.smallCurve Spake2.smallHashes Spake2.smallGenerators

/-- A valid payload with a larger M-point: to this side it makes the zero scalar count. -/
def zeroFatalTurn (now : Instant) : Turn :=
  smallTurn now (ascii "MSGD spake2 " ++ toHexLower (spake2Payload Spake2.smallCurve
    ((smallDrawn (Spake2.smallRepr 4) (Spake2.smallRepr 2)).get (by decide +kernel))
    (List.replicate 32 3)) ++ ascii "\n") (by decide +kernel)

def zeroView : ProcessedSpake :=
  (zeroParty.process Spake2.smallCurve Spake2.smallHashes Spake2.smallGenerators
    (toHexLower smallPeerPayload)).get (by decide +kernel)

/-- What the other side derives from this side's payload. -/
def zeroPeerView : ProcessedSpake :=
  (processSpakeMsg Spake2.smallCurve Spake2.smallHashes Spake2.smallGenerators
    (toHexLower (spake2Payload Spake2.smallCurve zeroParty.state (List.replicate 32 1)))
    Spake2.smallStateB (Spake2.smallStateB.blindedBytesM Spake2.smallCurve)
    (Spake2.smallStateB.blindedBytesN Spake2.smallCurve) (List.replicate 32 2)).get
    (by decide +kernel)

/-- The other side's confirmation. -/
def zeroPayload : Bytes :=
  (buildConfirmPayload Spake2.smallCurve Spake2.smallHashes Spake2.smallGenerators smallDraws
    zeroPeerView.confirmKey zeroPeerView.encKey zeroPeerView.effectiveMyPoint
    zeroPeerView.effectivePeerPoint (List.replicate 32 2) zeroPeerView.peerFingerprint
    "10.0.0.2:4433").get (by decide +kernel)

def zeroTurns : List Turn :=
  [zeroFatalTurn 0, smallSpake2Turn 1,
    smallTurn 2 (ascii "MSGD confirm " ++ toHexLower zeroPayload ++ ascii "\n") (by decide +kernel)]

/-- A payload from elsewhere comes before the payload and the confirmation of the peer, and the loop
ends in a panic. -/
theorem zero_scalar_panics :
    ∃ history loop now,
      Machine.Run (zeroParty.machine Spake2.smallCurve Spake2.smallHashes Spake2.smallGenerators)
        history loop now ∧
      ¬ OrderFree Spake2.smallCurve Spake2.smallHashes Spake2.smallGenerators zeroParty history
        loop := by
  have hordered : zeroMachine.Ordered 0 zeroTurns := by decide
  refine ⟨_, _, _, zeroMachine.run_exec hordered, fun hfree => ?_⟩
  have hpanicked : (zeroMachine.exec zeroMachine.init zeroTurns).result = some (.error .panicked) :=
    by decide +kernel
  have hlively : ∀ r ∈ zeroMachine.trace zeroMachine.init zeroTurns,
      r.event.Lively zeroParty.deadline := by
    intro r hr
    rcases List.mem_cons.mp hr with rfl | hr
    · exact smallTurn_lively (by decide) ⟨77, List.mem_cons_self, by decide⟩
    · rcases List.mem_cons.mp hr with rfl | hr
      · exact smallTurn_lively (by decide) ⟨77, List.mem_cons_self, by decide⟩
      · cases List.mem_singleton.mp hr
        exact smallTurn_lively (by decide) ⟨77, List.mem_cons_self, by decide⟩
  have hpeer := hfree.1 (admissible_of_short hlively (by decide)) _
    (List.mem_cons_of_mem _ List.mem_cons_self) _
    (List.mem_cons_of_mem _ (List.mem_cons_of_mem _ List.mem_cons_self)) smallPeerPayload zeroView
    ((zeroParty.buildConfirm Spake2.smallCurve Spake2.smallHashes Spake2.smallGenerators smallDraws
      zeroView "192.168.0.2:4000").get (by decide +kernel))
    (toHexLower zeroPayload) "10.0.0.2:4433" ?_ ?_ ?_
  · obtain ⟨peer, hpeer⟩ := hpeer
    cases hpanicked.symm.trans hpeer
  · refine ⟨toHexLower smallPeerPayload, ?_, ?_⟩
    · exact ⟨_, _, ascii "MSGD spake2 " ++ toHexLower smallPeerPayload, rfl, by decide +kernel,
        by decide +kernel⟩
    · have haddr : (zeroMachine.step zeroMachine.init (zeroFatalTurn 0)).1.session.myAddr =
          "192.168.0.2:4000" := by
        decide +kernel
      simp only [Machine.record, haddr]
      exact ⟨hexDecode_toHexLower _, by decide +kernel, Outcome.eq_ok_get _, Outcome.eq_ok_get _⟩
  · exact ⟨_, _, ascii "MSGD confirm " ++ toHexLower zeroPayload, rfl, by decide +kernel,
      by decide +kernel⟩
  · decide +kernel

end Qvole.Exchange
