import Qvole.Relay.Proof.Holds
import Qvole.Relay.Proof.Wire

/-!
# Return routability

An address becomes an admitted client of a room only by echoing, in time, a cookie that the relay
sent to it. The cookie may have waited in the global pending store or in the room, and may have been
re-issued; in every case the pending registration that matched was last stamped by the event that
sent the challenge.
-/

namespace Qvole.Relay

open Machine (Run Precedes)

abbrev RelayRecord := Machine.Record Relay Event Reply

/-- The event sent `REGD room cookie` to `src`, and stamped the pending registration `created`. -/
def IsChallenge (r : RelayRecord) (room : Room) (cookie : Cookie) (src : SocketAddr)
    (created : Instant) : Prop :=
  ∃ data clock rnd, r.event = .packet data src clock rnd ∧ clock.stamp = created ∧
    .challenge room cookie src ∈ r.sent

/-- The event received `REG room cookie` from `src`, no more than the TTL after the pending
registration with that cookie was stamped `created`. -/
def IsEcho (r : RelayRecord) (room : Room) (cookie : Cookie) (src : SocketAddr)
    (created : Instant) : Prop :=
  ∃ data clock rnd text pend, r.event = .packet data src clock rnd ∧
    parsePacket data = .reg room text ∧ hexDecode text = some cookie.bytes ∧
    r.before.tables.Pending room src pend ∧ pend.cookie = cookie ∧ pend.createdAt = created ∧
    clock.elapsed - created ≤ pendingRegTtl

/-- `src` was sent a cookie for `room` and later echoed it in time. -/
def Echoed (history : List RelayRecord) (room : Room) (src : SocketAddr) : Prop :=
  ∃ cookie created earlier later, Precedes history earlier later ∧
    IsChallenge earlier room cookie src created ∧ IsEcho later room cookie src created

def PendingTrace (history : List RelayRecord) (room : Room) (src : SocketAddr) (pend : PendingReg) :
    Prop :=
  pend.resolvedAddr = src ∧ ∃ r ∈ history, IsChallenge r room pend.cookie src pend.createdAt

def ClientTrace (history : List RelayRecord) (room : Room) (src : SocketAddr) (info : UdpClient) :
    Prop :=
  info.resolvedAddr = some src ∧ Echoed history room src

/-- Every pending registration and every client is accounted for in the history. -/
abbrev Tables.Traced (history : List RelayRecord) (T : Tables) : Prop :=
  T.Holds (PendingTrace history) (PendingTrace history) (ClientTrace history)

variable {history : List RelayRecord} {room : Room} {src : SocketAddr}

theorem PendingTrace.append {pend : PendingReg} (h : PendingTrace history room src pend)
    (more : List RelayRecord) : PendingTrace (history ++ more) room src pend := by
  obtain ⟨hresolved, r, hr, hchallenge⟩ := h
  exact ⟨hresolved, r, List.mem_append_left more hr, hchallenge⟩

theorem Echoed.append (h : Echoed history room src) (more : List RelayRecord) :
    Echoed (history ++ more) room src := by
  obtain ⟨cookie, created, earlier, later, hprecedes, hchallenge, hecho⟩ := h
  exact ⟨cookie, created, earlier, later, hprecedes.append more, hchallenge, hecho⟩

theorem ClientTrace.append {info : UdpClient} (h : ClientTrace history room src info)
    (more : List RelayRecord) : ClientTrace (history ++ more) room src info :=
  ⟨h.1, h.2.append more⟩

theorem Tables.Traced.append {T : Tables} (h : T.Traced history) (more : List RelayRecord) :
    T.Traced (history ++ more) :=
  h.imp (fun _ _ _ h => h.append more) (fun _ _ _ h => h.append more) fun _ _ _ h => h.append more

/-! ### One registration -/

section Step

variable {relay : Relay} {data : Bytes} {cookie : Bytes} {clock : Clock} {rnd : Cookie}
  {action : RegAction} {r : RelayRecord}

structure RegRecord (r : RelayRecord) (room : Room) (cookie : Bytes) (src : SocketAddr)
    (clock : Clock) (action : RegAction) : Prop where
  event : ∃ data rnd, r.event = .packet data src clock rnd ∧ parsePacket data = .reg room cookie
  sent : r.sent = action.replies room src

theorem RegRecord.pendingTrace {c : Cookie}
    (hrecord : RegRecord r room cookie src clock (.challenge c)) :
    PendingTrace (history ++ [r]) room src
      { cookie := c, createdAt := clock.stamp, resolvedAddr := src } := by
  obtain ⟨data, rnd, hevent, -⟩ := hrecord.event
  refine ⟨rfl, r, by simp, data, clock, rnd, hevent, rfl, ?_⟩
  rw [hrecord.sent]
  exact List.mem_singleton.mpr rfl

theorem RegRecord.clientTrace {pend : PendingReg}
    (hrecord : RegRecord r room cookie src clock action) (htrace : PendingTrace history room src pend)
    (hpending : r.before.tables.Pending room src pend) (haccepts : pend.Accepts cookie clock)
    (now windowStart : Instant) :
    ClientTrace (history ++ [r]) room src (.new (some pend.resolvedAddr) now windowStart) := by
  obtain ⟨hresolved, earlier, hearlier, hchallenge⟩ := htrace
  obtain ⟨data, rnd, hevent, hparse⟩ := hrecord.event
  have hfresh : clock.elapsed - pend.createdAt ≤ pendingRegTtl := by
    simpa [PendingReg.expired] using haccepts.2
  refine ⟨by rw [UdpClient.new, hresolved], pend.cookie, pend.createdAt, earlier, r,
    Machine.precedes_snoc hearlier r, hchallenge, ?_⟩
  exact ⟨data, clock, rnd, cookie, pend, hevent, hparse, haccepts.1, hpending, rfl, rfl, hfresh⟩

theorem regStep_traced {result : Tables × RegAction} {cfg : Config}
    (hT : r.before.tables.Traced history)
    (hrecord : RegRecord r room cookie src clock result.2)
    (hstep : RegStep cfg room cookie src clock rnd r.before.tables result) :
    result.1.Traced (history ++ [r]) := by
  refine (Tables.Traced.append hT [r]).regStep ?_ ?_ ?_ ?_ hstep
  · intro c hc
    exact (hc ▸ hrecord).pendingTrace
  · intro c hc
    exact (hc ▸ hrecord).pendingTrace
  · exact fun info hinfo => ⟨rfl, hinfo.2⟩
  · intro pend hpending haccepts
    refine hrecord.clientTrace ?_ hpending haccepts _ _
    rcases hpending with hglobal | ⟨entry, hroom, hpend⟩
    · exact hT.global room src pend hglobal
    · exact (hT.rooms room entry hroom).pending src pend hpend

end Step

/-! ### Runs -/

theorem traced_of_run {cfg : Config} {relay : Relay} {now : Nat}
    (hrun : Run (machine cfg) history relay now) :
    relay.tables.Traced history := by
  refine hrun.inv (G := fun _ _ => True)
    (I := fun history relay _ => relay.tables.Traced history)
    Tables.holds_empty ?_ fun _ _ => trivial
  intro history relay now event _ _ _ hT
  let r := (machine cfg).record relay event
  have hold : relay.tables.Traced (history ++ [r]) :=
    Tables.Traced.append hT [r]
  change (relay.step event).1.tables.Traced (history ++ [r])
  have hsent : r.sent = (relay.step event).2 := rfl
  have hevent : r.event = event := rfl
  have hbefore : r.before = relay := rfl
  clear_value r
  obtain ⟨-, hstep⟩ := step_relayStep relay event
  generalize (relay.step event).1.tables = T at hstep ⊢
  generalize (relay.step event).2 = sent at hstep hsent
  cases hstep with
  | quiet => exact hold
  | @reg data src clock rnd room cookie T action hparse _ hreg =>
      subst hbefore
      exact regStep_traced hT ⟨⟨data, rnd, hevent, hparse⟩, hsent⟩ hreg
  | @msg data src clock rnd room phase body entry info rateLimiter sent hroom hinfo _ =>
      refine hold.setRoom ?_
      have hentry := hold.rooms room entry hroom
      have hclient : ClientTrace (history ++ [r]) room src { info with rateLimiter } :=
        hentry.clients src info hinfo
      exact hentry.insertClient hclient _
  | roomTick => exact hold.roomTick _ _ _

/-- **Return routability.** In every run, every admitted client of a room echoed in time a cookie
that was sent to it, and its resolved address is the address of its key. So every `MSGD` goes to an
address that had echoed a cookie before. -/
theorem routable_of_run {cfg : Config} {relay : Relay} {now : Nat}
    (hrun : Run (machine cfg) history relay now) :
    (∀ room entry src info, relay.tables.room? room = some entry →
      entry.udpClients.lookup src = some info →
        info.resolvedAddr = some src ∧ Echoed history room src) ∧
      ∀ r ∈ history, ∀ phase body target, .msgd phase body target ∈ r.sent →
        ∃ past rest room, history = past ++ r :: rest ∧ Echoed past room target := by
  refine ⟨fun room entry src info hroom hinfo => ?_, fun r hr phase body target hsent => ?_⟩
  · exact ((traced_of_run hrun).rooms room entry hroom).clients src info hinfo
  · obtain ⟨past, rest, now', hhistory, hpast, -, hrecord⟩ := hrun.before_reached hr
    have hstep := (step_relayStep r.before r.event).2
    have hreplies : r.sent = (r.before.step r.event).2 := by
      rw [hrecord]
      rfl
    rw [hreplies] at hsent
    generalize (r.before.step r.event).1.tables = T at hstep
    generalize (r.before.step r.event).2 = sent at hstep hsent
    generalize r.event = event at hstep
    cases hstep with
    | quiet => cases hsent
    | reg room cookie T action _ _ _ =>
        cases action with
        | drop reason => cases hsent
        | regd => simp [RegAction.replies] at hsent
        | challenge c => simp [RegAction.replies] at hsent
    | roomTick => cases hsent
    | msg room phase' body' entry info rateLimiter sent hroom _ htargets =>
        obtain ⟨target', htarget, heq⟩ := htargets _ hsent
        cases heq
        obtain ⟨e, he, hresolved⟩ := List.mem_filterMap.mp htarget
        have hlookup := AList.lookup_eq_some_iff.mpr he
        obtain ⟨haddr, hechoed⟩ :=
          ((traced_of_run hpast).rooms room entry hroom).clients e.1 e.2 hlookup
        split at hresolved
        · rw [haddr] at hresolved
          cases hresolved
          exact ⟨past, rest, room, hhistory, hechoed⟩
        · cases hresolved

theorem routable_of_run_handshake :
    Echoed ((machine .defaults).trace (machine .defaults).init
      (handshake (ascii "r") (.v4 ⟨10, 0, 0, 1⟩ 1000) 0 (.fill 1))) (ascii "r")
      (.v4 ⟨10, 0, 0, 1⟩ 1000) := by
  have hadmitted : (((machine .defaults).exec (machine .defaults).init
      (handshake (ascii "r") (.v4 ⟨10, 0, 0, 1⟩ 1000) 0 (.fill 1))).tables.room? (ascii "r")).any
        (fun entry => (entry.udpClients.lookup (.v4 ⟨10, 0, 0, 1⟩ 1000)).isSome) = true := by
    decide +kernel
  obtain ⟨entry, hroom, hsome⟩ := (Option.any_eq_true _ _).mp hadmitted
  obtain ⟨info, hinfo⟩ := Option.isSome_iff_exists.mp hsome
  exact ((routable_of_run ((machine .defaults).run_exec (by decide))).1 _ entry _ info hroom hinfo).2

end Qvole.Relay
