import Qvole.Relay.Proof.Routability
import Qvole.Relay.Proof.Waiting
import Qvole.Relay.Proof.KeepAlive

/-!
# The latest cookie

A source that was challenged and answers in time with the cookie of the last challenge should be let
in, unless the rate limiter or a cap is against it. Two things can stand in the way: a registration
of the same source for the same room in the global pending store, which is compared first; and a
sweep that removes the room the challenge waits in.
-/

namespace Qvole.Relay

open Machine (Run)

/-! ### The last challenge on record -/

def Event.isReg (room : Room) (src : SocketAddr) : Event → Bool
  | .packet data from_ _ _ =>
      from_ = src && match parsePacket data with
        | .reg room' _ => room' = room
        | _ => false
  | _ => false

/-- The challenge an event was answered with, and when it was stamped. -/
def challengeOf (r : RelayRecord) : Option (Cookie × Instant) :=
  match r.event, r.sent with
  | .packet _ _ clock _, [.challenge _ cookie _] => some (cookie, clock.stamp)
  | _, _ => none

/-- The challenge `src` was last sent about `room`, if no `REG` for `room` from it was handled
since. -/
def latestChallenge (room : Room) (src : SocketAddr) (history : List RelayRecord) :
    Option (Cookie × Instant) :=
  history.foldl (fun last r => if r.event.isReg room src then challengeOf r else last) none

variable {history : List RelayRecord} {room : Room} {src : SocketAddr} {cookie : Cookie}
  {created : Instant}

theorem latestChallenge_snoc (r : RelayRecord) :
    latestChallenge room src (history ++ [r]) =
      if r.event.isReg room src then challengeOf r else latestChallenge room src history := by
  simp [latestChallenge]

theorem isReg_packet {data : Bytes} {clock : Clock} {rnd : Cookie} {other : Room} {text : Bytes}
    {from_ : SocketAddr} (hparse : parsePacket data = .reg other text) :
    (Event.packet data from_ clock rnd).isReg room src = true ↔ (room, src) = (other, from_) := by
  simp only [Event.isReg, hparse, Bool.and_eq_true, decide_eq_true_eq, Prod.mk.injEq]
  constructor
  · rintro ⟨rfl, rfl⟩
    exact ⟨rfl, rfl⟩
  · rintro ⟨rfl, rfl⟩
    exact ⟨rfl, rfl⟩

theorem parse_of_isReg {event : Event} (h : event.isReg room src = true) :
    ∃ data clock rnd text, event = .packet data src clock rnd ∧ parsePacket data = .reg room text := by
  cases event with
  | roomTick => cases h
  | rateTick => cases h
  | packet data from_ clock rnd =>
      simp only [Event.isReg, Bool.and_eq_true, decide_eq_true_eq] at h
      obtain ⟨rfl, hparse⟩ := h
      cases hpacket : parsePacket data with
      | drop reason => simp [hpacket] at hparse
      | msg payload => simp [hpacket] at hparse
      | reg room' text =>
          simp only [hpacket, decide_eq_true_eq] at hparse
          subst hparse
          exact ⟨data, clock, rnd, text, rfl, hpacket⟩

theorem validRoomName_of_latestChallenge
    (h : latestChallenge room src history = some (cookie, created)) : validRoomName room = true := by
  induction history using List.reverseRecOn with
  | nil => cases h
  | append_singleton history r ih =>
      rw [latestChallenge_snoc] at h
      by_cases hreg : r.event.isReg room src = true
      · obtain ⟨data, clock, rnd, text, -, hparse⟩ := parse_of_isReg hreg
        exact validRoomName_of_parsePacket hparse
      · rw [if_neg hreg] at h
        exact ih h

theorem challengeOf_eq_some {r : RelayRecord} {data : Bytes} {clock : Clock} {rnd : Cookie}
    {action : RegAction} (hevent : r.event = .packet data src clock rnd)
    (hsent : r.sent = action.replies room src) (h : challengeOf r = some (cookie, created)) :
    action = .challenge cookie ∧ created = clock.stamp := by
  unfold challengeOf at h
  rw [hevent, hsent] at h
  cases action with
  | regd => cases h
  | drop reason => cases h
  | challenge c =>
      cases h
      exact ⟨rfl, rfl⟩

/-! ### What waits in a room -/

/-- A registration that waits in a room is the one of the last challenge, if that is still the last
word about it. -/
def LatestInRoom (history : List RelayRecord) (T : Tables) : Prop :=
  ∀ room src cookie created, latestChallenge room src history = some (cookie, created) →
    ∀ entry pend, T.room? room = some entry → entry.pending.lookup src = some pend →
      pend.cookie = cookie ∧ pend.createdAt = created

theorem pending_regStep {cfg : Config} {other : Room} {text : Bytes} {from_ : SocketAddr}
    {clock : Clock} {rnd : Cookie} {T : Tables} {result : Tables × RegAction}
    (hstep : RegStep cfg other text from_ clock rnd T result) (hne : (room, src) ≠ (other, from_))
    {after : RoomEntry} {pend : PendingReg} (hafter : result.1.room? room = some after)
    (hpend : after.pending.lookup src = some pend) :
    ∃ entry, T.room? room = some entry ∧ entry.pending.lookup src = some pend := by
  have hT : T.Holds (fun _ _ _ => True)
      (fun room src pend => (room, src) = (other, from_) ∨
        ∃ entry, T.room? room = some entry ∧ entry.pending.lookup src = some pend)
      (fun _ _ _ => True) :=
    ⟨fun _ _ _ _ => trivial, fun room entry hroom =>
      ⟨fun src pend hpend => Or.inr ⟨entry, hroom, hpend⟩, fun _ _ _ => trivial⟩⟩
  have hresult := hT.regStep (fun _ _ => trivial) (fun _ _ => Or.inl rfl) (fun _ _ => trivial)
    (fun _ _ _ => trivial) hstep
  rcases (hresult.rooms room after hafter).pending src pend hpend with heq | hold
  · exact absurd heq hne
  · exact hold

theorem pending_of_challenge {cfg : Config} {text : Bytes} {clock : Clock} {rnd : Cookie}
    {T : Tables} {result : Tables × RegAction}
    (hstep : RegStep cfg room text src clock rnd T result) (haction : result.2 = .challenge cookie) :
    (result.1.room? room = none ∧ result.1.getPendingReg room src =
        some { cookie, createdAt := clock.stamp, resolvedAddr := src }) ∨
      ((text = [] ∨ T.getPendingReg room src = none) ∧
        result.1.getPendingReg room src = T.getPendingReg room src ∧
        ∃ entry after, T.room? room = some entry ∧
          src ∉ (entry.sweep T.ipCounts room clock.sweep cfg.regTtl).1.udpClients ∧
          InRoomDue cfg text src clock entry T.ipCounts ∧ result.1.room? room = some after ∧
          after.pending.lookup src =
            some { cookie, createdAt := clock.stamp, resolvedAddr := src }) := by
  cases hstep with
  | rejected => cases haction
  | expired => cases haction
  | stored hroom _ htotal =>
      cases haction
      refine Or.inl ⟨((Tables.sameRooms_storePendingReg T cfg room src _).room? room).trans hroom, ?_⟩
      unfold Tables.storePendingReg Tables.getPendingReg
      split
      · exact AList.lookup_insert _
      · rename_i hnew
        rw [if_neg (Nat.not_le_of_lt (htotal hnew))]
        exact AList.lookup_insert _
  | inRoom entry result hglobal hroom hsection =>
      right
      refine ⟨hglobal, rfl, entry, ?_⟩
      have hafter : (T.inRoom room result).1.room? room = some result.1 := by
        change (T.setRoom room result.1).room? room = some result.1
        rw [Tables.room?_setRoom, if_pos rfl]
      cases hsection with
      | rejected => cases haction
      | expired => cases haction
      | swept _ hdue hswept =>
          cases hswept with
          | full => cases haction
          | refreshed => cases haction
          | completed => cases haction
          | reissued pend hgone hpend =>
              cases haction
              exact ⟨_, hroom, hgone, hdue, hafter, AList.lookup_insert _⟩
          | added hgone hnew hip hfree =>
              cases haction
              refine ⟨_, hroom, hgone, hdue, hafter, ?_⟩
              rw [RoomEntry.addPending, if_neg fun hfull => Nat.not_le_of_lt hfree hfull.2]
              exact AList.lookup_insert _
  | completing pend result _ _ hcomplete =>
      cases hcomplete with
      | refused => cases haction
      | created => cases haction
      | inRoom entry result _ hadmits =>
          cases hadmits with
          | full => cases haction
          | admitted => cases haction

/-- A challenge comes from a registration that was let through by the rate limiter. -/
theorem challenge_step {cfg : Config} {relay : Relay} {event : Event}
    (hreg : event.isReg room src = true)
    (hchallenge : challengeOf ((machine cfg).record relay event) = some (cookie, created)) :
    ∃ data clock rnd text, event = .packet data src clock rnd ∧ parsePacket data = .reg room text ∧
      (relay.isRegRateLimited src clock.limit).2 = false ∧ created = clock.stamp ∧
      RegStep relay.cfg room text src clock rnd relay.tables
        ((relay.step event).1.tables, .challenge cookie) := by
  obtain ⟨data, clock, rnd, text, rfl, hparse⟩ := parse_of_isReg hreg
  have hstep := (step_relayStep relay (.packet data src clock rnd)).2
  have hevent : ((machine cfg).record relay (.packet data src clock rnd)).event =
      .packet data src clock rnd := rfl
  have hsent : ((machine cfg).record relay (.packet data src clock rnd)).sent =
      (relay.step (.packet data src clock rnd)).2 := rfl
  generalize (machine cfg).record relay (.packet data src clock rnd) = r at hchallenge hevent hsent
  generalize (relay.step (.packet data src clock rnd)).1.tables = T at hstep ⊢
  generalize (relay.step (.packet data src clock rnd)).2 = sent at hstep hsent
  refine ⟨data, clock, rnd, text, rfl, hparse, ?_⟩
  cases hstep with
  | quiet =>
      rw [challengeOf, hevent, hsent] at hchallenge
      cases hchallenge
  | msg other phase body entry info rateLimiter sent _ _ htargets =>
      unfold challengeOf at hchallenge
      split at hchallenge
      · rename_i heq
        obtain ⟨target, -, hreply⟩ := htargets _ (by rw [← hsent, heq]; exact List.mem_cons_self)
        cases hreply
      · cases hchallenge
  | reg other text' T action hparse' hlimited hregStep =>
      rw [hparse] at hparse'
      cases hparse'
      obtain ⟨rfl, rfl⟩ := challengeOf_eq_some hevent hsent hchallenge
      exact ⟨hlimited, rfl, hregStep⟩

/-- Only its own registrations change what a source waits for in a room. -/
theorem pending_step {relay : Relay} {event : Event} (hreg : event.isReg room src = false)
    {after : RoomEntry} {pend : PendingReg}
    (hafter : (relay.step event).1.tables.room? room = some after)
    (hpend : after.pending.lookup src = some pend) :
    ∃ entry, relay.tables.room? room = some entry ∧ entry.pending.lookup src = some pend := by
  have hstep := (step_relayStep relay event).2
  generalize (relay.step event).1.tables = T at hstep hafter
  generalize (relay.step event).2 = sent at hstep
  cases hstep with
  | quiet => exact ⟨after, hafter, hpend⟩
  | @reg data from_ clock rnd other text T action hparse _ hregStep =>
      refine pending_regStep hregStep (fun heq => ?_) hafter hpend
      rw [(isReg_packet hparse).mpr heq] at hreg
      cases hreg
  | @msg data from_ clock rnd other phase body entry info rateLimiter sent hroom _ _ =>
      rw [Tables.room?_setRoom] at hafter
      split at hafter
      · rename_i heq
        subst heq
        cases hafter
        exact ⟨entry, hroom, hpend⟩
      · exact ⟨after, hafter, hpend⟩
  | @roomTick sweep expire ordered =>
      rw [Tables.roomTick, (Tables.sameRooms_removeStalePendingRegs _ expire).room?,
        Tables.room?_evictStaleRoomsAll, Option.bind_eq_some_iff] at hafter
      obtain ⟨entry, hroom, hleft⟩ := hafter
      unfold Tables.sweptRoom at hleft
      simp only [Option.ite_none_left_eq_some, Option.some.injEq] at hleft
      obtain ⟨-, rfl⟩ := hleft
      rw [RoomEntry.removeStaleClients_lookup_pending, Option.filter_eq_some_iff] at hpend
      exact ⟨entry, hroom, hpend.1⟩

theorem latestInRoom_of_run {cfg : Config} {relay : Relay} {now : Nat}
    (hrun : Run (machine cfg) history relay now) : LatestInRoom history relay.tables := by
  refine hrun.inv (G := fun _ _ => True) (I := fun history relay _ =>
    LatestInRoom history relay.tables) (fun _ _ _ _ h => by cases h) ?_ fun _ _ => trivial
  intro history relay now event _ _ _ hI room src cookie created hlatest after pend hafter hpend
  rw [latestChallenge_snoc] at hlatest
  change (if event.isReg room src = true then _ else _) = _ at hlatest
  change (relay.step event).1.tables.room? room = some after at hafter
  -- A registration of this source for this room decides; anything else keeps what was there.
  by_cases hreg : event.isReg room src = true
  · rw [if_pos hreg] at hlatest
    obtain ⟨data, clock, rnd, text, rfl, -, -, rfl, hregStep⟩ := challenge_step hreg hlatest
    rcases pending_of_challenge hregStep rfl with ⟨hnone, -⟩ |
      ⟨-, -, entry, after', -, -, -, hroom', hpend'⟩
    · cases hnone.symm.trans hafter
    · obtain rfl := Option.some.inj (hroom'.symm.trans hafter)
      obtain rfl := Option.some.inj (hpend'.symm.trans hpend)
      exact ⟨rfl, rfl⟩
  · rw [if_neg hreg] at hlatest
    obtain ⟨entry, hroom, hold⟩ := pending_step (by simpa using hreg) hafter hpend
    exact hI room src cookie created hlatest entry pend hroom hold

/-! ### Steps that keep challenges -/

/-- Handling the event may remove rooms, for the last time at `now`: a room tick, or a registration
that completes a cookie from the global store at the room cap. -/
def Evicts (relay : Relay) : Event → Instant → Prop
  | .packet data src clock _, now => now = clock.resweep ∧
      relay.tables.totalRoomCount ≥ relay.cfg.maxRooms ∧
      ∃ room text pend, parsePacket data = .reg room text ∧
        (relay.isRegRateLimited src clock.limit).2 = false ∧
        relay.tables.getPendingReg room src = some pend ∧ pend.Accepts text clock
  | .roomTick sweep _ _, now => now = sweep
  | .rateTick _, _ => False

theorem Evicts.le_finish {relay : Relay} {event : Event} {now : Instant}
    (h : relay.Evicts event now) : now ≤ event.finish := by
  cases event with
  | packet data src clock rnd =>
      obtain ⟨rfl, -⟩ := h
      exact clock.resweep_le_log
  | roomTick sweep expire ordered =>
      obtain rfl : now = sweep := h
      exact ordered
  | rateTick t => exact h.elim

/-- The step neither removes a room in which a registration still waits, nor challenges in an
existing room a source that also waits for that room in the global store. -/
structure KeepsChallenges (relay : Relay) (event : Event) : Prop where
  rooms : ∀ room entry now, relay.tables.room? room = some entry → relay.Evicts event now →
    entry.Doomed now relay.cfg.regTtl →
      ∀ src pend, entry.pending.lookup src = some pend → pend.expired now = true
  store : ∀ data src clock rnd room entry, event = .packet data src clock rnd →
    parsePacket data = .reg room [] → (relay.isRegRateLimited src clock.limit).2 = false →
    relay.tables.room? room = some entry →
    relay.tables.ipCounts.countIpRooms (ipKey src) < relay.cfg.maxRoomsPerIp →
    src ∉ (entry.sweep relay.tables.ipCounts room clock.sweep relay.cfg.regTtl).1.udpClients →
      relay.tables.getPendingReg room src = none

/-- The last challenge, as long as it is not too old, is what its cookie will be compared with. -/
def LatestKept (history : List RelayRecord) (T : Tables) (now : Instant) : Prop :=
  ∀ room src cookie created, latestChallenge room src history = some (cookie, created) →
    now - created ≤ pendingRegTtl →
      ∃ pend, T.consulted room src = some pend ∧ pend.cookie = cookie ∧ pend.createdAt = created

theorem Event.start_le_finish (event : Event) : event.start ≤ event.finish := by
  cases event with
  | rateTick now => exact le_rfl
  | roomTick sweep expire ordered => exact ordered
  | packet data src clock rnd =>
      exact clock.limit_le_log

theorem accepts_nil {pend : PendingReg} {clock : Clock} : ¬ pend.Accepts [] clock := by
  rintro ⟨hbytes, -⟩
  have hlen := pend.cookie.length_eq
  rw [← Option.some.inj hbytes] at hlen
  exact absurd hlen (by decide)

theorem keeps_step {relay : Relay} {event : Event} (hguard : relay.KeepsChallenges event)
    (hreg : event.isReg room src = false) {pend : PendingReg}
    (hfresh : pend.expired event.finish = false) :
    Tables.Keeps room src pend relay.tables (relay.step event).1.tables := by
  have hstep := (step_relayStep relay event).2
  generalize (relay.step event).1.tables = T at hstep ⊢
  generalize (relay.step event).2 = sent at hstep
  have hspared : ∀ now, relay.Evicts event now → now ≤ event.finish →
      relay.tables.Spared room src pend now relay.cfg.regTtl := by
    intro now hevicts hle entry hentry hpend hdoomed
    have hexpired := hguard.rooms room entry now hentry hevicts hdoomed src pend hpend
    rw [RoomEntry.not_expired_mono hle hfresh] at hexpired
    cases hexpired
  cases hstep with
  | quiet => exact .refl _
  | @reg data from_ clock rnd other text T action hparse hlimited hregStep =>
      have hne : (room, src) ≠ (other, from_) := by
        intro heq
        rw [(isReg_packet hparse).mpr heq] at hreg
        cases hreg
      refine Tables.keeps_regStep hne hfresh ?_ hregStep
      rintro hfull ⟨p, hp, haccepts⟩
      exact hspared clock.resweep ⟨rfl, hfull, other, text, p, hparse, hlimited, hp, haccepts⟩
        clock.resweep_le_log
  | @msg data from_ clock rnd other phase body entry info rateLimiter sent hroom _ _ =>
      refine Tables.keeps_setRoom fun heq before hbefore hpend => ?_
      subst heq
      rw [hroom] at hbefore
      cases hbefore
      exact hpend
  | @roomTick sweep expire ordered =>
      have hkeeps := (Tables.keeps_sweep (hspared sweep rfl ordered) le_rfl
        (RoomEntry.not_expired_mono ordered hfresh) (Tables.pendingRegs_evictStaleRoomsAll _)
        (Or.inr (Tables.room?_evictStaleRoomsAll _ room))).1
      exact hkeeps.trans (Tables.keeps_removeStalePendingRegs hfresh)

theorem latestKept_step {cfg : Config} {relay : Relay} {now : Nat} {event : Event}
    (hle : now ≤ event.start) (hguard : relay.KeepsChallenges event)
    (hI : LatestKept history relay.tables now) :
    LatestKept (history ++ [(machine cfg).record relay event]) (relay.step event).1.tables
      event.finish := by
  intro room src cookie created hlatest hage
  rw [latestChallenge_snoc] at hlatest
  change (if event.isReg room src = true then _ else _) = _ at hlatest
  by_cases hreg : event.isReg room src = true
  · -- The challenge was sent just now.
    rw [if_pos hreg] at hlatest
    obtain ⟨data, clock, rnd, text, rfl, hparse, hlimited, rfl, hregStep⟩ :=
      challenge_step hreg hlatest
    rcases pending_of_challenge hregStep rfl with ⟨-, hglobal⟩ |
      ⟨htext, hsame, entry, after, hroom, hgone, hdue, hafter, hpend⟩
    · exact ⟨_, Tables.consulted_eq_some_iff.mpr (Or.inl hglobal), rfl, rfl⟩
    · have hnone : relay.tables.getPendingReg room src = none := by
        rcases htext with rfl | hnone
        · refine hguard.store data src clock rnd room entry rfl hparse hlimited hroom ?_ hgone
          rcases hdue with ⟨-, hlinks⟩ | ⟨pend, -, haccepts⟩
          · exact hlinks
          · exact absurd haccepts accepts_nil
        · exact hnone
      rw [hnone] at hsame
      exact ⟨_, Tables.consulted_eq_some_iff.mpr (Or.inr ⟨hsame, after, hafter, hpend⟩), rfl, rfl⟩
  · rw [if_neg hreg] at hlatest
    have hnow : now ≤ event.finish := hle.trans event.start_le_finish
    obtain ⟨pend, hconsulted, hcookie, rfl⟩ :=
      hI room src cookie created hlatest ((Nat.sub_le_sub_right hnow _).trans hage)
    have hfresh : pend.expired event.finish = false := by
      simpa [PendingReg.expired] using hage
    exact ⟨pend, (keeps_step hguard (by simpa using hreg) hfresh).consulted hconsulted, hcookie, rfl⟩

/-! ### The answer -/

/-- The answer to a cookie is as it should be: `src` is admitted and told so, or a cap is against
it. -/
def Honoured (relay : Relay) (room : Room) (src : SocketAddr) (cookie : Cookie) (clock : Clock)
    (rnd : Cookie) : Prop :=
  ((relay.step (.packet (regData room (some cookie)) src clock rnd)).2 = [.regd room src] ∧
      (relay.step (.packet (regData room (some cookie)) src clock rnd)).1.tables.SeenAt room src
        clock.stamp) ∨
    ∃ reason, reason.isCap = true ∧
      (relay.tables.handleReg relay.cfg room (cookieText (some cookie)) src clock rnd).2 =
        .drop reason

/-- Nothing stands in the way of the last cookie: the global store holds no other and no expired
registration of the source for the room; and if it holds none, the source still waits in the room,
or the room is gone and the IP is at its cap on rooms. -/
structure Answerable (T : Tables) (cfg : Config) (room : Room) (src : SocketAddr) (cookie : Cookie)
    (clock : Clock) : Prop where
  store : ∀ pend, T.getPendingReg room src = some pend →
    pend.cookie = cookie ∧ pend.expired clock.elapsed = false
  room : T.getPendingReg room src = none →
    (∃ entry, T.room? room = some entry ∧ src ∈ entry.pending) ∨
      (T.room? room = none ∧ T.ipCounts.countIpRooms (ipKey src) ≥ cfg.maxRoomsPerIp)

section Answer

variable {relay : Relay} {clock : Clock}

theorem honoured_iff_action (hvalid : validRoomName room = true)
    (hlimited : (relay.isRegRateLimited src clock.limit).2 = false) (rnd : Cookie) :
    relay.Honoured room src cookie clock rnd ↔
      ((relay.tables.regWithCookie relay.cfg room cookie.bytes src clock rnd).2 = .regd ∧
          (relay.tables.regWithCookie relay.cfg room cookie.bytes src clock rnd).1.SeenAt room src
            clock.stamp) ∨
        ∃ reason, reason.isCap = true ∧
          (relay.tables.regWithCookie relay.cfg room cookie.bytes src clock rnd).2 =
            .drop reason := by
  obtain ⟨htables, hsent⟩ := step_regData hvalid (some cookie) hlimited rnd
  unfold Honoured
  rw [htables, hsent, Tables.handleReg_some]
  apply or_congr_left
  apply and_congr_left'
  exact RegAction.replies_eq_regd_iff

theorem honoured_of_matches (hvalid : validRoomName room = true)
    (hlimited : (relay.isRegRateLimited src clock.limit).2 = false) (rnd : Cookie)
    (hmatch : relay.tables.Matches room src cookie clock) :
    relay.Honoured room src cookie clock rnd := by
  rw [honoured_iff_action hvalid hlimited rnd]
  by_cases hcaps : relay.tables.MayAccept relay.cfg room src clock
  · exact Or.inl (Tables.regWithCookie_accepted hmatch hcaps rnd)
  · exact Or.inr (Tables.regWithCookie_capped hmatch hcaps rnd)

theorem matches_of_honoured (hvalid : validRoomName room = true)
    (hlimited : (relay.isRegRateLimited src clock.limit).2 = false) {rnd : Cookie}
    (hfound : (relay.tables.getPendingReg room src).isSome ∨ (relay.tables.room? room).isSome)
    (h : relay.Honoured room src cookie clock rnd) :
    relay.tables.Matches room src cookie clock := by
  by_contra hmatch
  obtain ⟨reason, hreason, hdrop⟩ :=
    Tables.regWithCookie_unmatched hfound hmatch relay.cfg rnd
  rw [honoured_iff_action hvalid hlimited rnd, hdrop] at h
  rcases h with ⟨hregd, -⟩ | ⟨reason', hcap, heq⟩
  · cases hregd
  · cases heq
    rw [hreason] at hcap
    cases hcap

/-- Whatever the global store holds for the source is compared first. -/
theorem honoured_iff_of_stored (hvalid : validRoomName room = true)
    (hlimited : (relay.isRegRateLimited src clock.limit).2 = false) (rnd : Cookie)
    {pend : PendingReg} (hglobal : relay.tables.getPendingReg room src = some pend) :
    relay.Honoured room src cookie clock rnd ↔
      Answerable relay.tables relay.cfg room src cookie clock := by
  have hconsulted : relay.tables.consulted room src = some pend :=
    Tables.consulted_eq_some_iff.mpr (Or.inl hglobal)
  constructor
  · intro h
    obtain ⟨found, hfound, hcookie, hfresh⟩ :=
      matches_of_honoured hvalid hlimited (Or.inl (by rw [hglobal]; rfl)) h
    obtain rfl := Option.some.inj (hconsulted.symm.trans hfound)
    refine ⟨fun pend' hpend' => ?_, fun hnone => ?_⟩
    · obtain rfl := Option.some.inj (hglobal.symm.trans hpend')
      exact ⟨hcookie, hfresh⟩
    · cases hglobal.symm.trans hnone
  · intro h
    exact honoured_of_matches hvalid hlimited rnd ⟨pend, hconsulted, h.store pend hglobal⟩

section NotStored

variable (hglobal : relay.tables.getPendingReg room src = none)

include hglobal

theorem answerable_iff_of_not_stored :
    Answerable relay.tables relay.cfg room src cookie clock ↔
      (∃ entry, relay.tables.room? room = some entry ∧ src ∈ entry.pending) ∨
        relay.tables.room? room = none ∧
          relay.tables.ipCounts.countIpRooms (ipKey src) ≥ relay.cfg.maxRoomsPerIp := by
  constructor
  · exact fun h => h.room hglobal
  · refine fun hroom => ⟨fun pend hpend => ?_, fun _ => hroom⟩
    cases hglobal.symm.trans hpend

/-- Then what waits in the room, if there is the room. -/
theorem honoured_iff_of_room (hvalid : validRoomName room = true)
    (hlimited : (relay.isRegRateLimited src clock.limit).2 = false) (rnd : Cookie)
    {entry : RoomEntry} (hroom : relay.tables.room? room = some entry)
    (hlatest : ∀ pend, entry.pending.lookup src = some pend →
      pend.cookie = cookie ∧ pend.expired clock.elapsed = false) :
    relay.Honoured room src cookie clock rnd ↔ src ∈ entry.pending := by
  constructor
  · intro h
    obtain ⟨pend, hconsulted, -⟩ :=
      matches_of_honoured hvalid hlimited (Or.inr (by rw [hroom]; rfl)) h
    rcases Tables.consulted_eq_some_iff.mp hconsulted with hsome | ⟨-, entry', hentry', hpend⟩
    · cases hglobal.symm.trans hsome
    · obtain rfl := Option.some.inj (hroom.symm.trans hentry')
      exact AList.mem_of_lookup hpend
  · intro hmem
    obtain ⟨pend, hpend⟩ := AList.mem_iff_lookup.mp hmem
    exact honoured_of_matches hvalid hlimited rnd ⟨pend,
      Tables.consulted_eq_some_iff.mpr (Or.inr ⟨hglobal, entry, hroom, hpend⟩), hlatest pend hpend⟩

/-- Without the room the source is challenged again, unless its IP is at the cap. -/
theorem honoured_iff_of_unknown (hvalid : validRoomName room = true)
    (hlimited : (relay.isRegRateLimited src clock.limit).2 = false) (rnd : Cookie)
    (hroom : relay.tables.room? room = none) :
    relay.Honoured room src cookie clock rnd ↔
      relay.tables.ipCounts.countIpRooms (ipKey src) ≥ relay.cfg.maxRoomsPerIp := by
  obtain ⟨hne, hcap⟩ := Tables.regWithCookie_unknown hglobal hroom relay.cfg cookie clock rnd
  rw [honoured_iff_action hvalid hlimited rnd, or_iff_right fun h => hne h.1, hcap]

end NotStored

theorem honoured_iff_answerable (hvalid : validRoomName room = true)
    (hlimited : (relay.isRegRateLimited src clock.limit).2 = false) (rnd : Cookie)
    (hlatest : ∀ entry pend, relay.tables.room? room = some entry →
      entry.pending.lookup src = some pend →
        pend.cookie = cookie ∧ pend.expired clock.elapsed = false) :
    relay.Honoured room src cookie clock rnd ↔
      Answerable relay.tables relay.cfg room src cookie clock := by
  cases hglobal : relay.tables.getPendingReg room src with
  | some pend => exact honoured_iff_of_stored hvalid hlimited rnd hglobal
  | none =>
      rw [answerable_iff_of_not_stored hglobal]
      cases hroom : relay.tables.room? room with
      | some entry =>
          rw [honoured_iff_of_room hglobal hvalid hlimited rnd hroom (hlatest entry · hroom)]
          simp
      | none =>
          rw [honoured_iff_of_unknown hglobal hvalid hlimited rnd hroom]
          simp

end Answer

/-- **The latest cookie.** In every run, let `cookie` be the last challenge `src` was sent about
`room`, with nothing from it about the room since, and let it come back in time and past the rate
limiter. It is honoured exactly when nothing stands in its way; and it is honoured whenever the
steps of the run all kept challenges. -/
theorem latestCookie_honoured_iff {cfg : Config} {relay : Relay} {now : Nat}
    (hrun : Run (machine cfg) history relay now)
    (hlatest : latestChallenge room src history = some (cookie, created)) {clock : Clock}
    (hnow : now ≤ clock.limit) (hage : clock.elapsed - created ≤ pendingRegTtl)
    (hlimited : (relay.isRegRateLimited src clock.limit).2 = false) (rnd : Cookie) :
    (relay.Honoured room src cookie clock rnd ↔
        Answerable relay.tables cfg room src cookie clock) ∧
      ((∀ r ∈ history, r.before.KeepsChallenges r.event) →
        relay.Honoured room src cookie clock rnd) := by
  have hcfg := cfg_of_run hrun
  subst hcfg
  have hvalid := validRoomName_of_latestChallenge hlatest
  refine ⟨honoured_iff_answerable hvalid hlimited rnd fun entry pend hentry hpend => ?_,
    fun hguard => honoured_of_matches hvalid hlimited rnd ?_⟩
  · obtain ⟨hcookie, rfl⟩ :=
      latestInRoom_of_run hrun room src cookie created hlatest entry pend hentry hpend
    exact ⟨hcookie, by simpa [PendingReg.expired] using hage⟩
  · have hkept : LatestKept history relay.tables now := by
      refine hrun.inv (I := fun history relay now => LatestKept history relay.tables now)
        (fun _ _ _ _ h => by cases h) ?_ hguard
      intro history relay now event _ hle hstep hI
      exact latestKept_step hle hstep hI
    have helapsed : now ≤ clock.elapsed := hnow.trans clock.limit_le
    obtain ⟨pend, hconsulted, hcookie, rfl⟩ := hkept room src cookie created hlatest
      ((Nat.sub_le_sub_right helapsed _).trans hage)
    exact ⟨pend, hconsulted, hcookie, by simpa [PendingReg.expired] using hage⟩

/-- A source creates a room, another is challenged in it, and a room tick comes before the answer. -/
def challengedInRoom : List Event :=
  handshake (ascii "r") (.v4 ⟨10, 0, 0, 2⟩ 1000) 0 (.fill 1) ++
    [regEvent (ascii "r") none (.v4 ⟨10, 0, 0, 1⟩ 1000) (fromMillis 1000) (.fill 2),
      .roomTick (fromMillis 2000) (fromMillis 2000) le_rfl]

theorem latestCookie_honoured_iff_inRoom :
    let relay := (machine .defaults).exec (machine .defaults).init challengedInRoom
    (relay.tables.room? (ascii "r")).isSome = true ∧
      relay.tables.getPendingReg (ascii "r") (.v4 ⟨10, 0, 0, 1⟩ 1000) = none ∧
      relay.Honoured (ascii "r") (.v4 ⟨10, 0, 0, 1⟩ 1000) (.fill 2) (.same (fromMillis 3000))
        (.fill 3) := by
  have hyoung : ∀ r ∈ (machine .defaults).trace (machine .defaults).init challengedInRoom,
      ∀ i, ∀ e ∈ (r.before.tables.shards i).entries,
        r.event.finish - e.2.t ≤ r.before.cfg.regTtl ∧
          ∀ key ∈ r.before.tables.pendingRegs.keys, key.1 ≠ e.1 := by
    decide +kernel
  refine ⟨by decide +kernel, by decide +kernel, ?_⟩
  refine (latestCookie_honoured_iff ((machine .defaults).run_exec (by decide))
    (by decide +kernel : latestChallenge (ascii "r") (.v4 ⟨10, 0, 0, 1⟩ 1000) _ =
      some (.fill 2, fromMillis 1000))
    (by decide) (by decide) (by decide +kernel) (.fill 3)).2 ?_
  intro r hr
  refine ⟨fun room entry now hroom hevicts hdoomed => ?_,
    fun data src clock rnd room entry _ _ _ hroom _ _ => ?_⟩
  · have hold := (hyoung r hr _ ⟨room, entry⟩ (AList.lookup_eq_some_iff.mp hroom)).1
    exact absurd (hdoomed.2.trans_le (Nat.sub_le_sub_right hevicts.le_finish _))
      (Nat.not_lt_of_le hold)
  · have hstored := (hyoung r hr _ ⟨room, entry⟩ (AList.lookup_eq_some_iff.mp hroom)).2
    exact AList.lookup_eq_none.mpr fun hmem => hstored (room, src) hmem rfl

/-- A source registers before the room exists, another creates the room, and the first registers
again. -/
def shadowing : List Event :=
  regEvent (ascii "r") none (.v4 ⟨10, 0, 0, 1⟩ 1000) 0 (.fill 1) ::
    handshake (ascii "r") (.v4 ⟨10, 0, 0, 2⟩ 1000) 0 (.fill 2) ++
    [regEvent (ascii "r") none (.v4 ⟨10, 0, 0, 1⟩ 1000) (fromMillis 1000) (.fill 3)]

/-- The second challenge waits in the room, the first in the global store. The answer to the second
is compared with the first and dropped. -/
theorem latestCookie_shadowed :
    Run (machine .defaults) ((machine .defaults).trace (machine .defaults).init shadowing)
        ((machine .defaults).exec (machine .defaults).init shadowing)
        ((machine .defaults).clockAfter 0 shadowing) ∧
      latestChallenge (ascii "r") (.v4 ⟨10, 0, 0, 1⟩ 1000)
          ((machine .defaults).trace (machine .defaults).init shadowing) =
        some (.fill 3, fromMillis 1000) ∧
      fromMillis 2000 - fromMillis 1000 ≤ pendingRegTtl ∧
      (((machine .defaults).exec (machine .defaults).init shadowing).isRegRateLimited
        (.v4 ⟨10, 0, 0, 1⟩ 1000) (fromMillis 2000)).2 = false ∧
      ¬ ((machine .defaults).exec (machine .defaults).init shadowing).Honoured (ascii "r")
        (.v4 ⟨10, 0, 0, 1⟩ 1000) (.fill 3) (.same (fromMillis 2000)) (.fill 4) := by
  refine ⟨(machine .defaults).run_exec (by decide), by decide +kernel, by decide,
    by decide +kernel, ?_⟩
  have hsent : (((machine .defaults).exec (machine .defaults).init shadowing).step
      (.packet (regData (ascii "r") (some (.fill 3))) (.v4 ⟨10, 0, 0, 1⟩ 1000)
        (.same (fromMillis 2000)) (.fill 4))).2 = [] := by
    decide +kernel
  have haction : (((machine .defaults).exec (machine .defaults).init shadowing).tables.handleReg
      ((machine .defaults).exec (machine .defaults).init shadowing).cfg (ascii "r")
        (cookieText (some (.fill 3))) (.v4 ⟨10, 0, 0, 1⟩ 1000) (.same (fromMillis 2000))
          (.fill 4)).2 = .drop .mismatchedPending := by
    decide +kernel
  rintro (⟨hregd, -⟩ | ⟨reason, hcap, hdrop⟩)
  · rw [hsent] at hregd
    cases hregd
  · rw [haction] at hdrop
    cases hdrop
    cases hcap

end Qvole.Relay
