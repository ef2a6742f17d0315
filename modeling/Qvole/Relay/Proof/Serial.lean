import Qvole.Relay.Proof.Uninterrupted
import Qvole.Relay.Proof.Wire

/-!
# Handlers one behind the other

Every handler and every tick, run alone on a memory that represents the tables, does to it what the
sequential relay does to the tables, and sends the same replies. So the sequential relay is what the
threads are when each runs to its end before the next one starts.
-/

namespace Qvole.Relay.Threads

variable {cfg : Config} {s : Globals} {relay : Relay} {now : Instant}

/-- The memory represents the relay. -/
structure Mirrors (cfg : Config) (relay : Relay) (s : Globals) : Prop where
  cfg : relay.cfg = cfg
  represents : Represents s relay.tables relay.meters.regShards

/-! ### Datagrams -/

theorem Mirrors.limited (h : Mirrors cfg relay s) (src : SocketAddr) (t : Instant) :
    ∃ s', Runs (isRegRateLimited cfg src) t s (relay.isRegRateLimited src t).2 t s' ∧
      Mirrors cfg { relay with meters := (relay.isRegRateLimited src t).1 } s' := by
  obtain ⟨rfl, hrep⟩ := h
  refine ⟨(s.isLimited src t relay.cfg.rateWindow (regRate relay.cfg)).1, ?_, rfl, ?_⟩
  · refine (runs_now le_rfl).bind ?_
    have hop := runs_perform (s := s) (.isLimited src t relay.cfg.rateWindow (regRate relay.cfg)) rfl t
    have hanswer : (s.isLimited src t relay.cfg.rateWindow (regRate relay.cfg)).2 =
        (relay.isRegRateLimited src t).2 := by
      simp only [Globals.isLimited, Relay.isRegRateLimited, hrep.regShards]
    rw [← hanswer]
    exact hop
  · refine ⟨hrep.rooms, hrep.pending, hrep.links, hrep.pendingIp, hrep.pendingTotal,
      hrep.totalRoomCount, ?_⟩
    simp only [Globals.isLimited, Relay.isRegRateLimited, hrep.regShards]

theorem Mirrors.drop (h : Mirrors cfg relay s) (src : SocketAddr) (clock : Clock) :
    Mirrors cfg (relay.drop src clock).1 s := ⟨h.cfg, h.represents⟩

theorem Mirrors.handleReg (h : Mirrors cfg relay s) (room : Room) (cookie : Bytes)
    (src : SocketAddr) (clock : Clock) (rnd : Cookie) :
    ∃ s' action, Runs (handleReg cfg room cookie src) clock.limit s action clock.log s' ∧
      RegAction.replies room src action = (relay.handleReg room cookie src clock rnd).2 ∧
      Mirrors cfg (relay.handleReg room cookie src clock rnd).1 s' := by
  obtain ⟨s₁, hlimited, hmirrors⟩ := h.limited src clock.limit
  unfold Relay.handleReg
  generalize relay.isRegRateLimited src clock.limit = limited at hlimited hmirrors ⊢
  dsimp only
  by_cases hover : limited.2 = true
  · rw [if_pos hover]
    refine ⟨s₁, .drop .regRateLimited, hlimited.bind ?_, rfl, hmirrors.drop src clock⟩
    rw [if_pos hover]
    exact Runs.pure _ clock.limit_le_log
  · rw [if_neg hover]
    have hhandled : ∃ s', Runs (Threads.handleReg cfg room cookie src) clock.limit s
        (relay.tables.handleReg relay.cfg room cookie src clock rnd).2 clock.log s' ∧
        Represents s' (relay.tables.handleReg relay.cfg room cookie src clock rnd).1
          limited.1.regShards := by
      have hrep : Represents s₁ relay.tables limited.1.regShards := hmirrors.represents
      have hlog := clock.limit_le_log
      rw [h.cfg]
      unfold Tables.handleReg
      split
      · rename_i hempty
        obtain ⟨s', hruns, hrep'⟩ := hrep.regInitial cfg room src clock rnd
        refine ⟨s', hlimited.bind ?_, hrep'⟩
        rw [if_neg hover, if_pos hempty]
        exact hruns
      · rename_i hsome
        split
        · rename_i hinvalid
          refine ⟨s₁, hlimited.bind ?_, hrep⟩
          rw [if_neg hover, if_neg hsome, if_pos hinvalid]
          exact Runs.pure _ hlog
        · rename_i hvalid
          cases hdecode : hexDecode cookie with
          | none =>
              refine ⟨s₁, hlimited.bind ?_, hrep⟩
              rw [if_neg hover, if_neg hsome, if_neg hvalid, hdecode]
              exact Runs.pure _ hlog
          | some cookieBytes =>
              obtain ⟨s', hruns, hrep'⟩ := hrep.regWithCookie cfg room cookieBytes src clock rnd
              refine ⟨s', hlimited.bind ?_, hrep'⟩
              rw [if_neg hover, if_neg hsome, if_neg hvalid, hdecode]
              exact hruns
    obtain ⟨s', hruns, hrep⟩ := hhandled
    refine ⟨s', _, hruns, ?_⟩
    cases (relay.tables.handleReg relay.cfg room cookie src clock rnd).2 with
    | regd => exact ⟨rfl, h.cfg, hrep⟩
    | challenge cookie => exact ⟨rfl, h.cfg, hrep⟩
    | drop reason => exact ⟨rfl, h.cfg, hrep⟩

theorem Represents.setRoom {T : Tables} {R : Fin numRegShards → RegShard} (h : Represents s T R)
    {room : Room} {handle : Handle}
    (hlookup : (s.shards (shardIdx room numShards)).value.lookup room = some handle)
    (entry : RoomEntry) : Represents (s.setEntry handle (.new entry)) (T.setRoom room entry) R :=
  ⟨h.rooms.write hlookup entry, h.pending, h.links, h.pendingIp, h.pendingTotal, h.totalRoomCount,
    h.regShards⟩

theorem setEntry_setEntry (s : Globals) (handle : Handle) (cell cell' : Mutex RoomEntry) :
    (s.setEntry handle cell).setEntry handle cell' = s.setEntry handle cell' := by
  simp only [Globals.setEntry, List.set_set]

theorem setEntry_self {handle : Handle} {cell : Mutex RoomEntry} (hcell : s.heap[handle]? = some cell) :
    s.setEntry handle cell = s := by
  obtain ⟨hlt, hget⟩ := List.getElem?_eq_some_iff.mp hcell
  rw [Globals.setEntry, ← hget, List.set_getElem_self]

theorem Mirrors.handleMsg (h : Mirrors cfg relay s) (payload : Bytes) (src : SocketAddr)
    (clock : Clock) :
    ∃ s', Runs (handleMsg cfg payload src) clock.limit s (relay.handleMsg payload src clock).2
        clock.log s' ∧ Mirrors cfg (relay.handleMsg payload src clock).1 s' := by
  have hlog := clock.limit_le_log
  unfold Threads.handleMsg Relay.handleMsg
  cases parseMsg payload with
  | error reason => exact ⟨s, Runs.pure _ hlog, h.drop src clock⟩
  | ok parsed =>
      obtain ⟨room, phase, body⟩ := parsed
      dsimp only
      cases hroom : relay.tables.room? room with
      | none =>
          refine ⟨s, h.represents.findRoom.bind ?_, h.drop src clock⟩
          rw [h.represents.lookup_eq_none hroom]
          exact Runs.pure _ hlog
      | some entry =>
          obtain ⟨handle, hlookup, hcell⟩ := h.represents.exists_handle hroom
          have hunlock : ∀ t entry', Runs (unlockEntry handle entry') t
              (s.setEntry handle { value := entry, locked := true }) () t
              (s.setEntry handle (.new entry')) := by
            intro t entry'
            have hset := runs_unlockEntry (t := t)
              (s := s.setEntry handle { value := entry, locked := true }) handle entry'
            rwa [setEntry_setEntry] at hset
          cases hclient : entry.udpClients.lookup src with
          | none =>
              simp only [hclient]
              have hback := hunlock clock.limit entry
              rw [setEntry_self hcell] at hback
              refine ⟨s, h.represents.findRoom.bind ?_, h.drop src clock⟩
              rw [hlookup]
              refine (runs_lockEntry hcell).bind ?_
              rw [hclient]
              exact hback.bind (Runs.pure _ hlog)
          | some info =>
              simp only [hclient, h.cfg]
              set limited := info.rateLimiter.isLimited clock.limit cfg.rateWindow (msgRate cfg)
              set after := { entry with
                udpClients := entry.udpClients.insert src { info with rateLimiter := limited.1 } }
              have hrep := h.represents.setRoom hlookup after
              refine ⟨s.setEntry handle (.new after), h.represents.findRoom.bind ?_, ?_⟩
              · rw [hlookup]
                refine (runs_lockEntry hcell).bind ?_
                rw [hclient]
                refine (runs_now le_rfl).bind ((hunlock clock.limit after).bind ?_)
                split
                · exact Runs.pure _ hlog
                · exact Runs.pure _ hlog
              · split
                · exact ⟨rfl, hrep⟩
                · exact ⟨rfl, hrep⟩

theorem Mirrors.handlePacket (h : Mirrors cfg relay s) (data : Bytes) (src : SocketAddr)
    (clock : Clock) (rnd : Cookie) :
    ∃ s', Runs (handlePacket cfg data src) clock.limit s (relay.handlePacket data src clock rnd).2
        clock.log s' ∧ Mirrors cfg (relay.handlePacket data src clock rnd).1 s' := by
  unfold Threads.handlePacket Relay.handlePacket
  cases parsePacket data with
  | drop reason =>
      exact ⟨s, Runs.pure _ clock.limit_le_log, h.drop src clock⟩
  | reg room cookie =>
      obtain ⟨s', action, hruns, hreplies, hmirrors⟩ := h.handleReg room cookie src clock rnd
      refine ⟨s', hruns.bind ?_, hmirrors⟩
      rw [hreplies]
      exact Runs.pure _ le_rfl
  | msg payload => exact h.handleMsg payload src clock

/-! ### Ticks -/

def expiredIps (regs : PendingRegs) (t : Instant) : List IpAddr :=
  (regs.retain fun _ p => p.expired t).keys.map fun key => ipKey key.2

/-- The shards have lost what is expired. -/
def withoutExpired (shards : Fin numShards → Mutex PendingRegs) (t : Instant)
    (is : List (Fin numShards)) (i : Fin numShards) : Mutex PendingRegs :=
  if i ∈ is then .new ((shards i).value.retain fun _ p => !p.expired t) else shards i

theorem runs_evictPending (now t : Instant) {is : List (Fin numShards)} (hnodup : is.Nodup)
    (hunlocked : ∀ i, (s.pendingShards i).locked = false) :
    Runs (evictPending t is) now s (is.flatMap fun i => expiredIps (s.pendingShards i).value t) now
      { s with pendingShards := withoutExpired s.pendingShards t is } := by
  induction is generalizing s with
  | nil => exact Runs.pure _ le_rfl
  | cons i rest ih =>
      rw [List.nodup_cons] at hnodup
      set left := (s.pendingShards i).value.retain fun _ p => !p.expired t with hleft
      have hcells : ∀ j, ((s.setPending i (.new left)).pendingShards j).locked = false := by
        intro j
        by_cases hj : j = i
        · subst hj
          simp [Globals.setPending, Mutex.new]
        · simpa [Globals.setPending, hj] using hunlocked j
      have hothers : ∀ j ∈ rest, (s.setPending i (.new left)).pendingShards j = s.pendingShards j := by
        intro j hj
        have hne : j ≠ i := by
          rintro rfl
          exact hnodup.1 hj
        exact Function.update_of_ne hne _ _
      have hafter : withoutExpired (s.setPending i (.new left)).pendingShards t rest =
          withoutExpired s.pendingShards t (i :: rest) := by
        funext j
        unfold withoutExpired
        by_cases hj : j ∈ rest
        · rw [if_pos hj, if_pos (List.mem_cons_of_mem _ hj), hothers j hj]
        · rw [if_neg hj]
          by_cases hji : j = i
          · subst hji
            simp [Globals.setPending, hleft]
          · simp [Globals.setPending, hj, hji]
      have hips : (rest.flatMap fun j =>
          expiredIps ((s.setPending i (.new left)).pendingShards j).value t) =
          rest.flatMap fun j => expiredIps (s.pendingShards j).value t := by
        refine List.flatMap_congr fun j hj => ?_
        rw [hothers j hj]
      have hrest := ih (s := s.setPending i (.new left)) hnodup.2 hcells
      rw [hafter, hips] at hrest
      refine (runs_lockPending (hunlocked i)).bind ?_
      refine (runs_unlockHeld now s i _ left).bind (hrest.bind ?_)
      exact Runs.pure _ le_rfl

theorem runs_removePendingIps (ips : List IpAddr) :
    Runs (removePendingIps ips) now s () now
      { s with pendingIp := ips.foldl (fun counts ip => counts.decr ip) s.pendingIp } := by
  induction ips generalizing s with
  | nil => exact Runs.pure () le_rfl
  | cons ip rest ih => exact (runs_removePendingIp ip).bind ih

/-- The shards together hold the registrations of the table. -/
theorem PendingAgree.perm {shards : Fin numShards → Mutex PendingRegs} {regs : PendingRegs}
    (h : PendingAgree shards regs) :
    ((List.finRange numShards).flatMap fun i => (shards i).value.entries).Perm regs.entries := by
  refine (List.perm_ext_iff_of_nodup ?_ regs.nodupKeys.nodup).mpr fun e => ?_
  · rw [List.nodup_flatMap]
    refine ⟨fun i _ => (shards i).value.nodupKeys.nodup, ?_⟩
    refine (List.nodup_finRange numShards).imp fun {i j} hne e hi hj => ?_
    obtain ⟨⟨room, src⟩, p⟩ := e
    have hmem := AList.mem_of_lookup (AList.lookup_eq_some_iff.mpr hi)
    have hmem' := AList.mem_of_lookup (AList.lookup_eq_some_iff.mpr hj)
    exact hne ((h.placed i room src hmem).symm.trans (h.placed j room src hmem'))
  · obtain ⟨⟨room, src⟩, p⟩ := e
    rw [List.mem_flatMap, ← AList.lookup_eq_some_iff, ← h.lookup]
    constructor
    · rintro ⟨i, -, hi⟩
      have hlookup := AList.lookup_eq_some_iff.mpr hi
      rw [h.placed i room src (AList.mem_of_lookup hlookup)]
      exact hlookup
    · intro hlookup
      exact ⟨_, List.mem_finRange _, AList.lookup_eq_some_iff.mp hlookup⟩

theorem PendingAgree.expiredIps {shards : Fin numShards → Mutex PendingRegs} {regs : PendingRegs}
    (h : PendingAgree shards regs) (t : Instant) :
    ((List.finRange numShards).flatMap fun i => expiredIps (shards i).value t).Perm
      (expiredIps regs t) := by
  have hperm := (h.perm.filter fun e => e.2.expired t).map fun e => ipKey e.1.2
  rw [List.filter_flatMap, List.map_flatMap] at hperm
  simpa [Threads.expiredIps, AList.retain, AList.keys, List.keys, Function.comp_def] using hperm

theorem PendingAgree.withoutExpired {shards : Fin numShards → Mutex PendingRegs} {regs : PendingRegs}
    (h : PendingAgree shards regs) (t : Instant) :
    PendingAgree (withoutExpired shards t (List.finRange numShards))
      (regs.retain fun _ p => !p.expired t) := by
  have hcell : ∀ i, Threads.withoutExpired shards t (List.finRange numShards) i =
      .new ((shards i).value.retain fun _ p => !p.expired t) := by
    intro i
    rw [Threads.withoutExpired, if_pos (List.mem_finRange i)]
  refine ⟨fun i => ?_, fun room src => ?_, fun i room src hmem => ?_⟩
  · rw [hcell]
    rfl
  · rw [hcell, AList.lookup_retain, ← h.lookup]
    exact AList.lookup_retain _ _ _
  · rw [hcell] at hmem
    obtain ⟨p, hlookup, -⟩ := AList.mem_retain.mp hmem
    exact h.placed i room src (AList.mem_of_lookup hlookup)

theorem Represents.removeStalePendingRegs {T : Tables} {R : Fin numRegShards → RegShard}
    (h : Represents s T R) (t now : Instant) :
    ∃ s', Runs (removeStalePendingRegs t) now s () now s' ∧
      Represents s' (T.removeStalePendingRegs t) R := by
  have hevict := runs_evictPending now t (List.nodup_finRange numShards) h.pending.unlocked
  have hperm := h.pending.expiredIps t
  have hpending := h.pending.withoutExpired t
  set ips := (List.finRange numShards).flatMap fun i => expiredIps (s.pendingShards i).value t with hips
  set evicted : Globals := { s with
    pendingShards := withoutExpired s.pendingShards t (List.finRange numShards) } with hevicted
  unfold Tables.removeStalePendingRegs
  change ∃ s', _ ∧ Represents s' (if (expiredIps T.pendingRegs t).isEmpty then _ else _) R
  have hempty : ips.isEmpty = (expiredIps T.pendingRegs t).isEmpty := by
    rw [Bool.eq_iff_iff, List.isEmpty_iff, List.isEmpty_iff]
    exact ⟨fun hnil => (hnil ▸ hperm).nil_eq.symm, fun hnil => (hnil ▸ hperm).eq_nil⟩
  rw [← hempty]
  split
  · rename_i hnone
    refine ⟨evicted, hevict.bind ?_, ⟨h.rooms, hpending, h.links, h.pendingIp, h.pendingTotal,
      h.totalRoomCount, h.regShards⟩⟩
    rw [if_pos hnone]
    exact Runs.pure () le_rfl
  · rename_i hsome
    refine ⟨{ evicted with
      pendingTotal := fetchSub s.pendingTotal ips.length
      pendingIp := ips.foldl (fun counts ip => counts.decr ip) s.pendingIp }, hevict.bind ?_,
      ⟨h.rooms, hpending, h.links, h.pendingIp.foldl_decr hperm, ?_, h.totalRoomCount, h.regShards⟩⟩
    · rw [if_neg hsome]
      exact (runs_subPendingTotal _).bind (runs_removePendingIps ips)
    · exact congrArg₂ fetchSub h.pendingTotal hperm.length_eq

theorem Mirrors.roomTick (h : Mirrors cfg relay s) (sweep expire : Instant) (hle : sweep ≤ expire) :
    ∃ s', Runs (roomTick cfg) sweep s () expire s' ∧
      Mirrors cfg { relay with tables := relay.tables.roomTick relay.cfg sweep expire } s' := by
  obtain ⟨rfl, hrep⟩ := h
  obtain ⟨s₁, hswept, hrep₁⟩ := hrep.evictStaleRoomsAll sweep relay.cfg.regTtl sweep
  obtain ⟨s₂, hexpired, hrep₂⟩ := hrep₁.removeStalePendingRegs expire expire
  refine ⟨s₂, ?_, rfl, ?_⟩
  · unfold Threads.roomTick
    exact (runs_now le_rfl).bind (hswept.bind ((runs_now hle).bind hexpired))
  · dsimp only
    rw [Tables.roomTick]
    exact hrep₂

/-- The shards of the limiter are cleaned one behind the other. -/
theorem runs_cleanupRegShards (maxAge : Duration) {is : List (Fin numRegShards)} (hnodup : is.Nodup) :
    Runs (cleanupRegShards maxAge is) now s () now { s with
      regShards := fun i => if i ∈ is then (s.regShards i).cleanupStale now maxAge
        else s.regShards i } := by
  induction is generalizing s with
  | nil => exact Runs.pure () le_rfl
  | cons i rest ih =>
      rw [List.nodup_cons] at hnodup
      set cleaned : Globals := { s with
        regShards := Function.update s.regShards i ((s.regShards i).cleanupStale now maxAge) }
        with hcleaned
      have hrest := ih (s := cleaned) hnodup.2
      have hafter : (fun j => if j ∈ rest then (cleaned.regShards j).cleanupStale now maxAge
          else cleaned.regShards j) = fun j => if j ∈ i :: rest then
            (s.regShards j).cleanupStale now maxAge else s.regShards j := by
        funext j
        by_cases hji : j = i
        · subst hji
          simp [hcleaned, hnodup.1]
        · simp [hcleaned, hji]
      rw [hafter] at hrest
      exact (runs_now le_rfl).bind ((runs_perform (.cleanupStale i now maxAge) rfl now).bind hrest)

theorem Mirrors.rateTick (h : Mirrors cfg relay s) (now : Instant) :
    ∃ s', Runs (rateTick cfg) now s () now s' ∧ Mirrors cfg (relay.rateTick now) s' := by
  obtain ⟨rfl, hrep⟩ := h
  refine ⟨_, runs_cleanupRegShards _ (List.nodup_finRange numRegShards), rfl, ?_⟩
  refine ⟨hrep.rooms, hrep.pending, hrep.links, hrep.pendingIp, hrep.pendingTotal,
    hrep.totalRoomCount, ?_⟩
  funext i
  simp [Relay.rateTick, hrep.regShards]

/-! ### Runs -/

/-- The handler of an event. -/
def jobOf : Event → Job
  | .packet data src _ _ => .packet data src
  | .roomTick _ _ _ => .roomTick
  | .rateTick _ => .rateTick

theorem Mirrors.step (h : Mirrors cfg relay s) (event : Event) :
    ∃ s', Runs (code cfg (jobOf event)) event.start s (relay.step event).2 event.finish s' ∧
      Mirrors cfg (relay.step event).1 s' := by
  cases event with
  | packet data src clock rnd => exact h.handlePacket data src clock rnd
  | roomTick sweep expire hle =>
      obtain ⟨s', hruns, hmirrors⟩ := h.roomTick sweep expire hle
      exact ⟨s', hruns.bind (Runs.pure _ le_rfl), hmirrors⟩
  | rateTick now =>
      obtain ⟨s', hruns, hmirrors⟩ := h.rateTick now
      exact ⟨s', hruns.bind (Runs.pure _ le_rfl), hmirrors⟩

theorem mirrors_empty (cfg : Config) : Mirrors cfg (Relay.empty cfg) .empty where
  cfg := rfl
  represents := by
    refine ⟨⟨fun _ => rfl, fun _ _ _ => rfl, ?_, ?_⟩, ⟨fun _ => rfl, fun _ _ => rfl, ?_⟩, fun _ => rfl,
      fun _ => rfl, rfl, rfl, rfl⟩
    · intro i room handle hlookup
      cases hlookup
    · intro i j room room' handle hlookup
      cases hlookup
    · intro i room src hmem
      simp [Globals.empty, Mutex.new] at hmem

variable {history : List (Machine.Record Relay Event Reply)}

/-- **The threads, one at a time, are the sequential relay.** Whatever datagrams and ticks the
sequential relay handles, the threads of the same datagrams and ticks can be scheduled one behind the
other, with clock readings that never go back, so that every thread comes to its end with the replies
of its event and the memory represents the relay. -/
theorem serial_of_run (hrun : (Relay.machine cfg).Run history relay now) :
    ∃ events : List (Schedule Job Input),
      let pool := (machine cfg).exec (machine cfg).init events
      events.filterMap Schedule.job? = history.map (fun r => jobOf r.event) ∧
      (events.filterMap (Schedule.reading? Input.now)).Pairwise (· ≤ ·) ∧
      (∀ reading ∈ events.filterMap (Schedule.reading? Input.now), reading ≤ now) ∧
      pool.threads = history.map (fun r => .ret r.sent) ∧
      Represents pool.state relay.tables relay.meters.regShards := by
  have hstep : ∀ relay event s, Mirrors cfg relay s → ∃ s',
      (code cfg (jobOf event)).Alone memory Input.now ((Relay.machine cfg).start event) s
        ((Relay.machine cfg).step relay event).2 ((Relay.machine cfg).finish event) s' ∧
      Mirrors cfg ((Relay.machine cfg).step relay event).1 s' :=
    fun relay event s h => h.step event
  obtain ⟨events, hjobs, hsorted, hbound, hthreads, hmirrors⟩ :=
    Memory.exists_serial jobOf (Mirrors cfg) (mirrors_empty cfg) hstep hrun
  exact ⟨events, hjobs, hsorted, hbound, hthreads, hmirrors.represents⟩

/-- A source registers and answers its challenge, and the cleanup task ticks. -/
def registers : List Event :=
  handshake (ascii "r") (.v4 ⟨10, 0, 0, 1⟩ 1000) 0 (.fill 1) ++ [.rateTick (fromMillis 1000)]

theorem serial_of_run_registers : ∃ events : List (Schedule Job Input),
    let pool := (machine .defaults).exec (machine .defaults).init events
    pool.threads = [.ret [.challenge (ascii "r") (.fill 1) (.v4 ⟨10, 0, 0, 1⟩ 1000)],
        .ret [.regd (ascii "r") (.v4 ⟨10, 0, 0, 1⟩ 1000)], .ret []] ∧
      pool.state.totalRoomCount = 1 := by
  have hordered : (Relay.machine .defaults).Ordered 0 registers := by decide
  obtain ⟨events, -, -, -, hthreads, hrep⟩ := serial_of_run ((Relay.machine .defaults).run_exec hordered)
  have hsent : ((Relay.machine .defaults).trace (Relay.machine .defaults).init registers).map (·.sent) =
      [[.challenge (ascii "r") (.fill 1) (.v4 ⟨10, 0, 0, 1⟩ 1000)],
        [.regd (ascii "r") (.v4 ⟨10, 0, 0, 1⟩ 1000)], []] := by decide +kernel
  have hcount : ((Relay.machine .defaults).exec (Relay.machine .defaults).init
      registers).tables.totalRoomCount = 1 := by decide +kernel
  refine ⟨events, ?_, hrep.totalRoomCount.trans hcount⟩
  rw [hthreads]
  exact congrArg (List.map Prog.ret) hsent

end Qvole.Relay.Threads
