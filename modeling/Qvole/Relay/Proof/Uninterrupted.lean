import Qvole.Relay.Proof.Represents

/-!
# Registrations without interruption

Run alone on a memory that represents the tables, the sweeps and the handling of a `REG` do to it what
the sequential relay does to the tables, with the same answer. While the guard of a shard is held, the
memory represents them but for that shard.
-/

namespace Qvole.Relay.Threads

variable {cfg : Config} {room : Room} {src resolved : SocketAddr} {s : Globals} {T : Tables}
  {R : Fin numRegShards → RegShard} {now : Instant} {clock : Clock}

/-! ### Sweeps -/

theorem Represents.evictShards (h : Represents s T R) (t : Instant) (regTtl : Duration) (now : Instant)
    (is : List (Fin numShards)) (total : Nat) :
    ∃ s', Runs (evictShards t regTtl is total) now s
        (total + (Tables.evictShards t regTtl is T).2) now s' ∧
      Represents s' (Tables.evictShards t regTtl is T).1 R := by
  induction is generalizing s T total with
  | nil => exact ⟨s, Runs.pure _ le_rfl, h⟩
  | cons i rest ih =>
      set held := s.setShard i { s.shards i with locked := true } with hheld
      have hrooms : RoomsAgree s.shards held.heap T.shards := h.rooms
      obtain ⟨heap, left, unlinked, hruns, hmem, hagree⟩ := hrooms.evictStaleRooms i t regTtl now
      set after : Globals := { s with
        shards := Function.update s.shards i (.new left)
        heap
        ipCounts := s.ipCounts.unlink unlinked } with hafter
      have hrep : Represents after (T.evictShard i t regTtl).1 R :=
        ⟨hagree, h.pending, h.links.unlink hmem, h.pendingIp, h.pendingTotal, h.totalRoomCount,
          h.regShards⟩
      obtain ⟨s', hrest, hrep'⟩ := ih hrep (total + (T.evictShard i t regTtl).2)
      refine ⟨s', ?_, hrep'⟩
      have hunlock : Runs (unlockShard i left) now
          { held with heap, ipCounts := held.ipCounts.unlink unlinked } () now after := by
        have hset := runs_unlockShard (t := now)
          (s := { held with heap, ipCounts := held.ipCounts.unlink unlinked }) i left
        rwa [Globals.setShard, hheld, Globals.setShard, Function.update_idem] at hset
      rw [Tables.evictShards, ← Nat.add_assoc]
      refine (runs_lockShard (h.rooms.unlocked i)).bind (hruns.bind ?_)
      exact (runs_removeIpRooms unlinked).bind (hunlock.bind hrest)

/-- What subtracting from the room counter leaves, when there is something to subtract. -/
def roomsLess (count n : Nat) : Nat := if n > 0 then fetchSub count n else count

theorem runs_subRooms (n : Nat) :
    Runs (subRooms n) now s () now { s with totalRoomCount := roomsLess s.totalRoomCount n } := by
  unfold Threads.subRooms roomsLess
  split
  · exact runs_perform (.subRoomCount n) rfl now
  · exact Runs.pure () le_rfl

theorem subRooms_eq (T : Tables) (n : Nat) :
    T.subRooms n = { T with totalRoomCount := roomsLess T.totalRoomCount n } := by
  unfold Tables.subRooms roomsLess
  split
  · rfl
  · rfl

theorem Represents.subRooms (h : Represents s T R) (n : Nat) :
    Represents { s with totalRoomCount := roomsLess s.totalRoomCount n } (T.subRooms n) R := by
  rw [subRooms_eq, ← h.totalRoomCount]
  exact ⟨h.rooms, h.pending, h.links, h.pendingIp, h.pendingTotal, rfl, h.regShards⟩

theorem Represents.evictStaleRoomsAll (h : Represents s T R) (t : Instant) (regTtl : Duration)
    (now : Instant) :
    ∃ s', Runs (evictStaleRoomsAll t regTtl) now s () now s' ∧
      Represents s' (T.evictStaleRoomsAll t regTtl) R := by
  obtain ⟨s₁, hswept, hrep⟩ := h.evictShards t regTtl now (List.finRange numShards) 0
  rw [Nat.zero_add] at hswept
  exact ⟨_, hswept.bind (runs_subRooms _), hrep.subRooms _⟩

theorem Represents.sweepIfFull (h : Represents s T R) (cfg : Config) (clock : Clock) :
    ∃ s', Runs (sweepIfFull cfg) clock.elapsed s () clock.sweep s' ∧
      Represents s' (T.sweepIfFull cfg clock) R := by
  unfold Tables.sweepIfFull
  rw [← h.totalRoomCount]
  split
  · rename_i hfull
    obtain ⟨s', hswept, hrep⟩ := h.evictStaleRoomsAll clock.sweep cfg.regTtl clock.sweep
    refine ⟨s', runs_totalRooms.bind ?_, hrep⟩
    rw [if_pos hfull]
    exact (runs_now clock.elapsed_le).bind hswept
  · rename_i hfull
    refine ⟨s, runs_totalRooms.bind ?_, h⟩
    rw [if_neg hfull]
    exact Runs.pure () clock.elapsed_le

/-! ### Under the guard of a shard -/

/-- The guard of a shard is taken. -/
def Globals.held (s : Globals) (i : Fin numShards) : Globals :=
  s.setShard i { s.shards i with locked := true }

/-- The memory will represent the tables once the guard of the shard is dropped with these rooms. -/
def Under (i : Fin numShards) (rooms : Rooms) (s : Globals) (T : Tables)
    (R : Fin numRegShards → RegShard) : Prop :=
  Represents (s.setShard i (.new rooms)) T R

theorem setShard_setShard (s : Globals) (i : Fin numShards) (cell cell' : Mutex Rooms) :
    (s.setShard i cell).setShard i cell' = s.setShard i cell' := by
  simp only [Globals.setShard, Function.update_idem]

theorem setShard_self {i : Fin numShards} (hunlocked : (s.shards i).locked = false) :
    s.setShard i (.new (s.shards i).value) = s := by
  have hcell : Mutex.new (s.shards i).value = s.shards i := by
    rw [Mutex.new, ← hunlocked]
  rw [Globals.setShard, hcell, Function.update_eq_self]

theorem Represents.lockShard (h : Represents s T R) (now : Instant) (i : Fin numShards) :
    Runs (lockShard i) now s (s.shards i).value now (s.held i) ∧
      Under i (s.shards i).value (s.held i) T R := by
  refine ⟨runs_lockShard (h.rooms.unlocked i), ?_⟩
  rwa [Under, Globals.held, setShard_setShard, setShard_self (h.rooms.unlocked i)]

variable {i : Fin numShards} {rooms : Rooms}

theorem Under.roomsAgree (h : Under i rooms s T R) :
    RoomsAgree (Function.update s.shards i (.new rooms)) s.heap T.shards := h.rooms

theorem Under.sameLinks (h : Under i rooms s T R) : SameLinks s.ipCounts T.ipCounts := h.links

theorem Under.totalRooms (h : Under i rooms s T R) : s.totalRoomCount = T.totalRoomCount :=
  h.totalRoomCount

theorem Under.lookup_eq_none (h : Under i rooms s T R) (hnone : rooms.lookup room = none) :
    (T.shards i).lookup room = none := by
  refine h.roomsAgree.missing i room ?_
  rw [Function.update_self]
  exact hnone

theorem Under.lookup_eq_some (h : Under i rooms s T R) {handle : Handle}
    (hsome : rooms.lookup room = some handle) :
    ∃ entry, s.heap[handle]? = some (.new entry) ∧ (T.shards i).lookup room = some entry := by
  refine h.roomsAgree.found i room handle ?_
  rw [Function.update_self]
  exact hsome

/-- Sweeps the rooms of the shard once more. -/
theorem Under.resweepIfFull (h : Under (shardIdx room numShards) rooms s T R) (cfg : Config)
    (clock : Clock) :
    ∃ rooms' s', Runs (resweepIfFull cfg rooms) clock.sweep s rooms' clock.resweep s' ∧
      Under (shardIdx room numShards) rooms' s' (T.resweepIfFull cfg room clock) R := by
  unfold Tables.resweepIfFull
  rw [← h.totalRooms]
  split
  · rename_i hfull
    obtain ⟨heap, left, unlinked, hruns, hmem, hagree⟩ := h.roomsAgree.evictStaleRooms
      (shardIdx room numShards) clock.resweep cfg.regTtl clock.resweep
    rw [Function.update_self] at hruns
    rw [Function.update_idem] at hagree
    have hswept : Under (shardIdx room numShards) left
        { s with heap, ipCounts := s.ipCounts.unlink unlinked }
        (T.evictShard (shardIdx room numShards) clock.resweep cfg.regTtl).1 R :=
      ⟨hagree, h.pending, h.links.unlink hmem, h.pendingIp, h.pendingTotal, h.totalRoomCount,
        h.regShards⟩
    refine ⟨left, { s with
      heap
      ipCounts := s.ipCounts.unlink unlinked
      totalRoomCount := roomsLess s.totalRoomCount _ }, runs_totalRooms.bind ?_,
      Represents.subRooms hswept _⟩
    rw [if_pos hfull]
    refine (runs_now clock.sweep_le).bind (hruns.bind ?_)
    exact (runs_subRooms _).bind ((runs_removeIpRooms unlinked).bind (Runs.pure _ le_rfl))
  · rename_i hfull
    refine ⟨rooms, s, runs_totalRooms.bind ?_, h⟩
    rw [if_neg hfull]
    exact Runs.pure _ clock.sweep_le

/-- The room of a completed cookie is created under the guard of its shard. -/
theorem Under.createRoom (h : Under (shardIdx room numShards) rooms s T R) (cfg : Config)
    (src resolved : SocketAddr) (clock : Clock) :
    ∃ rooms' s', Runs (createRoom cfg rooms room src resolved) clock.sweep s
        (rooms', (T.regCookieCreate cfg room src resolved clock).2) clock.log s' ∧
      Under (shardIdx room numShards) rooms' s' (T.regCookieCreate cfg room src resolved clock).1 R := by
  obtain ⟨rooms', s', hresweep, hunder⟩ := h.resweepIfFull cfg clock
  unfold Tables.regCookieCreate
  generalize T.resweepIfFull cfg room clock = T' at hunder ⊢
  dsimp only
  rw [← hunder.totalRooms, ← hunder.sameLinks.countIpRooms]
  split
  · rename_i hfull
    refine ⟨rooms', s', hresweep.bind (runs_totalRooms.bind ?_), hunder⟩
    rw [if_pos hfull]
    exact Runs.pure _ clock.resweep_le_log
  · rename_i hfull
    split
    · rename_i hlinked
      refine ⟨rooms', s', hresweep.bind (runs_totalRooms.bind ?_), hunder⟩
      rw [if_neg hfull]
      refine (runs_countIpRooms _).bind ?_
      rw [if_pos hlinked]
      exact Runs.pure _ clock.resweep_le_log
    · rename_i hlinked
      have hcreated := hunder.roomsAgree.create (i := shardIdx room numShards) room
        (.created src resolved clock)
      rw [Function.update_idem, Function.update_self] at hcreated
      refine ⟨rooms'.insert room s'.heap.length, { s' with
        heap := s'.heap ++ [.new (.created src resolved clock)]
        totalRoomCount := s'.totalRoomCount + 1
        ipCounts := s'.ipCounts.addIpRoom (ipKey src) room }, ?_, ?_⟩
      · refine hresweep.bind (runs_totalRooms.bind ?_)
        rw [if_neg hfull]
        refine (runs_countIpRooms _).bind ?_
        rw [if_neg hlinked]
        refine (runs_now clock.resweep_le).bind ((runs_addClient _ clock).bind ?_)
        refine (runs_perform (.newEntry _) rfl _).bind ?_
        refine (runs_perform .addRoomCount rfl _).bind ?_
        exact (runs_addIpRoom _ _).bind (Runs.pure _ le_rfl)
      · refine ⟨hcreated, hunder.pending, hunder.links.addIpRoom _ _, hunder.pendingIp,
          hunder.pendingTotal, ?_, hunder.regShards⟩
        exact congrArg (· + 1) hunder.totalRooms

/-- The outcome of a section is written through the handle of its room, and both guards dropped. -/
theorem Under.written (h : Under (shardIdx room numShards) rooms s T R) {handle : Handle}
    (hsome : rooms.lookup room = some handle) {result result' : RoomEntry × Links × RegAction}
    (hsame : SameOutcome result result') (cell : Mutex RoomEntry) :
    Represents ((Globals.setEntry { s.setEntry handle cell with ipCounts := result.2.1 } handle
      (.new result.1)).setShard (shardIdx room numShards) (.new rooms)) (T.inRoom room result').1 R := by
  have hagree := h.roomsAgree.write (i := shardIdx room numShards)
    (by rw [Function.update_self]; exact hsome) result.1
  refine ⟨?_, h.pending, hsame.links, h.pendingIp, h.pendingTotal, h.totalRoomCount, h.regShards⟩
  simp only [Globals.setShard, Globals.setEntry, List.set_set]
  rw [hsame.entry] at hagree ⊢
  exact hagree

/-! ### Registrations -/

theorem Represents.findRoom (h : Represents s T R) :
    Runs (findRoom room) now s ((s.shards (shardIdx room numShards)).value.lookup room) now s := by
  have hunlocked := h.rooms.unlocked (shardIdx room numShards)
  have hunlock := runs_unlockShard (t := now) (s := s.setShard (shardIdx room numShards)
    { s.shards (shardIdx room numShards) with locked := true }) (shardIdx room numShards)
    (s.shards (shardIdx room numShards)).value
  rw [setShard_setShard, setShard_self hunlocked] at hunlock
  exact (runs_lockShard hunlocked).bind (hunlock.bind (Runs.pure _ le_rfl))

/-- A section on an entry that was found, which looks at the links and at the pending registrations
of the IPs only. -/
theorem Represents.inRoom (h : Represents s T R) {handle : Handle}
    (hsome : (s.shards (shardIdx room numShards)).value.lookup room = some handle) {entry : RoomEntry}
    (hcell : s.heap[handle]? = some (.new entry)) {result result' : RoomEntry × Links × RegAction}
    {body : RoomEntry → Code (RoomEntry × RegAction)} {t t' : Instant}
    (hbody : ∀ s₁ : Globals, s₁.ipCounts = s.ipCounts → s₁.pendingIp = s.pendingIp →
      RunsAs body t s₁ entry t' result) (hsame : SameOutcome result result') :
    ∃ s', Runs (inRoom room handle body) t s result'.2.2 t' s' ∧
      Represents s' (T.inRoom room result').1 R := by
  obtain ⟨hlock, hunder⟩ := h.lockShard t (shardIdx room numShards)
  refine ⟨_, hlock.bind ?_, hunder.written hsome hsame { value := entry, locked := true }⟩
  have hheld : (s.held (shardIdx room numShards)).heap[handle]? = some (.new entry) := hcell
  refine (runs_lockEntry hheld).bind ?_
  refine (hbody ((s.held (shardIdx room numShards)).setEntry handle _) rfl rfl).bind ?_
  rw [← hsame.action]
  exact (runs_unlockEntry _ _).bind ((runs_unlockShard _ _).bind (Runs.pure _ le_rfl))

theorem Represents.regCookieCreateOrAdmit (h : Represents s T R) (cfg : Config) (room : Room)
    (src resolved : SocketAddr) (clock : Clock) :
    ∃ s', Runs (regCookieCreateOrAdmit cfg room src resolved) clock.elapsed s
        (T.regCookieCreateOrAdmit cfg room src resolved clock).2 clock.log s' ∧
      Represents s' (T.regCookieCreateOrAdmit cfg room src resolved clock).1 R := by
  obtain ⟨s₁, hsweep, hrep⟩ := h.sweepIfFull cfg clock
  unfold Tables.regCookieCreateOrAdmit
  generalize T.sweepIfFull cfg clock = T₁ at hrep ⊢
  obtain ⟨hlock, hunder⟩ := hrep.lockShard clock.sweep (shardIdx room numShards)
  cases hlookup : (s₁.shards (shardIdx room numShards)).value.lookup room with
  | none =>
      have hnone : T₁.room? room = none := hunder.lookup_eq_none hlookup
      obtain ⟨rooms', s₂, hcreate, hunder'⟩ := hunder.createRoom cfg src resolved clock
      simp only [hnone]
      refine ⟨s₂.setShard (shardIdx room numShards) (.new rooms'), ?_, hunder'⟩
      refine hsweep.bind (hlock.bind ?_)
      rw [hlookup]
      exact hcreate.bind ((runs_unlockShard _ _).bind (Runs.pure _ le_rfl))
  | some handle =>
      obtain ⟨entry, hcell, hentry⟩ := hunder.lookup_eq_some hlookup
      have hroom : T₁.room? room = some entry := hentry
      have hsame := hunder.sameLinks.admitSection cfg room src resolved clock entry
      simp only [hroom]
      refine ⟨_, hsweep.bind (hlock.bind ?_), hunder.written hlookup hsame
        { value := entry, locked := true }⟩
      have haction : (T₁.inRoom room (entry.admitSection cfg room src resolved clock T₁.ipCounts)).2 =
          (entry.admitSection cfg room src resolved clock s₁.ipCounts).2.2 := hsame.action.symm
      rw [hlookup, haction]
      refine (runs_lockEntry hcell).bind ((runs_admitInRoom entry clock).bind ?_)
      exact (runs_unlockEntry _ _).bind ((runs_unlockShard _ _).bind (Runs.pure _ le_rfl))

/-! ### The global pending store -/

section Pending

variable {shards : Fin numShards → Mutex PendingRegs} {regs : PendingRegs}

theorem PendingAgree.mem_iff (h : PendingAgree shards regs) :
    (room, src) ∈ (shards (shardIdx room numShards)).value ↔ (room, src) ∈ regs := by
  rw [← AList.lookup_isSome, ← AList.lookup_isSome, h.lookup]

/-- One shard gets other registrations, of its own rooms. -/
theorem PendingAgree.update (h : PendingAgree shards regs) {i : Fin numShards}
    {kept kept' : PendingRegs} (hplaced : ∀ room src, (room, src) ∈ kept → shardIdx room numShards = i)
    (hsame : ∀ room src, kept'.lookup (room, src) =
      if shardIdx room numShards = i then kept.lookup (room, src) else regs.lookup (room, src)) :
    PendingAgree (Function.update shards i (.new kept)) kept' := by
  refine ⟨fun j => ?_, fun room src => ?_, fun j room src hmem => ?_⟩
  · by_cases hj : j = i
    · subst hj
      rw [Function.update_self]
      rfl
    · rw [Function.update_of_ne hj]
      exact h.unlocked j
  · rw [hsame]
    by_cases hroom : shardIdx room numShards = i
    · rw [if_pos hroom, hroom, Function.update_self]
      rfl
    · rw [if_neg hroom, Function.update_of_ne hroom]
      exact h.lookup room src
  · by_cases hj : j = i
    · subst hj
      rw [Function.update_self] at hmem
      exact hplaced room src hmem
    · rw [Function.update_of_ne hj] at hmem
      exact h.placed j room src hmem

theorem PendingAgree.insert (h : PendingAgree shards regs) (p : PendingReg) :
    PendingAgree (Function.update shards (shardIdx room numShards)
        (.new ((shards (shardIdx room numShards)).value.insert (room, src) p)))
      (regs.insert (room, src) p) := by
  refine h.update (fun room' src' hmem => ?_) fun room' src' => ?_
  · rcases (AList.mem_insert _).mp hmem with heq | hold
    · rw [(Prod.mk.inj heq).1]
    · exact h.placed _ room' src' hold
  · rw [AList.lookup_insert_ite, AList.lookup_insert_ite]
    by_cases heq : (room', src') = (room, src)
    · rw [if_pos heq, if_pos heq, if_pos (by rw [(Prod.mk.inj heq).1])]
    · rw [if_neg heq, if_neg heq, ← h.lookup]
      by_cases hroom : shardIdx room' numShards = shardIdx room numShards
      · rw [if_pos hroom, hroom]
      · rw [if_neg hroom]

theorem PendingAgree.erase (h : PendingAgree shards regs) :
    PendingAgree (Function.update shards (shardIdx room numShards)
        (.new ((shards (shardIdx room numShards)).value.erase (room, src))))
      (regs.erase (room, src)) := by
  refine h.update (fun room' src' hmem => ?_) fun room' src' => ?_
  · exact h.placed _ room' src' (AList.mem_erase.mp hmem).2
  · rw [AList.lookup_erase_ite, AList.lookup_erase_ite]
    by_cases heq : (room', src') = (room, src)
    · rw [if_pos heq, if_pos heq, if_pos (by rw [(Prod.mk.inj heq).1])]
    · rw [if_neg heq, if_neg heq, ← h.lookup]
      by_cases hroom : shardIdx room' numShards = shardIdx room numShards
      · rw [if_pos hroom, hroom]
      · rw [if_neg hroom]

end Pending

theorem SameCounts.incr {counts counts' : Table IpAddr Nat} (h : SameCounts counts counts')
    (ip : IpAddr) : SameCounts (counts.incr ip) (counts'.incr ip) := by
  intro other
  rw [AList.getD_incr, AList.getD_incr, h other]

theorem SameCounts.foldl_decr {counts counts' : Table IpAddr Nat} (h : SameCounts counts counts')
    {ips ips' : List IpAddr} (hperm : ips.Perm ips') :
    SameCounts (ips.foldl (fun counts ip => counts.decr ip) counts)
      (ips'.foldl (fun counts ip => counts.decr ip) counts') := by
  intro other
  rw [AList.getD_foldl_decr, AList.getD_foldl_decr, h other, hperm.count_eq]

/-- A section on a shard of the pending store ends with the guard dropped. -/
theorem runs_unlockHeld (now : Instant) (s' : Globals) (i : Fin numShards) (cell : Mutex PendingRegs)
    (regs : PendingRegs) :
    Runs (unlockPending i regs) now (s'.setPending i cell) () now (s'.setPending i (.new regs)) := by
  have hset := runs_unlockPending (t := now) (s := s'.setPending i cell) i regs
  rwa [Globals.setPending, Globals.setPending, Function.update_idem] at hset

theorem setPending_self {i : Fin numShards} (hunlocked : (s.pendingShards i).locked = false) :
    s.setPending i (.new (s.pendingShards i).value) = s := by
  have hcell : Mutex.new (s.pendingShards i).value = s.pendingShards i := by
    rw [Mutex.new, ← hunlocked]
  rw [Globals.setPending, hcell, Function.update_eq_self]

theorem Represents.getPendingReg (h : Represents s T R) :
    Runs (getPendingReg room src) now s (T.getPendingReg room src) now s := by
  have hunlocked := h.pending.unlocked (shardIdx room numShards)
  have hunlock := runs_unlockHeld now s (shardIdx room numShards)
    { s.pendingShards (shardIdx room numShards) with locked := true }
    (s.pendingShards (shardIdx room numShards)).value
  rw [setPending_self hunlocked] at hunlock
  refine (runs_lockPending hunlocked).bind (hunlock.bind ?_)
  rw [h.pending.lookup]
  exact Runs.pure _ le_rfl

theorem Represents.storePendingReg (h : Represents s T R) (cfg : Config) (room : Room)
    (src : SocketAddr) (p : PendingReg) (now : Instant) :
    ∃ s', Runs (storePendingReg cfg room src p) now s (T.storePendingReg cfg room src p).2 now s' ∧
      Represents s' (T.storePendingReg cfg room src p).1 R := by
  have hlock := runs_lockPending (t := now) (h.pending.unlocked (shardIdx room numShards))
  set i := shardIdx room numShards with hi
  set added := (s.pendingShards i).value.insert (room, src) p with hadded
  unfold Tables.storePendingReg
  simp only [← h.pendingTotal, ← h.pending.mem_iff]
  split
  · rename_i hmem
    refine ⟨s.setPending i (.new added), hlock.bind ?_, ⟨h.rooms, h.pending.insert p, h.links,
      h.pendingIp, rfl, h.totalRoomCount, h.regShards⟩⟩
    rw [if_pos hmem]
    exact (runs_unlockHeld now s i _ added).bind (Runs.pure _ le_rfl)
  · rename_i hmem
    split
    · rename_i hfull
      have hunlock := runs_unlockHeld now s i { s.pendingShards i with locked := true }
        (s.pendingShards i).value
      rw [setPending_self (h.pending.unlocked _)] at hunlock
      refine ⟨s, hlock.bind ?_, h⟩
      rw [if_neg hmem]
      refine runs_loadPendingTotal.bind ?_
      rw [if_pos (show (s.setPending i _).pendingTotal ≥ cfg.maxPendingGlobal from hfull)]
      exact hunlock.bind (Runs.pure _ le_rfl)
    · rename_i hfull
      set counted : Globals := { s with
        pendingTotal := s.pendingTotal + 1
        pendingIp := s.pendingIp.incr (ipKey src) } with hcounted
      refine ⟨counted.setPending i (.new added), hlock.bind ?_, ⟨h.rooms, h.pending.insert p, h.links,
        h.pendingIp.incr _, rfl, h.totalRoomCount, h.regShards⟩⟩
      rw [if_neg hmem]
      refine runs_loadPendingTotal.bind ?_
      rw [if_neg (show ¬ (s.setPending i _).pendingTotal ≥ cfg.maxPendingGlobal from hfull)]
      refine runs_addPendingTotal.bind ((runs_addPendingIp _).bind ?_)
      exact (runs_unlockHeld now counted i _ added).bind (Runs.pure _ le_rfl)

theorem Represents.deletePendingReg (h : Represents s T R) (room : Room) (src : SocketAddr)
    (now : Instant) :
    ∃ s', Runs (deletePendingReg room src) now s () now s' ∧
      Represents s' (T.deletePendingReg room src) R := by
  have hlock := runs_lockPending (t := now) (h.pending.unlocked (shardIdx room numShards))
  set i := shardIdx room numShards with hi
  set erased := (s.pendingShards i).value.erase (room, src) with herased
  unfold Tables.deletePendingReg
  simp only [← h.pendingTotal, ← h.pending.mem_iff]
  split
  · rename_i hmem
    set counted : Globals := { s with
      pendingTotal := fetchSub s.pendingTotal 1
      pendingIp := s.pendingIp.decr (ipKey src) } with hcounted
    refine ⟨counted.setPending i (.new erased), hlock.bind ?_, ⟨h.rooms, h.pending.erase, h.links, ?_,
      rfl, h.totalRoomCount, h.regShards⟩⟩
    · rw [if_pos hmem]
      refine (runs_subPendingTotal 1).bind ((runs_removePendingIp _).bind ?_)
      exact runs_unlockHeld now counted i _ erased
    · exact h.pendingIp.foldl_decr (List.Perm.refl [ipKey src])
  · rename_i hmem
    have hunlock := runs_unlockHeld now s i { s.pendingShards i with locked := true }
      (s.pendingShards i).value
    rw [setPending_self (h.pending.unlocked _)] at hunlock
    refine ⟨s, hlock.bind ?_, h⟩
    rw [if_neg hmem]
    exact hunlock

/-! ### `handle_reg` -/

theorem Represents.challengeUnknown (h : Represents s T R) (cfg : Config) (room : Room)
    (src : SocketAddr) (clock : Clock) (rnd : Cookie) (hle : now ≤ clock.stamp) :
    ∃ s', Runs (challengeUnknown cfg room src) now s (T.challengeUnknown cfg room src clock rnd).2
        clock.log s' ∧ Represents s' (T.challengeUnknown cfg room src clock rnd).1 R := by
  have hcount : T.pendingCountForIp (ipKey src) = (s.pendingIp.lookup (ipKey src)).getD 0 :=
    (h.pendingIp (ipKey src)).symm
  unfold Tables.challengeUnknown
  simp only [hcount]
  split
  · rename_i hcapped
    refine ⟨s, (runs_pendingCountForIp _).bind ?_, h⟩
    rw [if_pos hcapped]
    exact Runs.pure _ (hle.trans clock.stamp_le_log)
  · rename_i hcapped
    obtain ⟨s', hstore, hrep⟩ := h.storePendingReg cfg room src
      { cookie := rnd, createdAt := clock.stamp, resolvedAddr := src } clock.stamp
    refine ⟨s', (runs_pendingCountForIp _).bind ?_, ?_⟩
    · rw [if_neg hcapped]
      refine (runs_randomCookie rnd).bind ((runs_now hle).bind (hstore.bind ?_))
      split
      · exact Runs.pure _ clock.stamp_le_log
      · exact Runs.pure _ clock.stamp_le_log
    · split
      · exact hrep
      · exact hrep

/-- The entry of a room that the tables have, behind its handle. -/
theorem Represents.exists_handle (h : Represents s T R) {entry : RoomEntry}
    (hroom : T.room? room = some entry) :
    ∃ handle, (s.shards (shardIdx room numShards)).value.lookup room = some handle ∧
      s.heap[handle]? = some (.new entry) := by
  cases hlookup : (s.shards (shardIdx room numShards)).value.lookup room with
  | none =>
      have hnone : T.room? room = none := h.rooms.missing _ room hlookup
      rw [hroom] at hnone
      cases hnone
  | some handle =>
      obtain ⟨found, hcell, hfound⟩ := h.rooms.found _ room handle hlookup
      have hentry : T.room? room = some found := hfound
      rw [hroom] at hentry
      obtain rfl := Option.some.inj hentry
      exact ⟨handle, rfl, hcell⟩

theorem Represents.lookup_eq_none (h : Represents s T R) (hroom : T.room? room = none) :
    (s.shards (shardIdx room numShards)).value.lookup room = none := by
  cases hlookup : (s.shards (shardIdx room numShards)).value.lookup room with
  | none => rfl
  | some handle =>
      obtain ⟨found, -, hfound⟩ := h.rooms.found _ room handle hlookup
      have hentry : T.room? room = some found := hfound
      rw [hroom] at hentry
      cases hentry

theorem Represents.regInitial (h : Represents s T R) (cfg : Config) (room : Room) (src : SocketAddr)
    (clock : Clock) (rnd : Cookie) :
    ∃ s', Runs (regInitial cfg room src) clock.limit s (T.regInitial cfg room src clock rnd).2
        clock.log s' ∧ Represents s' (T.regInitial cfg room src clock rnd).1 R := by
  have hlog := clock.limit_le_log
  unfold Tables.regInitial
  rw [← h.links.countIpRooms]
  split
  · rename_i hcapped
    refine ⟨s, (runs_countIpRooms _).bind ?_, h⟩
    rw [if_pos hcapped]
    exact Runs.pure _ hlog
  · rename_i hcapped
    cases hroom : T.room? room with
    | none =>
        obtain ⟨s', hruns, hrep⟩ := h.challengeUnknown cfg room src clock rnd clock.limit_le_stamp
        refine ⟨s', (runs_countIpRooms _).bind ?_, hrep⟩
        rw [if_neg hcapped]
        refine h.findRoom.bind ?_
        rw [h.lookup_eq_none hroom]
        exact hruns
    | some entry =>
        obtain ⟨handle, hlookup, hcell⟩ := h.exists_handle hroom
        have hcount : T.pendingCountForIp (ipKey src) = (s.pendingIp.lookup (ipKey src)).getD 0 :=
          (h.pendingIp (ipKey src)).symm
        have hbody : ∀ s₁ : Globals, s₁.ipCounts = s.ipCounts → s₁.pendingIp = s.pendingIp →
            RunsAs (regInRoom cfg room src) clock.elapsed s₁ entry clock.log
              (entry.regSection cfg room src clock rnd (T.pendingCountForIp (ipKey src)) s.ipCounts) := by
          intro s₁ hlinks hpending
          rw [hcount, ← hlinks, ← hpending]
          exact runs_regInRoom entry clock rnd
        obtain ⟨s', hruns, hrep⟩ := h.inRoom hlookup hcell hbody
          (h.links.regSection cfg room src clock rnd _ entry)
        refine ⟨s', (runs_countIpRooms _).bind ?_, hrep⟩
        rw [if_neg hcapped]
        refine h.findRoom.bind ?_
        rw [hlookup]
        exact hruns.mono clock.limit_le le_rfl

theorem Represents.regWithCookie (h : Represents s T R) (cfg : Config) (room : Room)
    (cookieBytes : Bytes) (src : SocketAddr) (clock : Clock) (rnd : Cookie) :
    ∃ s', Runs (regWithCookie cfg room cookieBytes src) clock.limit s
        (T.regWithCookie cfg room cookieBytes src clock rnd).2 clock.log s' ∧
      Represents s' (T.regWithCookie cfg room cookieBytes src clock rnd).1 R := by
  have hlog := clock.limit_le_log
  have helapsed := clock.elapsed_le_log
  unfold Tables.regWithCookie
  cases hpend : T.getPendingReg room src with
  | some pend =>
      dsimp only
      split
      · rename_i hmismatch
        refine ⟨s, h.getPendingReg.bind ?_, h⟩
        rw [hpend]
        dsimp only
        rw [if_pos hmismatch]
        exact Runs.pure _ hlog
      · rename_i hmatch
        split
        · rename_i hexpired
          obtain ⟨s', hdelete, hrep⟩ := h.deletePendingReg room src clock.elapsed
          refine ⟨s', h.getPendingReg.bind ?_, hrep⟩
          rw [hpend]
          dsimp only
          rw [if_neg hmatch]
          refine (runs_now clock.limit_le).bind ?_
          rw [if_pos hexpired]
          exact hdelete.bind (Runs.pure _ helapsed)
        · rename_i hfresh
          obtain ⟨s₁, hdelete, hrep⟩ := h.deletePendingReg room src clock.elapsed
          obtain ⟨s', hruns, hrep'⟩ := hrep.regCookieCreateOrAdmit cfg room src pend.resolvedAddr clock
          refine ⟨s', h.getPendingReg.bind ?_, hrep'⟩
          rw [hpend]
          dsimp only
          rw [if_neg hmatch]
          refine (runs_now clock.limit_le).bind ?_
          rw [if_neg hfresh]
          exact hdelete.bind hruns
  | none =>
      cases hroom : T.room? room with
      | none =>
          dsimp only
          rw [← h.links.countIpRooms]
          split
          · rename_i hcapped
            refine ⟨s, h.getPendingReg.bind ?_, h⟩
            rw [hpend]
            refine h.findRoom.bind ?_
            rw [h.lookup_eq_none hroom]
            refine (runs_countIpRooms _).bind ?_
            rw [if_pos hcapped]
            exact Runs.pure _ hlog
          · rename_i hcapped
            obtain ⟨s', hruns, hrep⟩ := h.challengeUnknown cfg room src clock rnd clock.limit_le_stamp
            refine ⟨s', h.getPendingReg.bind ?_, hrep⟩
            rw [hpend]
            refine h.findRoom.bind ?_
            rw [h.lookup_eq_none hroom]
            refine (runs_countIpRooms _).bind ?_
            rw [if_neg hcapped]
            exact hruns
      | some entry =>
          obtain ⟨handle, hlookup, hcell⟩ := h.exists_handle hroom
          have hbody : ∀ s₁ : Globals, s₁.ipCounts = s.ipCounts → s₁.pendingIp = s.pendingIp →
              RunsAs (cookieInRoom cfg room src cookieBytes) clock.limit s₁ entry clock.log
                (entry.cookieSection cfg room src cookieBytes clock s.ipCounts) := by
            intro s₁ hlinks _
            rw [← hlinks]
            exact runs_cookieInRoom entry cookieBytes clock
          obtain ⟨s', hruns, hrep⟩ := h.inRoom hlookup hcell hbody
            (h.links.cookieSection cfg room src cookieBytes clock entry)
          refine ⟨s', h.getPendingReg.bind ?_, hrep⟩
          rw [hpend]
          refine h.findRoom.bind ?_
          rw [hlookup]
          exact hruns

end Qvole.Relay.Threads
