import Qvole.Relay.Proof.Ledger

/-!
# The counters of the relay

Every handler and every sweep starts with an empty share and ends with one, whatever the others do
between its steps. So no counter is ever too small for what is subtracted from it, and when nothing
is in progress the counters are exact.
-/

namespace Qvole.Relay.Threads

variable {cfg : Config} {room : Room} {src resolved : SocketAddr} {l : Ledger}

/-! ### Global pending store -/

theorem keeps_getPendingReg (room : Room) (src : SocketAddr) (l : Ledger) :
    Keeps (getPendingReg room src) l fun _ l' => l' = l := by
  refine (keeps_lockPending _ l).andThen ?_
  rintro regs l' rfl
  refine (keeps_unlockPending (f := l) rfl).andThen ?_
  rintro - l' rfl
  exact Prog.Safe.pure rfl

theorem keeps_storePendingReg (cfg : Config) (room : Room) (src : SocketAddr) (p : PendingReg)
    (l : Ledger) : Keeps (storePendingReg cfg room src p) l fun _ l' => l' = l := by
  refine (keeps_lockPending _ l).andThen ?_
  rintro regs l' rfl
  split
  · rename_i hmem
    refine (keeps_unlockPending (f := l) (by rw [pendingWorth_replace hmem])).andThen ?_
    rintro - l' rfl
    exact Prog.Safe.pure rfl
  · rename_i hmem
    refine (keeps_neutral .loadPendingTotal rfl _).andThen ?_
    rintro total l' rfl
    split
    · refine (keeps_unlockPending (f := l) rfl).andThen ?_
      rintro - l' rfl
      exact Prog.Safe.pure rfl
    · refine (keeps_addPendingTotal _).andThen ?_
      rintro - l' rfl
      refine (keeps_addPendingIp _ _).andThen ?_
      rintro - l' rfl
      refine (keeps_unlockPending (f := l) ?_).andThen ?_
      · rw [pendingWorth_insert hmem]
        abel
      · rintro - l' rfl
        exact Prog.Safe.pure rfl

theorem keeps_deletePendingReg (room : Room) (src : SocketAddr) (l : Ledger) :
    Keeps (deletePendingReg room src) l fun _ l' => l' = l := by
  refine (keeps_lockPending _ l).andThen ?_
  rintro regs l' rfl
  split
  · rename_i hmem
    -- the share loses what the entry counts for before the guard is dropped
    refine (keeps_subPendingTotal (f := l + (credit (.pendingShard (shardIdx room numShards)) 1 +
      pendingWorth (regs.erase (room, src))) + credit (.ip (ipKey src)) 1) ?_).andThen ?_
    · rw [pendingWorth_erase hmem]
      abel
    rintro - l' rfl
    refine (keeps_removePendingIp rfl).andThen ?_
    rintro - l' rfl
    exact keeps_unlockPending rfl
  · exact keeps_unlockPending rfl

theorem keeps_evictPending (t : Instant) (is : List (Fin numShards)) (l : Ledger) :
    Keeps (evictPending t is) l fun ips l' => l' = l + (credit .pending ips.length + ipsWorth ips) := by
  induction is generalizing l with
  | nil =>
      refine Prog.Safe.pure ?_
      funext account
      cases account <;> simp [ipsWorth]
  | cons i is ih =>
      refine (keeps_lockPending i l).andThen ?_
      rintro regs l' rfl
      refine (keeps_unlockPending (f := l + (credit .pending ((regs.retain fun _ p =>
        p.expired t).keys.map fun key => ipKey key.2).length + ipsWorth ((regs.retain fun _ p =>
        p.expired t).keys.map fun key => ipKey key.2))) ?_).andThen ?_
      · rw [pendingWorth_retain regs fun _ p => p.expired t]
        abel
      rintro - l' rfl
      refine (ih _).andThen ?_
      rintro others l' rfl
      refine Prog.Safe.pure ?_
      rw [List.length_append, credit_add, ipsWorth_append]
      abel

theorem keeps_removePendingIps (ips : List IpAddr) (l : Ledger) :
    Keeps (removePendingIps ips) (l + ipsWorth ips) fun _ l' => l' = l := by
  induction ips with
  | nil =>
      refine Prog.Safe.pure ?_
      funext account
      cases account <;> simp [ipsWorth]
  | cons ip ips ih =>
      refine (keeps_removePendingIp (f := l + ipsWorth ips) ?_).andThen ?_
      · rw [ipsWorth_cons, add_assoc]
      · rintro - l' rfl
        exact ih

theorem keeps_removeStalePendingRegs (t : Instant) (l : Ledger) :
    Keeps (removeStalePendingRegs t) l fun _ l' => l' = l := by
  refine (keeps_evictPending t _ l).andThen ?_
  rintro ips l' rfl
  split
  · rename_i hempty
    rw [List.isEmpty_iff.mp hempty]
    refine Prog.Safe.pure ?_
    funext account
    cases account <;> simp [ipsWorth]
  · refine (keeps_subPendingTotal (f := l + ipsWorth ips) (by abel)).andThen ?_
    rintro - l' rfl
    exact keeps_removePendingIps ips l

/-! ### Room sweeps -/

theorem keeps_removeIpRooms (unlinked : List (IpAddr × Room)) (l : Ledger) :
    Keeps (removeIpRooms unlinked) l fun _ l' => l' = l := by
  induction unlinked with
  | nil => exact Prog.Safe.pure rfl
  | cons link unlinked ih =>
      obtain ⟨ip, room⟩ := link
      refine (keeps_neutral (.removeIpRoom ip room) rfl l).andThen ?_
      rintro - l' rfl
      exact ih

/-- The rooms to remove are rooms of the shard. -/
theorem keeps_sweepEntries (t : Instant) (regTtl : Duration) (entries : List ((_ : Room) × Handle))
    (l : Ledger) : Keeps (sweepEntries t regTtl entries) l fun swept l' =>
      swept.1.Sublist entries.keys ∧ l' = l := by
  induction entries with
  | nil => exact Prog.Safe.pure ⟨.refl [], rfl⟩
  | cons e entries ih =>
      obtain ⟨room, handle⟩ := e
      refine (keeps_lockEntry handle l).andThen ?_
      rintro entry l' ⟨hentry, rfl⟩
      refine (keeps_unlockEntry handle hentry.removeStaleClients _).andThen ?_
      rintro - l' rfl
      refine ih.andThen ?_
      rintro others l' ⟨hsublist, rfl⟩
      refine Prog.Safe.pure ⟨?_, rfl⟩
      rw [List.keys_cons]
      split
      · exact hsublist.cons_cons room
      · exact hsublist.cons room

theorem size_foldl_erase {rooms : Rooms} {toRemove : List Room} (hnodup : toRemove.Nodup)
    (hmem : ∀ room ∈ toRemove, room ∈ rooms) :
    (toRemove.foldl (fun rooms room => rooms.erase room) rooms).size + toRemove.length =
      rooms.size := by
  induction toRemove generalizing rooms with
  | nil => rfl
  | cons room toRemove ih =>
      obtain ⟨hfirst, hnodup⟩ := List.nodup_cons.mp hnodup
      have hrest : ∀ other ∈ toRemove, other ∈ rooms.erase room := by
        intro other hother
        have hne : other ≠ room := fun heq => hfirst (heq ▸ hother)
        exact AList.mem_erase.mpr ⟨hne, hmem other (List.mem_cons_of_mem room hother)⟩
      have hsize := AList.size_erase rooms room
      rw [if_pos (hmem room List.mem_cons_self)] at hsize
      have hih := ih hnodup hrest
      rw [List.foldl_cons, List.length_cons]
      omega

/-- What a sweep reports to have removed is gone, and it adds nothing. -/
theorem keeps_evictStaleRooms (rooms : Rooms) (t : Instant) (regTtl : Duration) (l : Ledger) :
    Keeps (evictStaleRooms rooms t regTtl) l fun result l' =>
      (result.1.size + result.2.1 = rooms.size ∧ ∀ room ∉ rooms, room ∉ result.1) ∧ l' = l := by
  refine (keeps_sweepEntries t regTtl rooms.entries l).andThen ?_
  rintro ⟨toRemove, unlinked⟩ l' ⟨hsublist, rfl⟩
  refine Prog.Safe.pure ⟨⟨?_, ?_⟩, rfl⟩
  · apply size_foldl_erase (hsublist.nodup rooms.nodupKeys)
    intro room hroom
    exact AList.mem_keys.mpr (hsublist.subset hroom)
  · intro room hroom hleft
    obtain ⟨handle, hlookup⟩ := AList.mem_iff_lookup.mp hleft
    rw [AList.lookup_foldl_erase] at hlookup
    split at hlookup
    · cases hlookup
    · exact hroom (AList.mem_of_lookup hlookup)

theorem keeps_evictShards (t : Instant) (regTtl : Duration) (is : List (Fin numShards)) (total : Nat)
    (l : Ledger) : Keeps (evictShards t regTtl is total) (l + credit .rooms total) fun total' l' =>
      l' = l + credit .rooms total' := by
  induction is generalizing total with
  | nil => exact Prog.Safe.pure rfl
  | cons i is ih =>
      refine (keeps_lockShard i _).andThen ?_
      rintro rooms l' rfl
      refine (keeps_evictStaleRooms rooms t regTtl _).andThen ?_
      rintro ⟨left, n, unlinked⟩ l' ⟨⟨hsize, -⟩, rfl⟩
      refine (keeps_removeIpRooms unlinked _).andThen ?_
      rintro - l' rfl
      refine (keeps_unlockShard (f := l + credit .rooms (total + n)) ?_).andThen ?_
      · rw [roomsWorth_add hsize, credit_add]
        abel
      · rintro - l' rfl
        exact ih (total + n)

theorem keeps_subRooms (n : Nat) (l : Ledger) :
    Keeps (subRooms n) (l + credit .rooms n) fun _ l' => l' = l := by
  unfold subRooms
  split
  · exact keeps_subRoomCount rfl
  · rename_i hzero
    obtain rfl : n = 0 := by omega
    refine Prog.Safe.pure ?_
    rw [credit_zero, add_zero]

theorem keeps_evictStaleRoomsAll (t : Instant) (regTtl : Duration) (l : Ledger) :
    Keeps (evictStaleRoomsAll t regTtl) l fun _ l' => l' = l := by
  have hshards := keeps_evictShards t regTtl (List.finRange numShards) 0 l
  rw [credit_zero, add_zero] at hshards
  refine hshards.andThen ?_
  rintro total l' rfl
  exact keeps_subRooms total l

/-! ### Registration -/

theorem keeps_addClient {entry : RoomEntry} (hentry : entry.Tallied) (src resolved : SocketAddr)
    (l : Ledger) : Keeps (addClient entry src resolved) l fun admitted l' =>
      admitted.Tallied ∧ l' = l := by
  refine (keeps_neutral .now rfl l).andThen ?_
  rintro lastSeen l' rfl
  refine (keeps_neutral .now rfl _).andThen ?_
  rintro windowStart l' rfl
  refine (keeps_neutral .now rfl _).andThen ?_
  rintro touched l' rfl
  exact Prog.Safe.pure ⟨hentry, rfl⟩

theorem keeps_sweepEntry {entry : RoomEntry} (hentry : entry.Tallied) (cfg : Config) (room : Room)
    (l : Ledger) : Keeps (sweepEntry cfg room entry) l fun swept l' => swept.Tallied ∧ l' = l := by
  refine (keeps_neutral .now rfl l).andThen ?_
  rintro t l' rfl
  refine (keeps_removeIpRooms _ _).andThen ?_
  rintro - l' rfl
  exact Prog.Safe.pure ⟨hentry.removeStaleClients, rfl⟩

/-- The sweep of one shard under its guard: the counter follows at once. -/
theorem keeps_resweepIfFull (cfg : Config) (rooms : Rooms) (l : Ledger) :
    Keeps (resweepIfFull cfg rooms) (l + roomsWorth rooms) fun left l' =>
      (∀ room ∉ rooms, room ∉ left) ∧ l' = l + roomsWorth left := by
  refine (keeps_neutral .loadRoomCount rfl _).andThen ?_
  rintro total l' rfl
  split
  · refine (keeps_neutral .now rfl _).andThen ?_
    rintro t l' rfl
    refine (keeps_evictStaleRooms rooms t cfg.regTtl _).andThen ?_
    rintro ⟨left, n, unlinked⟩ l' ⟨⟨hsize, hleft⟩, rfl⟩
    rw [roomsWorth_add hsize, ← add_assoc]
    refine (keeps_subRooms n _).andThen ?_
    rintro - l' rfl
    refine (keeps_removeIpRooms unlinked _).andThen ?_
    rintro - l' rfl
    exact Prog.Safe.pure ⟨hleft, rfl⟩
  · exact Prog.Safe.pure ⟨fun _ hroom => hroom, rfl⟩

theorem keeps_createRoom (cfg : Config) {rooms : Rooms} (hroom : room ∉ rooms)
    (src resolved : SocketAddr) (l : Ledger) :
    Keeps (createRoom cfg rooms room src resolved) (l + roomsWorth rooms) fun result l' =>
      l' = l + roomsWorth result.1 := by
  refine (keeps_resweepIfFull cfg rooms l).andThen ?_
  rintro left l' ⟨hleft, rfl⟩
  refine (keeps_neutral .loadRoomCount rfl _).andThen ?_
  rintro again l' rfl
  split
  · exact Prog.Safe.pure rfl
  refine (keeps_neutral (.countIpRooms (ipKey src)) rfl _).andThen ?_
  rintro linked l' rfl
  split
  · exact Prog.Safe.pure rfl
  refine (keeps_neutral .now rfl _).andThen ?_
  rintro created l' rfl
  refine (keeps_addClient (RoomEntry.tallied_new created) src resolved _).andThen ?_
  rintro entry l' ⟨hentry, rfl⟩
  refine (keeps_newEntry hentry _).andThen ?_
  rintro handle l' rfl
  refine (keeps_addRoomCount _).andThen ?_
  rintro - l' rfl
  refine (keeps_neutral (.addIpRoom (ipKey src) room) rfl _).andThen ?_
  rintro - l' rfl
  refine Prog.Safe.pure ?_
  rw [roomsWorth_insert (hleft room hroom), add_assoc]

/-- A section under the guard of an entry: it leaves the entry tallied, and the books alone. -/
def Section (body : RoomEntry → Code (RoomEntry × RegAction)) : Prop :=
  ∀ entry l, entry.Tallied → Keeps (body entry) l fun result l' => result.1.Tallied ∧ l' = l

theorem keeps_linkIp (ip : IpAddr) (room : Room) (already : Bool) (l : Ledger) :
    Keeps (linkIp ip room already) l fun _ l' => l' = l := by
  unfold linkIp
  split
  · exact Prog.Safe.pure rfl
  · exact keeps_neutral (.addIpRoom ip room) rfl l

theorem keeps_ipCapped (cfg : Config) (ip : IpAddr) (already : Bool) (l : Ledger) :
    Keeps (ipCapped cfg ip already) l fun _ l' => l' = l := by
  unfold ipCapped
  split
  · exact Prog.Safe.pure rfl
  · refine (keeps_neutral (.countIpRooms ip) rfl l).andThen ?_
    rintro linked l' rfl
    exact Prog.Safe.pure rfl

theorem section_admitInRoom (cfg : Config) (room : Room) (src resolved : SocketAddr) :
    Section (admitInRoom cfg room src resolved) := by
  intro entry l hentry
  refine (keeps_sweepEntry hentry cfg room l).andThen ?_
  rintro swept l' ⟨hswept, rfl⟩
  dsimp only
  split
  · exact Prog.Safe.pure ⟨hswept, rfl⟩
  refine (keeps_ipCapped cfg (ipKey src) _ _).andThen ?_
  rintro capped l' rfl
  split
  · exact Prog.Safe.pure ⟨hswept, rfl⟩
  split
  · exact Prog.Safe.pure ⟨hswept, rfl⟩
  refine (keeps_addClient hswept src resolved _).andThen ?_
  rintro admitted l' ⟨hadmitted, rfl⟩
  refine (keeps_linkIp (ipKey src) room _ _).andThen ?_
  rintro - l' rfl
  exact Prog.Safe.pure ⟨hadmitted, rfl⟩

theorem section_cookieInRoom (cfg : Config) (room : Room) (src : SocketAddr) (cookieBytes : Bytes) :
    Section (cookieInRoom cfg room src cookieBytes) := by
  intro entry l hentry
  unfold cookieInRoom
  split
  · exact Prog.Safe.pure ⟨hentry, rfl⟩
  split
  · exact Prog.Safe.pure ⟨hentry, rfl⟩
  refine (keeps_neutral .now rfl l).andThen ?_
  rintro t l' rfl
  split
  · exact Prog.Safe.pure ⟨hentry.removePending src, rfl⟩
  refine (keeps_sweepEntry hentry cfg room _).andThen ?_
  rintro swept l' ⟨hswept, rfl⟩
  refine (keeps_ipCapped cfg (ipKey src) _ _).andThen ?_
  rintro capped l' rfl
  split
  · exact Prog.Safe.pure ⟨hswept, rfl⟩
  split
  · exact Prog.Safe.pure ⟨hswept, rfl⟩
  split
  · exact Prog.Safe.pure ⟨hswept, rfl⟩
  refine (keeps_addClient (hswept.removePending src) src _ _).andThen ?_
  rintro admitted l' ⟨hadmitted, rfl⟩
  refine (keeps_linkIp (ipKey src) room _ _).andThen ?_
  rintro - l' rfl
  exact Prog.Safe.pure ⟨hadmitted, rfl⟩

theorem section_regInRoom (cfg : Config) (room : Room) (src : SocketAddr) :
    Section (regInRoom cfg room src) := by
  intro entry l hentry
  refine (keeps_sweepEntry hentry cfg room l).andThen ?_
  rintro swept l' ⟨hswept, rfl⟩
  split
  · exact Prog.Safe.pure ⟨hswept, rfl⟩
  split
  · refine (keeps_neutral .now rfl _).andThen ?_
    rintro t l' rfl
    exact Prog.Safe.pure ⟨hswept, rfl⟩
  split
  · rename_i pend hpend
    refine (keeps_neutral .now rfl _).andThen ?_
    rintro t l' rfl
    refine Prog.Safe.pure ⟨?_, rfl⟩
    -- the key was there, so no count changes
    refine AList.Tallies.congr hswept fun ip => ?_
    simp [AList.countKeys_insert, AList.mem_of_lookup hpend]
  refine (keeps_neutral (.pendingCountForIp (ipKey src)) rfl _).andThen ?_
  rintro waiting l' rfl
  split
  · exact Prog.Safe.pure ⟨hswept, rfl⟩
  refine (keeps_neutral .randomCookie rfl _).andThen ?_
  rintro cookie l' rfl
  refine (keeps_neutral .now rfl _).andThen ?_
  rintro t l' rfl
  exact Prog.Safe.pure ⟨hswept.addPending src _ _, rfl⟩

theorem keeps_findRoom (room : Room) (l : Ledger) :
    Keeps (findRoom room) l fun _ l' => l' = l := by
  refine (keeps_lockShard _ l).andThen ?_
  rintro rooms l' rfl
  refine (keeps_unlockShard (f := l) rfl).andThen ?_
  rintro - l' rfl
  exact Prog.Safe.pure rfl

theorem keeps_inRoom (room : Room) (handle : Handle)
    {body : RoomEntry → Code (RoomEntry × RegAction)} (hbody : Section body) (l : Ledger) :
    Keeps (inRoom room handle body) l fun _ l' => l' = l := by
  refine (keeps_lockShard _ l).andThen ?_
  rintro rooms l' rfl
  refine (keeps_lockEntry handle _).andThen ?_
  rintro entry l' ⟨hentry, rfl⟩
  refine (hbody entry _ hentry).andThen ?_
  rintro ⟨entry, action⟩ l' ⟨hentry, rfl⟩
  refine (keeps_unlockEntry handle hentry _).andThen ?_
  rintro - l' rfl
  refine (keeps_unlockShard (f := l) rfl).andThen ?_
  rintro - l' rfl
  exact Prog.Safe.pure rfl

theorem keeps_sweepIfFull (cfg : Config) (l : Ledger) :
    Keeps (sweepIfFull cfg) l fun _ l' => l' = l := by
  refine (keeps_neutral .loadRoomCount rfl l).andThen ?_
  rintro total l' rfl
  split
  · refine (keeps_neutral .now rfl _).andThen ?_
    rintro t l' rfl
    exact keeps_evictStaleRoomsAll t cfg.regTtl _
  · exact Prog.Safe.pure rfl

theorem keeps_regCookieCreateOrAdmit (cfg : Config) (room : Room) (src resolved : SocketAddr)
    (l : Ledger) : Keeps (regCookieCreateOrAdmit cfg room src resolved) l fun _ l' => l' = l := by
  refine (keeps_sweepIfFull cfg l).andThen ?_
  rintro - l' rfl
  refine (keeps_lockShard _ _).andThen ?_
  rintro rooms l'' rfl
  split
  · rename_i hnone
    have hroom : room ∉ rooms := by
      intro hmem
      obtain ⟨handle, hsome⟩ := AList.mem_iff_lookup.mp hmem
      rw [hnone] at hsome
      cases hsome
    rw [← add_assoc]
    refine (keeps_createRoom cfg hroom src resolved _).andThen ?_
    rintro ⟨left, action⟩ l'' rfl
    refine (keeps_unlockShard (f := l') (add_assoc _ _ _)).andThen ?_
    rintro - l'' rfl
    exact Prog.Safe.pure rfl
  · rename_i handle hhandle
    refine (keeps_lockEntry handle _).andThen ?_
    rintro entry l'' ⟨hentry, rfl⟩
    refine (section_admitInRoom cfg room src resolved entry _ hentry).andThen ?_
    rintro ⟨entry, action⟩ l'' ⟨hentry, rfl⟩
    refine (keeps_unlockEntry handle hentry _).andThen ?_
    rintro - l'' rfl
    refine (keeps_unlockShard (f := l') rfl).andThen ?_
    rintro - l'' rfl
    exact Prog.Safe.pure rfl

theorem keeps_challengeUnknown (cfg : Config) (room : Room) (src : SocketAddr) (l : Ledger) :
    Keeps (challengeUnknown cfg room src) l fun _ l' => l' = l := by
  refine (keeps_neutral (.pendingCountForIp (ipKey src)) rfl l).andThen ?_
  rintro waiting l' rfl
  split
  · exact Prog.Safe.pure rfl
  refine (keeps_neutral .randomCookie rfl _).andThen ?_
  rintro cookie l' rfl
  refine (keeps_neutral .now rfl _).andThen ?_
  rintro t l' rfl
  refine (keeps_storePendingReg cfg room src _ _).andThen ?_
  rintro stored l' rfl
  exact Prog.Safe.pure rfl

theorem keeps_regWithCookie (cfg : Config) (room : Room) (cookieBytes : Bytes) (src : SocketAddr)
    (l : Ledger) : Keeps (regWithCookie cfg room cookieBytes src) l fun _ l' => l' = l := by
  refine (keeps_getPendingReg room src l).andThen ?_
  rintro pend l' rfl
  split
  · split
    · exact Prog.Safe.pure rfl
    refine (keeps_neutral .now rfl _).andThen ?_
    rintro t l' rfl
    split
    · refine (keeps_deletePendingReg room src _).andThen ?_
      rintro - l' rfl
      exact Prog.Safe.pure rfl
    · refine (keeps_deletePendingReg room src _).andThen ?_
      rintro - l' rfl
      exact keeps_regCookieCreateOrAdmit cfg room src _ _
  · refine (keeps_findRoom room _).andThen ?_
    rintro found l' rfl
    split
    · refine (keeps_neutral (.countIpRooms (ipKey src)) rfl _).andThen ?_
      rintro linked l' rfl
      split
      · exact Prog.Safe.pure rfl
      · exact keeps_challengeUnknown cfg room src _
    · exact keeps_inRoom room _ (section_cookieInRoom cfg room src cookieBytes) _

theorem keeps_regInitial (cfg : Config) (room : Room) (src : SocketAddr) (l : Ledger) :
    Keeps (regInitial cfg room src) l fun _ l' => l' = l := by
  refine (keeps_neutral (.countIpRooms (ipKey src)) rfl l).andThen ?_
  rintro linked l' rfl
  split
  · exact Prog.Safe.pure rfl
  refine (keeps_findRoom room _).andThen ?_
  rintro found l' rfl
  split
  · exact keeps_challengeUnknown cfg room src _
  · exact keeps_inRoom room _ (section_regInRoom cfg room src) _

theorem keeps_handleReg (cfg : Config) (room : Room) (cookie : Bytes) (src : SocketAddr)
    (l : Ledger) : Keeps (handleReg cfg room cookie src) l fun _ l' => l' = l := by
  have hlimit : Keeps (isRegRateLimited cfg src) l fun _ l' => l' = l := by
    refine (keeps_neutral .now rfl l).andThen ?_
    rintro t l' rfl
    exact keeps_neutral (.isLimited src t cfg.rateWindow (regRate cfg)) rfl _
  refine hlimit.andThen ?_
  rintro limited l' rfl
  split
  · exact Prog.Safe.pure rfl
  split
  · exact keeps_regInitial cfg room src _
  split
  · exact Prog.Safe.pure rfl
  split
  · exact Prog.Safe.pure rfl
  · exact keeps_regWithCookie cfg room _ src _

/-! ### Messages and ticks -/

theorem keeps_handleMsg (cfg : Config) (payload : Bytes) (src : SocketAddr) (l : Ledger) :
    Keeps (handleMsg cfg payload src) l fun _ l' => l' = l := by
  unfold handleMsg
  split
  · exact Prog.Safe.pure rfl
  refine (keeps_findRoom _ l).andThen ?_
  rintro found l' rfl
  split
  · exact Prog.Safe.pure rfl
  refine (keeps_lockEntry _ _).andThen ?_
  rintro entry l' ⟨hentry, rfl⟩
  split
  · refine (keeps_unlockEntry _ hentry _).andThen ?_
    rintro - l' rfl
    exact Prog.Safe.pure rfl
  · refine (keeps_neutral .now rfl _).andThen ?_
    rintro t l' rfl
    dsimp only
    -- a message changes the rate limit of a client and nothing that is counted
    refine (keeps_unlockEntry _ (by exact hentry) _).andThen ?_
    rintro - l' rfl
    exact Prog.Safe.pure rfl

theorem keeps_rateTick (cfg : Config) (l : Ledger) : Keeps (rateTick cfg) l fun _ l' => l' = l := by
  unfold rateTick
  induction List.finRange numRegShards with
  | nil => exact Prog.Safe.pure rfl
  | cons i is ih =>
      refine (keeps_neutral .now rfl l).andThen ?_
      rintro t l' rfl
      refine (keeps_neutral (.cleanupStale i t (cfg.rateWindow * 2)) rfl _).andThen ?_
      rintro - l' rfl
      exact ih

theorem keeps_roomTick (cfg : Config) (l : Ledger) : Keeps (roomTick cfg) l fun _ l' => l' = l := by
  refine (keeps_neutral .now rfl l).andThen ?_
  rintro t l' rfl
  refine (keeps_evictStaleRoomsAll t cfg.regTtl _).andThen ?_
  rintro - l' rfl
  refine (keeps_neutral .now rfl _).andThen ?_
  rintro later l' rfl
  exact keeps_removeStalePendingRegs later _

theorem keeps_code (cfg : Config) (job : Job) : Keeps (code cfg job) 0 fun _ l' => l' = 0 := by
  cases job with
  | packet data src =>
      change Keeps (handlePacket cfg data src) 0 _
      unfold handlePacket
      split
      · exact Prog.Safe.pure rfl
      · refine (keeps_handleReg cfg _ _ src 0).andThen ?_
        rintro action l' rfl
        exact Prog.Safe.pure rfl
      · exact keeps_handleMsg cfg _ src 0
  | roomTick =>
      refine (keeps_roomTick cfg 0).andThen ?_
      rintro - l' rfl
      exact Prog.Safe.pure rfl
  | rateTick =>
      refine (keeps_rateTick cfg 0).andThen ?_
      rintro - l' rfl
      exact Prog.Safe.pure rfl

/-! ### Every interleaving -/

/-- The counters are the numbers of entries, and an IP without entries has no counter. -/
structure Exact (s : Globals) : Prop where
  rooms : s.totalRoomCount = ∑ i, (s.shards i).value.size
  pending : s.pendingTotal = ∑ i, (s.pendingShards i).value.size
  ip : s.pendingIp.Tallies fun ip =>
    ∑ i, (s.pendingShards i).value.countKeys fun key => ipKey key.2 = ip

theorem free_guard {α : Type} {worth : α → Ledger} {cell : Mutex α} (h : cell.locked = false) :
    cell.free worth = worth cell.value := by
  rw [Mutex.free, h]
  rfl

/-- With no share left, no guard is held and the counters are exact. -/
theorem Balanced.exact {s : Globals} (h : Balanced s 0) : Exact s := by
  have hcounters : s.counters = s.stored := by rw [h.counters, add_zero]
  have hguard : ∀ account, (∀ rooms, roomsWorth rooms account = 0) →
      (∀ regs, pendingWorth regs account = 0) → s.counters account = 0 := by
    intro account hrooms hregs
    rw [hcounters, Globals.stored, Pi.add_apply, Finset.sum_apply, Finset.sum_apply]
    have hfree : ∀ {α : Type} (worth : α → Ledger) (cell : Mutex α),
        (∀ value, worth value account = 0) → cell.free worth account = 0 := by
      intro α worth cell hworth
      unfold Mutex.free
      split
      · rfl
      · exact hworth cell.value
    simp [hfree _ _ hrooms, hfree _ _ hregs]
  have hshards : ∀ i, (s.shards i).locked = false := by
    intro i
    have hzero := hguard (.shard i) (fun _ => credit_of_ne (by simp) _) fun _ => rfl
    by_contra hlocked
    simp [Globals.counters, hlocked] at hzero
  have hpending : ∀ i, (s.pendingShards i).locked = false := by
    intro i
    have hzero := hguard (.pendingShard i) (fun _ => credit_of_ne (by simp) _) fun _ => rfl
    by_contra hlocked
    simp [Globals.counters, hlocked] at hzero
  have hstored : s.counters = ∑ i, roomsWorth (s.shards i).value +
      ∑ i, pendingWorth (s.pendingShards i).value := by
    rw [hcounters, Globals.stored]
    simp only [free_guard (hshards _), free_guard (hpending _)]
  have haccount := fun account => congrFun hstored account
  simp only [Pi.add_apply, Finset.sum_apply] at haccount
  refine ⟨?_, ?_, h.pendingIp.congr fun ip => ?_⟩
  · simpa [Globals.counters, roomsWorth, pendingWorth] using haccount .rooms
  · simpa [Globals.counters, roomsWorth, pendingWorth] using haccount .pending
  · simpa [Globals.counters, roomsWorth, pendingWorth] using haccount (.ip ip)

theorem balanced_empty : Balanced .empty 0 := by
  refine ⟨?_, AList.tallies_empty fun _ => rfl, by simp [Globals.empty]⟩
  have hrooms : roomsWorth ∅ = 0 := by rw [roomsWorth, AList.size_empty, credit_zero]
  have hpending : pendingWorth ∅ = 0 := by
    funext account
    cases account <;> rfl
  funext account
  simp only [Globals.stored, Globals.empty, Mutex.free, Mutex.new, Bool.false_eq_true, if_false,
    hrooms, hpending, Finset.sum_const_zero, add_zero]
  cases account <;> rfl

variable {history : List (Machine.Record (Pool Op Op.Ret Globals (List Reply))
    (Schedule Job Input) Op)} {pool : Pool Op Op.Ret Globals (List Reply)} {time : Nat}

/-- **Counter conservation.** However the steps of any number of handlers and sweeps interleave, no
subtraction from a counter takes more than there is, the counters are exact whenever nothing is in
progress, and the per-IP counts of every room are at all times those of its pending map. -/
theorem counters_conserved (hrun : Machine.Run (machine cfg) history pool time) :
    (∀ r ∈ history, ∀ o ∈ r.sent, o.Covered r.before.state) ∧
      (pool.quiet = true → Exact pool.state) ∧
      ∀ cell ∈ pool.state.heap, cell.value.Tallied ∧
        ∀ src ∈ cell.value.pending, 1 ≤ cell.value.pendingCountForIp (ipKey src) := by
  obtain ⟨⟨shares, hbalanced⟩, hquiet, hcovered⟩ :=
    memory.run_books (keeps_code cfg) balanced_empty hrun
  refine ⟨hcovered, fun h => (hquiet h).exact, fun cell hcell => ?_⟩
  have htallied := hbalanced.tallied cell hcell
  exact ⟨htallied, fun src hsrc => htallied.one_le hsrc⟩

def crossInput (now : Nat) : Input := ⟨now, ⟨List.replicate 16 0, rfl⟩⟩

/-- A first `REG` and a tick of the room sweep, advanced in turns until both are done. -/
def crossSchedule : List (Schedule Job Input) :=
  [.spawn (.packet (ascii "REG room1") (.v4 ⟨127, 0, 0, 1⟩ 4000)), .spawn .roomTick] ++
    (List.replicate 80 [.advance 0 (crossInput 5), .advance 1 (crossInput 7)]).flatten

def crossed : Pool Op Op.Ret Globals (List Reply) :=
  (machine .defaults).exec (machine .defaults).init crossSchedule

theorem counters_conserved_crossed :
    crossed.quiet = true ∧ crossed.state.pendingTotal = 1 ∧ Exact crossed.state := by
  have hquiet : crossed.quiet = true := by decide +kernel
  have hrun := Machine.run_exec _ (memory.ordered .empty (code .defaults) crossSchedule)
  exact ⟨hquiet, by decide +kernel, (counters_conserved hrun).2.1 hquiet⟩

end Qvole.Relay.Threads
