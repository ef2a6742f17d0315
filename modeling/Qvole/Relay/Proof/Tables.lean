import Qvole.Relay.Proof.Rooms
import Qvole.Relay.Server
import Mathlib.Algebra.BigOperators.Group.Finset.Basic
import Mathlib.Algebra.Order.BigOperators.Group.Finset

/-!
# The room table under its operations

One lemma per operation says what the room table, the IP links and the number of rooms are
afterwards. Rooms sit in the shard their name hashes to, and every operation keeps them there.
-/

namespace Qvole.Relay

open scoped BigOperators

namespace Tables

variable {T : Tables} {room : Room} {now : Instant} {regTtl : Duration}

def Placed (T : Tables) : Prop := ∀ i room, room ∈ T.shards i → shardIdx room numShards = i

def roomCount (T : Tables) : Nat := ∑ i, (T.shards i).size

theorem room?_eq_some_iff (hplaced : T.Placed) {i : Fin numShards} {entry : RoomEntry} :
    (T.shards i).lookup room = some entry ↔
      shardIdx room numShards = i ∧ T.room? room = some entry := by
  constructor
  · intro hlookup
    have hi := hplaced i room (AList.mem_of_lookup hlookup)
    subst hi
    exact ⟨rfl, hlookup⟩
  · rintro ⟨rfl, hroom⟩
    exact hroom

def roomsOf (T : Tables) (ip : IpAddr) : Finset Room :=
  Finset.univ.biUnion fun i => ((T.shards i).retain fun _ entry => entry.ofIp ip).keys.toFinset

theorem mem_roomsOf (hplaced : T.Placed) {ip : IpAddr} :
    room ∈ T.roomsOf ip ↔ ∃ entry, T.room? room = some entry ∧ entry.ofIp ip = true := by
  simp only [roomsOf, Finset.mem_biUnion, Finset.mem_univ, true_and, List.mem_toFinset,
    ← AList.mem_keys, AList.mem_retain, room?_eq_some_iff hplaced]
  constructor
  · rintro ⟨i, entry, ⟨-, hentry⟩, hof⟩
    exact ⟨entry, hentry, hof⟩
  · rintro ⟨entry, hentry, hof⟩
    exact ⟨_, entry, ⟨rfl, hentry⟩, hof⟩

/-! ### Writing one room -/

theorem room?_setRoom (T : Tables) (room room' : Room) (entry : RoomEntry) :
    (T.setRoom room entry).room? room' = if room' = room then some entry else T.room? room' := by
  unfold setRoom room?
  by_cases hshard : shardIdx room' numShards = shardIdx room numShards
  · simp only [hshard, Function.update_self, AList.lookup_insert_ite]
  · have hne : room' ≠ room := fun heq => hshard (heq ▸ rfl)
    simp only [ne_eq, hshard, not_false_eq_true, Function.update_of_ne, if_neg hne]

theorem placed_setRoom (hplaced : T.Placed) (entry : RoomEntry) :
    (T.setRoom room entry).Placed := by
  intro i room' hmem
  unfold setRoom at hmem
  by_cases hi : i = shardIdx room numShards
  · subst hi
    simp only [Function.update_self, AList.mem_insert] at hmem
    rcases hmem with rfl | hold
    · rfl
    · exact hplaced _ room' hold
  · simp only [Function.update_of_ne hi] at hmem
    exact hplaced i room' hmem

theorem sum_size_update (shards : Fin numShards → Table Room RoomEntry) (i : Fin numShards)
    (rooms : Table Room RoomEntry) :
    (∑ j, (Function.update shards i rooms j).size) + (shards i).size =
      (∑ j, (shards j).size) + rooms.size := by
  have hold := Finset.sum_erase_add Finset.univ (fun j => (shards j).size) (Finset.mem_univ i)
  have hnew := Finset.sum_erase_add Finset.univ
    (fun j => (Function.update shards i rooms j).size) (Finset.mem_univ i)
  have hrest : ∑ j ∈ Finset.univ.erase i, (Function.update shards i rooms j).size =
      ∑ j ∈ Finset.univ.erase i, (shards j).size := by
    apply Finset.sum_congr rfl
    intro j hj
    rw [Function.update_of_ne (Finset.ne_of_mem_erase hj)]
  simp only [Function.update_self] at hnew
  omega

theorem roomCount_setRoom (T : Tables) (room : Room) (entry : RoomEntry) :
    (T.setRoom room entry).roomCount =
      T.roomCount + if (T.room? room).isSome then 0 else 1 := by
  have hsum := sum_size_update T.shards (shardIdx room numShards)
    ((T.shards (shardIdx room numShards)).insert room entry)
  rw [AList.size_insert] at hsum
  unfold roomCount setRoom room?
  simp only [AList.lookup_isSome]
  omega

/-! ### Sweeping one shard -/

/-- What a sweep leaves of a room. -/
def sweptRoom (now : Instant) (regTtl : Duration) (room : Room) (entry : RoomEntry) :
    Option RoomEntry :=
  let swept := (entry.removeStaleClients room now regTtl).1
  if swept.evictable now regTtl then none else some swept

theorem evictStaleRooms_lookup (rooms : Table Room RoomEntry) (room : Room) :
    (evictStaleRooms rooms now regTtl).1.lookup room =
      (rooms.lookup room).bind (sweptRoom now regTtl room) := by
  unfold evictStaleRooms
  simp only [AList.lookup_retain, AList.lookup_mapVals]
  cases rooms.lookup room with
  | none => rfl
  | some entry =>
      simp only [Option.map_some, Option.filter_some, Option.bind_some, sweptRoom]
      cases (entry.removeStaleClients room now regTtl).1.evictable now regTtl <;> rfl

theorem evictStaleRooms_size (rooms : Table Room RoomEntry) (now : Instant) (regTtl : Duration) :
    (evictStaleRooms rooms now regTtl).2.1 + (evictStaleRooms rooms now regTtl).1.size =
      rooms.size := by
  have hsplit := AList.size_retain_add (fun _ entry => !entry.evictable now regTtl)
    (rooms.mapVals fun room entry => (entry.removeStaleClients room now regTtl).1)
  simpa [evictStaleRooms] using hsplit

theorem mem_evictStaleRooms_unlinked {rooms : Table Room RoomEntry} {ip : IpAddr} :
    (ip, room) ∈ (evictStaleRooms rooms now regTtl).2.2 ↔
      ∃ entry, rooms.lookup room = some entry ∧
        (ip, room) ∈ (entry.removeStaleClients room now regTtl).2 := by
  unfold evictStaleRooms
  simp only [List.mem_flatMap]
  constructor
  · rintro ⟨⟨room', entry⟩, hmem, hunlinked⟩
    have hroom := (RoomEntry.mem_removeStaleClients_unlinked.mp hunlinked).1
    subst hroom
    exact ⟨entry, AList.lookup_eq_some_iff.mpr hmem, hunlinked⟩
  · rintro ⟨entry, hlookup, hunlinked⟩
    exact ⟨⟨room, entry⟩, AList.lookup_eq_some_iff.mp hlookup, hunlinked⟩

theorem room?_evictShard (T : Tables) (i : Fin numShards) (room : Room) :
    (T.evictShard i now regTtl).1.room? room =
      if shardIdx room numShards = i then (T.room? room).bind (sweptRoom now regTtl room)
      else T.room? room := by
  unfold evictShard room?
  by_cases hi : shardIdx room numShards = i
  · subst hi
    simp only [Function.update_self, evictStaleRooms_lookup, if_true]
  · simp only [ne_eq, hi, not_false_eq_true, Function.update_of_ne, if_false]

theorem room?_evictShard_cases {i : Fin numShards} {after : RoomEntry}
    (h : (T.evictShard i now regTtl).1.room? room = some after) :
    (T.room? room = some after ∧ shardIdx room numShards ≠ i) ∨
      ∃ entry, T.room? room = some entry ∧
        after = (entry.removeStaleClients room now regTtl).1 := by
  rw [room?_evictShard] at h
  by_cases hi : shardIdx room numShards = i
  · rw [if_pos hi, Option.bind_eq_some_iff] at h
    obtain ⟨entry, hentry, hleft⟩ := h
    unfold sweptRoom at hleft
    simp only [Option.ite_none_left_eq_some, Option.some.injEq] at hleft
    exact Or.inr ⟨entry, hentry, hleft.2.symm⟩
  · rw [if_neg hi] at h
    exact Or.inl ⟨h, hi⟩

theorem placed_evictShard (hplaced : T.Placed) (i : Fin numShards) :
    (T.evictShard i now regTtl).1.Placed := by
  intro j room hmem
  unfold evictShard at hmem
  by_cases hj : j = i
  · subst hj
    simp only [Function.update_self] at hmem
    obtain ⟨entry, hlookup⟩ := AList.mem_iff_lookup.mp hmem
    rw [evictStaleRooms_lookup, Option.bind_eq_some_iff] at hlookup
    obtain ⟨old, hold, -⟩ := hlookup
    exact hplaced j room (AList.mem_of_lookup hold)
  · simp only [Function.update_of_ne hj] at hmem
    exact hplaced j room hmem

theorem roomCount_evictShard (T : Tables) (i : Fin numShards) (now : Instant) (regTtl : Duration) :
    (T.evictShard i now regTtl).2 + (T.evictShard i now regTtl).1.roomCount = T.roomCount := by
  have hsum := sum_size_update T.shards i (evictStaleRooms (T.shards i) now regTtl).1
  have hsize := evictStaleRooms_size (T.shards i) now regTtl
  unfold roomCount evictShard
  simp only
  omega

theorem mem_rooms_evictShard (hplaced : T.Placed) {i : Fin numShards} {ip : IpAddr} :
    room ∈ (T.evictShard i now regTtl).1.ipCounts.rooms ip ↔
      room ∈ T.ipCounts.rooms ip ∧ ¬ ∃ entry, shardIdx room numShards = i ∧
        T.room? room = some entry ∧ (ip, room) ∈ (entry.removeStaleClients room now regTtl).2 := by
  unfold evictShard
  simp only [Links.mem_rooms_unlink, mem_evictStaleRooms_unlinked, room?_eq_some_iff hplaced,
    and_assoc]

/-! ### Sweeping all shards -/

/-- The rule for a sweep of several shards: what each shard's sweep keeps, the whole keeps. -/
theorem evictShards_induct {P : Tables → Prop}
    (hstep : ∀ T i, P T → P (Tables.evictShard T i now regTtl).1) (shards : List (Fin numShards))
    (hP : P T) : P (evictShards now regTtl shards T).1 := by
  induction shards generalizing T with
  | nil => exact hP
  | cons i rest ih => exact ih (hstep T i hP)

theorem roomCount_evictShards (shards : List (Fin numShards)) (T : Tables) (now : Instant)
    (regTtl : Duration) :
    (evictShards now regTtl shards T).2 + (evictShards now regTtl shards T).1.roomCount =
      T.roomCount := by
  induction shards generalizing T with
  | nil => simp [evictShards]
  | cons i rest ih =>
      have hfirst := roomCount_evictShard T i now regTtl
      have hrest := ih (T.evictShard i now regTtl).1
      simp only [evictShards]
      omega

theorem room?_evictShards {shards : List (Fin numShards)} (hnodup : shards.Nodup) (T : Tables)
    (room : Room) :
    (evictShards now regTtl shards T).1.room? room =
      if shardIdx room numShards ∈ shards then (T.room? room).bind (sweptRoom now regTtl room)
      else T.room? room := by
  induction shards generalizing T with
  | nil => simp [evictShards]
  | cons i rest ih =>
      obtain ⟨hnotMem, hrest⟩ := List.nodup_cons.mp hnodup
      simp only [evictShards]
      rw [ih hrest, room?_evictShard]
      by_cases hi : shardIdx room numShards = i
      · subst hi
        simp [hnotMem]
      · simp [hi]

@[simp]
theorem room?_subRooms (T : Tables) (n : Nat) (room : Room) :
    (T.subRooms n).room? room = T.room? room := by
  unfold subRooms
  split <;> rfl

@[simp]
theorem shards_subRooms (T : Tables) (n : Nat) : (T.subRooms n).shards = T.shards := by
  unfold subRooms
  split <;> rfl

@[simp]
theorem ipCounts_subRooms (T : Tables) (n : Nat) : (T.subRooms n).ipCounts = T.ipCounts := by
  unfold subRooms
  split <;> rfl

@[simp]
theorem pendingRegs_subRooms (T : Tables) (n : Nat) :
    (T.subRooms n).pendingRegs = T.pendingRegs := by
  unfold subRooms
  split <;> rfl

theorem room?_evictStaleRoomsAll (T : Tables) (room : Room) :
    (T.evictStaleRoomsAll now regTtl).room? room =
      (T.room? room).bind (sweptRoom now regTtl room) := by
  unfold evictStaleRoomsAll
  rw [room?_subRooms, room?_evictShards (List.nodup_finRange numShards), if_pos (List.mem_finRange _)]

theorem room?_resweepIfFull_eq_none (hroom : T.room? room = none) (cfg : Config) (clock : Clock) :
    (T.resweepIfFull cfg room clock).room? room = none := by
  unfold Tables.resweepIfFull
  split
  · rw [room?_subRooms, room?_evictShard, hroom]
    split <;> rfl
  · exact hroom

theorem pending_evictShards (shards : List (Fin numShards)) (T : Tables) (now : Instant)
    (regTtl : Duration) :
    (evictShards now regTtl shards T).1.pendingRegs = T.pendingRegs ∧
      (evictShards now regTtl shards T).1.pendingIp = T.pendingIp ∧
      (evictShards now regTtl shards T).1.pendingTotal = T.pendingTotal ∧
      (evictShards now regTtl shards T).1.totalRoomCount = T.totalRoomCount :=
  evictShards_induct (P := fun T' => T'.pendingRegs = T.pendingRegs ∧ T'.pendingIp = T.pendingIp ∧
      T'.pendingTotal = T.pendingTotal ∧ T'.totalRoomCount = T.totalRoomCount)
    (fun _ _ h => h) shards ⟨rfl, rfl, rfl, rfl⟩

theorem pendingRegs_evictStaleRoomsAll (T : Tables) :
    (T.evictStaleRoomsAll now regTtl).pendingRegs = T.pendingRegs := by
  unfold evictStaleRoomsAll
  rw [pendingRegs_subRooms]
  exact (pending_evictShards _ T now regTtl).1

/-! ### The global pending store -/

/-- Whatever happens in the global pending store, rooms and links stay. -/
structure SameRooms (T T' : Tables) : Prop where
  shards : T'.shards = T.shards
  ipCounts : T'.ipCounts = T.ipCounts
  totalRoomCount : T'.totalRoomCount = T.totalRoomCount

theorem SameRooms.room? {T' : Tables} (h : SameRooms T T') (room : Room) :
    T'.room? room = T.room? room := by
  rw [Tables.room?, Tables.room?, h.shards]

theorem sameRooms_deletePendingReg (T : Tables) (room : Room) (src : SocketAddr) :
    SameRooms T (T.deletePendingReg room src) := by
  unfold deletePendingReg
  split <;> exact ⟨rfl, rfl, rfl⟩

theorem sameRooms_storePendingReg (T : Tables) (cfg : Config) (room : Room) (src : SocketAddr)
    (p : PendingReg) : SameRooms T (T.storePendingReg cfg room src p).1 := by
  unfold storePendingReg
  split
  · exact ⟨rfl, rfl, rfl⟩
  · split <;> exact ⟨rfl, rfl, rfl⟩

theorem sameRooms_removeStalePendingRegs (T : Tables) (now : Instant) :
    SameRooms T (T.removeStalePendingRegs now) := by
  unfold removeStalePendingRegs
  simp only
  split <;> exact ⟨rfl, rfl, rfl⟩

end Tables

end Qvole.Relay
