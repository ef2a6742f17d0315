import Qvole.Relay.Proof.Alone
import Qvole.Relay.Proof.Tables

/-!
# The memory of the handlers and the tables

When no handler is at work, the shared memory of the threads holds what the tables of the sequential
relay hold: the entry behind a handle is the entry of its room, no two rooms have one handle, and the
shards of the pending store together are the table of pending registrations. Links and counters agree
in what is read of them. No guard is taken.
-/

namespace Qvole.Relay.Threads

variable {room : Room} {s : Globals}

def SameLinks (links links' : Links) : Prop := ∀ ip, links.rooms ip = links'.rooms ip

def SameCounts (counts counts' : Table IpAddr Nat) : Prop :=
  ∀ ip, (counts.lookup ip).getD 0 = (counts'.lookup ip).getD 0

/-- The rooms of the threads, through their handles, and those of the tables. -/
structure RoomsAgree (shards : Fin numShards → Mutex Rooms) (heap : List (Mutex RoomEntry))
    (rooms : Fin numShards → Table Room RoomEntry) : Prop where
  unlocked : ∀ i, (shards i).locked = false
  missing : ∀ i room, (shards i).value.lookup room = none → (rooms i).lookup room = none
  found : ∀ i room handle, (shards i).value.lookup room = some handle →
    ∃ entry, heap[handle]? = some (.new entry) ∧ (rooms i).lookup room = some entry
  distinct : ∀ i j room room' handle, (shards i).value.lookup room = some handle →
    (shards j).value.lookup room' = some handle → i = j ∧ room = room'

structure PendingAgree (shards : Fin numShards → Mutex PendingRegs) (regs : PendingRegs) : Prop where
  unlocked : ∀ i, (shards i).locked = false
  lookup : ∀ room src, (shards (shardIdx room numShards)).value.lookup (room, src) = regs.lookup (room, src)
  placed : ∀ i room src, (room, src) ∈ (shards i).value → shardIdx room numShards = i

structure Represents (s : Globals) (T : Tables) (regShards : Fin numRegShards → RegShard) : Prop where
  rooms : RoomsAgree s.shards s.heap T.shards
  pending : PendingAgree s.pendingShards T.pendingRegs
  links : SameLinks s.ipCounts T.ipCounts
  pendingIp : SameCounts s.pendingIp T.pendingIp
  pendingTotal : s.pendingTotal = T.pendingTotal
  totalRoomCount : s.totalRoomCount = T.totalRoomCount
  regShards : s.regShards = regShards

/-! ### Links -/

namespace SameLinks

variable {links links' : Links}

theorem countIpRooms (h : SameLinks links links') (ip : IpAddr) :
    links.countIpRooms ip = links'.countIpRooms ip := by
  rw [Links.countIpRooms, Links.countIpRooms, h ip]

theorem addIpRoom (h : SameLinks links links') (ip : IpAddr) (room : Room) :
    SameLinks (links.addIpRoom ip room) (links'.addIpRoom ip room) := by
  intro other
  rw [Links.rooms_addIpRoom, Links.rooms_addIpRoom, h other, h ip]

/-- The order in which links are dropped does not matter. -/
theorem unlink (h : SameLinks links links') {unlinked unlinked' : List (IpAddr × Room)}
    (hmem : ∀ link, link ∈ unlinked ↔ link ∈ unlinked') :
    SameLinks (links.unlink unlinked) (links'.unlink unlinked') := by
  intro ip
  ext room
  rw [Links.mem_rooms_unlink, Links.mem_rooms_unlink, h ip, hmem]

end SameLinks

/-- Two outcomes of a section that differ in the order of the links at most. -/
structure SameOutcome (result result' : RoomEntry × Links × RegAction) : Prop where
  entry : result.1 = result'.1
  links : SameLinks result.2.1 result'.2.1
  action : result.2.2 = result'.2.2

namespace SameLinks

variable {links links' : Links}

theorem sweep (h : SameLinks links links') (entry : RoomEntry) (room : Room) (now : Instant)
    (regTtl : Duration) :
    (entry.sweep links room now regTtl).1 = (entry.sweep links' room now regTtl).1 ∧
      SameLinks (entry.sweep links room now regTtl).2 (entry.sweep links' room now regTtl).2 :=
  ⟨rfl, h.unlink fun _ => Iff.rfl⟩

theorem regSection (h : SameLinks links links') (cfg : Config) (room : Room) (src : SocketAddr)
    (clock : Clock) (rnd : Cookie) (waiting : Nat) (entry : RoomEntry) :
    SameOutcome (entry.regSection cfg room src clock rnd waiting links)
      (entry.regSection cfg room src clock rnd waiting links') := by
  unfold RoomEntry.regSection
  have hswept := (h.sweep entry room clock.sweep cfg.regTtl).2
  have hentry : (entry.sweep links' room clock.sweep cfg.regTtl).1 =
      (entry.sweep links room clock.sweep cfg.regTtl).1 := rfl
  dsimp only
  rw [hentry]
  generalize (entry.sweep links room clock.sweep cfg.regTtl).1 = swept
  split
  · exact ⟨rfl, hswept, rfl⟩
  · cases swept.udpClients.lookup src with
    | some info => exact ⟨rfl, hswept, rfl⟩
    | none =>
        cases swept.pending.lookup src with
        | some pend => exact ⟨rfl, hswept, rfl⟩
        | none =>
            dsimp only
            split
            · exact ⟨rfl, hswept, rfl⟩
            · split
              · exact ⟨rfl, hswept, rfl⟩
              · exact ⟨rfl, hswept, rfl⟩

theorem cookieSection (h : SameLinks links links') (cfg : Config) (room : Room) (src : SocketAddr)
    (cookieBytes : Bytes) (clock : Clock) (entry : RoomEntry) :
    SameOutcome (entry.cookieSection cfg room src cookieBytes clock links)
      (entry.cookieSection cfg room src cookieBytes clock links') := by
  unfold RoomEntry.cookieSection
  cases entry.pending.lookup src with
  | none => exact ⟨rfl, h, rfl⟩
  | some pend =>
      have hswept := (h.sweep entry room clock.sweep cfg.regTtl).2
      have hentry : (entry.sweep links' room clock.sweep cfg.regTtl).1 =
          (entry.sweep links room clock.sweep cfg.regTtl).1 := rfl
      dsimp only
      rw [hentry, ← hswept.countIpRooms]
      generalize (entry.sweep links room clock.sweep cfg.regTtl).1 = swept
      split
      · exact ⟨rfl, h, rfl⟩
      · split
        · exact ⟨rfl, h, rfl⟩
        · split
          · exact ⟨rfl, hswept, rfl⟩
          · split
            · exact ⟨rfl, hswept, rfl⟩
            · split
              · exact ⟨rfl, hswept, rfl⟩
              · refine ⟨rfl, ?_, rfl⟩
                dsimp only
                split
                · exact hswept
                · exact hswept.addIpRoom _ _

theorem admitSection (h : SameLinks links links') (cfg : Config) (room : Room)
    (src resolved : SocketAddr) (clock : Clock) (entry : RoomEntry) :
    SameOutcome (entry.admitSection cfg room src resolved clock links)
      (entry.admitSection cfg room src resolved clock links') := by
  unfold RoomEntry.admitSection
  have hswept := (h.sweep entry room clock.resweep cfg.regTtl).2
  have hentry : (entry.sweep links' room clock.resweep cfg.regTtl).1 =
      (entry.sweep links room clock.resweep cfg.regTtl).1 := rfl
  dsimp only
  rw [hentry, ← hswept.countIpRooms]
  generalize (entry.sweep links room clock.resweep cfg.regTtl).1 = swept
  split
  · exact ⟨rfl, hswept, rfl⟩
  · split
    · exact ⟨rfl, hswept, rfl⟩
    · split
      · exact ⟨rfl, hswept, rfl⟩
      · refine ⟨rfl, ?_, rfl⟩
        dsimp only
        split
        · exact hswept
        · exact hswept.addIpRoom _ _

end SameLinks

/-! ### Rooms -/

namespace RoomsAgree

variable {shards : Fin numShards → Mutex Rooms} {heap : List (Mutex RoomEntry)}
  {rooms : Fin numShards → Table Room RoomEntry} {handle : Handle} {entry : RoomEntry}

/-- Writing through the handle of a room. -/
theorem write (h : RoomsAgree shards heap rooms) {i : Fin numShards}
    (hlookup : (shards i).value.lookup room = some handle) (entry : RoomEntry) :
    RoomsAgree shards (heap.set handle (.new entry))
      (Function.update rooms i ((rooms i).insert room entry)) where
  unlocked := h.unlocked
  distinct := h.distinct
  missing j other hnone := by
    have hold := h.missing j other hnone
    by_cases hj : j = i
    · subst hj
      have hne : other ≠ room := by
        rintro rfl
        rw [hlookup] at hnone
        cases hnone
      rw [Function.update_self, AList.lookup_insert_ite, if_neg hne]
      exact hold
    · rw [Function.update_of_ne hj]
      exact hold
  found j other handle' hsome := by
    obtain ⟨old, hheap, hold⟩ := h.found j other handle' hsome
    obtain ⟨cell, hcell, -⟩ := h.found i room handle hlookup
    have hlt : handle < heap.length := (List.getElem?_eq_some_iff.mp hcell).1
    by_cases hsame : handle' = handle
    · subst hsame
      obtain ⟨rfl, rfl⟩ := h.distinct j i other room handle' hsome hlookup
      exact ⟨entry, by simp [hlt], by simp⟩
    · refine ⟨old, by rw [List.getElem?_set_ne (Ne.symm hsame), hheap], ?_⟩
      by_cases hj : j = i
      · subst hj
        have hne : other ≠ room := by
          rintro rfl
          rw [hlookup] at hsome
          exact hsame (Option.some.inj hsome).symm
        rw [Function.update_self, AList.lookup_insert_ite, if_neg hne]
        exact hold
      · rw [Function.update_of_ne hj]
        exact hold

/-- A new entry at the end of the heap. -/
theorem create (h : RoomsAgree shards heap rooms) {i : Fin numShards} (room : Room)
    (entry : RoomEntry) :
    RoomsAgree (Function.update shards i (.new ((shards i).value.insert room heap.length)))
      (heap ++ [.new entry]) (Function.update rooms i ((rooms i).insert room entry)) := by
  have hlookup : ∀ j other, (Function.update shards i
      (.new ((shards i).value.insert room heap.length)) j).value.lookup other =
      if j = i ∧ other = room then some heap.length else (shards j).value.lookup other := by
    intro j other
    by_cases hj : j = i
    · subst hj
      rw [Function.update_self]
      simp only [Mutex.new, AList.lookup_insert_ite, true_and]
    · simp [hj]
  have hrooms : ∀ j other, (Function.update rooms i ((rooms i).insert room entry) j).lookup other =
      if j = i ∧ other = room then some entry else (rooms j).lookup other := by
    intro j other
    by_cases hj : j = i
    · subst hj
      rw [Function.update_self]
      simp only [AList.lookup_insert_ite, true_and]
    · simp [hj]
  have hfresh : ∀ j other handle, (shards j).value.lookup other = some handle →
      handle < heap.length := by
    intro j other handle hsome
    obtain ⟨old, hheap, -⟩ := h.found j other handle hsome
    exact (List.getElem?_eq_some_iff.mp hheap).1
  refine ⟨fun j => ?_, fun j other hnone => ?_, fun j other handle hsome => ?_,
    fun j j' other other' handle hsome hsome' => ?_⟩
  · by_cases hj : j = i
    · subst hj
      rw [Function.update_self]
      rfl
    · rw [Function.update_of_ne hj]
      exact h.unlocked j
  · rw [hlookup] at hnone
    rw [hrooms]
    split at hnone
    · cases hnone
    · rename_i hother
      rw [if_neg hother]
      exact h.missing j other hnone
  · rw [hlookup] at hsome
    rw [hrooms]
    split at hsome
    · rename_i hother
      obtain rfl := Option.some.inj hsome
      exact ⟨entry, by simp, by rw [if_pos hother]⟩
    · rename_i hother
      obtain ⟨old, hheap, hold⟩ := h.found j other handle hsome
      refine ⟨old, ?_, by rw [if_neg hother, hold]⟩
      rw [List.getElem?_append_left (hfresh j other handle hsome), hheap]
  · rw [hlookup] at hsome hsome'
    split at hsome
    · rename_i hother
      obtain rfl := Option.some.inj hsome
      split at hsome'
      · rename_i hother'
        exact ⟨hother.1.trans hother'.1.symm, hother.2.trans hother'.2.symm⟩
      · exact absurd (hfresh j' other' _ hsome') (Nat.lt_irrefl _)
    · split at hsome'
      · obtain rfl := Option.some.inj hsome'
        exact absurd (hfresh j other _ hsome) (Nat.lt_irrefl _)
      · exact h.distinct j j' other other' handle hsome hsome'

end RoomsAgree

/-! ### Sweeps -/

section Sweep

variable {t : Instant} {regTtl : Duration} {now : Instant}

/-- The entries of a shard are swept one behind the other, each as it was found. -/
theorem runs_sweepEntries (t : Instant) (regTtl : Duration) (now : Instant) (f : Handle → RoomEntry)
    (entries : List ((_ : Room) × Handle))
    (hheap : ∀ e ∈ entries, s.heap[e.2]? = some (.new (f e.2)))
    (hnodup : (entries.map (·.2)).Nodup) :
    let swept := fun e : (_ : Room) × Handle => (f e.2).removeStaleClients e.1 t regTtl
    ∃ heap, Runs (sweepEntries t regTtl entries) now s
        ((entries.filter fun e => (swept e).1.evictable t regTtl).map (·.1),
          entries.flatMap fun e => (swept e).2) now { s with heap } ∧
      (∀ e ∈ entries, heap[e.2]? = some (.new (swept e).1)) ∧
      ∀ handle, handle ∉ entries.map (·.2) → heap[handle]? = s.heap[handle]? := by
  intro swept
  induction entries generalizing s with
  | nil => exact ⟨s.heap, Runs.pure _ le_rfl, by simp, fun _ _ => rfl⟩
  | cons e rest ih =>
      obtain ⟨room, handle⟩ := e
      rw [List.map_cons, List.nodup_cons] at hnodup
      have hhead : s.heap[handle]? = some (.new (f handle)) := hheap ⟨room, handle⟩ List.mem_cons_self
      have hlt : handle < s.heap.length := (List.getElem?_eq_some_iff.mp hhead).1
      set after : Globals := { s with heap := s.heap.set handle (.new (swept ⟨room, handle⟩).1) }
        with hafter
      have hrest : ∀ e ∈ rest, after.heap[e.2]? = some (.new (f e.2)) := by
        intro e he
        have hne : handle ≠ e.2 := fun heq => hnodup.1 (List.mem_map.mpr ⟨e, he, heq.symm⟩)
        rw [hafter]
        exact (List.getElem?_set_ne hne).trans (hheap e (List.mem_cons_of_mem _ he))
      obtain ⟨heap, hruns, hswept, hothers⟩ := ih hrest hnodup.2
      refine ⟨heap, ?_, ?_, ?_⟩
      · have hunlock : Runs (unlockEntry handle (swept ⟨room, handle⟩).1) now
            (s.setEntry handle { value := f handle, locked := true }) () now after := by
          have hset := runs_unlockEntry (t := now)
            (s := s.setEntry handle { value := f handle, locked := true }) handle
            (swept ⟨room, handle⟩).1
          rwa [Globals.setEntry, Globals.setEntry, List.set_set] at hset
        refine (runs_lockEntry hhead).bind (hunlock.bind (hruns.bind ?_))
        rw [List.filter_cons, List.flatMap_cons]
        split
        · exact Runs.pure _ le_rfl
        · exact Runs.pure _ le_rfl
      · intro e he
        rcases List.mem_cons.mp he with rfl | he
        · rw [hothers _ hnodup.1]
          exact List.getElem?_set_self hlt
        · exact hswept e he
      · intro other hother
        rw [List.map_cons, List.mem_cons, not_or] at hother
        rw [hothers other hother.2]
        exact List.getElem?_set_ne (Ne.symm hother.1)

/-- The table of a shard with its handles followed. -/
def followed (heap : List (Mutex RoomEntry)) (rooms : Rooms) : Table Room RoomEntry :=
  rooms.mapVals fun _ handle => ((heap[handle]?).map (·.value)).getD (.new 0)

variable {shards : Fin numShards → Mutex Rooms} {heap : List (Mutex RoomEntry)}
  {rooms : Fin numShards → Table Room RoomEntry}

theorem RoomsAgree.lookup_followed (h : RoomsAgree shards heap rooms) (i : Fin numShards)
    (room : Room) : (followed heap (shards i).value).lookup room = (rooms i).lookup room := by
  rw [followed, AList.lookup_mapVals]
  cases hlookup : (shards i).value.lookup room with
  | none => exact (h.missing i room hlookup).symm
  | some handle =>
      obtain ⟨entry, hheap, hentry⟩ := h.found i room handle hlookup
      rw [hentry, Option.map_some, hheap]
      rfl

theorem RoomsAgree.nodup_handles (h : RoomsAgree shards heap rooms) (i : Fin numShards) :
    ((shards i).value.entries.map (·.2)).Nodup := by
  refine (List.nodup_map_iff_inj_on (shards i).value.nodupKeys.nodup).mpr ?_
  intro e he e' he' heq
  have hlookup := AList.lookup_eq_some_iff.mpr he
  have hlookup' := AList.lookup_eq_some_iff.mpr he'
  rw [← heq] at hlookup'
  obtain ⟨-, hroom⟩ := h.distinct i i e.1 e'.1 e.2 hlookup hlookup'
  exact Sigma.ext hroom (heq_of_eq heq)

/-- A table of rooms after a sweep, room by room. -/
theorem lookup_evictStaleRooms (rooms : Table Room RoomEntry) (room : Room) :
    (Relay.evictStaleRooms rooms t regTtl).1.lookup room =
      ((rooms.lookup room).map fun entry => (entry.removeStaleClients room t regTtl).1).filter
        fun entry => !entry.evictable t regTtl := by
  unfold Relay.evictStaleRooms
  rw [AList.lookup_retain, AList.lookup_mapVals]

/-- Every entry of a shard is swept in its place, and those left behind are removed. -/
theorem RoomsAgree.swept (h : RoomsAgree shards heap rooms) (i : Fin numShards) (f : Handle → RoomEntry)
    {heap' : List (Mutex RoomEntry)} {left : Rooms}
    (hvalue : ∀ room handle, (shards i).value.lookup room = some handle →
      (rooms i).lookup room = some (f handle))
    (hafter : ∀ room handle, (shards i).value.lookup room = some handle →
      heap'[handle]? = some (.new ((f handle).removeStaleClients room t regTtl).1))
    (hothers : ∀ handle, (∀ room, (shards i).value.lookup room ≠ some handle) →
      heap'[handle]? = heap[handle]?)
    (hleft : ∀ room, left.lookup room = ((shards i).value.lookup room).filter fun handle =>
      !((f handle).removeStaleClients room t regTtl).1.evictable t regTtl) :
    RoomsAgree (Function.update shards i (.new left)) heap'
      (Function.update rooms i (Relay.evictStaleRooms (rooms i) t regTtl).1) := by
  have hsub : ∀ {j room handle}, (Function.update shards i (.new left) j).value.lookup room = some handle →
      (shards j).value.lookup room = some handle := by
    intro j room handle hlookup
    by_cases hj : j = i
    · subst hj
      rw [Function.update_self] at hlookup
      change left.lookup room = some handle at hlookup
      rw [hleft] at hlookup
      exact (Option.filter_eq_some_iff.mp hlookup).1
    · rwa [Function.update_of_ne hj] at hlookup
  refine ⟨fun j => ?_, fun j room hnone => ?_, fun j room handle hsome => ?_,
    fun j j' room room' handle hsome hsome' =>
      h.distinct j j' room room' handle (hsub hsome) (hsub hsome')⟩
  · by_cases hj : j = i
    · subst hj
      rw [Function.update_self]
      rfl
    · rw [Function.update_of_ne hj]
      exact h.unlocked j
  · by_cases hj : j = i
    · subst hj
      rw [Function.update_self] at hnone ⊢
      change left.lookup room = none at hnone
      rw [lookup_evictStaleRooms]
      rw [hleft] at hnone
      cases hlookup : (shards j).value.lookup room with
      | none =>
          rw [h.missing j room hlookup]
          rfl
      | some handle =>
          rw [hlookup] at hnone
          rw [hvalue room handle hlookup]
          simpa using hnone
    · rw [Function.update_of_ne hj] at hnone ⊢
      exact h.missing j room hnone
  · have hold := hsub hsome
    by_cases hj : j = i
    · subst hj
      rw [Function.update_self] at hsome ⊢
      change left.lookup room = some handle at hsome
      rw [hleft] at hsome
      obtain ⟨-, hkept⟩ := Option.filter_eq_some_iff.mp hsome
      refine ⟨_, hafter room handle hold, ?_⟩
      rw [lookup_evictStaleRooms, hvalue room handle hold]
      simpa using hkept
    · rw [Function.update_of_ne hj]
      obtain ⟨entry, hheap, hentry⟩ := h.found j room handle hold
      refine ⟨entry, ?_, hentry⟩
      rw [hothers handle, hheap]
      intro room' hlookup
      exact hj (h.distinct j i room room' handle hold hlookup).1

/-- The sweep of a shard under its guard. -/
theorem RoomsAgree.evictStaleRooms (h : RoomsAgree shards s.heap rooms) (i : Fin numShards)
    (t : Instant) (regTtl : Duration) (now : Instant) :
    let swept := Relay.evictStaleRooms (rooms i) t regTtl
    ∃ heap left unlinked,
      Runs (evictStaleRooms (shards i).value t regTtl) now s (left, swept.2.1, unlinked) now
        { s with heap } ∧ (∀ link, link ∈ unlinked ↔ link ∈ swept.2.2) ∧
      RoomsAgree (Function.update shards i (.new left)) heap (Function.update rooms i swept.1) := by
  intro swept
  set f : Handle → RoomEntry := fun handle => ((s.heap[handle]?).map (·.value)).getD (.new 0) with hf
  have hcell : ∀ room handle, (shards i).value.lookup room = some handle →
      s.heap[handle]? = some (.new (f handle)) ∧ (rooms i).lookup room = some (f handle) := by
    intro room handle hlookup
    obtain ⟨entry, hheap, hentry⟩ := h.found i room handle hlookup
    have hvalue : f handle = entry := by simp [hf, hheap, Mutex.new]
    exact ⟨hvalue ▸ hheap, hvalue ▸ hentry⟩
  obtain ⟨heap, hruns, hafter, hothers⟩ := runs_sweepEntries t regTtl now f (shards i).value.entries
    (fun e he => (hcell e.1 e.2 (AList.lookup_eq_some_iff.mpr he)).1) (h.nodup_handles i)
  have hperm : ((shards i).value.entries.map fun e => (⟨e.1, f e.2⟩ : (_ : Room) × RoomEntry)).Perm
      (rooms i).entries := AList.perm_of_lookup (h.lookup_followed i)
  have hcount : (((shards i).value.entries.filter fun e =>
      ((f e.2).removeStaleClients e.1 t regTtl).1.evictable t regTtl).map (·.1)).length =
      swept.2.1 := by
    have hlength := (hperm.filter fun e =>
      (e.2.removeStaleClients e.1 t regTtl).1.evictable t regTtl).length_eq
    rw [List.filter_map, List.length_map] at hlength
    change _ = (((rooms i).entries.map _).filter _).length
    rw [List.filter_map, List.length_map, List.length_map]
    exact hlength
  refine ⟨heap, _, (shards i).value.entries.flatMap fun e =>
    ((f e.2).removeStaleClients e.1 t regTtl).2, hruns.bind ?_, ?_, h.swept i f (fun room handle hlookup =>
    (hcell room handle hlookup).2) (fun room handle hlookup =>
      hafter ⟨room, handle⟩ (AList.lookup_eq_some_iff.mp hlookup)) (fun handle hnone => ?_)
    (AList.lookup_foldl_erase_retain (fun room handle =>
      ((f handle).removeStaleClients room t regTtl).1.evictable t regTtl) (shards i).value)⟩
  · rw [← hcount]
    exact Runs.pure _ le_rfl
  · intro link
    have hflat := hperm.flatMap_right fun e => (e.2.removeStaleClients e.1 t regTtl).2
    rw [List.flatMap_map] at hflat
    exact hflat.mem_iff
  · refine hothers handle fun hmem => ?_
    obtain ⟨e, he, rfl⟩ := List.mem_map.mp hmem
    exact hnone e.1 (AList.lookup_eq_some_iff.mpr he)

end Sweep

end Qvole.Relay.Threads
