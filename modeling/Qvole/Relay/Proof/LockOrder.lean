import Qvole.Lib.Locks
import Qvole.Relay.Threads

/-!
# Handlers never block each other for good

A handler that holds the guard of a shard of rooms takes the guard of an entry behind it, and no
other order occurs: the sweep of all shards holds one guard of a shard at a time and is never made
under one. Guards of the pending store are dropped before the next guard is taken. Entries are never
freed, so an entry whose handle was read from a shard is there. It follows that of the handlers and
ticks that are not done one can always move, and that all of them come to their end.
-/

namespace Qvole.Relay.Threads

inductive Lock where
  | shard (i : Fin numShards)
  | entry (handle : Handle)
  | pending (i : Fin numShards)
  deriving DecidableEq

def Op.takes : Op → Option Lock
  | .lockShard i => some (.shard i)
  | .lockEntry handle => some (.entry handle)
  | .lockPending i => some (.pending i)
  | _ => none

def Op.drops : Op → Option Lock
  | .unlockShard i _ => some (.shard i)
  | .unlockEntry handle _ => some (.entry handle)
  | .unlockPending i _ => some (.pending i)
  | _ => none

/-- Operations that touch neither a guard nor the heap. -/
def Op.free : Op → Bool
  | .lockShard _ | .unlockShard _ _ | .lockEntry _ | .unlockEntry _ _ | .lockPending _
  | .unlockPending _ _ | .newEntry _ => false
  | _ => true

/-- All handles among the rooms are below `n`. -/
def Within (n : Nat) (rooms : Rooms) : Prop :=
  ∀ room handle, rooms.lookup room = some handle → handle < n

def Globals.locked (s : Globals) : Lock → Prop
  | .shard i => (s.shards i).locked = true
  | .entry handle => ∃ cell, s.entry? handle = some cell ∧ cell.locked = true
  | .pending i => (s.pendingShards i).locked = true

/-- The guard of a shard comes before that of an entry. -/
def locking : Locking Op Globals Lock where
  takes := Op.takes
  drops := Op.drops
  rank
    | .shard _ => 1
    | .entry _ => 0
    | .pending _ => 0
  level s := s.heap.length
  needs
    | .shard _ => 0
    | .entry handle => handle + 1
    | .pending _ => 0
  locked := Globals.locked
  inv s := ∀ i, Within s.heap.length (s.shards i).value

variable {s : Globals} {n m : Nat}

theorem Within.mono {rooms : Rooms} (h : Within n rooms) (hle : n ≤ m) : Within m rooms :=
  fun room handle hlookup => (h room handle hlookup).trans_le hle

theorem Within.erase {rooms : Rooms} (h : Within n rooms) (room : Room) :
    Within n (rooms.erase room) := by
  intro room' handle hlookup
  rw [AList.lookup_erase_ite] at hlookup
  split at hlookup
  · cases hlookup
  · exact h room' handle hlookup

theorem Within.foldl_erase {rooms : Rooms} (h : Within n rooms) (gone : List Room) :
    Within n (gone.foldl (fun rooms room => rooms.erase room) rooms) := by
  induction gone generalizing rooms with
  | nil => exact h
  | cons room rest ih => exact ih (h.erase room)

theorem Within.insert {rooms : Rooms} (h : Within n rooms) (room : Room) {handle : Handle}
    (hhandle : handle < n) : Within n (rooms.insert room handle) := by
  intro room' handle' hlookup
  rw [AList.lookup_insert_ite] at hlookup
  split at hlookup
  · cases hlookup
    exact hhandle
  · exact h room' handle' hlookup

/-! ### The operations -/

theorem ready_iff (o : Op) (s : Globals) : s.ready o = true ↔
    ∀ lock, o.takes = some lock → locking.needs lock ≤ s.heap.length ∧ ¬ s.locked lock := by
  cases o with
  | lockShard i => simp [Globals.ready, Op.takes, locking, Globals.locked]
  | lockPending i => simp [Globals.ready, Op.takes, locking, Globals.locked]
  | lockEntry handle =>
      simp only [Globals.ready, Op.takes, Option.some.injEq, forall_eq', locking, Globals.locked,
        Globals.entry?]
      rw [Nat.succ_le_iff]
      by_cases hlt : handle < s.heap.length <;> simp [hlt]
  | _ => simp [Globals.ready, Op.takes]

theorem heap_length_le (o : Op) (input : Input) (s : Globals) :
    s.heap.length ≤ (s.exec o input).1.heap.length := by
  cases o with
  | newEntry entry => simp [Globals.exec]
  | lockEntry handle =>
      simp only [Globals.exec]
      split
      · exact le_rfl
      · simp [Globals.setEntry]
  | unlockEntry handle entry => simp [Globals.exec, Globals.setEntry]
  | _ => exact le_rfl

theorem exec_free {o : Op} (ho : o.free = true) (input : Input) (s : Globals) :
    (s.exec o input).1.shards = s.shards ∧ (s.exec o input).1.heap = s.heap ∧
      (s.exec o input).1.pendingShards = s.pendingShards := by
  cases o <;> first | exact ⟨rfl, rfl, rfl⟩ | cases ho

theorem takes_free {o : Op} (ho : o.free = true) : o.takes = none ∧ o.drops = none := by
  cases o <;> first | exact ⟨rfl, rfl⟩ | cases ho

theorem locked_setShard (s : Globals) (i : Fin numShards) (cell : Mutex Rooms) (lock : Lock) :
    (s.setShard i cell).locked lock ↔
      (lock = .shard i ∧ cell.locked = true) ∨ (lock ≠ .shard i ∧ s.locked lock) := by
  cases lock with
  | shard j =>
      by_cases hj : j = i
      · subst hj
        simp [Globals.locked, Globals.setShard]
      · simp [Globals.locked, Globals.setShard, hj]
  | entry handle => simp [Globals.locked, Globals.setShard, Globals.entry?]
  | pending j => simp [Globals.locked, Globals.setShard]

theorem locked_setPending (s : Globals) (i : Fin numShards) (cell : Mutex PendingRegs) (lock : Lock) :
    (s.setPending i cell).locked lock ↔
      (lock = .pending i ∧ cell.locked = true) ∨ (lock ≠ .pending i ∧ s.locked lock) := by
  cases lock with
  | pending j =>
      by_cases hj : j = i
      · subst hj
        simp [Globals.locked, Globals.setPending]
      · simp [Globals.locked, Globals.setPending, hj]
  | entry handle => simp [Globals.locked, Globals.setPending, Globals.entry?]
  | shard j => simp [Globals.locked, Globals.setPending]

theorem locked_setEntry (s : Globals) {handle : Handle} (hlt : handle < s.heap.length)
    (cell : Mutex RoomEntry) (lock : Lock) :
    (s.setEntry handle cell).locked lock ↔
      (lock = .entry handle ∧ cell.locked = true) ∨ (lock ≠ .entry handle ∧ s.locked lock) := by
  cases lock with
  | shard j => simp [Globals.locked, Globals.setEntry]
  | pending j => simp [Globals.locked, Globals.setEntry]
  | entry other =>
      by_cases hother : other = handle
      · subst hother
        simp [Globals.locked, Globals.setEntry, Globals.entry?, hlt]
      · have hne : handle ≠ other := fun heq => hother heq.symm
        simp [Globals.locked, Globals.setEntry, Globals.entry?, hother, hne]

theorem locked_newEntry (s : Globals) (entry : RoomEntry) (lock : Lock) :
    ({ s with heap := s.heap ++ [.new entry] } : Globals).locked lock ↔ s.locked lock := by
  cases lock with
  | shard j => simp [Globals.locked]
  | pending j => simp [Globals.locked]
  | entry handle =>
      rcases lt_trichotomy handle s.heap.length with hlt | rfl | hgt
      · simp [Globals.locked, Globals.entry?, List.getElem?_append_left hlt]
      · simp [Globals.locked, Globals.entry?, Mutex.new]
      · have hnone : (s.heap ++ [Mutex.new entry])[handle]? = none := by
          apply List.getElem?_eq_none
          rw [List.length_append]
          exact hgt
        simp [Globals.locked, Globals.entry?, hnone, List.getElem?_eq_none hgt.le]

theorem locked_exec (o : Op) (input : Input) (s : Globals) (hready : s.ready o = true) (lock : Lock) :
    (s.exec o input).1.locked lock ↔
      o.takes = some lock ∨ (s.locked lock ∧ o.drops ≠ some lock) := by
  cases o with
  | lockShard i =>
      simp only [Globals.exec, locked_setShard, Op.takes, Op.drops, Option.some.injEq]
      by_cases hlock : lock = .shard i <;> simp [hlock, eq_comm]
  | unlockShard i rooms =>
      simp only [Globals.exec, locked_setShard, Op.takes, Op.drops, Mutex.new]
      by_cases hlock : lock = .shard i <;> simp [hlock, eq_comm]
  | lockPending i =>
      simp only [Globals.exec, locked_setPending, Op.takes, Op.drops, Option.some.injEq]
      by_cases hlock : lock = .pending i <;> simp [hlock, eq_comm]
  | unlockPending i regs =>
      simp only [Globals.exec, locked_setPending, Op.takes, Op.drops, Mutex.new]
      by_cases hlock : lock = .pending i <;> simp [hlock, eq_comm]
  | lockEntry handle =>
      obtain ⟨hlt, -⟩ := (ready_iff _ s).mp hready (.entry handle) rfl
      have hcell : s.entry? handle = some s.heap[handle] := List.getElem?_eq_getElem hlt
      simp only [Globals.exec, hcell, locked_setEntry s hlt, Op.takes, Op.drops, Option.some.injEq]
      by_cases hlock : lock = .entry handle <;> simp [hlock, eq_comm]
  | unlockEntry handle entry =>
      by_cases hlt : handle < s.heap.length
      · simp only [Globals.exec, locked_setEntry s hlt, Op.takes, Op.drops, Mutex.new]
        by_cases hlock : lock = .entry handle <;> simp [hlock, eq_comm]
      · -- no such entry: nothing changes, and its guard is not held
        have hsame : s.setEntry handle (.new entry) = s := by
          rw [Globals.setEntry, List.set_eq_of_length_le (Nat.le_of_not_lt hlt)]
        have hfree : ¬ s.locked (.entry handle) := by
          simp [Globals.locked, Globals.entry?, hlt]
        simp only [Globals.exec, hsame, Op.takes, Op.drops]
        by_cases hlock : lock = .entry handle
        · simp [hlock, hfree]
        · simp [eq_comm, hlock]
  | newEntry entry => simp [Globals.exec, locked_newEntry, Op.takes, Op.drops]
  | _ =>
      have hkept : ∀ s' : Globals, s'.shards = s.shards ∧ s'.heap = s.heap ∧
          s'.pendingShards = s.pendingShards → (s'.locked lock ↔ s.locked lock) := by
        rintro s' ⟨hshards, hheap, hpending⟩
        cases lock <;> simp [Globals.locked, Globals.entry?, hshards, hheap, hpending]
      simp only [Op.takes, Op.drops, reduceCtorEq, false_or, ne_eq, not_false_eq_true, and_true]
      exact hkept _ (exec_free rfl input s)

theorem lawful : locking.Lawful memory where
  ready_iff := ready_iff
  locked_exec := locked_exec
  level_le := heap_length_le

/-! ### Sections -/

/-- The program keeps to the order and gives back the guards it takes. -/
def Goes {α : Type} (p : Code α) (held : List Lock) (n : Nat) (post : α → Nat → Prop) : Prop :=
  p.Polite memory locking held n fun a held' n' => held' = held ∧ post a n'

variable {α β : Type} {p : Code α} {held : List Lock} {post : α → Nat → Prop}

theorem Goes.pure {a : α} (h : post a n) : Goes (Pure.pure a) held n post := ⟨rfl, h⟩

theorem Goes.andThen {rest : α → Code β} {post' : β → Nat → Prop} (h : Goes p held n post)
    (hrest : ∀ a m, n ≤ m → post a m → Goes (rest a) held m post') :
    Goes (p >>= rest) held n post' := by
  refine Prog.Polite.andThen h ?_
  rintro a held' m hle ⟨rfl, hpost⟩
  exact hrest a m hle hpost

theorem Goes.polite (h : Goes p held n post) :
    p.Polite memory locking held n fun a held' m => held' = held ∧ post a m := h

theorem Goes.mono {post' : α → Nat → Prop} (h : Goes p held n post)
    (hpost : ∀ a m, n ≤ m → post a m → post' a m) : Goes p held n post' := by
  refine Prog.Polite.mono h ?_
  rintro a held' m hle ⟨rfl, hafter⟩
  exact ⟨rfl, hpost a m hle hafter⟩

theorem inv_of_shards {s' : Globals} (hinv : locking.inv s) (hshards : s'.shards = s.shards)
    (hheap : s.heap.length ≤ s'.heap.length) : locking.inv s' := by
  intro i
  rw [hshards]
  exact (hinv i).mono hheap

/-- An operation that touches no guard. -/
theorem goes_free {o : Op} (ho : o.free = true) : Goes (perform o) held n fun _ m => m = n := by
  obtain ⟨htakes, hdrops⟩ := takes_free ho
  have hafter : locking.after o held = held := by
    simp [Locking.after, locking, htakes, hdrops]
  refine Prog.Polite.perform (o := o) ?_ ?_ fun s input hs hn => ?_
  · intro lock hlock
    cases htakes.symm.trans hlock
  · intro lock hlock
    cases hdrops.symm.trans hlock
  · have hheap := heap_length_le o input s
    exact ⟨inv_of_shards hs (exec_free ho input s).1 hheap, n, le_rfl, hn.trans hheap, hafter, rfl⟩

theorem polite_lockShard (i : Fin numShards) (n : Nat) :
    (lockShard i).Polite memory locking [] n fun rooms held' m =>
      held' = [.shard i] ∧ Within m rooms := by
  refine Prog.Polite.perform (o := Op.lockShard i) ?_ ?_ fun s input hs hn => ?_
  · intro lock hlock
    obtain rfl := Option.some.inj hlock
    exact ⟨Nat.zero_le _, by simp⟩
  · intro lock hlock
    cases hlock
  · refine ⟨fun j => ?_, s.heap.length, hn, le_rfl, rfl, hs i⟩
    change Within s.heap.length (Function.update s.shards i _ j).value
    by_cases hj : j = i
    · subst hj
      rw [Function.update_self]
      exact hs j
    · rw [Function.update_of_ne hj]
      exact hs j

theorem polite_unlockShard (i : Fin numShards) {rooms : Rooms} (hrooms : Within n rooms) :
    (unlockShard i rooms).Polite memory locking [.shard i] n fun _ held' m =>
      held' = [] ∧ m = n := by
  refine Prog.Polite.perform (o := Op.unlockShard i rooms) ?_ ?_ fun s input hs hn => ?_
  · intro lock hlock
    cases hlock
  · intro lock hlock
    obtain rfl := Option.some.inj hlock
    exact List.mem_singleton_self _
  · refine ⟨fun j => ?_, n, le_rfl, hn, by simp [Locking.after, locking, Op.takes, Op.drops], rfl⟩
    change Within s.heap.length (Function.update s.shards i (.new rooms) j).value
    by_cases hj : j = i
    · subst hj
      rw [Function.update_self]
      exact hrooms.mono hn
    · rw [Function.update_of_ne hj]
      exact hs j

theorem polite_lockEntry {handle : Handle} (hhandle : handle < n)
    (hheld : ∀ h ∈ held, ∃ i, h = .shard i) :
    (lockEntry handle).Polite memory locking held n fun _ held' m =>
      held' = .entry handle :: held ∧ m = n := by
  refine Prog.Polite.perform (o := Op.lockEntry handle) ?_ ?_ fun s input hs hn => ?_
  · intro lock hlock
    obtain rfl := Option.some.inj hlock
    refine ⟨hhandle, fun h hmem => ?_⟩
    obtain ⟨i, rfl⟩ := hheld h hmem
    exact Nat.zero_lt_one
  · intro lock hlock
    cases hlock
  · have hheap := heap_length_le (.lockEntry handle) input s
    have hshards : (s.exec (.lockEntry handle) input).1.shards = s.shards := by
      simp only [Globals.exec]
      split <;> rfl
    refine ⟨inv_of_shards hs hshards hheap, n, le_rfl, hn.trans hheap, ?_, rfl⟩
    simp [Locking.after, locking, Op.takes, Op.drops]

theorem filter_shards (lock : Lock) (hlock : ∀ i, lock ≠ .shard i)
    (hheld : ∀ h ∈ held, ∃ i, h = .shard i) : (held.filter fun h => some lock ≠ some h) = held := by
  rw [List.filter_eq_self]
  intro h hmem
  obtain ⟨i, rfl⟩ := hheld h hmem
  simpa using hlock i

theorem polite_unlockEntry (handle : Handle) (entry : RoomEntry)
    (hheld : ∀ h ∈ held, ∃ i, h = .shard i) :
    (unlockEntry handle entry).Polite memory locking (.entry handle :: held) n fun _ held' m =>
      held' = held ∧ m = n := by
  refine Prog.Polite.perform (o := Op.unlockEntry handle entry) ?_ ?_ fun s input hs hn => ?_
  · intro lock hlock
    cases hlock
  · intro lock hlock
    obtain rfl := Option.some.inj hlock
    exact List.mem_cons_self
  · have hheap := heap_length_le (.unlockEntry handle entry) input s
    refine ⟨inv_of_shards hs rfl hheap, n, le_rfl, hn.trans hheap, ?_, rfl⟩
    have hrest := filter_shards (.entry handle) (by simp) hheld
    simpa [Locking.after, locking, Op.takes, Op.drops] using hrest

theorem polite_lockPending (i : Fin numShards) :
    (lockPending i).Polite memory locking [] n fun _ held' m => held' = [.pending i] ∧ m = n := by
  refine Prog.Polite.perform (o := Op.lockPending i) ?_ ?_ fun s input hs hn => ?_
  · intro lock hlock
    obtain rfl := Option.some.inj hlock
    exact ⟨Nat.zero_le _, by simp⟩
  · intro lock hlock
    cases hlock
  · exact ⟨inv_of_shards hs rfl le_rfl, n, le_rfl, hn, rfl, rfl⟩

theorem polite_unlockPending (i : Fin numShards) (regs : PendingRegs) :
    (unlockPending i regs).Polite memory locking [.pending i] n fun _ held' m =>
      held' = [] ∧ m = n := by
  refine Prog.Polite.perform (o := Op.unlockPending i regs) ?_ ?_ fun s input hs hn => ?_
  · intro lock hlock
    cases hlock
  · intro lock hlock
    obtain rfl := Option.some.inj hlock
    exact List.mem_singleton_self _
  · refine ⟨inv_of_shards hs rfl le_rfl, n, le_rfl, hn, ?_, rfl⟩
    simp [Locking.after, locking, Op.takes, Op.drops]

theorem goes_newEntry (entry : RoomEntry) :
    Goes (newEntry entry) held n fun handle m => handle < m := by
  refine Prog.Polite.perform (o := Op.newEntry entry) ?_ ?_ fun s input hs hn => ?_
  · intro lock hlock
    cases hlock
  · intro lock hlock
    cases hlock
  · have hheap : s.heap.length + 1 = (s.exec (.newEntry entry) input).1.heap.length := by
      simp [Globals.exec]
    refine ⟨inv_of_shards hs rfl (hheap ▸ Nat.le_succ _), s.heap.length + 1, hn.trans (Nat.le_succ _),
      hheap.le, ?_, Nat.lt_succ_self _⟩
    simp [Locking.after, locking, Op.takes, Op.drops]

/-! ### Programs that touch no guard -/

/-- Under whatever guards, the program touches none. -/
def Free (p : Code α) : Prop := ∀ held n, Goes p held n fun _ _ => True

theorem free_pure (a : α) : Free (Pure.pure a : Code α) := fun _ _ => Goes.pure trivial

theorem Free.bind {rest : α → Code β} (h : Free p) (hrest : ∀ a, Free (rest a)) :
    Free (p >>= rest) :=
  fun held n => (h held n).andThen fun a m _ _ => hrest a held m

theorem free_op {o : Op} (ho : o.free = true) : Free (perform o) :=
  fun _ _ => (goes_free ho).mono fun _ _ _ _ => trivial

variable {cfg : Config} {room : Room} {src resolved : SocketAddr}

theorem free_removeIpRooms (unlinked : List (IpAddr × Room)) : Free (removeIpRooms unlinked) := by
  induction unlinked with
  | nil => exact free_pure ()
  | cons link rest ih => exact (free_op (o := Op.removeIpRoom link.1 link.2) rfl).bind fun _ => ih

theorem free_removePendingIps (ips : List IpAddr) : Free (removePendingIps ips) := by
  induction ips with
  | nil => exact free_pure ()
  | cons ip rest ih => exact (free_op (o := Op.removePendingIp ip) rfl).bind fun _ => ih

theorem free_subRooms (total : Nat) : Free (subRooms total) := by
  unfold subRooms
  split
  · exact free_op rfl
  · exact free_pure ()

theorem free_addClient (entry : RoomEntry) (src resolved : SocketAddr) :
    Free (addClient entry src resolved) := by
  refine (free_op (o := Op.now) rfl).bind fun lastSeen => ?_
  refine (free_op (o := Op.now) rfl).bind fun windowStart => ?_
  refine (free_op (o := Op.now) rfl).bind fun touched => ?_
  exact free_pure _

theorem free_ipCapped (cfg : Config) (ip : IpAddr) (already : Bool) :
    Free (ipCapped cfg ip already) := by
  unfold ipCapped
  split
  · exact free_pure _
  · exact (free_op (o := Op.countIpRooms ip) rfl).bind fun linked => free_pure _

theorem free_linkIp (ip : IpAddr) (room : Room) (already : Bool) : Free (linkIp ip room already) := by
  unfold linkIp
  split
  · exact free_pure ()
  · exact free_op rfl

theorem free_sweepEntry (cfg : Config) (room : Room) (entry : RoomEntry) :
    Free (sweepEntry cfg room entry) := by
  refine (free_op (o := Op.now) rfl).bind fun t => ?_
  exact (free_removeIpRooms _).bind fun _ => free_pure _

theorem free_admitInRoom (cfg : Config) (room : Room) (src resolved : SocketAddr)
    (entry : RoomEntry) : Free (admitInRoom cfg room src resolved entry) := by
  refine (free_sweepEntry cfg room entry).bind fun swept => ?_
  dsimp only
  split
  · exact free_pure _
  refine (free_ipCapped cfg (ipKey src) _).bind fun capped => ?_
  split
  · exact free_pure _
  split
  · exact free_pure _
  refine (free_addClient swept src resolved).bind fun admitted => ?_
  exact (free_linkIp (ipKey src) room _).bind fun _ => free_pure _

theorem free_cookieInRoom (cfg : Config) (room : Room) (src : SocketAddr) (cookieBytes : Bytes)
    (entry : RoomEntry) : Free (cookieInRoom cfg room src cookieBytes entry) := by
  unfold cookieInRoom
  split
  · exact free_pure _
  split
  · exact free_pure _
  refine (free_op (o := Op.now) rfl).bind fun t => ?_
  split
  · exact free_pure _
  refine (free_sweepEntry cfg room entry).bind fun swept => ?_
  refine (free_ipCapped cfg (ipKey src) _).bind fun capped => ?_
  split
  · exact free_pure _
  split
  · exact free_pure _
  split
  · exact free_pure _
  refine (free_addClient _ src _).bind fun admitted => ?_
  exact (free_linkIp (ipKey src) room _).bind fun _ => free_pure _

theorem free_regInRoom (cfg : Config) (room : Room) (src : SocketAddr) (entry : RoomEntry) :
    Free (regInRoom cfg room src entry) := by
  refine (free_sweepEntry cfg room entry).bind fun swept => ?_
  split
  · exact free_pure _
  split
  · exact (free_op (o := Op.now) rfl).bind fun t => free_pure _
  split
  · exact (free_op (o := Op.now) rfl).bind fun t => free_pure _
  refine (free_op (o := Op.pendingCountForIp (ipKey src)) rfl).bind fun waiting => ?_
  dsimp only
  split
  · exact free_pure _
  refine (free_op (o := Op.randomCookie) rfl).bind fun cookie => ?_
  exact (free_op (o := Op.now) rfl).bind fun t => free_pure _

theorem free_isRegRateLimited (cfg : Config) (src : SocketAddr) : Free (isRegRateLimited cfg src) :=
  (free_op (o := Op.now) rfl).bind fun t =>
    free_op (o := Op.isLimited src t cfg.rateWindow (regRate cfg)) rfl

theorem free_rateTick (cfg : Config) : Free (rateTick cfg) := by
  unfold rateTick
  induction List.finRange numRegShards with
  | nil => exact free_pure ()
  | cons i is ih =>
      refine (free_op (o := Op.now) rfl).bind fun t => ?_
      exact (free_op (o := Op.cleanupStale i t (cfg.rateWindow * 2)) rfl).bind fun _ => ih

/-! ### The pending store -/

/-- Under the guard of a shard of the pending store nothing else is taken. -/
theorem goes_underPending (i : Fin numShards) {body : PendingRegs → Code α}
    (hbody : ∀ regs m, n ≤ m → (body regs).Polite memory locking [.pending i] m fun _ held' _ =>
      held' = []) : Goes (lockPending i >>= body) [] n fun _ _ => True := by
  refine (polite_lockPending i).andThen ?_
  rintro regs held' m hle ⟨rfl, -⟩
  exact (hbody regs m hle).mono fun _ _ _ _ hheld => ⟨hheld, trivial⟩

theorem polite_lastPending (i : Fin numShards) (regs : PendingRegs) (a : α) :
    (unlockPending i regs >>= fun _ => Pure.pure a).Polite memory locking [.pending i] n
      fun _ held' _ => held' = [] := by
  refine (polite_unlockPending i regs).andThen ?_
  rintro - held' m - ⟨rfl, -⟩
  exact Prog.Polite.pure rfl

theorem goes_getPendingReg (room : Room) (src : SocketAddr) :
    Goes (getPendingReg room src) [] n fun _ _ => True :=
  goes_underPending _ fun regs _ _ => polite_lastPending _ regs _

theorem goes_storePendingReg (cfg : Config) (room : Room) (src : SocketAddr) (p : PendingReg) :
    Goes (storePendingReg cfg room src p) [] n fun _ _ => True := by
  refine goes_underPending _ fun regs m _ => ?_
  split
  · exact polite_lastPending _ _ _
  refine (goes_free (o := Op.loadPendingTotal) rfl).polite.andThen ?_
  rintro total held' m - ⟨rfl, -⟩
  split
  · exact polite_lastPending _ _ _
  refine (goes_free (o := Op.addPendingTotal) rfl).polite.andThen ?_
  rintro - held' m - ⟨rfl, -⟩
  refine (goes_free (o := Op.addPendingIp (ipKey src)) rfl).polite.andThen ?_
  rintro - held' m - ⟨rfl, -⟩
  exact polite_lastPending _ _ _

theorem goes_deletePendingReg (room : Room) (src : SocketAddr) :
    Goes (deletePendingReg room src) [] n fun _ _ => True := by
  refine goes_underPending _ fun regs m _ => ?_
  split
  · refine (goes_free (o := Op.subPendingTotal 1) rfl).polite.andThen ?_
    rintro - held' m - ⟨rfl, -⟩
    refine (goes_free (o := Op.removePendingIp (ipKey src)) rfl).polite.andThen ?_
    rintro - held' m - ⟨rfl, -⟩
    exact (polite_unlockPending _ _).mono fun _ _ _ _ hheld => hheld.1
  · exact (polite_unlockPending _ _).mono fun _ _ _ _ hheld => hheld.1

theorem goes_evictPending (t : Instant) (is : List (Fin numShards)) :
    Goes (evictPending t is) [] n fun _ _ => True := by
  induction is generalizing n with
  | nil => exact Goes.pure trivial
  | cons i rest ih =>
      refine (polite_lockPending i).andThen ?_
      rintro regs held' m - ⟨rfl, -⟩
      refine (polite_unlockPending i _).andThen ?_
      rintro - held' m - ⟨rfl, -⟩
      exact ih.andThen fun others m _ _ => Goes.pure trivial

theorem goes_removeStalePendingRegs (t : Instant) :
    Goes (removeStalePendingRegs t) [] n fun _ _ => True := by
  refine (goes_evictPending t _).andThen fun ips m _ _ => ?_
  split
  · exact Goes.pure trivial
  · exact (free_op (o := Op.subPendingTotal ips.length) rfl).bind
      (fun _ => free_removePendingIps ips) [] m

/-! ### Room sweeps -/

theorem goes_underEntry {handle : Handle} (hhandle : handle < n)
    (hheld : ∀ h ∈ held, ∃ i, h = .shard i) {body : RoomEntry → Code α} {post : α → Nat → Prop}
    (hbody : ∀ entry, (body entry).Polite memory locking (.entry handle :: held) n
      fun a held' m => held' = held ∧ post a m) :
    Goes (lockEntry handle >>= body) held n post := by
  refine (polite_lockEntry hhandle hheld).andThen ?_
  rintro entry held' m - ⟨rfl, rfl⟩
  exact hbody entry

theorem goes_sweepEntries (i : Fin numShards) (t : Instant) (regTtl : Duration)
    (entries : List ((_ : Room) × Handle)) (hentries : ∀ e ∈ entries, e.2 < n) :
    Goes (sweepEntries t regTtl entries) [.shard i] n fun _ _ => True := by
  induction entries generalizing n with
  | nil => exact Goes.pure trivial
  | cons e rest ih =>
      obtain ⟨room, handle⟩ := e
      have hheld : ∀ h ∈ [Lock.shard i], ∃ i, h = .shard i := by simp
      refine goes_underEntry (hentries _ List.mem_cons_self) hheld fun entry => ?_
      refine (polite_unlockEntry handle _ hheld).andThen ?_
      rintro - held' m hle ⟨rfl, rfl⟩
      have hothers := ih fun e he => hentries e (List.mem_cons_of_mem _ he)
      exact hothers.andThen fun others m' _ _ => Goes.pure trivial

theorem goes_evictStaleRooms (i : Fin numShards) {rooms : Rooms} (hrooms : Within n rooms)
    (t : Instant) (regTtl : Duration) :
    Goes (evictStaleRooms rooms t regTtl) [.shard i] n fun result m => Within m result.1 := by
  have hentries : ∀ e ∈ rooms.entries, e.2 < n := fun e he =>
    hrooms e.1 e.2 (AList.lookup_eq_some_iff.mpr he)
  refine (goes_sweepEntries i t regTtl rooms.entries hentries).andThen ?_
  rintro ⟨toRemove, unlinked⟩ m hle -
  exact Goes.pure ((hrooms.mono hle).foldl_erase toRemove)

theorem goes_evictShards (t : Instant) (regTtl : Duration) (is : List (Fin numShards)) (total : Nat) :
    Goes (evictShards t regTtl is total) [] n fun _ _ => True := by
  induction is generalizing n total with
  | nil => exact Goes.pure trivial
  | cons i rest ih =>
      refine (polite_lockShard i n).andThen ?_
      rintro rooms held' m - ⟨rfl, hrooms⟩
      refine (goes_evictStaleRooms i hrooms t regTtl).polite.andThen ?_
      rintro ⟨left, gone, unlinked⟩ held' m - ⟨rfl, hleft⟩
      refine (free_removeIpRooms unlinked [.shard i] m).polite.andThen ?_
      rintro - held' m' hle ⟨rfl, -⟩
      refine (polite_unlockShard i (hleft.mono hle)).andThen ?_
      rintro - held' m - ⟨rfl, -⟩
      exact ih (total + gone)

theorem goes_evictStaleRoomsAll (t : Instant) (regTtl : Duration) :
    Goes (evictStaleRoomsAll t regTtl) [] n fun _ _ => True :=
  (goes_evictShards t regTtl _ 0).andThen fun total m _ _ => free_subRooms total [] m

theorem goes_sweepIfFull (cfg : Config) : Goes (sweepIfFull cfg) [] n fun _ _ => True := by
  refine (goes_free (o := Op.loadRoomCount) rfl).andThen fun total m _ _ => ?_
  split
  · exact (goes_free (o := Op.now) rfl).andThen fun t m' _ _ => goes_evictStaleRoomsAll t cfg.regTtl
  · exact Goes.pure trivial

theorem goes_resweepIfFull (i : Fin numShards) (cfg : Config) {rooms : Rooms}
    (hrooms : Within n rooms) :
    Goes (resweepIfFull cfg rooms) [.shard i] n fun left m => Within m left := by
  refine (goes_free (o := Op.loadRoomCount) rfl).andThen fun total m hle _ => ?_
  split
  · refine (goes_free (o := Op.now) rfl).andThen fun t m' hle' _ => ?_
    refine (goes_evictStaleRooms i (hrooms.mono (hle.trans hle')) t cfg.regTtl).andThen ?_
    rintro ⟨left, gone, unlinked⟩ k - hleft
    refine (free_subRooms gone [.shard i] k).andThen fun _ k' hk _ => ?_
    refine (free_removeIpRooms unlinked [.shard i] k').andThen fun _ k'' hk' _ => ?_
    exact Goes.pure (hleft.mono (hk.trans hk'))
  · exact Goes.pure (hrooms.mono hle)

/-! ### Registration -/

theorem goes_createRoom (i : Fin numShards) (cfg : Config) {rooms : Rooms} (hrooms : Within n rooms)
    (room : Room) (src resolved : SocketAddr) :
    Goes (createRoom cfg rooms room src resolved) [.shard i] n fun result m =>
      Within m result.1 := by
  refine (goes_resweepIfFull i cfg hrooms).andThen fun left m _ hleft => ?_
  refine (goes_free (o := Op.loadRoomCount) rfl).andThen fun again m' hle _ => ?_
  have hagain := hleft.mono hle
  split
  · exact Goes.pure hagain
  refine (goes_free (o := Op.countIpRooms (ipKey src)) rfl).andThen fun linked k hk _ => ?_
  have hlinked := hagain.mono hk
  split
  · exact Goes.pure hlinked
  refine (goes_free (o := Op.now) rfl).andThen fun created k' hk' _ => ?_
  refine (free_addClient _ src resolved _ k').andThen fun entry a ha _ => ?_
  refine (goes_newEntry entry).andThen fun handle b hb hhandle => ?_
  refine (goes_free (o := Op.addRoomCount) rfl).andThen fun _ c hc _ => ?_
  refine (goes_free (o := Op.addIpRoom (ipKey src) room) rfl).andThen fun _ d hd _ => ?_
  have hle : k ≤ d := hk'.trans (ha.trans (hb.trans (hc.trans hd)))
  exact Goes.pure ((hlinked.mono hle).insert room (hhandle.trans_le (hc.trans hd)))

/-- A section on an entry under the guards of the shard and of the entry. -/
theorem polite_inEntry (i : Fin numShards) {rooms : Rooms} (hrooms : Within n rooms)
    {handle : Handle} (hhandle : handle < n) {body : RoomEntry → Code (RoomEntry × RegAction)}
    (hbody : ∀ entry, Free (body entry)) :
    (do
      let entry ← lockEntry handle
      let (entry, action) ← body entry
      unlockEntry handle entry
      unlockShard i rooms
      return action : Code RegAction).Polite memory locking [.shard i] n fun _ held' _ =>
        held' = [] := by
  have hheld : ∀ h ∈ [Lock.shard i], ∃ i, h = .shard i := by simp
  refine (polite_lockEntry hhandle hheld).andThen ?_
  rintro entry held' m - ⟨rfl, rfl⟩
  refine (hbody entry _ m).polite.andThen ?_
  rintro ⟨entry, action⟩ held' m' hle ⟨rfl, -⟩
  refine (polite_unlockEntry handle entry hheld).andThen ?_
  rintro - held' m - ⟨rfl, rfl⟩
  refine (polite_unlockShard i (hrooms.mono hle)).andThen ?_
  rintro - held' m - ⟨rfl, -⟩
  exact Prog.Polite.pure rfl

theorem goes_regCookieCreateOrAdmit (cfg : Config) (room : Room) (src resolved : SocketAddr) :
    Goes (regCookieCreateOrAdmit cfg room src resolved) [] n fun _ _ => True := by
  refine (goes_sweepIfFull cfg).andThen fun _ m _ _ => ?_
  refine (polite_lockShard _ m).andThen ?_
  rintro rooms held' m - ⟨rfl, hrooms⟩
  split
  · refine (goes_createRoom _ cfg hrooms room src resolved).polite.andThen ?_
    rintro ⟨left, action⟩ held' m - ⟨rfl, hleft⟩
    refine (polite_unlockShard _ hleft).andThen ?_
    rintro - held' m - ⟨rfl, -⟩
    exact Prog.Polite.pure ⟨rfl, trivial⟩
  · rename_i handle hhandle
    have hentry := polite_inEntry (shardIdx room numShards) hrooms (hrooms room handle hhandle)
      (free_admitInRoom cfg room src resolved)
    exact hentry.mono fun _ _ _ _ hheld => ⟨hheld, trivial⟩

theorem goes_challengeUnknown (cfg : Config) (room : Room) (src : SocketAddr) :
    Goes (challengeUnknown cfg room src) [] n fun _ _ => True := by
  refine (goes_free (o := Op.pendingCountForIp (ipKey src)) rfl).andThen fun waiting m _ _ => ?_
  split
  · exact Goes.pure trivial
  refine (goes_free (o := Op.randomCookie) rfl).andThen fun cookie m' _ _ => ?_
  refine (goes_free (o := Op.now) rfl).andThen fun t k _ _ => ?_
  exact (goes_storePendingReg cfg room src _).andThen fun stored k' _ _ => Goes.pure trivial

theorem goes_findRoom (room : Room) :
    Goes (findRoom room) [] n fun found m => ∀ handle, found = some handle → handle < m := by
  refine (polite_lockShard _ n).andThen ?_
  rintro rooms held' m - ⟨rfl, hrooms⟩
  refine (polite_unlockShard _ hrooms).andThen ?_
  rintro - held' m - ⟨rfl, rfl⟩
  exact Goes.pure (hrooms room)

theorem goes_inRoom (room : Room) {handle : Handle} (hhandle : handle < n)
    {body : RoomEntry → Code (RoomEntry × RegAction)} (hbody : ∀ entry, Free (body entry)) :
    Goes (inRoom room handle body) [] n fun _ _ => True := by
  refine (polite_lockShard _ n).andThen ?_
  rintro rooms held' m hle ⟨rfl, hrooms⟩
  have hentry := polite_inEntry (shardIdx room numShards) hrooms (hhandle.trans_le hle) hbody
  exact hentry.mono fun _ _ _ _ hheld => ⟨hheld, trivial⟩

theorem goes_regWithCookie (cfg : Config) (room : Room) (cookieBytes : Bytes) (src : SocketAddr) :
    Goes (regWithCookie cfg room cookieBytes src) [] n fun _ _ => True := by
  refine (goes_getPendingReg room src).andThen fun pend m _ _ => ?_
  split
  · split
    · exact Goes.pure trivial
    refine (goes_free (o := Op.now) rfl).andThen fun t m' _ _ => ?_
    split
    · exact (goes_deletePendingReg room src).andThen fun _ k _ _ => Goes.pure trivial
    · exact (goes_deletePendingReg room src).andThen fun _ k _ _ =>
        goes_regCookieCreateOrAdmit cfg room src _
  · refine (goes_findRoom room).andThen fun found m' _ hfound => ?_
    split
    · refine (goes_free (o := Op.countIpRooms (ipKey src)) rfl).andThen fun linked k _ _ => ?_
      split
      · exact Goes.pure trivial
      · exact goes_challengeUnknown cfg room src
    · exact goes_inRoom room (hfound _ rfl) (free_cookieInRoom cfg room src cookieBytes)

theorem goes_regInitial (cfg : Config) (room : Room) (src : SocketAddr) :
    Goes (regInitial cfg room src) [] n fun _ _ => True := by
  refine (goes_free (o := Op.countIpRooms (ipKey src)) rfl).andThen fun linked m _ _ => ?_
  split
  · exact Goes.pure trivial
  refine (goes_findRoom room).andThen fun found m' _ hfound => ?_
  split
  · exact goes_challengeUnknown cfg room src
  · exact goes_inRoom room (hfound _ rfl) (free_regInRoom cfg room src)

theorem goes_handleReg (cfg : Config) (room : Room) (cookie : Bytes) (src : SocketAddr) :
    Goes (handleReg cfg room cookie src) [] n fun _ _ => True := by
  refine (free_isRegRateLimited cfg src [] n).andThen fun limited m _ _ => ?_
  split
  · exact Goes.pure trivial
  split
  · exact goes_regInitial cfg room src
  split
  · exact Goes.pure trivial
  split
  · exact Goes.pure trivial
  · exact goes_regWithCookie cfg room _ src

/-! ### Messages and ticks -/

theorem goes_handleMsg (cfg : Config) (payload : Bytes) (src : SocketAddr) :
    Goes (handleMsg cfg payload src) [] n fun _ _ => True := by
  unfold handleMsg
  split
  · exact Goes.pure trivial
  refine (goes_findRoom _).andThen fun found m _ hfound => ?_
  split
  · exact Goes.pure trivial
  · rename_i handle
    have hheld : ∀ h ∈ ([] : List Lock), ∃ i, h = .shard i := by simp
    refine goes_underEntry (hfound handle rfl) hheld fun entry => ?_
    split
    · refine (polite_unlockEntry handle _ hheld).andThen ?_
      rintro - held' m - ⟨rfl, -⟩
      exact Prog.Polite.pure ⟨rfl, trivial⟩
    · refine (goes_free (o := Op.now) rfl).polite.andThen ?_
      rintro t held' m - ⟨rfl, -⟩
      dsimp only
      refine (polite_unlockEntry handle _ hheld).andThen ?_
      rintro - held' m - ⟨rfl, -⟩
      exact Prog.Polite.pure ⟨rfl, trivial⟩

theorem goes_roomTick (cfg : Config) : Goes (roomTick cfg) [] n fun _ _ => True := by
  refine (goes_free (o := Op.now) rfl).andThen fun t m _ _ => ?_
  refine (goes_evictStaleRoomsAll t cfg.regTtl).andThen fun _ m' _ _ => ?_
  exact (goes_free (o := Op.now) rfl).andThen fun later k _ _ => goes_removeStalePendingRegs later

theorem goes_code (cfg : Config) (job : Job) : Goes (code cfg job) [] n fun _ _ => True := by
  cases job with
  | packet data src =>
      change Goes (handlePacket cfg data src) [] n _
      unfold handlePacket
      split
      · exact Goes.pure trivial
      · exact (goes_handleReg cfg _ _ src).andThen fun action m _ _ => Goes.pure trivial
      · exact goes_handleMsg cfg _ src
  | roomTick => exact (goes_roomTick cfg).andThen fun _ m _ _ => Goes.pure trivial
  | rateTick => exact (free_rateTick cfg [] n).andThen fun _ m _ _ => Goes.pure trivial

/-! ### All handlers -/

variable {history : List (Machine.Record (Pool Op Op.Ret Globals (List Reply)) (Schedule Job Input) Op)}
  {pool : Pool Op Op.Ret Globals (List Reply)} {time : Nat}

def someInput : Input := ⟨0, List.replicate pendingCookieBytes 0, rfl⟩

theorem holding_of_run (hrun : Machine.Run (machine cfg) history pool time) :
    ∃ all, Holding memory locking pool all := by
  have hcode : ∀ job, (code cfg job).Polite memory locking [] 0 fun _ rest _ => rest = [] :=
    fun job => (goes_code cfg job).polite.mono fun _ _ _ _ hheld => hheld.1
  refine Memory.run_holding lawful hcode ?_ ?_ hrun
  · intro i room handle hlookup
    cases hlookup
  · intro lock
    cases lock <;> simp [locking, Globals.locked, Globals.empty, Mutex.new, Globals.entry?]

/-- **No handler waits for good.** Whatever handlers and ticks were started and however their steps
were interleaved, as long as not all of them are done one of them can make its next step, and there is
an order of steps in which all of them come to their end. A mutex that guards a single access is taken
and dropped in one step here: nothing else is locked while it is held. -/
theorem unblocked_of_run (hrun : Machine.Run (machine cfg) history pool time) :
    (pool.quiet = false → ∃ (thread : Nat) (o : Op) (next : o.Ret → Code (List Reply)),
      pool.threads[thread]? = some (.op o next) ∧ pool.state.ready o = true) ∧
    ∃ events : List (Schedule Job Input), events.filterMap Schedule.job? = [] ∧
      ((machine cfg).exec pool events).quiet = true := by
  obtain ⟨all, hholding⟩ := holding_of_run hrun
  refine ⟨fun hquiet => hholding.exists_ready lawful hquiet, ?_⟩
  exact hholding.completes lawful someInput .empty (code cfg)

/-- Two sources register for one room, and the first holds the guard of its shard. -/
def contendedSchedule : List (Schedule Job Input) :=
  [.spawn (.packet (ascii "REG r") (.v4 ⟨10, 0, 0, 1⟩ 1000)),
    .spawn (.packet (ascii "REG r") (.v4 ⟨10, 0, 0, 2⟩ 1000))] ++
    List.replicate 4 (.advance 0 someInput) ++ List.replicate 3 (.advance 1 someInput)

def contended : Pool Op Op.Ret Globals (List Reply) :=
  (machine .defaults).exec (machine .defaults).init contendedSchedule

theorem unblocked_of_run_contended :
    (contended.state.shards (shardIdx (ascii "r") numShards)).locked = true ∧
      contended.quiet = false ∧
      ∃ events : List (Schedule Job Input), events.filterMap Schedule.job? = [] ∧
        ((machine .defaults).exec contended events).quiet = true := by
  have hrun := Machine.run_exec _ (memory.ordered .empty (code .defaults) contendedSchedule)
  exact ⟨by decide +kernel, by decide +kernel, (unblocked_of_run hrun).2⟩

end Qvole.Relay.Threads
