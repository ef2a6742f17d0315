import Mathlib.Algebra.BigOperators.Pi
import Mathlib.Tactic.Abel
import Qvole.Relay.Proof.Rooms
import Qvole.Relay.Threads

/-!
# A ledger for the counters

A counter of the relay counts entries that stand behind many mutexes. While a guard is held, the
entries behind it are the holder's: its share of the ledger has what they count for, and it may take
some away or add some as long as the counters follow before its share is gone. Taking a guard moves
the worth of a map into the share, dropping it moves the worth of what is written back out of it, and
the atomic counters change with the share. A subtraction is covered by the share of the one who makes
it, so no counter is ever too small for it.
-/

namespace Qvole.Relay.Threads

/-! ### The ledger -/

inductive Account where
  | rooms
  | pending
  | ip (ip : IpAddr)
  /-- The guard of a shard of rooms. -/
  | shard (i : Fin numShards)
  | pendingShard (i : Fin numShards)
  deriving DecidableEq

abbrev Ledger := Account → Nat

/-- An amount on one account. -/
def credit (account : Account) (n : Nat) : Ledger := Pi.single account n

@[simp]
theorem credit_self (account : Account) (n : Nat) : credit account n account = n := by
  rw [credit, Pi.single_eq_same]

@[simp]
theorem credit_of_ne {account other : Account} (h : other ≠ account) (n : Nat) :
    credit account n other = 0 := by
  rw [credit, Pi.single_eq_of_ne h]

@[simp]
theorem credit_zero (account : Account) : credit account 0 = 0 := Pi.single_zero account

theorem credit_add (account : Account) (n m : Nat) :
    credit account (n + m) = credit account n + credit account m := by
  rw [credit, Pi.single_add]
  rfl

def roomsWorth (rooms : Rooms) : Ledger := credit .rooms rooms.size

def pendingWorth (regs : PendingRegs) : Ledger
  | .pending => regs.size
  | .ip ip => regs.countKeys fun key => ipKey key.2 = ip
  | _ => 0

def ipsWorth (ips : List IpAddr) : Ledger
  | .ip ip => ips.count ip
  | _ => 0

/-- What a map counts for as long as nobody holds its guard. -/
def Mutex.free {α : Type} (worth : α → Ledger) (cell : Mutex α) : Ledger :=
  if cell.locked then 0 else worth cell.value

def Globals.stored (s : Globals) : Ledger :=
  ∑ i, (s.shards i).free roomsWorth + ∑ i, (s.pendingShards i).free pendingWorth

/-- The counters of the relay, and the guards that are held. -/
def Globals.counters (s : Globals) : Ledger
  | .rooms => s.totalRoomCount
  | .pending => s.pendingTotal
  | .ip ip => (s.pendingIp.lookup ip).getD 0
  | .shard i => if (s.shards i).locked then 1 else 0
  | .pendingShard i => if (s.pendingShards i).locked then 1 else 0

/-- The counters are those of the free maps and of the shares, no per-IP counter is zero, and the
per-IP counts of every room are those of its pending map. -/
structure Balanced (s : Globals) (l : Ledger) : Prop where
  counters : s.counters = s.stored + l
  pendingIp : s.pendingIp.Tallies fun ip => s.counters (.ip ip)
  tallied : ∀ cell ∈ s.heap, cell.value.Tallied

/-- No subtraction takes more than there is. -/
def Op.Covered (o : Op) (s : Globals) : Prop :=
  match o with
  | .subPendingTotal n => n ≤ s.pendingTotal
  | .subRoomCount n => n ≤ s.totalRoomCount
  | .removePendingIp ip => 1 ≤ (s.pendingIp.lookup ip).getD 0
  | _ => True

def books : Books Op Globals Ledger where
  inv := Balanced
  fine := Op.Covered

/-- A program keeps the books. -/
abbrev Keeps {α : Type} (p : Code α) (l : Ledger) (post : α → Ledger → Prop) : Prop :=
  p.Safe memory books l post

/-! ### Worth of maps -/

theorem roomsWorth_add {rooms left : Rooms} {n : Nat} (h : left.size + n = rooms.size) :
    roomsWorth rooms = roomsWorth left + credit .rooms n := by
  rw [roomsWorth, roomsWorth, ← h, credit_add]

theorem roomsWorth_insert {rooms : Rooms} {room : Room} (h : room ∉ rooms) (handle : Handle) :
    roomsWorth (rooms.insert room handle) = roomsWorth rooms + credit .rooms 1 := by
  rw [roomsWorth, roomsWorth, AList.size_insert, if_neg h, credit_add]

section Pending

variable {regs : PendingRegs} {room : Room} {src : SocketAddr}

theorem pendingWorth_replace (h : (room, src) ∈ regs) (p : PendingReg) :
    pendingWorth (regs.insert (room, src) p) = pendingWorth regs := by
  funext account
  cases account with
  | pending => simp [pendingWorth, AList.size_insert, h]
  | ip ip => simp [pendingWorth, AList.countKeys_insert, h]
  | _ => rfl

theorem pendingWorth_insert (h : (room, src) ∉ regs) (p : PendingReg) :
    pendingWorth (regs.insert (room, src) p) =
      pendingWorth regs + credit .pending 1 + credit (.ip (ipKey src)) 1 := by
  funext account
  cases account with
  | pending => simp [pendingWorth, AList.size_insert, h]
  | ip ip =>
      by_cases hip : ip = ipKey src
      · subst hip
        simp [pendingWorth, AList.countKeys_insert, h]
      · have hip' : ipKey src ≠ ip := Ne.symm hip
        simp [pendingWorth, AList.countKeys_insert, h, hip, hip']
  | _ => simp [pendingWorth]

theorem pendingWorth_erase (h : (room, src) ∈ regs) :
    pendingWorth regs = pendingWorth (regs.erase (room, src)) + credit .pending 1 +
      credit (.ip (ipKey src)) 1 := by
  funext account
  cases account with
  | pending =>
      have hsize := AList.size_erase regs (room, src)
      rw [if_pos h] at hsize
      simp [pendingWorth, hsize]
  | ip ip =>
      have hcount := AList.countKeys_erase (fun key => decide (ipKey key.2 = ip)) regs (room, src)
      by_cases hip : ip = ipKey src
      · subst hip
        simp only [decide_true, h, and_self, if_true] at hcount
        simp [pendingWorth, ← hcount]
      · have hip' : ipKey src ≠ ip := Ne.symm hip
        simp only [hip', decide_false, Bool.false_eq_true, false_and, if_false, add_zero] at hcount
        simp [pendingWorth, hcount, hip]
  | _ => simp [pendingWorth]

theorem pendingWorth_retain (regs : PendingRegs) (evicts : Room × SocketAddr → PendingReg → Bool) :
    pendingWorth regs = pendingWorth (regs.retain fun key p => !evicts key p) +
      (credit .pending ((regs.retain evicts).keys.map fun key => ipKey key.2).length +
        ipsWorth ((regs.retain evicts).keys.map fun key => ipKey key.2)) := by
  funext account
  cases account with
  | pending =>
      have hsplit := AList.countKeys_retain_add evicts (fun _ => true) regs
      simp only [← AList.size_eq_countKeys] at hsplit
      simp only [pendingWorth, ipsWorth, Pi.add_apply, credit_self, List.length_map]
      rw [← hsplit, AList.size]
      omega
  | ip ip =>
      have hsplit := AList.countKeys_retain_add evicts (fun key => decide (ipKey key.2 = ip)) regs
      have hcount : ((regs.retain evicts).keys.map fun key => ipKey key.2).count ip =
          (regs.retain evicts).countKeys fun key => ipKey key.2 = ip := by
        rw [List.count, List.countP_map, AList.countKeys]
        rfl
      simp only [pendingWorth, ipsWorth, Pi.add_apply, hcount]
      rw [credit_of_ne (by simp)]
      omega
  | _ => simp [pendingWorth, ipsWorth]

theorem ipsWorth_append (ips others : List IpAddr) :
    ipsWorth (ips ++ others) = ipsWorth ips + ipsWorth others := by
  funext account
  cases account <;> simp [ipsWorth]

theorem ipsWorth_cons (ip : IpAddr) (ips : List IpAddr) :
    ipsWorth (ip :: ips) = ipsWorth ips + credit (.ip ip) 1 := by
  funext account
  cases account with
  | ip other =>
      by_cases hip : other = ip
      · subst hip
        simp [ipsWorth]
      · have hip' : ip ≠ other := Ne.symm hip
        simp [ipsWorth, hip, hip']
  | _ => simp [ipsWorth]

end Pending

/-! ### Guards -/

section

variable {s s' : Globals} {l f : Ledger} {i : Fin numShards}

theorem sum_free_update {α : Type} (worth : α → Ledger) (cells : Fin numShards → Mutex α)
    (i : Fin numShards) (cell : Mutex α) :
    ∑ j, (Function.update cells i cell j).free worth + (cells i).free worth =
      ∑ j, (cells j).free worth + cell.free worth := by
  have hupdate : (fun j => (Function.update cells i cell j).free worth) =
      Function.update (fun j => (cells j).free worth) i (cell.free worth) := by
    funext j
    by_cases hj : j = i
    · subst hj
      simp
    · simp [hj]
  rw [hupdate, Finset.sum_update_of_mem (Finset.mem_univ i),
    Finset.sum_eq_add_sum_sdiff_singleton_of_mem (Finset.mem_univ i) fun j => (cells j).free worth]
  abel

theorem stored_setShard (s : Globals) (i : Fin numShards) (cell : Mutex Rooms) :
    (s.setShard i cell).stored + (s.shards i).free roomsWorth =
      s.stored + cell.free roomsWorth := by
  have hsum := sum_free_update roomsWorth s.shards i cell
  simp only [Globals.stored, Globals.setShard]
  rw [add_right_comm, hsum]
  abel

theorem stored_setPending (s : Globals) (i : Fin numShards) (cell : Mutex PendingRegs) :
    (s.setPending i cell).stored + (s.pendingShards i).free pendingWorth =
      s.stored + cell.free pendingWorth := by
  have hsum := sum_free_update pendingWorth s.pendingShards i cell
  simp only [Globals.stored, Globals.setPending]
  rw [add_assoc, hsum]
  abel

theorem counters_setShard (s : Globals) (i : Fin numShards) (cell : Mutex Rooms) :
    (s.setShard i cell).counters + credit (.shard i) (if (s.shards i).locked then 1 else 0) =
      s.counters + credit (.shard i) (if cell.locked then 1 else 0) := by
  funext account
  by_cases haccount : account = .shard i
  · subst haccount
    simp [Globals.counters, Globals.setShard, add_comm]
  · simp only [Pi.add_apply, credit_of_ne haccount, add_zero]
    cases account with
    | shard j =>
        have hj : j ≠ i := fun heq => haccount (heq ▸ rfl)
        simp [Globals.counters, Globals.setShard, hj]
    | _ => rfl

theorem counters_setPending (s : Globals) (i : Fin numShards) (cell : Mutex PendingRegs) :
    (s.setPending i cell).counters +
        credit (.pendingShard i) (if (s.pendingShards i).locked then 1 else 0) =
      s.counters + credit (.pendingShard i) (if cell.locked then 1 else 0) := by
  funext account
  by_cases haccount : account = .pendingShard i
  · subst haccount
    simp [Globals.counters, Globals.setPending, add_comm]
  · simp only [Pi.add_apply, credit_of_ne haccount, add_zero]
    cases account with
    | pendingShard j =>
        have hj : j ≠ i := fun heq => haccount (heq ▸ rfl)
        simp [Globals.counters, Globals.setPending, hj]
    | _ => rfl

/-- The books stay balanced when the counters, the free maps and the shares change by amounts that
cancel. -/
theorem Balanced.transfer {l' a b c d : Ledger} (h : Balanced s l)
    (hcounters : s'.counters + a = s.counters + b) (hstored : s'.stored + c = s.stored + d)
    (hshare : l' + (a + d) = l + (b + c))
    (hip : s'.pendingIp.Tallies fun ip => s'.counters (.ip ip))
    (htallied : ∀ cell ∈ s'.heap, cell.value.Tallied) : Balanced s' l' := by
  refine ⟨?_, hip, htallied⟩
  funext account
  have hbefore := congrFun h.counters account
  have hcounters := congrFun hcounters account
  have hstored := congrFun hstored account
  have hshare := congrFun hshare account
  simp only [Pi.add_apply] at hbefore hcounters hstored hshare ⊢
  omega

theorem keeps_lockShard (i : Fin numShards) (l : Ledger) :
    Keeps (lockShard i) l fun rooms l' => l' = l + (credit (.shard i) 1 + roomsWorth rooms) := by
  intro s input rest hready hinv
  have hfree : (s.shards i).locked = false := by simpa [memory, Globals.ready] using hready
  refine ⟨trivial, l + (credit (.shard i) 1 + roomsWorth (s.shards i).value), ?_, rfl⟩
  refine Balanced.transfer hinv (counters_setShard s i { s.shards i with locked := true })
    (stored_setShard s i { s.shards i with locked := true }) ?_ hinv.pendingIp hinv.tallied
  simp only [hfree, Mutex.free, Bool.false_eq_true, if_false, if_true, credit_zero]
  abel

theorem keeps_unlockShard {rooms : Rooms}
    (hl : l = f + (credit (.shard i) 1 + roomsWorth rooms)) :
    Keeps (unlockShard i rooms) l fun _ l' => l' = f := by
  intro s input rest hready hinv
  have hlocked : (s.shards i).locked = true := by
    have hheld := congrFun hinv.counters (.shard i)
    rw [hl] at hheld
    by_contra hfree
    simp [Globals.counters, hfree, roomsWorth] at hheld
    omega
  refine ⟨trivial, f, ?_, rfl⟩
  refine Balanced.transfer hinv (counters_setShard s i (.new rooms))
    (stored_setShard s i (.new rooms)) ?_ hinv.pendingIp hinv.tallied
  simp only [hlocked, hl, Mutex.free, Mutex.new, Bool.false_eq_true, if_false, if_true,
    credit_zero]
  abel

theorem keeps_lockPending (i : Fin numShards) (l : Ledger) :
    Keeps (lockPending i) l fun regs l' =>
      l' = l + (credit (.pendingShard i) 1 + pendingWorth regs) := by
  intro s input rest hready hinv
  have hfree : (s.pendingShards i).locked = false := by simpa [memory, Globals.ready] using hready
  refine ⟨trivial, l + (credit (.pendingShard i) 1 + pendingWorth (s.pendingShards i).value), ?_,
    rfl⟩
  refine Balanced.transfer hinv (counters_setPending s i { s.pendingShards i with locked := true })
    (stored_setPending s i { s.pendingShards i with locked := true }) ?_ hinv.pendingIp
    hinv.tallied
  simp only [hfree, Mutex.free, Bool.false_eq_true, if_false, if_true, credit_zero]
  abel

theorem keeps_unlockPending {regs : PendingRegs}
    (hl : l = f + (credit (.pendingShard i) 1 + pendingWorth regs)) :
    Keeps (unlockPending i regs) l fun _ l' => l' = f := by
  intro s input rest hready hinv
  have hlocked : (s.pendingShards i).locked = true := by
    have hheld := congrFun hinv.counters (.pendingShard i)
    rw [hl] at hheld
    by_contra hfree
    simp [Globals.counters, hfree, pendingWorth] at hheld
    omega
  refine ⟨trivial, f, ?_, rfl⟩
  refine Balanced.transfer hinv (counters_setPending s i (.new regs))
    (stored_setPending s i (.new regs)) ?_ hinv.pendingIp hinv.tallied
  simp only [hlocked, hl, Mutex.free, Mutex.new, Bool.false_eq_true, if_false, if_true,
    credit_zero]
  abel

/-! ### Atomic counters -/

theorem fetchSub_add {a n : Nat} (h : n ≤ a) : fetchSub a n + n = a := by
  rw [fetchSub, if_pos h]
  omega

/-- What the share has of an account, the counter has. -/
theorem Balanced.le_counters {rest : Ledger} {account : Account} {n : Nat}
    (h : Balanced s (f + credit account n + rest)) : n ≤ s.counters account := by
  rw [h.counters]
  simp only [Pi.add_apply, credit_self]
  omega

theorem keeps_addRoomCount (l : Ledger) :
    Keeps addRoomCount l fun _ l' => l' = l + credit .rooms 1 := by
  intro s input rest hready hinv
  refine ⟨trivial, l + credit .rooms 1, ?_, rfl⟩
  have hcounters : { s with totalRoomCount := s.totalRoomCount + 1 }.counters + 0 =
      s.counters + credit .rooms 1 := by
    funext account
    cases account <;> simp [Globals.counters]
  refine Balanced.transfer hinv hcounters (rfl : _ + 0 = s.stored + 0) ?_ hinv.pendingIp
    hinv.tallied
  abel

theorem keeps_subRoomCount {n : Nat} (hl : l = f + credit .rooms n) :
    Keeps (subRoomCount n) l fun _ l' => l' = f := by
  intro s input rest hready hinv
  subst hl
  have hle : n ≤ s.totalRoomCount := Balanced.le_counters hinv
  refine ⟨hle, f, ?_, rfl⟩
  have hcounters : { s with totalRoomCount := fetchSub s.totalRoomCount n }.counters +
      credit .rooms n = s.counters + 0 := by
    funext account
    cases account <;> simp [Globals.counters, fetchSub_add hle]
  refine Balanced.transfer hinv hcounters (rfl : _ + 0 = s.stored + 0) ?_ hinv.pendingIp
    hinv.tallied
  abel

theorem keeps_addPendingTotal (l : Ledger) :
    Keeps addPendingTotal l fun _ l' => l' = l + credit .pending 1 := by
  intro s input rest hready hinv
  refine ⟨trivial, l + credit .pending 1, ?_, rfl⟩
  have hcounters : { s with pendingTotal := s.pendingTotal + 1 }.counters + 0 =
      s.counters + credit .pending 1 := by
    funext account
    cases account <;> simp [Globals.counters]
  refine Balanced.transfer hinv hcounters (rfl : _ + 0 = s.stored + 0) ?_ hinv.pendingIp
    hinv.tallied
  abel

theorem keeps_subPendingTotal {n : Nat} (hl : l = f + credit .pending n) :
    Keeps (subPendingTotal n) l fun _ l' => l' = f := by
  intro s input rest hready hinv
  subst hl
  have hle : n ≤ s.pendingTotal := Balanced.le_counters hinv
  refine ⟨hle, f, ?_, rfl⟩
  have hcounters : { s with pendingTotal := fetchSub s.pendingTotal n }.counters +
      credit .pending n = s.counters + 0 := by
    funext account
    cases account <;> simp [Globals.counters, fetchSub_add hle]
  refine Balanced.transfer hinv hcounters (rfl : _ + 0 = s.stored + 0) ?_ hinv.pendingIp
    hinv.tallied
  abel

theorem keeps_addPendingIp (ip : IpAddr) (l : Ledger) :
    Keeps (addPendingIp ip) l fun _ l' => l' = l + credit (.ip ip) 1 := by
  intro s input rest hready hinv
  refine ⟨trivial, l + credit (.ip ip) 1, ?_, rfl⟩
  have htallies := AList.Tallies.incr hinv.pendingIp ip
  have hcounters : { s with pendingIp := s.pendingIp.incr ip }.counters + 0 =
      s.counters + credit (.ip ip) 1 := by
    funext account
    cases account with
    | ip other =>
        have hcount := htallies.getD other
        by_cases hip : other = ip
        · subst hip
          simpa [Globals.counters] using hcount
        · simpa [Globals.counters, hip] using hcount
    | _ => simp [Globals.counters]
  refine Balanced.transfer hinv hcounters (rfl : _ + 0 = s.stored + 0) ?_ ?_ hinv.tallied
  · abel
  · exact htallies.congr fun other => (htallies.getD other).symm

theorem keeps_removePendingIp {ip : IpAddr} (hl : l = f + credit (.ip ip) 1) :
    Keeps (removePendingIp ip) l fun _ l' => l' = f := by
  intro s input rest hready hinv
  subst hl
  have hle : 1 ≤ s.counters (.ip ip) := Balanced.le_counters hinv
  refine ⟨hle, f, ?_, rfl⟩
  have htallies := AList.Tallies.decr hinv.pendingIp ip
  have hcounters : { s with pendingIp := s.pendingIp.decr ip }.counters + credit (.ip ip) 1 =
      s.counters + 0 := by
    funext account
    cases account with
    | ip other =>
        have hcount := htallies.getD other
        by_cases hip : other = ip
        · subst hip
          simp only [if_true] at hcount
          simp only [Pi.add_apply, credit_self, Pi.zero_apply, add_zero]
          change ((s.pendingIp.decr other).lookup other).getD 0 + 1 = _
          omega
        · simpa [Globals.counters, hip] using hcount
    | _ => simp [Globals.counters]
  refine Balanced.transfer hinv hcounters (rfl : _ + 0 = s.stored + 0) ?_ ?_ hinv.tallied
  · abel
  · exact htallies.congr fun other => (htallies.getD other).symm

/-! ### Operations that leave the books alone -/

/-- The operations that touch the IP links and the rate limits only. -/
def Op.neutral : Op → Bool
  | now => true
  | randomCookie => true
  | isLimited _ _ _ _ => true
  | cleanupStale _ _ _ => true
  | countIpRooms _ => true
  | addIpRoom _ _ => true
  | removeIpRoom _ _ => true
  | pendingCountForIp _ => true
  | loadPendingTotal => true
  | loadRoomCount => true
  | _ => false

theorem keeps_neutral (o : Op) (ho : o.neutral = true) (l : Ledger) :
    Keeps (perform o) l fun _ l' => l' = l := by
  intro s input rest hready hinv
  have hsame : o.Covered s ∧ ∃ links regs,
      (memory.exec o input s).1 = { s with ipCounts := links, regShards := regs } := by
    cases o <;> first | exact absurd ho Bool.false_ne_true | exact ⟨trivial, _, _, rfl⟩
  obtain ⟨hcovered, links, regs, hexec⟩ := hsame
  refine ⟨hcovered, l, ?_, rfl⟩
  rw [hexec]
  exact ⟨hinv.counters, hinv.pendingIp, hinv.tallied⟩

/-! ### Entries -/

theorem keeps_newEntry {entry : RoomEntry} (hentry : entry.Tallied) (l : Ledger) :
    Keeps (newEntry entry) l fun _ l' => l' = l := by
  intro s input rest hready hinv
  refine ⟨trivial, l, ⟨hinv.counters, hinv.pendingIp, ?_⟩, rfl⟩
  intro cell hcell
  rcases List.mem_append.mp hcell with hold | hnew
  · exact hinv.tallied cell hold
  · rw [List.mem_singleton.mp hnew]
    exact hentry

theorem keeps_lockEntry (handle : Handle) (l : Ledger) :
    Keeps (lockEntry handle) l fun entry l' => entry.Tallied ∧ l' = l := by
  intro s input rest hready hinv
  obtain ⟨cell, hcell, -⟩ : ∃ cell, s.entry? handle = some cell ∧ _ := by
    simpa [memory, Globals.ready, Option.any_eq_true] using hready
  have htallied : cell.value.Tallied := hinv.tallied cell (List.mem_of_getElem? hcell)
  have hexec : memory.exec (.lockEntry handle) input s =
      (s.setEntry handle { cell with locked := true }, cell.value) := by
    simp only [memory, Globals.exec, hcell]
    rfl
  rw [hexec]
  refine ⟨trivial, l, ⟨hinv.counters, hinv.pendingIp, ?_⟩, htallied, rfl⟩
  intro other hother
  rcases List.mem_or_eq_of_mem_set hother with hold | rfl
  · exact hinv.tallied other hold
  · exact htallied

theorem keeps_unlockEntry (handle : Handle) {entry : RoomEntry} (hentry : entry.Tallied)
    (l : Ledger) : Keeps (unlockEntry handle entry) l fun _ l' => l' = l := by
  intro s input rest hready hinv
  refine ⟨trivial, l, ⟨hinv.counters, hinv.pendingIp, ?_⟩, rfl⟩
  intro other hother
  rcases List.mem_or_eq_of_mem_set hother with hold | rfl
  · exact hinv.tallied other hold
  · exact hentry


end

end Qvole.Relay.Threads
