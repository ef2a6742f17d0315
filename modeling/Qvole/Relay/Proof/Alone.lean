import Qvole.Lib.Alone
import Qvole.Relay.Proof.Waiting
import Qvole.Relay.Threads

/-!
# Sections on their own

What the sections of the handlers do when nobody interrupts them. On the value behind a guard they do
what the sections of `Relay.Sections` do, and of the shared memory they change the IP links only. The
clock readings are those of a `Clock`.
-/

namespace Qvole.Relay.Threads

variable {cfg : Config} {room : Room} {src resolved : SocketAddr} {s : Globals} {t t' : Instant}

/-- Without interruption, the program comes from the first memory to the second. -/
def Runs {α : Type} (p : Code α) (t : Instant) (s : Globals) (a : α) (t' : Instant) (s' : Globals) :
    Prop :=
  p.Alone memory Input.now t s a t' s'

namespace Runs

variable {α β : Type} {p : Code α} {s' s'' : Globals} {a : α} {b : β} {t'' : Instant}

theorem mono (h : Runs p t s a t' s') {first last : Instant} (hfirst : first ≤ t) (hlast : t' ≤ last) :
    Runs p first s a last s' :=
  Prog.Alone.mono h hfirst hlast

theorem pure (a : α) (hle : t ≤ t') : Runs (Pure.pure a) t s a t' s := .ret hle

theorem bind {rest : α → Code β} (h : Runs p t s a t' s') (hrest : Runs (rest a) t' s' b t'' s'') :
    Runs (p >>= rest) t s b t'' s'' :=
  Prog.Alone.bind h hrest

end Runs

/-! ### Operations -/

def noCookie : Cookie := ⟨List.replicate pendingCookieBytes (UInt8.ofNat 0), rfl⟩

theorem runs_op (o : Op) (input : Input) (hready : s.ready o = true) (hle : t ≤ input.now) :
    Runs (perform o) t s (s.exec o input).2 input.now (s.exec o input).1 := by
  unfold Runs
  exact Prog.Alone.perform (M := memory) input hready hle

theorem runs_perform (o : Op) (hready : s.ready o = true) (t : Instant) :
    Runs (perform o) t s (s.exec o ⟨t, noCookie⟩).2 t (s.exec o ⟨t, noCookie⟩).1 :=
  runs_op o ⟨t, noCookie⟩ hready le_rfl

theorem runs_now (hle : t ≤ t') : Runs now t s t' t' s := runs_op .now ⟨t', noCookie⟩ rfl hle

theorem runs_randomCookie (rnd : Cookie) : Runs randomCookie t s rnd t s :=
  runs_op .randomCookie ⟨t, rnd⟩ rfl le_rfl

theorem runs_countIpRooms (ip : IpAddr) :
    Runs (countIpRooms ip) t s (s.ipCounts.countIpRooms ip) t s :=
  runs_perform (.countIpRooms ip) rfl t

theorem runs_addIpRoom (ip : IpAddr) (room : Room) :
    Runs (addIpRoom ip room) t s () t { s with ipCounts := s.ipCounts.addIpRoom ip room } :=
  runs_perform (.addIpRoom ip room) rfl t

theorem runs_pendingCountForIp (ip : IpAddr) :
    Runs (pendingCountForIp ip) t s ((s.pendingIp.lookup ip).getD 0) t s :=
  runs_perform (.pendingCountForIp ip) rfl t

theorem runs_totalRooms : Runs totalRooms t s s.totalRoomCount t s :=
  runs_perform .loadRoomCount rfl t

theorem runs_loadPendingTotal : Runs loadPendingTotal t s s.pendingTotal t s :=
  runs_perform .loadPendingTotal rfl t

theorem runs_addPendingTotal :
    Runs addPendingTotal t s () t { s with pendingTotal := s.pendingTotal + 1 } :=
  runs_perform .addPendingTotal rfl t

theorem runs_addPendingIp (ip : IpAddr) :
    Runs (addPendingIp ip) t s () t { s with pendingIp := s.pendingIp.incr ip } :=
  runs_perform (.addPendingIp ip) rfl t

theorem runs_subPendingTotal (n : Nat) :
    Runs (subPendingTotal n) t s () t { s with pendingTotal := fetchSub s.pendingTotal n } :=
  runs_perform (.subPendingTotal n) rfl t

theorem runs_removePendingIp (ip : IpAddr) :
    Runs (removePendingIp ip) t s () t { s with pendingIp := s.pendingIp.decr ip } :=
  runs_perform (.removePendingIp ip) rfl t

theorem runs_lockShard {i : Fin numShards} (hunlocked : (s.shards i).locked = false) :
    Runs (lockShard i) t s (s.shards i).value t (s.setShard i { s.shards i with locked := true }) :=
  runs_perform (.lockShard i) (by simp [Globals.ready, hunlocked]) t

theorem runs_unlockShard (i : Fin numShards) (rooms : Rooms) :
    Runs (unlockShard i rooms) t s () t (s.setShard i (.new rooms)) :=
  runs_perform (.unlockShard i rooms) rfl t

theorem runs_lockPending {i : Fin numShards} (hunlocked : (s.pendingShards i).locked = false) :
    Runs (lockPending i) t s (s.pendingShards i).value t
      (s.setPending i { s.pendingShards i with locked := true }) :=
  runs_perform (.lockPending i) (by simp [Globals.ready, hunlocked]) t

theorem runs_unlockPending (i : Fin numShards) (regs : PendingRegs) :
    Runs (unlockPending i regs) t s () t (s.setPending i (.new regs)) :=
  runs_perform (.unlockPending i regs) rfl t

theorem runs_lockEntry {handle : Handle} {entry : RoomEntry}
    (hcell : s.heap[handle]? = some (.new entry)) :
    Runs (lockEntry handle) t s entry t (s.setEntry handle { value := entry, locked := true }) := by
  have hready : s.ready (.lockEntry handle) = true := by
    simp [Globals.ready, Globals.entry?, hcell, Mutex.new]
  have hexec : s.exec (.lockEntry handle) ⟨t, noCookie⟩ =
      (s.setEntry handle { value := entry, locked := true }, entry) := by
    simp only [Globals.exec, Globals.entry?, hcell]
    rfl
  have hop := runs_perform (.lockEntry handle) hready t
  rw [hexec] at hop
  exact hop

theorem runs_unlockEntry (handle : Handle) (entry : RoomEntry) :
    Runs (unlockEntry handle entry) t s () t (s.setEntry handle (.new entry)) :=
  runs_perform (.unlockEntry handle entry) rfl t

/-! ### Sections on an entry -/

theorem runs_removeIpRooms (unlinked : List (IpAddr × Room)) :
    Runs (removeIpRooms unlinked) t s () t { s with ipCounts := s.ipCounts.unlink unlinked } := by
  induction unlinked generalizing s with
  | nil => exact Runs.pure () le_rfl
  | cons link rest ih => exact (runs_perform (.removeIpRoom link.1 link.2) rfl t).bind ih

theorem runs_sweepEntry (entry : RoomEntry) (hle : t ≤ t') :
    let swept := entry.sweep s.ipCounts room t' cfg.regTtl
    Runs (sweepEntry cfg room entry) t s swept.1 t' { s with ipCounts := swept.2 } := by
  refine (runs_now hle).bind ?_
  refine (runs_removeIpRooms _).bind ?_
  exact Runs.pure _ le_rfl

theorem runs_addClient (entry : RoomEntry) (clock : Clock) :
    Runs (addClient entry src resolved) clock.stamp s (entry.admitClient src resolved clock) clock.log s := by
  refine (runs_now le_rfl).bind ?_
  refine (runs_now clock.stamp_le).bind ?_
  refine (runs_now clock.window_le).bind ?_
  exact Runs.pure _ clock.touch_le

theorem runs_linkIp (ip : IpAddr) (already : Bool) :
    Runs (linkIp ip room already) t s () t
      { s with ipCounts := if already then s.ipCounts else s.ipCounts.addIpRoom ip room } := by
  cases already with
  | true => exact Runs.pure () le_rfl
  | false => exact runs_addIpRoom ip room

theorem runs_ipCapped (ip : IpAddr) (already : Bool) :
    Runs (ipCapped cfg ip already) t s
      (!already && decide (s.ipCounts.countIpRooms ip ≥ cfg.maxRoomsPerIp)) t s := by
  cases already with
  | true => exact Runs.pure _ le_rfl
  | false =>
      refine (runs_countIpRooms ip).bind ?_
      exact Runs.pure _ le_rfl

/-- What a section made of an entry, with the memory behind it. -/
def RunsAs (body : RoomEntry → Code (RoomEntry × RegAction)) (t : Instant) (s : Globals)
    (entry : RoomEntry) (t' : Instant) (result : RoomEntry × Links × RegAction) : Prop :=
  Runs (body entry) t s (result.1, result.2.2) t' { s with ipCounts := result.2.1 }

theorem runs_regInRoom (entry : RoomEntry) (clock : Clock) (rnd : Cookie) :
    RunsAs (regInRoom cfg room src) clock.elapsed s entry clock.log
      (entry.regSection cfg room src clock rnd ((s.pendingIp.lookup (ipKey src)).getD 0) s.ipCounts) := by
  unfold RunsAs regInRoom RoomEntry.regSection
  refine (runs_sweepEntry entry clock.elapsed_le).bind ?_
  dsimp only
  generalize entry.sweep s.ipCounts room clock.sweep cfg.regTtl = swept
  have hstamp := clock.sweep_le.trans clock.resweep_le
  have hlog := clock.stamp_le_log
  split
  · exact Runs.pure _ clock.sweep_le_log
  · cases swept.1.udpClients.lookup src with
    | some info => exact (runs_now hstamp).bind (Runs.pure _ hlog)
    | none =>
        cases swept.1.pending.lookup src with
        | some pend => exact (runs_now hstamp).bind (Runs.pure _ hlog)
        | none =>
            refine (runs_pendingCountForIp _).bind ?_
            dsimp only
            split
            · exact Runs.pure _ clock.sweep_le_log
            · refine (runs_randomCookie rnd).bind ((runs_now hstamp).bind ?_)
              split
              · exact Runs.pure _ hlog
              · exact Runs.pure _ hlog

theorem runs_cookieInRoom (entry : RoomEntry) (cookieBytes : Bytes) (clock : Clock) :
    RunsAs (cookieInRoom cfg room src cookieBytes) clock.limit s entry clock.log
      (entry.cookieSection cfg room src cookieBytes clock s.ipCounts) := by
  have hsweep := clock.sweep_le_log
  have hstamp := clock.sweep_le.trans clock.resweep_le
  unfold RunsAs cookieInRoom RoomEntry.cookieSection
  cases entry.pending.lookup src with
  | none => exact Runs.pure _ clock.limit_le_log
  | some pend =>
      dsimp only
      split
      · exact Runs.pure _ clock.limit_le_log
      · refine (runs_now clock.limit_le).bind ?_
        split
        · exact Runs.pure _ clock.elapsed_le_log
        · refine (runs_sweepEntry entry clock.elapsed_le).bind ?_
          generalize entry.sweep s.ipCounts room clock.sweep cfg.regTtl = swept
          refine (runs_ipCapped _ _).bind ?_
          have hcapped : (!(!decide (src ∉ swept.1.udpClients) || swept.1.ofIp (ipKey src)) &&
              decide (swept.2.countIpRooms (ipKey src) ≥ cfg.maxRoomsPerIp)) = true ↔
              src ∉ swept.1.udpClients ∧ (!swept.1.ofIp (ipKey src)) = true ∧
                swept.2.countIpRooms (ipKey src) ≥ cfg.maxRoomsPerIp := by
            simp [and_assoc]
          simp only [hcapped, decide_eq_true_eq]
          split
          · exact Runs.pure _ hsweep
          · split
            · exact Runs.pure _ hsweep
            · split
              · exact Runs.pure _ hsweep
              · refine ((runs_addClient _ clock).mono hstamp le_rfl).bind ?_
                exact (runs_linkIp _ _).bind (Runs.pure _ le_rfl)

theorem runs_admitInRoom (entry : RoomEntry) (clock : Clock) :
    RunsAs (admitInRoom cfg room src resolved) clock.sweep s entry clock.log
      (entry.admitSection cfg room src resolved clock s.ipCounts) := by
  unfold RunsAs admitInRoom RoomEntry.admitSection
  refine (runs_sweepEntry entry clock.sweep_le).bind ?_
  dsimp only
  generalize entry.sweep s.ipCounts room clock.resweep cfg.regTtl = swept
  split
  · exact Runs.pure _ clock.resweep_le_log
  · refine (runs_ipCapped _ _).bind ?_
    have hcapped : (!swept.1.ofIp (ipKey src) &&
        decide (swept.2.countIpRooms (ipKey src) ≥ cfg.maxRoomsPerIp)) = true ↔
        (!swept.1.ofIp (ipKey src)) = true ∧
          swept.2.countIpRooms (ipKey src) ≥ cfg.maxRoomsPerIp := by
      simp
    simp only [hcapped]
    split
    · exact Runs.pure _ clock.resweep_le_log
    · split
      · exact Runs.pure _ clock.resweep_le_log
      · refine ((runs_addClient _ clock).mono clock.resweep_le le_rfl).bind ?_
        exact (runs_linkIp _ _).bind (Runs.pure _ le_rfl)

end Qvole.Relay.Threads
