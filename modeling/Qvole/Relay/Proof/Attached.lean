import Qvole.Relay.Concurrent
import Qvole.Relay.Proof.Waiting

/-!
# Registrations in rooms that are there

A handler that found its room keeps the handle of the entry until its next section. The table still
holds that handle then, unless a sweep removed the room in between. Where no sweep does, every
registration lands in the entry that the table holds for its room, under any interleaving.
-/

namespace Qvole.Relay

/-! ### What a section adds to an entry -/

namespace RoomEntry

variable {entry entry' entry'' : RoomEntry}

/-- Every client and every pending registration of `entry'` is one of `entry`. -/
structure Loses (entry entry' : RoomEntry) : Prop where
  clients : ∀ {src info}, entry'.udpClients.lookup src = some info →
    entry.udpClients.lookup src = some info
  pending : ∀ {src pend}, entry'.pending.lookup src = some pend →
    entry.pending.lookup src = some pend

theorem Loses.refl (entry : RoomEntry) : entry.Loses entry := ⟨id, id⟩

theorem Loses.trans (h : entry.Loses entry') (h' : entry'.Loses entry'') : entry.Loses entry'' :=
  ⟨fun hinfo => h.clients (h'.clients hinfo), fun hpend => h.pending (h'.pending hpend)⟩

theorem loses_removeStaleClients (entry : RoomEntry) (room : Room) (now : Instant)
    (regTtl : Duration) : entry.Loses (entry.removeStaleClients room now regTtl).1 := by
  constructor
  · intro src info hinfo
    rw [removeStaleClients_lookup_udpClients] at hinfo
    exact (Option.filter_eq_some_iff.mp hinfo).1
  · intro src pend hpend
    rw [removeStaleClients_lookup_pending] at hpend
    exact (Option.filter_eq_some_iff.mp hpend).1

/-- A client or a pending registration was added, refreshed or issued again. -/
def Gains (entry entry' : RoomEntry) : Prop := ¬ entry.Loses entry'

end RoomEntry

/-! ### Sweeps -/

namespace Shared

variable {s s' : Shared} {room room' : Room} {handle : Handle} {now : Instant} {regTtl : Duration}

/-- The same table over the same entries. -/
structure SameRooms (s s' : Shared) : Prop where
  shards : s'.shards = s.shards
  heap : s'.heap = s.heap

theorem SameRooms.refl (s : Shared) : SameRooms s s := ⟨rfl, rfl⟩

theorem SameRooms.handle? (h : SameRooms s s') (room : Room) : s'.handle? room = s.handle? room := by
  unfold Shared.handle?
  rw [h.shards]

theorem sameRooms_subRooms (s : Shared) (n : Nat) : SameRooms s (s.subRooms n) := by
  unfold subRooms
  split <;> exact ⟨rfl, rfl⟩

theorem sameRooms_setPending (s : Shared) (T : Tables) : SameRooms s (s.setPending T) := ⟨rfl, rfl⟩

theorem loses_sweepEntries (entries : List ((_ : Room) × Handle)) (heap : Handle → RoomEntry)
    (handle : Handle) :
    (heap handle).Loses ((sweepEntries now regTtl entries heap).1 handle) := by
  induction entries generalizing heap with
  | nil => exact .refl _
  | cons e rest ih =>
      obtain ⟨room, other⟩ := e
      refine RoomEntry.Loses.trans ?_ (ih _)
      by_cases heq : handle = other
      · subst heq
        rw [Function.update_self]
        exact RoomEntry.loses_removeStaleClients _ _ _ _
      · rw [Function.update_of_ne heq]
        exact .refl _

theorem doomed_of_mem_toRemove {entries : List ((_ : Room) × Handle)} {heap : Handle → RoomEntry}
    (hmem : room ∈ (sweepEntries now regTtl entries heap).2.1) :
    ∃ handle, ⟨room, handle⟩ ∈ entries ∧ (heap handle).Doomed now regTtl := by
  induction entries generalizing heap with
  | nil => cases hmem
  | cons e rest ih =>
      obtain ⟨first, other⟩ := e
      have hcases : (room = first ∧
          ((heap other).removeStaleClients first now regTtl).1.evictable now regTtl = true) ∨
          room ∈ (sweepEntries now regTtl rest (Function.update heap other
            ((heap other).removeStaleClients first now regTtl).1)).2.1 := by
        simp only [sweepEntries] at hmem
        split at hmem
        · rename_i hevict
          rcases List.mem_cons.mp hmem with heq | hrest
          · exact Or.inl ⟨heq, hevict⟩
          · exact Or.inr hrest
        · exact Or.inr hmem
      rcases hcases with ⟨rfl, hevict⟩ | hrest
      · exact ⟨other, List.mem_cons_self, RoomEntry.evictable_iff_doomed.mp hevict⟩
      · obtain ⟨handle, hin, hdoomed⟩ := ih hrest
        refine ⟨handle, List.mem_cons_of_mem _ hin, ?_⟩
        by_cases heq : handle = other
        · subst heq
          rw [Function.update_self] at hdoomed
          exact RoomEntry.doomed_of_doomed_removeStaleClients le_rfl hdoomed
        · rwa [Function.update_of_ne heq] at hdoomed

theorem handle?_evictShard {i : Fin numShards} (hroom : s.handle? room = some handle)
    (hspared : shardIdx room numShards = i → ¬ (s.heap handle).Doomed now regTtl) :
    (s.evictShard i now regTtl).1.handle? room = some handle := by
  unfold evictShard Shared.handle? at *
  by_cases hi : shardIdx room numShards = i
  · subst hi
    have hkept : room ∉ (sweepEntries now regTtl (s.shards (shardIdx room numShards)).entries
        s.heap).2.1 := by
      intro hmem
      obtain ⟨handle', hin, hdoomed⟩ := doomed_of_mem_toRemove hmem
      have hsame : some handle' = some handle := (AList.lookup_eq_some_iff.mpr hin).symm.trans hroom
      obtain rfl := Option.some.inj hsame
      exact hspared rfl hdoomed
    simp only [Function.update_self, AList.lookup_foldl_erase, hkept, if_false]
    exact hroom
  · simpa only [ne_eq, hi, not_false_eq_true, Function.update_of_ne] using hroom

theorem room?_view (s : Shared) (room : Room) : s.view.room? room = (s.handle? room).map s.heap := by
  unfold view Tables.room? Shared.handle?
  simp only [AList.lookup_mapVals]

theorem handle?_createRoom (s : Shared) (room room' : Room) (src resolved : SocketAddr)
    (clock : Clock) :
    (s.createRoom room src resolved clock).handle? room' =
      if room' = room then some s.fresh else s.handle? room' := by
  unfold createRoom Shared.handle?
  by_cases heq : room' = room
  · subst heq
    simp
  · by_cases hi : shardIdx room' numShards = shardIdx room numShards
    · simp only [hi, Function.update_self, if_neg heq]
      exact AList.lookup_insert_ne heq
    · simp only [ne_eq, hi, not_false_eq_true, Function.update_of_ne, if_neg heq]

end Shared

/-! ### What a section can do -/

/-- The entry a call holds between the section that found it and the one that writes to it. -/
def Stage.held : Stage → Option Handle
  | .inRoom handle => some handle
  | .inRoomCookie handle _ => some handle
  | _ => none

/-- The shard that the next section of a call sweeps, and when. -/
def Stage.sweeps (cfg : Config) (room : Room) (clock : Clock) (s : Shared) :
    Stage → Option (Fin numShards × Instant)
  | .evict _ now (i :: _) _ => some (i, now)
  | .complete _ =>
      if s.handle? room = none ∧ s.totalRoomCount ≥ cfg.maxRooms then
        some (shardIdx room numShards, clock.resweep)
      else none
  | _ => none

def TickStage.sweeps : TickStage → Option (Fin numShards × Instant)
  | .evict now (i :: _) _ => some (i, now)
  | _ => none

/-- The rooms are the same, or one shard was swept. -/
def Shared.MaySweep (regTtl : Duration) (s s' : Shared) : Option (Fin numShards × Instant) → Prop
  | none => s.SameRooms s'
  | some (i, now) => (s.evictShard i now regTtl).1.SameRooms s'

/-- The call goes on, with an entry that the table holds if it holds any, or ends without having
touched an entry. -/
def Stage.Passes (room : Room) (s : Shared) (stage : Stage) : Prop :=
  (∀ handle, stage.held = some handle → s.handle? room = some handle) ∧
    ∀ action handle, stage = .done action handle → handle = none ∧ action ≠ .regd

/-- What one section of a call does: nothing to the entries other than a sweep, a write through the
handle it holds or has just found, or the creation of its room. -/
inductive StageStep (cfg : Config) (room : Room) (src : SocketAddr) (clock : Clock) (s : Shared)
    (stage : Stage) : Shared → Stage → Prop
  | pass {s' : Shared} {stage' : Stage}
      (hsweep : s.MaySweep cfg.regTtl s' (stage.sweeps cfg room clock s))
      (hpass : stage'.Passes room s') : StageStep cfg room src clock s stage s' stage'
  | write (handle : Handle) (result : RoomEntry × Links × RegAction)
      (hhandle : stage.held = some handle ∨ s.handle? room = some handle)
      (hsweep : stage.sweeps cfg room clock s = none)
      (hmember : result.2.2 = .regd → src ∈ result.1.udpClients) :
      StageStep cfg room src clock s stage (s.inEntry handle result).1
        (.done result.2.2 (some handle))
  | create (swept : Shared) (resolved : SocketAddr) (hroom : s.handle? room = none)
      (hsweep : s.MaySweep cfg.regTtl swept (stage.sweeps cfg room clock s)) :
      StageStep cfg room src clock s stage (swept.createRoom room src resolved clock)
        (.done .regd (some swept.fresh))

section Sections

variable {cfg : Config} {room : Room} {cookie : Bytes} {src resolved : SocketAddr} {clock : Clock}
  {rnd : Cookie} {due : Prop} {entry : RoomEntry} {links : Links}
  {result : RoomEntry × Links × RegAction}

theorem mem_admitClient (entry : RoomEntry) (src resolved : SocketAddr) (clock : Clock) :
    src ∈ (entry.admitClient src resolved clock).udpClients := by
  simp [RoomEntry.admitClient]

theorem SectionStep.member (h : SectionStep cfg room cookie src clock rnd due entry links result)
    (hregd : result.2.2 = .regd) : src ∈ result.1.udpClients := by
  cases h with
  | rejected => cases hregd
  | expired => cases hregd
  | swept result _ hswept =>
      cases hswept with
      | full => cases hregd
      | refreshed info _ => simp
      | reissued => cases hregd
      | added => cases hregd
      | completed => exact mem_admitClient _ _ _ _

theorem AdmitStep.member (h : AdmitStep cfg room src resolved clock entry links result)
    (hregd : result.2.2 = .regd) : src ∈ result.1.udpClients := by
  cases h with
  | full => cases hregd
  | admitted => exact mem_admitClient _ _ _ _

end Sections

section Stages

variable {cfg : Config} {room : Room} {cookie : Bytes} {src resolved : SocketAddr} {clock : Clock}
  {rnd : Cookie} {s s' : Shared} {stage stage' : Stage}

theorem passes_done (s : Shared) {action : RegAction} (haction : action ≠ .regd) :
    (Stage.done action none).Passes room s := by
  constructor
  · intro handle hheld
    cases hheld
  · intro action' handle hdone
    cases hdone
    exact ⟨rfl, haction⟩

theorem passes_of_idle (s : Shared) (hheld : stage.held = none)
    (hdone : ∀ action handle, stage ≠ .done action handle) : stage.Passes room s := by
  refine ⟨fun handle h => ?_, fun action handle h => absurd h (hdone action handle)⟩
  rw [hheld] at h
  cases h

theorem passes_of_found {handle : Handle} (hheld : stage.held = some handle)
    (hroom : s.handle? room = some handle) (hdone : ∀ action handle, stage ≠ .done action handle) :
    stage.Passes room s := by
  refine ⟨fun handle' h => ?_, fun action handle h => absurd h (hdone action handle)⟩
  rw [← Option.some.inj (hheld.symm.trans h)]
  exact hroom

/-- A check against a limit: the call ends there, or it goes on without an entry. -/
theorem passes_ite (s : Shared) {full : Prop} [Decidable full] {action : RegAction}
    (haction : action ≠ .regd) (hheld : stage.held = none)
    (hdone : ∀ action handle, stage ≠ .done action handle) :
    (if full then Stage.done action none else stage).Passes room s := by
  split
  · exact passes_done _ haction
  · exact passes_of_idle _ hheld hdone

theorem passes_dispatch (s : Shared) (cookie : Bytes) : (Stage.dispatch cookie).Passes room s := by
  unfold Stage.dispatch
  split
  · exact passes_of_idle _ rfl (by simp)
  · split
    · exact passes_done _ (by simp)
    · split
      · exact passes_done _ (by simp)
      · exact passes_of_idle _ rfl (by simp)

theorem stageStep_complete :
    StageStep cfg room src clock s (.complete resolved)
      (s.completeReg cfg room src resolved clock).1
      (.done (s.completeReg cfg room src resolved clock).2.1
        (s.completeReg cfg room src resolved clock).2.2) := by
  unfold Shared.completeReg
  cases hroom : s.handle? room with
  | some handle =>
      refine .write handle _ (Or.inr hroom) ?_ admitSection_step.member
      simp [Stage.sweeps, hroom]
  | none =>
      have hsweep : s.MaySweep cfg.regTtl (s.resweepIfFull cfg room clock)
          (Stage.sweeps cfg room clock s (.complete resolved)) := by
        unfold Shared.resweepIfFull Stage.sweeps
        by_cases hfull : s.totalRoomCount ≥ cfg.maxRooms
        · simp only [hroom, hfull, true_and, if_true]
          exact Shared.sameRooms_subRooms _ _
        · simp only [hroom, hfull, and_false, if_false]
          exact .refl s
      simp only
      split
      · exact .pass hsweep (passes_done _ (by simp))
      · split
        · exact .pass hsweep (passes_done _ (by simp))
        · exact .create _ resolved hroom hsweep

theorem stageStep_advance (cookie : Bytes) (rnd : Cookie)
    (hrunning : ∀ action handle, stage ≠ .done action handle) :
    StageStep cfg room src clock s stage (stage.advance cfg room cookie src clock rnd s).1
      (stage.advance cfg room cookie src clock rnd s).2 := by
  cases stage with
  | limit =>
      refine .pass ⟨rfl, rfl⟩ ?_
      simp only [Stage.advance]
      split
      · exact passes_done _ (by simp)
      · exact passes_dispatch _ cookie
  | countRooms => exact .pass (.refl s) (passes_ite s (by simp) rfl (by simp))
  | find =>
      simp only [Stage.advance]
      cases hroom : s.handle? room with
      | none => exact .pass (.refl s) (passes_of_idle _ rfl (by simp))
      | some handle => exact .pass (.refl s) (passes_of_found rfl hroom (by simp))
  | inRoom handle =>
      have hsection : SectionStep cfg room [] src clock rnd True (s.heap handle) s.ipCounts _ :=
        regSection_step (s.view.pendingCountForIp (ipKey src))
      exact .write handle _ (Or.inl rfl) rfl hsection.member
  | getPending cookieBytes =>
      simp only [Stage.advance]
      cases s.pendingRegs.lookup (room, src) with
      | none => exact .pass (.refl s) (passes_of_idle _ rfl (by simp))
      | some pend =>
          simp only
          split
          · exact .pass (.refl s) (passes_done _ (by simp))
          · split <;> exact .pass (.refl s) (passes_of_idle _ rfl (by simp))
  | deleteExpired => exact .pass (Shared.sameRooms_setPending s _) (passes_done _ (by simp))
  | deleteMatched resolved =>
      exact .pass (Shared.sameRooms_setPending s _) (passes_of_idle _ rfl (by simp [Stage.advance]))
  | totalRooms resolved =>
      refine .pass (.refl s) ?_
      simp only [Stage.advance]
      split <;> exact passes_of_idle _ rfl (by simp)
  | evict resolved now rest total =>
      cases rest with
      | nil => exact .pass (.refl s) (passes_of_idle _ rfl (by simp [Stage.advance]))
      | cons i rest => exact .pass (.refl _) (passes_of_idle _ rfl (by simp [Stage.advance]))
  | subRooms resolved total =>
      exact .pass (Shared.sameRooms_subRooms s total)
        (passes_of_idle _ rfl (by simp [Stage.advance]))
  | complete resolved => exact stageStep_complete
  | findCookie cookieBytes =>
      simp only [Stage.advance]
      cases hroom : s.handle? room with
      | none => exact .pass (.refl s) (passes_of_idle _ rfl (by simp))
      | some handle => exact .pass (.refl s) (passes_of_found rfl hroom (by simp))
  | inRoomCookie handle cookieBytes =>
      have hsection : SectionStep cfg room _ src clock rnd _ (s.heap handle) s.ipCounts _ :=
        cookieSection_step (hexDecode_toHexLower cookieBytes)
      exact .write handle _ (Or.inl rfl) rfl hsection.member
  | recountRooms => exact .pass (.refl s) (passes_ite s (by simp) rfl (by simp))
  | countPending => exact .pass (.refl s) (passes_ite s (by simp) rfl (by simp))
  | store =>
      refine .pass (Shared.sameRooms_setPending s _) (passes_done _ ?_)
      split <;> simp
  | done action handle => exact absurd rfl (hrunning action handle)

theorem maySweep_tick (cfg : Config) (clock : Clock) (s : Shared) (stage : TickStage) :
    s.MaySweep cfg.regTtl (stage.advance cfg clock s).1 stage.sweeps := by
  cases stage with
  | evict now rest total =>
      cases rest with
      | nil => exact .refl s
      | cons i rest => exact .refl _
  | subRooms total => exact Shared.sameRooms_subRooms s total
  | evictPending now rest evictedIps =>
      cases rest with
      | nil => exact .refl s
      | cons i rest => exact ⟨rfl, rfl⟩
  | subPending evictedIps =>
      simp only [TickStage.advance, TickStage.sweeps]
      split <;> exact ⟨rfl, rfl⟩
  | removeIps evictedIps =>
      cases evictedIps with
      | nil => exact .refl s
      | cons ip rest => exact ⟨rfl, rfl⟩
  | done => exact .refl s

end Stages

namespace Shared

variable {s s' : Shared} {room : Room} {handle : Handle} {regTtl : Duration}
  {sweeps : Option (Fin numShards × Instant)}

theorem MaySweep.handle? (h : s.MaySweep regTtl s' sweeps) (hroom : s.handle? room = some handle)
    (hspared : ∀ i now, sweeps = some (i, now) → shardIdx room numShards = i →
      ¬ (s.heap handle).Doomed now regTtl) : s'.handle? room = some handle := by
  cases sweeps with
  | none => rwa [SameRooms.handle? h]
  | some swept =>
      rw [SameRooms.handle? h]
      exact handle?_evictShard hroom (hspared _ _ rfl)

theorem MaySweep.loses (h : s.MaySweep regTtl s' sweeps) (handle : Handle) :
    (s.heap handle).Loses (s'.heap handle) := by
  cases sweeps with
  | none =>
      rw [SameRooms.heap h]
      exact .refl _
  | some swept =>
      rw [SameRooms.heap h]
      exact loses_sweepEntries _ _ _

end Shared

/-! ### The system -/

def Task.Holds (task : Task) (room : Room) (handle : Handle) : Prop :=
  ∃ cookie src stage, task = .reg room cookie src stage ∧ stage.held = some handle

namespace System

variable {system : System} {move : Move} {room : Room} {handle : Handle}

def Held (system : System) (room : Room) (handle : Handle) : Prop :=
  ∃ task ∈ system.tasks, task.Holds room handle

def sweeps (system : System) : Move → Option (Fin numShards × Instant)
  | .advance index clock _ =>
      match system.tasks[index]? with
      | some (.reg room _ _ stage) => stage.sweeps system.cfg room clock system.shared
      | some (.tick stage) => stage.sweeps
      | none => none
  | _ => none

/-- No room that the next section sweeps, and whose entry some call holds, is doomed. -/
def SparesHeld (system : System) (move : Move) : Prop :=
  ∀ i now, system.sweeps move = some (i, now) → ∀ room handle, shardIdx room numShards = i →
    system.Held room handle → ¬ (system.shared.heap handle).Doomed now system.cfg.regTtl

/-- Every entry that a call holds is the one in the table. -/
def Attached (system : System) : Prop :=
  ∀ room handle, system.Held room handle → system.shared.handle? room = some handle

def Handles (system : System) (move : Move) (room : Room) : Prop :=
  ∃ index clock rnd cookie src stage, move = .advance index clock rnd ∧
    system.tasks[index]? = some (.reg room cookie src stage)

/-- What the next section writes is in the table: the entry a call ends on, the membership it
announces, and whatever is added, refreshed or issued again in any entry. -/
structure Lands (system : System) (move : Move) : Prop where
  written : ∀ answer ∈ (system.step move).2, ∀ handle, answer.handle = some handle →
    (system.step move).1.shared.handle? answer.room = some handle
  member : ∀ answer ∈ (system.step move).2, answer.action = .regd →
    ∃ entry, (system.step move).1.shared.view.room? answer.room = some entry ∧
      answer.src ∈ entry.udpClients
  gained : ∀ handle, (system.shared.heap handle).Gains ((system.step move).1.shared.heap handle) →
    ∃ room, system.Handles move room ∧ (system.step move).1.shared.handle? room = some handle

theorem held_resume {index : Nat} {shared : Shared} {task : Task}
    (h : (system.resume index shared task).Held room handle) :
    system.Held room handle ∨ task.Holds room handle := by
  obtain ⟨other, hmem, hholds⟩ := h
  rcases List.mem_or_eq_of_mem_set hmem with hold | rfl
  · exact Or.inl ⟨other, hold, hholds⟩
  · exact Or.inr hholds

theorem held_append {task : Task}
    (hidle : ∀ room handle, ¬ task.Holds room handle)
    (h : ({ system with tasks := system.tasks ++ [task] } : System).Held room handle) :
    system.Held room handle := by
  obtain ⟨other, hmem, hholds⟩ := h
  rcases List.mem_append.mp hmem with hold | hnew
  · exact ⟨other, hold, hholds⟩
  · obtain rfl := List.mem_singleton.mp hnew
    exact absurd hholds (hidle room handle)

theorem step_cases (system : System) (move : Move) :
    ((system.step move).2 = [] ∧ (system.step move).1.shared = system.shared ∧
      ∀ room handle, (system.step move).1.Held room handle → system.Held room handle) ∨
    (∃ index shared stage, system.step move = (system.resume index shared (.tick stage), []) ∧
      system.shared.MaySweep system.cfg.regTtl shared (system.sweeps move)) ∨
    ∃ index clock rnd room cookie src stage shared stage',
      move = .advance index clock rnd ∧ system.tasks[index]? = some (.reg room cookie src stage) ∧
      StageStep system.cfg room src clock system.shared stage shared stage' ∧
      system.step move =
        (system.resume index shared (.reg room cookie src stage'), stage'.answer room src) := by
  cases move with
  | reg room cookie src =>
      refine Or.inl ⟨rfl, rfl, fun room' handle => held_append ?_⟩
      rintro room' handle ⟨cookie, src, stage, heq, hheld⟩
      cases heq
      cases hheld
  | tick now =>
      refine Or.inl ⟨rfl, rfl, fun room' handle => held_append ?_⟩
      rintro room' handle ⟨cookie, src, stage, heq, hheld⟩
      cases heq
  | advance index clock rnd =>
      cases htask : system.tasks[index]? with
      | none =>
          refine Or.inl ?_
          simp [step, htask]
      | some task =>
          cases task with
          | tick stage =>
              refine Or.inr (Or.inl ⟨index, _, _, by simp only [step, htask]; rfl, ?_⟩)
              simp only [sweeps, htask]
              exact maySweep_tick _ _ _ _
          | reg room cookie src stage =>
              by_cases hdone : ∃ action handle, stage = .done action handle
              · obtain ⟨action, handle, rfl⟩ := hdone
                refine Or.inl ?_
                simp [step, htask]
              · have hrunning : ∀ action handle, stage ≠ .done action handle :=
                  fun action handle heq => hdone ⟨action, handle, heq⟩
                refine Or.inr (Or.inr ⟨index, clock, rnd, room, cookie, src, stage, _, _, rfl, htask,
                  stageStep_advance cookie rnd hrunning, ?_⟩)
                simp only [step, htask]

/-- What a section of a call leaves: held entries are attached, and so is what it wrote. -/
structure Landed (system next : System) (room : Room) (src : SocketAddr) (stage' : Stage) : Prop where
  attached : next.Attached
  written : ∀ action handle, stage' = .done action (some handle) →
    next.shared.handle? room = some handle
  member : ∀ handle, stage' = .done .regd handle →
    ∃ entry, next.shared.view.room? room = some entry ∧ src ∈ entry.udpClients
  gained : ∀ handle, (system.shared.heap handle).Gains (next.shared.heap handle) →
    next.shared.handle? room = some handle

section Landed

variable {index : Nat} {clock : Clock} {cookie : Bytes} {src : SocketAddr} {stage stage' : Stage}
  {shared : Shared}

/-- No entry that a call holds is swept by this section. -/
def Spared (system : System) (sweeps : Option (Fin numShards × Instant)) : Prop :=
  ∀ room handle, system.Held room handle → ∀ i now, sweeps = some (i, now) →
    shardIdx room numShards = i → ¬ (system.shared.heap handle).Doomed now system.cfg.regTtl

theorem landed_pass (hattached : system.Attached)
    (hspared : system.Spared (stage.sweeps system.cfg room clock system.shared))
    (hsweep : system.shared.MaySweep system.cfg.regTtl shared
      (stage.sweeps system.cfg room clock system.shared))
    (hpass : stage'.Passes room shared) :
    Landed system (system.resume index shared (.reg room cookie src stage')) room src stage' where
  attached := by
    intro room' handle hheld
    rcases held_resume hheld with hold | ⟨cookie', src', stage'', heq, hnew⟩
    · exact hsweep.handle? (hattached room' handle hold) (hspared room' handle hold)
    · cases heq
      exact hpass.1 handle hnew
  written := by
    intro action handle hdone
    cases (hpass.2 _ _ hdone).1
  member := by
    intro handle hdone
    exact absurd rfl (hpass.2 _ _ hdone).2
  gained := fun handle hgains => absurd (hsweep.loses handle) hgains

theorem landed_write (hattached : system.Attached)
    (hroom : system.shared.handle? room = some handle) {result : RoomEntry × Links × RegAction}
    (hmember : result.2.2 = .regd → src ∈ result.1.udpClients) :
    Landed system (system.resume index (system.shared.inEntry handle result).1
      (.reg room cookie src (.done result.2.2 (some handle)))) room src
      (.done result.2.2 (some handle)) where
  attached := by
    intro room' handle' hheld
    rcases held_resume hheld with hold | ⟨cookie', src', stage'', heq, hnew⟩
    · exact hattached room' handle' hold
    · cases heq
      cases hnew
  written := by
    intro action handle' hdone
    cases hdone
    exact hroom
  member := by
    intro handle' hdone
    have hentry : (system.shared.inEntry handle result).1.view.room? room = some result.1 := by
      rw [Shared.room?_view]
      change (system.shared.handle? room).map _ = _
      simp [hroom, Shared.inEntry]
    injection hdone with hregd
    exact ⟨result.1, hentry, hmember hregd⟩
  gained := by
    intro handle' hgains
    by_cases heq : handle' = handle
    · subst heq
      exact hroom
    · refine absurd ?_ hgains
      simp only [resume, Shared.inEntry, Function.update_of_ne heq]
      exact .refl _

theorem landed_create (hattached : system.Attached)
    (hspared : system.Spared (stage.sweeps system.cfg room clock system.shared))
    {swept : Shared} (resolved : SocketAddr) (hroom : system.shared.handle? room = none)
    (hsweep : system.shared.MaySweep system.cfg.regTtl swept
      (stage.sweeps system.cfg room clock system.shared)) :
    Landed system (system.resume index (swept.createRoom room src resolved clock)
      (.reg room cookie src (.done .regd (some swept.fresh)))) room src
      (.done .regd (some swept.fresh)) where
  attached := by
    intro room' handle hheld
    change (swept.createRoom room src resolved clock).handle? room' = some handle
    rw [Shared.handle?_createRoom]
    rcases held_resume hheld with hold | ⟨cookie', src', stage'', heq, hnew⟩
    · have hold' := hattached room' handle hold
      have hne : room' ≠ room := by
        rintro rfl
        rw [hroom] at hold'
        cases hold'
      rw [if_neg hne]
      exact hsweep.handle? hold' (hspared room' handle hold)
    · cases heq
      cases hnew
  written := by
    intro action handle hdone
    cases hdone
    change (swept.createRoom room src resolved clock).handle? room = _
    rw [Shared.handle?_createRoom, if_pos rfl]
  member := by
    intro handle hdone
    refine ⟨.created src resolved clock, ?_, mem_admitClient _ _ _ _⟩
    change (swept.createRoom room src resolved clock).view.room? room = _
    rw [Shared.room?_view, Shared.handle?_createRoom, if_pos rfl]
    simp [Shared.createRoom]
  gained := by
    intro handle hgains
    change (swept.createRoom room src resolved clock).handle? room = _
    by_cases heq : handle = swept.fresh
    · rw [Shared.handle?_createRoom, if_pos rfl, heq]
    · refine absurd ?_ hgains
      simp only [resume, Shared.createRoom, Function.update_of_ne heq]
      exact hsweep.loses handle

theorem stageStep_landed (hattached : system.Attached) (hguard : system.SparesHeld move)
    {rnd : Cookie} (hmove : move = .advance index clock rnd)
    (htask : system.tasks[index]? = some (.reg room cookie src stage))
    (hstage : StageStep system.cfg room src clock system.shared stage shared stage') :
    Landed system (system.resume index shared (.reg room cookie src stage')) room src stage' := by
  have hsweeps : system.sweeps move = stage.sweeps system.cfg room clock system.shared := by
    subst hmove
    simp only [sweeps, htask]
  have hspared : system.Spared (stage.sweeps system.cfg room clock system.shared) := by
    intro room' handle hheld i now hsweep hi
    exact hguard i now (hsweeps.trans hsweep) room' handle hi hheld
  cases hstage with
  | pass hsweep hpass => exact landed_pass hattached hspared hsweep hpass
  | write handle result hhandle hsweep hmember =>
      refine landed_write hattached ?_ hmember
      rcases hhandle with hheld | hfound
      · exact hattached room handle ⟨_, List.mem_of_getElem? htask, cookie, src, stage, rfl, hheld⟩
      · exact hfound
  | create swept resolved hroom hsweep =>
      exact landed_create hattached hspared resolved hroom hsweep

end Landed

/-- One step keeps every held entry attached, and its own writes land in the table. -/
theorem attached_step (hattached : system.Attached) (hguard : system.SparesHeld move) :
    (system.step move).1.Attached ∧ system.Lands move := by
  rcases step_cases system move with ⟨hsent, hshared, hheld⟩ | ⟨index, shared, stage, hstep, hsweep⟩ |
    ⟨index, clock, rnd, room, cookie, src, stage, shared, stage', hmove, htask, hstage, hstep⟩
  · refine ⟨?_, ?_, ?_, ?_⟩
    · intro room handle h
      rw [hshared]
      exact hattached room handle (hheld room handle h)
    · simp [hsent]
    · simp [hsent]
    · intro handle hgains
      rw [hshared] at hgains
      exact absurd (.refl _) hgains
  · refine ⟨?_, ?_, ?_, ?_⟩
    · rw [hstep]
      intro room handle h
      rcases held_resume h with hold | ⟨cookie, src, stage', heq, -⟩
      · refine hsweep.handle? (hattached room handle hold) ?_
        intro i now hi hshard
        exact hguard i now hi room handle hshard hold
      · cases heq
    · simp [hstep]
    · simp [hstep]
    · intro handle hgains
      rw [hstep] at hgains
      exact absurd (hsweep.loses handle) hgains
  · obtain ⟨hnext, hwritten, hmember, hgained⟩ :=
      stageStep_landed hattached hguard hmove htask hstage
    refine ⟨by rw [hstep]; exact hnext, ?_, ?_, ?_⟩
    · rw [hstep]
      intro answer hanswer handle hhandle
      cases stage' with
      | done action handle' =>
          obtain rfl := List.mem_singleton.mp hanswer
          cases hhandle
          exact hwritten action handle rfl
      | _ => cases hanswer
    · rw [hstep]
      intro answer hanswer hregd
      cases stage' with
      | done action handle' =>
          obtain rfl := List.mem_singleton.mp hanswer
          cases hregd
          exact hmember handle' rfl
      | _ => cases hanswer
    · rw [hstep]
      intro handle hgains
      exact ⟨room, ⟨index, clock, rnd, cookie, src, stage, hmove, htask⟩, hgained handle hgains⟩

/-- **No registration is lost in a detached room.** In every interleaving in which no sweep removes
a room between the section of a call that found it and the one that writes to it, whatever a call
answers or changes is in the entry that the room table holds at that step. -/
theorem lands_of_run {cfg : Config} {now : Nat} {history : List (Machine.Record System Move Answer)}
    (hrun : Machine.Run (machine cfg) history system now)
    (hguard : ∀ r ∈ history, r.before.SparesHeld r.event) :
    ∀ r ∈ history, r.before.Lands r.event := by
  have hboth : system.Attached ∧ ∀ r ∈ history, r.before.Lands r.event := by
    refine hrun.inv (I := fun history system _ => system.Attached ∧
      ∀ r ∈ history, r.before.Lands r.event) ?_ ?_ hguard
    · refine ⟨?_, by simp⟩
      rintro room handle ⟨task, hmem, -⟩
      cases hmem
    · intro history system now move _ _ hspares hI
      obtain ⟨hnext, hlands⟩ := attached_step hI.1 hspares
      refine ⟨hnext, fun r hr => ?_⟩
      rcases List.mem_append.mp hr with hold | hnew
      · exact hI.2 r hold
      · obtain rfl := List.mem_singleton.mp hnew
        exact hlands
  exact hboth.2

def sections (index n : Nat) (now : Instant) (rnd : Cookie) : List Move :=
  List.replicate n (.advance index (.same now) rnd)

/-- One client is in room `r`, and a second one has just found the room, when a room tick at `now`
gets through the shard of the room; then the second client's call goes on. -/
def raceWithTick (now : Instant) : List Move :=
  [.reg (ascii "r") [] (.v4 ⟨10, 0, 0, 1⟩ 1000)] ++ sections 0 5 0 (.fill 1) ++
    [.reg (ascii "r") (toHexLower (Cookie.fill 1).bytes) (.v4 ⟨10, 0, 0, 1⟩ 1000)] ++
    sections 1 5 0 (.fill 1) ++
    [.reg (ascii "r") [] (.v4 ⟨10, 0, 0, 2⟩ 1000)] ++ sections 2 4 (fromMillis 58000) (.fill 2) ++
    [.reg (ascii "r") (toHexLower (Cookie.fill 2).bytes) (.v4 ⟨10, 0, 0, 2⟩ 1000)] ++
    sections 3 3 now (.fill 2) ++ [.tick now] ++ sections 4 6 now (.fill 2) ++
    sections 3 1 now (.fill 2)

/-- The first client is not stale yet, so the tick leaves the room and the second one joins it. -/
theorem lands_of_run_liveRoom :
    (∃ r ∈ (machine .defaults).trace (machine .defaults).init (raceWithTick (fromMillis 60000)),
      r.sent = [⟨ascii "r", .v4 ⟨10, 0, 0, 2⟩ 1000, .regd, some 0⟩]) ∧
    ∀ r ∈ (machine .defaults).trace (machine .defaults).init (raceWithTick (fromMillis 60000)),
      r.before.Lands r.event := by
  refine ⟨by decide +kernel, lands_of_run ((machine .defaults).run_exec (by decide)) ?_⟩
  have hrecent : ∀ r ∈ (machine .defaults).trace (machine .defaults).init
      (raceWithTick (fromMillis 60000)), r.before.cfg.regTtl = fromMillis 60000 ∧
        ∀ p ∈ r.before.sweeps r.event, p.2 ≤ fromMillis 60000 := by
    decide +kernel
  intro r hr i now hsweeps room handle _ _ hdoomed
  obtain ⟨httl, hbound⟩ := hrecent r hr
  have hlate : now - (r.before.shared.heap handle).t > r.before.cfg.regTtl := hdoomed.2
  have hnow : now ≤ fromMillis 60000 := hbound (i, now) hsweeps
  rw [httl] at hlate
  exact absurd hlate (Nat.not_lt.mpr ((Nat.sub_le _ _).trans hnow))

/-- The first client has just become stale: the tick removes the room that the second client's call
has found, and the call admits the client to the entry it still holds and answers `OK`. -/
theorem lost_in_detached_room :
    Machine.Run (machine .defaults)
        ((machine .defaults).trace (machine .defaults).init (raceWithTick (fromMillis 60001)))
        ((machine .defaults).exec (machine .defaults).init (raceWithTick (fromMillis 60001)))
        ((machine .defaults).clockAfter 0 (raceWithTick (fromMillis 60001))) ∧
      ∃ r ∈ (machine .defaults).trace (machine .defaults).init (raceWithTick (fromMillis 60001)),
        r.sent = [⟨ascii "r", .v4 ⟨10, 0, 0, 2⟩ 1000, .regd, some 0⟩] ∧
          (r.before.step r.event).1.shared.handle? (ascii "r") = none ∧
          ¬ r.before.Lands r.event := by
  have hlost : ∃ r ∈ (machine .defaults).trace (machine .defaults).init
      (raceWithTick (fromMillis 60001)),
      (r.before.step r.event).2 = r.sent ∧
      r.sent = [⟨ascii "r", .v4 ⟨10, 0, 0, 2⟩ 1000, .regd, some 0⟩] ∧
        (r.before.step r.event).1.shared.handle? (ascii "r") = none := by
    decide +kernel
  obtain ⟨r, hr, hstep, hsent, hgone⟩ := hlost
  refine ⟨(machine .defaults).run_exec (by decide), r, hr, hsent, hgone, fun hlands => ?_⟩
  have hwritten := hlands.written ⟨ascii "r", .v4 ⟨10, 0, 0, 2⟩ 1000, .regd, some 0⟩
    (by rw [hstep, hsent]; exact List.mem_singleton_self _) 0 rfl
  rw [hgone] at hwritten
  cases hwritten

end System

end Qvole.Relay
