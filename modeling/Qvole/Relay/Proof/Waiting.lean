import Qvole.Relay.Proof.Answers

/-!
# A pending registration while it waits

What happens to the registration that a source waits on while the relay handles other things: it
stays the one its cookie will be compared with, unless it expires or the room that holds it is
removed.
-/

namespace Qvole.Relay

/-! ### Rooms that a sweep removes -/

namespace RoomEntry

variable {entry : RoomEntry} {room : Room} {src : SocketAddr} {pend : PendingReg}
  {now later : Instant} {regTtl : Duration}

/-- A sweep at `now` removes the room: all its clients are stale and so is the room. -/
def Doomed (entry : RoomEntry) (now : Instant) (regTtl : Duration) : Prop :=
  (∀ src info, entry.udpClients.lookup src = some info → info.stale now regTtl = true) ∧
    now - entry.t > regTtl

theorem stale_mono {info : UdpClient} (hle : now ≤ later) (h : info.stale now regTtl = true) :
    info.stale later regTtl = true := by
  simp only [UdpClient.stale, decide_eq_true_eq] at h ⊢
  exact h.trans_le (Nat.sub_le_sub_right hle _)

theorem not_expired_mono (hle : now ≤ later) (h : pend.expired later = false) :
    pend.expired now = false := by
  simp only [PendingReg.expired, decide_eq_false_iff_not, not_lt] at h ⊢
  exact (Nat.sub_le_sub_right hle _).trans h

theorem evictable_iff_doomed :
    (entry.removeStaleClients room now regTtl).1.evictable now regTtl = true ↔
      entry.Doomed now regTtl := by
  have hempty : (entry.removeStaleClients room now regTtl).1.udpClients.keys = [] ↔
      ∀ src info, entry.udpClients.lookup src = some info → info.stale now regTtl = true := by
    rw [List.eq_nil_iff_forall_not_mem]
    constructor
    · intro hnone src info hinfo
      by_contra hlive
      refine hnone src (AList.mem_keys.mp (mem_removeStaleClients_udpClients.mpr ⟨info, hinfo, ?_⟩))
      simpa using hlive
    · intro hstale src hmem
      obtain ⟨info, hinfo, hlive⟩ := mem_removeStaleClients_udpClients.mp (AList.mem_keys.mpr hmem)
      rw [hstale src info hinfo] at hlive
      cases hlive
  unfold evictable Doomed
  rw [Bool.and_eq_true, List.isEmpty_iff, hempty, removeStaleClients_t, decide_eq_true_eq]

theorem Doomed.mono (h : entry.Doomed now regTtl) (hle : now ≤ later) :
    entry.Doomed later regTtl := by
  exact ⟨fun src info hinfo => stale_mono hle (h.1 src info hinfo),
    Nat.lt_of_lt_of_le h.2 (Nat.sub_le_sub_right hle _)⟩

theorem doomed_of_doomed_removeStaleClients (hle : now ≤ later)
    (h : (entry.removeStaleClients room now regTtl).1.Doomed later regTtl) :
    entry.Doomed later regTtl := by
  refine ⟨fun src info hinfo => ?_, by simpa using h.2⟩
  by_cases hstale : info.stale now regTtl = true
  · exact stale_mono hle hstale
  · refine h.1 src info ?_
    rw [removeStaleClients_lookup_udpClients, hinfo, Option.filter_some]
    simp [hstale]

theorem removeStaleClients_keeps (hpend : entry.pending.lookup src = some pend)
    (hfresh : pend.expired now = false) (room : Room) (regTtl : Duration) :
    (entry.removeStaleClients room now regTtl).1.pending.lookup src = some pend := by
  rw [removeStaleClients_lookup_pending, hpend, Option.filter_some, hfresh]
  rfl

theorem removePending_keeps {other : SocketAddr} (hne : src ≠ other)
    (hpend : entry.pending.lookup src = some pend) :
    (entry.removePending other).pending.lookup src = some pend := by
  rw [removePending_pending, AList.lookup_erase_ite, if_neg hne, hpend]

end RoomEntry

/-! ### Registrations of others in the same room -/

section Sections

variable {cfg : Config} {room : Room} {cookie : Bytes} {src other resolved : SocketAddr}
  {clock : Clock} {rnd : Cookie} {entry : RoomEntry} {links : Links} {pend : PendingReg}
  {result : RoomEntry × Links × RegAction}

theorem SectionStep.keeps {due : Prop} (hne : src ≠ other)
    (hpend : entry.pending.lookup src = some pend) (hfresh : pend.expired clock.sweep = false)
    (h : SectionStep cfg room cookie other clock rnd due entry links result) :
    result.1.pending.lookup src = some pend := by
  have hkept : (entry.sweep links room clock.sweep cfg.regTtl).1.pending.lookup src = some pend :=
    RoomEntry.removeStaleClients_keeps hpend hfresh room _
  cases h with
  | rejected => exact hpend
  | expired => exact RoomEntry.removePending_keeps hne hpend
  | swept _ _ hswept =>
      cases hswept with
      | full => exact hkept
      | refreshed => exact hkept
      | reissued pend' _ _ =>
          rw [AList.lookup_insert_ite, if_neg hne]
          exact hkept
      | added _ _ _ hroom =>
          rw [RoomEntry.addPending, if_neg fun hfull => Nat.not_le_of_lt hroom hfull.2]
          simp only [AList.lookup_insert_ite, if_neg hne]
          exact hkept
      | completed pend' links' _ _ _ _ _ => exact RoomEntry.removePending_keeps hne hkept

theorem AdmitStep.pending (h : AdmitStep cfg room other resolved clock entry links result) :
    result.1.pending = entry.pending := by
  cases h <;> rfl

end Sections

/-! ### The tables -/

namespace Tables

variable {T T' T'' : Tables} {room other : Room} {src from_ resolved : SocketAddr} {clock : Clock}
  {rnd : Cookie} {cookie : Bytes} {cfg : Config} {pend : PendingReg} {now later : Instant}

theorem consulted_eq_some_iff : T.consulted room src = some pend ↔
    T.getPendingReg room src = some pend ∨ (T.getPendingReg room src = none ∧
      ∃ entry, T.room? room = some entry ∧ entry.pending.lookup src = some pend) := by
  unfold consulted
  cases T.getPendingReg room src with
  | some found => simp
  | none => simp [Option.bind_eq_some_iff]

/-- Whatever of `pend` is in `T` is in `T'`, and the global store has not got in its way. -/
structure Keeps (room : Room) (src : SocketAddr) (pend : PendingReg) (T T' : Tables) : Prop where
  global : T.getPendingReg room src = some pend → T'.getPendingReg room src = some pend
  none : T.getPendingReg room src = none → T'.getPendingReg room src = none
  room : ∀ entry, T.room? room = some entry → entry.pending.lookup src = some pend →
    ∃ after, T'.room? room = some after ∧ after.pending.lookup src = some pend

theorem Keeps.refl (T : Tables) : Keeps room src pend T T :=
  ⟨id, id, fun entry hroom hpend => ⟨entry, hroom, hpend⟩⟩

theorem Keeps.trans (h : Keeps room src pend T T') (h' : Keeps room src pend T' T'') :
    Keeps room src pend T T'' := by
  refine ⟨h'.global ∘ h.global, h'.none ∘ h.none, fun entry hroom hpend => ?_⟩
  obtain ⟨after, hafter, hkept⟩ := h.room entry hroom hpend
  exact h'.room after hafter hkept

theorem Keeps.consulted (h : Keeps room src pend T T') (hT : T.consulted room src = some pend) :
    T'.consulted room src = some pend := by
  rcases consulted_eq_some_iff.mp hT with hglobal | ⟨hnone, entry, hroom, hpend⟩
  · exact consulted_eq_some_iff.mpr (Or.inl (h.global hglobal))
  · exact consulted_eq_some_iff.mpr (Or.inr ⟨h.none hnone, h.room entry hroom hpend⟩)

theorem keeps_of_sameRooms (hsame : SameRooms T T')
    (hglobal : T'.getPendingReg room src = T.getPendingReg room src) : Keeps room src pend T T' := by
  refine ⟨fun h => hglobal.trans h, fun h => hglobal.trans h, fun entry hroom hpend => ?_⟩
  exact ⟨entry, (hsame.room? room).trans hroom, hpend⟩

theorem keeps_deletePendingReg (hne : (room, src) ≠ (other, from_)) :
    Keeps room src pend T (T.deletePendingReg other from_) := by
  refine keeps_of_sameRooms (sameRooms_deletePendingReg T other from_) ?_
  unfold Tables.deletePendingReg getPendingReg
  split
  · rw [AList.lookup_erase_ite, if_neg hne]
  · rfl

theorem keeps_storePendingReg (hne : (room, src) ≠ (other, from_)) (pend' : PendingReg) :
    Keeps room src pend T (T.storePendingReg cfg other from_ pend').1 := by
  refine keeps_of_sameRooms (sameRooms_storePendingReg T cfg other from_ pend') ?_
  unfold Tables.storePendingReg getPendingReg
  split
  · rw [AList.lookup_insert_ite, if_neg hne]
  · split
    · rfl
    · rw [AList.lookup_insert_ite, if_neg hne]

theorem keeps_removeStalePendingRegs (hfresh : pend.expired now = false) :
    Keeps room src pend T (T.removeStalePendingRegs now) := by
  have hsame := sameRooms_removeStalePendingRegs T now
  have hkept : (T.removeStalePendingRegs now).getPendingReg room src =
      (T.getPendingReg room src).filter fun p => !p.expired now := by
    have hregs : (T.removeStalePendingRegs now).pendingRegs =
        T.pendingRegs.retain fun _ p => !p.expired now := by
      unfold Tables.removeStalePendingRegs
      simp only
      split <;> rfl
    rw [getPendingReg, hregs, AList.lookup_retain]
    rfl
  refine ⟨fun h => ?_, fun h => ?_, fun entry hroom hpend =>
    ⟨entry, (hsame.room? room).trans hroom, hpend⟩⟩
  · rw [hkept, h, Option.filter_some, hfresh]
    rfl
  · rw [hkept, h, Option.filter_none]

theorem keeps_setRoom {entry : RoomEntry}
    (hentry : other = room → ∀ before, T.room? room = some before →
      before.pending.lookup src = some pend → entry.pending.lookup src = some pend) :
    Keeps room src pend T (T.setRoom other entry) := by
  refine ⟨id, id, fun before hroom hpend => ?_⟩
  rw [room?_setRoom]
  by_cases heq : room = other
  · rw [if_pos heq]
    exact ⟨entry, rfl, hentry heq.symm before hroom hpend⟩
  · rw [if_neg heq]
    exact ⟨before, hroom, hpend⟩

theorem keeps_inRoom {result : RoomEntry × Links × RegAction}
    (hentry : other = room → ∀ before, T.room? room = some before →
      before.pending.lookup src = some pend → result.1.pending.lookup src = some pend) :
    Keeps room src pend T (T.inRoom other result).1 := by
  have hset := keeps_setRoom hentry
  exact ⟨hset.global, hset.none, hset.room⟩

/-- The room holding the registration is not one that sweeps up to `later` remove. -/
def Spared (room : Room) (src : SocketAddr) (pend : PendingReg) (later : Instant)
    (regTtl : Duration) (T : Tables) : Prop :=
  ∀ entry, T.room? room = some entry → entry.pending.lookup src = some pend →
    ¬ entry.Doomed later regTtl

theorem keeps_sweep {regTtl : Duration} (hspared : T.Spared room src pend later regTtl)
    (hle : now ≤ later) (hfresh : pend.expired now = false)
    (hregs : T'.pendingRegs = T.pendingRegs)
    (hroom : T'.room? room = T.room? room ∨
      T'.room? room = (T.room? room).bind (sweptRoom now regTtl room)) :
    Keeps room src pend T T' ∧ T'.Spared room src pend later regTtl := by
  have hafter : ∀ entry, T.room? room = some entry → entry.pending.lookup src = some pend →
      T'.room? room = some entry ∨
        T'.room? room = some (entry.removeStaleClients room now regTtl).1 := by
    intro entry hentry hpend
    rcases hroom with hsame | hswept
    · exact Or.inl (hsame.trans hentry)
    · right
      rw [hswept, hentry, Option.bind_some, sweptRoom, if_neg]
      rw [RoomEntry.evictable_iff_doomed]
      exact fun hdoomed => hspared entry hentry hpend (hdoomed.mono hle)
  refine ⟨⟨fun h => ?_, fun h => ?_, fun entry hentry hpend => ?_⟩, fun after hafterRoom hpend => ?_⟩
  · rw [getPendingReg, hregs]
    exact h
  · rw [getPendingReg, hregs]
    exact h
  · rcases hafter entry hentry hpend with hsame | hswept
    · exact ⟨entry, hsame, hpend⟩
    · exact ⟨_, hswept, RoomEntry.removeStaleClients_keeps hpend hfresh room _⟩
  · rcases hroom with hsame | hswept
    · exact hspared after (hsame.symm.trans hafterRoom) hpend
    · rw [hafterRoom, eq_comm, Option.bind_eq_some_iff] at hswept
      obtain ⟨entry, hentry, hleft⟩ := hswept
      unfold sweptRoom at hleft
      simp only [Option.ite_none_left_eq_some, Option.some.injEq] at hleft
      obtain ⟨-, rfl⟩ := hleft
      rw [RoomEntry.removeStaleClients_lookup_pending, Option.filter_eq_some_iff] at hpend
      intro hdoomed
      exact hspared entry hentry hpend.1
        (RoomEntry.doomed_of_doomed_removeStaleClients hle hdoomed)

theorem keeps_completeStep (hfresh : pend.expired clock.log = false)
    (hspared : T.totalRoomCount ≥ cfg.maxRooms → T.Spared room src pend clock.resweep cfg.regTtl)
    {result : Tables × RegAction}
    (hstep : CompleteStep cfg other from_ resolved clock T result) :
    Keeps room src pend T result.1 := by
  have hfreshResweep := RoomEntry.not_expired_mono clock.resweep_le_log hfresh
  have hfreshSweep := RoomEntry.not_expired_mono clock.sweep_le hfreshResweep
  have hswept : Keeps room src pend T (T.sweepIfFull cfg clock) ∧
      ((T.sweepIfFull cfg clock).totalRoomCount ≥ cfg.maxRooms →
        (T.sweepIfFull cfg clock).Spared room src pend clock.resweep cfg.regTtl) := by
    unfold Tables.sweepIfFull
    split
    · rename_i hfull
      obtain ⟨hkeeps, hstill⟩ := keeps_sweep (hspared hfull) clock.sweep_le hfreshSweep
        (pendingRegs_evictStaleRoomsAll T) (Or.inr (room?_evictStaleRoomsAll T room))
      exact ⟨hkeeps, fun _ => hstill⟩
    · exact ⟨.refl T, hspared⟩
  obtain ⟨hfirst, hstill⟩ := hswept
  have hsecond : Keeps room src pend (T.sweepIfFull cfg clock)
      ((T.sweepIfFull cfg clock).resweepIfFull cfg other clock) := by
    unfold Tables.resweepIfFull
    split
    · rename_i hfull
      refine (keeps_sweep (hstill hfull) le_rfl hfreshResweep ?_ ?_).1
      · rw [pendingRegs_subRooms]
        rfl
      · rw [room?_subRooms, room?_evictShard]
        split
        · exact Or.inr rfl
        · exact Or.inl rfl
    · exact .refl _
  cases hstep with
  | refused => exact hfirst.trans hsecond
  | created hnone =>
      have hnoRoom := room?_resweepIfFull_eq_none hnone cfg clock
      have hset : Keeps room src pend ((T.sweepIfFull cfg clock).resweepIfFull cfg other clock)
          (((T.sweepIfFull cfg clock).resweepIfFull cfg other clock).setRoom other
            (.created from_ resolved clock)) := by
        refine keeps_setRoom fun heq before hbefore _ => ?_
        subst heq
        rw [hnoRoom] at hbefore
        cases hbefore
      exact hfirst.trans (hsecond.trans ⟨hset.global, hset.none, hset.room⟩)
  | inRoom entry result hentry hadmits =>
      refine hfirst.trans (keeps_inRoom fun heq before hbefore hpend => ?_)
      subst heq
      rw [hentry] at hbefore
      cases hbefore
      rw [hadmits.pending]
      exact RoomEntry.removeStaleClients_keeps hpend hfreshResweep other _

theorem keeps_regStep (hne : (room, src) ≠ (other, from_)) (hfresh : pend.expired clock.log = false)
    (hspared : T.totalRoomCount ≥ cfg.maxRooms →
      (∃ p, T.getPendingReg other from_ = some p ∧ p.Accepts cookie clock) →
        T.Spared room src pend clock.resweep cfg.regTtl)
    {result : Tables × RegAction} (hstep : RegStep cfg other cookie from_ clock rnd T result) :
    Keeps room src pend T result.1 := by
  have hfreshResweep := RoomEntry.not_expired_mono clock.resweep_le_log hfresh
  cases hstep with
  | rejected => exact .refl T
  | expired => exact keeps_deletePendingReg hne
  | stored => exact keeps_storePendingReg hne _
  | inRoom entry result _ hentry hsection =>
      refine keeps_inRoom fun heq before hbefore hpend => ?_
      subst heq
      rw [hentry] at hbefore
      cases hbefore
      have hsrc : src ≠ from_ := fun heq => hne (by rw [heq])
      exact hsection.keeps hsrc hpend (RoomEntry.not_expired_mono clock.sweep_le hfreshResweep)
  | completing p result hp haccepts hcomplete =>
      have hsame := sameRooms_deletePendingReg T other from_
      refine (keeps_deletePendingReg hne).trans (keeps_completeStep hfresh ?_ hcomplete)
      intro hfull entry hentry hpend
      rw [hsame.totalRoomCount] at hfull
      rw [hsame.room?] at hentry
      exact hspared hfull ⟨p, hp, haccepts⟩ entry hentry hpend

end Tables

end Qvole.Relay
