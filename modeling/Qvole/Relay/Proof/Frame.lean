import Qvole.Relay.Proof.Waiting

/-!
# What a source leaves alone

A datagram changes the registrations of its own source only. All it does to those of others is to
sweep them: a registration may sweep one room, one shard or all of them before it is decided, and a
sweep removes what is stale. So a step is a sweep followed by changes at its own source.
-/

namespace Qvole.Relay

namespace RoomEntry

variable {entry entry' entry'' : RoomEntry} {room : Room} {now later : Instant} {regTtl : Duration}

/-- What sweeps up to `now` leave of an entry: each client or pending registration is as it was, or
it was due and is gone. Sweeping does not make a room due for removal that was not. -/
structure Remains (entry entry' : RoomEntry) (now : Instant) (regTtl : Duration) : Prop where
  clients : ∀ addr, entry'.udpClients.lookup addr = entry.udpClients.lookup addr ∨
    (entry'.udpClients.lookup addr = none ∧
      ∃ info, entry.udpClients.lookup addr = some info ∧ info.stale now regTtl = true)
  pending : ∀ addr, entry'.pending.lookup addr = entry.pending.lookup addr ∨
    (entry'.pending.lookup addr = none ∧
      ∃ pend, entry.pending.lookup addr = some pend ∧ pend.expired now = true)
  doomed : entry'.Doomed now regTtl → entry.Doomed now regTtl

theorem Remains.refl (entry : RoomEntry) : entry.Remains entry now regTtl :=
  ⟨fun _ => Or.inl rfl, fun _ => Or.inl rfl, id⟩

theorem Remains.trans (h : entry.Remains entry' now regTtl)
    (h' : entry'.Remains entry'' now regTtl) : entry.Remains entry'' now regTtl := by
  refine ⟨fun addr => ?_, fun addr => ?_, fun hdoomed => h.doomed (h'.doomed hdoomed)⟩
  · rcases h'.clients addr with hsame | ⟨hgone, info, hinfo, hstale⟩
    · rw [hsame]
      exact h.clients addr
    · rcases h.clients addr with hsame | ⟨hnone, -⟩
      · exact Or.inr ⟨hgone, info, hsame ▸ hinfo, hstale⟩
      · rw [hnone] at hinfo
        cases hinfo
  · rcases h'.pending addr with hsame | ⟨hgone, pend, hpend, hexpired⟩
    · rw [hsame]
      exact h.pending addr
    · rcases h.pending addr with hsame | ⟨hnone, -⟩
      · exact Or.inr ⟨hgone, pend, hsame ▸ hpend, hexpired⟩
      · rw [hnone] at hpend
        cases hpend

theorem expired_mono {pend : PendingReg} (hle : now ≤ later) (h : pend.expired now = true) :
    pend.expired later = true := by
  by_contra hfresh
  rw [not_expired_mono hle (by simpa using hfresh)] at h
  cases h

theorem remains_removeStaleClients (room : Room) (hle : now ≤ later) :
    entry.Remains (entry.removeStaleClients room now regTtl).1 later regTtl := by
  refine ⟨fun addr => ?_, fun addr => ?_, doomed_of_doomed_removeStaleClients hle⟩
  · rw [removeStaleClients_lookup_udpClients]
    cases entry.udpClients.lookup addr with
    | none => exact Or.inl rfl
    | some info =>
        cases hstale : info.stale now regTtl with
        | false => exact Or.inl (by simp [hstale])
        | true => exact Or.inr ⟨by simp [hstale], info, rfl, stale_mono hle hstale⟩
  · rw [removeStaleClients_lookup_pending]
    cases entry.pending.lookup addr with
    | none => exact Or.inl rfl
    | some pend =>
        cases hexpired : pend.expired now with
        | false => exact Or.inl (by simp [hexpired])
        | true => exact Or.inr ⟨by simp [hexpired], pend, rfl, expired_mono hle hexpired⟩

/-- The same for every source but `src`, and with `quiet` the same clients altogether. -/
structure Agrees (src : SocketAddr) (quiet : Prop) (entry entry' : RoomEntry) : Prop where
  clients : ∀ addr, addr ≠ src → entry'.udpClients.lookup addr = entry.udpClients.lookup addr
  pending : ∀ addr, addr ≠ src → entry'.pending.lookup addr = entry.pending.lookup addr
  admitted : quiet → ∀ addr, addr ∈ entry'.udpClients → addr ∈ entry.udpClients

theorem Agrees.refl {src : SocketAddr} {quiet : Prop} (entry : RoomEntry) :
    Agrees src quiet entry entry :=
  ⟨fun _ _ => rfl, fun _ _ => rfl, fun _ _ => id⟩

end RoomEntry

/-! ### Registrations in an existing room -/

section Sections

variable {cfg : Config} {room : Room} {cookie : Bytes} {src resolved : SocketAddr}
  {clock : Clock} {rnd : Cookie} {before entry : RoomEntry} {links : Links}
  {result : RoomEntry × Links × RegAction}

def RegAction.Dropped (action : RegAction) : Prop := ∃ reason, action = .drop reason

theorem not_dropped_regd : ¬ RegAction.regd.Dropped := by
  rintro ⟨reason, h⟩
  cases h

theorem not_dropped_challenge (c : Cookie) : ¬ (RegAction.challenge c).Dropped := by
  rintro ⟨reason, h⟩
  cases h

theorem agrees_removePending {quiet : Prop} (entry : RoomEntry) (src : SocketAddr) :
    RoomEntry.Agrees src quiet entry (entry.removePending src) := by
  refine ⟨fun addr _ => ?_, fun addr hne => ?_, fun _ addr hmem => ?_⟩
  · rw [RoomEntry.removePending_udpClients]
  · rw [RoomEntry.removePending_pending, AList.lookup_erase_ite, if_neg hne]
  · rwa [RoomEntry.removePending_udpClients] at hmem

theorem SweptStep.agrees
    (h : SweptStep cfg room cookie src clock rnd before entry links result) :
    RoomEntry.Agrees src result.2.2.Dropped entry result.1 := by
  cases h with
  | full reason => exact .refl entry
  | refreshed info hinfo =>
      refine ⟨fun addr hne => ?_, fun addr _ => rfl, fun h => absurd h not_dropped_regd⟩
      rw [AList.lookup_insert_ite, if_neg hne]
  | reissued pend _ _ =>
      refine ⟨fun addr _ => rfl, fun addr hne => ?_, fun h => absurd h (not_dropped_challenge _)⟩
      rw [AList.lookup_insert_ite, if_neg hne]
  | added _ _ _ hroom =>
      rw [RoomEntry.addPending, if_neg fun hfull => Nat.not_le_of_lt hroom hfull.2]
      refine ⟨fun addr _ => rfl, fun addr hne => ?_, fun h => absurd h (not_dropped_challenge _)⟩
      rw [AList.lookup_insert_ite, if_neg hne]
  | completed pend links' _ _ _ _ _ =>
      have hremoved : RoomEntry.Agrees src True entry (entry.removePending src) :=
        agrees_removePending entry src
      refine ⟨fun addr hne => ?_, hremoved.pending, fun h => absurd h not_dropped_regd⟩
      rw [RoomEntry.admitClient, AList.lookup_insert_ite, if_neg hne, hremoved.clients addr hne]

theorem SectionStep.agrees {due : Prop}
    (h : SectionStep cfg room cookie src clock rnd due entry links result) :
    ∃ swept, entry.Remains swept clock.resweep cfg.regTtl ∧
      RoomEntry.Agrees src result.2.2.Dropped swept result.1 := by
  cases h with
  | rejected reason => exact ⟨entry, .refl entry, .refl entry⟩
  | expired => exact ⟨entry, .refl entry, agrees_removePending entry src⟩
  | swept _ _ hswept =>
      have hremains : entry.Remains (entry.sweep links room clock.sweep cfg.regTtl).1
          clock.resweep cfg.regTtl := RoomEntry.remains_removeStaleClients room clock.sweep_le
      exact ⟨_, hremains, hswept.agrees⟩

theorem AdmitStep.agrees (h : AdmitStep cfg room src resolved clock entry links result) :
    RoomEntry.Agrees src result.2.2.Dropped entry result.1 := by
  cases h with
  | full reason => exact .refl entry
  | admitted links' _ _ =>
      refine ⟨fun addr hne => ?_, fun addr _ => rfl, fun h => absurd h not_dropped_regd⟩
      rw [RoomEntry.admitClient, AList.lookup_insert_ite, if_neg hne]

end Sections

/-! ### The tables -/

namespace Tables

variable {T T' T'' : Tables} {room : Room} {src resolved : SocketAddr} {clock : Clock}
  {rnd : Cookie} {cookie : Bytes} {cfg : Config} {now later : Instant} {regTtl : Duration}

def client? (T : Tables) (room : Room) (addr : SocketAddr) : Option UdpClient :=
  (T.room? room).bind fun entry => entry.udpClients.lookup addr

def waiting? (T : Tables) (room : Room) (addr : SocketAddr) : Option PendingReg :=
  (T.room? room).bind fun entry => entry.pending.lookup addr

/-- What sweeps up to `now` leave of the rooms. -/
structure Remain (T T' : Tables) (now : Instant) (regTtl : Duration) : Prop where
  kept : ∀ room entry', T'.room? room = some entry' →
    ∃ entry, T.room? room = some entry ∧ entry.Remains entry' now regTtl
  gone : ∀ room entry, T.room? room = some entry → T'.room? room = none →
    entry.Doomed now regTtl

theorem Remain.refl (T : Tables) : T.Remain T now regTtl := by
  refine ⟨fun room entry' h => ⟨entry', h, .refl entry'⟩, fun room entry h hnone => ?_⟩
  rw [h] at hnone
  cases hnone

theorem Remain.trans (h : T.Remain T' now regTtl) (h' : T'.Remain T'' now regTtl) :
    T.Remain T'' now regTtl := by
  refine ⟨fun room entry'' hroom => ?_, fun room entry hroom hnone => ?_⟩
  · obtain ⟨entry', hroom', hremains'⟩ := h'.kept room entry'' hroom
    obtain ⟨entry, hroom, hremains⟩ := h.kept room entry' hroom'
    exact ⟨entry, hroom, hremains.trans hremains'⟩
  · cases hmid : T'.room? room with
    | none => exact h.gone room entry hroom hmid
    | some entry' =>
        obtain ⟨entry₀, hroom₀, hremains⟩ := h.kept room entry' hmid
        rw [hroom] at hroom₀
        cases hroom₀
        exact hremains.doomed (h'.gone room entry' hmid hnone)

theorem Remain.client? (h : T.Remain T' now regTtl) (room : Room) (addr : SocketAddr) :
    T'.client? room addr = T.client? room addr ∨
      (T'.client? room addr = none ∧
        ∃ info, T.client? room addr = some info ∧ info.stale now regTtl = true) := by
  unfold Tables.client?
  cases hafter : T'.room? room with
  | some entry' =>
      obtain ⟨entry, hentry, hremains⟩ := h.kept room entry' hafter
      rw [hentry]
      exact hremains.clients addr
  | none =>
      cases hbefore : T.room? room with
      | none => exact Or.inl rfl
      | some entry =>
          have hdoomed := h.gone room entry hbefore hafter
          rw [Option.bind_none, Option.bind_some]
          cases hinfo : entry.udpClients.lookup addr with
          | none => exact Or.inl rfl
          | some info => exact Or.inr ⟨rfl, info, rfl, hdoomed.1 addr info hinfo⟩

theorem Remain.waiting? (h : T.Remain T' now regTtl) (room : Room) (addr : SocketAddr) :
    T'.waiting? room addr = T.waiting? room addr ∨
      (T'.waiting? room addr = none ∧
        ∃ entry pend, T.room? room = some entry ∧ entry.pending.lookup addr = some pend ∧
          (pend.expired now = true ∨ entry.Doomed now regTtl)) := by
  unfold Tables.waiting?
  cases hafter : T'.room? room with
  | some entry' =>
      obtain ⟨entry, hentry, hremains⟩ := h.kept room entry' hafter
      rw [hentry]
      rcases hremains.pending addr with hsame | ⟨hnone, pend, hpend, hexpired⟩
      · exact Or.inl hsame
      · exact Or.inr ⟨hnone, entry, pend, rfl, hpend, Or.inl hexpired⟩
  | none =>
      cases hbefore : T.room? room with
      | none => exact Or.inl rfl
      | some entry =>
          have hdoomed := h.gone room entry hbefore hafter
          rw [Option.bind_none, Option.bind_some]
          cases hpend : entry.pending.lookup addr with
          | none => exact Or.inl rfl
          | some pend => exact Or.inr ⟨rfl, entry, pend, rfl, hpend, Or.inr hdoomed⟩

theorem remain_of_room? (h : ∀ room, T'.room? room = T.room? room) : T.Remain T' now regTtl := by
  refine ⟨fun room entry' hroom => ⟨entry', h room ▸ hroom, .refl entry'⟩, ?_⟩
  intro room entry hroom hnone
  rw [h room, hroom] at hnone
  cases hnone

theorem remain_of_swept (hle : now ≤ later)
    (h : ∀ room, T'.room? room = T.room? room ∨
      T'.room? room = (T.room? room).bind (sweptRoom now regTtl room)) :
    T.Remain T' later regTtl := by
  refine ⟨fun room entry' hroom => ?_, fun room entry hroom hnone => ?_⟩
  · rcases h room with hsame | hswept
    · exact ⟨entry', hsame.symm.trans hroom, .refl entry'⟩
    · rw [hroom, eq_comm, Option.bind_eq_some_iff] at hswept
      obtain ⟨entry, hentry, hleft⟩ := hswept
      unfold sweptRoom at hleft
      simp only [Option.ite_none_left_eq_some, Option.some.injEq] at hleft
      obtain ⟨-, rfl⟩ := hleft
      exact ⟨entry, hentry, RoomEntry.remains_removeStaleClients room hle⟩
  · rcases h room with hsame | hswept
    · rw [hsame, hroom] at hnone
      cases hnone
    · rw [hnone, hroom, Option.bind_some, sweptRoom] at hswept
      by_cases hdoomed :
          (entry.removeStaleClients room now regTtl).1.evictable now regTtl = true
      · exact (RoomEntry.evictable_iff_doomed.mp hdoomed).mono hle
      · simp [hdoomed] at hswept

theorem remain_sweepIfFull (T : Tables) (cfg : Config) (clock : Clock) :
    T.Remain (T.sweepIfFull cfg clock) clock.resweep cfg.regTtl := by
  unfold sweepIfFull
  split
  · exact remain_of_swept clock.sweep_le fun room => Or.inr (room?_evictStaleRoomsAll T room)
  · exact .refl T

theorem remain_resweepIfFull (T : Tables) (cfg : Config) (room : Room) (clock : Clock) :
    T.Remain (T.resweepIfFull cfg room clock) clock.resweep cfg.regTtl := by
  unfold resweepIfFull
  split
  · refine remain_of_swept le_rfl fun room' => ?_
    rw [room?_subRooms, room?_evictShard]
    split
    · exact Or.inr rfl
    · exact Or.inl rfl
  · exact .refl T

theorem remain_setRoom {entry swept : RoomEntry} (hroom : T.room? room = some entry)
    (h : entry.Remains swept now regTtl) : T.Remain (T.setRoom room swept) now regTtl := by
  refine ⟨fun room' entry' hroom' => ?_, fun room' entry' hroom' hnone => ?_⟩
  · rw [room?_setRoom] at hroom'
    split at hroom'
    · rename_i heq
      cases hroom'
      exact ⟨entry, heq ▸ hroom, h⟩
    · exact ⟨entry', hroom', .refl entry'⟩
  · rw [room?_setRoom] at hnone
    split at hnone
    · cases hnone
    · rw [hroom'] at hnone
      cases hnone

/-- The same for every source but `src`, and with `quiet` no client that was not there. -/
structure Agree (src : SocketAddr) (quiet : Prop) (T T' : Tables) : Prop where
  clients : ∀ room addr, addr ≠ src → T'.client? room addr = T.client? room addr
  waiting : ∀ room addr, addr ≠ src → T'.waiting? room addr = T.waiting? room addr
  admitted : quiet → ∀ room addr, (T'.client? room addr).isSome → (T.client? room addr).isSome

theorem agree_of_room? {quiet : Prop} (h : ∀ room, T'.room? room = T.room? room) :
    Agree src quiet T T' := by
  refine ⟨fun room addr _ => ?_, fun room addr _ => ?_, fun _ room addr => ?_⟩
  · rw [client?, client?, h room]
  · rw [waiting?, waiting?, h room]
  · rw [client?, client?, h room]
    exact id

theorem client?_eq (T : Tables) (room : Room) (addr : SocketAddr) :
    T.client? room addr = ((T.room? room).getD (.new 0)).udpClients.lookup addr := by
  unfold client?
  cases T.room? room <;> rfl

theorem waiting?_eq (T : Tables) (room : Room) (addr : SocketAddr) :
    T.waiting? room addr = ((T.room? room).getD (.new 0)).pending.lookup addr := by
  unfold waiting?
  cases T.room? room <;> rfl

/-- A change of one room; a room that is not there counts as empty. -/
theorem agree_at {quiet : Prop} {entry' : RoomEntry} (room : Room)
    (hroom : ∀ other, T'.room? other = if other = room then some entry' else T.room? other)
    (h : RoomEntry.Agrees src quiet ((T.room? room).getD (.new 0)) entry') :
    Agree src quiet T T' := by
  refine ⟨fun other addr hne => ?_, fun other addr hne => ?_, fun hquiet other addr => ?_⟩
  · rw [client?_eq, client?_eq, hroom]
    split
    · rename_i heq
      rw [heq]
      exact h.clients addr hne
    · rfl
  · rw [waiting?_eq, waiting?_eq, hroom]
    split
    · rename_i heq
      rw [heq]
      exact h.pending addr hne
    · rfl
  · rw [client?_eq, client?_eq, hroom, AList.lookup_isSome, AList.lookup_isSome]
    split
    · rename_i heq
      rw [heq]
      exact h.admitted hquiet addr
    · exact id

theorem agree_inRoom {quiet : Prop} {entry swept : RoomEntry}
    {result : RoomEntry × Links × RegAction} (hroom : T.room? room = some entry)
    (hswept : entry.Remains swept now regTtl) (h : RoomEntry.Agrees src quiet swept result.1) :
    ∃ T', T.Remain T' now regTtl ∧ Agree src quiet T' (T.inRoom room result).1 := by
  have hafter : ∀ other, (T.inRoom room result).1.room? other =
      if other = room then some result.1 else (T.setRoom room swept).room? other := by
    intro other
    have hset : (T.inRoom room result).1.room? other =
        if other = room then some result.1 else T.room? other := room?_setRoom T room other _
    rw [hset, room?_setRoom]
    split <;> rfl
  refine ⟨T.setRoom room swept, remain_setRoom hroom hswept, agree_at room hafter ?_⟩
  rw [room?_setRoom, if_pos rfl]
  exact h

theorem agrees_created {quiet : Prop} (hloud : ¬ quiet) (now : Instant) :
    RoomEntry.Agrees src quiet (.new now) (.created src resolved clock) := by
  refine ⟨fun addr hne => ?_, fun addr _ => rfl, fun h => absurd h hloud⟩
  rw [RoomEntry.created, RoomEntry.admitClient, AList.lookup_insert_ite, if_neg hne]
  rfl

/-! ### Whole registrations -/

theorem completeStep_agree {result : Tables × RegAction}
    (h : CompleteStep cfg room src resolved clock T result) :
    ∃ swept, T.Remain swept clock.resweep cfg.regTtl ∧
      Agree src result.2.Dropped swept result.1 := by
  have hfirst := remain_sweepIfFull T cfg clock
  have hsecond := hfirst.trans (remain_resweepIfFull (T.sweepIfFull cfg clock) cfg room clock)
  cases h with
  | refused reason _ => exact ⟨_, hsecond, agree_of_room? fun _ => rfl⟩
  | created hroom _ _ =>
      refine ⟨_, hsecond, agree_at room (fun other => room?_setRoom _ room other _) ?_⟩
      rw [room?_resweepIfFull_eq_none hroom cfg clock]
      exact agrees_created not_dropped_regd 0
  | inRoom entry result hroom hadmit =>
      obtain ⟨swept, hremain, hagree⟩ := agree_inRoom hroom
        (RoomEntry.remains_removeStaleClients room le_rfl) hadmit.agrees
      exact ⟨swept, hfirst.trans hremain, hagree⟩

theorem pendingRegs_sweepIfFull (T : Tables) (cfg : Config) (clock : Clock) :
    (T.sweepIfFull cfg clock).pendingRegs = T.pendingRegs := by
  unfold sweepIfFull
  split
  · exact pendingRegs_evictStaleRoomsAll T
  · rfl

theorem pendingRegs_resweepIfFull (T : Tables) (cfg : Config) (room : Room) (clock : Clock) :
    (T.resweepIfFull cfg room clock).pendingRegs = T.pendingRegs := by
  unfold resweepIfFull
  split
  · rw [pendingRegs_subRooms]
    rfl
  · rfl

theorem pendingRegs_of_completeStep {result : Tables × RegAction}
    (h : CompleteStep cfg room src resolved clock T result) :
    result.1.pendingRegs = T.pendingRegs := by
  have hfirst := pendingRegs_sweepIfFull T cfg clock
  have hsecond := pendingRegs_resweepIfFull (T.sweepIfFull cfg clock) cfg room clock
  cases h with
  | refused => exact hsecond.trans hfirst
  | created => exact hsecond.trans hfirst
  | inRoom => exact hfirst

/-- **Inversion.** A registration is a sweep up to its last sweep instant, then changes at its own
source. -/
theorem regStep_agree {result : Tables × RegAction}
    (h : RegStep cfg room cookie src clock rnd T result) :
    (∃ swept, T.Remain swept clock.resweep cfg.regTtl ∧
      Agree src result.2.Dropped swept result.1) ∧
    ∀ other addr, addr ≠ src →
      result.1.getPendingReg other addr = T.getPendingReg other addr := by
  have hdelete : ∀ other addr, addr ≠ src →
      (T.deletePendingReg room src).getPendingReg other addr = T.getPendingReg other addr := by
    intro other addr hne
    unfold deletePendingReg getPendingReg
    split
    · rw [AList.lookup_erase_ite, if_neg fun heq => hne (Prod.mk.inj heq).2]
    · rfl
  have hdeleted := sameRooms_deletePendingReg T room src
  cases h with
  | rejected reason => exact ⟨⟨T, .refl T, agree_of_room? fun _ => rfl⟩, fun _ _ _ => rfl⟩
  | expired => exact ⟨⟨T, .refl T, agree_of_room? hdeleted.room?⟩, hdelete⟩
  | stored _ _ _ =>
      refine ⟨⟨T, .refl T, agree_of_room? (sameRooms_storePendingReg T cfg room src _).room?⟩, ?_⟩
      intro other addr hne
      have hkey : (other, addr) ≠ (room, src) := fun heq => hne (Prod.mk.inj heq).2
      unfold storePendingReg getPendingReg
      split
      · rw [AList.lookup_insert_ite, if_neg hkey]
      · split
        · rfl
        · rw [AList.lookup_insert_ite, if_neg hkey]
  | inRoom entry result _ hroom hsection =>
      obtain ⟨swept, hremains, hagrees⟩ := hsection.agrees
      exact ⟨agree_inRoom hroom hremains hagrees, fun _ _ _ => rfl⟩
  | completing pend result _ _ hcomplete =>
      obtain ⟨swept, hremain, hagree⟩ := completeStep_agree hcomplete
      refine ⟨⟨swept, (remain_of_room? hdeleted.room?).trans hremain, hagree⟩, ?_⟩
      intro other addr hne
      rw [← hdelete other addr hne, getPendingReg, getPendingReg, pendingRegs_of_completeStep hcomplete]

end Tables

/-! ### Whole datagrams -/

section Packets

variable {relay : Relay} {data : Bytes} {src : SocketAddr} {clock : Clock} {rnd : Cookie}

theorem packet_agree (relay : Relay) (data : Bytes) (src : SocketAddr) (clock : Clock)
    (rnd : Cookie) :
    (∃ swept, relay.tables.Remain swept clock.resweep relay.cfg.regTtl ∧
      Tables.Agree src ((relay.handlePacket data src clock rnd).2 = []) swept
        (relay.handlePacket data src clock rnd).1.tables) ∧
    ∀ room addr, addr ≠ src →
      (relay.handlePacket data src clock rnd).1.tables.getPendingReg room addr =
        relay.tables.getPendingReg room addr := by
  have hstep := (step_relayStep relay (.packet data src clock rnd)).2
  simp only [step] at hstep
  generalize (relay.handlePacket data src clock rnd).1.tables = T at hstep ⊢
  generalize (relay.handlePacket data src clock rnd).2 = sent at hstep ⊢
  cases hstep with
  | quiet => exact ⟨⟨_, .refl _, Tables.agree_of_room? fun _ => rfl⟩, fun _ _ _ => rfl⟩
  | reg room cookie T action _ _ hreg =>
      obtain ⟨⟨swept, hremain, hagree⟩, hglobal⟩ := Tables.regStep_agree hreg
      refine ⟨⟨swept, hremain, hagree.clients, hagree.waiting, fun hsent => ?_⟩, hglobal⟩
      apply hagree.admitted
      by_contra hanswered
      exact RegAction.replies_ne_nil_iff.mpr (fun reason heq => hanswered ⟨reason, heq⟩) hsent
  | msg room phase body entry info rateLimiter sent hroom hinfo _ =>
      refine ⟨⟨_, .refl _, Tables.agree_at room (Tables.room?_setRoom _ room · _) ?_⟩,
        fun _ _ _ => rfl⟩
      rw [hroom, Option.getD_some]
      refine ⟨fun addr hne => ?_, fun _ _ => rfl, fun _ addr => (mem_metered hinfo _ addr).mp⟩
      rw [RoomEntry.metered, AList.lookup_insert_ite, if_neg hne]

theorem sent_eq_nil_of_dropped
    (h : (relay.handlePacket data src clock rnd).1.meters.statDrops ≠ relay.meters.statDrops) :
    (relay.handlePacket data src clock rnd).2 = [] := by
  unfold handlePacket at h ⊢
  split at h
  · rfl
  · unfold handleReg at h ⊢
    simp only at h ⊢
    split at h
    · rename_i hlimited
      rw [if_pos hlimited]
      rfl
    · rename_i hlimited
      rw [if_neg hlimited]
      split at h
      · exact absurd rfl h
      · exact absurd rfl h
      · rfl
  · unfold handleMsg at h ⊢
    split at h
    · rfl
    · split at h
      · rfl
      · split at h
        · rfl
        · simp only at h ⊢
          split at h
          · rename_i hlimited
            rw [if_pos hlimited]
            rfl
          · exact absurd rfl h

/-- **A source cannot touch another's registration.** What a datagram does to another source's
client entry or pending registrations is at most to remove what a sweep was to remove: a client that
is stale, a pending registration that has expired or whose room had no live client and was stale
itself. A dropped datagram makes no one a client. -/
theorem registrations_of_others (relay : Relay) (data : Bytes) (src : SocketAddr) (clock : Clock)
    (rnd : Cookie) :
    (∀ other room, other ≠ src →
      (((relay.handlePacket data src clock rnd).1.tables.client? room other =
          relay.tables.client? room other) ∨
        ((relay.handlePacket data src clock rnd).1.tables.client? room other = none ∧
          ∃ info, relay.tables.client? room other = some info ∧
            info.stale clock.resweep relay.cfg.regTtl = true)) ∧
      (((relay.handlePacket data src clock rnd).1.tables.waiting? room other =
          relay.tables.waiting? room other) ∨
        ((relay.handlePacket data src clock rnd).1.tables.waiting? room other = none ∧
          ∃ entry pend, relay.tables.room? room = some entry ∧
            entry.pending.lookup other = some pend ∧
            (pend.expired clock.resweep = true ∨
              entry.Doomed clock.resweep relay.cfg.regTtl))) ∧
      (relay.handlePacket data src clock rnd).1.tables.getPendingReg room other =
        relay.tables.getPendingReg room other) ∧
    ((relay.handlePacket data src clock rnd).1.meters.statDrops ≠ relay.meters.statDrops →
      ∀ room addr, ((relay.handlePacket data src clock rnd).1.tables.client? room addr).isSome →
        (relay.tables.client? room addr).isSome) := by
  obtain ⟨⟨swept, hremain, hagree⟩, hglobal⟩ := packet_agree relay data src clock rnd
  refine ⟨fun other room hne => ⟨?_, ?_, hglobal room other hne⟩, fun hdropped room addr => ?_⟩
  · rw [hagree.clients room other hne]
    exact hremain.client? room other
  · rw [hagree.waiting room other hne]
    exact hremain.waiting? room other
  · intro hafter
    have hswept := hagree.admitted (sent_eq_nil_of_dropped hdropped) room addr hafter
    rcases hremain.client? room addr with hsame | ⟨hnone, -⟩
    · rwa [hsame] at hswept
    · rw [hnone] at hswept
      cases hswept

/-- A client with a wrong cookie beside the one that is in the room. -/
theorem registrations_of_others_wrongCookie :
    (((machine .defaults).exec (machine .defaults).init
        (handshake (ascii "r") (.v4 ⟨10, 0, 0, 1⟩ 1000) 0 (.fill 1))).handlePacket
          (ascii "REG r 00") (.v4 ⟨10, 0, 0, 2⟩ 1000) (.same 0) (.fill 2)).1.tables.getPendingReg
            (ascii "r") (.v4 ⟨10, 0, 0, 1⟩ 1000) =
      ((machine .defaults).exec (machine .defaults).init
        (handshake (ascii "r") (.v4 ⟨10, 0, 0, 1⟩ 1000) 0 (.fill 1))).tables.getPendingReg
          (ascii "r") (.v4 ⟨10, 0, 0, 1⟩ 1000) ∧
    ((((machine .defaults).exec (machine .defaults).init
        (handshake (ascii "r") (.v4 ⟨10, 0, 0, 1⟩ 1000) 0 (.fill 1))).handlePacket
          (ascii "REG r 00") (.v4 ⟨10, 0, 0, 2⟩ 1000) (.same 0) (.fill 2)).1.tables.client?
            (ascii "r") (.v4 ⟨10, 0, 0, 2⟩ 1000)).isSome = false := by
  have hothers := registrations_of_others ((machine .defaults).exec (machine .defaults).init
    (handshake (ascii "r") (.v4 ⟨10, 0, 0, 1⟩ 1000) 0 (.fill 1))) (ascii "REG r 00")
    (.v4 ⟨10, 0, 0, 2⟩ 1000) (.same 0) (.fill 2)
  refine ⟨(hothers.1 (.v4 ⟨10, 0, 0, 1⟩ 1000) (ascii "r") (by decide)).2.2, ?_⟩
  have habsent : (((machine .defaults).exec (machine .defaults).init
      (handshake (ascii "r") (.v4 ⟨10, 0, 0, 1⟩ 1000) 0 (.fill 1))).tables.client?
        (ascii "r") (.v4 ⟨10, 0, 0, 2⟩ 1000)).isSome = false := by
    decide +kernel
  by_contra hpresent
  rw [Bool.not_eq_false] at hpresent
  have hbefore := hothers.2 (by decide +kernel) (ascii "r") (.v4 ⟨10, 0, 0, 2⟩ 1000) hpresent
  rw [habsent] at hbefore
  cases hbefore

end Packets

end Qvole.Relay
