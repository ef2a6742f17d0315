import Qvole.Tunnel.Proof.Handlers

/-!
# Announcements

The handlers of a session share a table of the requests that were announced. Whichever handler comes
first announces the request. So in every run a request is announced once where a stream that names
it was connected and not at all otherwise, and each session does so on its own.
-/

namespace Qvole.Tunnel

variable {env : Env} {p p' : Process} {log notes : List Note} {s i : Nat} {task : StreamTask}

def announcedBy (i : Nat) : Note → Option Nat
  | .announced j idx => if j = i then some idx else none
  | _ => none

/-- The requests that a session has announced, in order. -/
def announcementsOf (i : Nat) (log : List Note) : List Nat :=
  log.filterMap (announcedBy i)

theorem announcementsOf_append (i : Nat) (log notes : List Note) :
    announcementsOf i (log ++ notes) = announcementsOf i log ++ announcementsOf i notes :=
  List.filterMap_append

/-- A dial of the stream at `s` for the request got through. -/
def Connects (s idx : Nat) (log : List Note) : Prop :=
  ∃ dial ∈ dialsOf s log, dial.idx = idx ∧ dial.connected = true

theorem connects_append_iff {idx : Nat} :
    Connects s idx (log ++ notes) ↔ Connects s idx log ∨ Connects s idx notes := by
  have happend : dialsOf s (log ++ notes) = dialsOf s log ++ dialsOf s notes :=
    List.filterMap_append
  simp only [Connects, happend, List.mem_append, or_and_right, exists_or]

/-- The owners of the streams, in the order of the streams. -/
def Process.owners (p : Process) : List Nat :=
  p.streams.map StreamTask.owner

/-- The table of a session. -/
def Process.announcedIn (p : Process) (i : Nat) : List Nat :=
  (p.sessions.map Running.announced)[i]?.getD []

theorem announcedIn_of_session {r : Running} (hsession : p.sessions[i]? = some r) :
    p.announcedIn i = r.announced := by
  rw [Process.announcedIn, List.getElem?_map, hsession]
  rfl

/-! ### Steps -/

/-- Notes of neither an announcement nor a dial that got through. -/
def Mute (note : Note) : Prop :=
  (∀ i idx, note ≠ .announced i idx) ∧ ∀ s idx addr, note ≠ .dialed s idx addr true

theorem announcementsOf_mute (h : ∀ note ∈ notes, Mute note) (i : Nat) :
    announcementsOf i notes = [] := by
  refine List.filterMap_eq_nil_iff.mpr fun note hnote => ?_
  cases note with
  | announced j idx => exact absurd rfl ((h _ hnote).1 j idx)
  | _ => rfl

theorem not_connects_mute (h : ∀ note ∈ notes, Mute note) (s idx : Nat) :
    ¬ Connects s idx notes := by
  rintro ⟨dial, hdial, -, hconnected⟩
  obtain ⟨note, hnote, heq⟩ := List.mem_filterMap.mp hdial
  cases note with
  | dialed t k addr connected =>
      simp only [dialBy, Option.ite_none_right_eq_some, Option.some.injEq] at heq
      obtain ⟨-, rfl⟩ := heq
      exact (h _ hnote).2 t k addr (congrArg _ hconnected)
  | _ => cases heq

/-- A step that leaves the tables alone, up to that of a new session. -/
structure Unannounced (p p' : Process) (notes : List Note) : Prop where
  announced : p'.sessions.map Running.announced = p.sessions.map Running.announced ∨
    p'.sessions.map Running.announced = p.sessions.map Running.announced ++ [[]]
  owners : ∃ more, p'.owners = p.owners ++ more
  mute : ∀ note ∈ notes, Mute note

theorem Unannounced.of_same (hsessions : p'.sessions = p.sessions)
    (hstreams : p'.streams = p.streams) (hmute : ∀ note ∈ notes, Mute note) :
    Unannounced p p' notes where
  announced := Or.inl (by rw [hsessions])
  owners := ⟨[], by rw [Process.owners, hstreams, List.append_nil]; rfl⟩
  mute := hmute

theorem Unannounced.of_set {r r' : Running} (hsession : p.sessions[i]? = some r)
    (hsessions : p'.sessions = p.sessions.set i r') (hannounced : r'.announced = r.announced)
    (hstreams : p'.streams = p.streams) (hmute : ∀ note ∈ notes, Mute note) :
    Unannounced p p' notes where
  announced := by
    rw [hsessions]
    exact Or.inl (map_set_of_eq hsession hannounced)
  owners := ⟨[], by rw [Process.owners, hstreams, List.append_nil]; rfl⟩
  mute := hmute

theorem owners_setStream (htask : p.streams[s]? = some task) (r : Running) (phase : StreamPhase) :
    (p.setStream s task r phase).owners = p.owners := by
  unfold Process.setStream
  split <;> exact map_set_of_eq htask rfl

theorem announced_setStream (p : Process) (s : Nat) (task : StreamTask) (r : Running)
    (phase : StreamPhase) :
    (p.setStream s task r phase).sessions.map Running.announced =
      (p.sessions.map Running.announced).set task.owner r.announced := by
  unfold Process.setStream
  split <;> exact List.map_set

theorem Unannounced.of_setStream {r : Running} (htask : p.streams[s]? = some task)
    (hsession : p.sessions[task.owner]? = some r) (phase : StreamPhase)
    (hmute : ∀ note ∈ notes, Mute note) : Unannounced p (p.setStream s task r phase) notes where
  announced := by
    rw [announced_setStream, ← List.map_set]
    exact Or.inl (map_set_of_eq hsession rfl)
  owners := ⟨[], by rw [owners_setStream htask, List.append_nil]⟩
  mute := hmute

theorem SessionMove.announced {r r' : Running} (h : SessionMove i r r' notes) :
    r'.announced = r.announced := by
  cases h <;> rfl

/-- **What a step announces.** Only a dial that got through is announced. -/
theorem Move.announces (hmove : Move env p p' notes) : Unannounced p p' notes ∨
    ∃ s idx task r addr, p.streams[s]? = some task ∧ p.sessions[task.owner]? = some r ∧
      p' = p.setStream s task (Process.announceTunnelOnce task.owner r idx).1 (.copying idx) ∧
      notes = .dialed s idx addr true :: (Process.announceTunnelOnce task.owner r idx).2 := by
  cases hmove with
  | dialed htask hsession hphase => exact Or.inr ⟨_, _, _, _, _, htask, hsession, rfl, rfl⟩
  | started setup hguard hsize =>
      refine Or.inl ⟨Or.inr ?_, ⟨[], ?_⟩, nofun⟩
      · rw [List.map_append, hguard.sessions]
        rfl
      · rw [List.append_nil]
        cases hguard <;> rfl
  | panicked hguard =>
      exact Or.inl (.of_same hguard.sessions (by cases hguard <;> rfl) (by simp [Mute]))
  | session hsession hmove =>
      exact Or.inl (.of_set hsession rfl hmove.announced rfl (by cases hmove <;> simp [Mute]))
  | @acquired i r stream guard hsession hacceptor hguard =>
      exact Or.inl ⟨Or.inl (map_set_of_eq hsession rfl), ⟨[i], List.map_append⟩, by simp [Mute]⟩
  | listened hsession hlistener hreq => exact Or.inl (.of_set hsession rfl rfl rfl nofun)
  | acceptFailed text hloop hsession =>
      exact Or.inl (.of_set hsession rfl rfl rfl (by simp [Mute]))
  | errorSent hloop hphase hsession => exact Or.inl (.of_set hsession rfl rfl rfl nofun)
  | tcpRefused htask hphase hguard hlazy hnotes =>
      refine Or.inl (.of_same hguard.sessions (by cases hguard <;> rfl) ?_)
      rcases hnotes with rfl | rfl <;> simp [Mute]
  | tcpTook htask hphase hguard hlazy hsem htake =>
      exact Or.inl (.of_same hguard.sessions (by cases hguard <;> rfl) nofun)
  | tcpEnded htask hphase =>
      refine Or.inl (.of_same (sessions_endTcp _ _ _ _) ?_ nofun)
      unfold Process.endTcp
      split <;> rfl
  | headerRead dns htask hsession hphase => exact Or.inl (.of_setStream htask hsession _ nofun)
  | dialFailed htask hsession hphase =>
      exact Or.inl (.of_setStream htask hsession _ (by simp [Mute]))
  | streamCopied htask hsession hphase => exact Or.inl (.of_setStream htask hsession _ nofun)
  | _ => exact Or.inl (.of_same rfl rfl (by simp [Mute]))

/-! ### Runs -/

/-- The tables hold what was announced, and that is what was connected. -/
structure Announces (log : List Note) (p : Process) : Prop where
  handled : Handled log p
  announced : ∀ i, announcementsOf i log = (p.announcedIn i).reverse
  nodup : ∀ i, (p.announcedIn i).Nodup
  connected : ∀ i idx, idx ∈ p.announcedIn i ↔ ∃ s, p.owners[s]? = some i ∧ Connects s idx log

theorem announces_empty : Announces [] .empty where
  handled := handled_empty
  announced := fun _ => rfl
  nodup := fun _ => List.nodup_nil
  connected := by
    intro i idx
    simp [Process.announcedIn, Process.owners, Process.empty]

/-- No stream that is still to come has dialed. -/
theorem Announces.owner_of_connects {idx : Nat} {more : List Nat} (h : Announces log p)
    (howner : (p.owners ++ more)[s]? = some i) (hconnects : Connects s idx log) :
    p.owners[s]? = some i := by
  by_cases hlt : s < p.owners.length
  · rwa [List.getElem?_append_left hlt] at howner
  · rw [Process.owners, List.length_map] at hlt
    obtain ⟨dial, hdial, -⟩ := hconnects
    rw [h.handled.fresh s (Nat.le_of_not_lt hlt)] at hdial
    cases hdial

theorem Announces.unannounced (h : Announces log p) (hhandled : Handled (log ++ notes) p')
    (hstep : Unannounced p p' notes) : Announces (log ++ notes) p' := by
  have hkept : ∀ i, p'.announcedIn i = p.announcedIn i := by
    intro i
    rcases hstep.announced with heq | heq
    · rw [Process.announcedIn, heq]
      rfl
    · rw [Process.announcedIn, heq, List.getElem?_append]
      split
      · rfl
      · rename_i hlt
        rw [Process.announcedIn, List.getElem?_eq_none (Nat.le_of_not_lt hlt),
          List.getElem?_singleton]
        split <;> rfl
  obtain ⟨more, howners⟩ := hstep.owners
  refine ⟨hhandled, fun i => ?_, fun i => ?_, fun i idx => ?_⟩
  · rw [announcementsOf_append, announcementsOf_mute hstep.mute, List.append_nil, hkept]
    exact h.announced i
  · rw [hkept]
    exact h.nodup i
  · rw [hkept, h.connected, howners]
    constructor
    · rintro ⟨s, howner, hconnects⟩
      exact ⟨s, by rw [List.getElem?_append_left (List.getElem?_eq_some_iff.mp howner).1, howner],
        connects_append_iff.mpr (Or.inl hconnects)⟩
    · rintro ⟨s, howner, hconnects⟩
      rcases connects_append_iff.mp hconnects with hold | hnew
      · exact ⟨s, h.owner_of_connects howner hold, hold⟩
      · exact absurd hnew (not_connects_mute hstep.mute s idx)

/-! ### A dial that got through -/

theorem mem_announceTunnelOnce_announced {r : Running} {idx k : Nat} (i : Nat) :
    k ∈ (Process.announceTunnelOnce i r idx).1.announced ↔ k = idx ∨ k ∈ r.announced := by
  unfold Process.announceTunnelOnce
  split
  · rename_i hknown
    constructor
    · exact Or.inr
    · rintro (rfl | hmem)
      · exact hknown
      · exact hmem
  · exact List.mem_cons

theorem announceTunnelOnce_nodup (i : Nat) {r : Running} (idx : Nat) (h : r.announced.Nodup) :
    (Process.announceTunnelOnce i r idx).1.announced.Nodup := by
  unfold Process.announceTunnelOnce
  split
  · exact h
  · rename_i hnew
    exact List.nodup_cons.mpr ⟨hnew, h⟩

/-- What is noted is what comes into the table. -/
theorem announceTunnelOnce_reverse (i : Nat) (r : Running) (idx : Nat) :
    (Process.announceTunnelOnce i r idx).1.announced.reverse =
      r.announced.reverse ++ announcementsOf i (Process.announceTunnelOnce i r idx).2 := by
  unfold Process.announceTunnelOnce
  split
  · exact (List.append_nil _).symm
  · simp [announcementsOf, announcedBy]

theorem announcementsOf_other {i j : Nat} (r : Running) (idx : Nat) (hne : i ≠ j) :
    announcementsOf j (Process.announceTunnelOnce i r idx).2 = [] := by
  refine List.filterMap_eq_nil_iff.mpr fun note hnote => ?_
  rw [mem_announceTunnelOnce hnote]
  exact if_neg hne

theorem announcedIn_setStream {r r' : Running} (hsession : p.sessions[task.owner]? = some r)
    (phase : StreamPhase) (i : Nat) : (p.setStream s task r' phase).announcedIn i =
      if task.owner = i then r'.announced else p.announcedIn i := by
  rw [Process.announcedIn, announced_setStream, List.getElem?_set]
  split
  · have hlt : task.owner < (p.sessions.map Running.announced).length := by
      rw [List.length_map]
      exact (List.getElem?_eq_some_iff.mp hsession).1
    rw [if_pos hlt]
    rfl
  · rfl

theorem connects_dialed_iff {t idx k : Nat} {addr : Bytes}
    (hquiet : ∀ note ∈ notes, ∀ t idx addr connected, note ≠ .dialed t idx addr connected) :
    Connects t k (.dialed s idx addr true :: notes) ↔ t = s ∧ k = idx := by
  by_cases hst : t = s
  · subst hst
    have hdials : dialsOf t ([] ++ .dialed t idx addr true :: notes) = [⟨idx, addr, true⟩] :=
      dialsOf_append_dialed idx addr true fun note hnote => hquiet note hnote t
    rw [List.nil_append] at hdials
    constructor
    · rintro ⟨dial, hdial, hidx, -⟩
      rw [hdials] at hdial
      cases List.mem_singleton.mp hdial
      exact ⟨rfl, hidx.symm⟩
    · rintro ⟨-, rfl⟩
      exact ⟨⟨k, addr, true⟩, by rw [hdials]; exact List.mem_singleton.mpr rfl, rfl, rfl⟩
  · have hdials : dialsOf t ([] ++ .dialed s idx addr true :: notes) = [] :=
      dialsOf_append_other idx addr true hst fun note hnote => hquiet note hnote t
    rw [List.nil_append] at hdials
    simp [Connects, hdials, hst]

/-- The tables behind the dial hold what was connected, this dial included. -/
theorem Announces.mem_table_iff {r : Running} (h : Announces log p)
    (htask : p.streams[s]? = some task) (hsession : p.sessions[task.owner]? = some r)
    (idx i k : Nat) :
    (k ∈ if task.owner = i then (Process.announceTunnelOnce task.owner r idx).1.announced
      else p.announcedIn i) ↔
      ∃ t, p.owners[t]? = some i ∧ (Connects t k log ∨ t = s ∧ k = idx) := by
  have howner : p.owners[s]? = some task.owner := by
    rw [Process.owners, List.getElem?_map, htask]
    rfl
  by_cases hi : task.owner = i
  · subst hi
    rw [if_pos rfl, mem_announceTunnelOnce_announced, ← announcedIn_of_session hsession,
      h.connected]
    constructor
    · rintro (rfl | ⟨t, ht, hconnects⟩)
      · exact ⟨s, howner, Or.inr ⟨rfl, rfl⟩⟩
      · exact ⟨t, ht, Or.inl hconnects⟩
    · rintro ⟨t, ht, hconnects | ⟨-, rfl⟩⟩
      · exact Or.inr ⟨t, ht, hconnects⟩
      · exact Or.inl rfl
  · rw [if_neg hi, h.connected]
    constructor
    · rintro ⟨t, ht, hconnects⟩
      exact ⟨t, ht, Or.inl hconnects⟩
    · rintro ⟨t, ht, hconnects | ⟨rfl, -⟩⟩
      · exact ⟨t, ht, hconnects⟩
      · exact absurd (Option.some.inj (howner.symm.trans ht)) hi

theorem Announces.dialed {idx : Nat} {addr : Bytes} {r : Running} (h : Announces log p)
    (htask : p.streams[s]? = some task) (hsession : p.sessions[task.owner]? = some r)
    (hhandled : Handled
      (log ++ .dialed s idx addr true :: (Process.announceTunnelOnce task.owner r idx).2)
      (p.setStream s task (Process.announceTunnelOnce task.owner r idx).1 (.copying idx))) :
    Announces (log ++ .dialed s idx addr true :: (Process.announceTunnelOnce task.owner r idx).2)
      (p.setStream s task (Process.announceTunnelOnce task.owner r idx).1 (.copying idx)) := by
  have htable : p.announcedIn task.owner = r.announced := announcedIn_of_session hsession
  refine ⟨hhandled, fun i => ?_, fun i => ?_, fun i k => ?_⟩
  · have hnotes : announcementsOf i
        (.dialed s idx addr true :: (Process.announceTunnelOnce task.owner r idx).2) =
        announcementsOf i (Process.announceTunnelOnce task.owner r idx).2 := rfl
    rw [announcedIn_setStream hsession, announcementsOf_append, h.announced, hnotes]
    split
    · rename_i hi
      subst hi
      rw [announceTunnelOnce_reverse, htable]
    · rename_i hi
      rw [announcementsOf_other r idx hi, List.append_nil]
  · rw [announcedIn_setStream hsession]
    split
    · exact announceTunnelOnce_nodup _ idx (htable ▸ h.nodup task.owner)
    · exact h.nodup i
  · rw [announcedIn_setStream hsession, owners_setStream htask]
    simp only [connects_append_iff, connects_dialed_iff fun _ => announceTunnelOnce_ne_dialed]
    exact h.mem_table_iff htask hsession idx i k

theorem Announces.step (h : Announces log p) (hmove : Move env p p' notes) :
    Announces (log ++ notes) p' := by
  have hhandled := h.handled.step hmove
  rcases hmove.announces with hstep | ⟨s, idx, task, r, addr, htask, hsession, rfl, rfl⟩
  · exact h.unannounced hhandled hstep
  · exact h.dialed htask hsession hhandled

variable {history : List (Machine.Record Process Event Note)} {now : Nat}

/-- **A tunnel is announced once.** In every run, no session announces a request twice, and it has
announced those for which a dial of one of its streams got through. -/
theorem tunnel_announces (hrun : (tunnelMachine env).Run history p now) (i : Nat) :
    (announcementsOf i (logOf history)).Nodup ∧
      ∀ idx, idx ∈ announcementsOf i (logOf history) ↔
        ∃ s task, p.streams[s]? = some task ∧ task.owner = i ∧
          Connects s idx (logOf history) := by
  have hannounces : Announces (logOf history) p :=
    inv_of_moves (I := Announces) announces_empty (fun h hmove => h.step hmove) hrun
  rw [hannounces.announced]
  refine ⟨List.nodup_reverse.mpr (hannounces.nodup i), fun idx => ?_⟩
  rw [List.mem_reverse, hannounces.connected]
  constructor
  · rintro ⟨s, howner, hconnects⟩
    rw [Process.owners, List.getElem?_map] at howner
    obtain ⟨task, htask, howner⟩ := Option.map_eq_some_iff.mp howner
    exact ⟨s, task, htask, howner, hconnects⟩
  · rintro ⟨s, task, htask, howner, hconnects⟩
    refine ⟨s, ?_, hconnects⟩
    rw [Process.owners, List.getElem?_map, htask]
    exact congrArg some howner

/-- Two streams are connected, one behind the other, for the request of `oneStream`. -/
def connectsTwice : List Event :=
  [.start oneStream, .accepted 0 ⟨[0, 0], .fin⟩, .acquired 0, .headerRead 0 fun _ => [],
    .dialed 0 true, .streamCopied 0, .accepted 0 ⟨[0, 0], .fin⟩, .acquired 0,
    .headerRead 1 fun _ => [], .dialed 1 true]

theorem tunnel_announces_twice :
    let log := logOf ((tunnelMachine fun _ => none).trace .empty connectsTwice)
    Connects 0 0 log ∧ Connects 1 0 log ∧ announcementsOf 0 log = [0] ∧
      (announcementsOf 0 log).Nodup := by
  have hrun := (tunnelMachine fun _ => none).run_untimed (fun _ => rfl) connectsTwice
  refine ⟨⟨⟨0, ascii "127.0.0.1:22", true⟩, ?_, rfl, rfl⟩,
    ⟨⟨0, ascii "127.0.0.1:22", true⟩, ?_, rfl, rfl⟩, rfl, (tunnel_announces hrun 0).1⟩
  · exact List.mem_singleton.mpr rfl
  · exact List.mem_singleton.mpr rfl

end Qvole.Tunnel
