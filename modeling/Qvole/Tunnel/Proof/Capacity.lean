import Qvole.Tunnel.Proof.Tasks

/-!
# The limits of tunnel sessions

A session handles no more inbound streams at a time than its limit, and the streams it opens are
counted by the semaphore they were admitted by, which has the limit of the session that started last
when it was made. Streams reach their handlers in the order they were accepted.
-/

namespace Qvole.Tunnel

open Semaphore (Balanced)

variable {env : Env} {p p' : Process} {log notes : List Note}

/-- The session whose acceptor gave the permit, until the handler ends. -/
def StreamTask.permit (task : StreamTask) : Option Nat :=
  if task.phase = .ended then none else some task.owner

def TcpTask.permit (task : TcpTask) : Option Nat :=
  match task.phase with
  | .spawned => none
  | .opening permit => some permit
  | .writing permit => some permit
  | .copying permit => some permit
  | .ended => none

/-- The inbound streams of a session that are being handled. -/
def Process.runningStreams (p : Process) (i : Nat) : Nat :=
  Semaphore.holders StreamTask.permit p.streams i

/-- The outbound streams that were admitted by a semaphore and are not done with. -/
def Process.openStreams (p : Process) (handle : Nat) : Nat :=
  Semaphore.holders TcpTask.permit p.tcps handle

/-! ### Permits -/

structure Limited (env : Env) (p : Process) : Prop where
  inbound : Balanced StreamTask.permit (p.sessions.map Running.guard) p.streams
  outbound : Balanced TcpTask.permit p.semaphores p.tcps
  sizes : ∀ (i : Nat) (r : Running), p.sessions[i]? = some r →
    r.guard.size = (max (r.setup.limit env) 0).toNat
  inUse : ∀ n handle, p.outboundGuard = some (n, handle) →
    ∃ sem, p.semaphores[handle]? = some sem ∧ sem.size = n
  latest : ∀ r : Running, p.sessions.getLast? = some r →
    ∃ handle, p.outboundGuard = some ((max (r.setup.limit env) 0).toNat, handle)

theorem limited_empty : Limited env .empty where
  inbound := Semaphore.balanced_nil
  outbound := Semaphore.balanced_nil
  sizes := fun i r hsession => by simp [Process.empty] at hsession
  inUse := fun n handle hguard => by cases hguard
  latest := fun r hlast => by cases hlast

theorem getElem?_set_of_some {α : Type} {xs : List α} {i : Nat} {a b : α} (h : xs[i]? = some a) :
    (xs.set i b)[i]? = some b := by
  rw [List.getElem?_set_self (List.getElem?_eq_some_iff.mp h).1]

/-- What the last of the sessions is, behind a change to one of them. -/
theorem getLast?_set {α : Type} {xs : List α} {i : Nat} {a b last : α} (h : xs[i]? = some a)
    (hlast : (xs.set i b).getLast? = some last) :
    last = b ∧ xs.getLast? = some a ∨ xs.getLast? = some last := by
  have hlt := (List.getElem?_eq_some_iff.mp h).1
  rw [List.getLast?_eq_getElem?, List.length_set, List.getElem?_set] at hlast
  rw [List.getLast?_eq_getElem?]
  by_cases heq : i = xs.length - 1
  · rw [if_pos heq, if_pos hlt] at hlast
    exact Or.inl ⟨(Option.some.inj hlast).symm, heq ▸ h⟩
  · rw [if_neg heq] at hlast
    exact Or.inr hlast

/-- A session changes and keeps its settings. Its semaphore is told apart. -/
theorem Limited.setSession {i : Nat} {r r' : Running} {streams : List StreamTask}
    (loops : List AcceptLoop) (h : Limited env p) (hsession : p.sessions[i]? = some r)
    (hsetup : r'.setup = r.setup) (hsize : r'.guard.size = r.guard.size)
    (hinbound : Balanced StreamTask.permit ((p.sessions.map Running.guard).set i r'.guard) streams) :
    Limited env { p with sessions := p.sessions.set i r', streams := streams, loops := loops } where
  inbound := by
    rw [List.map_set]
    exact hinbound
  outbound := h.outbound
  sizes := by
    intro j other hother
    rw [List.getElem?_set] at hother
    split at hother
    · split at hother
      · obtain rfl := Option.some.inj hother
        rw [hsetup, hsize]
        exact h.sizes i r hsession
      · cases hother
    · exact h.sizes j other hother
  inUse := h.inUse
  latest := by
    intro last hlast
    rcases getLast?_set hsession hlast with ⟨rfl, hwas⟩ | hwas
    · rw [hsetup]
      exact h.latest r hwas
    · exact h.latest last hwas

theorem SessionMove.keeps {i : Nat} {r r' : Running} (h : SessionMove i r r' notes) :
    r'.setup = r.setup ∧ r'.guard = r.guard := by
  cases h <;> exact ⟨rfl, rfl⟩

theorem map_set_of_eq {α β : Type} {f : α → β} {xs : List α} {k : Nat} {a b : α}
    (h : xs[k]? = some a) (hsame : f b = f a) : (xs.set k b).map f = xs.map f := by
  obtain ⟨hlt, rfl⟩ := List.getElem?_eq_some_iff.mp h
  rw [List.map_set, hsame, ← List.map_set, List.set_getElem_self]

theorem Limited.sameGuard {i : Nat} {r r' : Running} {loops : List AcceptLoop} (h : Limited env p)
    (hsession : p.sessions[i]? = some r) (hsetup : r'.setup = r.setup)
    (hguard : r'.guard = r.guard) :
    Limited env { p with sessions := p.sessions.set i r', loops := loops } := by
  refine h.setSession _ hsession hsetup (by rw [hguard]) ?_
  rw [← List.map_set, map_set_of_eq hsession hguard]
  exact h.inbound

theorem Limited.guard {handle : Option Nat} (h : Limited env p) (hmove : GuardMove p p' handle) :
    Balanced TcpTask.permit p'.semaphores p'.tcps ∧
      (∀ n handle, p'.outboundGuard = some (n, handle) →
        ∃ sem, p'.semaphores[handle]? = some sem ∧ sem.size = n) ∧
      p'.sessions = p.sessions ∧ p'.streams = p.streams ∧ p'.tcps = p.tcps ∧
      p'.loops = p.loops := by
  cases hmove with
  | stays => exact ⟨h.outbound, h.inUse, rfl, rfl, rfl, rfl⟩
  | panics => exact ⟨h.outbound, h.inUse, rfl, rfl, rfl, rfl⟩
  | known hguard => exact ⟨h.outbound, h.inUse, rfl, rfl, rfl, rfl⟩
  | made n =>
      refine ⟨h.outbound.append_new n, fun m handle hguard => ?_, rfl, rfl, rfl, rfl⟩
      simp only [Option.some.injEq, Prod.mk.injEq] at hguard
      obtain ⟨rfl, rfl⟩ := hguard
      exact ⟨.new n, by simp, rfl⟩

/-- The handlers of connections change, and with them the semaphores. -/
theorem Limited.setTcps (h : Limited env p)
    (hsessions : p'.sessions = p.sessions) (hstreams : p'.streams = p.streams)
    (hbalanced : Balanced TcpTask.permit p'.semaphores p'.tcps)
    (hinUse : ∀ n handle, p'.outboundGuard = some (n, handle) →
      ∃ sem, p'.semaphores[handle]? = some sem ∧ sem.size = n)
    (hguard : p'.outboundGuard = p.outboundGuard ∨ p.outboundGuard = none) : Limited env p' where
  inbound := by rw [hsessions, hstreams]; exact h.inbound
  outbound := hbalanced
  sizes := by rw [hsessions]; exact h.sizes
  inUse := hinUse
  latest := by
    intro r hlast
    rw [hsessions] at hlast
    obtain ⟨handle, hwas⟩ := h.latest r hlast
    rcases hguard with hsame | hnone
    · exact ⟨handle, hsame.trans hwas⟩
    · rw [hnone] at hwas
      cases hwas

/-- A semaphore is set to one of its size. -/
theorem inUse_set {pool : List Semaphore} {handle : Nat} {sem sem' : Semaphore}
    {guard : Option (Nat × Nat)} (hsem : pool[handle]? = some sem) (hsize : sem'.size = sem.size)
    (h : ∀ n handle, guard = some (n, handle) → ∃ sem, pool[handle]? = some sem ∧ sem.size = n) :
    ∀ n other, guard = some (n, other) →
      ∃ sem, (pool.set handle sem')[other]? = some sem ∧ sem.size = n := by
  intro n other hguard
  obtain ⟨found, hfound, hn⟩ := h n other hguard
  by_cases heq : handle = other
  · subst heq
    rw [hsem] at hfound
    obtain rfl := Option.some.inj hfound
    exact ⟨sem', getElem?_set_of_some hsem, hsize.trans hn⟩
  · exact ⟨found, by rwa [List.getElem?_set_ne heq], hn⟩

theorem Limited.endTcp {t permit : Nat} {task : TcpTask} (h : Limited env p)
    (htask : p.tcps[t]? = some task) (hpermit : task.permit = some permit) :
    Limited env (p.endTcp t task permit) := by
  obtain ⟨sem, hsem⟩ := h.outbound.exists_of_held htask hpermit
  have hend : p.endTcp t task permit =
      (p.setSemaphore permit sem.release).setTcp t task .ended := by
    simp only [Process.endTcp, hsem]
  rw [hend]
  refine h.setTcps rfl rfl ?_ (inUse_set hsem rfl h.inUse) (Or.inl rfl)
  exact h.outbound.release htask hpermit hsem rfl

/-- A handler of a stream goes on, with its permit or without. -/
theorem Limited.setStream {s : Nat} {task : StreamTask} {r r' : Running} {phase : StreamPhase}
    (h : Limited env p) (htask : p.streams[s]? = some task)
    (hsession : p.sessions[task.owner]? = some r) (hrunning : task.phase ≠ .ended)
    (hsetup : r'.setup = r.setup) (hguard : r'.guard = r.guard) :
    Limited env (p.setStream s task r' phase) := by
  have hpermit : task.permit = some task.owner := if_neg hrunning
  have hpool : (p.sessions.map Running.guard)[task.owner]? = some r.guard := by
    rw [List.getElem?_map, hsession]
    rfl
  unfold Process.setStream
  split
  · rename_i hended
    refine h.setSession p.loops hsession hsetup (by rw [hguard]; rfl) ?_
    rw [hguard]
    exact h.inbound.release htask hpermit hpool (if_pos hended)
  · rename_i hon
    refine h.setSession _ hsession hsetup (by rw [hguard]) ?_
    rw [← List.map_set, map_set_of_eq hsession hguard]
    exact h.inbound.set_same htask ((if_neg hon).trans hpermit.symm)

theorem announceTunnelOnce_keeps (i : Nat) (r : Running) (idx : Nat) :
    (Process.announceTunnelOnce i r idx).1.setup = r.setup ∧
      (Process.announceTunnelOnce i r idx).1.guard = r.guard := by
  unfold Process.announceTunnelOnce
  split <;> exact ⟨rfl, rfl⟩

theorem Limited.step (h : Limited env p) (hmove : Move env p p' notes) : Limited env p' := by
  cases hmove with
  | rests => exact h
  | refused e => exact h
  | panicked hguard =>
      cases hguard with
      | stays => exact h
      | panics => exact ⟨h.inbound, h.outbound, h.sizes, h.inUse, h.latest⟩
  | @started setup p' handle hguard hsize =>
      obtain ⟨houtbound, hinUse, hsessions, hstreams, -, -⟩ := h.guard hguard
      constructor
      · rw [hsessions, hstreams, List.map_append]
        exact h.inbound.append_new _
      · exact houtbound
      · intro i r hsession
        simp only [hsessions] at hsession
        rcases List.getElem?_concat_cases hsession with hold | ⟨-, rfl⟩
        · exact h.sizes i r hold
        · rfl
      · exact hinUse
      · intro r hlast
        rw [List.getLast?_concat] at hlast
        obtain rfl := Option.some.inj hlast
        exact ⟨handle, hsize⟩
  | session hsession hmove =>
      obtain ⟨hsetup, hguard⟩ := hmove.keeps
      exact h.sameGuard hsession hsetup hguard
  | @acquired i r stream guard hsession hacceptor hguard =>
      refine h.setSession _ hsession rfl (Semaphore.size_tryAcquire hguard) ?_
      exact h.inbound.spawn (by rw [List.getElem?_map, hsession]; rfl) hguard rfl
  | listened hsession hlistener hreq => exact h.sameGuard hsession rfl rfl
  | tcpAccepted hloop hsession =>
      refine h.setTcps rfl rfl (h.outbound.append_idle rfl) h.inUse (Or.inl rfl)
  | acceptFailed text hloop hsession => exact h.sameGuard hsession rfl rfl
  | errorSent hloop hphase hsession => exact h.sameGuard hsession rfl rfl
  | loopEnded hloop => exact ⟨h.inbound, h.outbound, h.sizes, h.inUse, h.latest⟩
  | @tcpRefused t task p' handle notes htask hphase hguard hlazy hnotes =>
      obtain ⟨houtbound, hinUse, hsessions, hstreams, htcps, -⟩ := h.guard hguard
      refine h.setTcps hsessions hstreams ?_ hinUse hlazy
      refine houtbound.set_same (htcps ▸ htask) ?_
      simp [TcpTask.permit, hphase]
  | @tcpTook t handle task p' sem sem' htask hphase hguard hlazy hsem htake =>
      obtain ⟨houtbound, hinUse, hsessions, hstreams, htcps, -⟩ := h.guard hguard
      refine h.setTcps hsessions hstreams ?_
        (inUse_set hsem (Semaphore.size_tryAcquire htake) hinUse) hlazy
      refine houtbound.acquire (htcps ▸ htask) ?_ hsem htake rfl
      simp [TcpTask.permit, hphase]
  | tcpOpened htask hphase =>
      refine h.setTcps rfl rfl (h.outbound.set_same htask ?_) h.inUse (Or.inl rfl)
      simp [TcpTask.permit, hphase]
  | tcpWrote htask hphase =>
      refine h.setTcps rfl rfl (h.outbound.set_same htask ?_) h.inUse (Or.inl rfl)
      simp [TcpTask.permit, hphase]
  | tcpEnded htask hphase =>
      refine h.endTcp htask ?_
      rcases hphase with hphase | hphase | hphase <;> simp [TcpTask.permit, hphase]
  | headerRead dns htask hsession hphase =>
      exact h.setStream htask hsession (by rw [hphase]; nofun) rfl rfl
  | @dialed s idx task r addr rest htask hsession hphase =>
      obtain ⟨hsetup, hguard⟩ := announceTunnelOnce_keeps task.owner r idx
      exact h.setStream htask hsession (by rw [hphase]; nofun) hsetup hguard
  | dialFailed htask hsession hphase =>
      exact h.setStream htask hsession (by rw [hphase]; nofun) rfl rfl
  | streamCopied htask hsession hphase =>
      exact h.setStream htask hsession (by rw [hphase]; nofun) rfl rfl

/-! ### The order of streams -/

def acceptedBy (i : Nat) : Note → Option Inbound
  | .accepted j stream => if j = i then some stream else none
  | _ => none

/-- The streams of a session that have got a handler, in order. -/
def Process.handled (p : Process) (i : Nat) : List Inbound :=
  p.streams.filterMap fun task => if task.owner = i then some task.stream else none

/-- The streams accepted and those handed on: at most the last one is missing, which waits for its
permit or was dropped when the acceptor returned. -/
def Waits : Acceptor → List Inbound → List Inbound → Prop
  | .accepting, accepted, handled => accepted = handled
  | .acquiring stream, accepted, handled => accepted = handled ++ [stream]
  | .returned _, accepted, handled =>
      accepted = handled ∨ ∃ stream, accepted = handled ++ [stream]

structure InOrder (log : List Note) (p : Process) : Prop where
  fresh : ∀ i, p.sessions.length ≤ i → log.filterMap (acceptedBy i) = [] ∧ p.handled i = []
  waits : ∀ i r, p.sessions[i]? = some r →
    Waits r.acceptor (log.filterMap (acceptedBy i)) (p.handled i)

theorem inOrder_empty : InOrder [] .empty where
  fresh := fun _ _ => ⟨rfl, rfl⟩
  waits := fun i r hsession => by simp [Process.empty] at hsession

theorem Waits.returns {acceptor : Acceptor} {accepted handled : List Inbound} {outcome : TunnelResult}
    (h : Waits acceptor accepted handled) : Waits (.returned outcome) accepted handled := by
  cases acceptor with
  | accepting => exact Or.inl h
  | acquiring stream => exact Or.inr ⟨stream, h⟩
  | returned other => exact h

theorem acceptedBy_eq_some {i : Nat} {note : Note} {stream : Inbound}
    (h : acceptedBy i note = some stream) : note = .accepted i stream := by
  cases note <;> simp only [acceptedBy, reduceCtorEq] at h
  split at h
  · rename_i heq
    rw [Option.some.inj h, heq]
  · cases h

theorem accepted_append {i : Nat} (h : ∀ note ∈ notes, ∀ stream, note ≠ .accepted i stream) :
    (log ++ notes).filterMap (acceptedBy i) = log.filterMap (acceptedBy i) := by
  have hnone : notes.filterMap (acceptedBy i) = [] := by
    refine List.filterMap_eq_nil_iff.mpr fun note hnote => ?_
    refine Option.eq_none_iff_forall_ne_some.mpr fun stream hstream => ?_
    exact h note hnote stream (acceptedBy_eq_some hstream)
  rw [List.filterMap_append, hnone, List.append_nil]

theorem handled_append (p : Process) (task : StreamTask) (i : Nat) :
    { p with streams := p.streams ++ [task] }.handled i =
      p.handled i ++ if task.owner = i then [task.stream] else [] := by
  simp only [Process.handled, List.filterMap_append, List.filterMap_cons, List.filterMap_nil]
  by_cases heq : task.owner = i <;> simp [heq]

theorem filterMap_set {α β : Type} {f : α → Option β} {xs : List α} {k : Nat} {a b : α}
    (h : xs[k]? = some a) (hsame : f b = f a) : (xs.set k b).filterMap f = xs.filterMap f := by
  induction xs generalizing k with
  | nil => simp at h
  | cons first rest ih =>
      cases k with
      | zero =>
          obtain rfl := Option.some.inj h
          simp only [List.set_cons_zero, List.filterMap_cons, hsame]
      | succ k =>
          have hrest := ih (k := k) h
          simp only [List.set_cons_succ, List.filterMap_cons, hrest]

theorem handled_setStream {s : Nat} {task : StreamTask} {r : Running} {phase : StreamPhase}
    (htask : p.streams[s]? = some task) (i : Nat) :
    (p.setStream s task r phase).handled i = p.handled i := by
  unfold Process.setStream
  split <;> exact filterMap_set htask rfl

/-- Only the acceptor hands a stream on. -/
theorem Move.handled (hmove : Move env p p' notes) :
    ((∀ i, p'.handled i = p.handled i) ∧ ∀ i s, notes ≠ [.handled i s]) ∨
      ∃ i r stream guard, p.sessions[i]? = some r ∧ r.acceptor = .acquiring stream ∧
        notes = [.handled i p.streams.length] ∧
        p'.sessions = p.sessions.set i { r with acceptor := .accepting, guard } ∧
        ∀ j, p'.handled j = p.handled j ++ if i = j then [stream] else [] := by
  cases hmove with
  | acquired hsession hacceptor hguard =>
      exact Or.inr ⟨_, _, _, _, hsession, hacceptor, rfl, rfl, fun j => handled_append _ _ j⟩
  | session hsession hmove =>
      refine Or.inl ⟨fun i => rfl, fun i s hnotes => ?_⟩
      cases hmove <;> cases hnotes
  | started setup hguard hsize =>
      refine Or.inl ⟨fun i => ?_, nofun⟩
      cases hguard <;> rfl
  | panicked hguard =>
      refine Or.inl ⟨fun i => ?_, nofun⟩
      cases hguard <;> rfl
  | tcpRefused htask hphase hguard hlazy hnotes =>
      refine Or.inl ⟨fun i => ?_, fun i s heq => ?_⟩
      · cases hguard <;> rfl
      · rcases hnotes with rfl | rfl <;> cases heq
  | tcpTook htask hphase hguard hlazy hsem htake =>
      refine Or.inl ⟨fun i => ?_, nofun⟩
      cases hguard <;> rfl
  | tcpEnded htask hphase =>
      refine Or.inl ⟨fun i => ?_, nofun⟩
      unfold Process.endTcp
      split <;> rfl
  | headerRead dns htask hsession hphase =>
      exact Or.inl ⟨handled_setStream htask, nofun⟩
  | dialed htask hsession hphase => exact Or.inl ⟨handled_setStream htask, nofun⟩
  | dialFailed htask hsession hphase => exact Or.inl ⟨handled_setStream htask, nofun⟩
  | streamCopied htask hsession hphase => exact Or.inl ⟨handled_setStream htask, nofun⟩
  | _ => exact Or.inl ⟨fun i => rfl, nofun⟩

/-- A session and its streams across a step that hands none on. -/
theorem Touched.waits {i : Nat} {r r' : Running} {handled : List Inbound}
    (htouched : Touched p i r notes r') (hnone : ∀ s, notes ≠ [.handled i s])
    (h : Waits r.acceptor (log.filterMap (acceptedBy i)) handled) :
    Waits r'.acceptor ((log ++ notes).filterMap (acceptedBy i)) handled := by
  cases htouched with
  | untouched hnotes =>
      rw [accepted_append]
      · exact h
      · rintro note hnote stream rfl
        obtain ⟨header, heq⟩ := hnotes _ hnote rfl
        cases heq
  | acquired hacceptor hnotes => exact absurd hnotes (hnone _)
  | listened hlistener hnotes =>
      rw [hnotes, List.append_nil]
      exact h
  | acceptFailed hnotes =>
      rw [accepted_append (by rw [hnotes]; simp)]
      exact h
  | errorSent hloop howner hphase hnotes =>
      rw [hnotes, List.append_nil]
      exact h
  | handler hnotes =>
      rw [accepted_append]
      · exact h
      · rintro note hnote stream rfl
        obtain ⟨idx, heq⟩ := hnotes _ hnote rfl
        cases heq
  | moved hmove =>
      cases hmove with
      | accepted stream hacceptor =>
          rw [hacceptor] at h
          rw [List.filterMap_append]
          simpa [acceptedBy, Waits] using h
      | connectionLost err hacceptor =>
          rw [accepted_append (by simp)]
          exact h.returns
      | acceptorStops hacceptor hcancelled =>
          rw [List.append_nil]
          exact h.returns
      | cancel => rw [accepted_append (by simp)]; exact h
      | bound hlistener next hnext => rw [List.append_nil]; exact h
      | bindFailed hlistener text => rw [accepted_append (by simp)]; exact h
      | errorReceived hlistener herrors => rw [List.append_nil]; exact h
      | listenersStop hlistener hcancelled => rw [List.append_nil]; exact h
      | joined hacceptor hlistener houtcome => rw [accepted_append (by simp)]; exact h

theorem Move.length_le (hmove : Move env p p' notes) : p.sessions.length ≤ p'.sessions.length := by
  cases hmove with
  | started setup hguard hsize =>
      simp only [hguard.sessions, List.length_append]
      omega
  | panicked hguard => rw [hguard.sessions]
  | tcpRefused htask hphase hguard hlazy hnotes => exact (congrArg _ hguard.sessions).ge
  | tcpTook htask hphase hguard hlazy hsem htake => exact (congrArg _ hguard.sessions).ge
  | tcpEnded htask hphase => rw [sessions_endTcp]
  | headerRead dns htask hsession hphase => exact (length_setStream _ _ _ _ _).ge
  | dialed htask hsession hphase => exact (length_setStream _ _ _ _ _).ge
  | dialFailed htask hsession hphase => exact (length_setStream _ _ _ _ _).ge
  | streamCopied htask hsession hphase => exact (length_setStream _ _ _ _ _).ge
  | _ => simp [Process.setSession, Process.setLoop, Process.setTcp]

theorem Move.known_of_accepted {i : Nat} {stream : Inbound} (hmove : Move env p p' notes)
    (hnote : .accepted i stream ∈ notes) : i < p.sessions.length := by
  cases hmove with
  | session hsession hmove =>
      obtain rfl := Option.some.inj (hmove.about _ hnote)
      exact (List.getElem?_eq_some_iff.mp hsession).1
  | dialed htask hsession hphase =>
      rcases List.mem_cons.mp hnote with heq | hnote
      · cases heq
      · cases mem_announceTunnelOnce hnote
  | tcpRefused htask hphase hguard hlazy hnotes =>
      rcases hnotes with rfl | rfl <;> simp at hnote
  | _ => simp at hnote

theorem InOrder.step (h : InOrder log p) (hmove : Move env p p' notes) :
    InOrder (log ++ notes) p' := by
  constructor
  · intro i hle
    obtain ⟨haccepted, hhandled⟩ := h.fresh i (hmove.length_le.trans hle)
    constructor
    · rw [accepted_append, haccepted]
      rintro note hnote stream rfl
      exact absurd (hmove.known_of_accepted hnote) (Nat.not_lt.mpr (hmove.length_le.trans hle))
    · rcases hmove.handled with ⟨hsame, -⟩ | ⟨j, r, stream, guard, hsession, -, -, -, hsame⟩
      · rw [hsame, hhandled]
      · have hlt := (List.getElem?_eq_some_iff.mp hsession).1
        have hle' := hmove.length_le
        rw [hsame, hhandled, if_neg (by omega), List.append_nil]
  · intro i x hx
    rcases hmove.handled with ⟨hhandled, hnone⟩ |
        ⟨j, r, stream, guard, hsession, hacceptor, rfl, hsessions, hhandled⟩
    · rw [hhandled]
      rcases hmove.touched hx with ⟨r, hr, htouched⟩ | ⟨rfl, rfl, setup, rfl⟩
      · exact htouched.waits (hnone i) (h.waits i r hr)
      · obtain ⟨haccepted, hhandled⟩ := h.fresh _ le_rfl
        rw [List.append_nil, haccepted, hhandled]
        rfl
    · rw [hhandled, accepted_append (by simp)]
      rw [hsessions] at hx
      rcases getElem?_set_cases hx with ⟨rfl, rfl⟩ | ⟨hne, hold⟩
      · have hwaits := h.waits i r hsession
        rw [hacceptor] at hwaits
        rw [if_pos rfl]
        exact hwaits
      · rw [if_neg (Ne.symm hne), List.append_nil]
        exact h.waits i x hold

/-! ### Runs -/

variable {history : List (Machine.Record Process Event Note)} {now : Nat}

/-- All that a run has noted. -/
def logOf (history : List (Machine.Record Process Event Note)) : List Note :=
  history.flatMap Machine.Record.sent

theorem logOf_snoc (history : List (Machine.Record Process Event Note))
    (r : Machine.Record Process Event Note) : logOf (history ++ [r]) = logOf history ++ r.sent := by
  simp [logOf]

/-- What every move keeps holds along a run. -/
theorem inv_of_moves {I : List Note → Process → Prop} (hempty : I [] .empty)
    (hstep : ∀ {log p p' notes}, I log p → Move env p p' notes → I (log ++ notes) p')
    (hrun : (tunnelMachine env).Run history p now) : I (logOf history) p := by
  refine Machine.Run.inv (M := tunnelMachine env) (G := fun _ _ => True)
    (I := fun history p _ => I (logOf history) p) hempty ?_ hrun fun _ _ => trivial
  intro history p now event _ _ _ h
  rw [logOf_snoc]
  exact hstep h (step_moves env p event)

/-- **The limits of tunnel sessions.** In every run and for every session, the free permits and the
streams being handled make up the limit, and the streams were handed on in the order they were
accepted, up to one that waits or was dropped. The outbound streams admitted by a semaphore and its
free permits make up its size, and the one in use has the limit of the session that started last. -/
theorem tunnel_within_limits (hrun : (tunnelMachine env).Run history p now) :
    (∀ i r, p.sessions[i]? = some r →
      r.guard.free + p.runningStreams i = (max (r.setup.limit env) 0).toNat ∧
      Waits r.acceptor ((logOf history).filterMap (acceptedBy i)) (p.handled i)) ∧
    (∀ handle sem, p.semaphores[handle]? = some sem →
      sem.free + p.openStreams handle = sem.size) ∧
    ∀ r, p.sessions.getLast? = some r → ∃ handle sem,
      p.outboundGuard = some ((max (r.setup.limit env) 0).toNat, handle) ∧
      p.semaphores[handle]? = some sem ∧ sem.size = (max (r.setup.limit env) 0).toNat := by
  have hlimited : Limited env p :=
    inv_of_moves (I := fun _ p => Limited env p) limited_empty (fun h hmove => h.step hmove) hrun
  have horder : InOrder (logOf history) p :=
    inv_of_moves (I := InOrder) inOrder_empty (fun h hmove => h.step hmove) hrun
  refine ⟨fun i r hsession => ⟨?_, horder.waits i r hsession⟩, hlimited.outbound.whole, ?_⟩
  · have hguard : (p.sessions.map Running.guard)[i]? = some r.guard := by
      rw [List.getElem?_map, hsession]
      rfl
    exact (hlimited.inbound.whole i r.guard hguard).trans (hlimited.sizes i r hsession)
  · intro r hlast
    obtain ⟨handle, hguard⟩ := hlimited.latest r hlast
    obtain ⟨sem, hsem, hsize⟩ := hlimited.inUse _ handle hguard
    exact ⟨handle, sem, hguard, hsem, hsize⟩

/-- A session with one request, which the peer listens for, and one stream at a time. -/
def oneStream : Setup where
  session :=
    { config :=
        { peerAccept := true
          reqs := [⟨.R, ascii "127.0.0.1:8080", ascii "127.0.0.1:22"⟩]
          myReqStart := 0 }
      myReqCount := 1
      allow := { all := false, listen := [], forward := [], forwardRules := [] } }
  forwardMaxStreams := 1

/-- Two streams come, and the second one finds no permit. -/
def twoStreams : List Event :=
  [.start oneStream, .accepted 0 ⟨[0, 0], .fin⟩, .acquired 0, .accepted 0 ⟨[0, 0], .silent⟩,
    .acquired 0]

theorem tunnel_within_limits_full :
    let p := (tunnelMachine fun _ => none).exec .empty twoStreams
    (∃ r, p.sessions[0]? = some r ∧ r.guard.tryAcquire = none) ∧ p.runningStreams 0 = 1 := by
  have hrun := (tunnelMachine fun _ => none).run_untimed (fun _ => rfl) twoStreams
  obtain ⟨hsessions, -, -⟩ := tunnel_within_limits hrun
  obtain ⟨hsum, -⟩ := hsessions 0 _ rfl
  refine ⟨⟨_, rfl, rfl⟩, ?_⟩
  exact (Nat.zero_add _).symm.trans hsum

end Qvole.Tunnel
