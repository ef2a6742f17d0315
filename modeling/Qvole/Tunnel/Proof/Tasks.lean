import Qvole.Tunnel.Tasks

/-!
# What a step of the tunnel tasks can do

`Move` lists the effects of the steps, one constructor for each way a step goes on. A step that finds
no task to advance leaves the process as it is.
-/

namespace Qvole.Tunnel

variable {env : Env} {p : Process}

/-! ### The guard of outbound streams -/

inductive GuardMove (p : Process) : Process → Option Nat → Prop
  | stays : GuardMove p p none
  | panics : GuardMove p { p with poisoned := true } none
  | known {size handle : Nat} (hguard : p.outboundGuard = some (size, handle)) :
      GuardMove p p (some handle)
  | made (n : Nat) :
      GuardMove p { p with
        semaphores := p.semaphores ++ [.new n]
        outboundGuard := some (n, p.semaphores.length) } (some p.semaphores.length)

theorem newGuard_moves (p : Process) (n : Nat) :
    GuardMove p (p.newGuard n).1 (p.newGuard n).2 := by
  unfold Process.newGuard
  split
  · exact .panics
  · exact .made n

/-- A handler makes a guard only where there is none. -/
theorem getOutboundGuard_moves (p : Process) (env : Env) :
    GuardMove p (p.getOutboundGuard env).1 (p.getOutboundGuard env).2 ∧
      ((p.getOutboundGuard env).1.outboundGuard = p.outboundGuard ∨ p.outboundGuard = none) := by
  unfold Process.getOutboundGuard
  split
  · exact ⟨.stays, Or.inl rfl⟩
  · split
    · rename_i hguard
      exact ⟨.known hguard, Or.inl rfl⟩
    · rename_i hnone
      exact ⟨newGuard_moves p _, Or.inr hnone⟩

/-- A session starts with a guard of its own limit. -/
theorem initOutboundGuard_moves (p : Process) (n : Int) :
    GuardMove p (p.initOutboundGuard n).1 (p.initOutboundGuard n).2 ∧
      ∀ handle, (p.initOutboundGuard n).2 = some handle →
        (p.initOutboundGuard n).1.outboundGuard = some ((max n 0).toNat, handle) := by
  have hnew : ∀ handle, (p.newGuard (max n 0).toNat).2 = some handle →
      (p.newGuard (max n 0).toNat).1.outboundGuard = some ((max n 0).toNat, handle) := by
    intro handle hsome
    unfold Process.newGuard at hsome ⊢
    split at hsome
    · cases hsome
    · rename_i hle
      rw [if_neg hle]
      exact congrArg (fun h => some (_, h)) (Option.some.inj hsome)
  unfold Process.initOutboundGuard
  split
  · exact ⟨.stays, fun handle hsome => by cases hsome⟩
  · split
    · rename_i size handle hguard
      split
      · rename_i hsize
        refine ⟨.known hguard, fun other hsome => ?_⟩
        obtain rfl := Option.some.inj hsome
        rw [hguard, hsize]
      · exact ⟨newGuard_moves p _, hnew⟩
    · exact ⟨newGuard_moves p _, hnew⟩

/-! ### Moves -/

/-- The session a step changes, before and after. -/
inductive SessionMove (i : Nat) (r : Running) : Running → List Note → Prop
  | cancel : SessionMove i r { r with cancel := true } [.canceled i]
  | accepted (stream : Inbound) (hacceptor : r.acceptor = .accepting) :
      SessionMove i r { r with acceptor := .acquiring stream } [.accepted i stream]
  | connectionLost (err : ConnectionError) (hacceptor : r.acceptor = .accepting) :
      SessionMove i r (r.acceptorReturns
        (if isPeerDisconnect err then .ok () else .error (.other err.text)))
        [.connectionLost i err]
  | acceptorStops (hacceptor : ∀ outcome, r.acceptor ≠ .returned outcome)
      (hcancelled : r.cancelled = true) :
      SessionMove i r (r.acceptorReturns (.error .canceled)) []
  | bound {idx : Nat} (hlistener : r.listener = .binding idx) (next : ListenerTask)
      (hnext : ∀ outcome, next ≠ .returned outcome) : SessionMove i r { r with listener := next } []
  | bindFailed {idx : Nat} (hlistener : r.listener = .binding idx) (text : Bytes) :
      SessionMove i r (r.listenerReturns (.error (.other text))) [.bindFailed i text]
  | errorReceived {text : Bytes} {rest : List Bytes} (hlistener : r.listener = .selecting)
      (herrors : r.errors = text :: rest) :
      SessionMove i r ({ r with errors := rest }.listenerReturns (.error (.other text))) []
  | listenersStop (hlistener : r.listener = .selecting)
      (hcancelled : r.listenersCancelled = true) :
      SessionMove i r (r.listenerReturns (.error .canceled)) []
  | joined {a l : TunnelResult} (hacceptor : r.acceptor = .returned a)
      (hlistener : r.listener = .returned l) (houtcome : r.outcome = none) :
      SessionMove i r { r with outcome := some (joined a l) } [.returned i (joined a l)]

inductive Move (env : Env) (p : Process) : Process → List Note → Prop
  | rests : Move env p p []
  | refused (e : TunnelError) : Move env p p [.refused e]
  | panicked {p' : Process} (hguard : GuardMove p p' none) : Move env p p' [.panicked]
  | started (setup : Setup) {p' : Process} {handle : Nat} (hguard : GuardMove p p' (some handle))
      (hsize : p'.outboundGuard = some ((max (setup.limit env) 0).toNat, handle)) :
      Move env p { p' with sessions := p'.sessions ++ [.start setup env] } []
  | session {i : Nat} {r r' : Running} {notes : List Note} (hsession : p.sessions[i]? = some r)
      (hmove : SessionMove i r r' notes) : Move env p (p.setSession i r') notes
  | acquired {i : Nat} {r : Running} {stream : Inbound} {guard : Semaphore}
      (hsession : p.sessions[i]? = some r) (hacceptor : r.acceptor = .acquiring stream)
      (hguard : r.guard.tryAcquire = some guard) :
      Move env p
        { p.setSession i { r with acceptor := .accepting, guard } with
          streams := p.streams ++ [{ owner := i, stream, phase := .reading }] }
        [.handled i p.streams.length]
  | listened {i idx : Nat} {r : Running} {req : TunnelRequest}
      (hsession : p.sessions[i]? = some r) (hlistener : r.listener = .binding idx)
      (hreq : r.setup.session.config.reqs[idx]? = some req) :
      Move env p
        { p.setSession i { r with listener := .binding (idx + 1) } with
          loops := p.loops ++ [{ owner := i, idx, req, phase := .accepting }] } []
  | tcpAccepted {l : Nat} {loop : AcceptLoop} {r : Running} (hloop : p.loops[l]? = some loop)
      (hsession : p.sessions[loop.owner]? = some r) :
      Move env p
        { p with tcps := p.tcps ++ [{ owner := loop.owner, idx := loop.idx, phase := .spawned }] }
        []
  | acceptFailed {l : Nat} {loop : AcceptLoop} {r : Running} (text : Bytes)
      (hloop : p.loops[l]? = some loop) (hsession : p.sessions[loop.owner]? = some r) :
      Move env p
        ((p.setSession loop.owner { r with listening := true }).setLoop l loop (.failing text))
        [.acceptFailed loop.owner text]
  | errorSent {l : Nat} {loop : AcceptLoop} {r : Running} {text : Bytes}
      (hloop : p.loops[l]? = some loop) (hphase : loop.phase = .failing text)
      (hsession : p.sessions[loop.owner]? = some r) :
      Move env p
        ((p.setSession loop.owner { r with errors := r.errors ++ [text] }).setLoop l loop .ended) []
  | loopEnded {l : Nat} {loop : AcceptLoop} (hloop : p.loops[l]? = some loop) :
      Move env p (p.setLoop l loop .ended) []
  | tcpRefused {t : Nat} {task : TcpTask} {p' : Process} {handle : Option Nat} {notes : List Note}
      (htask : p.tcps[t]? = some task) (hphase : task.phase = .spawned)
      (hguard : GuardMove p p' handle)
      (hlazy : p'.outboundGuard = p.outboundGuard ∨ p.outboundGuard = none)
      (hnotes : notes = [] ∨ notes = [.panicked]) :
      Move env p (p'.setTcp t task .ended) notes
  | tcpTook {t handle : Nat} {task : TcpTask} {p' : Process} {sem sem' : Semaphore}
      (htask : p.tcps[t]? = some task) (hphase : task.phase = .spawned)
      (hguard : GuardMove p p' (some handle))
      (hlazy : p'.outboundGuard = p.outboundGuard ∨ p.outboundGuard = none)
      (hsem : p'.semaphores[handle]? = some sem)
      (htake : sem.tryAcquire = some sem') :
      Move env p ((p'.setSemaphore handle sem').setTcp t task (.opening handle)) []
  | tcpOpened {t permit : Nat} {task : TcpTask} (htask : p.tcps[t]? = some task)
      (hphase : task.phase = .opening permit) : Move env p (p.setTcp t task (.writing permit)) []
  | tcpWrote {t permit : Nat} {task : TcpTask} (htask : p.tcps[t]? = some task)
      (hphase : task.phase = .writing permit) :
      Move env p (p.setTcp t task (.copying permit)) [.opened task.owner (Bytes.be16 task.idx)]
  | tcpEnded {t permit : Nat} {task : TcpTask} (htask : p.tcps[t]? = some task)
      (hphase : task.phase = .opening permit ∨ task.phase = .writing permit ∨
        task.phase = .copying permit) : Move env p (p.endTcp t task permit) []
  | headerRead {s : Nat} {task : StreamTask} {r : Running} (dns : Dns)
      (htask : p.streams[s]? = some task) (hsession : p.sessions[task.owner]? = some r)
      (hphase : task.phase = .reading) :
      Move env p
        (p.setStream s task r (Process.behindHeader r.setup.session task.stream dns)) []
  | dialed {s idx : Nat} {task : StreamTask} {r : Running} {addr : Bytes} {rest : List Bytes}
      (htask : p.streams[s]? = some task) (hsession : p.sessions[task.owner]? = some r)
      (hphase : task.phase = .dialing idx addr rest) :
      Move env p
        (p.setStream s task (Process.announceTunnelOnce task.owner r idx).1 (.copying idx))
        (.dialed s idx addr true :: (Process.announceTunnelOnce task.owner r idx).2)
  | dialFailed {s idx : Nat} {task : StreamTask} {r : Running} {addr : Bytes} {rest : List Bytes}
      (htask : p.streams[s]? = some task) (hsession : p.sessions[task.owner]? = some r)
      (hphase : task.phase = .dialing idx addr rest) :
      Move env p (p.setStream s task r (Process.nextDial idx rest)) [.dialed s idx addr false]
  | streamCopied {s idx : Nat} {task : StreamTask} {r : Running}
      (htask : p.streams[s]? = some task) (hsession : p.sessions[task.owner]? = some r)
      (hphase : task.phase = .copying idx) : Move env p (p.setStream s task r .ended) []

theorem start_moves (p : Process) (env : Env) (setup : Setup) :
    Move env p (p.start env setup).1 (p.start env setup).2 := by
  obtain ⟨hguard, hsize⟩ := initOutboundGuard_moves p (setup.limit env)
  unfold Process.start
  split
  · exact .refused _
  · generalize p.initOutboundGuard (setup.limit env) = result at hguard hsize
    obtain ⟨p', handle⟩ := result
    cases handle with
    | none => exact .panicked hguard
    | some handle => exact .started setup hguard (hsize handle rfl)

/-- What is done with a session that is not there. -/
theorem onSession_moves {i : Nat} {f : Running → Process × List Note}
    (h : ∀ r, p.sessions[i]? = some r → Move env p (f r).1 (f r).2) :
    Move env p (p.onSession i f).1 (p.onSession i f).2 := by
  unfold Process.onSession
  split
  · rename_i r hsession
    exact h r hsession
  · exact .rests

theorem onLoop_moves {l : Nat} {f : AcceptLoop → Running → Process × List Note}
    (h : ∀ loop r, p.loops[l]? = some loop → p.sessions[loop.owner]? = some r →
      Move env p (f loop r).1 (f loop r).2) :
    Move env p (p.onLoop l f).1 (p.onLoop l f).2 := by
  unfold Process.onLoop
  split
  · rename_i loop hloop
    exact onSession_moves fun r hsession => h loop r hloop hsession
  · exact .rests

theorem onStream_moves {s : Nat} {f : StreamTask → Running → Process × List Note}
    (h : ∀ task r, p.streams[s]? = some task → p.sessions[task.owner]? = some r →
      Move env p (f task r).1 (f task r).2) :
    Move env p (p.onStream s f).1 (p.onStream s f).2 := by
  unfold Process.onStream
  split
  · rename_i task htask
    exact onSession_moves fun r hsession => h task r htask hsession
  · exact .rests

theorem bind_moves (p : Process) (env : Env) (i : Nat) (failure : Option Bytes) :
    Move env p (p.bind i failure).1 (p.bind i failure).2 := by
  refine onSession_moves fun r hsession => ?_
  cases hlistener : r.listener with
  | binding idx =>
      simp only
      cases hreq : r.setup.session.config.reqs[idx]? with
      | none => exact .session hsession (.bound hlistener _ nofun)
      | some req =>
          simp only
          split
          · exact .session hsession (.bound hlistener _ nofun)
          · cases failure with
            | none => exact .listened hsession hlistener hreq
            | some text => exact .session hsession (.bindFailed hlistener _)
  | selecting => exact .rests
  | returned outcome => exact .rests

theorem tcpPolled_moves (p : Process) (env : Env) (t : Nat) :
    Move env p (p.tcpPolled env t).1 (p.tcpPolled env t).2 := by
  unfold Process.tcpPolled
  split
  · rename_i task htask
    split
    · rename_i hphase
      split
      · exact .tcpRefused htask hphase .stays (Or.inl rfl) (Or.inl rfl)
      · obtain ⟨hguard, hlazy⟩ := getOutboundGuard_moves p env
        generalize p.getOutboundGuard env = result at hguard hlazy
        obtain ⟨p', handle⟩ := result
        cases handle with
        | none => exact .tcpRefused htask hphase hguard hlazy (Or.inr rfl)
        | some handle =>
            simp only at hguard hlazy ⊢
            split
            · rename_i sem hsem
              split
              · rename_i sem' htake
                exact .tcpTook htask hphase hguard hlazy hsem htake
              · exact .tcpRefused htask hphase hguard hlazy (Or.inl rfl)
            · exact .tcpRefused htask hphase hguard hlazy (Or.inl rfl)
    · exact .rests
  · exact .rests

/-- **The moves of a process** are all that its steps do. -/
theorem step_moves (env : Env) (p : Process) (event : Event) :
    Move env p (p.step env event).1 (p.step env event).2 := by
  cases event with
  | start setup => exact start_moves p env setup
  | cancel i => exact onSession_moves fun r hsession => .session hsession .cancel
  | accepted i stream =>
      refine onSession_moves fun r hsession => ?_
      cases hacceptor : r.acceptor with
      | accepting => exact .session hsession (.accepted stream hacceptor)
      | acquiring stream => exact .rests
      | returned outcome => exact .rests
  | connectionLost i err =>
      refine onSession_moves fun r hsession => ?_
      cases hacceptor : r.acceptor with
      | accepting => exact .session hsession (.connectionLost err hacceptor)
      | acquiring stream => exact .rests
      | returned outcome => exact .rests
  | acquired i =>
      refine onSession_moves fun r hsession => ?_
      split
      · rename_i stream guard hacceptor hguard
        exact .acquired hsession hacceptor hguard
      · exact .rests
  | acceptorStops i =>
      refine onSession_moves fun r hsession => ?_
      split
      · exact .rests
      · rename_i hcancelled hacceptor
        exact .session hsession (.acceptorStops hacceptor hcancelled)
      · exact .rests
  | bind i failure => exact bind_moves p env i failure
  | errorReceived i =>
      refine onSession_moves fun r hsession => ?_
      split
      · rename_i text rest hlistener herrors
        exact .session hsession (.errorReceived hlistener herrors)
      · exact .rests
  | listenersStop i =>
      refine onSession_moves fun r hsession => ?_
      split
      · rename_i hlistener hcancelled
        exact .session hsession (.listenersStop hlistener hcancelled)
      · exact .rests
  | joined i =>
      refine onSession_moves fun r hsession => ?_
      split
      · rename_i a l hacceptor hlistener houtcome
        exact .session hsession (.joined hacceptor hlistener houtcome)
      · exact .rests
  | tcpAccepted l =>
      refine onLoop_moves fun loop r hloop hsession => ?_
      split
      · exact .tcpAccepted hloop hsession
      · exact .rests
  | acceptFailed l text =>
      refine onLoop_moves fun loop r hloop hsession => ?_
      split
      · split
        · exact .loopEnded hloop
        · exact .acceptFailed _ hloop hsession
      · exact .rests
  | errorSent l =>
      refine onLoop_moves fun loop r hloop hsession => ?_
      split
      · rename_i text hphase
        exact .errorSent hloop hphase hsession
      · exact .rests
  | loopStops l =>
      refine onLoop_moves fun loop r hloop hsession => ?_
      split
      · exact .loopEnded hloop
      · exact .rests
  | tcpPolled t => exact tcpPolled_moves p env t
  | streamOpened t ok =>
      simp only [Process.step, Process.streamOpened]
      split
      · rename_i task htask
        split
        · rename_i permit hphase
          split
          · exact .tcpOpened htask hphase
          · exact .tcpEnded htask (Or.inl hphase)
        · exact .rests
      · exact .rests
  | headerWritten t ok =>
      simp only [Process.step, Process.headerWritten]
      split
      · rename_i task htask
        split
        · rename_i permit hphase
          split
          · exact .tcpWrote htask hphase
          · exact .tcpEnded htask (Or.inr (Or.inl hphase))
        · exact .rests
      · exact .rests
  | tcpCopied t =>
      simp only [Process.step, Process.tcpCopied]
      split
      · rename_i task htask
        split
        · rename_i permit hphase
          exact .tcpEnded htask (Or.inr (Or.inr hphase))
        · exact .rests
      · exact .rests
  | headerRead s dns =>
      refine onStream_moves fun task r htask hsession => ?_
      split
      · rename_i hphase
        exact .headerRead dns htask hsession hphase
      · exact .rests
  | dialed s connected =>
      refine onStream_moves fun task r htask hsession => ?_
      split
      · rename_i idx addr rest hphase
        split
        · exact .dialed htask hsession hphase
        · exact .dialFailed htask hsession hphase
      · exact .rests
  | streamCopied s =>
      refine onStream_moves fun task r htask hsession => ?_
      split
      · rename_i idx hphase
        exact .streamCopied htask hsession hphase
      · exact .rests

/-! ### What a move means to a session -/

/-- The session that a note is about. -/
def Note.about : Note → Option Nat
  | .canceled i => some i
  | .accepted i _ => some i
  | .handled i _ => some i
  | .connectionLost i _ => some i
  | .bindFailed i _ => some i
  | .acceptFailed i _ => some i
  | .opened i _ => some i
  | .announced i _ => some i
  | .returned i _ => some i
  | .refused _ => none
  | .panicked => none
  | .dialed _ _ _ _ => none

inductive Touched (p : Process) (i : Nat) (r : Running) (notes : List Note) : Running → Prop
  | untouched (hnotes : ∀ note ∈ notes, note.about = some i → ∃ header, note = .opened i header) :
      Touched p i r notes r
  | moved {r' : Running} (hmove : SessionMove i r r' notes) : Touched p i r notes r'
  | acquired {stream : Inbound} {guard : Semaphore} {s : Nat}
      (hacceptor : r.acceptor = .acquiring stream) (hnotes : notes = [.handled i s]) :
      Touched p i r notes { r with acceptor := .accepting, guard }
  | listened {idx : Nat} (hlistener : r.listener = .binding idx) (hnotes : notes = []) :
      Touched p i r notes { r with listener := .binding (idx + 1) }
  | acceptFailed {text : Bytes} (hnotes : notes = [.acceptFailed i text]) :
      Touched p i r notes { r with listening := true }
  | errorSent {text : Bytes} {loop : AcceptLoop} (hloop : loop ∈ p.loops) (howner : loop.owner = i)
      (hphase : loop.phase = .failing text) (hnotes : notes = []) :
      Touched p i r notes { r with errors := r.errors ++ [text] }
  | handler {guard : Semaphore} {announced : List Nat}
      (hnotes : ∀ note ∈ notes, note.about = some i → ∃ idx, note = .announced i idx) :
      Touched p i r notes { r with guard, announced }

variable {p' : Process} {notes : List Note} {i j : Nat} {r r' x : Running}

theorem SessionMove.about (h : SessionMove i r r' notes) : ∀ note ∈ notes, note.about = some i := by
  intro note hnote
  cases h <;> first
    | exact absurd hnote List.not_mem_nil
    | (obtain rfl := List.mem_singleton.mp hnote
       rfl)

theorem getElem?_set_cases {α : Type} {xs : List α} {i j : Nat} {a b : α}
    (h : (xs.set j b)[i]? = some a) : (i = j ∧ a = b) ∨ (i ≠ j ∧ xs[i]? = some a) := by
  by_cases heq : i = j
  · subst heq
    have hlt := (List.getElem?_eq_some_iff.mp h).1
    rw [List.length_set] at hlt
    rw [List.getElem?_set_self hlt] at h
    exact Or.inl ⟨rfl, (Option.some.inj h).symm⟩
  · rw [List.getElem?_set_ne (Ne.symm heq)] at h
    exact Or.inr ⟨heq, h⟩

/-- A step that changes the session at `j`, with notes about no other one. -/
theorem touched_set (hsession : p.sessions[j]? = some r) (htouched : Touched p j r notes r')
    (hothers : ∀ note ∈ notes, ∀ i, note.about = some i → i = j)
    (hx : (p.sessions.set j r')[i]? = some x) :
    ∃ r, p.sessions[i]? = some r ∧ Touched p i r notes x := by
  rcases getElem?_set_cases hx with ⟨rfl, rfl⟩ | ⟨hne, hold⟩
  · exact ⟨r, hsession, htouched⟩
  · refine ⟨x, hold, .untouched fun note hnote habout => ?_⟩
    exact absurd (hothers note hnote i habout) hne

theorem GuardMove.sessions {handle : Option Nat} (h : GuardMove p p' handle) :
    p'.sessions = p.sessions := by
  cases h <;> rfl

theorem sessions_endTcp (p : Process) (t : Nat) (task : TcpTask) (permit : Nat) :
    (p.endTcp t task permit).sessions = p.sessions := by
  unfold Process.endTcp
  split <;> rfl

theorem length_setStream (p : Process) (s : Nat) (task : StreamTask) (r : Running)
    (phase : StreamPhase) : (p.setStream s task r phase).sessions.length = p.sessions.length := by
  unfold Process.setStream
  split <;> exact List.length_set

/-- The session of a handler changes only in its semaphore and its announcements. -/
theorem touched_setStream {s : Nat} {task : StreamTask} {phase : StreamPhase}
    (announced : List Nat) (hsession : p.sessions[task.owner]? = some r)
    (hnotes : ∀ note ∈ notes, ∀ i, note.about = some i →
      i = task.owner ∧ ∃ idx, note = .announced i idx)
    (hx : (p.setStream s task { r with announced } phase).sessions[i]? = some x) :
    ∃ r, p.sessions[i]? = some r ∧ Touched p i r notes x := by
  unfold Process.setStream at hx
  split at hx
  all_goals
    refine touched_set hsession ?_ (fun note hnote i habout => (hnotes note hnote i habout).1) hx
    exact .handler fun note hnote habout => (hnotes note hnote _ habout).2

theorem announceTunnelOnce_eq (i : Nat) (r : Running) (idx : Nat) :
    ∃ announced, (Process.announceTunnelOnce i r idx).1 = { r with announced } := by
  unfold Process.announceTunnelOnce
  split
  · exact ⟨r.announced, rfl⟩
  · exact ⟨idx :: r.announced, rfl⟩

theorem mem_announceTunnelOnce {idx : Nat} {note : Note}
    (h : note ∈ (Process.announceTunnelOnce i r idx).2) : note = .announced i idx := by
  unfold Process.announceTunnelOnce at h
  split at h
  · exact absurd h List.not_mem_nil
  · exact List.mem_singleton.mp h

/-- **A session across a move**: it is one that was there, changed in one of few ways, or the new
one. -/
theorem Move.touched (hmove : Move env p p' notes) (hx : p'.sessions[i]? = some x) :
    (∃ r, p.sessions[i]? = some r ∧ Touched p i r notes x) ∨
      (i = p.sessions.length ∧ notes = [] ∧ ∃ setup, x = .start setup env) := by
  have hsame : p'.sessions = p.sessions →
      (∀ note ∈ notes, ∀ i, note.about = some i → ∃ header, note = .opened i header) →
      ∃ r, p.sessions[i]? = some r ∧ Touched p i r notes x := by
    intro hsessions hnotes
    rw [hsessions] at hx
    exact ⟨x, hx, .untouched fun note hnote => hnotes note hnote i⟩
  cases hmove with
  | rests => exact Or.inl (hsame rfl nofun)
  | refused e =>
      refine Or.inl (hsame rfl fun note hnote i habout => ?_)
      obtain rfl := List.mem_singleton.mp hnote
      cases habout
  | panicked hguard =>
      refine Or.inl (hsame hguard.sessions fun note hnote i habout => ?_)
      obtain rfl := List.mem_singleton.mp hnote
      cases habout
  | started setup hguard hsize =>
      simp only [hguard.sessions] at hx
      rcases List.getElem?_concat_cases hx with hold | ⟨rfl, rfl⟩
      · exact Or.inl ⟨x, hold, .untouched nofun⟩
      · exact Or.inr ⟨rfl, rfl, setup, rfl⟩
  | session hsession hmove =>
      refine Or.inl (touched_set hsession (.moved hmove) (fun note hnote i habout => ?_) hx)
      exact Option.some.inj (habout.symm.trans (hmove.about note hnote))
  | acquired hsession hacceptor hguard =>
      refine Or.inl (touched_set hsession (.acquired hacceptor rfl)
        (fun note hnote i habout => ?_) hx)
      obtain rfl := List.mem_singleton.mp hnote
      exact (Option.some.inj habout).symm
  | listened hsession hlistener hreq =>
      exact Or.inl (touched_set hsession (.listened hlistener rfl) nofun hx)
  | tcpAccepted hloop hsession => exact Or.inl (hsame rfl nofun)
  | acceptFailed text hloop hsession =>
      refine Or.inl (touched_set hsession (.acceptFailed rfl) (fun note hnote i habout => ?_) hx)
      obtain rfl := List.mem_singleton.mp hnote
      exact (Option.some.inj habout).symm
  | errorSent hloop hphase hsession =>
      exact Or.inl (touched_set hsession
        (.errorSent (List.mem_of_getElem? hloop) rfl hphase rfl) nofun hx)
  | loopEnded hloop => exact Or.inl (hsame rfl nofun)
  | tcpRefused htask hphase hguard hlazy hnotes =>
      refine Or.inl (hsame hguard.sessions fun note hnote i habout => ?_)
      rcases hnotes with rfl | rfl
      · exact absurd hnote List.not_mem_nil
      · obtain rfl := List.mem_singleton.mp hnote
        cases habout
  | tcpTook htask hphase hguard hlazy hsem htake => exact Or.inl (hsame hguard.sessions nofun)
  | tcpOpened htask hphase => exact Or.inl (hsame rfl nofun)
  | tcpWrote htask hphase =>
      refine Or.inl (hsame rfl fun note hnote i habout => ?_)
      obtain rfl := List.mem_singleton.mp hnote
      obtain rfl := Option.some.inj habout
      exact ⟨_, rfl⟩
  | tcpEnded htask hphase => exact Or.inl (hsame (sessions_endTcp _ _ _ _) nofun)
  | @headerRead s task r dns htask hsession hphase =>
      exact Or.inl (touched_setStream r.announced hsession nofun hx)
  | @dialed s idx task r addr rest htask hsession hphase =>
      obtain ⟨announced, hannounced⟩ := announceTunnelOnce_eq task.owner r idx
      rw [hannounced] at hx
      refine Or.inl (touched_setStream announced hsession (fun note hnote i habout => ?_) hx)
      rcases List.mem_cons.mp hnote with rfl | hnote
      · cases habout
      · obtain rfl := mem_announceTunnelOnce hnote
        obtain rfl := Option.some.inj habout
        exact ⟨rfl, idx, rfl⟩
  | @dialFailed s idx task r addr rest htask hsession hphase =>
      refine Or.inl (touched_setStream r.announced hsession
        (fun note hnote i habout => ?_) hx)
      obtain rfl := List.mem_singleton.mp hnote
      cases habout
  | @streamCopied s idx task r htask hsession hphase =>
      exact Or.inl (touched_setStream r.announced hsession nofun hx)

end Qvole.Tunnel
