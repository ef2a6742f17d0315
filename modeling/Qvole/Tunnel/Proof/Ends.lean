import Qvole.Tunnel.Proof.Capacity

/-!
# How a tunnel session ends

The outcome of a session is read off what happened in it. A connection that fails and an address that
cannot be bound are always reported; an accept loop that fails cancels the listeners before it sends
its error, so its error may give way to the cancellation.
-/

namespace Qvole.Tunnel

variable {env : Env} {p p' : Process} {log notes : List Note} {i : Nat} {r r' : Running}

/-- What the acceptor returns when the connection is lost. -/
def lostResult (err : ConnectionError) : TunnelResult :=
  if isPeerDisconnect err then .ok () else .error (.other err.text)

/-- What may be at the bottom of a cancellation. -/
def Origin (log : List Note) (i : Nat) : Prop :=
  .canceled i ∈ log ∨ (∃ err, .connectionLost i err ∈ log) ∨ (∃ text, .bindFailed i text ∈ log) ∨
    ∃ text, .acceptFailed i text ∈ log

theorem Origin.append (h : Origin log i) (notes : List Note) : Origin (log ++ notes) i := by
  rcases h with h | ⟨err, h⟩ | ⟨text, h⟩ | ⟨text, h⟩
  · exact Or.inl (List.mem_append_left _ h)
  · exact Or.inr (Or.inl ⟨err, List.mem_append_left _ h⟩)
  · exact Or.inr (Or.inr (Or.inl ⟨text, List.mem_append_left _ h⟩))
  · exact Or.inr (Or.inr (Or.inr ⟨text, List.mem_append_left _ h⟩))

/-! ### What a session knows of its past -/

structure Caused (log : List Note) (i : Nat) (r : Running) : Prop where
  origin : r.listenersCancelled = true → Origin log i
  errors : ∀ text ∈ r.errors, .acceptFailed i text ∈ log
  lost : ∀ err, .connectionLost i err ∈ log → r.acceptor = .returned (lostResult err)
  acceptor : ∀ outcome, r.acceptor = .returned outcome → r.session = true ∧
    ((∃ err, .connectionLost i err ∈ log ∧ outcome = lostResult err) ∨ outcome = .error .canceled)
  bindFailed : ∀ text, .bindFailed i text ∈ log → r.listener = .returned (.error (.other text))
  listener : ∀ outcome, r.listener = .returned outcome →
    (∃ text, outcome = .error (.other text) ∧
      (.bindFailed i text ∈ log ∨ .acceptFailed i text ∈ log)) ∨ outcome = .error .canceled
  outcome : ∀ outcome, .returned i outcome ∈ log → ∃ a l, r.acceptor = .returned a ∧
    r.listener = .returned l ∧ outcome = joined a l

theorem Caused.acceptor_append {outcome : TunnelResult} (h : Caused log i r)
    (hreturned : r.acceptor = .returned outcome) (notes : List Note) : r.session = true ∧
    ((∃ err, .connectionLost i err ∈ log ++ notes ∧ outcome = lostResult err) ∨
      outcome = .error .canceled) := by
  obtain ⟨hsession, ⟨err, herr, heq⟩ | hcanceled⟩ := h.acceptor outcome hreturned
  · exact ⟨hsession, Or.inl ⟨err, List.mem_append_left _ herr, heq⟩⟩
  · exact ⟨hsession, Or.inr hcanceled⟩

theorem Caused.listener_append {outcome : TunnelResult} (h : Caused log i r)
    (hreturned : r.listener = .returned outcome) (notes : List Note) :
    (∃ text, outcome = .error (.other text) ∧
      (.bindFailed i text ∈ log ++ notes ∨ .acceptFailed i text ∈ log ++ notes)) ∨
      outcome = .error .canceled := by
  rcases h.listener outcome hreturned with ⟨text, heq, hbind | haccept⟩ | hcanceled
  · exact Or.inl ⟨text, heq, Or.inl (List.mem_append_left _ hbind)⟩
  · exact Or.inl ⟨text, heq, Or.inr (List.mem_append_left _ haccept)⟩
  · exact Or.inr hcanceled

/-- Notes that leave open how the session ends. -/
def Open (i : Nat) (note : Note) : Prop :=
  (∀ err, note ≠ .connectionLost i err) ∧ (∀ text, note ≠ .bindFailed i text) ∧
    ∀ outcome, note ≠ .returned i outcome

theorem Caused.append (h : Caused log i r) (hopen : ∀ note ∈ notes, Open i note) :
    Caused (log ++ notes) i r where
  origin := fun hcancelled => (h.origin hcancelled).append notes
  errors := fun text htext => List.mem_append_left _ (h.errors text htext)
  lost := by
    intro err hmem
    rcases List.mem_append.mp hmem with hold | hnew
    · exact h.lost err hold
    · exact absurd rfl ((hopen _ hnew).1 err)
  acceptor := fun _ hreturned => h.acceptor_append hreturned notes
  bindFailed := by
    intro text hmem
    rcases List.mem_append.mp hmem with hold | hnew
    · exact h.bindFailed text hold
    · exact absurd rfl ((hopen _ hnew).2.1 text)
  listener := fun _ hreturned => h.listener_append hreturned notes
  outcome := by
    intro outcome hmem
    rcases List.mem_append.mp hmem with hold | hnew
    · exact h.outcome outcome hold
    · exact absurd rfl ((hopen _ hnew).2.2 outcome)

theorem open_of_about {note : Note}
    (h : note.about = some i → (∃ header, note = .opened i header) ∨ ∃ idx, note = .announced i idx) :
    Open i note := by
  refine ⟨fun err heq => ?_, fun text heq => ?_, fun outcome heq => ?_⟩
  all_goals
    subst heq
    rcases h rfl with ⟨_, heq⟩ | ⟨_, heq⟩ <;> cases heq

theorem caused_start {setup : Setup} (h : ∀ note ∈ log, Open i note) :
    Caused log i (.start setup env) where
  origin := nofun
  errors := nofun
  lost := fun err hmem => absurd rfl ((h _ hmem).1 err)
  acceptor := nofun
  bindFailed := fun text hmem => absurd rfl ((h _ hmem).2.1 text)
  listener := nofun
  outcome := fun outcome hmem => absurd rfl ((h _ hmem).2.2 outcome)

/-! ### Returns -/

/-- The acceptor returns. It had not returned before, so no connection was lost yet. -/
theorem Caused.acceptorReturns {outcome : TunnelResult} (h : Caused log i r)
    (hrunning : ∀ outcome, r.acceptor ≠ .returned outcome)
    (hnotes : (∃ err, notes = [.connectionLost i err] ∧ outcome = lostResult err) ∨
      (notes = [] ∧ outcome = .error .canceled ∧ r.cancelled = true)) :
    Caused (log ++ notes) i (r.acceptorReturns outcome) where
  origin := by
    intro _
    rcases hnotes with ⟨err, rfl, -⟩ | ⟨rfl, -, hcancelled⟩
    · exact Or.inr (Or.inl ⟨err, by simp⟩)
    · refine (h.origin ?_).append _
      simp [Running.listenersCancelled, hcancelled]
  errors := fun text htext => List.mem_append_left _ (h.errors text htext)
  lost := by
    intro err hmem
    rcases List.mem_append.mp hmem with hold | hnew
    · exact absurd (h.lost err hold) (hrunning _)
    · rcases hnotes with ⟨other, rfl, houtcome⟩ | ⟨rfl, -⟩
      · cases List.mem_singleton.mp hnew
        exact congrArg _ houtcome
      · cases hnew
  acceptor := by
    intro other hreturned
    obtain rfl : outcome = other := by
      injection hreturned
    refine ⟨rfl, ?_⟩
    rcases hnotes with ⟨err, rfl, houtcome⟩ | ⟨rfl, houtcome, -⟩
    · exact Or.inl ⟨err, by simp, houtcome⟩
    · exact Or.inr houtcome
  bindFailed := by
    intro text hmem
    rcases List.mem_append.mp hmem with hold | hnew
    · exact h.bindFailed text hold
    · rcases hnotes with ⟨err, rfl, -⟩ | ⟨rfl, -⟩
      · cases List.mem_singleton.mp hnew
      · cases hnew
  listener := fun _ hreturned => h.listener_append hreturned notes
  outcome := by
    intro other hmem
    rcases List.mem_append.mp hmem with hold | hnew
    · obtain ⟨a, l, hacceptor, -⟩ := h.outcome other hold
      exact absurd hacceptor (hrunning a)
    · rcases hnotes with ⟨err, rfl, -⟩ | ⟨rfl, -⟩
      · cases List.mem_singleton.mp hnew
      · cases hnew

/-- The listener task returns, for the first time. -/
theorem Caused.listenerReturns {outcome : TunnelResult} {errors : List Bytes} (h : Caused log i r)
    (hrunning : ∀ outcome, r.listener ≠ .returned outcome)
    (herrors : ∀ text ∈ errors, text ∈ r.errors)
    (hnotes : (∃ text, notes = [.bindFailed i text] ∧ outcome = .error (.other text)) ∨
      (notes = [] ∧ ((∃ text ∈ r.errors, outcome = .error (.other text)) ∨
        (outcome = .error .canceled ∧ r.listenersCancelled = true)))) :
    Caused (log ++ notes) i ({ r with errors }.listenerReturns outcome) where
  origin := by
    intro _
    rcases hnotes with ⟨text, rfl, -⟩ | ⟨rfl, ⟨text, htext, -⟩ | ⟨-, hcancelled⟩⟩
    · exact Or.inr (Or.inr (Or.inl ⟨text, by simp⟩))
    · exact Or.inr (Or.inr (Or.inr ⟨text, List.mem_append_left _ (h.errors text htext)⟩))
    · exact (h.origin hcancelled).append _
  errors := fun text htext => List.mem_append_left _ (h.errors text (herrors text htext))
  lost := by
    intro err hmem
    rcases List.mem_append.mp hmem with hold | hnew
    · exact h.lost err hold
    · rcases hnotes with ⟨text, rfl, -⟩ | ⟨rfl, -⟩
      · cases List.mem_singleton.mp hnew
      · cases hnew
  acceptor := fun _ hreturned => ⟨rfl, (h.acceptor_append hreturned notes).2⟩
  bindFailed := by
    intro text hmem
    rcases List.mem_append.mp hmem with hold | hnew
    · exact absurd (h.bindFailed text hold) (hrunning _)
    · rcases hnotes with ⟨other, rfl, houtcome⟩ | ⟨rfl, -⟩
      · cases List.mem_singleton.mp hnew
        exact congrArg _ houtcome
      · cases hnew
  listener := by
    intro other hreturned
    obtain rfl : outcome = other := by
      injection hreturned
    rcases hnotes with ⟨text, rfl, houtcome⟩ | ⟨rfl, ⟨text, htext, houtcome⟩ | ⟨houtcome, -⟩⟩
    · exact Or.inl ⟨text, houtcome, Or.inl (by simp)⟩
    · exact Or.inl ⟨text, houtcome, Or.inr (List.mem_append_left _ (h.errors text htext))⟩
    · exact Or.inr houtcome
  outcome := by
    intro other hmem
    rcases List.mem_append.mp hmem with hold | hnew
    · obtain ⟨a, l, -, hlistener, -⟩ := h.outcome other hold
      exact absurd hlistener (hrunning l)
    · rcases hnotes with ⟨text, rfl, -⟩ | ⟨rfl, -⟩
      · cases List.mem_singleton.mp hnew
      · cases hnew

/-- The acceptor goes on. As it has not returned, nothing in the log speaks of its outcome. -/
theorem Caused.setAcceptor {next : Acceptor} {guard : Semaphore} (h : Caused log i r)
    (hrunning : ∀ outcome, r.acceptor ≠ .returned outcome)
    (hnext : ∀ outcome, next ≠ .returned outcome) :
    Caused log i { r with acceptor := next, guard } :=
  { h with
    lost := fun err hmem => absurd (h.lost err hmem) (hrunning _)
    acceptor := fun outcome hreturned => absurd hreturned (hnext outcome)
    outcome := fun outcome hmem => by
      obtain ⟨a, l, hacceptor, -⟩ := h.outcome outcome hmem
      exact absurd hacceptor (hrunning a) }

theorem Caused.setListener {next : ListenerTask} (h : Caused log i r)
    (hrunning : ∀ outcome, r.listener ≠ .returned outcome)
    (hnext : ∀ outcome, next ≠ .returned outcome) : Caused log i { r with listener := next } :=
  { h with
    bindFailed := fun text hmem => absurd (h.bindFailed text hmem) (hrunning _)
    listener := fun outcome hreturned => absurd hreturned (hnext outcome)
    outcome := fun outcome hmem => by
      obtain ⟨a, l, -, hlistener, -⟩ := h.outcome outcome hmem
      exact absurd hlistener (hrunning l) }

theorem SessionMove.caused (hmove : SessionMove i r r' notes) (h : Caused log i r) :
    Caused (log ++ notes) i r' := by
  cases hmove with
  | cancel =>
      have happend : Caused (log ++ [.canceled i]) i r := h.append (by simp [Open])
      exact { happend with origin := fun _ => Or.inl (by simp) }
  | accepted stream hacceptor =>
      have happend : Caused (log ++ [.accepted i stream]) i r := h.append (by simp [Open])
      exact happend.setAcceptor (by simp [hacceptor]) nofun
  | connectionLost err hacceptor =>
      exact h.acceptorReturns (by simp [hacceptor]) (Or.inl ⟨err, rfl, rfl⟩)
  | acceptorStops hacceptor hcancelled =>
      exact h.acceptorReturns hacceptor (Or.inr ⟨rfl, rfl, hcancelled⟩)
  | bound hlistener next hnext =>
      rw [List.append_nil]
      exact h.setListener (by simp [hlistener]) hnext
  | bindFailed hlistener text =>
      exact h.listenerReturns (by simp [hlistener]) (fun text htext => htext)
        (Or.inl ⟨text, rfl, rfl⟩)
  | @errorReceived text rest hlistener herrors =>
      refine h.listenerReturns (by simp [hlistener]) (fun other hother => ?_)
        (Or.inr ⟨rfl, Or.inl ⟨text, by simp [herrors], rfl⟩⟩)
      rw [herrors]
      exact List.mem_cons_of_mem _ hother
  | listenersStop hlistener hcancelled =>
      exact h.listenerReturns (by simp [hlistener]) (fun text htext => htext)
        (Or.inr ⟨rfl, Or.inr ⟨rfl, hcancelled⟩⟩)
  | @joined a l hacceptor hlistener houtcome =>
      constructor
      · exact fun hcancelled => (h.origin hcancelled).append _
      · exact fun text htext => List.mem_append_left _ (h.errors text htext)
      · intro err hmem
        exact h.lost err (by simpa using hmem)
      · exact fun _ hreturned => h.acceptor_append hreturned _
      · intro text hmem
        exact h.bindFailed text (by simpa using hmem)
      · exact fun _ hreturned => h.listener_append hreturned _
      · intro outcome hmem
        rcases List.mem_append.mp hmem with hold | hnew
        · exact h.outcome outcome hold
        · cases List.mem_singleton.mp hnew
          exact ⟨a, l, hacceptor, hlistener, rfl⟩

theorem Touched.caused (htouched : Touched p i r notes r') (h : Caused log i r)
    (hloops : ∀ loop ∈ p.loops, ∀ text, loop.phase = .failing text →
      .acceptFailed loop.owner text ∈ log) : Caused (log ++ notes) i r' := by
  cases htouched with
  | untouched hnotes =>
      exact h.append fun note hnote => open_of_about fun habout => Or.inl (hnotes note hnote habout)
  | moved hmove => exact hmove.caused h
  | @acquired stream guard s hacceptor hnotes =>
      have happend : Caused (log ++ notes) i r := h.append (by simp [hnotes, Open])
      exact happend.setAcceptor (by simp [hacceptor]) nofun
  | listened hlistener hnotes =>
      rw [hnotes]
      exact SessionMove.caused (.bound hlistener _ nofun) h
  | @acceptFailed text hnotes =>
      have happend : Caused (log ++ notes) i r := h.append (by simp [hnotes, Open])
      exact { happend with
        origin := fun _ => Or.inr (Or.inr (Or.inr ⟨text, by simp [hnotes]⟩)) }
  | @errorSent text loop hloop howner hphase hnotes =>
      rw [hnotes, List.append_nil]
      refine { h with errors := fun other hother => ?_ }
      rcases List.mem_append.mp hother with hold | hnew
      · exact h.errors other hold
      · obtain rfl := List.mem_singleton.mp hnew
        exact howner ▸ hloops loop hloop _ hphase
  | handler hnotes =>
      have happend : Caused (log ++ notes) i r :=
        h.append fun note hnote => open_of_about fun habout => Or.inr (hnotes note hnote habout)
      exact { happend with }

/-! ### Runs -/

structure Told (log : List Note) (p : Process) : Prop where
  sessions : ∀ i r, p.sessions[i]? = some r → Caused log i r
  fresh : ∀ i, p.sessions.length ≤ i → ∀ note ∈ log, Open i note
  loops : ∀ loop ∈ p.loops, ∀ text, loop.phase = .failing text →
    .acceptFailed loop.owner text ∈ log

theorem told_empty : Told [] .empty where
  sessions := fun i r hsession => by simp [Process.empty] at hsession
  fresh := nofun
  loops := nofun

/-- The notes of a move are about sessions that are there. -/
theorem Move.opens (hmove : Move env p p' notes) (hle : p.sessions.length ≤ i) :
    ∀ note ∈ notes, Open i note := by
  have hother : ∀ {j : Nat} {r : Running}, p.sessions[j]? = some r → j ≠ i := by
    intro j r hsession heq
    have hlt := (List.getElem?_eq_some_iff.mp hsession).1
    omega
  intro note hnote
  cases hmove with
  | session hsession hmove =>
      refine open_of_about fun habout => absurd ?_ (hother hsession)
      exact Option.some.inj ((hmove.about note hnote).symm.trans habout)
  | acquired hsession hacceptor hguard =>
      cases List.mem_singleton.mp hnote
      simp [Open]
  | acceptFailed text hloop hsession =>
      cases List.mem_singleton.mp hnote
      simp [Open]
  | tcpWrote htask hphase =>
      cases List.mem_singleton.mp hnote
      simp [Open]
  | dialed htask hsession hphase =>
      rcases List.mem_cons.mp hnote with rfl | hnote
      · simp [Open]
      · cases mem_announceTunnelOnce hnote
        simp [Open]
  | dialFailed htask hsession hphase =>
      cases List.mem_singleton.mp hnote
      simp [Open]
  | tcpRefused htask hphase hguard hlazy hnotes =>
      rcases hnotes with rfl | rfl
      · cases hnote
      · cases List.mem_singleton.mp hnote
        simp [Open]
  | refused e =>
      cases List.mem_singleton.mp hnote
      simp [Open]
  | panicked hguard =>
      cases List.mem_singleton.mp hnote
      simp [Open]
  | _ => cases hnote

theorem loops_setStream (p : Process) (s : Nat) (task : StreamTask) (r : Running)
    (phase : StreamPhase) : (p.setStream s task r phase).loops = p.loops := by
  unfold Process.setStream
  split <;> rfl

/-- A loop that is failing was failing before, or has just been noted. -/
theorem Move.failing {loop : AcceptLoop} {text : Bytes} (hmove : Move env p p' notes)
    (hloop : loop ∈ p'.loops) (hphase : loop.phase = .failing text) :
    loop ∈ p.loops ∨ .acceptFailed loop.owner text ∈ notes := by
  cases hmove with
  | listened hsession hlistener hreq =>
      rcases List.mem_append.mp hloop with hold | hnew
      · exact Or.inl hold
      · cases List.mem_singleton.mp hnew
        cases hphase
  | @acceptFailed l failed r text' hfailed hsession =>
      rcases List.mem_or_eq_of_mem_set hloop with hold | rfl
      · exact Or.inl hold
      · cases hphase
        exact Or.inr (by simp)
  | errorSent hsent hwas hsession =>
      rcases List.mem_or_eq_of_mem_set hloop with hold | rfl
      · exact Or.inl hold
      · cases hphase
  | loopEnded hended =>
      rcases List.mem_or_eq_of_mem_set hloop with hold | rfl
      · exact Or.inl hold
      · cases hphase
  | started setup hguard hsize => cases hguard <;> exact Or.inl hloop
  | panicked hguard => cases hguard <;> exact Or.inl hloop
  | tcpRefused htask hwas hguard hlazy hnotes => cases hguard <;> exact Or.inl hloop
  | tcpTook htask hwas hguard hlazy hsem htake => cases hguard <;> exact Or.inl hloop
  | tcpEnded htask hwas =>
      unfold Process.endTcp at hloop
      split at hloop <;> exact Or.inl hloop
  | headerRead dns htask hsession hwas => exact Or.inl (loops_setStream .. ▸ hloop)
  | dialed htask hsession hwas => exact Or.inl (loops_setStream .. ▸ hloop)
  | dialFailed htask hsession hwas => exact Or.inl (loops_setStream .. ▸ hloop)
  | streamCopied htask hsession hwas => exact Or.inl (loops_setStream .. ▸ hloop)
  | _ => exact Or.inl hloop

theorem Told.step (h : Told log p) (hmove : Move env p p' notes) : Told (log ++ notes) p' where
  sessions := by
    intro i x hx
    rcases hmove.touched hx with ⟨r, hsession, htouched⟩ | ⟨rfl, rfl, setup, rfl⟩
    · exact htouched.caused (h.sessions i r hsession) h.loops
    · rw [List.append_nil]
      exact caused_start (h.fresh _ le_rfl)
  fresh := by
    intro i hle note hnote
    have hold := hmove.length_le.trans hle
    rcases List.mem_append.mp hnote with hmem | hnew
    · exact h.fresh i hold note hmem
    · exact hmove.opens hold note hnew
  loops := by
    intro loop hloop text hphase
    rcases hmove.failing hloop hphase with hold | hnew
    · exact List.mem_append_left _ (h.loops loop hold text hphase)
    · exact List.mem_append_right _ hnew

variable {history : List (Machine.Record Process Event Note)} {now : Nat} {outcome : TunnelResult}

theorem Told.exists_session (h : Told log p) (hreturned : .returned i outcome ∈ log) :
    ∃ r, p.sessions[i]? = some r := by
  by_cases hlt : i < p.sessions.length
  · exact ⟨p.sessions[i], List.getElem?_eq_getElem hlt⟩
  · exact absurd rfl ((h.fresh i (Nat.le_of_not_lt hlt) _ hreturned).2.2 outcome)

/-- The error of a connection wins over whatever the listeners returned. -/
theorem Caused.joined_of_lost {a : TunnelResult} {err : ConnectionError} (h : Caused log i r)
    (hacceptor : r.acceptor = .returned a) (hmem : .connectionLost i err ∈ log)
    (herr : isPeerDisconnect err = false) (l : TunnelResult) :
    joined a l = .error (.other err.text) := by
  have ha := h.lost err hmem
  rw [hacceptor, lostResult, herr] at ha
  obtain rfl : a = .error (.other err.text) := by
    injection ha
  cases l <;> rfl

theorem Caused.joined_of_bindFailed {l : TunnelResult} {text : Bytes} (h : Caused log i r)
    (hlistener : r.listener = .returned l) (hmem : .bindFailed i text ∈ log) (a : TunnelResult) :
    joined a l ≠ .error .canceled := by
  intro heq
  have hl := h.bindFailed text hmem
  rw [hlistener] at hl
  obtain rfl : l = .error (.other text) := by
    injection hl
  cases a with
  | ok u => cases heq
  | error e => cases e <;> cases heq

/-- **How a tunnel session ends.** No session returns without an error. The error it returns is that
of a connection that failed, an address that could not be bound or an accept loop that failed, or it
is the cancellation, which then goes back to the caller, a disconnect of the peer or an accept loop.
A connection that failed is always what is returned, and after a bind that failed the cancellation
never is. -/
theorem tunnel_outcome (hrun : (tunnelMachine env).Run history p now)
    (hreturned : .returned i outcome ∈ logOf history) :
    ((∃ text, outcome = .error (.other text) ∧
        ((∃ err, .connectionLost i err ∈ logOf history ∧ isPeerDisconnect err = false ∧
          err.text = text) ∨
        .bindFailed i text ∈ logOf history ∨ .acceptFailed i text ∈ logOf history)) ∨
      (outcome = .error .canceled ∧
        (.canceled i ∈ logOf history ∨
        (∃ err, .connectionLost i err ∈ logOf history ∧ isPeerDisconnect err = true) ∨
        ∃ text, .acceptFailed i text ∈ logOf history))) ∧
    (∀ err, .connectionLost i err ∈ logOf history → isPeerDisconnect err = false →
      outcome = .error (.other err.text)) ∧
    ∀ text, .bindFailed i text ∈ logOf history → outcome ≠ .error .canceled := by
  have htold : Told (logOf history) p :=
    inv_of_moves (I := Told) told_empty (fun h hmove => h.step hmove) hrun
  obtain ⟨r, hsession⟩ := htold.exists_session hreturned
  have hcaused := htold.sessions i r hsession
  obtain ⟨a, l, hacceptor, hlistener, rfl⟩ := hcaused.outcome outcome hreturned
  have hlost : ∀ err, .connectionLost i err ∈ logOf history → isPeerDisconnect err = false →
      joined a l = .error (.other err.text) :=
    fun err hmem herr => hcaused.joined_of_lost hacceptor hmem herr l
  have hbind : ∀ text, .bindFailed i text ∈ logOf history → joined a l ≠ .error .canceled :=
    fun text hmem => hcaused.joined_of_bindFailed hlistener hmem a
  refine ⟨?_, hlost, hbind⟩
  obtain ⟨hended, ha⟩ := hcaused.acceptor a hacceptor
  rcases hcaused.listener l hlistener with ⟨text, rfl, hl⟩ | rfl
  · rcases ha with ⟨err, hmem, rfl⟩ | rfl
    · cases herr : isPeerDisconnect err with
      | false => exact Or.inl ⟨err.text, hlost err hmem herr, Or.inl ⟨err, hmem, herr, rfl⟩⟩
      | true => exact Or.inl ⟨text, by rw [lostResult, herr]; rfl, Or.inr hl⟩
    · exact Or.inl ⟨text, rfl, Or.inr hl⟩
  · rcases ha with ⟨err, hmem, rfl⟩ | rfl
    · cases herr : isPeerDisconnect err with
      | false => exact Or.inl ⟨err.text, hlost err hmem herr, Or.inl ⟨err, hmem, herr, rfl⟩⟩
      | true =>
          exact Or.inr ⟨by rw [lostResult, herr]; rfl, Or.inr (Or.inl ⟨err, hmem, herr⟩)⟩
    · refine Or.inr ⟨rfl, ?_⟩
      -- both were canceled, so something else came first
      have horigin : Origin (logOf history) i :=
        hcaused.origin (by simp [Running.listenersCancelled, Running.cancelled, hended])
      rcases horigin with hcancel | ⟨err, hmem⟩ | ⟨text, hmem⟩ | haccept
      · exact Or.inl hcancel
      · cases herr : isPeerDisconnect err with
        | false => cases hlost err hmem herr
        | true => exact Or.inr (Or.inl ⟨err, hmem, herr⟩)
      · exact absurd rfl (hbind text hmem)
      · exact Or.inr (Or.inr haccept)

/-- The peer disconnects from a session that has nothing to listen for. -/
def disconnectEvents : List Event :=
  [.start oneStream, .bind 0 none, .bind 0 none,
    .connectionLost 0 { kind := .applicationClosed, text := ascii "closed by peer: 0" },
    .listenersStop 0, .joined 0]

theorem tunnel_outcome_disconnect :
    let log := logOf ((tunnelMachine fun _ => none).trace .empty disconnectEvents)
    .returned 0 (.error .canceled) ∈ log ∧
      ∀ err, .connectionLost 0 err ∈ log → isPeerDisconnect err = true := by
  intro log
  have hrun := (tunnelMachine fun _ => none).run_untimed (fun _ => rfl) disconnectEvents
  have hreturned : .returned 0 (.error .canceled) ∈ log := .tail _ (.head _)
  refine ⟨hreturned, fun err hmem => ?_⟩
  cases herr : isPeerDisconnect err with
  | false => cases (tunnel_outcome hrun hreturned).2.1 err hmem herr
  | true => rfl

end Qvole.Tunnel
