import Qvole.Tunnel.Proof.Capacity
import Qvole.Tunnel.Proof.Dial

/-!
# The handlers of inbound streams among the other tasks

However the tasks interleave, the dials of a handler are those of `handleTunnelStream` on its stream,
up to where the handler is.
-/

namespace Qvole.Tunnel

variable {env : Env} {p p' : Process} {log notes : List Note} {s : Nat} {task : StreamTask}
  {session : Session} {stream : Inbound} {dns : Dns}

/-! ### The addresses of a stream -/

/-- The addresses to try for a stream, none where it is turned away. -/
def targetsOf (session : Session) (stream : Inbound) (dns : Dns) : List Bytes :=
  if (stream.readExact 2).2.isErr then []
  else
    match session.config.reqs[Bytes.beNat (stream.readExact 2).1]? with
    | none => []
    | some req =>
        let myReq := session.mine (Bytes.beNat (stream.readExact 2).1)
        if req.typ = .L ∧ myReq then []
        else if req.typ = .R ∧ !myReq then []
        else dialTargets dns session.allow myReq req

theorem behindHeader_eq (session : Session) (stream : Inbound) (dns : Dns) :
    Process.behindHeader session stream dns =
      Process.nextDial (Bytes.beNat (stream.readExact 2).1) (targetsOf session stream dns) := by
  simp only [Process.behindHeader, targetsOf, Bool.or_self]
  split
  · rfl
  · cases session.config.reqs[Bytes.beNat (stream.readExact 2).1]? with
    | none => rfl
    | some req =>
        simp only
        split
        · rfl
        · split <;> rfl

theorem onStream_dialFirst (session : Session) (stream : Inbound) (dns : Dns)
    (connects : Nat → Bool) :
    session.onStream stream dns connects = dialFirst connects (targetsOf session stream dns) 0 := by
  simp only [Session.onStream, handleTunnelStream_eq, dialFor, targetsOf, Session.mine]
  split
  · rfl
  · cases session.config.reqs[Bytes.beNat (stream.readExact 2).1]? with
    | none => rfl
    | some req =>
        by_cases hmine : isMine session.config.myReqStart session.myReqCount
            (Bytes.beNat (stream.readExact 2).1) = true <;>
          cases htyp : req.typ <;> simp [hmine, htyp, dialFirst]

theorem dialFirst_failing (targets : List Bytes) (attempt : Nat) :
    dialFirst (fun _ => false) targets attempt = (targets, false) := by
  induction targets generalizing attempt with
  | nil => rfl
  | cons first rest ih => simp [dialFirst, ih]

/-- The dial behind `tried` is the one that connects. -/
theorem dialFirst_connecting (tried : List Bytes) (addr : Bytes) (rest : List Bytes)
    (attempt : Nat) :
    dialFirst (fun n => decide (n = attempt + tried.length)) (tried ++ addr :: rest) attempt =
      (tried ++ [addr], true) := by
  induction tried generalizing attempt with
  | nil => simp [dialFirst]
  | cons first tried ih =>
      have hnext := ih (attempt + 1)
      have hshift : attempt + 1 + tried.length = attempt + (tried.length + 1) := by omega
      rw [hshift] at hnext
      simp [dialFirst, hnext]

/-! ### Where a handler is -/

structure Dial where
  idx : Nat
  addr : Bytes
  connected : Bool
  deriving DecidableEq, Repr

def dialBy (s : Nat) : Note → Option Dial
  | .dialed t idx addr connected => if t = s then some { idx, addr, connected } else none
  | _ => none

/-- The dials of a handler, in order. -/
def dialsOf (s : Nat) (log : List Note) : List Dial := log.filterMap (dialBy s)

/-- All of these were tried for the request the stream names, without success. -/
def Tried (stream : Inbound) (dials : List Dial) (addrs : List Bytes) : Prop :=
  dials = addrs.map fun addr =>
    { idx := Bytes.beNat (stream.readExact 2).1, addr, connected := false }

/-- One connected, and the ones before it did not. -/
def Reached (session : Session) (stream : Inbound) (dials : List Dial) : Prop :=
  ∃ dns tried addr rest earlier, targetsOf session stream dns = tried ++ addr :: rest ∧
    Tried stream earlier tried ∧
    dials = earlier ++ [{ idx := Bytes.beNat (stream.readExact 2).1, addr, connected := true }]

def Handling (session : Session) (stream : Inbound) (dials : List Dial) : StreamPhase → Prop
  | .reading => dials = []
  | .dialing idx addr rest => idx = Bytes.beNat (stream.readExact 2).1 ∧
      ∃ dns tried, targetsOf session stream dns = tried ++ addr :: rest ∧ Tried stream dials tried
  | .copying idx => idx = Bytes.beNat (stream.readExact 2).1 ∧ Reached session stream dials
  | .ended => Reached session stream dials ∨
      ∃ dns, Tried stream dials (targetsOf session stream dns)

theorem handling_nextDial {dials : List Dial} (tried : List Bytes) {rest : List Bytes}
    (htargets : targetsOf session stream dns = tried ++ rest) (htried : Tried stream dials tried) :
    Handling session stream dials
      (Process.nextDial (Bytes.beNat (stream.readExact 2).1) rest) := by
  cases rest with
  | nil => exact Or.inr ⟨dns, by rwa [htargets, List.append_nil]⟩
  | cons addr rest => exact ⟨rfl, dns, tried, htargets, htried⟩

theorem dialBy_eq_none {note : Note}
    (h : ∀ idx addr connected, note ≠ .dialed s idx addr connected) : dialBy s note = none := by
  cases note <;> simp only [dialBy]
  split
  · rename_i heq
    subst heq
    exact absurd rfl (h _ _ _)
  · rfl

theorem dialsOf_append_of_none (h : ∀ note ∈ notes, ∀ idx addr connected,
    note ≠ .dialed s idx addr connected) : dialsOf s (log ++ notes) = dialsOf s log := by
  have hnone : notes.filterMap (dialBy s) = [] :=
    List.filterMap_eq_nil_iff.mpr fun note hnote => dialBy_eq_none (h note hnote)
  rw [dialsOf, List.filterMap_append, hnone, List.append_nil]
  rfl

theorem dialsOf_append_dialed (idx : Nat) (addr : Bytes) (connected : Bool)
    (h : ∀ note ∈ notes, ∀ idx addr connected, note ≠ .dialed s idx addr connected) :
    dialsOf s (log ++ .dialed s idx addr connected :: notes) =
      dialsOf s log ++ [⟨idx, addr, connected⟩] := by
  have hsplit : log ++ .dialed s idx addr connected :: notes =
      (log ++ [.dialed s idx addr connected]) ++ notes := by simp
  rw [hsplit, dialsOf_append_of_none h, dialsOf, List.filterMap_append]
  simp [dialBy, dialsOf]

theorem announceTunnelOnce_ne_dialed {i idx : Nat} {r : Running} {note : Note}
    (hnote : note ∈ (Process.announceTunnelOnce i r idx).2) (t k : Nat) (addr : Bytes)
    (connected : Bool) : note ≠ .dialed t k addr connected := by
  rintro rfl
  cases mem_announceTunnelOnce hnote

/-- A dial belongs to one stream. -/
theorem dialsOf_append_other {t : Nat} (idx : Nat) (addr : Bytes) (connected : Bool) (hne : t ≠ s)
    (h : ∀ note ∈ notes, ∀ idx addr connected, note ≠ .dialed t idx addr connected) :
    dialsOf t (log ++ .dialed s idx addr connected :: notes) = dialsOf t log := by
  refine dialsOf_append_of_none fun note hnote => ?_
  rcases List.mem_cons.mp hnote with rfl | hnote
  · rintro idx addr connected heq
    cases heq
    exact hne rfl
  · exact h note hnote

/-- What a step means to the handler at `s`. -/
structure Handled (log : List Note) (p : Process) : Prop where
  owned : ∀ s (task : StreamTask), p.streams[s]? = some task →
    ∃ r, p.sessions[task.owner]? = some r ∧
      Handling r.setup.session task.stream (dialsOf s log) task.phase
  fresh : ∀ s, p.streams.length ≤ s → dialsOf s log = []

theorem handled_empty : Handled [] .empty where
  owned := fun s task htask => by simp [Process.empty] at htask
  fresh := fun _ _ => rfl

/-- The tasks and sessions of the handlers stay as they are. -/
theorem Handled.quiet (h : Handled log p) (hstreams : p'.streams = p.streams)
    (hsessions : ∀ (i : Nat) (r : Running), p.sessions[i]? = some r →
      ∃ r', p'.sessions[i]? = some r' ∧ r'.setup = r.setup)
    (hnotes : ∀ note ∈ notes, ∀ s idx addr connected, note ≠ .dialed s idx addr connected) :
    Handled (log ++ notes) p' where
  owned := by
    intro s task htask
    rw [hstreams] at htask
    obtain ⟨r, hsession, hhandling⟩ := h.owned s task htask
    obtain ⟨r', hsession', hsetup⟩ := hsessions task.owner r hsession
    rw [dialsOf_append_of_none fun note hnote => hnotes note hnote s]
    exact ⟨r', hsession', by rwa [hsetup]⟩
  fresh := by
    intro s hle
    rw [hstreams] at hle
    rw [dialsOf_append_of_none fun note hnote => hnotes note hnote s]
    exact h.fresh s hle

/-- A new handler has not dialed yet. -/
theorem Handled.spawn {i n : Nat} {r : Running} (h : Handled log p)
    (hstreams : p'.streams = p.streams ++ [{ owner := i, stream, phase := .reading }])
    (hsessions : ∀ (i : Nat) (r : Running), p.sessions[i]? = some r →
      ∃ r', p'.sessions[i]? = some r' ∧ r'.setup = r.setup)
    (hsession : p.sessions[i]? = some r) : Handled (log ++ [.handled i n]) p' := by
  have hnone : ∀ s, dialsOf s (log ++ [.handled i n]) = dialsOf s log :=
    fun s => dialsOf_append_of_none (by simp)
  constructor
  · intro s task htask
    rw [hstreams] at htask
    rw [hnone]
    rcases List.getElem?_concat_cases htask with hold | ⟨rfl, rfl⟩
    · obtain ⟨x, hx, hhandling⟩ := h.owned s task hold
      obtain ⟨x', hx', hsetup⟩ := hsessions task.owner x hx
      exact ⟨x', hx', by rwa [hsetup]⟩
    · obtain ⟨x', hx', -⟩ := hsessions i r hsession
      exact ⟨x', hx', h.fresh _ le_rfl⟩
  · intro s hle
    rw [hstreams, List.length_append] at hle
    rw [hnone]
    exact h.fresh s (Nat.le_of_add_right_le hle)

theorem exists_session_set {sessions : List Running} {j : Nat} {r r' : Running}
    (hsession : sessions[j]? = some r) (hsetup : r'.setup = r.setup) {i : Nat} {x : Running}
    (hx : sessions[i]? = some x) :
    ∃ x', (sessions.set j r')[i]? = some x' ∧ x'.setup = x.setup := by
  by_cases heq : j = i
  · subst heq
    rw [hsession] at hx
    obtain rfl := Option.some.inj hx
    exact ⟨r', getElem?_set_of_some hsession, hsetup⟩
  · exact ⟨x, by rwa [List.getElem?_set_ne heq], rfl⟩

/-- One handler goes on. -/
theorem Handled.setStream {r r' : Running} {phase : StreamPhase} (h : Handled log p)
    (htask : p.streams[s]? = some task) (hsession : p.sessions[task.owner]? = some r)
    (hsetup : r'.setup = r.setup)
    (hhandling : Handling r.setup.session task.stream (dialsOf s (log ++ notes)) phase)
    (hothers : ∀ t, t ≠ s → dialsOf t (log ++ notes) = dialsOf t log) :
    Handled (log ++ notes) (p.setStream s task r' phase) := by
  have hstreams : (p.setStream s task r' phase).streams =
      p.streams.set s { task with phase } := by
    unfold Process.setStream
    split <;> rfl
  have hsessions : ∀ (i : Nat) (x : Running), p.sessions[i]? = some x →
      ∃ x', (p.setStream s task r' phase).sessions[i]? = some x' ∧ x'.setup = x.setup := by
    intro i x hx
    unfold Process.setStream
    split
    · exact exists_session_set hsession (by exact hsetup) hx
    · exact exists_session_set hsession hsetup hx
  constructor
  · intro t other hother
    rw [hstreams] at hother
    rcases getElem?_set_cases hother with ⟨rfl, rfl⟩ | ⟨hne, hold⟩
    · obtain ⟨x, hx, hsame⟩ := hsessions task.owner r hsession
      exact ⟨x, hx, by rw [hsame]; exact hhandling⟩
    · obtain ⟨x, hx, hwas⟩ := h.owned t other hold
      obtain ⟨x', hx', hsame⟩ := hsessions other.owner x hx
      exact ⟨x', hx', by rw [hsame, hothers t hne]; exact hwas⟩
  · intro t hle
    rw [hstreams, List.length_set] at hle
    have hlt := (List.getElem?_eq_some_iff.mp htask).1
    rw [hothers t (by omega)]
    exact h.fresh t hle

theorem Move.keeps_setup {i : Nat} {r : Running} (hmove : Move env p p' notes)
    (hr : p.sessions[i]? = some r) : ∃ r', p'.sessions[i]? = some r' ∧ r'.setup = r.setup := by
  have hsame : p'.sessions = p.sessions → ∃ r', p'.sessions[i]? = some r' ∧ r'.setup = r.setup :=
    fun hsessions => ⟨r, by rw [hsessions]; exact hr, rfl⟩
  have hstream : ∀ {s : Nat} {task : StreamTask} {x x' : Running} {phase : StreamPhase},
      p.sessions[task.owner]? = some x → x'.setup = x.setup →
      ∃ r', (p.setStream s task x' phase).sessions[i]? = some r' ∧ r'.setup = r.setup := by
    intro s task x x' phase hsession hsetup
    unfold Process.setStream
    split
    · exact exists_session_set hsession (by exact hsetup) hr
    · exact exists_session_set hsession hsetup hr
  cases hmove with
  | rests => exact hsame rfl
  | refused e => exact hsame rfl
  | panicked hguard => exact hsame hguard.sessions
  | started setup hguard hsize =>
      refine ⟨r, ?_, rfl⟩
      simp only [hguard.sessions]
      rwa [List.getElem?_append_left (List.getElem?_eq_some_iff.mp hr).1]
  | session hsession hmove => exact exists_session_set hsession hmove.keeps.1 hr
  | acquired hsession hacceptor hguard => exact exists_session_set hsession (by rfl) hr
  | listened hsession hlistener hreq => exact exists_session_set hsession (by rfl) hr
  | tcpAccepted hloop hsession => exact hsame rfl
  | acceptFailed text hloop hsession => exact exists_session_set hsession (by rfl) hr
  | errorSent hloop hphase hsession => exact exists_session_set hsession (by rfl) hr
  | loopEnded hloop => exact hsame rfl
  | tcpRefused htask hphase hguard hlazy hnotes => exact hsame hguard.sessions
  | tcpTook htask hphase hguard hlazy hsem htake => exact hsame hguard.sessions
  | tcpOpened htask hphase => exact hsame rfl
  | tcpWrote htask hphase => exact hsame rfl
  | tcpEnded htask hphase => exact hsame (sessions_endTcp _ _ _ _)
  | headerRead dns htask hsession hphase => exact hstream hsession rfl
  | @dialed s idx task r addr rest htask hsession hphase =>
      exact hstream hsession (announceTunnelOnce_keeps _ _ _).1
  | dialFailed htask hsession hphase => exact hstream hsession rfl
  | streamCopied htask hsession hphase => exact hstream hsession rfl

theorem Handled.handling {r : Running} (h : Handled log p) (htask : p.streams[s]? = some task)
    (hsession : p.sessions[task.owner]? = some r) :
    Handling r.setup.session task.stream (dialsOf s log) task.phase := by
  obtain ⟨x, hx, hhandling⟩ := h.owned s task htask
  rw [hsession] at hx
  obtain rfl := Option.some.inj hx
  exact hhandling

theorem Handled.step (h : Handled log p) (hmove : Move env p p' notes) :
    Handled (log ++ notes) p' := by
  have hkeeps := fun (i : Nat) (r : Running) (hr : p.sessions[i]? = some r) => hmove.keeps_setup hr
  cases hmove with
  | acquired hsession hacceptor hguard => exact h.spawn rfl hkeeps hsession
  | @headerRead s task r dns htask hsession hphase =>
      have hhandling := h.handling htask hsession
      rw [hphase] at hhandling
      refine h.setStream htask hsession rfl ?_ fun t _ => by rw [List.append_nil]
      rw [List.append_nil, show dialsOf s log = [] from hhandling, behindHeader_eq]
      exact handling_nextDial [] rfl rfl
  | @dialed s idx task r addr rest htask hsession hphase =>
      have hhandling := h.handling htask hsession
      rw [hphase] at hhandling
      obtain ⟨rfl, dns, tried, htargets, htried⟩ := hhandling
      refine h.setStream htask hsession (announceTunnelOnce_keeps _ _ _).1 ?_ fun t hne => ?_
      · rw [dialsOf_append_dialed _ _ _ fun note hnote => announceTunnelOnce_ne_dialed hnote s]
        exact ⟨rfl, dns, tried, addr, rest, _, htargets, htried, rfl⟩
      · exact dialsOf_append_other _ _ _ hne fun note hnote => announceTunnelOnce_ne_dialed hnote t
  | @dialFailed s idx task r addr rest htask hsession hphase =>
      have hhandling := h.handling htask hsession
      rw [hphase] at hhandling
      obtain ⟨rfl, dns, tried, htargets, htried⟩ := hhandling
      refine h.setStream htask hsession rfl ?_ fun t hne => ?_
      · have hdials : dialsOf s (log ++ [.dialed s (Bytes.beNat (task.stream.readExact 2).1) addr
            false]) = dialsOf s log ++ [⟨_, addr, false⟩] :=
          dialsOf_append_dialed _ addr false nofun
        rw [hdials]
        refine handling_nextDial (tried ++ [addr]) (by rw [htargets]; simp) ?_
        rw [Tried, List.map_append, ← htried]
        rfl
      · exact dialsOf_append_other _ addr false hne nofun
  | @streamCopied s idx task r htask hsession hphase =>
      have hhandling := h.handling htask hsession
      rw [hphase] at hhandling
      refine h.setStream htask hsession rfl ?_ fun t _ => by rw [List.append_nil]
      rw [List.append_nil]
      exact Or.inl hhandling.2
  | session hsession hmove =>
      refine h.quiet rfl hkeeps ?_
      cases hmove <;> simp
  | started setup hguard hsize => exact h.quiet (by cases hguard <;> rfl) hkeeps nofun
  | panicked hguard => exact h.quiet (by cases hguard <;> rfl) hkeeps (by simp)
  | tcpRefused htask hphase hguard hlazy hnotes =>
      refine h.quiet (by cases hguard <;> rfl) hkeeps ?_
      rcases hnotes with rfl | rfl <;> simp
  | tcpTook htask hphase hguard hlazy hsem htake =>
      exact h.quiet (by cases hguard <;> rfl) hkeeps nofun
  | tcpEnded htask hphase =>
      refine h.quiet ?_ hkeeps nofun
      unfold Process.endTcp
      split <;> rfl
  | _ => exact h.quiet rfl hkeeps (by simp)

/-! ### Runs -/

theorem mayDial_of_mem_targetsOf {addr : Bytes} (h : addr ∈ targetsOf session stream dns) :
    MayDial session.config.reqs session.config.myReqStart session.myReqCount session.allow dns
      (Bytes.beNat (stream.readExact 2).1) addr := by
  have hall := onStream_dialFirst session stream dns fun _ => false
  rw [dialFirst_failing, Session.onStream, handleTunnelStream_eq] at hall
  split at hall
  · rw [← (Prod.mk.inj hall).1] at h
    cases h
  · have hdialled : addr ∈ (dialFor session.config.reqs session.config.myReqStart
        session.myReqCount session.allow dns (fun _ => false)
        (Bytes.beNat (stream.readExact 2).1)).1 := by
      rw [hall]
      exact h
    exact mayDial_of_dialFor hdialled

theorem Tried.addrs {dials : List Dial} {addrs : List Bytes} (h : Tried stream dials addrs) :
    dials.map Dial.addr = addrs := by
  rw [h, List.map_map]
  exact List.map_id' addrs

theorem Tried.none_connected {dials : List Dial} {addrs : List Bytes}
    (h : Tried stream dials addrs) : dials.any Dial.connected = false := by
  rw [h]
  simp

theorem Tried.mem {dials : List Dial} {addrs : List Bytes} (h : Tried stream dials addrs)
    {dial : Dial} (hdial : dial ∈ dials) :
    dial.idx = Bytes.beNat (stream.readExact 2).1 ∧ dial.addr ∈ addrs := by
  rw [h] at hdial
  obtain ⟨addr, haddr, rfl⟩ := List.mem_map.mp hdial
  exact ⟨rfl, haddr⟩

/-- The dials so far against those of the whole handler. -/
structure Agrees (session : Session) (stream : Inbound) (dials : List Dial) (phase : StreamPhase)
    (dns : Dns) (connects : Nat → Bool) : Prop where
  isPrefix : dials.map Dial.addr <+: (session.onStream stream dns connects).1
  named : ∀ dial ∈ dials, dial.idx = Bytes.beNat (stream.readExact 2).1 ∧
    MayDial session.config.reqs session.config.myReqStart session.myReqCount session.allow dns
      dial.idx dial.addr
  whole : (∃ idx, phase = .copying idx) ∨ phase = .ended →
    session.onStream stream dns connects = (dials.map Dial.addr, dials.any Dial.connected)

theorem Reached.agrees {dials : List Dial} {phase : StreamPhase}
    (h : Reached session stream dials) :
    ∃ dns connects, Agrees session stream dials phase dns connects := by
  obtain ⟨dns, tried, addr, rest, earlier, htargets, htried, hdials⟩ := h
  have haddrs : dials.map Dial.addr = tried ++ [addr] := by
    rw [hdials, List.map_append, htried.addrs]
    rfl
  have hconnected : dials.any Dial.connected = true := by
    rw [hdials]
    simp
  have hall : session.onStream stream dns (fun n => decide (n = 0 + tried.length)) =
      (dials.map Dial.addr, dials.any Dial.connected) := by
    rw [onStream_dialFirst, htargets, dialFirst_connecting, haddrs, hconnected]
  refine ⟨dns, _, ?_, ?_, fun _ => hall⟩
  · rw [hall]
  · intro dial hdial
    have hmay : ∀ {a : Bytes}, a ∈ tried ++ addr :: rest → MayDial session.config.reqs
        session.config.myReqStart session.myReqCount session.allow dns
        (Bytes.beNat (stream.readExact 2).1) a :=
      fun ha => mayDial_of_mem_targetsOf (htargets ▸ ha)
    rw [hdials] at hdial
    rcases List.mem_append.mp hdial with hold | hnew
    · obtain ⟨hidx, haddr⟩ := htried.mem hold
      exact ⟨hidx, hidx ▸ hmay (List.mem_append_left _ haddr)⟩
    · cases List.mem_singleton.mp hnew
      exact ⟨rfl, hmay (by simp)⟩

theorem Tried.agrees {dials : List Dial} {phase : StreamPhase} {tried rest : List Bytes}
    (h : Tried stream dials tried) (htargets : targetsOf session stream dns = tried ++ rest)
    (hwhole : (∃ idx, phase = .copying idx) ∨ phase = .ended → rest = []) :
    ∃ dns connects, Agrees session stream dials phase dns connects := by
  have hall := onStream_dialFirst session stream dns fun _ => false
  rw [dialFirst_failing, htargets] at hall
  refine ⟨dns, fun _ => false, ?_, ?_, fun hphase => ?_⟩
  · rw [hall, h.addrs]
    exact List.prefix_append tried rest
  · intro dial hdial
    obtain ⟨hidx, haddr⟩ := h.mem hdial
    have hmem : dial.addr ∈ targetsOf session stream dns := by
      rw [htargets]
      exact List.mem_append_left _ haddr
    exact ⟨hidx, hidx ▸ mayDial_of_mem_targetsOf hmem⟩
  · rw [hall, hwhole hphase, List.append_nil, h.addrs, h.none_connected]

variable {history : List (Machine.Record Process Event Note)} {now : Nat}

/-- **The dials of tunnel sessions.** In every run, the dials of each handler so far are the first of
those that `handleTunnelStream` makes for its stream, each with the authority of the request that the
header names, and all of them, with the same result, once the handler copies or has ended. -/
theorem tunnel_dials (hrun : (tunnelMachine env).Run history p now)
    (htask : p.streams[s]? = some task) :
    ∃ r, p.sessions[task.owner]? = some r ∧ ∃ dns connects,
      Agrees r.setup.session task.stream (dialsOf s (logOf history)) task.phase dns connects := by
  have hhandled : Handled (logOf history) p :=
    inv_of_moves (I := Handled) handled_empty (fun h hmove => h.step hmove) hrun
  obtain ⟨r, hsession, hhandling⟩ := hhandled.owned s task htask
  refine ⟨r, hsession, ?_⟩
  cases hphase : task.phase with
  | reading =>
      rw [hphase] at hhandling
      have hnone : Tried task.stream (dialsOf s (logOf history)) [] := hhandling
      have htargets : targetsOf r.setup.session task.stream (fun _ => []) =
          [] ++ targetsOf r.setup.session task.stream fun _ => [] := rfl
      exact hnone.agrees htargets (by simp)
  | dialing idx addr rest =>
      rw [hphase] at hhandling
      obtain ⟨-, dns, tried, htargets, htried⟩ := hhandling
      exact htried.agrees htargets (by simp)
  | copying idx =>
      rw [hphase] at hhandling
      exact hhandling.2.agrees
  | ended =>
      rw [hphase] at hhandling
      rcases hhandling with hreached | ⟨dns, htried⟩
      · exact hreached.agrees
      · exact htried.agrees (List.append_nil _).symm fun _ => rfl

/-- The peer names the request of `oneStream`, and its target is not there. -/
def failedDial : List Event :=
  [.start oneStream, .accepted 0 ⟨[0, 0], .fin⟩, .acquired 0, .headerRead 0 fun _ => [],
    .dialed 0 false]

theorem tunnel_dials_failed :
    dialsOf 0 (logOf ((tunnelMachine fun _ => none).trace .empty failedDial)) =
        [⟨0, ascii "127.0.0.1:22", false⟩] ∧
      ∃ dns connects, oneStream.session.onStream ⟨[0, 0], .fin⟩ dns connects =
        ([ascii "127.0.0.1:22"], false) := by
  have hdials : dialsOf 0 (logOf ((tunnelMachine fun _ => none).trace .empty failedDial)) =
      [⟨0, ascii "127.0.0.1:22", false⟩] := rfl
  have hrun := (tunnelMachine fun _ => none).run_untimed (fun _ => rfl) failedDial
  obtain ⟨r, hr, dns, connects, hagrees⟩ := tunnel_dials (s := 0) hrun rfl
  obtain rfl := Option.some.inj hr
  refine ⟨hdials, dns, connects, ?_⟩
  exact hagrees.whole (Or.inr rfl)

end Qvole.Tunnel
