import Qvole.Exchange.Proof.Adopted
import Qvole.Exchange.Punch

/-!
# Punch targets

The address that the peer sent is checked before it is punched at, and what is handed to QUIC later is
that address, or one with the same IP that a packet came from. The check looks at the address as it is
written: the IPv4-mapped form of an address that must not be punched at goes through.
-/

namespace Qvole.Exchange

/-! ### The check -/

/-- An IPv4-mapped address as the IPv4 address that packets to it reach. -/
def canonicalIp : IpAddr → IpAddr
  | .v4 ip => .v4 ip
  | .v6 ip =>
      match ip.toIpv4Mapped with
      | some v4 => .v4 v4
      | none => .v6 ip

def forbiddenIp (ip : IpAddr) : Bool := ip.isUnspecified || ip.isMulticast || ip = .v4 .broadcast

/-- An address that may be punched at. -/
structure Punchable (target : SocketAddr) : Prop where
  port : target.port ≠ 0
  ip : forbiddenIp (canonicalIp target.ip) = false

/-- The text reads as the IPv4-mapped form of a forbidden IPv4 address, with a port. -/
def hidesForbidden (peerAddrStr : String) : Bool :=
  match SocketAddr.parse (asBytes peerAddrStr) with
  | some (.v6 ip port _) => port ≠ 0 && ip.toIpv4Mapped.any fun v4 => forbiddenIp (.v4 v4)
  | _ => false

variable {peerAddrStr : String} {target : SocketAddr}

theorem invalidPeer_eq_false {addr : SocketAddr} :
    invalidPeer addr = false ↔ forbiddenIp addr.ip = false ∧ addr.port ≠ 0 := by
  simp [invalidPeer, forbiddenIp, and_assoc]

theorem peerUdpAddr_eq_ok : peerUdpAddr peerAddrStr = .ok target ↔
    SocketAddr.parse (asBytes peerAddrStr) = some target ∧ invalidPeer target = false := by
  unfold peerUdpAddr
  cases SocketAddr.parse (asBytes peerAddrStr) with
  | none => simp [Outcome.fail]
  | some addr =>
      simp only [Option.some.injEq]
      constructor
      · intro h
        split at h
        · cases h
        · rename_i hvalid
          cases h
          exact ⟨rfl, Bool.eq_false_iff.mpr hvalid⟩
      · rintro ⟨rfl, hvalid⟩
        simp [hvalid]

/-- As it is written, a mapped address is nothing special. -/
theorem forbiddenIp_mapped {ip : Ipv6Addr} {v4 : Ipv4Addr} (h : ip.toIpv4Mapped = some v4) :
    forbiddenIp (.v6 ip) = false := by
  unfold Ipv6Addr.toIpv4Mapped at h
  split at h
  · rename_i hmapped
    obtain ⟨hs0, -, -, -, -, hs5⟩ := hmapped
    have hunspecified : ip ≠ ⟨0, 0, 0, 0, 0, 0, 0, 0⟩ := by
      rintro rfl
      cases hs5
    simp [forbiddenIp, IpAddr.isUnspecified, IpAddr.isMulticast, hunspecified, hs0]
  · cases h

/-- What passes the check may be punched at, unless it hides a forbidden address. -/
theorem punchable_iff (h : peerUdpAddr peerAddrStr = .ok target) :
    Punchable target ↔ hidesForbidden peerAddrStr = false := by
  obtain ⟨hparse, hinvalid⟩ := peerUdpAddr_eq_ok.mp h
  obtain ⟨hip, hport⟩ := invalidPeer_eq_false.mp hinvalid
  have hpunchable : Punchable target ↔ forbiddenIp (canonicalIp target.ip) = false :=
    ⟨Punchable.ip, fun hcanonical => ⟨hport, hcanonical⟩⟩
  rw [hpunchable, hidesForbidden, hparse]
  cases target with
  | v4 ip port =>
      simp only [SocketAddr.ip, canonicalIp, iff_true]
      exact hip
  | v6 ip port scopeId =>
      have hport : port ≠ 0 := hport
      simp only [SocketAddr.ip, canonicalIp, hport, ne_eq, not_false_eq_true, decide_true, Bool.true_and]
      cases hmapped : ip.toIpv4Mapped with
      | none => exact ⟨fun _ => rfl, fun _ => hip⟩
      | some v4 => rfl

/-- A text that hides one passes the check. -/
theorem exists_target_of_hidesForbidden (h : hidesForbidden peerAddrStr = true) :
    ∃ target, peerUdpAddr peerAddrStr = .ok target := by
  unfold hidesForbidden at h
  split at h
  · rename_i ip port scopeId hparse
    rw [Bool.and_eq_true_iff] at h
    obtain ⟨hport, hany⟩ := h
    obtain ⟨v4, hmapped, -⟩ := (Option.any_eq_true _ _).mp hany
    exact ⟨_, peerUdpAddr_eq_ok.mpr ⟨hparse, invalidPeer_eq_false.mpr
      ⟨forbiddenIp_mapped hmapped, of_decide_eq_true hport⟩⟩⟩
  · cases h

/-! ### What a run does -/

/-- What QUIC may get: a target, or the source of a packet with the IP of one. -/
def Corrected (effects : List ConnectEffect) (peer : SocketAddr) : Prop :=
  ∃ target, .punching target ∈ effects ∧ peer.ip = target.ip ∧
    (peer = target ∨ .observed peer ∈ effects)

/-- A packet that was received from the IP of a target. -/
def Observed (effects : List ConnectEffect) (source : SocketAddr) : Prop :=
  .observed source ∈ effects ∧ ∃ target, .punching target ∈ effects ∧ source.ip = target.ip

/-- The addresses that the tasks hold. -/
structure Traced (peerAddrStr : String) (effects : List ConnectEffect) (s : Connecting) : Prop where
  text : s.peerAddrStr = peerAddrStr
  pcTarget : ∀ peer, s.pc = .awaiting peer → .punching peer ∈ effects
  pcPeer : ∀ peer, s.pc = .joining peer ∨ s.pc = .handshaking peer → Corrected effects peer
  helper : ∀ peer, s.helper = some peer → Corrected effects peer
  task : ∀ peer attempt intervalIdx, s.task = .punching peer attempt intervalIdx →
    .punching peer ∈ effects
  joining : ∀ source, s.task = .joining (some source) → Observed effects source
  result : ∀ source, s.result = some (some source) → Observed effects source
  listener : ∀ peerIp pc, s.listener = .running peerIp pc →
    ∃ target, .punching target ∈ effects ∧ peerIp = some target.ip
  channel : ∀ source, s.channel = some source → Observed effects source

/-- What a run may do, with what it has done. -/
def ConnectEffect.Allowed (peerAddrStr : String) (effects : List ConnectEffect) : ConnectEffect → Prop
  | .punching target => peerUdpAddr peerAddrStr = .ok target
  | .sendPunch _ target => .punching target ∈ effects
  | .observed source => Observed effects source
  | .dial peer => Corrected effects peer
  | .keepalive peer => Corrected effects peer
  | .connected peer => Corrected effects peer
  | _ => True

variable {effects more : List ConnectEffect} {s : Connecting} {peer source : SocketAddr}

theorem Corrected.append (h : Corrected effects peer) : Corrected (effects ++ more) peer := by
  obtain ⟨target, htarget, hip, hpeer⟩ := h
  exact ⟨target, List.mem_append_left _ htarget, hip, hpeer.imp_right (List.mem_append_left _)⟩

theorem Observed.append (h : Observed effects source) : Observed (effects ++ more) source := by
  obtain ⟨hsource, target, htarget, hip⟩ := h
  exact ⟨List.mem_append_left _ hsource, target, List.mem_append_left _ htarget, hip⟩

theorem Traced.append (h : Traced peerAddrStr effects s) : Traced peerAddrStr (effects ++ more) s where
  text := h.text
  pcTarget peer hpc := List.mem_append_left _ (h.pcTarget peer hpc)
  pcPeer peer hpc := (h.pcPeer peer hpc).append
  helper peer hhelper := (h.helper peer hhelper).append
  task peer attempt intervalIdx htask := List.mem_append_left _ (h.task peer attempt intervalIdx htask)
  joining source htask := (h.joining source htask).append
  result source hresult := (h.result source hresult).append
  listener peerIp pc hlistener := by
    obtain ⟨target, htarget, hip⟩ := h.listener peerIp pc hlistener
    exact ⟨target, List.mem_append_left _ htarget, hip⟩
  channel source hchannel := (h.channel source hchannel).append

theorem ConnectEffect.Allowed.append {effect : ConnectEffect} (h : effect.Allowed peerAddrStr effects) :
    effect.Allowed peerAddrStr (effects ++ more) := by
  cases effect with
  | sendPunch size target => exact List.mem_append_left _ h
  | observed source => exact Observed.append h
  | dial peer => exact Corrected.append h
  | keepalive peer => exact Corrected.append h
  | connected peer => exact Corrected.append h
  | _ => exact h

theorem corrected_of_target (h : .punching target ∈ effects) : Corrected effects target :=
  ⟨target, h, rfl, Or.inl rfl⟩

/-- The port correction keeps the IP. -/
theorem corrected_correctPort {outcome : Option SocketAddr} (h : .punching target ∈ effects)
    (houtcome : ∀ source, outcome = some source → Observed effects source) :
    Corrected effects (correctPort target outcome) := by
  cases outcome with
  | none => exact corrected_of_target h
  | some observed =>
      simp only [correctPort]
      split
      · rename_i hcond
        rw [Bool.and_eq_true_iff, decide_eq_true_eq] at hcond
        exact ⟨target, h, hcond.1, Or.inr (houtcome observed rfl).1⟩
      · exact corrected_of_target h

/-- The listener sends on what comes from the IP it was given, and nothing else. -/
theorem ip_of_listenForPunch {cancelled : Bool} {expected : IpAddr} {recv : Recv} {pc : ListenPc}
    (h : listenForPunch cancelled (some expected) recv pc = .sent source) : source.ip = expected := by
  cases pc with
  | top =>
      simp only [listenForPunch] at h
      split at h <;> cases h
  | receiving =>
      simp only [listenForPunch] at h
      split at h
      · cases h
      · split at h
        · cases h
        · split at h
          · cases h
          · rename_i hip
            cases h
            simpa using hip

/-! ### Steps -/

structure TracedStep (peerAddrStr : String) (effects : List ConnectEffect)
    (next : Connecting × List ConnectEffect) : Prop where
  traced : Traced peerAddrStr (effects ++ next.2) next.1
  allowed : ∀ effect ∈ next.2, effect.Allowed peerAddrStr (effects ++ next.2)

theorem Traced.silent (h : Traced peerAddrStr effects s) : TracedStep peerAddrStr effects (s, []) where
  traced := by
    rw [List.append_nil]
    exact h
  allowed effect heffect := by cases heffect

theorem Traced.resolve (h : Traced peerAddrStr effects s) :
    TracedStep peerAddrStr effects s.resolve := by
  unfold Connecting.resolve
  split
  · rename_i peer hpeer
    rw [h.text] at hpeer
    have hmem : .punching peer ∈ effects ++ [.punching peer] := by simp
    refine ⟨{ h.append with
      pcTarget := ?_, pcPeer := ?_, task := ?_, joining := ?_, listener := ?_ }, ?_⟩
    · intro peer' hpc
      cases hpc
      exact hmem
    · rintro peer' (hpc | hpc) <;> cases hpc
    · intro peer' attempt intervalIdx htask
      cases htask
      exact hmem
    · intro source htask
      cases htask
    · intro peerIp pc hlistener
      cases hlistener
      exact ⟨peer, hmem, rfl⟩
    · intro effect heffect
      obtain rfl := List.mem_singleton.mp heffect
      exact hpeer
  · refine ⟨{ h.append with pcTarget := ?_, pcPeer := ?_ }, ?_⟩
    · intro peer hpc
      cases hpc
    · rintro peer (hpc | hpc) <;> cases hpc
    · intro effect heffect
      obtain rfl := List.mem_singleton.mp heffect
      trivial

theorem Traced.awaited (h : Traced peerAddrStr effects s) {outcome : Option SocketAddr}
    (houtcome : ∀ source, outcome = some source → Observed effects source) :
    Traced peerAddrStr effects (s.awaited outcome) := by
  unfold Connecting.awaited
  split
  · rename_i peer hpc
    have hpeer := corrected_correctPort (h.pcTarget peer hpc) houtcome
    refine { h with pcTarget := ?_, pcPeer := ?_ }
    · intro peer' hpc'
      cases hpc'
    · rintro peer' (hpc' | hpc') <;> cases hpc'
      exact hpeer
  · exact h

/-- `connect_inner` is over. -/
theorem Traced.ends (h : Traced peerAddrStr effects s) :
    Traced peerAddrStr effects { s with pc := .returned, helper := none } :=
  { h with
    pcTarget := fun peer hpc => by cases hpc
    pcPeer := fun peer hpc => by rcases hpc with hpc | hpc <;> cases hpc
    helper := fun peer hhelper => by cases hhelper }

theorem Traced.joined (h : Traced peerAddrStr effects s) (isServer endpoint : Bool) :
    TracedStep peerAddrStr effects (s.joined isServer endpoint) := by
  unfold Connecting.joined
  split
  · rename_i peer hpc _
    have hpeer := h.pcPeer peer (Or.inl hpc)
    split
    · refine ⟨{ h.append with pcTarget := ?_, pcPeer := ?_, helper := ?_ }, ?_⟩
      · intro peer' hpc'
        cases hpc'
      · rintro peer' (hpc' | hpc') <;> cases hpc'
        exact hpeer.append
      · intro peer' hhelper
        cases hhelper
        exact hpeer.append
      · intro effect heffect
        obtain rfl := List.mem_singleton.mp heffect
        cases isServer with
        | true => trivial
        | false => exact hpeer.append
    · refine ⟨h.ends.append, fun effect heffect => ?_⟩
      obtain rfl := List.mem_singleton.mp heffect
      trivial
  · exact h.silent

theorem Traced.handshake (h : Traced peerAddrStr effects s) (succeeded : Bool) :
    TracedStep peerAddrStr effects (s.handshake succeeded) := by
  unfold Connecting.handshake
  split
  · rename_i peer hpc
    refine ⟨h.ends.append, fun effect heffect => ?_⟩
    obtain rfl := List.mem_singleton.mp heffect
    cases succeeded with
    | true => exact (h.pcPeer peer (Or.inr hpc)).append
    | false => trivial
  · exact h.silent

/-- The punch task is behind its loop. -/
theorem Traced.breaks (h : Traced peerAddrStr effects s) {result channel : Option SocketAddr}
    (hresult : ∀ source, result = some source → Observed effects source)
    (hchannel : ∀ source, channel = some source → Observed effects source) :
    Traced peerAddrStr effects { s with task := .joining result, channel } :=
  { h with
    task := fun peer attempt intervalIdx htask => by cases htask
    joining := fun source htask => hresult source (PunchTask.joining.inj htask)
    channel := hchannel }

theorem Traced.punchReceived (h : Traced peerAddrStr effects s) :
    Traced peerAddrStr effects s.punchReceived := by
  unfold Connecting.punchReceived
  split
  · split
    · rename_i first hfirst
      refine h.breaks (fun source hsource => ?_) (by simp)
      cases hsource
      exact h.channel first hfirst
    · rename_i hnone
      split
      · exact h.breaks (by simp) h.channel
      · exact h
  · exact h

theorem Traced.punchTick (h : Traced peerAddrStr effects s) :
    TracedStep peerAddrStr effects s.punchTick := by
  unfold Connecting.punchTick
  split
  · rename_i peer attempt intervalIdx htask
    have hpeer := h.task peer attempt intervalIdx htask
    refine ⟨{ h.append with task := ?_, joining := ?_ }, ?_⟩
    · intro peer' attempt' intervalIdx' htask'
      cases htask'
      exact List.mem_append_left _ hpeer
    · intro source htask'
      cases htask'
    · intro effect heffect
      obtain rfl := List.mem_singleton.mp heffect
      exact List.mem_append_left _ hpeer
  · exact h.silent

theorem Traced.listenerJoined (h : Traced peerAddrStr effects s) :
    Traced peerAddrStr effects s.listenerJoined := by
  unfold Connecting.listenerJoined
  split
  · rename_i result htask
    split
    · refine { h with task := ?_, joining := ?_, result := ?_ }
      · intro peer attempt intervalIdx htask'
        cases htask'
      · intro source htask'
        cases htask'
      · intro source hresult
        obtain rfl := Option.some.inj hresult
        exact h.joining source htask
    · exact h
  · exact h

theorem Traced.listen (h : Traced peerAddrStr effects s) (recv : Recv) :
    TracedStep peerAddrStr effects (s.listen recv) := by
  unfold Connecting.listen
  split
  · rename_i peerIp pc hlistener
    obtain ⟨target, htarget, rfl⟩ := h.listener peerIp pc hlistener
    split
    · refine Traced.silent { h with listener := ?_ }
      intro peerIp' pc' hlistener'
      cases hlistener'
      exact ⟨target, htarget, rfl⟩
    · refine Traced.silent { h with listener := ?_ }
      intro peerIp' pc' hlistener'
      cases hlistener'
    · rename_i source hsent
      have hobserved : Observed (effects ++ [.observed source]) source :=
        ⟨by simp, target, List.mem_append_left _ htarget, ip_of_listenForPunch hsent⟩
      refine ⟨{ h.append with listener := ?_, channel := ?_ }, ?_⟩
      · intro peerIp' pc' hlistener'
        cases hlistener'
      · intro source' hchannel
        rcases Option.or_eq_some_iff.mp hchannel with hold | ⟨-, hnew⟩
        · exact (h.channel source' hold).append
        · obtain rfl := Option.some.inj hnew
          exact hobserved
      · intro effect heffect
        obtain rfl := List.mem_singleton.mp heffect
        exact hobserved
  · exact h.silent

theorem Traced.step (h : Traced peerAddrStr effects s) (isServer : Bool) (event : ConnectEvent) :
    TracedStep peerAddrStr effects (connectInner isServer s event) := by
  cases event with
  | cancel => exact Traced.silent { h with }
  | resolve =>
      simp only [connectInner]
      split
      · exact h.resolve
      · exact h.silent
  | punched =>
      simp only [connectInner]
      split
      · rename_i outcome hresult
        exact (h.awaited fun source hsource => h.result source (hsource ▸ hresult)).silent
      · exact h.silent
  | timedOut => exact (h.awaited (by simp)).silent
  | joined endpoint => exact h.joined isServer endpoint
  | handshake succeeded => exact h.handshake succeeded
  | punchCanceled =>
      simp only [connectInner]
      split
      · split
        · exact (h.breaks (by simp) h.channel).silent
        · exact h.silent
      · exact h.silent
  | punchReceived => exact h.punchReceived.silent
  | punchTick => exact h.punchTick
  | listenerJoined => exact h.listenerJoined.silent
  | listen recv => exact h.listen recv
  | helperTick =>
      simp only [connectInner]
      split
      · rename_i peer hhelper
        refine ⟨h.append, fun effect heffect => ?_⟩
        obtain rfl := List.mem_singleton.mp heffect
        exact (h.helper peer hhelper).append
      · exact h.silent
  | helperStop => exact Traced.silent { h with helper := fun peer hhelper => by cases hhelper }

theorem traced_start (peerAddrStr : String) : Traced peerAddrStr [] (.start peerAddrStr) := by
  constructor <;> simp [Connecting.start]

variable {isServer : Bool} {history : List (Machine.Record Connecting ConnectEvent ConnectEffect)}
  {now : Nat}

theorem allowed_of_run (hrun : (connectMachine isServer peerAddrStr).Run history s now) :
    Traced peerAddrStr (history.flatMap (·.sent)) s ∧
      ∀ effect ∈ history.flatMap (·.sent), effect.Allowed peerAddrStr (history.flatMap (·.sent)) := by
  refine hrun.inv (G := fun _ _ => True)
    (I := fun history s _ => Traced peerAddrStr (history.flatMap (·.sent)) s ∧
      ∀ effect ∈ history.flatMap (·.sent), effect.Allowed peerAddrStr (history.flatMap (·.sent)))
    ?_ ?_ fun _ _ => trivial
  · exact ⟨traced_start peerAddrStr, by simp⟩
  · rintro history s now event - - - ⟨h, hallowed⟩
    have hstep := h.step isServer event
    rw [List.flatMap_append, List.flatMap_singleton]
    refine ⟨hstep.traced, fun effect heffect => ?_⟩
    rcases List.mem_append.mp heffect with hold | hnew
    · exact (hallowed effect hold).append
    · exact hstep.allowed effect hnew

/-! ### Targets -/

theorem effects_resolve (isServer : Bool) (h : peerUdpAddr peerAddrStr = .ok target) :
    ((connectMachine isServer peerAddrStr).trace (.start peerAddrStr) [.resolve]).flatMap (·.sent) =
      [.punching target] := by
  have hresolve : (Connecting.start peerAddrStr).resolve.2 = [.punching target] := by
    simp only [Connecting.resolve, Connecting.start, h]
  exact (List.append_nil _).trans hresolve

/-- Only addresses that may be punched at are, and QUIC gets an address with the IP of the target: the
target, or one that a packet came from. -/
structure OnTarget (effects : List ConnectEffect) : Prop where
  punchable : ∀ target, .punching target ∈ effects → Punchable target
  sent : ∀ size target, .sendPunch size target ∈ effects → .punching target ∈ effects
  quic : ∀ peer, .dial peer ∈ effects ∨ .keepalive peer ∈ effects ∨ .connected peer ∈ effects →
    Corrected effects peer

/-- **Punch targets.** Whatever text the peer sent, all runs of `connect_inner` with it keep to a target
that may be punched at, exactly when the text is not the IPv4-mapped form of a forbidden address. -/
theorem onTarget_iff (peerAddrStr : String) :
    (∀ isServer history s now, (connectMachine isServer peerAddrStr).Run history s now →
      OnTarget (history.flatMap (·.sent))) ↔ hidesForbidden peerAddrStr = false := by
  constructor
  · intro h
    rw [Bool.eq_false_iff]
    intro hhides
    obtain ⟨target, htarget⟩ := exists_target_of_hidesForbidden hhides
    have hordered : (connectMachine false peerAddrStr).Ordered 0 [.resolve] :=
      ⟨Nat.le_refl 0, trivial⟩
    have honTarget := h false _ _ _ (Machine.run_exec _ hordered)
    have hmem : .punching target ∈ ((connectMachine false peerAddrStr).trace (.start peerAddrStr)
        [.resolve]).flatMap (·.sent) := by
      rw [effects_resolve false htarget]
      exact List.mem_singleton_self _
    have hpunchable := honTarget.punchable target hmem
    rw [(punchable_iff htarget).mp hpunchable] at hhides
    cases hhides
  · intro hhides isServer history s now hrun
    obtain ⟨-, hallowed⟩ := allowed_of_run hrun
    refine ⟨fun target htarget => ?_, fun size target hsent => hallowed _ hsent, ?_⟩
    · exact (punchable_iff (hallowed _ htarget)).mpr hhides
    · rintro peer (hdial | hkeepalive | hconnected)
      · exact hallowed _ hdial
      · exact hallowed _ hkeepalive
      · exact hallowed _ hconnected

def mappedBroadcast : String := "[::ffff:255.255.255.255]:4000"

/-- A peer can send the mapped broadcast address, and it is punched at. -/
theorem mapped_broadcast_punched :
    (∃ payload, smallPairing.peerReads Spake2.smallCurve Spake2.smallHashes Spake2.smallGenerators
        payload = .ok mappedBroadcast) ∧
      ∃ history s now target, (connectMachine false mappedBroadcast).Run history s now ∧
        .sendPunch 5 target ∈ history.flatMap (·.sent) ∧
        canonicalIp target.ip = .v4 .broadcast ∧ ¬ OnTarget (history.flatMap (·.sent)) := by
  let target : SocketAddr := .v6 ⟨0, 0, 0, 0, 0, 0xffff, 0xffff, 0xffff⟩ 4000 0
  constructor
  · obtain ⟨n, hn⟩ := Spake2.smallCurve_lawful.toEncoded_ne_zero Spake2.smallGenerators.n
      (Spake2.smallGenerators.n_ne_zero Spake2.smallCurve_lawful)
    have hn := Spake2.affineXy_of_toEncoded Spake2.smallCurve_lawful hn
    have hplain : PlainText mappedBroadcast := by
      have hall : mappedBroadcast.toList.all (fun c => 0 < c.toNat && c.toNat < 128) = true := by
        decide +kernel
      intro c hc
      simpa using List.all_eq_true.mp hall c hc
    obtain ⟨payload, -, hreads⟩ := smallPairing.exists_payload Spake2.smallHashes_lawful hn smallDraws
      hplain (by decide +kernel)
    exact ⟨payload, hreads⟩
  · have hordered : (connectMachine false mappedBroadcast).Ordered 0 [.resolve, .punchTick] := by decide
    have hsent : .sendPunch 5 target ∈ ((connectMachine false mappedBroadcast).trace
        (.start mappedBroadcast) [.resolve, .punchTick]).flatMap (·.sent) := by
      decide +kernel
    refine ⟨_, _, _, target, Machine.run_exec _ hordered, hsent, by decide, fun h => ?_⟩
    have hforbidden := (h.punchable target (h.sent 5 target hsent)).ip
    revert hforbidden
    decide

end Qvole.Exchange
