import Qvole.Tunnel.Stream

/-!
# What a data stream makes this side dial

A stream has the authority of the request it names in its first two bytes. The handler also acts on
streams that end before these have come: the header then keeps the zeros of its buffer, and the
request it happens to name is dialled for as if the peer had asked.
-/

namespace Qvole.Tunnel

variable {stream : Inbound} {reqs : List TunnelRequest} {myReqStart myReqCount : Nat}
  {allow : TunnelAllow} {dns : Dns} {connects : Nat → Bool}

/-! ### Dialling -/

theorem mem_of_mem_dialFirst {targets : List Bytes} {attempt : Nat} {addr : Bytes}
    (h : addr ∈ (dialFirst connects targets attempt).1) : addr ∈ targets := by
  induction targets generalizing attempt with
  | nil => exact h
  | cons first rest ih =>
      simp only [dialFirst] at h
      split at h
      · rw [List.mem_singleton] at h
        exact h ▸ List.mem_cons_self
      · rcases List.mem_cons.mp h with heq | hrest
        · exact heq ▸ List.mem_cons_self
        · exact List.mem_cons_of_mem first (ih hrest)

theorem dialFirst_eq_nil {targets : List Bytes} {attempt : Nat}
    (h : (dialFirst connects targets attempt).1 = []) : targets = [] := by
  cases targets with
  | nil => rfl
  | cons first rest =>
      simp only [dialFirst] at h
      split at h <;> cases h

theorem forwardIps_ne_nil {target port : Bytes} {ips : List IpAddr}
    (h : allow.forwardIps dns target = (ips, port, true)) : ips ≠ [] := by
  unfold TunnelAllow.forwardIps at h
  cases hsplit : splitHostPort target with
  | none => simp [hsplit] at h
  | some parts =>
      simp only [hsplit] at h
      split at h
      · cases h
      · rename_i hall
        split at h
        · cases h
          exact hall
        · split at h
          · cases h
          · rename_i hallowed
            cases h
            exact hallowed

/-- What a request at `idx` allows to dial: my own `R` request its target, the peer's `L` request the
addresses of its target that the allowlist returns. -/
def MayDial (reqs : List TunnelRequest) (myReqStart myReqCount : Nat) (allow : TunnelAllow)
    (dns : Dns) (idx : Nat) (addr : Bytes) : Prop :=
  ∃ req, reqs[idx]? = some req ∧
    ((isMine myReqStart myReqCount idx = true ∧ req.typ = .R ∧ addr = req.targetAddr) ∨
      (isMine myReqStart myReqCount idx = false ∧ req.typ = .L ∧ ∃ ips portStr port ip,
        allow.forwardIps dns req.targetAddr = (ips, portStr, true) ∧
        parseU16 portStr = some port ∧ ip ∈ ips ∧ addr = (SocketAddr.new ip port).toText))

/-- There is a request at `idx`, and it is one to dial for: mine with type `R`, or the peer's with
type `L`, an allowed target and a port that is a number. -/
def Dialable (reqs : List TunnelRequest) (myReqStart myReqCount : Nat) (allow : TunnelAllow)
    (dns : Dns) (idx : Nat) : Prop :=
  ∃ req, reqs[idx]? = some req ∧
    ((isMine myReqStart myReqCount idx = true ∧ req.typ = .R) ∨
      (isMine myReqStart myReqCount idx = false ∧ req.typ = .L ∧ ∃ ips portStr,
        allow.forwardIps dns req.targetAddr = (ips, portStr, true) ∧
        (parseU16 portStr).isSome = true))

/-- The part of the handler behind the header. -/
def dialFor (reqs : List TunnelRequest) (myReqStart myReqCount : Nat) (allow : TunnelAllow)
    (dns : Dns) (connects : Nat → Bool) (idx : Nat) : List Bytes × Bool :=
  match reqs[idx]? with
  | none => ([], false)
  | some req =>
      let myReq := isMine myReqStart myReqCount idx
      if req.typ = .L ∧ myReq then ([], false)
      else if req.typ = .R ∧ !myReq then ([], false)
      else dialFirst connects (dialTargets dns allow myReq req) 0

theorem mayDial_of_dialFor {idx : Nat} {addr : Bytes}
    (h : addr ∈ (dialFor reqs myReqStart myReqCount allow dns connects idx).1) :
    MayDial reqs myReqStart myReqCount allow dns idx addr := by
  unfold dialFor at h
  cases hreq : reqs[idx]? with
  | none =>
      rw [hreq] at h
      cases h
  | some req =>
      simp only [hreq] at h
      refine ⟨req, hreq, ?_⟩
      cases hmine : isMine myReqStart myReqCount idx <;> cases htyp : req.typ <;>
        simp only [hmine, htyp, reduceCtorEq, and_self, and_true, and_false, if_true, if_false,
          Bool.not_true, Bool.not_false, Bool.false_eq_true, List.not_mem_nil] at h
      · refine Or.inr ⟨rfl, rfl, ?_⟩
        have hmem := mem_of_mem_dialFirst h
        simp only [dialTargets, Bool.false_eq_true, if_false] at hmem
        generalize hforward : allow.forwardIps dns req.targetAddr = answer at hmem
        obtain ⟨ips, portStr, ok⟩ := answer
        cases ok with
        | false => simp at hmem
        | true =>
            simp only [Bool.not_true, Bool.false_eq_true, if_false] at hmem
            cases hport : parseU16 portStr with
            | none => simp [hport] at hmem
            | some port =>
                simp only [hport, List.mem_map] at hmem
                obtain ⟨ip, hip, rfl⟩ := hmem
                exact ⟨ips, portStr, port, ip, rfl, hport, hip, rfl⟩
      · have hmem := mem_of_mem_dialFirst h
        simp only [dialTargets, if_true, List.mem_singleton] at hmem
        exact Or.inl ⟨rfl, rfl, hmem⟩

theorem dialable_of_mayDial {idx : Nat} {addr : Bytes}
    (h : MayDial reqs myReqStart myReqCount allow dns idx addr) :
    Dialable reqs myReqStart myReqCount allow dns idx := by
  obtain ⟨req, hreq, ⟨hmine, htyp, -⟩ | ⟨hmine, htyp, ips, portStr, port, ip, hforward, hport, -⟩⟩ := h
  · exact ⟨req, hreq, Or.inl ⟨hmine, htyp⟩⟩
  · exact ⟨req, hreq, Or.inr ⟨hmine, htyp, ips, portStr, hforward, by rw [hport]; rfl⟩⟩

theorem dialFor_ne_nil {idx : Nat} (h : Dialable reqs myReqStart myReqCount allow dns idx) :
    (dialFor reqs myReqStart myReqCount allow dns connects idx).1 ≠ [] := by
  obtain ⟨req, hreq, ⟨hmine, htyp⟩ | ⟨hmine, htyp, ips, portStr, hforward, hport⟩⟩ := h
  · intro hnil
    simp only [dialFor, hreq, hmine, htyp] at hnil
    have htargets := dialFirst_eq_nil (by simpa using hnil)
    simp [dialTargets] at htargets
  · obtain ⟨port, hport⟩ := Option.isSome_iff_exists.mp hport
    intro hnil
    simp only [dialFor, hreq, hmine, htyp] at hnil
    have htargets := dialFirst_eq_nil (by simpa using hnil)
    simp only [dialTargets, hforward, hport, Bool.false_eq_true, Bool.not_true, if_false,
      List.map_eq_nil_iff] at htargets
    exact forwardIps_ne_nil hforward htargets

/-! ### The header -/

theorem handleTunnelStream_eq :
    handleTunnelStream stream reqs myReqStart myReqCount allow dns connects =
      if (stream.readExact 2).2.isErr then ([], false)
      else dialFor reqs myReqStart myReqCount allow dns connects
        (Bytes.beNat (stream.readExact 2).1) := by
  simp only [handleTunnelStream, Bool.or_self]
  rfl

theorem handleTunnelStream_of_header {high low : UInt8} {rest : Bytes}
    (h : stream.delivered = high :: low :: rest) :
    handleTunnelStream stream reqs myReqStart myReqCount allow dns connects =
      dialFor reqs myReqStart myReqCount allow dns connects (high.toNat * 256 + low.toNat) := by
  have hread : stream.readExact 2 = ([high, low], .filled) := by
    simp [Inbound.readExact, h]
  simp [handleTunnelStream_eq, hread, ReadResult.isErr, Bytes.beNat]

theorem handleTunnelStream_of_silent (hshort : stream.delivered.length < 2)
    (h : stream.ending = .silent) :
    handleTunnelStream stream reqs myReqStart myReqCount allow dns connects = ([], false) := by
  have hread : (stream.readExact 2).2 = .timedOut := by
    simp [Inbound.readExact, h, Nat.not_le.mpr hshort]
  simp [handleTunnelStream_eq, hread, ReadResult.isErr]

/-- A stream that ends early is taken for one whose missing header bytes are zeros. -/
theorem handleTunnelStream_of_ended (hshort : stream.delivered.length < 2)
    (h : stream.ending ≠ .silent) :
    handleTunnelStream stream reqs myReqStart myReqCount allow dns connects =
      dialFor reqs myReqStart myReqCount allow dns connects
        ((stream.delivered.headD 0).toNat * 256) := by
  have hheader : (stream.readExact 2).1 = [stream.delivered.headD 0, 0] := by
    rw [Inbound.readExact, if_neg (Nat.not_le.mpr hshort)]
    rcases hdelivered : stream.delivered with _ | ⟨first, _ | ⟨second, rest⟩⟩
    · rfl
    · rfl
    · simp only [hdelivered, List.length_cons] at hshort
      omega
  have hres : (stream.readExact 2).2 = .failed := by
    rw [Inbound.readExact, if_neg (Nat.not_le.mpr hshort)]
    cases hending : stream.ending with
    | fin => rfl
    | reset => rfl
    | silent => exact absurd hending h
  simp [handleTunnelStream_eq, hres, hheader, ReadResult.isErr, Bytes.beNat]

/-- `addr` is dialled with the authority of the request that the first two bytes name. -/
def Authorised (stream : Inbound) (reqs : List TunnelRequest) (myReqStart myReqCount : Nat)
    (allow : TunnelAllow) (dns : Dns) (addr : Bytes) : Prop :=
  ∃ high low rest, stream.delivered = high :: low :: rest ∧
    MayDial reqs myReqStart myReqCount allow dns (high.toNat * 256 + low.toNat) addr

/-- **Dial authority of a data stream.** Every dial has the authority of a request named by the
stream exactly if the two bytes came, or nothing more came in time, or the zeros that stand for the
missing bytes name no request to dial for. -/
theorem dials_authorised_iff (stream : Inbound) (reqs : List TunnelRequest)
    (myReqStart myReqCount : Nat) (allow : TunnelAllow) (dns : Dns) (connects : Nat → Bool) :
    (∀ addr ∈ (handleTunnelStream stream reqs myReqStart myReqCount allow dns connects).1,
      Authorised stream reqs myReqStart myReqCount allow dns addr) ↔
      2 ≤ stream.delivered.length ∨ stream.ending = .silent ∨
        ¬ Dialable reqs myReqStart myReqCount allow dns
          ((stream.delivered.headD 0).toNat * 256) := by
  constructor
  · intro hauthorised
    by_contra hnot
    simp only [not_or, not_not, Nat.not_le] at hnot
    obtain ⟨hshort, hended, hdialable⟩ := hnot
    rw [handleTunnelStream_of_ended hshort hended] at hauthorised
    obtain ⟨addr, hdialled⟩ := List.exists_mem_of_ne_nil _ (dialFor_ne_nil hdialable)
    obtain ⟨high, low, rest, hdelivered, -⟩ := hauthorised addr hdialled
    simp only [hdelivered, List.length_cons] at hshort
    omega
  · intro hcond addr hdialled
    by_cases hshort : stream.delivered.length < 2
    · -- without a header there is nothing to justify a dial, so none may happen
      exfalso
      by_cases hsilent : stream.ending = .silent
      · rw [handleTunnelStream_of_silent hshort hsilent] at hdialled
        cases hdialled
      · rw [handleTunnelStream_of_ended hshort hsilent] at hdialled
        rcases hcond with hlong | hending | hnot
        · omega
        · exact hsilent hending
        · exact hnot (dialable_of_mayDial (mayDial_of_dialFor hdialled))
    · rcases hdelivered : stream.delivered with _ | ⟨high, _ | ⟨low, rest⟩⟩
      · simp [hdelivered] at hshort
      · simp [hdelivered] at hshort
      · rw [handleTunnelStream_of_header hdelivered] at hdialled
        exact ⟨high, low, rest, hdelivered, mayDial_of_dialFor hdialled⟩

/-- A stream that is finished before its first byte, where the first request is my own `R`. -/
theorem dial_of_empty_stream :
    ¬ ∀ addr ∈ (handleTunnelStream ⟨[], .fin⟩
        [⟨.R, ascii "0.0.0.0:8080", ascii "127.0.0.1:22"⟩] 0 1
        { all := false, listen := [], forward := [], forwardRules := [] } (fun _ => [])
        fun _ => true).1,
      Authorised ⟨[], .fin⟩ [⟨.R, ascii "0.0.0.0:8080", ascii "127.0.0.1:22"⟩] 0 1
        { all := false, listen := [], forward := [], forwardRules := [] } (fun _ => []) addr := by
  intro hauthorised
  obtain ⟨high, low, rest, hdelivered, -⟩ := hauthorised (ascii "127.0.0.1:22") (by decide)
  cases hdelivered

end Qvole.Tunnel
