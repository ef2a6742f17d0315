import Qvole.Tunnel.Proof.Dial
import Qvole.Tunnel.Proof.Reading

/-!
# The two sides agree on the tunnels

What one side writes the other reads back, so both have the same list of requests and the same idea
of whose each one is. The rule for listening and the checks on a stream's direction are then two
views of one question: the side that listens for a request is not the one that dials for it.
-/

namespace Qvole.Tunnel

open Outcome (fail expect mapErr)

variable {ending : Ending} {source : Source} {allow : TunnelAllow} {reqs : List TunnelRequest}

/-! ### Lines on the wire -/

/-- As a peer has it. -/
def TunnelRequest.Printable (req : TunnelRequest) : Prop :=
  (∀ c ∈ req.listenAddr, 32 ≤ c ∧ c ≤ 126) ∧ ∀ c ∈ req.targetAddr, 32 ≤ c ∧ c ≤ 126

/-- What a request has to be for its line to mean it. -/
structure TunnelRequest.Sendable (req : TunnelRequest) : Prop where
  listen : ∀ c ∈ req.listenAddr, 33 ≤ c ∧ c ≤ 126
  target : ∀ c ∈ req.targetAddr, 32 ≤ c ∧ c ≤ 126
  length : req.line.length ≤ scannerMaxTokenSize

theorem dropEnd_append (c : UInt8) (b : Bytes) : dropEnd c (b ++ [c]) = b := by
  simp [dropEnd]

theorem dropEnd_of_notMem {c : UInt8} {b : Bytes} (h : c ∉ b) : dropEnd c b = b := by
  rw [dropEnd, if_neg]
  intro hlast
  exact h (List.mem_of_getLast? hlast)

theorem notMem_of_printable {b : Bytes} (hb : ∀ c ∈ b, 32 ≤ c ∧ c ≤ 126) {d : UInt8}
    (hd : d < 32) : d ∉ b := by
  intro hmem
  have hle := (hb d hmem).1
  exact absurd hle (UInt8.not_le.mpr hd)

theorem stripEol_of_printable {b : Bytes} (hb : ∀ c ∈ b, 32 ≤ c ∧ c ≤ 126) : stripEol b = b := by
  have hlf : (10 : UInt8) ∉ b := notMem_of_printable hb (by decide)
  have hcr : (13 : UInt8) ∉ b := notMem_of_printable hb (by decide)
  rw [stripEol, dropEnd_of_notMem hlf, dropEnd_of_notMem hcr]
  exact Bytes.fromUtf8Lossy_of_ascii fun c hc => UInt8.le_trans (hb c hc).2 (by decide)

theorem stripEol_append_lf {b : Bytes} (hb : ∀ c ∈ b, 32 ≤ c ∧ c ≤ 126) :
    stripEol (b ++ [10]) = b := by
  have hplain := stripEol_of_printable hb
  have hlf : (10 : UInt8) ∉ b := notMem_of_printable hb (by decide)
  rw [stripEol, dropEnd_of_notMem hlf] at hplain
  rw [stripEol, dropEnd_append, hplain]

theorem parseAddr_of_printable {b : Bytes} (hb : ∀ c ∈ b, 32 ≤ c ∧ c ≤ 126) : parseAddr b = b := by
  rw [parseAddr, List.filter_eq_self]
  intro c hc
  have hlt : c < 127 := UInt8.lt_of_le_of_lt (hb c hc).2 (by decide)
  simp [(hb c hc).1, hlt]

/-- Of the printable bytes only the blank is not graphic. -/
theorem printable_of_graphic {c : UInt8} (h : 33 ≤ c ∧ c ≤ 126) : 32 ≤ c ∧ c ≤ 126 :=
  ⟨UInt8.le_trans (by decide) h.1, h.2⟩

theorem graphic_of_printable {c : UInt8} (h : 32 ≤ c ∧ c ≤ 126) (hblank : c ≠ 32) :
    33 ≤ c ∧ c ≤ 126 := by
  have hlow : 32 ≤ c.toNat := h.1
  have hne : c.toNat ≠ 32 := fun heq => hblank (UInt8.toNat_inj.mp heq)
  exact ⟨show 33 ≤ c.toNat by omega, h.2⟩

theorem within_of_all {low high : UInt8} {b : Bytes}
    (h : b.all (fun c => low ≤ c && c ≤ high) = true) : ∀ c ∈ b, low ≤ c ∧ c ≤ high := by
  intro c hc
  simpa using List.all_eq_true.mp h c hc

theorem TunnelType.text_printable (typ : TunnelType) : ∀ c ∈ typ.text, 33 ≤ c ∧ c ≤ 126 := by
  cases typ <;> exact within_of_all (by decide)

theorem parseType_text (typ : TunnelType) : parseType typ.text = some typ := by
  cases typ <;> decide

namespace TunnelRequest

variable {req : TunnelRequest}

theorem Printable.line (h : req.Printable) : ∀ c ∈ req.line, 32 ≤ c ∧ c ≤ 126 := by
  intro c hc
  simp only [TunnelRequest.line, List.mem_append, List.mem_cons] at hc
  rcases hc with htyp | rfl | hlisten | rfl | htarget
  · exact printable_of_graphic (req.typ.text_printable c htyp)
  · decide
  · exact h.1 c hlisten
  · decide
  · exact h.2 c htarget

theorem Sendable.printable (h : req.Sendable) : req.Printable :=
  ⟨fun c hc => printable_of_graphic (h.listen c hc), h.target⟩

theorem Sendable.splitThree_line (h : req.Sendable) :
    splitThree req.line = some (req.typ.text, req.listenAddr, req.targetAddr) := by
  have hgap : ∀ b : Bytes, (∀ c ∈ b, 33 ≤ c ∧ c ≤ 126) → (32 : UInt8) ∉ b := by
    intro b hb hmem
    exact absurd (hb 32 hmem).1 (by decide)
  have htyp := Bytes.splitOnce_append (hgap _ req.typ.text_printable)
    (req.listenAddr ++ 32 :: req.targetAddr)
  have hlisten := Bytes.splitOnce_append (hgap _ h.listen) req.targetAddr
  simp only [splitThree, line, htyp, hlisten]

/-- The line of a request is read as the request. -/
theorem Sendable.parse_line (h : req.Sendable) : parseRequestLine req.line = .ok req := by
  obtain ⟨hlisten, htarget⟩ := h.printable
  simp only [parseRequestLine, h.splitThree_line, parseType_text, parseAddr_of_printable hlisten,
    parseAddr_of_printable htarget]

theorem line_ne_end (req : TunnelRequest) : req.line ≠ ascii "END" := by
  intro h
  have hhead := congrArg List.head? h
  cases htyp : req.typ <;> simp [line, htyp, TunnelType.text] at hhead <;> cases hhead

end TunnelRequest

/-! ### Reading back what was written -/

/-- The lines of the requests and the end line. -/
def requestsText (reqs : List TunnelRequest) : Bytes :=
  (reqs.map fun req => req.line ++ [10]).flatten ++ (ascii "END" ++ [10])

theorem cutLine_append {line rest : Bytes} (hline : 10 ∉ line)
    (hlen : line.length ≤ scannerMaxTokenSize) :
    cutLine ending [] (line ++ 10 :: rest) = .ok (line ++ [10], rest) := by
  have hshort : ¬ line.length > scannerMaxTokenSize := Nat.not_lt_of_le hlen
  simp only [cutLine, Bytes.splitOnce_append hline, List.nil_append, if_neg hshort]

theorem requestsOf_text (hreqs : ∀ req ∈ reqs, req.Sendable) (before : List TunnelRequest)
    (hcount : before.length + reqs.length ≤ maxTunnelRequests) (fuel : Nat)
    (hfuel : reqs.length < fuel) :
    requestsOf ending fuel before (requestsText reqs) = .ok (before ++ reqs) := by
  induction reqs generalizing before fuel with
  | nil =>
      obtain ⟨fuel, rfl⟩ := Nat.exists_eq_succ_of_ne_zero (Nat.ne_of_gt hfuel)
      have hcut : cutLine ending [] (requestsText []) = .ok (ascii "END" ++ [10], []) :=
        cutLine_append (by decide) (by decide)
      have hend : stripEol (ascii "END" ++ [10]) = ascii "END" := by decide
      rw [requestsOf, hcut, Outcome.ok_bind]
      simp only [hend, if_true, List.append_nil]
      rfl
  | cons req reqs ih =>
      obtain ⟨fuel, rfl⟩ := Nat.exists_eq_succ_of_ne_zero (Nat.ne_zero_of_lt hfuel)
      have hreq := hreqs req List.mem_cons_self
      have hlf : (10 : UInt8) ∉ req.line := notMem_of_printable hreq.printable.line (by decide)
      have htext : requestsText (req :: reqs) = req.line ++ 10 :: requestsText reqs := by
        simp [requestsText]
      rw [List.length_cons] at hcount hfuel
      have hroom : ¬ before.length ≥ maxTunnelRequests := by omega
      have hne : req.line ++ [10] ≠ [] := by simp
      rw [requestsOf, htext, cutLine_append hlf hreq.length, Outcome.ok_bind]
      simp only [stripEol_append_lf hreq.printable.line, hne, req.line_ne_end, hroom, if_false,
        hreq.parse_line, Outcome.ok_bind]
      rw [ih (fun other hother => hreqs other (List.mem_cons_of_mem req hother)) _ (by simp; omega)
        fuel (by omega), List.append_assoc, List.singleton_append]

theorem length_le_requestsText (reqs : List TunnelRequest) :
    reqs.length ≤ (requestsText reqs).length := by
  induction reqs with
  | nil => exact Nat.zero_le _
  | cons req reqs ih =>
      have htext : requestsText (req :: reqs) = req.line ++ 10 :: requestsText reqs := by
        simp [requestsText]
      rw [htext, List.length_append, List.length_cons, List.length_cons]
      omega

theorem readRequests_text (hreqs : ∀ req ∈ reqs, req.Sendable)
    (hcount : reqs.length ≤ maxTunnelRequests) (hbytes : source.bytes = requestsText reqs) :
    readRequestsFromStream ending source = .ok reqs := by
  rw [readRequestsFromStream_eq, hbytes]
  apply requestsOf_text hreqs
  · simpa using hcount
  · exact Nat.lt_succ_of_le (length_le_requestsText reqs)

theorem readAcceptLine_text (ending : Ending) {accepts : Bool} {rest : Bytes}
    (hbytes : source.bytes = acceptLine accepts ++ 10 :: rest) :
    ∃ next, readAcceptLine ending source = .ok (accepts, next) ∧ next.bytes = rest := by
  have hlf : (10 : UInt8) ∉ acceptLine accepts := by cases accepts <;> decide
  have hlen : ([] ++ acceptLine accepts).length ≤ scannerMaxTokenSize := by
    cases accepts <;> decide
  have hfuel : (acceptLine accepts).length < source.bytes.length + 1 := by
    rw [hbytes, List.length_append]
    omega
  obtain ⟨next, hread, hnext⟩ := readAcceptFrom_line ending hlf hlen _ hfuel hbytes
  refine ⟨next, ?_, hnext⟩
  rw [readAcceptLine, hread, Outcome.ok_bind, List.nil_append]
  have hstrip : stripEol (acceptLine accepts) = acceptLine accepts := by cases accepts <;> decide
  simp only [hstrip]
  cases accepts <;> rfl

/-- The whole configuration of a side as it is written. -/
def configText (reqs : List TunnelRequest) (allow : TunnelAllow) : Bytes :=
  acceptLine allow.accepts ++ 10 :: requestsText reqs

theorem readConfig_text (hreqs : ∀ req ∈ reqs, req.Sendable)
    (hcount : reqs.length ≤ maxTunnelRequests) (hbytes : source.bytes = configText reqs allow) :
    readConfig ending source = .ok (allow.accepts, reqs) := by
  obtain ⟨next, haccept, hnext⟩ := readAcceptLine_text ending hbytes
  rw [readConfig, haccept, Outcome.mapErr_ok, Outcome.ok_bind]
  simp only [readRequests_text hreqs hcount hnext, Outcome.mapErr_ok, Outcome.ok_bind]
  rfl

theorem writeLines_done {writes : Nat → WriteResult} (hwrites : ∀ k, writes k = .done) (k : Nat)
    (lines : List (ConfigLine × Bytes)) :
    writeLines writes k lines = ((lines.map Prod.snd).flatten, .ok ()) := by
  induction lines generalizing k with
  | nil => rfl
  | cons first lines ih =>
      obtain ⟨what, line⟩ := first
      simp only [writeLines, hwrites, ih, List.map_cons, List.flatten_cons]

theorem flatten_configLines (reqs : List TunnelRequest) (allow : TunnelAllow) :
    ((configLines reqs allow).map Prod.snd).flatten = configText reqs allow := by
  have hindexed : (reqs.mapIdx fun i req => (ConfigLine.request i, req.line ++ [10])).map Prod.snd =
      reqs.map fun req => req.line ++ [10] := by
    apply List.ext_getElem?
    intro i
    simp only [List.getElem?_map, List.getElem?_mapIdx, Option.map_map]
    rfl
  simp only [configLines, List.map_cons, List.map_append, hindexed, List.flatten_cons,
    List.flatten_append, configText, requestsText]
  simp

/-! ### The exchange -/

/-- A control stream on which nothing goes wrong while this side writes. -/
structure ControlStream.Works (stream : ControlStream) : Prop where
  opened : stream.opening = .opened
  writes : ∀ k, stream.writes k = .done

variable {stream : ControlStream} {isServer : Bool}

theorem ControlStream.Works.sent (h : stream.Works) (hcount : reqs.length ≤ maxTunnelRequests) :
    (exchangeTunnelConfig stream reqs allow isServer).1 = configText reqs allow := by
  simp only [exchangeTunnelConfig, if_neg (Nat.not_lt_of_le hcount), h.opened,
    writeLines_done h.writes, flatten_configLines]

theorem ControlStream.Works.exchanged (h : stream.Works) {peerReqs : List TunnelRequest}
    {peerAllow : TunnelAllow} (hcount : reqs.length ≤ maxTunnelRequests)
    (hpeer : ∀ req ∈ peerReqs, req.Sendable) (hpeerCount : peerReqs.length ≤ maxTunnelRequests)
    (hbytes : stream.source.bytes = configText peerReqs peerAllow) :
    (exchangeTunnelConfig stream reqs allow isServer).2 =
      .ok (combine isServer reqs peerReqs peerAllow.accepts) := by
  simp only [exchangeTunnelConfig, if_neg (Nat.not_lt_of_le hcount), h.opened,
    writeLines_done h.writes, readConfig_text hpeer hpeerCount hbytes, Outcome.ok_bind,
    withDeadline]
  rfl

/-! ### Who listens and who dials -/

/-- The checks on the direction of a stream: whether this side is not the one to dial. -/
def refused (myReq : Bool) (req : TunnelRequest) : Bool :=
  (req.typ = .L && myReq) || (req.typ = .R && !myReq)

theorem dialFor_eq {myReqStart myReqCount idx : Nat} {dns : Dns} {connects : Nat → Bool}
    {req : TunnelRequest} (hreq : reqs[idx]? = some req) :
    dialFor reqs myReqStart myReqCount allow dns connects idx =
      if refused (isMine myReqStart myReqCount idx) req then ([], false)
      else dialFirst connects (dialTargets dns allow (isMine myReqStart myReqCount idx) req) 0 := by
  simp only [dialFor, hreq]
  cases isMine myReqStart myReqCount idx <;> cases htyp : req.typ <;> simp [refused, htyp]

/-- A side that listens for a request does not dial for it, and if the other side takes the request
for its own where this one does not, the other side dials. -/
theorem refused_of_listensFor {myReq peerAccept : Bool} {req : TunnelRequest}
    (h : listensFor myReq peerAccept allow req = true) :
    refused myReq req = true ∧ refused (!myReq) req = false := by
  cases myReq <;> cases htyp : req.typ <;> simp [listensFor, refused, htyp] at h ⊢

theorem mem_startListeners {binds : Nat → Bool} {myReqStart myReqCount : Nat} {peerAccept : Bool}
    {start i : Nat}
    (h : i ∈ (startListeners binds myReqStart myReqCount peerAccept allow start reqs).1) :
    start ≤ i ∧ ∃ req, reqs[i - start]? = some req ∧
      listensFor (isMine myReqStart myReqCount i) peerAccept allow req = true := by
  induction reqs generalizing start with
  | nil => cases h
  | cons req reqs ih =>
      have hlater : i ∈ (startListeners binds myReqStart myReqCount peerAccept allow (start + 1)
          reqs).1 → start ≤ i ∧ ∃ other, (req :: reqs)[i - start]? = some other ∧
            listensFor (isMine myReqStart myReqCount i) peerAccept allow other = true := by
        intro hmem
        obtain ⟨hle, other, hother, hlistens⟩ := ih hmem
        have hsub : i - start = i - (start + 1) + 1 := by omega
        exact ⟨by omega, other, by rw [hsub, List.getElem?_cons_succ]; exact hother, hlistens⟩
      rw [startListeners] at h
      split at h
      · exact hlater h
      · rename_i hlistens
        split at h
        · cases h
        · rcases List.mem_cons.mp h with rfl | hmem
          · exact ⟨Nat.le_refl i, req, by simp, by simpa using hlistens⟩
          · exact hlater hmem

theorem Session.listens {session : Session} {binds : Nat → Bool} {i : Nat}
    (h : i ∈ session.listeners binds) : ∃ req, session.config.reqs[i]? = some req ∧
      listensFor (session.mine i) session.config.peerAccept session.allow req = true :=
  (mem_startListeners h).2

/-- What holds for the requests that `session` listens for, with `other` at the far end. -/
structure Session.Complements (session other : Session) : Prop where
  once : ∀ binds otherBinds i, i ∈ session.listeners binds → i ∉ other.listeners otherBinds
  notDialled : ∀ binds i, i ∈ session.listeners binds → ∀ (stream : Inbound) dns connects,
    Bytes.beNat (stream.readExact 2).1 = i → session.onStream stream dns connects = ([], false)
  header : ∀ binds i, i ∈ session.listeners binds →
    handleTunnelTcp true true i = some (Bytes.be16 i)
  answered : ∀ binds i, i ∈ session.listeners binds → ∀ permit opened header,
    handleTunnelTcp permit opened i = some header →
      ∃ req, other.config.reqs[i]? = some req ∧ refused (other.mine i) req = false ∧
        ∀ (stream : Inbound) dns connects, header <+: stream.delivered →
          other.onStream stream dns connects =
            dialFirst connects (dialTargets dns other.allow (other.mine i) req) 0

theorem Session.onStream_eq {session : Session} {inbound : Inbound} {dns : Dns}
    {connects : Nat → Bool} {req : TunnelRequest}
    (hreq : session.config.reqs[Bytes.beNat (inbound.readExact 2).1]? = some req) :
    session.onStream inbound dns connects =
      if (inbound.readExact 2).2.isErr || refused (session.mine (Bytes.beNat (inbound.readExact 2).1))
        req then ([], false)
      else dialFirst connects (dialTargets dns session.allow
        (session.mine (Bytes.beNat (inbound.readExact 2).1)) req) 0 := by
  rw [Session.onStream, handleTunnelStream_eq, dialFor_eq hreq]
  cases (inbound.readExact 2).2.isErr <;> rfl

theorem eq_be16_of_handleTunnelTcp {permit opened : Bool} {i : Nat} {header : Bytes}
    (h : handleTunnelTcp permit opened i = some header) : header = Bytes.be16 i ∧ i ≤ 65535 := by
  unfold handleTunnelTcp at h
  split at h
  · cases h
  · rename_i hsmall
    split at h
    · cases h
    · split at h
      · cases h
      · exact ⟨(Option.some.inj h).symm, Nat.le_of_not_lt hsmall⟩

theorem readExact_of_header {inbound : Inbound} {i : Nat}
    (h : Bytes.be16 i <+: inbound.delivered) : inbound.readExact 2 = (Bytes.be16 i, .filled) := by
  obtain ⟨rest, hrest⟩ := h
  have hlen : inbound.delivered.length ≥ 2 := by
    rw [← hrest]
    simp [Bytes.be16]
  rw [Inbound.readExact, if_pos hlen, ← hrest]
  rfl

/-- Two sides with the same list who never both own a request, or both not own it, complement each
other. -/
theorem Session.complements {session other : Session}
    (hreqs : session.config.reqs = other.config.reqs)
    (hsmall : session.config.reqs.length ≤ 65536)
    (howner : ∀ i, i < session.config.reqs.length → session.mine i = !other.mine i) :
    session.Complements other := by
  have hother : ∀ i req, session.config.reqs[i]? = some req →
      i < session.config.reqs.length ∧ other.mine i = !session.mine i := by
    intro i req hreq
    obtain ⟨hlt, -⟩ := List.getElem?_eq_some_iff.mp hreq
    exact ⟨hlt, by rw [howner i hlt, Bool.not_not]⟩
  constructor
  · intro binds otherBinds i hmem hagain
    obtain ⟨req, hreq, hlistens⟩ := Session.listens hmem
    obtain ⟨otherReq, hotherReq, hotherListens⟩ := Session.listens hagain
    obtain rfl : req = otherReq := by
      rw [hreqs, hotherReq] at hreq
      exact (Option.some.inj hreq).symm
    have hrefused := (refused_of_listensFor hotherListens).1
    rw [(hother i req hreq).2, (refused_of_listensFor hlistens).2] at hrefused
    cases hrefused
  · intro binds i hmem inbound dns connects hheader
    obtain ⟨req, hreq, hlistens⟩ := Session.listens hmem
    rw [← hheader] at hreq hlistens
    rw [Session.onStream_eq hreq, (refused_of_listensFor hlistens).1, Bool.or_true, if_pos rfl]
  · intro binds i hmem
    obtain ⟨req, hreq, -⟩ := Session.listens hmem
    have hle : ¬ i > 65535 := by
      have hlt := (hother i req hreq).1
      omega
    simp [handleTunnelTcp, hle]
  · intro binds i hmem permit opened header hsent
    obtain ⟨req, hreq, hlistens⟩ := Session.listens hmem
    obtain ⟨rfl, hi⟩ := eq_be16_of_handleTunnelTcp hsent
    have hrefused : refused (other.mine i) req = false := by
      rw [(hother i req hreq).2]
      exact (refused_of_listensFor hlistens).2
    have hotherReq : other.config.reqs[i]? = some req := hreqs ▸ hreq
    refine ⟨req, hotherReq, hrefused, fun inbound dns connects hheader => ?_⟩
    have hread := readExact_of_header hheader
    have hidx : Bytes.beNat (inbound.readExact 2).1 = i := by
      rw [hread]
      exact Bytes.beNat_be16 (Nat.lt_succ_of_le hi)
    rw [Session.onStream_eq (hidx.symm ▸ hotherReq), hidx, hread, hrefused]
    rfl

/-- What the two sides have after the exchange. -/
structure Session.Agreement (client server : Session) : Prop where
  reqs : client.config.reqs = server.config.reqs
  clientAccept : client.config.peerAccept = server.allow.accepts
  serverAccept : server.config.peerAccept = client.allow.accepts
  /-- Every request of the list belongs to one side. -/
  owner : ∀ i, i < client.config.reqs.length → client.mine i = !server.mine i
  inside : ∀ i, client.mine i = true ∨ server.mine i = true → i < client.config.reqs.length
  clientListens : client.Complements server
  serverListens : server.Complements client

theorem agreement_of_combine {clientReqs serverReqs : List TunnelRequest}
    {clientAllow serverAllow : TunnelAllow} (hclientCount : clientReqs.length ≤ maxTunnelRequests)
    (hserverCount : serverReqs.length ≤ maxTunnelRequests) :
    Session.Agreement
      ⟨combine false clientReqs serverReqs serverAllow.accepts, clientReqs.length, clientAllow⟩
      ⟨combine true serverReqs clientReqs clientAllow.accepts, serverReqs.length, serverAllow⟩ := by
  have howner : ∀ i, i < (clientReqs ++ serverReqs).length →
      isMine 0 clientReqs.length i = !isMine clientReqs.length serverReqs.length i := by
    intro i hi
    rw [List.length_append] at hi
    by_cases hfirst : i < clientReqs.length
    · simp [isMine, hfirst]
    · simp [isMine, hfirst, hi, Nat.le_of_not_lt hfirst]
  have hsmall : (clientReqs ++ serverReqs).length ≤ 65536 := by
    rw [List.length_append]
    simp only [maxTunnelRequests] at hclientCount hserverCount
    omega
  have hinside : ∀ i, isMine 0 clientReqs.length i = true ∨
      isMine clientReqs.length serverReqs.length i = true →
        i < (clientReqs ++ serverReqs).length := by
    intro i hi
    simp only [isMine, Bool.and_eq_true, decide_eq_true_eq] at hi
    rw [List.length_append]
    omega
  have hflipped : ∀ i, i < (clientReqs ++ serverReqs).length →
      isMine clientReqs.length serverReqs.length i = !isMine 0 clientReqs.length i := by
    intro i hi
    rw [howner i hi, Bool.not_not]
  exact ⟨rfl, rfl, rfl, howner, hinside, Session.complements rfl hsmall howner,
    Session.complements rfl hsmall hflipped⟩

/-- **The two sides agree on the tunnels.** Whatever the chunks in which each side reads the other's
lines, both end with the client's requests followed by the server's, they own disjoint parts of this
list, no request is listened for on both sides or dialled for where it is listened for, and a stream
for it gets past the direction checks of the other side. -/
theorem tunnelConfig_agreement {client server : ControlStream}
    {clientReqs serverReqs : List TunnelRequest} {clientAllow serverAllow : TunnelAllow}
    (hclient : client.Works) (hserver : server.Works)
    (hclientReqs : ∀ req ∈ clientReqs, req.Sendable)
    (hserverReqs : ∀ req ∈ serverReqs, req.Sendable)
    (hclientCount : clientReqs.length ≤ maxTunnelRequests)
    (hserverCount : serverReqs.length ≤ maxTunnelRequests)
    (hclientReads :
      client.source.bytes = (exchangeTunnelConfig server serverReqs serverAllow true).1)
    (hserverReads :
      server.source.bytes = (exchangeTunnelConfig client clientReqs clientAllow false).1) :
    ∃ clientConfig serverConfig,
      (exchangeTunnelConfig client clientReqs clientAllow false).2 = .ok clientConfig ∧
      (exchangeTunnelConfig server serverReqs serverAllow true).2 = .ok serverConfig ∧
      clientConfig.reqs = clientReqs ++ serverReqs ∧
      Session.Agreement ⟨clientConfig, clientReqs.length, clientAllow⟩
        ⟨serverConfig, serverReqs.length, serverAllow⟩ := by
  rw [hserver.sent hserverCount] at hclientReads
  rw [hclient.sent hclientCount] at hserverReads
  exact ⟨_, _, hclient.exchanged hclientCount hserverReqs hserverCount hclientReads,
    hserver.exchanged hserverCount hclientReqs hclientCount hserverReads, rfl,
    agreement_of_combine hclientCount hserverCount⟩

/-- The client asks for a tunnel in each direction, the server for one, and both read a byte at a
time. -/
theorem tunnelConfig_agreement_bytewise :
    let forth : TunnelRequest := ⟨.L, ascii "127.0.0.1:8080", ascii "10.0.0.7:80"⟩
    let back : TunnelRequest := ⟨.R, ascii ":2222", ascii "localhost:22"⟩
    let allow : TunnelAllow := ⟨false, [ascii ":2222"], [ascii "10.0.0.7:80"], []⟩
    let client : ControlStream :=
      ⟨.opened, fun _ => .done, .bytewise (configText [forth] allow), .silent⟩
    let server : ControlStream :=
      ⟨.opened, fun _ => .done, .bytewise (configText [forth, back] allow), .fin⟩
    ∃ clientConfig serverConfig,
      (exchangeTunnelConfig client [forth, back] allow false).2 = .ok clientConfig ∧
      (exchangeTunnelConfig server [forth] allow true).2 = .ok serverConfig ∧
      clientConfig.reqs = [forth, back] ++ [forth] ∧
      Session.Agreement ⟨clientConfig, 2, allow⟩ ⟨serverConfig, 1, allow⟩ := by
  intro forth back allow client server
  have hforth : forth.Sendable := ⟨within_of_all (by decide), within_of_all (by decide), by decide⟩
  have hback : back.Sendable := ⟨within_of_all (by decide), within_of_all (by decide), by decide⟩
  have hclient : client.Works := ⟨rfl, fun _ => rfl⟩
  have hserver : server.Works := ⟨rfl, fun _ => rfl⟩
  refine tunnelConfig_agreement hclient hserver ?_ ?_ (by decide) (by decide) ?_ ?_
  · intro req hreq
    rcases List.mem_cons.mp hreq with rfl | hreq
    · exact hforth
    · exact List.mem_singleton.mp hreq ▸ hback
  · intro req hreq
    exact List.mem_singleton.mp hreq ▸ hforth
  · rw [hserver.sent (by decide)]
    exact Source.bytes_bytewise _
  · rw [hclient.sent (by decide)]
    exact Source.bytes_bytewise _

end Qvole.Tunnel
