import Qvole.Tunnel.Proof.Allowlist
import Qvole.Tunnel.Proof.Config
import Qvole.Tunnel.Proof.Spec

/-!
# Validated specs on the wire

A spec that passes validation becomes a request, the request a line, and the line what the peer reads.
The line is cut at blanks and the peer keeps printable bytes only, while the validator looks at the
ports alone. So the peer gets the request that was meant exactly when the spec is printable, the host
to listen on has no blank in it, and the line fits.
-/

namespace Qvole.Tunnel

open Outcome (mapErr)

/-! ### Which requests arrive -/

section Wire

variable {ending : Ending} {source : Source} {req : TunnelRequest}

theorem mem_parseAddr {s : Bytes} {c : UInt8} (h : c ∈ parseAddr s) : 32 ≤ c ∧ c ≤ 126 := by
  rw [parseAddr, List.mem_filter, Bool.and_eq_true, decide_eq_true_eq, decide_eq_true_eq] at h
  obtain ⟨-, hlow, hhigh⟩ := h
  have hhigh : c.toNat < 127 := hhigh
  exact ⟨hlow, show c.toNat ≤ 126 by omega⟩

theorem parseRequestLine_eq_ok {text : Bytes} (h : parseRequestLine text = .ok req) :
    ∃ typ listen target, splitThree text = some (typ, listen, target) ∧
      req.listenAddr = parseAddr listen ∧ req.targetAddr = parseAddr target := by
  unfold parseRequestLine at h
  split at h
  · cases h
  · rename_i typ listen target hsplit
    split at h
    · cases h
    · obtain rfl := Except.ok.inj h
      exact ⟨typ, listen, target, hsplit, rfl, rfl⟩

/-- What is read behind some requests starts with them, and all else is printable. -/
theorem requestsOf_spec {fuel : Nat} {reqs out : List TunnelRequest} {b : Bytes}
    (h : requestsOf ending fuel reqs b = .ok out) :
    reqs <+: out ∧ ∀ r ∈ out, r ∈ reqs ∨ r.Printable := by
  induction fuel generalizing reqs b with
  | zero => cases h
  | succ fuel ih =>
      rw [requestsOf, Outcome.bind_eq_ok] at h
      obtain ⟨⟨line, rest⟩, -, h⟩ := h
      have hdone : ∀ {out'}, (Except.ok reqs : Outcome TunnelRequestError _) = .ok out' →
          reqs <+: out' ∧ ∀ r ∈ out', r ∈ reqs ∨ r.Printable := by
        intro out' hout
        obtain rfl := Except.ok.inj hout
        exact ⟨List.prefix_refl _, fun r hr => Or.inl hr⟩
      simp only at h
      split at h
      · exact hdone h
      · split at h
        · exact hdone h
        · split at h
          · cases h
          · rw [Outcome.bind_eq_ok] at h
            obtain ⟨req, hreq, h⟩ := h
            obtain ⟨typ, listen, target, -, hlisten, htarget⟩ := parseRequestLine_eq_ok hreq
            obtain ⟨hfront, hout⟩ := ih h
            refine ⟨(List.prefix_append reqs [req]).trans hfront, fun r hr => ?_⟩
            rcases hout r hr with hmem | hprintable
            · rcases List.mem_append.mp hmem with hold | hnew
              · exact Or.inl hold
              · obtain rfl := List.mem_singleton.mp hnew
                refine Or.inr ⟨fun c hc => ?_, fun c hc => ?_⟩
                · exact mem_parseAddr (hlisten ▸ hc)
                · exact mem_parseAddr (htarget ▸ hc)
            · exact Or.inr hprintable

/-- The line of a request whose listen address has a blank means another request. -/
theorem no_blank_of_parse (h : parseRequestLine req.line = .ok req) : 32 ∉ req.listenAddr := by
  intro hblank
  obtain ⟨typ, listen, target, hsplit, hlisten, -⟩ := parseRequestLine_eq_ok h
  obtain ⟨front, rest, heq, hfront⟩ := List.eq_append_cons_of_mem hblank
  have htyp : (32 : UInt8) ∉ req.typ.text := fun hmem =>
    absurd (req.typ.text_printable 32 hmem).1 (by decide)
  have hfirst := Bytes.splitOnce_append htyp (req.listenAddr ++ 32 :: req.targetAddr)
  have hsecond : Bytes.splitOnce 32 (req.listenAddr ++ 32 :: req.targetAddr) =
      (front, some (rest ++ 32 :: req.targetAddr)) := by
    rw [heq, List.append_assoc]
    exact Bytes.splitOnce_append hfront _
  simp only [splitThree, TunnelRequest.line, hfirst, hsecond, Option.some.injEq,
    Prod.mk.injEq] at hsplit
  obtain ⟨-, rfl, -⟩ := hsplit
  have hshorter : req.listenAddr.length ≤ front.length := by
    rw [hlisten]
    exact List.length_filter_le _ front
  rw [heq, List.length_append, List.length_cons] at hshorter
  omega

/-- **Requests that arrive.** The peer reads the line of a request as the request if and only if the
addresses are printable, the first has no blank, and the line fits. -/
theorem readRequests_iff_sendable (hsource : source.bytes = requestsText [req]) :
    readRequestsFromStream ending source = .ok [req] ↔ req.Sendable := by
  constructor
  · intro hread
    rw [readRequestsFromStream_eq] at hread
    have hprintable : req.Printable := by
      rcases (requestsOf_spec hread).2 req List.mem_cons_self with hmem | hprintable
      · cases hmem
      · exact hprintable
    have hline := hprintable.line
    have hlf : (10 : UInt8) ∉ req.line := notMem_of_printable hline (by decide)
    have htext : requestsText [req] = req.line ++ 10 :: requestsText [] := by simp [requestsText]
    rw [hsource, htext, requestsOf] at hread
    by_cases hlong : req.line.length > scannerMaxTokenSize
    · simp [cutLine, Bytes.splitOnce_append hlf, hlong, Outcome.bind_eq_ok, Outcome.fail] at hread
    · have hshort : req.line.length ≤ scannerMaxTokenSize := Nat.le_of_not_lt hlong
      have hnonempty : req.line ++ [10] ≠ [] := by simp
      rw [cutLine_append hlf hshort, Outcome.ok_bind] at hread
      simp only [stripEol_append_lf hline, if_neg hnonempty, if_neg req.line_ne_end,
        List.length_nil, List.nil_append] at hread
      rw [if_neg (by decide), Outcome.bind_eq_ok] at hread
      obtain ⟨first, hfirst, hrest⟩ := hread
      obtain ⟨more, hmore⟩ := (requestsOf_spec hrest).1
      obtain rfl : first = req := (List.cons.inj hmore).1
      have hblank := no_blank_of_parse hfirst
      refine ⟨fun c hc => ?_, hprintable.2, hshort⟩
      exact graphic_of_printable (hprintable.1 c hc) fun heq => hblank (heq ▸ hc)
  · intro hsendable
    refine readRequests_text (fun r hr => ?_) (Nat.succ_le_succ (Nat.zero_le 99)) hsource
    rw [List.mem_singleton.mp hr]
    exact hsendable

/-- The addresses that the allowlist is asked about are ASCII, and for these the comparison is the one
with all of Unicode. -/
theorem allowMatch_of_peer {lower : Bytes → Bytes} (hlower : Lowercases lower)
    {reqs : List TunnelRequest} (hread : readRequestsFromStream ending source = .ok reqs)
    (hreq : req ∈ reqs) (entries : List Bytes) :
    allowMatchBy lower entries req.listenAddr = allowMatch entries req.listenAddr ∧
      allowMatchBy lower entries req.targetAddr = allowMatch entries req.targetAddr := by
  rw [readRequestsFromStream_eq] at hread
  have hprintable : req.Printable := by
    rcases (requestsOf_spec hread).2 req hreq with hnone | hprintable
    · cases hnone
    · exact hprintable
  have hascii : ∀ {addr : Bytes}, (∀ c ∈ addr, 32 ≤ c ∧ c ≤ 126) → ∀ c ∈ addr, c ≤ 127 :=
    fun haddr c hc => UInt8.le_trans (haddr c hc).2 (by decide)
  exact ⟨allowMatchBy_eq hlower entries (hascii hprintable.1),
    allowMatchBy_eq hlower entries (hascii hprintable.2)⟩

end Wire

/-! ### From specs to requests -/

section Specs

variable {spec : Bytes} {typ : TunnelType} {req : TunnelRequest}

/-- A request has a host from the spec or the default one, and the ports and the target host from the
spec. -/
theorem parseTunnelRequest_eq_ok (h : parseTunnelRequest spec typ = .ok req) :
    ∃ front host lport raddr rport,
      splitTunnelRequest spec = some (front ++ [lport, raddr, rport]) ∧
      (front = [] ∧ host = defaultHost ∨
        ∃ laddr, front = [laddr] ∧ host = listenHost (stripBrackets laddr)) ∧
      req.listenAddr = joinHostPort host lport ∧
      req.targetAddr = joinHostPort (stripBrackets raddr) rport := by
  unfold parseTunnelRequest at h
  cases hsplit : splitTunnelRequest spec with
  | none =>
      rw [hsplit] at h
      cases h
  | some parts =>
      rw [hsplit, Option.getD_some] at h
      split at h
      · rename_i lport raddr rport
        obtain rfl := Except.ok.inj h
        exact ⟨[], _, lport, raddr, rport, rfl, Or.inl ⟨rfl, rfl⟩, rfl, rfl⟩
      · rename_i laddr lport raddr rport
        obtain rfl := Except.ok.inj h
        exact ⟨[laddr], _, lport, raddr, rport, rfl, Or.inr ⟨laddr, rfl, rfl⟩, rfl, rfl⟩
      · cases h

theorem validateAddr_eq_ok {addr : Bytes} (h : validateAddr addr = .ok ()) :
    ∃ host port, splitHostPort addr = some (host, port) ∧ validPort port = true := by
  rw [validateAddr, Outcome.bind_eq_ok] at h
  obtain ⟨⟨host, port⟩, hsplit, h⟩ := h
  refine ⟨host, port, splitHostPort_of_resolver (Outcome.mapErr_eq_ok.mp hsplit), ?_⟩
  simp only at h
  split at h
  · assumption
  · cases h

theorem validateTunnelSpec_eq_ok (h : validateTunnelSpec spec typ = .ok ()) :
    ∃ req, parseTunnelRequest spec typ = .ok req ∧ validateAddr req.listenAddr = .ok () ∧
      validateAddr req.targetAddr = .ok () := by
  rw [validateTunnelSpec, Outcome.bind_eq_ok] at h
  obtain ⟨req, hparsed, h⟩ := h
  obtain ⟨⟨⟩, hlisten, htarget⟩ := Outcome.bind_eq_ok.mp h
  exact ⟨req, Outcome.mapErr_eq_ok.mp hparsed, hlisten, htarget⟩

/-- The digits behind a sign. -/
def unsigned (port : Bytes) : Bytes :=
  if port.head? = some 43 ∨ port.head? = some 45 then port.drop 1 else port

theorem mem_unsigned {port : Bytes} {c : UInt8} (h : c ∈ port) :
    c = 43 ∨ c = 45 ∨ c ∈ unsigned port := by
  unfold unsigned
  split
  · rename_i hsign
    cases port with
    | nil => cases h
    | cons sign digits =>
        rcases List.mem_cons.mp h with rfl | h
        · rcases hsign with hplus | hminus
          · exact Or.inl (Option.some.inj hplus)
          · exact Or.inr (Or.inl (Option.some.inj hminus))
        · exact Or.inr (Or.inr h)
  · exact Or.inr (Or.inr h)

theorem validPort_digits {port : Bytes} (h : validPort port = true) :
    ∀ c ∈ unsigned port, (toDigit 10 c).isSome := by
  obtain ⟨p, hp, -⟩ := (Option.any_eq_true _ _).mp h
  change (if unsigned port = [] then none
    else if (unsigned port).any fun c => (toDigit 10 c).isNone then none else _) = some p at hp
  split at hp
  · cases hp
  · split at hp
    · cases hp
    · rename_i hdigits
      simpa [List.any_eq_true, Option.isSome_iff_ne_none] using hdigits

theorem validPort_no_blank {port : Bytes} (h : validPort port = true) : 32 ∉ port := by
  intro hblank
  rcases mem_unsigned hblank with hplus | hminus | hdigit
  · cases hplus
  · cases hminus
  · exact absurd (validPort_digits h 32 hdigit) (by decide)

/-- The validator looks at the port of the spec. -/
theorem port_of_join {host port host' port' : Bytes} (hcolon : 58 ∈ port → 91 ∈ port)
    (h : IsHostPort (joinHostPort host port) host' port') : port = port' := by
  have hjoin : ∃ front, joinHostPort host port = front ++ 58 :: port := by
    unfold joinHostPort
    split
    · exact ⟨91 :: (host ++ [93]), by simp [ascii, Char.byte]⟩
    · exact ⟨host, by simp [ascii, Char.byte]⟩
  have hsplit : ∃ front', joinHostPort host port = front' ++ 58 :: port' ∧ 58 ∉ port' := by
    rcases h with ⟨heq, -, hbare⟩ | ⟨heq, -, -, hbare⟩
    · exact ⟨host', heq, hbare.1⟩
    · exact ⟨91 :: (host' ++ [93]), by rw [heq]; simp, hbare.1⟩
  obtain ⟨front, hfront⟩ := hjoin
  obtain ⟨front', hfront', hport'⟩ := hsplit
  -- a bracket behind the first byte rules out both forms
  have hopen : 91 ∉ port := by
    intro hmem
    have htail : (91 : UInt8) ∈ (joinHostPort host port).drop 1 := by
      rw [hfront]
      cases front with
      | nil => exact hmem
      | cons c front => exact List.mem_append_right _ (List.mem_cons_of_mem _ hmem)
    rcases h with ⟨heq, hbareHost, hbare⟩ | ⟨heq, hhost, -, hbare⟩
    · have := List.mem_of_mem_drop htail
      rw [heq] at this
      simp [hbareHost.2.1, hbare.2.1] at this
    · rw [heq] at htail
      simp [hhost, hbare.2.1] at htail
  have hport : 58 ∉ port := fun hmem => hopen (hcolon hmem)
  have hlast := Bytes.rposition_eq_some_iff.mpr ⟨front, port, hfront, hport, rfl⟩
  have hlast' := Bytes.rposition_eq_some_iff.mpr ⟨front', port', hfront', hport', rfl⟩
  have hlength : front.length = front'.length := Option.some.inj (hlast.symm.trans hlast')
  have hsame := List.append_inj_right (hfront.symm.trans hfront') hlength
  exact (List.cons.inj hsame).2

/-- How many bytes a host takes on the line: without brackets of its own, and with two of them around
a colon. -/
def hostLength (host : Bytes) : Nat := (stripBrackets host).length + if host.contains 58 then 2 else 0

/-- How many bytes the line of a spec takes, by the parts of the spec. -/
def lineLength : List Bytes → Nat
  | [lport, raddr, rport] =>
      defaultHost.length + lport.length + hostLength raddr + rport.length + 5
  | [laddr, lport, raddr, rport] =>
      (if stripBrackets laddr = [] then defaultHost.length else hostLength laddr) + lport.length +
        hostLength raddr + rport.length + 5
  | _ => 0

/-- What the line format can carry of a spec: printable bytes, in a host to listen on no blank, and
not too many of them. -/
structure SpecFits (spec : Bytes) : Prop where
  printable : ∀ c ∈ spec, 32 ≤ c ∧ c ≤ 126
  listenHost : ∀ laddr lport raddr rport,
    splitTunnelRequest spec = some [laddr, lport, raddr, rport] → 32 ∉ laddr
  length : ∀ parts, splitTunnelRequest spec = some parts → lineLength parts ≤ scannerMaxTokenSize

theorem splitTunnelRequest_parts {parts : List Bytes} (h : splitTunnelRequest spec = some parts) :
    (∀ p ∈ parts, ∀ c ∈ p, c ∈ spec) ∧ (∀ c ∈ spec, c = 58 ∨ ∃ p ∈ parts, c ∈ p) ∧
      ∀ p ∈ parts, 58 ∈ p → 91 ∈ p := by
  obtain ⟨-, hjoin⟩ := splitSpecFrom_join h
  rw [List.nil_append] at hjoin
  refine ⟨fun p hp c hc => ?_, fun c hc => ?_, splitSpecFrom_open_of_colon h (by simp)⟩
  · rw [← hjoin]
    exact mem_intercalate_of_mem hp hc
  · rw [← hjoin] at hc
    exact mem_intercalate hc

theorem mem_listenHost {c : UInt8} {laddr : Bytes} (h : c ∈ listenHost (stripBrackets laddr)) :
    c ∈ laddr ∨ c ∈ defaultHost := by
  unfold listenHost at h
  split at h
  · exact Or.inr h
  · exact Or.inl (mem_of_mem_stripBrackets h)

theorem mem_laddr {c : UInt8} {laddr : Bytes} (h : c ∈ laddr) :
    c ∈ listenHost (stripBrackets laddr) ∨ c = 91 ∨ c = 93 := by
  rcases mem_stripBrackets h with hstripped | hbracket
  · refine Or.inl ?_
    unfold listenHost
    rwa [if_neg (List.ne_nil_of_mem hstripped)]
  · exact Or.inr hbracket

/-- The parts of a validated spec, and what they make of the request. -/
structure Parsed (spec : Bytes) (req : TunnelRequest) (front : List Bytes)
    (host lport raddr rport : Bytes) : Prop where
  split : splitTunnelRequest spec = some (front ++ [lport, raddr, rport])
  hostFrom : front = [] ∧ host = defaultHost ∨
    ∃ laddr, front = [laddr] ∧ host = listenHost (stripBrackets laddr)
  listen : req.listenAddr = joinHostPort host lport
  target : req.targetAddr = joinHostPort (stripBrackets raddr) rport
  port : validPort lport = true

theorem parsed_of_valid (hvalid : validateTunnelSpec spec typ = .ok ())
    (hparsed : parseTunnelRequest spec typ = .ok req) :
    ∃ front host lport raddr rport, Parsed spec req front host lport raddr rport := by
  obtain ⟨front, host, lport, raddr, rport, hsplit, hhost, hlisten, htarget⟩ :=
    parseTunnelRequest_eq_ok hparsed
  refine ⟨front, host, lport, raddr, rport, hsplit, hhost, hlisten, htarget, ?_⟩
  obtain ⟨req', hparsed', hvalidListen, -⟩ := validateTunnelSpec_eq_ok hvalid
  obtain rfl : req' = req := Except.ok.inj (hparsed'.symm.trans hparsed)
  obtain ⟨host', port', hsplit', hport'⟩ := validateAddr_eq_ok hvalidListen
  rw [hlisten] at hsplit'
  have hcolon := (splitTunnelRequest_parts hsplit).2.2 lport (by simp)
  rw [port_of_join hcolon (splitHostPort_eq_some_iff.mp hsplit')]
  exact hport'

variable {front : List Bytes} {host lport raddr rport : Bytes}

theorem contains_stripBrackets (part : Bytes) :
    (stripBrackets part).contains 58 = part.contains 58 := by
  rw [Bool.eq_iff_iff, List.contains_iff_mem, List.contains_iff_mem]
  constructor
  · exact mem_of_mem_stripBrackets
  · intro hcolon
    rcases mem_stripBrackets hcolon with hmem | hopen | hclose
    · exact hmem
    · cases hopen
    · cases hclose

theorem length_joinHostPort (host port : Bytes) :
    (joinHostPort host port).length =
      host.length + (if host.contains 58 then 2 else 0) + port.length + 1 := by
  unfold joinHostPort
  split
  · simp [ascii]
    omega
  · simp [ascii]
    omega

theorem length_joinHostPort_stripBrackets (host port : Bytes) :
    (joinHostPort (stripBrackets host) port).length = hostLength host + port.length + 1 := by
  simp only [length_joinHostPort, hostLength, contains_stripBrackets]

theorem length_joinHostPort_defaultHost (port : Bytes) :
    (joinHostPort defaultHost port).length = defaultHost.length + port.length + 1 := by
  rw [length_joinHostPort, if_neg (by decide)]
  omega

/-- The bytes of the line can be counted in the spec. -/
theorem Parsed.length_line (h : Parsed spec req front host lport raddr rport) :
    req.line.length = lineLength (front ++ [lport, raddr, rport]) := by
  have htyp : req.typ.text.length = 1 := by cases req.typ <;> rfl
  have htarget := length_joinHostPort_stripBrackets raddr rport
  rw [TunnelRequest.line, h.listen, h.target, List.length_append, htyp, List.length_cons,
    List.length_append, List.length_cons, htarget]
  rcases h.hostFrom with ⟨rfl, rfl⟩ | ⟨laddr, rfl, rfl⟩
  · simp only [List.nil_append, lineLength, length_joinHostPort_defaultHost]
    omega
  · simp only [List.cons_append, List.nil_append, lineLength, listenHost]
    split
    · rw [length_joinHostPort_defaultHost]
      omega
    · rw [length_joinHostPort_stripBrackets]
      omega

theorem printable_joinHostPort {host port : Bytes} (hhost : ∀ c ∈ host, 32 ≤ c ∧ c ≤ 126)
    (hport : ∀ c ∈ port, 32 ≤ c ∧ c ≤ 126) : ∀ c ∈ joinHostPort host port, 32 ≤ c ∧ c ≤ 126 := by
  intro c hc
  rcases mem_joinHostPort.mp hc with hc | rfl | hc | ⟨-, rfl | rfl⟩
  · exact hhost c hc
  · decide
  · exact hport c hc
  · decide
  · decide

theorem blank_notMem_joinHostPort {host port : Bytes} (hhost : 32 ∉ host) (hport : 32 ∉ port) :
    32 ∉ joinHostPort host port := by
  intro hmem
  rcases mem_joinHostPort.mp hmem with hmem | hmem | hmem | ⟨-, hmem | hmem⟩
  · exact hhost hmem
  · cases hmem
  · exact hport hmem
  · cases hmem
  · cases hmem

/-- The host to listen on comes from the spec, or it is the default one. -/
theorem Parsed.host_fits (h : Parsed spec req front host lport raddr rport) (hfits : SpecFits spec) :
    (∀ c ∈ host, 32 ≤ c ∧ c ≤ 126) ∧ 32 ∉ host := by
  have hdefault : ∀ c ∈ defaultHost, 32 ≤ c ∧ c ≤ 126 := within_of_all (by decide)
  rcases h.hostFrom with ⟨-, rfl⟩ | ⟨laddr, rfl, rfl⟩
  · exact ⟨hdefault, by decide⟩
  · constructor
    · intro c hc
      rcases mem_listenHost hc with hc | hc
      · exact hfits.printable c ((splitTunnelRequest_parts h.split).1 laddr (by simp) c hc)
      · exact hdefault c hc
    · intro hblank
      rcases mem_listenHost hblank with hblank | hblank
      · exact hfits.listenHost laddr lport raddr rport h.split hblank
      · exact absurd hblank (by decide)

theorem Parsed.sendable (h : Parsed spec req front host lport raddr rport) (hfits : SpecFits spec) :
    req.Sendable := by
  have hpart : ∀ p ∈ front ++ [lport, raddr, rport], ∀ c ∈ p, 32 ≤ c ∧ c ≤ 126 := fun p hp c hc =>
    hfits.printable c ((splitTunnelRequest_parts h.split).1 p hp c hc)
  obtain ⟨hhost, hhostBlank⟩ := h.host_fits hfits
  have hlisten := printable_joinHostPort hhost (hpart lport (by simp))
  have hblank := blank_notMem_joinHostPort hhostBlank (validPort_no_blank h.port)
  have hraddr : ∀ c ∈ stripBrackets raddr, 32 ≤ c ∧ c ≤ 126 := fun c hc =>
    hpart raddr (by simp) c (mem_of_mem_stripBrackets hc)
  refine ⟨fun c hc => ?_, ?_, h.length_line ▸ hfits.length _ h.split⟩
  · rw [h.listen] at hc
    exact graphic_of_printable (hlisten c hc) fun heq => hblank (heq ▸ hc)
  · rw [h.target]
    exact printable_joinHostPort hraddr (hpart rport (by simp))

theorem Parsed.fits (h : Parsed spec req front host lport raddr rport) (hsendable : req.Sendable) :
    SpecFits spec := by
  have hlisten : ∀ c ∈ joinHostPort host lport, 33 ≤ c ∧ c ≤ 126 := h.listen ▸ hsendable.listen
  have htarget : ∀ c ∈ joinHostPort (stripBrackets raddr) rport, 32 ≤ c ∧ c ≤ 126 :=
    h.target ▸ hsendable.target
  have hbracket : ∀ c : UInt8, c = 91 ∨ c = 93 → 33 ≤ c ∧ c ≤ 126 := by
    rintro c (rfl | rfl)
    · decide
    · decide
  have hladdr : ∀ laddr, front = [laddr] → ∀ c ∈ laddr, 33 ≤ c ∧ c ≤ 126 := by
    intro laddr hfront c hc
    rcases h.hostFrom with ⟨hnone, -⟩ | ⟨laddr', hfront', rfl⟩
    · cases hnone.symm.trans hfront
    · obtain rfl : laddr' = laddr := (List.cons.inj (hfront'.symm.trans hfront)).1
      rcases mem_laddr hc with hhost | hc
      · exact hlisten c (mem_joinHostPort.mpr (Or.inl hhost))
      · exact hbracket c hc
  refine ⟨fun c hc => ?_, fun laddr lport' raddr' rport' hfour hblank => ?_, fun parts hparts => ?_⟩
  · rcases (splitTunnelRequest_parts h.split).2.1 c hc with rfl | ⟨p, hp, hc⟩
    · decide
    · rcases List.mem_append.mp hp with hfront | hparts
      · rcases h.hostFrom with ⟨rfl, -⟩ | ⟨laddr, rfl, -⟩
        · cases hfront
        · rw [List.mem_singleton.mp hfront] at hc
          exact printable_of_graphic (hladdr laddr rfl c hc)
      · simp only [List.mem_cons, List.not_mem_nil, or_false] at hparts
        rcases hparts with rfl | rfl | rfl
        · exact printable_of_graphic (hlisten c (mem_joinHostPort.mpr (Or.inr (Or.inr (Or.inl hc)))))
        · rcases mem_stripBrackets hc with hhost | hc
          · exact htarget c (mem_joinHostPort.mpr (Or.inl hhost))
          · exact printable_of_graphic (hbracket c hc)
        · exact htarget c (mem_joinHostPort.mpr (Or.inr (Or.inr (Or.inl hc))))
  · have hparts := Option.some.inj (h.split.symm.trans hfour)
    have hfront : front = [laddr] := by
      rcases h.hostFrom with ⟨rfl, -⟩ | ⟨laddr', rfl, -⟩
      · simp at hparts
      · simpa using (List.cons.inj hparts).1
    exact absurd (hladdr laddr hfront 32 hblank).1 (by decide)
  · obtain rfl := Option.some.inj (h.split.symm.trans hparts)
    exact h.length_line ▸ hsendable.length

/-- **Which validated specs arrive.** The peer reads the request of a spec that passed validation if
and only if the line can carry the spec. -/
theorem spec_delivered_iff {ending : Ending} {source : Source}
    (hvalid : validateTunnelSpec spec typ = .ok ())
    (hparsed : parseTunnelRequest spec typ = .ok req)
    (hsource : source.bytes = requestsText [req]) :
    readRequestsFromStream ending source = .ok [req] ↔ SpecFits spec := by
  obtain ⟨front, host, lport, raddr, rport, h⟩ := parsed_of_valid hvalid hparsed
  rw [readRequests_iff_sendable hsource]
  exact ⟨h.fits, h.sendable⟩

def spacedTarget : TunnelRequest := ⟨.R, ascii "127.0.0.1:8080", ascii "a b:80"⟩

/-- A blank in the host to dial is carried along. -/
theorem spec_delivered_iff_spaced :
    validateTunnelSpec (ascii "8080:a b:80") .R = .ok () ∧
      readRequestsFromStream .fin (Source.bytewise (requestsText [spacedTarget])) =
        .ok [spacedTarget] := by
  have hvalid : validateTunnelSpec (ascii "8080:a b:80") .R = .ok () := by decide
  have hparsed : parseTunnelRequest (ascii "8080:a b:80") .R = .ok spacedTarget := by decide
  refine ⟨hvalid, (spec_delivered_iff hvalid hparsed (Source.bytes_bytewise _)).mpr ?_⟩
  have hthree : splitTunnelRequest (ascii "8080:a b:80") =
      some [ascii "8080", ascii "a b", ascii "80"] := by decide
  refine ⟨within_of_all (by decide), fun laddr lport raddr rport hfour => ?_, fun parts hparts => ?_⟩
  · cases hthree.symm.trans hfour
  · obtain rfl := Option.some.inj (hthree.symm.trans hparts)
    decide

def spacedListen : TunnelRequest := ⟨.L, ascii "a b:8080", ascii "h:80"⟩

/-- A blank in the host to listen on moves the rest of it to the target, and nobody is told. -/
theorem blank_host_misread :
    validateTunnelSpec (ascii "a b:8080:h:80") .L = .ok () ∧
      parseTunnelRequest (ascii "a b:8080:h:80") .L = .ok spacedListen ∧
      readRequestsFromStream .fin (Source.bytewise (requestsText [spacedListen])) =
        .ok [⟨.L, ascii "a", ascii "b:8080 h:80"⟩] ∧
      readRequestsFromStream .fin (Source.bytewise (requestsText [spacedListen])) ≠
        .ok [spacedListen] := by
  have hread : readRequestsFromStream .fin (Source.bytewise (requestsText [spacedListen])) =
      .ok [⟨.L, ascii "a", ascii "b:8080 h:80"⟩] := by
    rw [readRequestsFromStream_eq, Source.bytes_bytewise]
    decide
  refine ⟨by decide, by decide, hread, ?_⟩
  rw [hread]
  decide

end Specs

end Qvole.Tunnel
