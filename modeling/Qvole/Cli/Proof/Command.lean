import Qvole.Cli.Command
import Qvole.Cli.Proof.Flags
import Qvole.Net.Proof.RoundTrip
import Qvole.Tunnel.Proof.Delivered

/-!
# The command for the peer

The printed command, cut at its spaces and read by the flag parser of the other side, gives an
allowlist with an entry for every request of this side, and with no other.
-/

namespace Qvole.Cli

open Qvole.Spake2 (CodeError generateCode fourDigits)
open Tunnel (TunnelAllow TunnelRequest TunnelType parseTunnelRequest validateTunnelSpec validateAddr
  requestsText readRequestsFromStream)

/-! ### Generated codes -/

section Codes

variable {words : List Bytes} {draws : List UInt16} {code : Bytes}

theorem fourDigits_no_blank (n : Nat) : 32 ∉ fourDigits n := by
  intro hmem
  rcases List.mem_append.mp hmem with hzero | hdigit
  · exact absurd (List.eq_of_mem_replicate hzero) (by decide)
  · exact absurd ((digitsText_spec (Or.inl rfl) n).1 32 hdigit) (by decide)

theorem generateCode_no_blank (hwords : ∀ w ∈ words, ∀ c ∈ w, 97 ≤ c ∧ c ≤ 122)
    (hcode : generateCode words draws = .ok code) : 32 ∉ code := by
  have hword : ∀ {o : Option Nat} {w : Bytes}, o.bind (words[·]?) = some w → 32 ∉ w := by
    intro o w hw hmem
    obtain ⟨i, -, hget⟩ := Option.bind_eq_some_iff.mp hw
    exact absurd (hwords w (List.mem_of_getElem? hget) 32 hmem).1 (by decide)
  simp only [generateCode, Outcome.bind_eq_ok, Outcome.expect_eq_ok] at hcode
  obtain ⟨vals, -, number, -, first, hfirst, second, hsecond, third, hthird, heq⟩ := hcode
  obtain rfl := Except.ok.inj heq
  simp only [List.mem_append, List.mem_cons, not_or]
  exact ⟨fourDigits_no_blank number, by decide, hword hfirst, by decide, hword hsecond, by decide,
    hword hthird⟩

end Codes

/-! ### Flags with a value behind them -/

section Flags

variable {specs : List FlagSpec} {spec : FlagSpec}

def flagArgs (flag : Bytes) (vs : List Bytes) : List Bytes := vs.flatMap fun v => [flag, v]

theorem mem_flagArgs {flag w : Bytes} {vs : List Bytes} (h : w ∈ flagArgs flag vs) :
    w = flag ∨ w ∈ vs := by
  obtain ⟨v, hv, hw⟩ := List.mem_flatMap.mp h
  rcases List.mem_cons.mp hw with rfl | hw
  · exact Or.inl rfl
  · exact Or.inr (List.mem_singleton.mp hw ▸ hv)

theorem commandLine_flagArgs {settings : List Setting} {args : List Bytes} (hmem : spec ∈ specs)
    (hty : spec.ty = .slice) (vs : List Bytes) (h : CommandLine specs settings args) :
    CommandLine specs (vs.map (.slice spec.name) ++ settings)
      (flagArgs ([45] ++ spec.name) vs ++ args) := by
  induction vs with
  | nil => exact h
  | cons v vs ih =>
      have hgroup : Written specs (.slice spec.name v) [[45] ++ spec.name, v] :=
        .next hmem (Or.inr ⟨hty, rfl⟩) (Or.inl rfl)
      rw [flagArgs, List.flatMap_cons, List.append_assoc, List.map_cons, List.cons_append]
      exact .set hgroup ih

theorem filterMap_sliceOf (flag name : Bytes) (vs : List Bytes) :
    (vs.map (.slice flag)).filterMap (Setting.sliceOf name) = if flag = name then vs else [] := by
  rw [List.filterMap_map]
  by_cases hflag : flag = name
  · simp [hflag, Setting.sliceOf]
  · simp [hflag, Setting.sliceOf]

theorem filterMap_boolOf (flag name : Bytes) (vs : List Bytes) :
    (vs.map (.slice flag)).filterMap (Setting.boolOf name) = [] := by
  simp [List.filterMap_map, Function.comp_def, Setting.boolOf]

theorem collected_getD (vs : List Bytes) : (collected vs).getD [] = vs := by
  unfold collected
  split
  · rename_i hnil
    exact hnil.symm
  · rfl

/-- What the peer reads of a list of entries to allow. -/
theorem parseFlags_allow {aL aF : List Bytes} (haL : ∀ v ∈ aL, Bytes.isUtf8 v = true)
    (haF : ∀ v ∈ aF, Bytes.isUtf8 v = true) :
    ∃ values, parseFlags (flagArgs (ascii "-aL") aL ++ flagArgs (ascii "-aF") aF)
        (flagSpecsFor .tunnel) = .ok values ∧
      tunnelAllow values = { all := false, listen := aL, forward := aF, forwardRules := [] } := by
  have hmemL : specsALFlag ∈ flagSpecsFor .tunnel := by simp [flagSpecsFor]
  have hmemF : specsAFFlag ∈ flagSpecsFor .tunnel := by simp [flagSpecsFor]
  have hline := commandLine_flagArgs hmemL rfl aL (commandLine_flagArgs hmemF rfl aF .finish)
  rw [List.append_nil, List.append_nil] at hline
  have hutf8 : ∀ arg ∈ flagArgs (ascii "-aL") aL ++ flagArgs (ascii "-aF") aF,
      Bytes.isUtf8 arg = true := by
    intro arg harg
    rcases List.mem_append.mp harg with hmem | hmem
    · rcases mem_flagArgs hmem with rfl | hv
      · decide
      · exact haL arg hv
    · rcases mem_flagArgs hmem with rfl | hv
      · decide
      · exact haF arg hv
  refine ⟨_, hline.parse (flagTable_flagSpecsFor .tunnel) hutf8, ?_⟩
  simp only [tunnelAllow, FlagValues.bool, FlagValues.slice, bools_foldl, slices_foldl,
    List.filterMap_append, filterMap_sliceOf, filterMap_boolOf, collected_getD]
  have hL : specsALFlag.name = ascii "aL" ∧ specsALFlag.name ≠ ascii "aF" := by decide
  have hF : specsAFFlag.name = ascii "aF" ∧ specsAFFlag.name ≠ ascii "aL" := by decide
  rw [if_pos hL.1, if_neg hF.2, if_neg hL.2, if_pos hF.1]
  simp

end Flags

/-! ### Validated specs -/

section Specs

variable {typ : TunnelType} {specs : List Bytes} {reqs : List TunnelRequest} {addr : Bytes}

/-- A request of that type whose addresses passed validation. -/
structure Validated (typ : TunnelType) (req : TunnelRequest) : Prop where
  typ_eq : req.typ = typ
  listen : validateAddr req.listenAddr = .ok ()
  target : validateAddr req.targetAddr = .ok ()

theorem typ_of_parse {spec : Bytes} {req : TunnelRequest}
    (h : parseTunnelRequest spec typ = .ok req) : req.typ = typ := by
  unfold parseTunnelRequest at h
  split at h
  · obtain rfl := Except.ok.inj h
    rfl
  · obtain rfl := Except.ok.inj h
    rfl
  · cases h

theorem parseTunnelRequests_of_valid (h : validateTunnelSpecs typ specs = .ok ()) :
    ∃ reqs, parseTunnelRequests typ specs = .ok reqs ∧ reqs.length = specs.length ∧
      ∀ req ∈ reqs, Validated typ req := by
  induction specs with
  | nil => exact ⟨[], rfl, rfl, by simp⟩
  | cons spec specs ih =>
      rw [validateTunnelSpecs, Outcome.bind_eq_ok] at h
      obtain ⟨⟨⟩, hspec, hspecs⟩ := h
      obtain ⟨reqs, hreqs, hlength, hvalid⟩ := ih hspecs
      obtain ⟨req, hreq, hlisten, htarget⟩ :=
        Tunnel.validateTunnelSpec_eq_ok (Outcome.mapErr_eq_ok.mp hspec)
      refine ⟨req :: reqs, ?_, by simp [hlength], ?_⟩
      · rw [parseTunnelRequests, hreq, Outcome.ok_bind, hreqs, Outcome.ok_bind]
        rfl
      · intro other hother
        rcases List.mem_cons.mp hother with rfl | hmem
        · exact ⟨typ_of_parse hreq, hlisten, htarget⟩
        · exact hvalid other hmem

theorem mem_pushNew {seen : List Bytes} {v e : Bytes} : e ∈ pushNew seen v ↔ e ∈ seen ∨ v = e := by
  unfold pushNew
  split
  · rename_i hin
    have hin : v ∈ seen := by simpa using hin
    constructor
    · exact Or.inl
    · rintro (he | rfl)
      · exact he
      · exact hin
  · rw [List.mem_append, List.mem_singleton, eq_comm]

/-- The entries are the addresses of the requests. -/
theorem peerEntries_spec (f : TunnelRequest → Bytes) (seen : List Bytes)
    (h : parseTunnelRequests typ specs = .ok reqs) :
    ∃ entries, peerEntries typ f seen specs = .ok entries ∧
      ∀ e, e ∈ entries ↔ e ∈ seen ∨ ∃ req ∈ reqs, f req = e := by
  induction specs generalizing seen reqs with
  | nil =>
      obtain rfl := Except.ok.inj h
      exact ⟨seen, rfl, by simp⟩
  | cons spec specs ih =>
      rw [parseTunnelRequests, Outcome.bind_eq_ok] at h
      obtain ⟨req, hreq, h⟩ := h
      rw [Outcome.bind_eq_ok] at h
      obtain ⟨reqs', hreqs, heq⟩ := h
      obtain rfl := Except.ok.inj heq
      obtain ⟨entries, hentries, hmem⟩ := ih (pushNew seen (f req)) hreqs
      refine ⟨entries, ?_, fun e => ?_⟩
      · rw [peerEntries, hreq, Outcome.ok_bind]
        exact hentries
      · rw [hmem, mem_pushNew, List.exists_mem_cons_iff, or_assoc]

theorem wellFormedEntry_of_valid (h : validateAddr addr = .ok ()) :
    TunnelAllow.wellFormedEntry addr = true := by
  obtain ⟨host, port, hsplit, hport⟩ := Tunnel.validateAddr_eq_ok h
  have hne : port ≠ [] := by
    rintro rfl
    exact absurd hport (by decide)
  simp [TunnelAllow.wellFormedEntry, hsplit, hne]

theorem allowMatch_self {entries : List Bytes} (h : validateAddr addr = .ok ())
    (hmem : addr ∈ entries) : Tunnel.allowMatch entries addr = true := by
  obtain ⟨host, port, hsplit, -⟩ := Tunnel.validateAddr_eq_ok h
  rw [Tunnel.allowMatch, Tunnel.allowMatchBy, hsplit]
  refine List.any_eq_true.mpr ⟨addr, hmem, ?_⟩
  simp [hsplit]

theorem validate_of_wellFormed {allow : TunnelAllow}
    (hlisten : ∀ e ∈ allow.listen, TunnelAllow.wellFormedEntry e = true)
    (hforward : ∀ e ∈ allow.forward, TunnelAllow.wellFormedEntry e = true) :
    allow.validate = .ok () := by
  have hnone : ∀ {entries : List Bytes}, (∀ e ∈ entries, TunnelAllow.wellFormedEntry e = true) →
      (entries.filter fun e => !TunnelAllow.wellFormedEntry e) = [] := by
    intro entries hentries
    rw [List.filter_eq_nil_iff]
    intro e he
    simp [hentries e he]
  rw [TunnelAllow.validate, hnone hlisten, hnone hforward]
  rfl

end Specs

/-! ### The text of the command -/

section Text

/-- What the shell hands to the subcommand. -/
def argsAfterTunnel (cmd : Bytes) : List Bytes :=
  ((cmd.splitOn 32).dropWhile (· ≠ ascii "tunnel")).drop 1

theorem intercalate_blank (w : Bytes) (ws : List Bytes) :
    [32].intercalate (w :: ws) = w ++ ws.flatMap fun v => 32 :: v := by
  induction ws generalizing w with
  | nil => simp
  | cons v ws ih =>
      rw [List.intercalate_cons_cons, ih, List.flatMap_cons]
      simp

theorem flatMap_flagArgs (flag : Bytes) (vs : List Bytes) :
    ((flagArgs flag vs).flatMap fun v => 32 :: v) = vs.flatMap fun v => 32 :: flag ++ 32 :: v := by
  rw [flagArgs, List.flatMap_assoc]
  simp

/-- Cut at its spaces, the command has the entries as arguments. -/
theorem argsAfterTunnel_command {code : Bytes} {aL aF : List Bytes} (hcode : 32 ∉ code)
    (haL : ∀ v ∈ aL, 32 ∉ v) (haF : ∀ v ∈ aF, 32 ∉ v) :
    argsAfterTunnel (ascii "QVOLE_CODE=" ++ code ++ ascii " qvole tunnel" ++
        (aL.flatMap fun v => ascii " -aL " ++ v) ++ aF.flatMap fun v => ascii " -aF " ++ v) =
      flagArgs (ascii "-aL") aL ++ flagArgs (ascii "-aF") aF := by
  have htext : ascii "QVOLE_CODE=" ++ code ++ ascii " qvole tunnel" ++
      (aL.flatMap fun v => ascii " -aL " ++ v) ++ (aF.flatMap fun v => ascii " -aF " ++ v) =
      [32].intercalate ((ascii "QVOLE_CODE=" ++ code) :: ascii "qvole" :: ascii "tunnel" ::
        (flagArgs (ascii "-aL") aL ++ flagArgs (ascii "-aF") aF)) := by
    rw [intercalate_blank, List.flatMap_cons, List.flatMap_cons, List.flatMap_append,
      flatMap_flagArgs, flatMap_flagArgs]
    simp [ascii, Char.byte]
  have hblank : ∀ w ∈ (ascii "QVOLE_CODE=" ++ code) :: ascii "qvole" :: ascii "tunnel" ::
      (flagArgs (ascii "-aL") aL ++ flagArgs (ascii "-aF") aF), 32 ∉ w := by
    intro w hw
    simp only [List.mem_cons, List.mem_append] at hw
    rcases hw with rfl | rfl | rfl | hw | hw
    · rw [List.mem_append, not_or]
      exact ⟨by decide, hcode⟩
    · decide
    · decide
    · rcases mem_flagArgs hw with rfl | hv
      · decide
      · exact haL w hv
    · rcases mem_flagArgs hw with rfl | hv
      · decide
      · exact haF w hv
  have hfirst : ascii "QVOLE_CODE=" ++ code ≠ ascii "tunnel" := fun h =>
    absurd (congrArg List.head? h) (by simp [ascii, Char.byte])
  have hsecond : ascii "qvole" ≠ ascii "tunnel" := by decide
  rw [argsAfterTunnel, htext, List.splitOn_intercalate 32 hblank (List.cons_ne_nil _ _),
    List.dropWhile_cons_of_pos (by simpa using hfirst),
    List.dropWhile_cons_of_pos (by simpa using hsecond), List.dropWhile_cons_of_neg (by simp)]
  rfl

end Text

/-! ### The allowlist of the peer -/

section Peer

variable {localTunnels remoteTunnels allowListen allowForward : List Bytes} {allowAll : Bool}

/-- Printable addresses without blanks, on one line. -/
structure Plain (req : TunnelRequest) : Prop where
  listen : ∀ c ∈ req.listenAddr, 33 ≤ c ∧ c ≤ 126
  target : ∀ c ∈ req.targetAddr, 33 ≤ c ∧ c ≤ 126
  length : req.line.length ≤ Tunnel.scannerMaxTokenSize

theorem no_blank_of_graphic {b : Bytes} (h : ∀ c ∈ b, 33 ≤ c ∧ c ≤ 126) : 32 ∉ b := by
  intro hmem
  exact absurd (h 32 hmem).1 (by decide)

theorem isUtf8_of_graphic {b : Bytes} (h : ∀ c ∈ b, 33 ≤ c ∧ c ≤ 126) : Bytes.isUtf8 b = true :=
  Bytes.isUtf8_of_ascii fun c hc => UInt8.le_trans (h c hc).2 (by decide)

theorem Plain.sendable {req : TunnelRequest} (h : Plain req) : req.Sendable :=
  ⟨h.listen, fun c hc => Tunnel.printable_of_graphic (h.target c hc), h.length⟩

/-- The allowlist covers the requests and has nothing else on it. -/
structure Sufficient (allow : TunnelAllow) (reqs : List TunnelRequest) : Prop where
  notAll : allow.all = false
  valid : allow.validate = .ok ()
  listen : ∀ req ∈ reqs, req.typ = .R → allow.allowsListen req.listenAddr = true
  forward : ∀ req ∈ reqs, req.typ = .L → allow.allowsForward req.targetAddr = true
  listenOnly : ∀ e ∈ allow.listen, ∃ req ∈ reqs, req.typ = .R ∧ req.listenAddr = e
  forwardOnly : ∀ e ∈ allow.forward, ∃ req ∈ reqs, req.typ = .L ∧ req.targetAddr = e

theorem myRequests_of_valid
    (h : validateTunnelConfig localTunnels remoteTunnels allowListen allowForward allowAll = .ok ()) :
    ∃ localReqs remoteReqs, parseTunnelRequests .L localTunnels = .ok localReqs ∧
      parseTunnelRequests .R remoteTunnels = .ok remoteReqs ∧
      (localReqs ++ remoteReqs).length ≤ Tunnel.maxTunnelRequests ∧
      (∀ req ∈ localReqs, Validated .L req) ∧ ∀ req ∈ remoteReqs, Validated .R req := by
  unfold validateTunnelConfig at h
  simp only at h
  split at h
  · cases h
  · rename_i hcount
    obtain ⟨⟨⟩, hlocal, h⟩ := Outcome.bind_eq_ok.mp h
    obtain ⟨⟨⟩, hremote, -⟩ := Outcome.bind_eq_ok.mp h
    obtain ⟨localReqs, hlocalReqs, hlocalLength, hlocalValid⟩ := parseTunnelRequests_of_valid hlocal
    obtain ⟨remoteReqs, hremoteReqs, hremoteLength, hremoteValid⟩ :=
      parseTunnelRequests_of_valid hremote
    refine ⟨localReqs, remoteReqs, hlocalReqs, hremoteReqs, ?_, hlocalValid, hremoteValid⟩
    rw [List.length_append, hlocalLength, hremoteLength]
    exact Nat.le_of_not_lt hcount

theorem sufficient_of_entries {localReqs remoteReqs : List TunnelRequest} {aL aF : List Bytes}
    (hlocal : ∀ req ∈ localReqs, Validated .L req) (hremote : ∀ req ∈ remoteReqs, Validated .R req)
    (haL : ∀ e, e ∈ aL ↔ ∃ req ∈ remoteReqs, req.listenAddr = e)
    (haF : ∀ e, e ∈ aF ↔ ∃ req ∈ localReqs, req.targetAddr = e) :
    Sufficient { all := false, listen := aL, forward := aF, forwardRules := [] }
      (localReqs ++ remoteReqs) where
  notAll := rfl
  valid := by
    apply validate_of_wellFormed
    · intro e he
      obtain ⟨req, hreq, rfl⟩ := (haL e).mp he
      exact wellFormedEntry_of_valid (hremote req hreq).listen
    · intro e he
      obtain ⟨req, hreq, rfl⟩ := (haF e).mp he
      exact wellFormedEntry_of_valid (hlocal req hreq).target
  listen := by
    intro req hreq htyp
    rcases List.mem_append.mp hreq with hmem | hmem
    · cases (hlocal req hmem).typ_eq.symm.trans htyp
    · exact allowMatch_self (hremote req hmem).listen ((haL _).mpr ⟨req, hmem, rfl⟩)
  forward := by
    intro req hreq htyp
    rcases List.mem_append.mp hreq with hmem | hmem
    · exact allowMatch_self (hlocal req hmem).target ((haF _).mpr ⟨req, hmem, rfl⟩)
    · cases (hremote req hmem).typ_eq.symm.trans htyp
  listenOnly := by
    intro e he
    obtain ⟨req, hreq, rfl⟩ := (haL e).mp he
    exact ⟨req, List.mem_append_right _ hreq, (hremote req hreq).typ_eq, rfl⟩
  forwardOnly := by
    intro e he
    obtain ⟨req, hreq, rfl⟩ := (haF e).mp he
    exact ⟨req, List.mem_append_left _ hreq, (hlocal req hreq).typ_eq, rfl⟩

/-- Nothing to allow, and nothing printed; or the entries behind their flags. -/
theorem argsAfterTunnel_of_command {code : Bytes} {aL aF : List Bytes} (hcode : 32 ∉ code)
    (hL : ∀ v ∈ aL, 32 ∉ v) (hF : ∀ v ∈ aF, 32 ∉ v)
    (haL : peerEntries .R (·.listenAddr) [] remoteTunnels = .ok aL)
    (haF : peerEntries .L (·.targetAddr) [] localTunnels = .ok aF) :
    ∃ cmd, tunnelPeerCommand code localTunnels remoteTunnels = .ok cmd ∧
      argsAfterTunnel cmd = flagArgs (ascii "-aL") aL ++ flagArgs (ascii "-aF") aF := by
  rw [tunnelPeerCommand, haL, Outcome.ok_bind, haF, Outcome.ok_bind]
  by_cases hnone : aL = [] ∧ aF = []
  · obtain ⟨rfl, rfl⟩ := hnone
    exact ⟨[], rfl, by decide⟩
  · rw [if_neg hnone]
    exact ⟨_, rfl, argsAfterTunnel_command hcode hL hF⟩

/-- **The printed command is sufficient.** The peer that runs it allows every request that it receives
from this side, and has no entry on its lists but their addresses. -/
theorem peer_command_sufficient {words : List Bytes}
    (hwords : ∀ w ∈ words, ∀ c ∈ w, 97 ≤ c ∧ c ≤ 122) {draws : List UInt16} {code : Bytes}
    (hcode : generateCode words draws = .ok code)
    (hvalid : validateTunnelConfig localTunnels remoteTunnels allowListen allowForward allowAll =
      .ok ())
    (hplain : ∀ reqs, myRequests localTunnels remoteTunnels = .ok reqs → ∀ req ∈ reqs, Plain req) :
    ∃ reqs cmd values, myRequests localTunnels remoteTunnels = .ok reqs ∧
      tunnelPeerCommand code localTunnels remoteTunnels = .ok cmd ∧
      parseFlags (argsAfterTunnel cmd) (flagSpecsFor .tunnel) = .ok values ∧
      (∀ ending source, source.bytes = requestsText reqs →
        readRequestsFromStream ending source = .ok reqs) ∧
      Sufficient (tunnelAllow values) reqs := by
  obtain ⟨localReqs, remoteReqs, hlocal, hremote, hcount, hlocalValid, hremoteValid⟩ :=
    myRequests_of_valid hvalid
  have hreqs : myRequests localTunnels remoteTunnels = .ok (localReqs ++ remoteReqs) := by
    rw [myRequests, hlocal, Outcome.ok_bind, hremote, Outcome.ok_bind]
    rfl
  obtain ⟨aL, haL, hmemL⟩ := peerEntries_spec (·.listenAddr) [] hremote
  obtain ⟨aF, haF, hmemF⟩ := peerEntries_spec (·.targetAddr) [] hlocal
  simp only [List.not_mem_nil, false_or] at hmemL hmemF
  have hL : ∀ v ∈ aL, ∀ c ∈ v, 33 ≤ c ∧ c ≤ 126 := by
    intro v hv
    obtain ⟨req, hreq, rfl⟩ := (hmemL v).mp hv
    exact (hplain _ hreqs req (List.mem_append_right _ hreq)).listen
  have hF : ∀ v ∈ aF, ∀ c ∈ v, 33 ≤ c ∧ c ≤ 126 := by
    intro v hv
    obtain ⟨req, hreq, rfl⟩ := (hmemF v).mp hv
    exact (hplain _ hreqs req (List.mem_append_left _ hreq)).target
  obtain ⟨cmd, hcmd, hargs⟩ :=
    argsAfterTunnel_of_command (generateCode_no_blank hwords hcode)
      (fun v hv => no_blank_of_graphic (hL v hv)) (fun v hv => no_blank_of_graphic (hF v hv)) haL haF
  obtain ⟨values, hvalues, hallow⟩ := parseFlags_allow
    (fun v hv => isUtf8_of_graphic (hL v hv)) (fun v hv => isUtf8_of_graphic (hF v hv))
  refine ⟨_, cmd, values, hreqs, hcmd, hargs ▸ hvalues, fun ending source hsource => ?_, ?_⟩
  · exact Tunnel.readRequests_text (fun req hreq => (hplain _ hreqs req hreq).sendable) hcount hsource
  · rw [hallow]
    exact sufficient_of_entries hlocalValid hremoteValid hmemL hmemF

def pairLocal : List Bytes := [ascii "8080:[::1]:80", ascii "8081:[::1]:80"]

def pairRemote : List Bytes := [ascii ":2222:localhost:22"]

def pairRequests : List TunnelRequest :=
  [⟨.L, ascii "127.0.0.1:8080", ascii "[::1]:80"⟩, ⟨.L, ascii "127.0.0.1:8081", ascii "[::1]:80"⟩,
    ⟨.R, ascii "127.0.0.1:2222", ascii "localhost:22"⟩]

/-- Two requests with one target, brackets around it, and a default host. -/
theorem peer_command_sufficient_pair :
    ∃ values, parseFlags (argsAfterTunnel (ascii
        "QVOLE_CODE=0007-burrow-burrow-burrow qvole tunnel -aL 127.0.0.1:2222 -aF [::1]:80"))
        (flagSpecsFor .tunnel) = .ok values ∧ Sufficient (tunnelAllow values) pairRequests := by
  have hcode : generateCode [ascii "burrow"] [7, 0, 0, 0] = .ok (ascii "0007-burrow-burrow-burrow") := by
    decide
  have hreqs : myRequests pairLocal pairRemote = .ok pairRequests := by decide
  have hcmd : tunnelPeerCommand (ascii "0007-burrow-burrow-burrow") pairLocal pairRemote = .ok (ascii
      "QVOLE_CODE=0007-burrow-burrow-burrow qvole tunnel -aL 127.0.0.1:2222 -aF [::1]:80") := by
    decide
  have hwords : ∀ w ∈ [ascii "burrow"], ∀ c ∈ w, 97 ≤ c ∧ c ≤ 122 := by
    intro w hw
    rw [List.mem_singleton.mp hw]
    exact Tunnel.within_of_all (by decide)
  have hvalid : validateTunnelConfig pairLocal pairRemote [] [] false = .ok () := by decide
  have hplain : ∀ req ∈ pairRequests, Plain req := by
    intro req hreq
    simp only [pairRequests, List.mem_cons, List.not_mem_nil, or_false] at hreq
    rcases hreq with rfl | rfl | rfl
    · exact ⟨Tunnel.within_of_all (by decide), Tunnel.within_of_all (by decide), by decide⟩
    · exact ⟨Tunnel.within_of_all (by decide), Tunnel.within_of_all (by decide), by decide⟩
    · exact ⟨Tunnel.within_of_all (by decide), Tunnel.within_of_all (by decide), by decide⟩
  obtain ⟨reqs, cmd, values, hreqs', hcmd', hvalues, -, hsufficient⟩ :=
    peer_command_sufficient hwords hcode hvalid fun reqs h => by
      rw [← Except.ok.inj (hreqs.symm.trans h)]
      exact hplain
  obtain rfl := Except.ok.inj (hreqs.symm.trans hreqs')
  obtain rfl := Except.ok.inj (hcmd.symm.trans hcmd')
  exact ⟨values, hvalues, hsufficient⟩

end Peer

end Qvole.Cli
