import Qvole.Exchange.Proof.Candidates

/-!
# The advertised address

A confirmation carries the address that this side had when it took the candidate up. It is built
once and sent again as it is, so an address adopted later is in no confirmation to that candidate.
-/

namespace Qvole.Exchange

open Spake2 (Curve Primitives Generators State)

/-- The address sealed in the candidate's confirmation is `addr`. -/
def PeerCandidate.Carries (H : Primitives) (cand : PeerCandidate) (addr : String) : Prop :=
  Spake2.decryptMetadata H cand.encKey (Spake2.sessionAad cand.effectiveMyPoint cand.point)
    ((cand.confirmPayload.take (confirmPayloadSize - confirmRandPad)).drop
      (confirmNonceSize + confirmHmacSize)) = .ok (addrField addr)

/-- The turn does not change the address while there are candidates. -/
def Steady (room : Room) (s : Session) (turn : Turn) : Prop :=
  ∀ extAddr, turn.Hears room (.accepted extAddr) → adoptable extAddr = true →
    textOf extAddr ≠ s.myAddr → ∀ key, key ∉ s.candidates

section Party

variable {F S P : Type} [Field F] [DecidableEq F] [Field S] [AddCommGroup P] [DecidableEq P]
  [Module S P] {C : Curve F P} {H : Primitives} {G : Generators C H} {party : Party F S}

theorem Acceptable.carries (hH : H.Lawful) {draws : ConfirmDraws} {myAddr : String}
    {hexBody payload cp : Bytes} {view : ProcessedSpake}
    (h : Acceptable C H G party draws myAddr hexBody payload view cp) :
    (PeerCandidate.new view cp).Carries H myAddr :=
  (payloadFields hH h.built).encAddr

/-- Every candidate's confirmation carries the current address. -/
def Session.Current (H : Primitives) (s : Session) : Prop :=
  ∀ key cand, s.candidates.lookup key = some cand → cand.Carries H s.myAddr

theorem TurnStep.current (hH : H.Lawful) {s : Session} {turn : Turn} {loop : Loop}
    {sent : List Sent} (h : TurnStep C H G party s turn loop sent)
    (hsteady : Steady party.room s turn) (hs : s.Current H) : loop.session.Current H := by
  intro key cand hcand
  rcases h.lookup hcand with hold | ⟨hexBody, payload, view, cp, hhears, haccepts, -, rfl⟩
  · rcases h.myAddr with hsame | ⟨extAddr, hhears, hadoptable, hchanged⟩
    · rw [hsame]
      exact hs key cand hold
    · by_cases hsame : textOf extAddr = s.myAddr
      · rw [hchanged, hsame]
        exact hs key cand hold
      · exact absurd (AList.mem_of_lookup hold)
          (hsteady extAddr hhears hadoptable hsame key)
  · rcases h.myAddr with hsame | ⟨extAddr, hhears', -, -⟩
    · rw [hsame]
      exact haccepts.carries hH
    · cases hhears.unique hhears'

/-- **Confirmations carry the current address**, in every run in which the address does not change
while there are candidates. -/
theorem advertised_of_run (hH : H.Lawful) {history : List (Machine.Record Loop Turn Sent)}
    {loop : Loop} {now : Nat} (hrun : Machine.Run (party.machine C H G) history loop now)
    (hsteady : ∀ r ∈ history, Steady party.room r.before.session r.event) :
    ∀ r ∈ history, ∀ cand, .confirm cand ∈ r.sent → cand.Carries H r.before.session.myAddr := by
  have hinv := hrun.inv (G := fun loop turn => Steady party.room loop.session turn)
    (I := fun history loop _ => loop.session.Current H ∧
      ∀ r ∈ history, ∀ cand, .confirm cand ∈ r.sent → cand.Carries H r.before.session.myAddr)
    ⟨?_, by simp⟩ ?_ hsteady
  · exact hinv.2
  · intro key cand h
    simp [Party.machine, Session.new] at h
  · intro history loop now turn _ _ hturnSteady hI
    obtain ⟨hcurrent, hsent⟩ := hI
    rcases machine_step (C := C) (H := H) (G := G) party loop turn with
      ⟨hstep, -⟩ | ⟨hturn, -⟩
    · refine ⟨by rwa [hstep], fun r hr cand hcand => ?_⟩
      rcases List.mem_append.mp hr with hr | hr
      · exact hsent r hr cand hcand
      · rw [List.mem_singleton.mp hr, Machine.record, hstep] at hcand
        cases hcand
    · refine ⟨hturn.current hH hturnSteady hcurrent, fun r hr cand hcand => ?_⟩
      rcases List.mem_append.mp hr with hr | hr
      · exact hsent r hr cand hcand
      · rw [List.mem_singleton.mp hr] at hcand ⊢
        rcases hturn.sent hcand with ⟨key, hbefore⟩ |
          ⟨hexBody, payload, view, cp, -, haccepts, rfl⟩
        · exact hcurrent key cand hbefore
        · exact haccepts.carries hH

end Party

/-! ### On the small curve -/

instance decidableCarries (H : Primitives) (cand : PeerCandidate) (addr : String) :
    Decidable (cand.Carries H addr) :=
  inferInstanceAs (Decidable (Spake2.decryptMetadata H cand.encKey
    (Spake2.sessionAad cand.effectiveMyPoint cand.point)
    ((cand.confirmPayload.take (confirmPayloadSize - confirmRandPad)).drop
      (confirmNonceSize + confirmHmacSize)) = .ok (addrField addr)))

def smallRegdTurn (now : Instant) : Turn :=
  smallTurn now (ascii "REGD r OK 203.0.113.5:4000\n") (by decide)

def smallIdleTurn (now : Instant) : Turn := { smallSpake2Turn now with inbound := .timedOut }

/-- The confirmation to the other side with the given address. -/
def smallCand (addr : String) (h : (smallParty.buildConfirm Spake2.smallCurve Spake2.smallHashes
    Spake2.smallGenerators smallDraws smallViewA addr).isOk = true) : PeerCandidate :=
  .new smallViewA ((smallParty.buildConfirm Spake2.smallCurve Spake2.smallHashes
    Spake2.smallGenerators smallDraws smallViewA addr).get h)

def adoptedFirst : List Turn := [smallRegdTurn 0, smallSpake2Turn 1, smallIdleTurn (fromMillis 3000)]

def adoptedLast : List Turn := [smallSpake2Turn 0, smallRegdTurn 1, smallIdleTurn (fromMillis 3000)]

theorem not_hears_accepted {room : Room} {extAddr : Bytes} {turn : Turn}
    (h : turn.inbound = .timedOut ∨ ∃ hexBody, turn.Hears room (.spake2 hexBody)) :
    ¬ turn.Hears room (.accepted extAddr) := by
  intro hhears
  rcases h with htimedOut | ⟨hexBody, hspake2⟩
  · obtain ⟨data, fits, line, hinbound, -⟩ := hhears
    cases htimedOut.symm.trans hinbound
  · cases hspake2.unique hhears

/-- The loop with the address adopted and the candidate taken up. -/
def adoptedLoop : Loop :=
  smallMachine.exec smallMachine.init [smallRegdTurn 0, smallSpake2Turn 1]

theorem advertised_of_run_adoptedFirst :
    .confirm (smallCand "203.0.113.5:4000" (by decide +kernel)) ∈
        (smallMachine.record adoptedLoop (smallIdleTurn (fromMillis 3000))).sent ∧
      (smallCand "203.0.113.5:4000" (by decide +kernel)).Carries Spake2.smallHashes
        "203.0.113.5:4000" := by
  have hordered : smallMachine.Ordered 0 adoptedFirst := by decide
  have hsent : .confirm (smallCand "203.0.113.5:4000" (by decide +kernel)) ∈
      (smallMachine.record adoptedLoop (smallIdleTurn (fromMillis 3000))).sent := by
    decide +kernel
  have haddr : adoptedLoop.session.myAddr = "203.0.113.5:4000" := by
    decide +kernel
  have hrun : Machine.Run
      (smallParty.machine Spake2.smallCurve Spake2.smallHashes Spake2.smallGenerators)
      (smallMachine.trace smallMachine.init adoptedFirst)
      (smallMachine.exec smallMachine.init adoptedFirst) _ := smallMachine.run_exec hordered
  have hspake2 : (smallSpake2Turn 1).Hears smallParty.room
      (.spake2 (toHexLower smallPeerPayload)) :=
    ⟨_, _, ascii "MSGD spake2 " ++ toHexLower smallPeerPayload, rfl, by decide +kernel,
      by decide +kernel⟩
  have hsteady : ∀ r ∈ smallMachine.trace smallMachine.init adoptedFirst,
      Steady smallParty.room r.before.session r.event := by
    intro r hr
    rcases List.mem_cons.mp hr with rfl | hr
    · intro extAddr _ _ _ key hkey
      cases hkey
    · rcases List.mem_cons.mp hr with rfl | hr
      · intro extAddr hhears
        exact absurd hhears (not_hears_accepted (Or.inr ⟨_, hspake2⟩))
      · cases List.mem_singleton.mp hr
        intro extAddr hhears
        exact absurd hhears (not_hears_accepted (Or.inl rfl))
  have hmem : smallMachine.record adoptedLoop (smallIdleTurn (fromMillis 3000)) ∈
        smallMachine.trace smallMachine.init adoptedFirst :=
    List.mem_cons_of_mem _ (List.mem_cons_of_mem _ List.mem_cons_self)
  have hcarries := advertised_of_run Spake2.smallHashes_lawful hrun hsteady _ hmem _ hsent
  simp only [Machine.record, haddr] at hcarries
  exact ⟨hsent, hcarries⟩

/-- The payload comes first, then the external address; the confirmation sent again three seconds
later still carries the local one. -/
theorem stale_address_resent :
    ∃ history loop now,
      Machine.Run (smallParty.machine Spake2.smallCurve Spake2.smallHashes Spake2.smallGenerators)
        history loop now ∧
      ¬ ∀ r ∈ history, ∀ cand, .confirm cand ∈ r.sent →
        cand.Carries Spake2.smallHashes r.before.session.myAddr := by
  have hordered : smallMachine.Ordered 0 adoptedLast := by decide
  refine ⟨_, _, _, smallMachine.run_exec hordered, fun hall => ?_⟩
  have hlast : ∃ r ∈ smallMachine.trace smallMachine.init adoptedLast,
      .confirm (smallCand "192.168.0.2:4000" (by decide +kernel)) ∈ r.sent ∧
        ¬ (smallCand "192.168.0.2:4000" (by decide +kernel)).Carries Spake2.smallHashes
          r.before.session.myAddr := by
    refine ⟨_, List.mem_cons_of_mem _ (List.mem_cons_of_mem _ List.mem_cons_self), ?_, ?_⟩
    · decide +kernel
    · decide +kernel
  obtain ⟨r, hr, hsent, hnot⟩ := hlast
  exact hnot (hall r hr _ hsent)

end Qvole.Exchange
