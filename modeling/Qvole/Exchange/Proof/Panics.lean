import Qvole.Exchange.Proof.Turns
import Qvole.Relay.Proof.Trim
import Qvole.Spake2.Proof.Confirm
import Qvole.Spake2.Proof.Points

/-!
# Panics of the exchange loop

The calls that a turn makes come back for every message, except for one: a SPAKE2 payload whose role
uses an ephemeral scalar that was drawn as zero makes the key agreement read the coordinates of the
identity.
-/

namespace Qvole.Exchange

open Spake2 (Curve Primitives Generators State)

variable {F S P : Type} [Field F] [DecidableEq F] [Field S] [AddCommGroup P] [DecidableEq P]
  [Module S P] {C : Curve F P} {H : Primitives} {G : Generators C H} {party : Party F S}

/-- Processing the payload gets as far as the shared point, and that is the identity. -/
structure Party.SharesIdentity (C : Curve F P) (H : Primitives) (G : Generators C H)
    (party : Party F S) (hexBody payload : Bytes) : Prop where
  decoded : hexDecode hexBody = some payload
  long : spake2PayloadLen ≤ payload.length
  myFingerprint : party.myFingerprint.length = fingerprintSize
  fingerprint : party.myFingerprint ≠ (payload.take spake2PayloadLen).drop (pointLen * 2)
  point : party.state.blindedBytesM C ≠ payload.take pointLen
  shares : party.state.SharesIdentity C H G
    (if party.state.blindedBytesM C > payload.take pointLen then payload.take pointLen
      else (payload.take (pointLen * 2)).drop pointLen)
    (decide (party.state.blindedBytesM C > payload.take pointLen))

omit [DecidableEq P] in
theorem affineXy_n (hC : C.Lawful) (G : Generators C H) : ∃ n, C.affineXy G.n = .ok n := by
  obtain ⟨n, hn⟩ := hC.toEncoded_ne_zero G.n (G.n_ne_zero hC)
  exact ⟨n, Spake2.affineXy_of_toEncoded hC hn⟩

theorem returns_process_iff (hC : C.Lawful) (hpw : party.state.pwScalar ≠ 0) (hexBody : Bytes) :
    Outcome.Returns (party.process C H G hexBody) ↔
      ∀ payload, ¬ party.SharesIdentity C H G hexBody payload := by
  obtain ⟨n, hn⟩ := affineXy_n hC G
  unfold Party.process processSpakeMsg
  cases hdecoded : hexDecode hexBody with
  | none =>
      refine ⟨fun _ payload h => ?_, fun _ => Outcome.returns_fail _⟩
      cases hdecoded.symm.trans h.decoded
  | some payload =>
      have heq : ∀ {payload'}, party.SharesIdentity C H G hexBody payload' → payload = payload' :=
        fun h => Option.some.inj (hdecoded.symm.trans h.decoded)
      simp only
      split
      · rename_i hshort
        refine ⟨fun _ payload' h => ?_, fun _ => Outcome.returns_fail _⟩
        exact absurd (heq h ▸ h.long) (Nat.not_le_of_lt hshort)
      · rename_i hlong
        have hlength : ((payload.take spake2PayloadLen).drop (pointLen * 2)).length =
            fingerprintSize := by
          rw [List.length_drop, List.length_take_of_le (Nat.le_of_not_lt hlong)]
          rfl
        split
        · rename_i hsizes
          refine ⟨fun _ payload' h => ?_, fun _ => Outcome.returns_fail _⟩
          rcases hsizes with hmine | htheirs
          · exact hmine h.myFingerprint
          · exact htheirs hlength
        · rename_i hsizes
          split
          · rename_i hreflected
            refine ⟨fun _ payload' h => ?_, fun _ => Outcome.returns_fail _⟩
            obtain rfl := heq h
            exact h.fingerprint hreflected
          · rename_i hfingerprint
            split
            · rename_i hreflected
              refine ⟨fun _ payload' h => ?_, fun _ => Outcome.returns_fail _⟩
              obtain rfl := heq h
              exact h.point hreflected
            · rename_i hpoint
              simp only [decide_eq_true_eq]
              constructor
              · intro hreturns payload' h
                obtain rfl := heq h
                have hshared := Outcome.returns_mapErr.mp hreturns.of_bind
                exact (Spake2.returns_computeShared_iff hC hpw _ _).mp hshared h.shares
              · intro hsafe
                have hshared := (Spake2.returns_computeShared_iff hC hpw _ _).mpr fun hshares =>
                  hsafe payload ⟨hdecoded, Nat.le_of_not_lt hlong,
                    not_not.mp fun hmine => hsizes (Or.inl hmine), hfingerprint, hpoint, hshares⟩
                refine (Outcome.returns_mapErr.mpr hshared).bind fun secret _ => ?_
                refine Outcome.Returns.bind
                  (Outcome.returns_mapErr.mpr (Spake2.returns_deriveSessionKey hn)) ?_
                intro keys _
                exact Outcome.returns_ok _

omit [Field S] [DecidableEq P] [Module S P] in
theorem returns_buildConfirm (hC : C.Lawful) (draws : ConfirmDraws) (view : ProcessedSpake)
    (myAddr : String) : Outcome.Returns (party.buildConfirm C H G draws view myAddr) := by
  obtain ⟨n, hn⟩ := affineXy_n hC G
  unfold Party.buildConfirm buildConfirmPayload
  refine Outcome.Returns.bind
    (Outcome.returns_mapErr.mpr (Spake2.returns_computeConfirm hn)) fun confirm _ => ?_
  simp only
  split
  · exact Outcome.returns_fail _
  · refine Outcome.Returns.bind
      (Outcome.returns_mapErr.mpr (Spake2.returns_encryptMetadata H _ _ _ _)) fun encAddr _ => ?_
    exact Outcome.returns_ok _

omit [Field S] [DecidableEq P] [Module S P] in
theorem returns_checkConfirm (hC : C.Lawful) (cand : PeerCandidate) (hexBody : Bytes) :
    Outcome.Returns (party.checkConfirm C H G cand hexBody) := by
  obtain ⟨n, hn⟩ := affineXy_n hC G
  unfold Party.checkConfirm processConfirmMsg
  split
  · exact Outcome.returns_fail _
  · split
    · exact Outcome.returns_fail _
    · refine (Spake2.returns_verifyConfirm hn).bind fun verified _ => ?_
      split
      · exact Outcome.returns_fail _
      · refine Outcome.Returns.bind
          (Outcome.returns_mapErr.mpr (Spake2.returns_decryptMetadata H _ _ _)) fun addr _ => ?_
        exact Outcome.returns_ok _

end Qvole.Exchange
