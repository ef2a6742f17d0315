import Qvole.Exchange.Handshake
import Qvole.Spake2.Proof.Confirm
import Qvole.Spake2.Proof.Points

/-!
# The confirmation payload

When a confirmation can be built, and what its fields then are: the nonce, the confirmation, and the
address sealed under the session's key.
-/

namespace Qvole.Exchange

open Spake2 (Curve Primitives Generators State)

/-- The field the address goes into. -/
def addrField (addr : String) : Bytes :=
  asBytes addr ++ List.replicate (maxMetadataSize - (asBytes addr).length) 0

theorem length_addrField {addr : String} (hfits : (asBytes addr).length ≤ maxMetadataSize) :
    (addrField addr).length = maxMetadataSize := by
  rw [addrField, List.length_append, List.length_replicate]
  omega

variable {F P : Type} [Field F] [DecidableEq F] {C : Curve F P} {H : Primitives}
  {G : Generators C H} {draws : ConfirmDraws}
  {confirmKey encKey myPoint peerPoint myFingerprint peerFingerprint payload : Bytes}
  {addr : String}

theorem buildConfirmPayload_eq_ok :
    buildConfirmPayload C H G draws confirmKey encKey myPoint peerPoint myFingerprint
        peerFingerprint addr = .ok payload ↔
      (asBytes addr).length ≤ maxMetadataSize ∧
      ∃ confirm encAddr, Spake2.computeConfirm C H G confirmKey myPoint peerPoint
          draws.confirmNonce myFingerprint peerFingerprint = .ok confirm ∧
        Spake2.encryptMetadata H draws.gcmNonce encKey (Spake2.sessionAad myPoint peerPoint)
          (addrField addr) = .ok encAddr ∧
        payload = draws.confirmNonce ++ (confirm ++ (encAddr ++ draws.pad
          (confirmPayloadSize - (draws.confirmNonce ++ confirm ++ encAddr).length))) := by
  have hpad : ∀ b : Bytes, (if b.length < confirmPayloadSize then
      b ++ draws.pad (confirmPayloadSize - b.length) else b) =
        b ++ draws.pad (confirmPayloadSize - b.length) := by
    intro b
    split
    · rfl
    · rename_i hlong
      have hnil : draws.pad (confirmPayloadSize - b.length) = [] := by
        apply List.eq_nil_of_length_eq_zero
        rw [draws.length_pad]
        omega
      rw [hnil, List.append_nil]
  unfold buildConfirmPayload
  simp only [Outcome.bind_eq_ok, Outcome.mapErr_eq_ok]
  constructor
  · rintro ⟨confirm, hconfirm, h⟩
    split at h
    · cases h
    · rename_i hfits
      simp only [Outcome.bind_eq_ok, Outcome.mapErr_eq_ok, pure, Except.pure, Except.ok.injEq,
        hpad] at h
      obtain ⟨encAddr, hencAddr, rfl⟩ := h
      refine ⟨Nat.le_of_not_lt hfits, confirm, encAddr, hconfirm, hencAddr, ?_⟩
      simp only [List.append_assoc]
  · rintro ⟨hfits, confirm, encAddr, hconfirm, hencAddr, rfl⟩
    refine ⟨confirm, hconfirm, ?_⟩
    rw [if_neg (Nat.not_lt_of_le hfits)]
    simp only [Outcome.bind_eq_ok, Outcome.mapErr_eq_ok, pure, Except.pure, Except.ok.injEq, hpad]
    exact ⟨encAddr, hencAddr, by simp only [List.append_assoc]⟩

/-- The fields of a confirmation payload, and what can be read from the last of them. -/
structure PayloadFields (C : Curve F P) (H : Primitives) (G : Generators C H) (draws : ConfirmDraws)
    (confirmKey encKey myPoint peerPoint myFingerprint peerFingerprint : Bytes) (addr : String)
    (payload : Bytes) : Prop where
  length : payload.length = confirmPayloadSize
  nonce : payload.take confirmNonceSize = draws.confirmNonce
  confirm : Spake2.computeConfirm C H G confirmKey myPoint peerPoint draws.confirmNonce
    myFingerprint peerFingerprint =
      .ok ((payload.take (confirmNonceSize + confirmHmacSize)).drop confirmNonceSize)
  encAddr : Spake2.decryptMetadata H encKey (Spake2.sessionAad myPoint peerPoint)
    ((payload.take (confirmPayloadSize - confirmRandPad)).drop
      (confirmNonceSize + confirmHmacSize)) = .ok (addrField addr)

theorem payloadFields (hH : H.Lawful)
    (h : buildConfirmPayload C H G draws confirmKey encKey myPoint peerPoint myFingerprint
      peerFingerprint addr = .ok payload) :
    PayloadFields C H G draws confirmKey encKey myPoint peerPoint myFingerprint peerFingerprint addr
      payload := by
  obtain ⟨hfits, confirm, encAddr, hconfirm, hencAddr, rfl⟩ := buildConfirmPayload_eq_ok.mp h
  have hnonce := draws.length_confirmNonce
  have hconfirmLength : confirm.length = confirmHmacSize := by
    obtain ⟨-, -, -, -, n, -, rfl⟩ := Spake2.computeConfirm_eq_ok.mp hconfirm
    exact hH.length_hmac _ _
  obtain ⟨hopened, hencLength⟩ :=
    Spake2.decryptMetadata_encryptMetadata hH draws.length_gcmNonce hencAddr
  rw [length_addrField hfits] at hencLength
  have hcut : (draws.confirmNonce ++ confirm).length = confirmNonceSize + confirmHmacSize := by
    rw [List.length_append, hnonce, hconfirmLength]
  have hshort : (draws.confirmNonce ++ confirm ++ encAddr).length = 128 := by
    rw [List.length_append, hcut, hencLength]
    rfl
  have hpad := draws.length_pad (confirmPayloadSize -
    (draws.confirmNonce ++ confirm ++ encAddr).length)
  generalize draws.pad (confirmPayloadSize -
    (draws.confirmNonce ++ confirm ++ encAddr).length) = pad at hpad
  refine ⟨?_, ?_, ?_, ?_⟩
  · rw [← List.append_assoc, ← List.append_assoc, List.length_append, hpad, hshort]
    rfl
  · rw [← hnonce, List.take_left]
  · rw [hconfirm, ← hnonce, ← hconfirmLength, List.take_length_add_append, List.drop_left,
      List.take_left]
  · have htake : (draws.confirmNonce ++ (confirm ++ (encAddr ++ pad))).take
        (confirmPayloadSize - confirmRandPad) = draws.confirmNonce ++ confirm ++ encAddr := by
      rw [← List.append_assoc, ← List.append_assoc]
      exact List.take_left' hshort
    rw [htake, ← hcut, List.drop_left]
    exact hopened

/-- Nothing but the length of the address stands in the way of a confirmation. -/
theorem buildConfirmPayload_isOk (hH : H.Lawful) {n : F × F} (hn : C.affineXy G.n = .ok n)
    (hkey : encKey.length = 32) (hmyPoint : myPoint.length = pointLen)
    (hpeerPoint : peerPoint.length = pointLen) (hmine : myFingerprint.length = fingerprintSize)
    (htheirs : peerFingerprint.length = fingerprintSize) (hne : myFingerprint ≠ peerFingerprint)
    (draws : ConfirmDraws) (hfits : (asBytes addr).length ≤ maxMetadataSize) :
    ∃ payload, buildConfirmPayload C H G draws confirmKey encKey myPoint peerPoint myFingerprint
      peerFingerprint addr = .ok payload := by
  have hnonempty : draws.confirmNonce ≠ [] := by
    intro hempty
    have hnonce := draws.length_confirmNonce
    rw [hempty] at hnonce
    cases hnonce
  have haad : (Spake2.sessionAad myPoint peerPoint).length ≤ 2 ^ 36 := by
    rw [Spake2.length_sessionAad, hmyPoint, hpeerPoint]
    decide
  obtain ⟨ct, hct⟩ := hH.gcmSeal_isSome encKey draws.gcmNonce (Spake2.sessionAad myPoint peerPoint)
    (addrField addr) hkey draws.length_gcmNonce haad (by rw [length_addrField hfits]; decide)
  have hencrypted : Spake2.encryptMetadata H draws.gcmNonce encKey
      (Spake2.sessionAad myPoint peerPoint) (addrField addr) = .ok (draws.gcmNonce ++ ct) := by
    rw [Spake2.encryptMetadata, if_neg (by simp [hkey]), hct]
  exact ⟨_, buildConfirmPayload_eq_ok.mpr ⟨hfits, _, _,
    Spake2.computeConfirm_eq_ok.mpr ⟨hnonempty, hmine, htheirs, hne, n, hn, rfl⟩, hencrypted, rfl⟩⟩

end Qvole.Exchange
