import Qvole.Spake2.Pake
import Mathlib.Data.Sym.Sym2

/-!
# Transcripts

The keys and the confirmation are computed over concatenations of fields of fixed length in which the
two points, and in the salt the two fingerprints, are put in order. The order makes both sides agree
on the text, and the lengths make the text determine the fields.
-/

namespace Qvole.Spake2

/-! ### Comparisons -/

theorem foldl_diff_eq_zero {pairs : List (UInt8 × UInt8)} {diff : UInt8} :
    pairs.foldl (fun diff p => diff ||| (p.1 ^^^ p.2)) diff = 0 ↔
      diff = 0 ∧ ∀ p ∈ pairs, p.1 = p.2 := by
  induction pairs generalizing diff with
  | nil => simp
  | cons p rest ih => simp [ih, and_assoc]

theorem constantTimeEq_iff {a b : Bytes} : constantTimeEq a b = true ↔ a = b := by
  unfold constantTimeEq
  by_cases hlen : a.length = b.length
  · rw [if_neg (by simpa using hlen), beq_iff_eq, foldl_diff_eq_zero]
    constructor
    · rintro ⟨-, hall⟩
      refine List.ext_getElem hlen fun i ha hb => ?_
      have hmem : (a[i], b[i]) ∈ a.zip b := by
        have hi : i < (a.zip b).length := by simp [ha, hb]
        have hget : (a.zip b)[i] = (a[i], b[i]) := List.getElem_zip
        exact hget ▸ List.getElem_mem hi
      exact hall _ hmem
    · rintro rfl
      refine ⟨rfl, fun p hp => ?_⟩
      obtain ⟨i, hi, rfl⟩ := List.getElem_of_mem hp
      rw [List.getElem_zip]
  · rw [if_pos (by simpa using hlen)]
    constructor
    · intro h
      cases h
    · rintro rfl
      exact absurd rfl hlen

theorem constantTimeEq_of_ne {a b : Bytes} (h : a ≠ b) : constantTimeEq a b = false := by
  rw [Bool.eq_false_iff]
  exact fun heq => h (constantTimeEq_iff.mp heq)

theorem gt_of_not_gt {a b : Bytes} (hne : a ≠ b) (h : ¬ a > b) : b > a := by
  by_contra hnot
  exact hne (List.le_antisymm (List.not_lt.mp h) (List.not_lt.mp hnot))

theorem sessionAad_comm (a b : Bytes) : sessionAad a b = sessionAad b a := by
  unfold sessionAad
  by_cases hab : a > b
  · rw [if_pos hab, if_neg (List.lt_asymm hab)]
  · by_cases heq : a = b
    · rw [heq]
    · rw [if_neg hab, if_pos (gt_of_not_gt heq hab)]

theorem length_sessionAad (a b : Bytes) : (sessionAad a b).length = a.length + b.length := by
  unfold sessionAad
  split <;> simp [Nat.add_comm]

theorem sessionAad_inj {n : Nat} {a b c d : Bytes} (ha : a.length = n) (hb : b.length = n)
    (hc : c.length = n) (hd : d.length = n) (h : sessionAad a b = sessionAad c d) :
    s(a, b) = s(c, d) := by
  have hsplit : ∀ {a b : Bytes}, a.length = n → b.length = n → ∃ x y : Bytes, x.length = n ∧
      sessionAad a b = x ++ y ∧ s(a, b) = s(x, y) := by
    intro a b ha hb
    unfold sessionAad
    by_cases hab : a > b
    · exact ⟨b, a, hb, by rw [if_pos hab], Sym2.eq_swap⟩
    · exact ⟨a, b, ha, by rw [if_neg hab], rfl⟩
  obtain ⟨x, y, hx, hxy, hpair⟩ := hsplit ha hb
  obtain ⟨x', y', hx', hxy', hpair'⟩ := hsplit hc hd
  rw [hxy, hxy'] at h
  obtain ⟨rfl, rfl⟩ := List.append_inj h (hx.trans hx'.symm)
  exact hpair.trans hpair'.symm

theorem confirmInput_inj {n : Nat} {generator a b c d nonce nonce' sender sender' receiver
    receiver' : Bytes} (ha : a.length = n) (hb : b.length = n) (hc : c.length = n)
    (hd : d.length = n) (hsender : sender.length = sender'.length)
    (hreceiver : receiver.length = receiver'.length)
    (h : confirmInput generator a b nonce sender receiver =
      confirmInput generator c d nonce' sender' receiver') :
    s(a, b) = s(c, d) ∧ sender = sender' ∧ receiver = receiver' := by
  simp only [confirmInput, List.append_assoc] at h
  have haad : (sessionAad a b).length = (sessionAad c d).length := by
    simp only [length_sessionAad, ha, hb, hc, hd]
  obtain ⟨hpoints, h⟩ := List.append_inj h haad
  have h := List.append_cancel_left (List.append_cancel_left h)
  obtain ⟨hsenders, h⟩ := List.append_inj h hsender
  have h := List.append_cancel_left h
  obtain ⟨hreceivers, -⟩ := List.append_inj h hreceiver
  exact ⟨sessionAad_inj ha hb hc hd hpoints, hsenders, hreceivers⟩

/-! ### What a key or a confirmation is -/

section Inversion

variable {F P : Type} [Field F] [DecidableEq F] {C : Curve F P} {H : Primitives}
  {G : Generators C H}

/-- The salt of the key derivation. -/
def sessionSalt (H : Primitives) (generator myPoint peerPoint myFingerprint peerFingerprint :
    Bytes) : Bytes :=
  H.sha256 (sessionAad myPoint peerPoint ++ generator ++ fingerprintInfo ++
    sessionAad myFingerprint peerFingerprint)

theorem sessionSalt_comm (generator myPoint peerPoint myFingerprint peerFingerprint : Bytes) :
    sessionSalt H generator myPoint peerPoint myFingerprint peerFingerprint =
      sessionSalt H generator peerPoint myPoint peerFingerprint myFingerprint := by
  unfold sessionSalt
  rw [sessionAad_comm myPoint, sessionAad_comm myFingerprint]

variable {secret myPoint peerPoint myFingerprint peerFingerprint nonce key confirm : Bytes}

theorem deriveSessionKey_eq_ok {keys : Bytes × Bytes} :
    deriveSessionKey C H G secret myPoint peerPoint myFingerprint peerFingerprint = .ok keys ↔
      myFingerprint.length = 32 ∧ peerFingerprint.length = 32 ∧ myFingerprint ≠ peerFingerprint ∧
        ∃ n, C.affineXy G.n = .ok n ∧ keys =
          ((H.hkdf (sessionSalt H (C.marshalPoint n) myPoint peerPoint myFingerprint
              peerFingerprint) secret sessionInfo).take 32,
            (H.hkdf (sessionSalt H (C.marshalPoint n) myPoint peerPoint myFingerprint
              peerFingerprint) secret sessionInfo).drop 32) := by
  unfold deriveSessionKey
  by_cases hlen : myFingerprint.length = 32 ∧ peerFingerprint.length = 32
  · rw [if_neg (by simp [hlen.1, hlen.2])]
    by_cases hne : myFingerprint = peerFingerprint
    · rw [if_pos (constantTimeEq_iff.mpr hne)]
      simp [hne, Outcome.fail]
    · rw [if_neg (by simp [constantTimeEq_of_ne hne])]
      simp only [aadWithGenerators, Outcome.bind_eq_ok, pure, Except.pure, Except.ok.injEq]
      constructor
      · rintro ⟨aad, ⟨n, hn, rfl⟩, rfl⟩
        exact ⟨hlen.1, hlen.2, hne, n, hn, rfl⟩
      · rintro ⟨-, -, -, n, hn, rfl⟩
        exact ⟨_, ⟨n, hn, rfl⟩, rfl⟩
  · rw [if_pos (by tauto)]
    constructor
    · intro h
      cases h
    · rintro ⟨hmine, htheirs, -⟩
      exact absurd ⟨hmine, htheirs⟩ hlen

theorem computeConfirm_eq_ok :
    computeConfirm C H G key myPoint peerPoint nonce myFingerprint peerFingerprint = .ok confirm ↔
      nonce ≠ [] ∧ myFingerprint.length = 32 ∧ peerFingerprint.length = 32 ∧
        myFingerprint ≠ peerFingerprint ∧ ∃ n, C.affineXy G.n = .ok n ∧
          confirm = H.hmac key (confirmInput (C.marshalPoint n) myPoint peerPoint nonce
            myFingerprint peerFingerprint) := by
  unfold computeConfirm
  by_cases hnonce : nonce = []
  · simp [hnonce, Outcome.fail]
  · rw [if_neg (by simpa using hnonce)]
    by_cases hlen : myFingerprint.length = 32 ∧ peerFingerprint.length = 32
    · rw [if_neg (by simp [hlen.1, hlen.2])]
      by_cases hne : myFingerprint = peerFingerprint
      · rw [if_pos (constantTimeEq_iff.mpr hne)]
        simp [hne, Outcome.fail]
      · rw [if_neg (by simp [constantTimeEq_of_ne hne])]
        simp only [Outcome.bind_eq_ok, pure, Except.pure, Except.ok.injEq]
        constructor
        · rintro ⟨n, hn, rfl⟩
          exact ⟨hnonce, hlen.1, hlen.2, hne, n, hn, rfl⟩
        · rintro ⟨-, -, -, -, n, hn, rfl⟩
          exact ⟨n, hn, rfl⟩
    · rw [if_pos (by tauto)]
      constructor
      · intro h
        cases h
      · rintro ⟨-, hmine, htheirs, -⟩
        exact absurd ⟨hmine, htheirs⟩ hlen

theorem verifyConfirm_eq_ok_true {ε : Type} :
    (verifyConfirm C H G key myPoint peerPoint nonce myFingerprint peerFingerprint confirm :
        Outcome ε Bool) = .ok true ↔
      computeConfirm C H G key myPoint peerPoint nonce peerFingerprint myFingerprint =
        .ok confirm := by
  unfold verifyConfirm
  rcases computeConfirm C H G key myPoint peerPoint nonce peerFingerprint myFingerprint with
    (_ | _ | _) | expected
  · simp
  · simp
  · simp
  · simp only [Except.ok.injEq]
    exact constantTimeEq_iff

theorem decryptMetadata_encryptMetadata (hH : H.Lawful) {aad data metadata : Bytes}
    (hnonce : nonce.length = 12) (h : encryptMetadata H nonce key aad data = .ok metadata) :
    decryptMetadata H key aad metadata = .ok data ∧ metadata.length = 12 + (data.length + 16) := by
  unfold encryptMetadata at h
  split at h
  · cases h
  · rename_i hkey
    split at h
    · rename_i ct hct
      obtain rfl := Except.ok.inj h
      have hlong : ¬ (nonce ++ ct).length < 12 := by
        rw [List.length_append, hnonce]
        omega
      refine ⟨?_, by rw [List.length_append, hnonce, hH.length_gcmSeal _ _ _ _ _ hct]⟩
      rw [decryptMetadata, if_neg hkey, if_neg hlong, List.take_left' hnonce,
        List.drop_left' hnonce, hH.gcmOpen_gcmSeal _ _ _ _ _ hct]
    · cases h

/-! ### Calls that return -/

theorem returns_deriveSessionKey {n : F × F} (hn : C.affineXy G.n = .ok n) :
    Outcome.Returns
      (deriveSessionKey C H G secret myPoint peerPoint myFingerprint peerFingerprint) := by
  unfold deriveSessionKey
  split
  · exact Outcome.returns_fail _
  · split
    · exact Outcome.returns_fail _
    · rw [aadWithGenerators, hn]
      exact Outcome.returns_ok _

theorem returns_computeConfirm {n : F × F} (hn : C.affineXy G.n = .ok n) :
    Outcome.Returns
      (computeConfirm C H G key myPoint peerPoint nonce myFingerprint peerFingerprint) := by
  unfold computeConfirm
  split
  · exact Outcome.returns_fail _
  · split
    · exact Outcome.returns_fail _
    · split
      · exact Outcome.returns_fail _
      · rw [hn]
        exact Outcome.returns_ok _

theorem returns_verifyConfirm {ε : Type} {n : F × F} (hn : C.affineXy G.n = .ok n) :
    Outcome.Returns (verifyConfirm C H G key myPoint peerPoint nonce myFingerprint peerFingerprint
      confirm : Outcome ε Bool) := by
  have hreturns : Outcome.Returns (computeConfirm C H G key myPoint peerPoint nonce peerFingerprint
      myFingerprint) := returns_computeConfirm hn
  unfold verifyConfirm
  split
  · exact Outcome.returns_ok _
  · exact Outcome.returns_ok _
  · rename_i hpanicked
    exact absurd (hpanicked ▸ hreturns) Outcome.not_returns_panicked
  · rename_i hunfinished
    obtain ⟨error, herror⟩ := hreturns _ hunfinished
    cases herror

theorem returns_encryptMetadata (H : Primitives) (nonce key aad data : Bytes) :
    Outcome.Returns (encryptMetadata H nonce key aad data) := by
  unfold encryptMetadata
  split
  · exact Outcome.returns_fail _
  · split
    · exact Outcome.returns_ok _
    · exact Outcome.returns_fail _

theorem returns_decryptMetadata (H : Primitives) (key aad ciphertext : Bytes) :
    Outcome.Returns (decryptMetadata H key aad ciphertext) := by
  unfold decryptMetadata
  split
  · exact Outcome.returns_fail _
  · split
    · exact Outcome.returns_fail _
    · split
      · exact Outcome.returns_ok _
      · exact Outcome.returns_fail _

end Inversion

end Qvole.Spake2
