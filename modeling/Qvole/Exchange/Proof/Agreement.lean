import Qvole.Exchange.Proof.Payload

/-!
# Honest peers agree

Two sides that share a password and receive each other's payload take opposite roles, derive the same
keys and read each other's address. The role is decided on either side by comparing the M-points, and
it selects the generator, the scalar and the points there.
-/

namespace Qvole.Exchange

open Spake2 (Curve Primitives Generators State)

/-! ### Addresses -/

def PlainText (text : String) : Prop := ∀ c ∈ text.toList, 0 < c.toNat ∧ c.toNat < 128

theorem utf8EncodeChar_of_lt {c : Char} (hc : c.toNat < 128) :
    String.utf8EncodeChar c = [UInt8.ofNat c.toNat] := by
  have hle : c.toNat ≤ 127 := Nat.le_of_lt_succ hc
  simp [String.utf8EncodeChar, hle]

theorem charFrom_ofNat {c : Char} (hc : c.toNat < 128) : charFrom (UInt8.ofNat c.toNat) = c := by
  have hvalue : (UInt8.ofNat c.toNat).toNat = c.toNat := by
    simp [Nat.mod_eq_of_lt (Nat.lt_trans hc (by decide : 128 < 256))]
  rw [charFrom, hvalue, Char.ofNat_toNat]

theorem asBytes_eq_map {text : String} (h : PlainText text) :
    asBytes text = text.toList.map fun c => UInt8.ofNat c.toNat := by
  have hchars : ∀ chars : List Char, (∀ c ∈ chars, 0 < c.toNat ∧ c.toNat < 128) →
      chars.flatMap String.utf8EncodeChar = chars.map fun c => UInt8.ofNat c.toNat := by
    intro chars hplain
    induction chars with
    | nil => rfl
    | cons c rest ih =>
        rw [List.flatMap_cons, utf8EncodeChar_of_lt (hplain c List.mem_cons_self).2,
          ih fun d hd => hplain d (List.mem_cons_of_mem c hd)]
        rfl
  exact hchars text.toList h

theorem read_padded {text : String} (h : PlainText text) (n : Nat) :
    String.ofList (((asBytes text ++ List.replicate n 0).takeWhile (· ≠ 0)).map charFrom) = text := by
  have hnonzero : ∀ b ∈ asBytes text, decide (b ≠ 0) = true := by
    intro b hb
    rw [asBytes_eq_map h, List.mem_map] at hb
    obtain ⟨c, hc, rfl⟩ := hb
    obtain ⟨hpos, hlt⟩ := h c hc
    rw [decide_eq_true_eq]
    intro hzero
    have hvalue := congrArg UInt8.toNat hzero
    simp only [UInt8.toNat_ofNat', UInt8.toNat_zero] at hvalue
    omega
  have hzeros : (List.replicate n (0 : UInt8)).takeWhile (fun b => decide (b ≠ 0)) = [] := by
    cases n <;> simp [List.replicate_succ]
  rw [List.takeWhile_append_of_pos hnonzero, hzeros, List.append_nil, asBytes_eq_map h,
    List.map_map]
  have hback : text.toList.map (charFrom ∘ fun c => UInt8.ofNat c.toNat) = text.toList := by
    calc text.toList.map (charFrom ∘ fun c => UInt8.ofNat c.toNat)
        = text.toList.map id := List.map_congr_left fun c hc => charFrom_ofNat (h c hc).2
      _ = text.toList := List.map_id _
  rw [hback, String.ofList_toList]

/-! ### Confirmations -/

section Confirm

variable {F P : Type} [Field F] [DecidableEq F] {C : Curve F P} {H : Primitives}
  {G : Generators C H}

/-- A confirmation built on one side is accepted on a side with the same keys that has points and
fingerprints the other way round, and yields the address. -/
theorem confirm_roundtrip (hH : H.Lawful) {n : F × F} (hn : C.affineXy G.n = .ok n)
    {confirmKey encKey myPoint peerPoint myFingerprint peerFingerprint : Bytes}
    (hkey : encKey.length = 32) (hmyPoint : myPoint.length = pointLen)
    (hpeerPoint : peerPoint.length = pointLen) (hmine : myFingerprint.length = fingerprintSize)
    (htheirs : peerFingerprint.length = fingerprintSize) (hne : myFingerprint ≠ peerFingerprint)
    (draws : ConfirmDraws) {addr : String} (hplain : PlainText addr)
    (hfits : (asBytes addr).length ≤ maxMetadataSize) :
    ∃ payload, buildConfirmPayload C H G draws confirmKey encKey myPoint peerPoint myFingerprint
        peerFingerprint addr = .ok payload ∧
      processConfirmMsg C H G (toHexLower payload) confirmKey encKey peerPoint myPoint
        peerFingerprint myFingerprint = .ok addr := by
  obtain ⟨payload, hbuilt⟩ : ∃ payload, buildConfirmPayload C H G draws confirmKey encKey myPoint
      peerPoint myFingerprint peerFingerprint addr = .ok payload :=
    buildConfirmPayload_isOk hH hn hkey hmyPoint hpeerPoint hmine htheirs hne
    draws hfits
  have hfields := payloadFields hH hbuilt
  have hverified : (Spake2.verifyConfirm C H G confirmKey peerPoint myPoint
      (payload.take confirmNonceSize) peerFingerprint myFingerprint
      ((payload.take (confirmNonceSize + confirmHmacSize)).drop confirmNonceSize) :
        Outcome ExchangeError Bool) = .ok true := by
    obtain ⟨hnonempty, hsender, hreceiver, hne, n', hn', hconfirm⟩ :=
      Spake2.computeConfirm_eq_ok.mp hfields.confirm
    rw [Spake2.verifyConfirm_eq_ok_true, Spake2.computeConfirm_eq_ok, hfields.nonce]
    refine ⟨hnonempty, hsender, hreceiver, hne, n', hn', ?_⟩
    rw [hconfirm, Spake2.confirmInput, Spake2.confirmInput, Spake2.sessionAad_comm]
  refine ⟨payload, hbuilt, ?_⟩
  unfold processConfirmMsg
  simp only [hexDecode_toHexLower, hfields.length, lt_irrefl, if_false, hverified, Outcome.ok_bind]
  rw [if_neg (by decide), Spake2.sessionAad_comm peerPoint, hfields.encAddr]
  exact congrArg Except.ok (read_padded hplain _)

end Confirm

/-! ### Keys -/

section Keys

variable {F S P : Type} [Field F] [DecidableEq F] [Field S] [AddCommGroup P] [DecidableEq P]
  [Module S P] {C : Curve F P} {H : Primitives} {G : Generators C H}

/-- The view that a side has of an honest peer with the secret `secret`. -/
def honestView (C : Curve F P) (H : Primitives) (n : F × F) (mine theirs : State F S)
    (myFingerprint peerFingerprint secret : Bytes) : ProcessedSpake :=
  let isServer := decide (mine.blindedBytesM C > theirs.blindedBytesM C)
  let myPoint := if isServer then mine.blindedBytesN C else mine.blindedBytesM C
  let peerPoint := if isServer then theirs.blindedBytesM C else theirs.blindedBytesN C
  let key := H.hkdf (Spake2.sessionSalt H (C.marshalPoint n) myPoint peerPoint myFingerprint
    peerFingerprint) secret Spake2.sessionInfo
  { effectiveMyPoint := myPoint
    effectivePeerPoint := peerPoint
    peerFingerprint
    isServer
    confirmKey := key.take 32
    encKey := key.drop 32 }

/-- One honest side: it gets past every check, and its secret is the first coordinate of the product
of the server's N-scalar, the client's M-scalar and the base point. -/
theorem processSpakeMsg_honest (hC : C.Lawful) {n : F × F} (hn : C.affineXy G.n = .ok n)
    {pw rM rN rM' rN' : S} {mine theirs : State F S} (hmine : mine.Blinds C H G pw rM rN)
    (htheirs : theirs.Blinds C H G pw rM' rN') (hpw : pw ≠ 0) (hrM' : rM' ≠ 0) (hrN' : rN' ≠ 0)
    (hdistinct : mine.blindedBytesM C ≠ theirs.blindedBytesM C) {shared : F × F}
    (hshared : C.toEncoded ((if mine.blindedBytesM C > theirs.blindedBytesM C then rN * rM'
      else rM * rN') • C.base) = C.marshalPoint shared) (hx : shared.1 ≠ 0)
    {myFingerprint peerFingerprint : Bytes} (hmyLength : myFingerprint.length = fingerprintSize)
    (hpeerLength : peerFingerprint.length = fingerprintSize)
    (hne : myFingerprint ≠ peerFingerprint) :
    processSpakeMsg C H G (toHexLower (spake2Payload C theirs peerFingerprint)) mine
        (mine.blindedBytesM C) (mine.blindedBytesN C) myFingerprint =
      .ok (honestView C H n mine theirs myFingerprint peerFingerprint (C.toRepr shared.1)) := by
  obtain ⟨payload, hpayload⟩ : ∃ payload, payload = spake2Payload C theirs peerFingerprint :=
    ⟨_, rfl⟩
  have hM : (theirs.blindedBytesM C).length = pointLen := Spake2.length_marshalPoint hC _
  have hN : (theirs.blindedBytesN C).length = pointLen := Spake2.length_marshalPoint hC _
  have hpoints : (theirs.blindedBytesM C ++ theirs.blindedBytesN C).length = pointLen * 2 := by
    rw [List.length_append, hM, hN]
    rfl
  have hlength : payload.length = spake2PayloadLen := by
    rw [hpayload, spake2Payload, List.length_append, hpoints, hpeerLength]
    rfl
  -- the three fields of the payload
  have hfieldM : payload.take pointLen = theirs.blindedBytesM C := by
    rw [hpayload, spake2Payload, List.append_assoc, ← hM, List.take_left]
  have hfieldN : (payload.take (pointLen * 2)).drop pointLen = theirs.blindedBytesN C := by
    rw [hpayload, spake2Payload, ← hpoints, List.take_left, ← hM, List.drop_left]
  have hfieldFp : (payload.take spake2PayloadLen).drop (pointLen * 2) = peerFingerprint := by
    rw [List.take_of_length_le (Nat.le_of_eq hlength), hpayload, spake2Payload, ← hpoints,
      List.drop_left]
  rw [← hpayload]
  unfold processSpakeMsg
  simp only [hexDecode_toHexLower, hlength, hfieldM, hfieldN, hfieldFp, hmyLength, hpeerLength,
    if_neg hne, if_neg hdistinct]
  rw [if_neg (by decide), if_neg (by decide)]
  -- the shared secret
  have hsecret : mine.computeShared C H G
      (if decide (mine.blindedBytesM C > theirs.blindedBytesM C) = true then theirs.blindedBytesM C
        else theirs.blindedBytesN C) (decide (mine.blindedBytesM C > theirs.blindedBytesM C)) =
      .ok (C.toRepr shared.1) := by
    by_cases hserver : mine.blindedBytesM C > theirs.blindedBytesM C
    · rw [if_pos hserver] at hshared
      rw [decide_eq_true hserver, if_pos rfl]
      exact Spake2.computeShared_blinded hC hmine.pwScalar hpw hrM' true
        (by rw [if_pos rfl, hmine.scalarN]) htheirs.blindedM hshared hx
    · rw [if_neg hserver] at hshared
      rw [decide_eq_false hserver, if_neg (by decide)]
      exact Spake2.computeShared_blinded hC hmine.pwScalar hpw hrN' false
        (by rw [if_neg (by decide), hmine.scalarM]) htheirs.blindedN hshared hx
  rw [hsecret]
  simp only [Outcome.mapErr_ok, Outcome.ok_bind]
  rw [Spake2.deriveSessionKey_eq_ok.mpr ⟨hmyLength, hpeerLength, hne, n, hn, rfl⟩]
  rfl

omit [DecidableEq F] [Field S] [AddCommGroup P] [DecidableEq P] [Module S P] [Field F] in
theorem honestView_mirror (n : F × F) {A B : State F S}
    (hdistinct : A.blindedBytesM C ≠ B.blindedBytesM C) (fingerprintA fingerprintB secret : Bytes) :
    let viewA := honestView C H n A B fingerprintA fingerprintB secret
    let viewB := honestView C H n B A fingerprintB fingerprintA secret
    viewA.isServer = !viewB.isServer ∧ viewA.effectiveMyPoint = viewB.effectivePeerPoint ∧
      viewB.effectiveMyPoint = viewA.effectivePeerPoint ∧ viewA.confirmKey = viewB.confirmKey ∧
      viewA.encKey = viewB.encKey := by
  intro viewA viewB
  have hroles : decide (A.blindedBytesM C > B.blindedBytesM C) =
      !decide (B.blindedBytesM C > A.blindedBytesM C) := by
    by_cases hserver : A.blindedBytesM C > B.blindedBytesM C
    · rw [decide_eq_true hserver, decide_eq_false (List.lt_asymm hserver)]
      rfl
    · rw [decide_eq_false hserver, decide_eq_true (Spake2.gt_of_not_gt hdistinct hserver)]
      rfl
  have hmine : viewA.effectiveMyPoint = viewB.effectivePeerPoint := by
    simp only [viewA, viewB, honestView, hroles]
    cases decide (B.blindedBytesM C > A.blindedBytesM C) <;> rfl
  have htheirs : viewB.effectiveMyPoint = viewA.effectivePeerPoint := by
    simp only [viewA, viewB, honestView, hroles]
    cases decide (B.blindedBytesM C > A.blindedBytesM C) <;> rfl
  have hkey : H.hkdf (Spake2.sessionSalt H (C.marshalPoint n) viewA.effectiveMyPoint
        viewA.effectivePeerPoint fingerprintA fingerprintB) secret Spake2.sessionInfo =
      H.hkdf (Spake2.sessionSalt H (C.marshalPoint n) viewB.effectiveMyPoint
        viewB.effectivePeerPoint fingerprintB fingerprintA) secret Spake2.sessionInfo := by
    rw [Spake2.sessionSalt_comm, hmine, htheirs]
  exact ⟨hroles, hmine, htheirs, congrArg (List.take 32) hkey, congrArg (List.drop 32) hkey⟩

omit [DecidableEq F] [Field S] [DecidableEq P] [Module S P] in
theorem length_honestView (hC : C.Lawful) (hH : H.Lawful) (n : F × F) (mine theirs : State F S)
    (mineFp theirsFp secret : Bytes) :
    let view := honestView C H n mine theirs mineFp theirsFp secret
    view.effectiveMyPoint.length = pointLen ∧ view.effectivePeerPoint.length = pointLen ∧
      view.encKey.length = 32 := by
  simp only [honestView]
  refine ⟨?_, ?_, ?_⟩
  · split <;> exact Spake2.length_marshalPoint hC _
  · split <;> exact Spake2.length_marshalPoint hC _
  · rw [List.length_drop, hH.length_hkdf]

omit [Field S] [DecidableEq P] [Module S P] in
/-- One side's confirmation is accepted by the other. -/
theorem confirm_honest (hC : C.Lawful) (hH : H.Lawful) {n : F × F} (hn : C.affineXy G.n = .ok n)
    {A B : State F S} (hdistinct : A.blindedBytesM C ≠ B.blindedBytesM C)
    {fingerprintA fingerprintB : Bytes} (hlengthA : fingerprintA.length = fingerprintSize)
    (hlengthB : fingerprintB.length = fingerprintSize) (hne : fingerprintA ≠ fingerprintB)
    (secret : Bytes) (draws : ConfirmDraws) {addr : String} (hplain : PlainText addr)
    (hfits : (asBytes addr).length ≤ maxMetadataSize) :
    let viewA := honestView C H n A B fingerprintA fingerprintB secret
    let viewB := honestView C H n B A fingerprintB fingerprintA secret
    ∃ payload, buildConfirmPayload C H G draws viewA.confirmKey viewA.encKey
        viewA.effectiveMyPoint viewA.effectivePeerPoint fingerprintA viewA.peerFingerprint addr =
          .ok payload ∧
      processConfirmMsg C H G (toHexLower payload) viewB.confirmKey viewB.encKey
        viewB.effectiveMyPoint viewB.effectivePeerPoint fingerprintB viewB.peerFingerprint =
          .ok addr := by
  intro viewA viewB
  obtain ⟨-, hmine, htheirs, hconfirmKey, hencKey⟩ := honestView_mirror (H := H) n hdistinct
    fingerprintA fingerprintB secret
  obtain ⟨hmyPoint, hpeerPoint, hkey⟩ :=
    length_honestView hC hH n A B fingerprintA fingerprintB secret
  obtain ⟨payload, hbuilt, haccepted⟩ := confirm_roundtrip (G := G) hH hn hkey hmyPoint hpeerPoint
    hlengthA hlengthB hne draws hplain hfits
  refine ⟨payload, hbuilt, ?_⟩
  rw [← hconfirmKey, ← hencKey, htheirs, ← hmine]
  exact haccepted

/-- The point whose first coordinate is the secret: the server is the side with the larger M-point,
and its N-scalar meets the client's M-scalar. -/
def sharedPoint (C : Curve F P) (A B : State F S) : P :=
  (if A.blindedBytesM C > B.blindedBytesM C then A.scalarN * B.scalarM
    else A.scalarM * B.scalarN) • C.base

/-- **Handshake agreement.** Two sides that built their states from one password and process each
other's payload take opposite roles, see each other's points, hold the same keys, and each accepts
the other's confirmation and reads the address in it. -/
theorem handshake_agreement [DecidableEq S] (hC : C.Lawful) (hH : H.Lawful)
    {iterations fuelA fuelB : Nat} {password : Bytes} {rMA rNA rMB rNB : S} (hrMA : rMA ≠ 0)
    (hrNA : rNA ≠ 0) (hrMB : rMB ≠ 0) (hrNB : rNB ≠ 0) {A B : State F S}
    (hA : Spake2.stateFromScalars C H G iterations fuelA password rMA rNA = .ok A)
    (hB : Spake2.stateFromScalars C H G iterations fuelB password rMB rNB = .ok B)
    (hshared : ∀ xy, C.toEncoded (sharedPoint C A B) = C.marshalPoint xy → xy.1 ≠ 0)
    (hdistinct : A.blindedBytesM C ≠ B.blindedBytesM C) {fingerprintA fingerprintB : Bytes}
    (hlengthA : fingerprintA.length = fingerprintSize)
    (hlengthB : fingerprintB.length = fingerprintSize) (hne : fingerprintA ≠ fingerprintB) :
    ∃ viewA viewB,
      processSpakeMsg C H G (toHexLower (spake2Payload C B fingerprintB)) A (A.blindedBytesM C)
        (A.blindedBytesN C) fingerprintA = .ok viewA ∧
      processSpakeMsg C H G (toHexLower (spake2Payload C A fingerprintA)) B (B.blindedBytesM C)
        (B.blindedBytesN C) fingerprintB = .ok viewB ∧
      viewA.isServer = !viewB.isServer ∧
      viewA.effectiveMyPoint = viewB.effectivePeerPoint ∧
      viewB.effectiveMyPoint = viewA.effectivePeerPoint ∧
      viewA.confirmKey = viewB.confirmKey ∧ viewA.encKey = viewB.encKey ∧
      ∀ (draws : ConfirmDraws) (addr : String), PlainText addr →
        (asBytes addr).length ≤ maxMetadataSize →
        (∃ payload, buildConfirmPayload C H G draws viewA.confirmKey viewA.encKey
            viewA.effectiveMyPoint viewA.effectivePeerPoint fingerprintA viewA.peerFingerprint
            addr = .ok payload ∧
          processConfirmMsg C H G (toHexLower payload) viewB.confirmKey viewB.encKey
            viewB.effectiveMyPoint viewB.effectivePeerPoint fingerprintB viewB.peerFingerprint =
              .ok addr) ∧
        ∃ payload, buildConfirmPayload C H G draws viewB.confirmKey viewB.encKey
            viewB.effectiveMyPoint viewB.effectivePeerPoint fingerprintB viewB.peerFingerprint
            addr = .ok payload ∧
          processConfirmMsg C H G (toHexLower payload) viewA.confirmKey viewA.encKey
            viewA.effectiveMyPoint viewA.effectivePeerPoint fingerprintA viewA.peerFingerprint =
              .ok addr := by
  obtain ⟨pw, hpwA, hpw, hblindsA⟩ := Spake2.blinds_of_stateFromScalars hC hA
  obtain ⟨pw', hpwB, -, hblindsB⟩ := Spake2.blinds_of_stateFromScalars hC hB
  obtain rfl : pw = pw' := Spake2.passwordToScalarFrom_unique hpwA hpwB
  obtain ⟨n, hn⟩ := hC.toEncoded_ne_zero G.n (G.n_ne_zero hC)
  have hn := Spake2.affineXy_of_toEncoded hC hn
  -- the shared point, seen from both sides
  have hpoint : sharedPoint C A B ≠ 0 := by
    rw [sharedPoint, hblindsA.scalarM, hblindsA.scalarN, hblindsB.scalarM, hblindsB.scalarN]
    refine smul_ne_zero ?_ hC.base_ne_zero
    split
    · exact mul_ne_zero hrNA hrMB
    · exact mul_ne_zero hrMA hrNB
  obtain ⟨shared, hencoded⟩ := hC.toEncoded_ne_zero _ hpoint
  have hsharedA : C.toEncoded ((if A.blindedBytesM C > B.blindedBytesM C then rNA * rMB
      else rMA * rNB) • C.base) = C.marshalPoint shared := by
    rw [← hencoded, sharedPoint, hblindsA.scalarM, hblindsA.scalarN, hblindsB.scalarM,
      hblindsB.scalarN]
  have hsharedB : C.toEncoded ((if B.blindedBytesM C > A.blindedBytesM C then rNB * rMA
      else rMB * rNA) • C.base) = C.marshalPoint shared := by
    rw [← hsharedA]
    by_cases hserver : A.blindedBytesM C > B.blindedBytesM C
    · rw [if_pos hserver, if_neg (List.lt_asymm hserver), mul_comm]
    · rw [if_neg hserver, if_pos (Spake2.gt_of_not_gt hdistinct hserver), mul_comm]
  have hviewA := processSpakeMsg_honest hC hn hblindsA hblindsB hpw hrMB hrNB hdistinct hsharedA
    (hshared _ hencoded) hlengthA hlengthB hne
  have hviewB := processSpakeMsg_honest hC hn hblindsB hblindsA hpw hrMA hrNA hdistinct.symm
    hsharedB (hshared _ hencoded) hlengthB hlengthA hne.symm
  obtain ⟨hroles, hmine, htheirs, hconfirmKey, hencKey⟩ := honestView_mirror (H := H) n hdistinct
    fingerprintA fingerprintB (C.toRepr shared.1)
  refine ⟨_, _, hviewA, hviewB, hroles, hmine, htheirs, hconfirmKey, hencKey, ?_⟩
  intro draws addr hplain hfits
  constructor
  · exact confirm_honest hC hH hn hdistinct hlengthA hlengthB hne _ draws hplain hfits
  · exact confirm_honest hC hH hn hdistinct.symm hlengthB hlengthA hne.symm _ draws hplain hfits

/-- On the small curve, with `A` as the server. -/
theorem handshake_agreement_small :
    ∃ viewA viewB,
      processSpakeMsg Spake2.smallCurve Spake2.smallHashes Spake2.smallGenerators
        (toHexLower (spake2Payload Spake2.smallCurve Spake2.smallStateB (List.replicate 32 2)))
        Spake2.smallStateA (Spake2.smallStateA.blindedBytesM Spake2.smallCurve)
        (Spake2.smallStateA.blindedBytesN Spake2.smallCurve) (List.replicate 32 1) = .ok viewA ∧
      processSpakeMsg Spake2.smallCurve Spake2.smallHashes Spake2.smallGenerators
        (toHexLower (spake2Payload Spake2.smallCurve Spake2.smallStateA (List.replicate 32 1)))
        Spake2.smallStateB (Spake2.smallStateB.blindedBytesM Spake2.smallCurve)
        (Spake2.smallStateB.blindedBytesN Spake2.smallCurve) (List.replicate 32 2) = .ok viewB ∧
      viewA.isServer = !viewB.isServer ∧ viewA.confirmKey = viewB.confirmKey := by
  obtain ⟨viewA, viewB, hA, hB, hroles, -, -, hkey, -⟩ := handshake_agreement
    Spake2.smallCurve_lawful Spake2.smallHashes_lawful (by decide) (by decide) (by decide)
    (by decide) Spake2.smallStateFrom_A Spake2.smallStateFrom_B (by decide +kernel)
    (by decide +kernel) (List.length_replicate : (List.replicate 32 (1 : UInt8)).length = 32)
    (List.length_replicate : (List.replicate 32 (2 : UInt8)).length = 32) (by decide)
  exact ⟨viewA, viewB, hA, hB, hroles, hkey⟩

end Keys

end Qvole.Exchange
