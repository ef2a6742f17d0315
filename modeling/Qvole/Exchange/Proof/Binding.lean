import Qvole.Exchange.Proof.Payload

/-!
# Confirmation binds the transcript

What an accepted confirmation says about the two sides, whatever the relay put into the payloads
they processed. The hash functions are taken to be injective on the inputs that the two sides feed
them; on all inputs at once no function into 32 bytes is.
-/

namespace Qvole.Exchange

open Spake2 (Curve Primitives Generators State)

variable {F S P : Type} [Field F] [DecidableEq F] [Field S] [AddCommGroup P] [DecidableEq P]
  [Module S P] {C : Curve F P} {H : Primitives} {G : Generators C H}

/-! ### What a side derives -/

/-- The parts of a view that its keys come from. -/
structure Derived (C : Curve F P) (H : Primitives) (G : Generators C H) (state : State F S)
    (myPointM myPointN myFingerprint : Bytes) (view : ProcessedSpake) (secret : Bytes) : Prop where
  myPoint : view.effectiveMyPoint = if view.isServer then myPointN else myPointM
  length_peerPoint : view.effectivePeerPoint.length = pointLen
  shared : state.computeShared C H G view.effectivePeerPoint view.isServer = .ok secret
  keys : Spake2.deriveSessionKey C H G secret view.effectiveMyPoint view.effectivePeerPoint
    myFingerprint view.peerFingerprint = .ok (view.confirmKey, view.encKey)

theorem derived_of_processSpakeMsg {body myPointM myPointN myFingerprint : Bytes}
    {state : State F S} {view : ProcessedSpake}
    (h : processSpakeMsg C H G body state myPointM myPointN myFingerprint = .ok view) :
    ∃ secret, Derived C H G state myPointM myPointN myFingerprint view secret := by
  unfold processSpakeMsg at h
  cases hdecoded : hexDecode body with
  | none =>
      rw [hdecoded] at h
      cases h
  | some payload =>
      simp only [hdecoded] at h
      by_cases hshort : payload.length < spake2PayloadLen
      · rw [if_pos hshort] at h
        cases h
      · rw [if_neg hshort] at h
        split at h
        · cases h
        · split at h
          · cases h
          · split at h
            · cases h
            · simp only [Outcome.bind_eq_ok, Outcome.mapErr_eq_ok, pure, Except.pure,
                Except.ok.injEq] at h
              obtain ⟨secret, hshared, ⟨confirmKey, encKey⟩, hkeys, rfl⟩ := h
              refine ⟨secret, rfl, ?_, hshared, hkeys⟩
              have hlong : 162 ≤ payload.length := Nat.le_of_not_lt hshort
              simp only
              split <;> simp only [List.length_take, List.length_drop, pointLen] <;> omega

omit [AddCommGroup P] [DecidableEq P] in
theorem confirm_of_buildConfirmPayload (hH : H.Lawful) {draws : ConfirmDraws} {confirmKey encKey
    myPoint peerPoint myFingerprint peerFingerprint payload : Bytes} {addr : String}
    (h : buildConfirmPayload C H G draws confirmKey encKey myPoint peerPoint myFingerprint
      peerFingerprint addr = .ok payload) :
    Spake2.computeConfirm C H G confirmKey myPoint peerPoint (payload.take confirmNonceSize)
      myFingerprint peerFingerprint =
        .ok ((payload.take (confirmNonceSize + confirmHmacSize)).drop confirmNonceSize) := by
  have hfields := payloadFields hH h
  rw [hfields.nonce]
  exact hfields.confirm

omit [AddCommGroup P] [DecidableEq P] in
theorem confirm_of_processConfirmMsg {body payload confirmKey encKey myPoint peerPoint
    myFingerprint peerFingerprint : Bytes} {text : String} (hbody : hexDecode body = some payload)
    (h : processConfirmMsg C H G body confirmKey encKey myPoint peerPoint myFingerprint
      peerFingerprint = .ok text) :
    Spake2.computeConfirm C H G confirmKey myPoint peerPoint (payload.take confirmNonceSize)
      peerFingerprint myFingerprint =
        .ok ((payload.take (confirmNonceSize + confirmHmacSize)).drop confirmNonceSize) := by
  unfold processConfirmMsg at h
  rw [hbody] at h
  simp only at h
  split at h
  · cases h
  · rw [Outcome.bind_eq_ok] at h
    obtain ⟨verified, hverified, h⟩ := h
    cases verified with
    | false => cases h
    | true => exact Spake2.verifyConfirm_eq_ok_true.mp hverified

/-! ### Two sides -/

def kdfAsked (C : Curve F P) (H : Primitives) (G : Generators C H) (state : State F S)
    (myFingerprint : Bytes) (view : ProcessedSpake) : Set (Bytes × Bytes) :=
  {q | ∃ n, C.affineXy G.n = .ok n ∧
    q.1 = Spake2.sessionSalt H (C.marshalPoint n) view.effectiveMyPoint view.effectivePeerPoint
      myFingerprint view.peerFingerprint ∧
    state.computeShared C H G view.effectivePeerPoint view.isServer = .ok q.2}

def hmacAsked (C : Curve F P) (H : Primitives) (G : Generators C H) (view : ProcessedSpake)
    (nonce sender receiver : Bytes) : Set (Bytes × Bytes) :=
  {q | ∃ n, C.affineXy G.n = .ok n ∧
    q = (view.confirmKey, Spake2.confirmInput (C.marshalPoint n) view.effectiveMyPoint
      view.effectivePeerPoint nonce sender receiver)}

theorem kdfAsked_subset {state : State F S} {secret : Bytes} {view : ProcessedSpake} {n : F × F}
    (hn : C.affineXy G.n = .ok n) (myFingerprint : Bytes)
    (hshared : state.computeShared C H G view.effectivePeerPoint view.isServer = .ok secret) :
    kdfAsked C H G state myFingerprint view ⊆
      {(Spake2.sessionSalt H (C.marshalPoint n) view.effectiveMyPoint view.effectivePeerPoint
        myFingerprint view.peerFingerprint, secret)} := by
  rintro ⟨salt, secret'⟩ ⟨n', hn', rfl, hshared'⟩
  rw [hn] at hn'
  rw [hshared] at hshared'
  cases hn'
  cases hshared'
  rfl

omit [AddCommGroup P] [DecidableEq P] in
theorem hmacAsked_subset {n : F × F} (hn : C.affineXy G.n = .ok n) (view : ProcessedSpake)
    (nonce sender receiver : Bytes) :
    hmacAsked C H G view nonce sender receiver ⊆
      {(view.confirmKey, Spake2.confirmInput (C.marshalPoint n) view.effectiveMyPoint
        view.effectivePeerPoint nonce sender receiver)} := by
  rintro q ⟨n', hn', rfl⟩
  rw [hn] at hn'
  cases hn'
  rfl

theorem Derived.length_myPoint (hC : C.Lawful) {state : State F S} {myFingerprint secret : Bytes}
    {view : ProcessedSpake} (h : Derived C H G state (state.blindedBytesM C) (state.blindedBytesN C)
      myFingerprint view secret) : view.effectiveMyPoint.length = pointLen := by
  rw [h.myPoint]
  split <;> exact Spake2.length_marshalPoint hC _

theorem Derived.asked {state : State F S} {myPointM myPointN myFingerprint secret : Bytes}
    {view : ProcessedSpake} {n : F × F} (hn : C.affineXy G.n = .ok n)
    (h : Derived C H G state myPointM myPointN myFingerprint view secret) :
    (Spake2.sessionSalt H (C.marshalPoint n) view.effectiveMyPoint view.effectivePeerPoint
        myFingerprint view.peerFingerprint, secret) ∈ kdfAsked C H G state myFingerprint view ∧
      view.confirmKey = (H.hkdf (Spake2.sessionSalt H (C.marshalPoint n) view.effectiveMyPoint
        view.effectivePeerPoint myFingerprint view.peerFingerprint) secret
          Spake2.sessionInfo).take 32 := by
  obtain ⟨-, -, -, n', hn', hkeys⟩ := Spake2.deriveSessionKey_eq_ok.mp h.keys
  obtain rfl : n' = n := by
    rw [hn] at hn'
    exact (Except.ok.inj hn').symm
  exact ⟨⟨n', hn, rfl, h.shared⟩, congrArg Prod.fst hkeys⟩

/-- **Confirmation binds the transcript.** Take two views, each made from a payload that the relay
may have replaced. If one side accepts a confirmation that the other built, both have the same
secret and the same two points, and each has the other's fingerprint. -/
theorem confirm_binds (hC : C.Lawful) (hH : H.Lawful) {stateA stateB : State F S}
    {bodyA bodyB fingerprintA fingerprintB : Bytes} {viewA viewB : ProcessedSpake}
    (hviewA : processSpakeMsg C H G bodyA stateA (stateA.blindedBytesM C) (stateA.blindedBytesN C)
      fingerprintA = .ok viewA)
    (hviewB : processSpakeMsg C H G bodyB stateB (stateB.blindedBytesM C) (stateB.blindedBytesN C)
      fingerprintB = .ok viewB)
    {draws : ConfirmDraws} {addr text : String} {payload body : Bytes}
    (hbuilt : buildConfirmPayload C H G draws viewB.confirmKey viewB.encKey viewB.effectiveMyPoint
      viewB.effectivePeerPoint fingerprintB viewB.peerFingerprint addr = .ok payload)
    (hbody : hexDecode body = some payload)
    (haccepted : processConfirmMsg C H G body viewA.confirmKey viewA.encKey viewA.effectiveMyPoint
      viewA.effectivePeerPoint fingerprintA viewA.peerFingerprint = .ok text)
    (hhkdf : Set.InjOn (fun q => (H.hkdf q.1 q.2 Spake2.sessionInfo).take 32)
      (kdfAsked C H G stateA fingerprintA viewA ∪ kdfAsked C H G stateB fingerprintB viewB))
    (hhmac : Set.InjOn (fun q => H.hmac q.1 q.2)
      (hmacAsked C H G viewA (payload.take confirmNonceSize) viewA.peerFingerprint fingerprintA ∪
        hmacAsked C H G viewB (payload.take confirmNonceSize) fingerprintB
          viewB.peerFingerprint)) :
    (∃ secret, stateA.computeShared C H G viewA.effectivePeerPoint viewA.isServer = .ok secret ∧
      stateB.computeShared C H G viewB.effectivePeerPoint viewB.isServer = .ok secret) ∧
      s(viewA.effectiveMyPoint, viewA.effectivePeerPoint) =
        s(viewB.effectiveMyPoint, viewB.effectivePeerPoint) ∧
      fingerprintA = viewB.peerFingerprint ∧ viewA.peerFingerprint = fingerprintB := by
  obtain ⟨secretA, hA⟩ := derived_of_processSpakeMsg hviewA
  obtain ⟨secretB, hB⟩ := derived_of_processSpakeMsg hviewB
  obtain ⟨-, hpeerA, hmineA, -, n, hn, hconfirmA⟩ :=
    Spake2.computeConfirm_eq_ok.mp (confirm_of_processConfirmMsg hbody haccepted)
  obtain ⟨-, hmineB, hpeerB, -, n', hn', hconfirmB⟩ :=
    Spake2.computeConfirm_eq_ok.mp (confirm_of_buildConfirmPayload hH hbuilt)
  obtain rfl : n = n' := by
    rw [hn] at hn'
    exact Except.ok.inj hn'
  -- the two HMACs agree, so their keys and their texts do
  have hquery := hhmac (Or.inl ⟨n, hn, rfl⟩) (Or.inr ⟨n, hn, rfl⟩) (hconfirmA.symm.trans hconfirmB)
  obtain ⟨hkey, htext⟩ := Prod.mk.inj hquery
  obtain ⟨hpoints, hsender, hreceiver⟩ := Spake2.confirmInput_inj (hA.length_myPoint hC)
    hA.length_peerPoint (hB.length_myPoint hC) hB.length_peerPoint (hpeerA.trans hmineB.symm)
    (hmineA.trans hpeerB.symm) htext
  -- the keys agree, so the secrets behind them do
  obtain ⟨haskedA, hkeyA⟩ := hA.asked hn
  obtain ⟨haskedB, hkeyB⟩ := hB.asked hn
  have hkdf := hhkdf (Or.inl haskedA) (Or.inr haskedB) (hkeyA.symm.trans (hkey.trans hkeyB))
  obtain rfl := (Prod.mk.inj hkdf).2
  exact ⟨⟨secretA, hA.shared, hB.shared⟩, hpoints, hreceiver, hsender⟩

/-! ### On the small curve -/

def smallViewA : ProcessedSpake :=
  (processSpakeMsg Spake2.smallCurve Spake2.smallHashes Spake2.smallGenerators
    (toHexLower (spake2Payload Spake2.smallCurve Spake2.smallStateB (List.replicate 32 2)))
    Spake2.smallStateA (Spake2.smallStateA.blindedBytesM Spake2.smallCurve)
    (Spake2.smallStateA.blindedBytesN Spake2.smallCurve) (List.replicate 32 1)).get
    (by decide +kernel)

def smallViewB : ProcessedSpake :=
  (processSpakeMsg Spake2.smallCurve Spake2.smallHashes Spake2.smallGenerators
    (toHexLower (spake2Payload Spake2.smallCurve Spake2.smallStateA (List.replicate 32 1)))
    Spake2.smallStateB (Spake2.smallStateB.blindedBytesM Spake2.smallCurve)
    (Spake2.smallStateB.blindedBytesN Spake2.smallCurve) (List.replicate 32 2)).get
    (by decide +kernel)

def smallDraws : ConfirmDraws where
  confirmNonce := List.replicate 16 7
  gcmNonce := List.replicate 12 8
  pad n := List.replicate n 9
  length_confirmNonce := rfl
  length_gcmNonce := rfl
  length_pad := fun _ => List.length_replicate

def smallPayload : Bytes :=
  (buildConfirmPayload Spake2.smallCurve Spake2.smallHashes Spake2.smallGenerators smallDraws
    smallViewB.confirmKey smallViewB.encKey smallViewB.effectiveMyPoint
    smallViewB.effectivePeerPoint (List.replicate 32 2) smallViewB.peerFingerprint
    "10.0.0.2:4433").get (by decide +kernel)

theorem confirm_binds_small :
    s(smallViewA.effectiveMyPoint, smallViewA.effectivePeerPoint) =
        s(smallViewB.effectiveMyPoint, smallViewB.effectivePeerPoint) ∧
      List.replicate 32 1 = smallViewB.peerFingerprint ∧
      smallViewA.peerFingerprint = List.replicate 32 2 := by
  have hn : Spake2.smallCurve.affineXy Spake2.smallGenerators.n = .ok (1, 2) := by decide +kernel
  have hsecret : Spake2.smallStateA.computeShared Spake2.smallCurve Spake2.smallHashes
        Spake2.smallGenerators smallViewA.effectivePeerPoint smallViewA.isServer =
          .ok (Spake2.smallRepr 1) ∧
      Spake2.smallStateB.computeShared Spake2.smallCurve Spake2.smallHashes
        Spake2.smallGenerators smallViewB.effectivePeerPoint smallViewB.isServer =
          .ok (Spake2.smallRepr 1) := by
    decide +kernel
  have hkdf := Set.union_subset (kdfAsked_subset hn (List.replicate 32 1) hsecret.1)
    ((kdfAsked_subset hn (List.replicate 32 2) hsecret.2).trans
      (Set.singleton_subset_singleton.mpr (by decide +kernel)))
  have hhmac := Set.union_subset
    (hmacAsked_subset hn smallViewA (smallPayload.take confirmNonceSize)
      smallViewA.peerFingerprint (List.replicate 32 1))
    ((hmacAsked_subset hn smallViewB (smallPayload.take confirmNonceSize) (List.replicate 32 2)
      smallViewB.peerFingerprint).trans (Set.singleton_subset_singleton.mpr (by decide +kernel)))
  have haccepted : processConfirmMsg Spake2.smallCurve Spake2.smallHashes Spake2.smallGenerators
      (toHexLower smallPayload) smallViewA.confirmKey smallViewA.encKey smallViewA.effectiveMyPoint
      smallViewA.effectivePeerPoint (List.replicate 32 1) smallViewA.peerFingerprint =
        .ok "10.0.0.2:4433" := by
    decide +kernel
  exact (confirm_binds Spake2.smallCurve_lawful Spake2.smallHashes_lawful (Outcome.eq_ok_get _)
    (Outcome.eq_ok_get _) (Outcome.eq_ok_get _) (hexDecode_toHexLower _) haccepted
    ((Set.subsingleton_singleton.anti hkdf).injOn _)
    ((Set.subsingleton_singleton.anti hhmac).injOn _)).2

end Qvole.Exchange
