import Qvole.Spake2.Proof.Points

/-!
# Panics of the key agreement

A state is built from random draws and then meets whatever the peer sends. Coordinates are read from
encodings at fixed places, which the one byte of the identity does not have. The two blinded points
and the shared point are read so, and each of them may be the identity: the draws are reduced but
never rejected. Nothing else can go wrong.
-/

namespace Qvole.Spake2

variable {F S P : Type} [Field F] [DecidableEq F] [Field S] [DecidableEq S] [AddCommGroup P]
  [DecidableEq P] [Module S P] {C : Curve F P} {H : Primitives} {G : Generators C H}

/-- `new_state` followed by `compute_shared`. -/
def agree (C : Curve F P) (H : Primitives) (G : Generators C H) (iterations fuel : Nat)
    (password privM privN peerBlindedBytes : Bytes) (peerUsedM : Bool) : Outcome Error Bytes := do
  let state : State F S ← newState C H G iterations fuel password privM privN
  state.computeShared C H G peerBlindedBytes peerUsedM

/-- A secret of 32 bytes, or an error that is reported. -/
def Agreed (result : Outcome Error Bytes) : Prop :=
  (∃ secret, result = .ok secret ∧ secret.length = 32) ∨ ∃ error, result = .fail error

theorem agreed_iff {result : Outcome Error Bytes}
    (hlength : ∀ secret, result = .ok secret → secret.length = 32) :
    Agreed result ↔ Outcome.Returns result := by
  constructor
  · rintro (⟨secret, rfl, -⟩ | ⟨error, rfl⟩)
    · exact Outcome.returns_ok secret
    · exact Outcome.returns_fail error
  · intro hreturns
    cases result with
    | ok secret => exact Or.inl ⟨secret, rfl, hlength secret rfl⟩
    | error fault =>
        obtain ⟨error, rfl⟩ := hreturns fault rfl
        exact Or.inr ⟨error, rfl⟩

omit [DecidableEq S] in
theorem length_computeShared (hC : C.Lawful) {state : State F S} {peerBlindedBytes secret : Bytes}
    {peerUsedM : Bool} (h : state.computeShared C H G peerBlindedBytes peerUsedM = .ok secret) :
    secret.length = 32 := by
  simp only [State.computeShared, Outcome.bind_eq_ok] at h
  obtain ⟨peer, -, xy, -, pwPoint, -, h⟩ := h
  split at h
  · cases h
  · simp only [Outcome.bind_eq_ok] at h
    obtain ⟨bytes, -, sharedX, -, h⟩ := h
    split at h
    · cases h
    · obtain rfl := Except.ok.inj h
      exact hC.length_toRepr sharedX

omit [DecidableEq F] [DecidableEq S] [DecidableEq P] in
theorem returns_addAffine_iff (hC : C.Lawful) (a b : P) :
    Outcome.Returns (C.addAffine a b) ↔ a + b ≠ 0 := by
  unfold Curve.addAffine
  by_cases hzero : a + b = 0
  · rw [hzero, affineXy_zero hC]
    exact ⟨fun h => absurd h Outcome.not_returns_panicked, fun h => absurd rfl h⟩
  · obtain ⟨xy, hxy⟩ := hC.toEncoded_ne_zero _ hzero
    rw [affineXy_of_toEncoded hC hxy]
    exact ⟨fun _ => hzero, fun _ => Outcome.returns_ok xy⟩

omit [DecidableEq P] in
theorem exists_stateFromScalars (hC : C.Lawful) {iterations fuel : Nat} {password : Bytes}
    {pw rM rN : S} (hpw : passwordToScalar H iterations fuel password = .ok pw)
    (hM : rM • C.base + pw • G.m ≠ 0) (hN : rN • C.base + pw • G.n ≠ 0) :
    ∃ state, stateFromScalars C H G iterations fuel password rM rN = .ok state := by
  obtain ⟨xyM, hxyM⟩ := hC.toEncoded_ne_zero _ hM
  obtain ⟨xyN, hxyN⟩ := hC.toEncoded_ne_zero _ hN
  simp only [stateFromScalars, hpw, Outcome.ok_bind, generatorScalar, Curve.addAffine]
  rw [affineXy_of_toEncoded hC hxyM, affineXy_of_toEncoded hC hxyN]
  exact ⟨_, rfl⟩

omit [DecidableEq P] in
/-- A state is built unless one of its points would be the identity. -/
theorem returns_stateFromScalars_iff (hC : C.Lawful) {iterations fuel : Nat} {password : Bytes}
    {pw : S} (hpw : passwordToScalar H iterations fuel password = .ok pw) (rM rN : S) :
    Outcome.Returns (stateFromScalars C H G iterations fuel password rM rN) ↔
      rM • C.base + pw • G.m ≠ 0 ∧ rN • C.base + pw • G.n ≠ 0 := by
  constructor
  · intro h
    rw [stateFromScalars, hpw, Outcome.ok_bind] at h
    simp only [generatorScalar] at h
    have hM := (returns_addAffine_iff hC _ _).mp h.of_bind
    obtain ⟨xy, hxy⟩ := hC.toEncoded_ne_zero _ hM
    rw [Curve.addAffine, affineXy_of_toEncoded hC hxy, Outcome.ok_bind] at h
    exact ⟨hM, (returns_addAffine_iff hC _ _).mp h.of_bind⟩
  · rintro ⟨hM, hN⟩
    obtain ⟨state, hstate⟩ := exists_stateFromScalars hC hpw hM hN
    rw [hstate]
    exact Outcome.returns_ok state

/-- **The key agreement does not panic** exactly when neither blinded point is the identity, and the
scalar of the role is not zero for a peer point that has something left without its blinding. -/
theorem agreed_agree_iff (hC : C.Lawful) {iterations fuel : Nat} {password : Bytes} {pw : S}
    (hpw : passwordToScalar H iterations fuel password = .ok pw)
    (privM privN peerBlindedBytes : Bytes) (peerUsedM : Bool) :
    Agreed (agree (S := S) C H G iterations fuel password privM privN peerBlindedBytes peerUsedM) ↔
      (reduceModN privM : S) • C.base + pw • G.m ≠ 0 ∧
      (reduceModN privN : S) • C.base + pw • G.n ≠ 0 ∧
      ∀ peer, C.parsePeerPoint peerBlindedBytes = .ok peer →
        peer ≠ pw • (if peerUsedM then G.m else G.n) →
        (reduceModN (if peerUsedM then privN else privM) : S) ≠ 0 := by
  have hstate := returns_stateFromScalars_iff (G := G) hC hpw (reduceModN privM) (reduceModN privN)
  have hlength : ∀ secret, agree (S := S) C H G iterations fuel password privM privN
      peerBlindedBytes peerUsedM = .ok secret → secret.length = 32 := by
    intro secret h
    obtain ⟨state, -, hshared⟩ := Outcome.bind_eq_ok.mp h
    exact length_computeShared hC hshared
  rw [agreed_iff hlength]
  unfold agree newState
  rcases hbuilt : (stateFromScalars C H G iterations fuel password (reduceModN privM)
      (reduceModN privN) : Outcome Error (State F S)) with fault | state
  · constructor
    · intro h
      obtain ⟨hM, hN⟩ := hstate.mp (hbuilt ▸ h.of_bind)
      obtain ⟨state, hok⟩ := exists_stateFromScalars hC hpw hM hN
      cases hbuilt.symm.trans hok
    · rintro ⟨hM, hN, -⟩
      exact (hbuilt ▸ hstate.mpr ⟨hM, hN⟩ : Outcome.Returns (.error fault)).bind fun _ h => by cases h
  · obtain ⟨hM, hN⟩ := hstate.mp (hbuilt ▸ Outcome.returns_ok state)
    obtain ⟨pw', hpw', hpwne, hblinds⟩ := blinds_of_stateFromScalars hC hbuilt
    obtain rfl : pw = pw' := Except.ok.inj (hpw.symm.trans hpw')
    rw [Outcome.ok_bind, returns_computeShared_iff hC (hblinds.pwScalar ▸ hpwne),
      State.SharesIdentity, hblinds.pwScalar, hblinds.scalarM, hblinds.scalarN]
    have hscalar : (if peerUsedM then (reduceModN privN : S) else reduceModN privM) =
        reduceModN (if peerUsedM then privN else privM) := by
      cases peerUsedM <;> rfl
    rw [hscalar]
    constructor
    · intro h
      exact ⟨hM, hN, fun peer hpeer hne hzero => h ⟨hzero, peer, hpeer, hne⟩⟩
    · rintro ⟨-, -, h⟩ ⟨hzero, peer, hpeer, hne⟩
      exact h peer hpeer hne hzero

/-- The base point of the small curve, sent to a side that drew 1 and 2. -/
theorem agreed_agree_iff_small :
    Agreed (agree (S := ZMod 7) smallCurve smallHashes smallGenerators 1 5 (ascii "pw")
      (smallRepr 1) (smallRepr 2) (smallEncoded 1) false) := by
  have hpw : passwordToScalar smallHashes 1 5 (ascii "pw") = .ok smallStateA.pwScalar := by
    decide +kernel
  refine (agreed_agree_iff smallCurve_lawful hpw _ _ _ _).mpr ?_
  decide +kernel

/-- A first draw of zeros. The blinded points exist; the shared point is the identity, and reading
its coordinates panics where an error is due. -/
theorem zero_draw_panics :
    smallCurve.Lawful ∧ ¬ Agreed (agree (S := ZMod 7) smallCurve smallHashes smallGenerators 1 5
      (ascii "pw") (List.replicate 32 0) (smallRepr 2) (smallEncoded 2) false) := by
  refine ⟨smallCurve_lawful, ?_⟩
  have hpanicked : agree (S := ZMod 7) smallCurve smallHashes smallGenerators 1 5 (ascii "pw")
      (List.replicate 32 0) (smallRepr 2) (smallEncoded 2) false = .error .panicked := by
    decide +kernel
  rw [hpanicked]
  rintro (⟨secret, h, -⟩ | ⟨error, h⟩) <;> cases h

end Qvole.Spake2
