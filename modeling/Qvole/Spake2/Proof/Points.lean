import Qvole.Spake2.Pake
import Mathlib.Algebra.Module.Torsion.Field
import Mathlib.Algebra.Field.ZMod

/-!
# Blinding and unblinding

The coordinates of a point are read from its encoding, so only the identity has none and reading
them there panics. With that out of the way a blinded point is what the peer subtracts the
password's share from, and both sides reach the same multiple of the base point.
-/

namespace Qvole.Spake2

variable {F S P : Type} [Field F] [DecidableEq F] [Field S] [DecidableEq S] [AddCommGroup P]
  [DecidableEq P] [Module S P] {C : Curve F P} {H : Primitives} {G : Generators C H}

/-! ### Coordinates -/

section Coordinates

omit [DecidableEq F] [DecidableEq P]

theorem length_marshalPoint (hC : C.Lawful) (xy : F × F) : (C.marshalPoint xy).length = 65 := by
  simp [Curve.marshalPoint, hC.length_toRepr]

theorem slice_marshalPoint_fst (hC : C.Lawful) (xy : F × F) :
    Bytes.slice (C.marshalPoint xy) 1 33 = some (C.toRepr xy.1) := by
  have hx := hC.length_toRepr xy.1
  rw [Bytes.slice, if_pos (by rw [length_marshalPoint hC]; omega)]
  simp [Curve.marshalPoint, hx]

theorem slice_marshalPoint_snd (hC : C.Lawful) (xy : F × F) :
    Bytes.slice (C.marshalPoint xy) 33 65 = some (C.toRepr xy.2) := by
  have hx := hC.length_toRepr xy.1
  have hy := hC.length_toRepr xy.2
  rw [Bytes.slice, if_pos (by rw [length_marshalPoint hC]; omega)]
  simp [Curve.marshalPoint, List.take_append, hx, List.take_of_length_le (Nat.le_of_eq hy)]

theorem toFe_toRepr (hC : C.Lawful) (f : F) : C.toFe (C.toRepr f) = .ok f := by
  rw [Curve.toFe, hC.fromRepr_toRepr]
  rfl

theorem affineXy_of_toEncoded (hC : C.Lawful) {p : P} {xy : F × F}
    (h : C.toEncoded p = C.marshalPoint xy) : C.affineXy p = .ok xy := by
  simp only [Curve.affineXy, h, slice_marshalPoint_fst hC, slice_marshalPoint_snd hC,
    Outcome.expect, Outcome.ok_bind, toFe_toRepr hC]
  rfl

theorem affineXy_zero (hC : C.Lawful) : C.affineXy (0 : P) = .error .panicked := by
  simp only [Curve.affineXy, hC.toEncoded_zero]
  rfl

theorem affineXy_eq_ok (hC : C.Lawful) {p : P} {xy : F × F} :
    C.affineXy p = .ok xy ↔ C.toEncoded p = C.marshalPoint xy := by
  constructor
  · intro h
    by_cases hp : p = 0
    · rw [hp, affineXy_zero hC] at h
      cases h
    · obtain ⟨xy', hxy'⟩ := hC.toEncoded_ne_zero p hp
      rw [affineXy_of_toEncoded hC hxy'] at h
      rw [hxy', Except.ok.inj h]
  · exact affineXy_of_toEncoded hC

theorem ne_zero_of_toEncoded (hC : C.Lawful) {p : P} {xy : F × F}
    (h : C.toEncoded p = C.marshalPoint xy) : p ≠ 0 := by
  rintro rfl
  have hlen := congrArg List.length h
  rw [hC.toEncoded_zero, length_marshalPoint hC] at hlen
  simp at hlen

theorem pointFromXy_neg (hC : C.Lawful) {p : P} {xy : F × F}
    (h : C.toEncoded p = C.marshalPoint xy) : C.pointFromXy xy.1 (-xy.2) = .ok (-p) := by
  rw [Curve.pointFromXy, ← hC.toEncoded_neg p xy.1 xy.2 h, hC.fromEncoded_toEncoded]
  rfl

theorem parsePeerPoint_marshalPoint (hC : C.Lawful) {p : P} {xy : F × F}
    (h : C.toEncoded p = C.marshalPoint xy) : C.parsePeerPoint (C.marshalPoint xy) = .ok p := by
  have hvalid : Curve.validEncoding (C.marshalPoint xy) = true := by
    simp [Curve.marshalPoint, Curve.validEncoding, hC.length_toRepr]
  rw [Curve.parsePeerPoint, hvalid, ← h, hC.fromEncoded_toEncoded]
  rfl

end Coordinates

/-! ### Generators and passwords -/

omit [DecidableEq P] in
theorem hashToCurveFrom_ne_zero (hC : C.Lawful) {h : Bytes} {fuel counter : Nat} {p : P}
    (hp : hashToCurveFrom C H h fuel counter = .ok p) : p ≠ 0 := by
  induction fuel generalizing counter with
  | zero => cases hp
  | succ fuel ih =>
      simp only [hashToCurveFrom] at hp
      split at hp
      · exact ih hp
      · split at hp
        · exact ne_zero_of_toEncoded hC
            (hC.toEncoded_fromEncoded _ p (Outcome.expect_eq_ok.mp hp))
        · exact ih hp

omit [DecidableEq P] in
theorem Generators.m_ne_zero (hC : C.Lawful) (G : Generators C H) : G.m ≠ 0 :=
  hashToCurveFrom_ne_zero hC G.m_eq

omit [DecidableEq P] in
theorem Generators.n_ne_zero (hC : C.Lawful) (G : Generators C H) : G.n ≠ 0 :=
  hashToCurveFrom_ne_zero hC G.n_eq

theorem passwordToScalarFrom_ne_zero {iterations : Nat} {pwBytes : Bytes} {fuel counter : Nat}
    {s : S} (hs : passwordToScalarFrom H iterations pwBytes fuel counter = .ok s) : s ≠ 0 := by
  induction fuel generalizing counter with
  | zero => cases hs
  | succ fuel ih =>
      rw [passwordToScalarFrom] at hs
      by_cases hne : (reduceModN (H.pbkdf2 (if counter = 0 then pwBytes
          else pwBytes ++ Bytes.be64 counter) pwPrefix iterations) : S) ≠ 0
      · rw [if_pos hne] at hs
        exact Except.ok.inj hs ▸ hne
      · rw [if_neg hne] at hs
        exact ih hs

theorem passwordToScalarFrom_unique {iterations : Nat} {pwBytes : Bytes} {fuel fuel' counter : Nat}
    {s s' : S} (hs : passwordToScalarFrom H iterations pwBytes fuel counter = .ok s)
    (hs' : passwordToScalarFrom H iterations pwBytes fuel' counter = .ok s') : s = s' := by
  induction fuel generalizing fuel' counter with
  | zero => cases hs
  | succ fuel ih =>
      cases fuel' with
      | zero => cases hs'
      | succ fuel' =>
          rw [passwordToScalarFrom] at hs hs'
          by_cases hne : (reduceModN (H.pbkdf2 (if counter = 0 then pwBytes
              else pwBytes ++ Bytes.be64 counter) pwPrefix iterations) : S) ≠ 0
          · rw [if_pos hne] at hs hs'
            exact (Except.ok.inj hs).symm.trans (Except.ok.inj hs')
          · rw [if_neg hne] at hs hs'
            exact ih hs hs'

/-! ### States -/

/-- What a state holds: the password's scalar, the two ephemeral scalars, and the two points they
blind. -/
structure State.Blinds (C : Curve F P) (H : Primitives) (G : Generators C H) (pw rM rN : S)
    (state : State F S) : Prop where
  pwScalar : state.pwScalar = pw
  scalarM : state.scalarM = rM
  scalarN : state.scalarN = rN
  blindedM : C.toEncoded (rM • C.base + pw • G.m) = C.marshalPoint state.blindedM
  blindedN : C.toEncoded (rN • C.base + pw • G.n) = C.marshalPoint state.blindedN

omit [DecidableEq P] in
theorem blinds_of_stateFromScalars (hC : C.Lawful) {iterations fuel : Nat} {password : Bytes}
    {rM rN : S} {state : State F S}
    (h : stateFromScalars C H G iterations fuel password rM rN = .ok state) :
    ∃ pw, passwordToScalar H iterations fuel password = .ok pw ∧ pw ≠ 0 ∧
      state.Blinds C H G pw rM rN := by
  simp only [stateFromScalars, Curve.addAffine, generatorScalar, Outcome.bind_eq_ok,
    affineXy_eq_ok hC, pure, Except.pure, Except.ok.injEq] at h
  obtain ⟨pw, hpw, blindedM, hM, blindedN, hN, rfl⟩ := h
  exact ⟨pw, hpw, passwordToScalarFrom_ne_zero hpw, rfl, rfl, rfl, hM, hN⟩

omit [DecidableEq S] in
/-- Unblinding a point that was blinded with the same password leaves the peer's share, and the
secret is the first coordinate of the common multiple of the base point. -/
theorem computeShared_blinded (hC : C.Lawful) {state : State F S} {pw r : S}
    (hpw : state.pwScalar = pw) (hpwne : pw ≠ 0) (hr : r ≠ 0) (peerUsedM : Bool) {k : S}
    (hk : k = if peerUsedM then state.scalarN else state.scalarM) {peer shared : F × F}
    (hpeer : C.toEncoded (r • C.base + pw • (if peerUsedM then G.m else G.n)) =
      C.marshalPoint peer)
    (hshared : C.toEncoded ((k * r) • C.base) = C.marshalPoint shared) (hx : shared.1 ≠ 0) :
    state.computeShared C H G (C.marshalPoint peer) peerUsedM = .ok (C.toRepr shared.1) := by
  have hgenerator : pw • (if peerUsedM then G.m else G.n) ≠ 0 := by
    refine smul_ne_zero hpwne ?_
    split
    · exact G.m_ne_zero hC
    · exact G.n_ne_zero hC
  obtain ⟨xy, hxy⟩ := hC.toEncoded_ne_zero _ hgenerator
  have hunblinded : r • C.base + pw • (if peerUsedM then G.m else G.n) +
      -(pw • (if peerUsedM then G.m else G.n)) = r • C.base := add_neg_cancel_right _ _
  have hscalar : (if !peerUsedM then state.scalarM else state.scalarN) = k := by
    rw [hk]
    cases peerUsedM <;> rfl
  unfold State.computeShared
  simp only [generatorScalar, hpw, parsePeerPoint_marshalPoint hC hpeer,
    affineXy_of_toEncoded hC hxy, pointFromXy_neg hC hxy, Outcome.ok_bind, hunblinded, hscalar,
    if_neg (smul_ne_zero hr hC.base_ne_zero), smul_smul, hshared, slice_marshalPoint_fst hC,
    Outcome.expect, toFe_toRepr hC, if_neg hx]
  rfl

/-! ### Panics -/

omit [Field F] [DecidableEq F] [AddCommGroup P] [DecidableEq P] in
theorem returns_parsePeerPoint (C : Curve F P) (bytes : Bytes) :
    Outcome.Returns (C.parsePeerPoint bytes) := by
  unfold Curve.parsePeerPoint
  split
  · exact Outcome.returns_fail _
  · split
    · exact Outcome.returns_ok _
    · exact Outcome.returns_fail _

/-- The shared point would be the identity, although the peer's point without its blinding is not:
the ephemeral scalar is zero. -/
def State.SharesIdentity (C : Curve F P) (H : Primitives) (G : Generators C H) (state : State F S)
    (peerBlindedBytes : Bytes) (peerUsedM : Bool) : Prop :=
  (if peerUsedM then state.scalarN else state.scalarM) = 0 ∧
    ∃ peer, C.parsePeerPoint peerBlindedBytes = .ok peer ∧
      peer ≠ state.pwScalar • (if peerUsedM then G.m else G.n)

omit [DecidableEq S] in
/-- The coordinates of the identity are read from an encoding of one byte. -/
theorem returns_computeShared_iff (hC : C.Lawful) {state : State F S} (hpw : state.pwScalar ≠ 0)
    (peerBlindedBytes : Bytes) (peerUsedM : Bool) :
    Outcome.Returns (state.computeShared C H G peerBlindedBytes peerUsedM) ↔
      ¬ state.SharesIdentity C H G peerBlindedBytes peerUsedM := by
  have hgenerator : state.pwScalar • (if peerUsedM then G.m else G.n) ≠ 0 := by
    refine smul_ne_zero hpw ?_
    split
    · exact G.m_ne_zero hC
    · exact G.n_ne_zero hC
  obtain ⟨xy, hxy⟩ := hC.toEncoded_ne_zero _ hgenerator
  have hscalar : (if !peerUsedM then state.scalarM else state.scalarN) =
      if peerUsedM then state.scalarN else state.scalarM := by
    cases peerUsedM <;> rfl
  unfold State.computeShared State.SharesIdentity
  rcases hparsed : C.parsePeerPoint peerBlindedBytes with fault | peer
  · obtain ⟨error, rfl⟩ := returns_parsePeerPoint C peerBlindedBytes fault hparsed
    constructor
    · rintro - ⟨-, peer, hpeer, -⟩
      cases hpeer
    · intro
      exact Outcome.returns_fail error
  · simp only [generatorScalar, affineXy_of_toEncoded hC hxy, pointFromXy_neg hC hxy,
      Outcome.ok_bind, hscalar]
    by_cases hunblinded : peer + -(state.pwScalar • (if peerUsedM then G.m else G.n)) = 0
    · rw [if_pos hunblinded]
      constructor
      · rintro - ⟨-, peer', hpeer', hne⟩
        obtain rfl := Except.ok.inj hpeer'
        exact hne (add_neg_eq_zero.mp hunblinded)
      · intro
        exact Outcome.returns_fail _
    · rw [if_neg hunblinded]
      by_cases hzero : (if peerUsedM then state.scalarN else state.scalarM) = 0
      · rw [hzero, zero_smul, hC.toEncoded_zero]
        constructor
        · intro h
          exact absurd h Outcome.not_returns_panicked
        · intro h
          exact absurd ⟨rfl, peer, rfl, fun heq => hunblinded (by rw [heq, add_neg_cancel])⟩ h
      · obtain ⟨shared, hshared⟩ := hC.toEncoded_ne_zero _ (smul_ne_zero hzero hunblinded)
        simp only [hshared, slice_marshalPoint_fst hC, Outcome.expect, Outcome.ok_bind,
          toFe_toRepr hC]
        constructor
        · rintro - ⟨hzero', -⟩
          exact hzero hzero'
        · intro
          split
          · exact Outcome.returns_fail _
          · exact Outcome.returns_ok _

/-! ### A small curve -/

instance factPrimeFive : Fact (Nat.Prime 5) := ⟨by decide⟩

instance factPrimeSeven : Fact (Nat.Prime 7) := ⟨by decide⟩

def smallRepr (n : Nat) : Bytes := List.replicate 31 0 ++ [UInt8.ofNat n]

/-- The multiples of the base point of `y^2 = x^3 - 3x + 1` over the field of five elements, a group
of order seven. -/
def smallXy (p : ZMod 7) : Option (ZMod 5 × ZMod 5) :=
  match p.val with
  | 0 => none
  | 1 => some (1, 2)
  | 2 => some (-2, -2)
  | 3 => some (0, 1)
  | 4 => some (0, -1)
  | 5 => some (-2, 2)
  | _ => some (1, -2)

def smallEncoded (p : ZMod 7) : Bytes :=
  match smallXy p with
  | none => [0]
  | some (x, y) => 4 :: (smallRepr x.val ++ smallRepr y.val)

def smallCurve : Curve (ZMod 5) (ZMod 7) where
  toRepr f := smallRepr f.val
  fromRepr b := (List.finRange 5).find? fun f : ZMod 5 => smallRepr f.val = b
  sqrt f := (List.finRange 5).find? fun r : ZMod 5 => r * r = f
  coeffB := 1
  base := 1
  toEncoded := smallEncoded
  fromEncoded b := (List.finRange 7).find? fun p : ZMod 7 => smallEncoded p = b

theorem smallCurve_lawful : smallCurve.Lawful where
  length_toRepr := by decide +kernel
  fromRepr_toRepr := by decide +kernel
  toEncoded_zero := by decide +kernel
  toEncoded_ne_zero := by decide +kernel
  toEncoded_neg := by decide +kernel
  fromEncoded_toEncoded := by decide +kernel
  toEncoded_fromEncoded := by decide +kernel
  base_ne_zero := by decide +kernel

/-- Checksums for hashes, and a cipher that appends an empty tag. -/
def smallHashes : Primitives where
  sha256 b := smallRepr (2 * (b.map UInt8.toNat).sum % 5)
  pbkdf2 password _ _ := smallRepr ((password.map UInt8.toNat).sum % 7)
  hkdf salt secret _ := (secret ++ salt ++ List.replicate 64 0).take 64
  hmac key input := (smallRepr ((input.map UInt8.toNat).sum % 251)).take 16 ++
    (key ++ List.replicate 16 0).take 16
  gcmSeal _ _ _ msg := some (msg ++ List.replicate 16 0)
  gcmOpen _ _ _ ct := some (ct.take (ct.length - 16))

theorem smallHashes_lawful : smallHashes.Lawful where
  length_hkdf salt secret info := by
    simp only [smallHashes, List.length_take, List.length_append, List.length_replicate]
    omega
  length_hmac key input := by simp [smallHashes, smallRepr]
  gcmSeal_isSome key nonce aad msg _ _ _ _ := ⟨_, rfl⟩
  length_gcmSeal key nonce aad msg ct h := by
    obtain rfl := Option.some.inj h
    simp
  gcmOpen_gcmSeal key nonce aad msg ct h := by
    obtain rfl := Option.some.inj h
    simp [smallHashes]

def smallGenerators : Generators smallCurve smallHashes where
  m := 5
  n := 1
  fuel := 5
  m_eq := by decide +kernel
  n_eq := by decide +kernel

def smallStateFrom (rM rN : ZMod 7) : Outcome Error (State (ZMod 5) (ZMod 7)) :=
  stateFromScalars smallCurve smallHashes smallGenerators 1 5 (ascii "pw") rM rN

/-- Two states with one password; the M-point of the first is the larger one. -/
def smallStateA : State (ZMod 5) (ZMod 7) := (smallStateFrom 1 2).get (by decide +kernel)

def smallStateB : State (ZMod 5) (ZMod 7) := (smallStateFrom (-4) 2).get (by decide +kernel)

theorem smallStateFrom_A : smallStateFrom 1 2 = .ok smallStateA := Outcome.eq_ok_get _

theorem smallStateFrom_B : smallStateFrom (-4) 2 = .ok smallStateB := Outcome.eq_ok_get _

end Qvole.Spake2
