import Qvole.Lib.Outcome
import Mathlib.Algebra.Module.Defs
import Mathlib.Algebra.Field.Defs

/-!
# The curve and the hashes

What `spake2.rs` takes from other crates, and what it builds from them before any key agreement
starts: the arithmetic and the encodings of `p256`, the hash functions, the two generators hashed to
the curve, and the scalar of a password. `F` is the field of coordinates, `S` the field of scalars
and `P` the group of points, the identity included.
-/

namespace Qvole.Spake2

/-- The part of `p256` in use. -/
structure Curve (F P : Type) where
  /-- `FieldElement::to_repr`. -/
  toRepr : F → Bytes
  /-- `FieldElement::from_repr_vartime`. -/
  fromRepr : Bytes → Option F
  sqrt : F → Option F
  coeffB : F
  /-- The standard base point. -/
  base : P
  /-- `to_encoded_point(false)`. -/
  toEncoded : P → Bytes
  /-- `AffinePoint::from_encoded_point`, on encodings that `EncodedPoint::from_bytes` accepts. -/
  fromEncoded : Bytes → Option P

/-- The hash functions and the cipher in use. -/
structure Primitives where
  sha256 : Bytes → Bytes
  /-- PBKDF2-HMAC-SHA256 with 32 bytes of output: password, salt, iterations. -/
  pbkdf2 : Bytes → Bytes → Nat → Bytes
  /-- HKDF-SHA256 with 64 bytes of output: salt, secret, info. -/
  hkdf : Bytes → Bytes → Bytes → Bytes
  /-- HMAC-SHA256: key, input. -/
  hmac : Bytes → Bytes → Bytes
  /-- AES-256-GCM: key, nonce, associated data, message. -/
  gcmSeal : Bytes → Bytes → Bytes → Bytes → Option Bytes
  gcmOpen : Bytes → Bytes → Bytes → Bytes → Option Bytes

inductive Error where
  | invalidPeerPoint
  | peerPointOffCurve
  | unblindedIdentity
  | sharedXZero
  | emptyNonce
  | badFingerprint
  | reflectedFingerprint
  | ciphertextTooShort
  | gcm (text : String)
  | gcmAuth
  deriving DecidableEq, Repr

def Error.toText : Error → String
  | .invalidPeerPoint => "invalid peer spake2 point"
  | .peerPointOffCurve => "peer spake2 point not on curve"
  | .unblindedIdentity => "spake2: unblinded point is identity"
  | .sharedXZero => "spake2: shared x-coordinate is zero"
  | .emptyNonce => "spake2: confirm nonce must be non-empty"
  | .badFingerprint => "spake2: certificate fingerprints must be 32 bytes"
  | .reflectedFingerprint => "spake2: reflected certificate fingerprint"
  | .ciphertextTooShort => "ciphertext too short"
  | .gcm text => text
  | .gcmAuth => "cipher: message authentication failed"

variable {F S P : Type}

/-- 65-byte uncompressed SEC1 marshalling. -/
def Curve.marshalPoint (C : Curve F P) (xy : F × F) : Bytes :=
  4 :: (C.toRepr xy.1 ++ C.toRepr xy.2)

section Laws

variable [Neg F] [AddCommGroup P]

/-- The documented behaviour of `p256`: canonical encodings that are inverse to decoding, the
identity encoded in one byte, and negation that negates the second coordinate. -/
structure Curve.Lawful (C : Curve F P) : Prop where
  length_toRepr : ∀ f, (C.toRepr f).length = 32
  fromRepr_toRepr : ∀ f, C.fromRepr (C.toRepr f) = some f
  toEncoded_zero : C.toEncoded 0 = [0]
  toEncoded_ne_zero : ∀ p, p ≠ 0 → ∃ xy, C.toEncoded p = C.marshalPoint xy
  toEncoded_neg : ∀ p x y, C.toEncoded p = C.marshalPoint (x, y) →
    C.toEncoded (-p) = C.marshalPoint (x, -y)
  fromEncoded_toEncoded : ∀ p, C.fromEncoded (C.toEncoded p) = some p
  toEncoded_fromEncoded : ∀ xy p, C.fromEncoded (C.marshalPoint xy) = some p →
    C.toEncoded p = C.marshalPoint xy
  base_ne_zero : C.base ≠ 0

/-- The documented behaviour of the hashes and the cipher: output lengths, and that a message of a
size the cipher takes is sealed and opened again. -/
structure Primitives.Lawful (H : Primitives) : Prop where
  length_hkdf : ∀ salt secret info, (H.hkdf salt secret info).length = 64
  length_hmac : ∀ key input, (H.hmac key input).length = 32
  gcmSeal_isSome : ∀ key nonce aad msg, key.length = 32 → nonce.length = 12 →
    aad.length ≤ 2 ^ 36 → msg.length ≤ 2 ^ 36 → ∃ sealed, H.gcmSeal key nonce aad msg = some sealed
  length_gcmSeal : ∀ key nonce aad msg sealed, H.gcmSeal key nonce aad msg = some sealed →
    sealed.length = msg.length + 16
  gcmOpen_gcmSeal : ∀ key nonce aad msg sealed, H.gcmSeal key nonce aad msg = some sealed →
    H.gcmOpen key nonce aad sealed = some msg

end Laws

/-! ### Points -/

namespace Curve

variable (C : Curve F P)

/-- Field element from a 32-byte big-endian value (panics if out of range). -/
def toFe (b : Bytes) : Outcome Error F := .expect (C.fromRepr b)

/-- The coordinates of a point, read from its encoding. -/
def affineXy (p : P) : Outcome Error (F × F) := do
  let bytes := C.toEncoded p
  let x ← C.toFe (← .expect (bytes.slice 1 33))
  let y ← C.toFe (← .expect (bytes.slice 33 65))
  return (x, y)

/-- The point with the given coordinates (panics if it is not on the curve). -/
def pointFromXy (x y : F) : Outcome Error P := .expect (C.fromEncoded (C.marshalPoint (x, y)))

/-- `EncodedPoint::from_bytes`, as `p256` documents it after SEC1: a tag, and the length that goes with
it. The identity is one zero byte, tags 2, 3 and 5 (compressed and compact) have one coordinate and tag 4
has both. Whether the bytes are a point is left to `fromEncoded`. -/
def validEncoding : Bytes → Bool
  | [] => false
  | tag :: rest =>
      if tag = 0 then rest.length = 0
      else if tag = 2 ∨ tag = 3 ∨ tag = 5 then rest.length = 32
      else if tag = 4 then rest.length = 64
      else false

def parsePeerPoint (bytes : Bytes) : Outcome Error P :=
  if !validEncoding bytes then .fail .invalidPeerPoint
  else
    match C.fromEncoded bytes with
    | some p => .ok p
    | none => .fail .peerPointOffCurve

/-- `y = sqrt(x^3 - 3x + B)`. -/
def computeWeierstrassY [Field F] [DecidableEq F] (x : F) : Option F :=
  let rhs := x * x * x - 3 * x + C.coeffB
  if rhs = 0 then some 0 else C.sqrt rhs

end Curve

/-! ### Hashing to the curve -/

def mSeed : Bytes := ascii "qvole-spake2-M-v1"

def nSeed : Bytes := ascii "qvole-spake2-N-v1"

def reduceModP [NatCast F] (bytes : Bytes) : F := (bytes.beNat : F)

def reduceModN [NatCast S] (bytes : Bytes) : S := (bytes.beNat : S)

section HashToCurve

variable [Field F] [DecidableEq F] (C : Curve F P) (H : Primitives)

/-- The loop of `hash_to_curve` from a counter on. -/
def hashToCurveFrom (h : Bytes) : Nat → Nat → Outcome Error P
  | 0, _ => .error .unfinished
  | fuel + 1, counter =>
      let x : F := reduceModP (H.sha256 (h ++ Bytes.be64 counter))
      if x = 0 then hashToCurveFrom h fuel (counter + 1)
      else
        match C.computeWeierstrassY x with
        | some y => C.pointFromXy x y
        | none => hashToCurveFrom h fuel (counter + 1)

def hashToCurve (fuel : Nat) (seed : Bytes) : Outcome Error P :=
  hashToCurveFrom C H (H.sha256 seed) fuel 0

/-- The two generators, computed once from their seeds. -/
structure Generators where
  m : P
  n : P
  fuel : Nat
  m_eq : hashToCurve C H fuel mSeed = .ok m
  n_eq : hashToCurve C H fuel nSeed = .ok n

end HashToCurve

/-! ### Passwords -/

def pwPrefix : Bytes := ascii "qvole-spake2-pw:"

section Password

variable [NatCast S] [Zero S] [DecidableEq S] (H : Primitives)

/-- The loop of `password_to_scalar` from a counter on. -/
def passwordToScalarFrom (iterations : Nat) (pwBytes : Bytes) : Nat → Nat → Outcome Error S
  | 0, _ => .error .unfinished
  | fuel + 1, counter =>
      let input := if counter = 0 then pwBytes else pwBytes ++ Bytes.be64 counter
      let s : S := reduceModN (H.pbkdf2 input pwPrefix iterations)
      if s ≠ 0 then .ok s else passwordToScalarFrom iterations pwBytes fuel (counter + 1)

/-- The scalar of a password, never zero. -/
def passwordToScalar (iterations fuel : Nat) (password : Bytes) : Outcome Error S :=
  passwordToScalarFrom H iterations (pwPrefix ++ password) fuel 0

end Password

end Qvole.Spake2
