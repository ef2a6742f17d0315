import Qvole.Spake2.Curve

/-!
# The key agreement

Port of `spake2.rs` from the state of one side to the confirmation of the derived keys. Random draws
are arguments. Comparison of byte strings is lexicographic, as for slices.
-/

namespace Qvole.Spake2

variable {F S P : Type}

def sessionInfo : Bytes := ascii "qvole-spake2-session"
def confirmInfo : Bytes := ascii "qvole-spake2-confirm"
def fingerprintInfo : Bytes := ascii "qvole-spake2-fingerprints"
def confirmSenderInfo : Bytes := ascii "qvole-spake2-confirm-sender"
def confirmReceiverInfo : Bytes := ascii "qvole-spake2-confirm-receiver"

/-! ### State -/

structure State (F S : Type) where
  pwScalar : S
  scalarM : S
  scalarN : S
  blindedM : F × F
  blindedN : F × F

namespace State

variable (C : Curve F P)

def blindedBytesM (state : State F S) : Bytes := C.marshalPoint state.blindedM

def blindedBytesN (state : State F S) : Bytes := C.marshalPoint state.blindedN

end State

def generatorScalar [SMul S P] (g : P) (scalar : S) : P := scalar • g

/-- The coordinates of a sum. The identity has none. -/
def Curve.addAffine [Add P] (C : Curve F P) (a b : P) : Outcome Error (F × F) := C.affineXy (a + b)

section State

variable [Field F] [DecidableEq F] [Field S] [DecidableEq S] [AddCommGroup P] [DecidableEq P]
  [Module S P] (C : Curve F P) (H : Primitives) (G : Generators C H)

def stateFromScalars (iterations fuel : Nat) (password : Bytes) (scalarM scalarN : S) :
    Outcome Error (State F S) := do
  let pwScalar : S ← passwordToScalar H iterations fuel password
  let pubM := generatorScalar C.base scalarM
  let pubN := generatorScalar C.base scalarN
  let blindedM ← C.addAffine pubM (generatorScalar G.m pwScalar)
  let blindedN ← C.addAffine pubN (generatorScalar G.n pwScalar)
  return { pwScalar, scalarM, scalarN, blindedM, blindedN }

/-- `new_state`, with its two random draws. -/
def newState (iterations fuel : Nat) (password privM privN : Bytes) : Outcome Error (State F S) :=
  stateFromScalars C H G iterations fuel password (reduceModN privM) (reduceModN privN)

/-- Completes the exchange. `peerUsedM` tells which generator the peer blinded with. The secret is
the first coordinate of the shared point. -/
def State.computeShared (state : State F S) (peerBlindedBytes : Bytes) (peerUsedM : Bool) :
    Outcome Error Bytes := do
  let peer ← C.parsePeerPoint peerBlindedBytes
  let generator := if peerUsedM then G.m else G.n
  let pwPoint := generatorScalar generator state.pwScalar
  let (pwx, pwy) ← C.affineXy pwPoint
  let unblinded := peer + (← C.pointFromXy pwx (-pwy))
  if unblinded = 0 then .fail .unblindedIdentity
  else
    let myScalar := if !peerUsedM then state.scalarM else state.scalarN
    let shared := myScalar • unblinded
    let sharedX ← C.toFe (← .expect ((C.toEncoded shared).slice 1 33))
    if sharedX = 0 then .fail .sharedXZero
    else return C.toRepr sharedX

end State

/-! ### Session keys -/

/-- The two public points in lexicographic order. -/
def sessionAad (myPoint peerPoint : Bytes) : Bytes :=
  if myPoint > peerPoint then peerPoint ++ myPoint else myPoint ++ peerPoint

/-- Whether all differences cancel, without stopping at the first. -/
def constantTimeEq (a b : Bytes) : Bool :=
  if a.length ≠ b.length then false
  else ((a.zip b).foldl (fun diff p => diff ||| (p.1 ^^^ p.2)) 0) == 0

section Keys

variable [Field F] [DecidableEq F] (C : Curve F P) (H : Primitives) (G : Generators C H)

def aadWithGenerators (myPoint peerPoint : Bytes) : Outcome Error Bytes := do
  let n ← C.affineXy G.n
  return sessionAad myPoint peerPoint ++ C.marshalPoint n

def deriveSessionKey (sharedSecret myPoint peerPoint myFingerprint peerFingerprint : Bytes) :
    Outcome Error (Bytes × Bytes) :=
  if myFingerprint.length ≠ 32 ∨ peerFingerprint.length ≠ 32 then .fail .badFingerprint
  else if constantTimeEq myFingerprint peerFingerprint then .fail .reflectedFingerprint
  else do
    let aad ← aadWithGenerators C H G myPoint peerPoint
    let fingerprints :=
      if myFingerprint > peerFingerprint then peerFingerprint ++ myFingerprint
      else myFingerprint ++ peerFingerprint
    let salt := H.sha256 (aad ++ fingerprintInfo ++ fingerprints)
    let key := H.hkdf salt sharedSecret sessionInfo
    return (key.take 32, key.drop 32)

/-! ### Metadata -/

/-- Output is `nonce (12) || ciphertext || tag (16)`. -/
def encryptMetadata (nonceBytes key aad data : Bytes) : Outcome Error Bytes :=
  if key.length ≠ 32 then .fail (.gcm "new cipher: Invalid Length")
  else
    match H.gcmSeal key nonceBytes aad data with
    | some ct => .ok (nonceBytes ++ ct)
    | none => .fail (.gcm "cipher: aead::Error")

def decryptMetadata (key aad ciphertext : Bytes) : Outcome Error Bytes :=
  if key.length ≠ 32 then .fail (.gcm "new cipher: Invalid Length")
  else if ciphertext.length < 12 then .fail .ciphertextTooShort
  else
    match H.gcmOpen key (ciphertext.take 12) aad (ciphertext.drop 12) with
    | some data => .ok data
    | none => .fail .gcmAuth

/-! ### Confirmation -/

def confirmInput (generator myPoint peerPoint nonce senderFingerprint receiverFingerprint : Bytes) :
    Bytes :=
  sessionAad myPoint peerPoint ++ generator ++ confirmSenderInfo ++ senderFingerprint ++
    confirmReceiverInfo ++ receiverFingerprint ++ nonce ++ confirmInfo

def computeConfirm (sessionKey myPoint peerPoint nonce senderFingerprint receiverFingerprint :
    Bytes) : Outcome Error Bytes :=
  if nonce.isEmpty then .fail .emptyNonce
  else if senderFingerprint.length ≠ 32 ∨ receiverFingerprint.length ≠ 32 then .fail .badFingerprint
  else if constantTimeEq senderFingerprint receiverFingerprint then .fail .reflectedFingerprint
  else do
    let n ← C.affineXy G.n
    return H.hmac sessionKey (confirmInput (C.marshalPoint n) myPoint peerPoint nonce
      senderFingerprint receiverFingerprint)

/-- The peer computed its confirmation with the roles of sender and receiver exchanged. Reports no
error: what cannot be computed does not verify. -/
def verifyConfirm {ε : Type} (sessionKey myPoint peerPoint nonce myFingerprint peerFingerprint
    peerConfirm : Bytes) : Outcome ε Bool :=
  match computeConfirm C H G sessionKey myPoint peerPoint nonce peerFingerprint myFingerprint with
  | .ok expected => .ok (constantTimeEq expected peerConfirm)
  | .error (.failed _) => .ok false
  | .error .panicked => .error .panicked
  | .error .unfinished => .error .unfinished

end Keys

end Qvole.Spake2
