import Qvole.Exchange.Hex
import Qvole.Spake2.Pake

/-!
# The handshake messages

Port of the message part of `exchange.rs`: the SPAKE2 payload `M-point || N-point || fingerprint`,
the role and the keys a side derives from the peer's payload, and the confirmation payload
`nonce || HMAC || encrypted address || padding`. Texts that go on the wire are byte strings; random
draws are arguments.
-/

namespace Qvole.Exchange

open Spake2 (Curve Primitives Generators State)

def pointLen : Nat := 65
def fingerprintSize : Nat := 32
def spake2PayloadLen : Nat := pointLen * 2 + fingerprintSize
def maxMetadataSize : Nat := 52
def confirmNonceSize : Nat := 16
def confirmHmacSize : Nat := 32
def encryptedAddrSize : Nat := 12 + maxMetadataSize + 16
def confirmMinSize : Nat := confirmNonceSize + confirmHmacSize + encryptedAddrSize
def confirmRandPad : Nat := 32
def confirmPayloadSize : Nat := confirmMinSize + confirmRandPad

inductive ExchangeError where
  | spake2State (error : Spake2.Error)
  | hex (text : String)
  | wire (text : String)
  | deriveKey (text : String)
  | computeConfirm (text : String)
  | encryptAddr (text : String)
  | addressTooLong (length max : Nat)
  | confirmPayloadTooShort
  | confirmMismatch
  | decryptAddr (text : String)
  | timeout
  | relayRead (error : String)
  | cancelled
  deriving DecidableEq, Repr

structure ProcessedSpake where
  effectiveMyPoint : Bytes
  effectivePeerPoint : Bytes
  peerFingerprint : Bytes
  isServer : Bool
  confirmKey : Bytes
  encKey : Bytes
  deriving DecidableEq, Repr

/-- The random draws of a confirmation payload. -/
structure ConfirmDraws where
  confirmNonce : Bytes
  gcmNonce : Bytes
  /-- A buffer of the given length filled at random. -/
  pad : Nat → Bytes
  length_confirmNonce : confirmNonce.length = confirmNonceSize
  length_gcmNonce : gcmNonce.length = 12
  length_pad : ∀ n, (pad n).length = n

/-- `str::as_bytes`. -/
def asBytes (text : String) : Bytes := text.toList.flatMap String.utf8EncodeChar

/-- `char::from` on a byte. -/
def charFrom (b : UInt8) : Char := Char.ofNat b.toNat

variable {F S P : Type}

/-- `myPointM || myPointN || fingerprint`. -/
def spake2Payload (C : Curve F P) (state : State F S) (myFingerprint : Bytes) : Bytes :=
  state.blindedBytesM C ++ state.blindedBytesN C ++ myFingerprint

section Spake2

variable [Field F] [DecidableEq F] [Field S] [AddCommGroup P] [DecidableEq P] [Module S P]
  (C : Curve F P) (H : Primitives) (G : Generators C H)

/-- The larger M-point is the server and uses N; the client uses M. -/
def processSpakeMsg (body : Bytes) (state : State F S) (myPointM myPointN myFingerprint : Bytes) :
    Outcome ExchangeError ProcessedSpake :=
  match hexDecode body with
  | none => .fail (.hex "invalid hex string")
  | some peerPayload =>
      if peerPayload.length < spake2PayloadLen then .fail (.wire "spake2 payload too short")
      else
        let peerPointM := peerPayload.take pointLen
        let peerPointN := (peerPayload.take (pointLen * 2)).drop pointLen
        let peerFingerprint := (peerPayload.take spake2PayloadLen).drop (pointLen * 2)
        if myFingerprint.length ≠ fingerprintSize ∨ peerFingerprint.length ≠ fingerprintSize then
          .fail (.wire "spake2: certificate fingerprints must be 32 bytes")
        else if myFingerprint = peerFingerprint then
          .fail (.wire "spake2: peer sent reflected certificate fingerprint")
        else if myPointM = peerPointM then .fail (.wire "spake2: peer sent reflected point")
        else do
          let isServer := decide (myPointM > peerPointM)
          let effectiveMyPoint := if isServer then myPointN else myPointM
          let effectivePeerPoint := if isServer then peerPointM else peerPointN
          let shared ← Outcome.mapErr .spake2State
            (state.computeShared C H G effectivePeerPoint isServer)
          let (confirmKey, encKey) ← Outcome.mapErr (.deriveKey ·.toText)
            (Spake2.deriveSessionKey C H G shared effectiveMyPoint effectivePeerPoint myFingerprint
              peerFingerprint)
          return { effectiveMyPoint, effectivePeerPoint, peerFingerprint, isServer, confirmKey,
                   encKey }

end Spake2

section Confirm

variable [Field F] [DecidableEq F] (C : Curve F P) (H : Primitives) (G : Generators C H)

/-- The address goes into a field of fixed size, filled up with zeros. -/
def buildConfirmPayload (draws : ConfirmDraws) (confirmKey encKey myPoint peerPoint myFingerprint
    peerFingerprint : Bytes) (myAddr : String) : Outcome ExchangeError Bytes := do
  let aad := Spake2.sessionAad myPoint peerPoint
  let confirm ← Outcome.mapErr (.computeConfirm ·.toText)
    (Spake2.computeConfirm C H G confirmKey myPoint peerPoint draws.confirmNonce myFingerprint
      peerFingerprint)
  let addrBytes := asBytes myAddr
  if addrBytes.length > maxMetadataSize then
    .fail (.addressTooLong addrBytes.length maxMetadataSize)
  else
    let addrBytes := addrBytes ++ List.replicate (maxMetadataSize - addrBytes.length) 0
    let encAddr ← Outcome.mapErr (.encryptAddr ·.toText)
      (Spake2.encryptMetadata H draws.gcmNonce encKey aad addrBytes)
    let cp := draws.confirmNonce ++ confirm ++ encAddr
    return if cp.length < confirmPayloadSize then cp ++ draws.pad (confirmPayloadSize - cp.length)
      else cp

def processConfirmMsg (hexBody confirmKey encKey myPoint peerPoint myFingerprint
    peerFingerprint : Bytes) : Outcome ExchangeError String :=
  match hexDecode hexBody with
  | none => .fail (.hex "invalid hex string")
  | some payload =>
      if payload.length < confirmPayloadSize then .fail .confirmPayloadTooShort
      else do
        let peerNonce := payload.take confirmNonceSize
        let peerConfirm := (payload.take (confirmNonceSize + confirmHmacSize)).drop confirmNonceSize
        let peerEncAddr := (payload.take (confirmPayloadSize - confirmRandPad)).drop
          (confirmNonceSize + confirmHmacSize)
        let verified ← Spake2.verifyConfirm C H G confirmKey myPoint peerPoint peerNonce
          myFingerprint peerFingerprint peerConfirm
        if !verified then .fail .confirmMismatch
        else
          let aad := Spake2.sessionAad myPoint peerPoint
          let peerAddrBytes ← Outcome.mapErr (.decryptAddr ·.toText)
            (Spake2.decryptMetadata H encKey aad peerEncAddr)
          return String.ofList ((peerAddrBytes.takeWhile (· ≠ 0)).map charFrom)

end Confirm

end Qvole.Exchange
