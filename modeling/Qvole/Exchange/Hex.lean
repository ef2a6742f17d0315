import Qvole.Lib.Bytes

/-!
# The peers' hex codec

Port of `hex.rs` of the protocol crate. It agrees with the relay's own codec, which is written
separately.
-/

namespace Qvole.Exchange

def hexDigits : Bytes := ascii "0123456789abcdef"

def toHexLower (b : Bytes) : Bytes :=
  b.flatMap fun byte : UInt8 =>
    [hexDigits.getD (byte >>> 4).toNat 0, hexDigits.getD (byte &&& 0x0f).toNat 0]

def val (c : UInt8) : Option UInt8 :=
  if 48 ≤ c ∧ c ≤ 57 then some (c - 48)
  else if 97 ≤ c ∧ c ≤ 102 then some (c - 97 + 10)
  else if 65 ≤ c ∧ c ≤ 70 then some (c - 65 + 10)
  else none

def hexDecode : Bytes → Option Bytes
  | [] => some []
  | [_] => none
  | high :: low :: rest => do
      let h ← val high
      let l ← val low
      let out ← hexDecode rest
      return (h <<< 4 ||| l) :: out

theorem toHexLower_cons (byte : UInt8) (b : Bytes) :
    toHexLower (byte :: b) =
      hexDigits.getD (byte >>> 4).toNat 0 :: hexDigits.getD (byte &&& 0x0f).toNat 0 ::
        toHexLower b := rfl

theorem val_hexDigits_fin : ∀ n : Fin 256,
    val (hexDigits.getD (UInt8.ofNat n >>> 4).toNat 0) = some (UInt8.ofNat n >>> 4) ∧
      val (hexDigits.getD (UInt8.ofNat n &&& 0x0f).toNat 0) = some (UInt8.ofNat n &&& 0x0f) ∧
      (UInt8.ofNat n >>> 4) <<< 4 ||| (UInt8.ofNat n &&& 0x0f) = UInt8.ofNat n := by
  decide +kernel

theorem val_hexDigits (byte : UInt8) :
    val (hexDigits.getD (byte >>> 4).toNat 0) = some (byte >>> 4) ∧
      val (hexDigits.getD (byte &&& 0x0f).toNat 0) = some (byte &&& 0x0f) ∧
      (byte >>> 4) <<< 4 ||| (byte &&& 0x0f) = byte := by
  have hfin := val_hexDigits_fin ⟨byte.toNat, byte.toNat_lt⟩
  simpa using hfin

theorem hexDecode_toHexLower (b : Bytes) : hexDecode (toHexLower b) = some b := by
  induction b with
  | nil => rfl
  | cons byte b ih =>
      obtain ⟨hhigh, hlow, hbyte⟩ := val_hexDigits byte
      rw [toHexLower_cons, hexDecode, hhigh, hlow, ih]
      simp [hbyte]

end Qvole.Exchange
