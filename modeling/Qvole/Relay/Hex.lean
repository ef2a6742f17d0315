import Qvole.Relay.Room

/-!
# The relay's hex codec

Port of `to_hex_lower` and `hex_decode` of `relay.rs`.
-/

namespace Qvole.Relay

def hexDigit (n : UInt8) : UInt8 := if n < 10 then 48 + n else 87 + n

def hexByte (byte : UInt8) : Bytes := [hexDigit (byte / 16), hexDigit (byte % 16)]

def toHexLower (b : Bytes) : Bytes := b.flatMap hexByte

def hv (c : UInt8) : Option UInt8 :=
  if 48 ≤ c ∧ c ≤ 57 then some (c - 48)
  else if 97 ≤ c ∧ c ≤ 102 then some (c - 97 + 10)
  else if 65 ≤ c ∧ c ≤ 70 then some (c - 65 + 10)
  else none

def hexDecode : Bytes → Option Bytes
  | [] => some []
  | [_] => none
  | high :: low :: rest => do
      let h ← hv high
      let l ← hv low
      let out ← hexDecode rest
      return (h * 16 + l) :: out

theorem hv_hexDigit_fin : ∀ n : Fin 16, hv (hexDigit (UInt8.ofNat n)) = some (UInt8.ofNat n) := by
  decide

theorem hv_hexDigit {n : UInt8} (hn : n.toNat < 16) : hv (hexDigit n) = some n := by
  have hfin := hv_hexDigit_fin ⟨n.toNat, hn⟩
  simpa using hfin

theorem toHexLower_cons (byte : UInt8) (b : Bytes) :
    toHexLower (byte :: b) = hexDigit (byte / 16) :: hexDigit (byte % 16) :: toHexLower b := rfl

theorem div_mod_sixteen (byte : UInt8) : byte / 16 * 16 + byte % 16 = byte := by
  apply UInt8.toNat_inj.mp
  have hlt : byte.toNat < 256 := byte.toNat_lt
  simp only [UInt8.toNat_add, UInt8.toNat_mul, UInt8.toNat_div, UInt8.toNat_mod,
    UInt8.reduceToNat]
  omega

theorem hexDecode_toHexLower (b : Bytes) : hexDecode (toHexLower b) = some b := by
  induction b with
  | nil => rfl
  | cons byte b ih =>
      have hlt : byte.toNat < 256 := byte.toNat_lt
      have hhigh : hv (hexDigit (byte / 16)) = some (byte / 16) := by
        apply hv_hexDigit
        simp only [UInt8.toNat_div, UInt8.reduceToNat]
        omega
      have hlow : hv (hexDigit (byte % 16)) = some (byte % 16) := by
        apply hv_hexDigit
        simp only [UInt8.toNat_mod, UInt8.reduceToNat]
        omega
      rw [toHexLower_cons, hexDecode, hhigh, hlow, ih]
      simp [div_mod_sixteen]

theorem length_toHexLower (b : Bytes) : (toHexLower b).length = 2 * b.length := by
  induction b with
  | nil => rfl
  | cons byte b ih =>
      rw [toHexLower_cons]
      simp only [List.length_cons, ih]
      omega

theorem isAsciiHexdigit_hexDigit_fin :
    ∀ n : Fin 16, isAsciiHexdigit (hexDigit (UInt8.ofNat n)) = true := by
  decide

theorem isAsciiHexdigit_of_mem_toHexLower {b : Bytes} {c : UInt8} (hc : c ∈ toHexLower b) :
    isAsciiHexdigit c = true := by
  simp only [toHexLower, hexByte, List.mem_flatMap, List.mem_cons, List.not_mem_nil, or_false] at hc
  have hdigit : ∀ n : UInt8, n.toNat < 16 → isAsciiHexdigit (hexDigit n) = true := by
    intro n hn
    simpa using isAsciiHexdigit_hexDigit_fin ⟨n.toNat, hn⟩
  obtain ⟨byte, -, rfl | rfl⟩ := hc
  · apply hdigit
    have hlt : byte.toNat < 256 := byte.toNat_lt
    simp only [UInt8.toNat_div, UInt8.reduceToNat]
    omega
  · apply hdigit
    have hlt : byte.toNat < 256 := byte.toNat_lt
    simp only [UInt8.toNat_mod, UInt8.reduceToNat]
    omega

theorem isValidHex_toHexLower {b : Bytes} (hb : b ≠ []) : isValidHex (toHexLower b) = true := by
  have hlen := length_toHexLower b
  have hpos : 0 < b.length := List.length_pos_iff.mpr hb
  have hne : (toHexLower b).isEmpty = false := by
    rw [List.isEmpty_eq_false_iff]
    intro hnil
    rw [hnil] at hlen
    simp only [List.length_nil] at hlen
    omega
  have heven : (toHexLower b).length % 2 = 0 := by omega
  have hall : (toHexLower b).all isAsciiHexdigit = true := by
    rw [List.all_eq_true]
    exact fun c hc => isAsciiHexdigit_of_mem_toHexLower hc
  simp [isValidHex, hne, heven, hall]

end Qvole.Relay
