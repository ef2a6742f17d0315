import Qvole.Exchange.Proof.Formats

/-!
# One hex codec on both ends

Client and relay encode and decode hex with code of their own, and the relay checks hex with a third
predicate before it decodes. All of them agree on every text.
-/

namespace Qvole.Exchange

open Relay (hv isAsciiHexdigit isValidHex)

/-- `u8::to_ascii_lowercase`. -/
def toAsciiLowercase (c : UInt8) : UInt8 := if 65 ≤ c ∧ c ≤ 90 then c + 32 else c

/-! ### One digit -/

theorem hv_isSome_iff (c : UInt8) : (hv c).isSome = true ↔ isAsciiHexdigit c = true := by
  apply Relay.forall_byte (P := fun c => (hv c).isSome = true ↔ isAsciiHexdigit c = true)
  decide +kernel

/-- A digit has a value below sixteen, and is written as itself, in lower case. -/
theorem digit_of_hv {c v : UInt8} (h : hv c = some v) :
    v.toNat < 16 ∧ Relay.hexDigit v = toAsciiLowercase c := by
  have hall : ∀ c : UInt8, (hv c).all (fun v => v.toNat < 16 && Relay.hexDigit v == toAsciiLowercase c) =
      true := by
    apply Relay.forall_byte
    decide +kernel
  have hv := hall c
  rw [h] at hv
  simpa using hv

theorem shift_or_fin : ∀ h l : Fin 16,
    UInt8.ofNat h <<< 4 ||| UInt8.ofNat l = UInt8.ofNat h * 16 + UInt8.ofNat l := by
  decide +kernel

/-- The two ways to put two digits together. -/
theorem shift_or_eq {h l : UInt8} (hh : h.toNat < 16) (hl : l.toNat < 16) :
    h <<< 4 ||| l = h * 16 + l := by
  have hfin := shift_or_fin ⟨h.toNat, hh⟩ ⟨l.toNat, hl⟩
  simpa using hfin

theorem hexByte_digits {h l : UInt8} (hh : h.toNat < 16) (hl : l.toNat < 16) :
    Relay.hexByte (h * 16 + l) = [Relay.hexDigit h, Relay.hexDigit l] := by
  have hbyte : (h * 16 + l).toNat = h.toNat * 16 + l.toNat := by
    simp only [UInt8.toNat_add, UInt8.toNat_mul, UInt8.reduceToNat]
    omega
  have hhigh : (h * 16 + l) / 16 = h := by
    apply UInt8.toNat_inj.mp
    simp only [UInt8.toNat_div, hbyte, UInt8.reduceToNat]
    omega
  have hlow : (h * 16 + l) % 16 = l := by
    apply UInt8.toNat_inj.mp
    simp only [UInt8.toNat_mod, hbyte, UInt8.reduceToNat]
    omega
  rw [Relay.hexByte, hhigh, hlow]

/-! ### Whole texts -/

/-- What the decoder has read: no text, or two digits and more. -/
theorem hexDecode_cons_eq_some {high low : UInt8} {rest b : Bytes} :
    Relay.hexDecode (high :: low :: rest) = some b ↔
      ∃ h l out, hv high = some h ∧ hv low = some l ∧ Relay.hexDecode rest = some out ∧
        b = (h * 16 + l) :: out := by
  simp only [Relay.hexDecode, Option.bind_eq_bind, Option.bind_eq_some_iff, Option.pure_def,
    Option.some.injEq]
  constructor
  · rintro ⟨h, hh, l, hl, out, hout, rfl⟩
    exact ⟨h, l, out, hh, hl, hout, rfl⟩
  · rintro ⟨h, l, out, hh, hl, hout, rfl⟩
    exact ⟨h, hh, l, hl, out, hout, rfl⟩

theorem hexDecode_eq (s : Bytes) : hexDecode s = Relay.hexDecode s := by
  induction s using hexDecode.induct with
  | case1 => rfl
  | case2 _ => rfl
  | case3 high low rest ih =>
      rw [hexDecode, Relay.hexDecode, ih]
      change (hv high).bind _ = (hv high).bind _
      cases hhigh : hv high with
      | none => rfl
      | some h =>
          change (hv low).bind _ = (hv low).bind _
          cases hlow : hv low with
          | none => rfl
          | some l =>
              have hjoin := shift_or_eq (digit_of_hv hhigh).1 (digit_of_hv hlow).1
              simp only [Option.bind_some, hjoin]

theorem hexDecode_isSome_iff (s : Bytes) :
    (Relay.hexDecode s).isSome = true ↔ s.length % 2 = 0 ∧ ∀ c ∈ s, isAsciiHexdigit c = true := by
  refine ⟨fun h => ?_, fun h => hexDecode_isSome h.1 h.2⟩
  obtain ⟨b, hb⟩ := Option.isSome_iff_exists.mp h
  clear h
  induction s using hexDecode.induct generalizing b with
  | case1 => simp
  | case2 _ => cases hb
  | case3 high low rest ih =>
      obtain ⟨h, l, out, hh, hl, hout, -⟩ := hexDecode_cons_eq_some.mp hb
      obtain ⟨heven, hdigits⟩ := ih out hout
      refine ⟨by rw [List.length_cons, List.length_cons]; omega, ?_⟩
      rw [List.forall_mem_cons, List.forall_mem_cons, ← hv_isSome_iff, ← hv_isSome_iff, hh, hl]
      exact ⟨rfl, rfl, hdigits⟩

/-- Reading and writing again leaves a text in lower case. -/
theorem toHexLower_of_hexDecode {s b : Bytes} (h : Relay.hexDecode s = some b) :
    Relay.toHexLower b = s.map toAsciiLowercase := by
  induction s using hexDecode.induct generalizing b with
  | case1 =>
      obtain rfl := Option.some.inj h
      rfl
  | case2 _ => cases h
  | case3 high low rest ih =>
      obtain ⟨v, w, out, hv, hw, hout, rfl⟩ := hexDecode_cons_eq_some.mp h
      obtain ⟨hvsmall, hhigh⟩ := digit_of_hv hv
      obtain ⟨hwsmall, hlow⟩ := digit_of_hv hw
      rw [Relay.toHexLower, List.flatMap_cons, hexByte_digits hvsmall hwsmall, hhigh, hlow,
        ← Relay.toHexLower, ih hout]
      rfl

/-- **The hex codecs agree.** Both encoders write the same, both decoders read it back; on any text
the decoders give the same, which is something exactly for an even number of hex digits. The relay's
check accepts what the client decodes, the empty text apart. -/
theorem codecs_agree :
    (∀ b, toHexLower b = Relay.toHexLower b ∧ hexDecode (toHexLower b) = some b ∧
      Relay.hexDecode (Relay.toHexLower b) = some b) ∧
    ∀ s, hexDecode s = Relay.hexDecode s ∧
      ((hexDecode s).isSome = true ↔
        s.length % 2 = 0 ∧ ∀ c ∈ s, isAsciiHexdigit c = true) ∧
      ((hexDecode s).isSome = true ↔ s = [] ∨ isValidHex s = true) ∧
      (∀ b, hexDecode s = some b → toHexLower b = s.map toAsciiLowercase) ∧
      (isValidHex s = true ↔ s ≠ [] ∧ (hexDecode s).isSome = true) := by
  refine ⟨fun b => ⟨Relay.toHexLower_eq b, hexDecode_toHexLower b, Relay.hexDecode_toHexLower b⟩,
    fun s => ?_⟩
  have hsome := hexDecode_isSome_iff s
  rw [hexDecode_eq, Relay.isValidHex_iff, hsome]
  refine ⟨rfl, Iff.rfl, ?_, fun b hb => ?_, Iff.rfl⟩
  · by_cases hnil : s = []
    · simp [hnil]
    · simp [hnil]
  · rw [Relay.toHexLower_eq]
    exact toHexLower_of_hexDecode hb

end Qvole.Exchange
