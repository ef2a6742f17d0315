import Qvole.Net.Proof.RoundTrip
import Qvole.Net.Resolver

/-!
# Numeric ports

The loop over the digits leaves early and the result is clamped, both far above the largest port: a
text of digits is a port exactly when its value is one, however long it is.
-/

namespace Qvole.Resolver

open Outcome (fail)

/-- The value of digits behind others with value `n`. -/
def digitsFrom (n : Nat) (digits : Bytes) : Nat :=
  digits.foldl (fun n c => n * 10 + (toDigit 10 c).getD 0) n

/-- An optional sign and digits, and the integer they stand for. -/
def IsNumeral (service : Bytes) (value : Int) : Prop :=
  ∃ sign digits, service = sign ++ digits ∧ digits ≠ [] ∧
    (∀ c ∈ digits, (toDigit 10 c).isSome = true) ∧
    ((sign = [] ∨ sign = [43]) ∧ value = digitsValue 10 digits ∨
      sign = [45] ∧ value = -(digitsValue 10 digits : Int))

/-! ### The loop -/

theorem le_digitsFrom (n : Nat) (digits : Bytes) : n ≤ digitsFrom n digits := by
  induction digits generalizing n with
  | nil => exact le_rfl
  | cons c digits ih =>
      calc
        n ≤ n * 10 + (toDigit 10 c).getD 0 := by omega
        _ ≤ digitsFrom (n * 10 + (toDigit 10 c).getD 0) digits := ih _

theorem toDigit_lt {radix d : Nat} {c : UInt8} (h : toDigit radix c = some d) : d < radix := by
  obtain ⟨hlt, heq⟩ := Option.ite_none_right_eq_some.mp h
  exact Option.some.inj heq ▸ hlt

/-- A digit below the cutoff, in `i64`. -/
theorem next_digit {n d : Nat} (hn : (n : Int) < portCutoff) (hd : d < 10) :
    wrapI64 (n * 10) = n * 10 ∧ saturatingAdd (n * 10) d = n * 10 + d := by
  have hn : (n : Int) < 1073741824 := hn
  constructor
  · rw [wrapI64, Int.emod_eq_of_lt (by omega) (by omega)]
    omega
  · rw [saturatingAdd]
    omega

/-- What the loop returns is the value of the digits, or both are at least the cutoff. -/
theorem parsePortDigits_spec {digits : Bytes} (hdigits : ∀ c ∈ digits, (toDigit 10 c).isSome = true)
    (n : Nat) :
    ∃ m : Nat, parsePortDigits n digits = some m ∧
      (m = digitsFrom n digits ∨ portCutoff ≤ m ∧ portCutoff ≤ digitsFrom n digits) := by
  induction digits generalizing n with
  | nil => exact ⟨n, rfl, Or.inl rfl⟩
  | cons c digits ih =>
      obtain ⟨hc, hdigits⟩ := List.forall_mem_cons.mp hdigits
      obtain ⟨d, hd⟩ := Option.isSome_iff_exists.mp hc
      have hvalue : digitsFrom n (c :: digits) = digitsFrom (n * 10 + d) digits := by
        rw [digitsFrom, List.foldl_cons, hd]
        rfl
      have hgrows := le_digitsFrom (n * 10 + d) digits
      rw [parsePortDigits, hd, hvalue]
      simp only [Option.bind_eq_bind, Option.bind_some]
      by_cases hcut : (n : Int) ≥ portCutoff
      · refine ⟨4294967295, ?_, Or.inr ⟨by decide, ?_⟩⟩
        · rw [if_pos hcut]
          rfl
        · omega
      · obtain ⟨hwrap, hadd⟩ := next_digit (Int.not_le.mp hcut) (toDigit_lt hd)
        rw [if_neg hcut, hwrap, hadd]
        by_cases hmax : (n * 10 + d : Int) < n * 10 ∨ (n * 10 + d : Int) > portMax
        · refine ⟨4294967295, ?_, Or.inr ⟨by decide, ?_⟩⟩
          · rw [if_pos hmax]
            rfl
          · have hbig : (4294967295 : Int) < n * 10 + d := by
              rcases hmax with hless | hmore
              · omega
              · exact hmore
            have hcutoff : portCutoff = 1073741824 := rfl
            omega
        · rw [if_neg hmax]
          exact_mod_cast ih hdigits (n * 10 + d)

/-! ### Signs -/

theorem stripPrefix_of_digit {c sign : UInt8} {digits : Bytes} (hne : c ≠ sign) :
    Bytes.stripPrefix [sign] (c :: digits) = none := by
  rw [Bytes.stripPrefix, if_neg]
  simp [List.isPrefixOf, Ne.symm hne]

theorem ne_sign_of_digit {c : UInt8} (h : (toDigit 10 c).isSome = true) : c ≠ 43 ∧ c ≠ 45 := by
  constructor
  · rintro rfl
    exact absurd h (by decide)
  · rintro rfl
    exact absurd h (by decide)

/-- The numeral is read as its value, or both are out of the range of ports. -/
theorem parsePort_numeral {service : Bytes} {value : Int} (h : IsNumeral service value) :
    ∃ port, parsePort service = some port ∧
      (port = value ∨ ¬ (0 ≤ port ∧ port ≤ 65535) ∧ ¬ (0 ≤ value ∧ value ≤ 65535)) := by
  obtain ⟨sign, digits, rfl, hne, hdigits, hvalue⟩ := h
  obtain ⟨m, hm, hspec⟩ := parsePortDigits_spec hdigits 0
  have hzero : digitsFrom 0 digits = digitsValue 10 digits := rfl
  have hcutoff : portCutoff = 1073741824 := rfl
  rw [hzero] at hspec
  have hm : parsePortDigits 0 digits = some (m : Int) := hm
  rcases hvalue with ⟨hsign, rfl⟩ | ⟨rfl, rfl⟩
  · have hread : parsePort (sign ++ digits) =
        some (if (m : Int) ≥ portCutoff then portCutoff - 1 else m) := by
      rcases hsign with rfl | rfl
      · obtain ⟨c, tail, rfl⟩ := List.exists_cons_of_ne_nil hne
        obtain ⟨hplus, hminus⟩ := ne_sign_of_digit (hdigits c List.mem_cons_self)
        rw [List.nil_append, parsePort, if_neg hne, stripPrefix_of_digit hplus,
          stripPrefix_of_digit hminus]
        simp [hm]
      · rw [parsePort, if_neg (by simp), Bytes.stripPrefix_append]
        simp [hm]
    refine ⟨_, hread, ?_⟩
    split <;> omega
  · have hread : parsePort ([45] ++ digits) =
        some (-(if (m : Int) > portCutoff then portCutoff else m)) := by
      have hminus : Bytes.stripPrefix [45] (45 :: digits) = some digits :=
        Bytes.stripPrefix_append [45] digits
      rw [parsePort, if_neg (by simp), List.singleton_append, stripPrefix_of_digit (by decide),
        hminus]
      simp [hm]
    refine ⟨_, hread, ?_⟩
    split <;> omega

/-- **Ports by their value.** A numeral of any length is the port that it stands for; if it stands for
none, the lookup fails with the error for an invalid port. -/
theorem lookupPort_numeral (etcServices : Option Bytes) {service : Bytes} {value : Int}
    (h : IsNumeral service value) :
    (∀ v : UInt16, lookupPort etcServices service = .ok v ↔ value = v.toNat) ∧
      (¬ (0 ≤ value ∧ value ≤ 65535) → lookupPort etcServices service =
        fail (ascii "address " ++ service ++ ascii ": " ++ ascii "invalid port")) := by
  obtain ⟨port, hport, hvalue⟩ := parsePort_numeral h
  rw [lookupPort, hport]
  by_cases hrange : 0 ≤ port ∧ port ≤ 65535
  · obtain rfl : port = value := by tauto
    simp only [if_pos hrange, Except.ok.injEq]
    refine ⟨fun v => ?_, fun hout => absurd hrange hout⟩
    rw [← UInt16.toNat_inj, UInt16.toNat_ofNat', Nat.mod_eq_of_lt (by omega)]
    omega
  · have hout : ¬ (0 ≤ value ∧ value ≤ 65535) := by
      rcases hvalue with rfl | hout
      · exact hrange
      · exact hout.2
    simp only [if_neg hrange]
    refine ⟨fun v => ?_, fun _ => rfl⟩
    have hsmall := v.toNat_lt
    simp only [fail, reduceCtorEq, false_iff]
    omega

/-- A value just above 2^32, which 32 bits would wrap to port 80. -/
theorem lookupPort_numeral_wrapped :
    IsNumeral (ascii "+4294967376") 4294967376 ∧
      lookupPort none (ascii "+4294967376") = fail (ascii "address +4294967376: invalid port") := by
  have hnumeral : IsNumeral (ascii "+4294967376") 4294967376 :=
    ⟨[43], ascii "4294967376", by decide, by decide, List.all_eq_true.mp (by decide),
      Or.inl ⟨Or.inr rfl, by decide⟩⟩
  exact ⟨hnumeral, (lookupPort_numeral none hnumeral).2 (by decide)⟩

end Qvole.Resolver
