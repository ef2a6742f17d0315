import Mathlib.Data.Set.Card
import Qvole.Net.Proof.RoundTrip
import Qvole.Spake2.Code

/-!
# Fair codes

The rejection loop takes every number below `max` for the same number of draws, and takes at least
half of them; so a code can always be made, and it names its room by its digits.
-/

namespace Qvole.Spake2

open Outcome (fail)

variable {max : Nat} {draws rest : List UInt16}

/-! ### The rejection loop -/

def acceptLimit (max : Nat) : Nat := 65536 / max * max

theorem acceptLimit_le (max : Nat) : acceptLimit max ≤ 65536 := Nat.div_mul_le_self 65536 max

/-- The largest multiple that fits leaves out less than half. -/
theorem half_le_acceptLimit (hpos : 0 < max) (hmax : max ≤ 65536) : 32768 ≤ acceptLimit max := by
  have hsplit : acceptLimit max + 65536 % max = 65536 := Nat.div_add_mod' 65536 max
  have hmod : 65536 % max < max := Nat.mod_lt _ hpos
  rcases Nat.le_total max 32768 with hle | hge
  · omega
  · have hquotient : 1 ≤ 65536 / max := Nat.div_pos hmax hpos
    calc
      32768 ≤ 1 * max := by omega
      _ ≤ 65536 / max * max := Nat.mul_le_mul_right max hquotient

theorem randInt_eq (hpos : 0 < max) (hmax : max ≤ 65536) (draws : List UInt16) :
    randInt max draws = (do
      let (v, draws) ← acceptBelow (acceptLimit max) draws
      return (v % max, draws)) := by
  rw [randInt, if_neg (by omega)]
  rfl

theorem randInt_nil (hpos : 0 < max) (hmax : max ≤ 65536) : randInt max [] = .error .unfinished := by
  rw [randInt_eq hpos hmax]
  rfl

theorem randInt_accept (hpos : 0 < max) (hmax : max ≤ 65536) {draw : UInt16}
    (hdraw : draw.toNat < acceptLimit max) (draws : List UInt16) :
    randInt max (draw :: draws) = .ok (draw.toNat % max, draws) := by
  rw [randInt_eq hpos hmax, acceptBelow, if_pos hdraw]
  rfl

/-- A draw that is not accepted is as if it had not been made. -/
theorem randInt_reject (hpos : 0 < max) (hmax : max ≤ 65536) {draw : UInt16}
    (hdraw : ¬ draw.toNat < acceptLimit max) (draws : List UInt16) :
    randInt max (draw :: draws) = randInt max draws := by
  rw [randInt_eq hpos hmax, randInt_eq hpos hmax, acceptBelow, if_neg hdraw]

theorem randInt_single_iff (hpos : 0 < max) (hmax : max ≤ 65536) {draw : UInt16} {r : Nat} :
    randInt max [draw] = .ok (r, []) ↔ draw.toNat < acceptLimit max ∧ draw.toNat % max = r := by
  by_cases hdraw : draw.toNat < acceptLimit max
  · rw [randInt_accept hpos hmax hdraw]
    simp [hdraw]
  · rw [randInt_reject hpos hmax hdraw, randInt_nil hpos hmax]
    simp [hdraw]

/-! ### Counting draws -/

/-- A set of draws that `f` numbers below `n`. -/
theorem ncard_draws {S : Set UInt16} {f : Nat → Nat} {n : Nat}
    (hinj : ∀ i < n, ∀ j < n, f i = f j → i = j) (hsmall : ∀ i < n, f i < 65536)
    (hS : ∀ draw, draw ∈ S ↔ ∃ i < n, f i = draw.toNat) : S.ncard = n := by
  have hvalue : ∀ i < n, (UInt16.ofNat (f i)).toNat = f i := by
    intro i hi
    rw [UInt16.toNat_ofNat', Nat.mod_eq_of_lt (hsmall i hi)]
  have himage : S = (fun i => UInt16.ofNat (f i)) '' (Finset.range n : Set Nat) := by
    ext draw
    rw [hS, Set.mem_image]
    simp only [Finset.coe_range, Set.mem_Iio, ← UInt16.toNat_inj]
    constructor
    · rintro ⟨i, hi, heq⟩
      exact ⟨i, hi, (hvalue i hi).trans heq⟩
    · rintro ⟨i, hi, heq⟩
      exact ⟨i, hi, (hvalue i hi).symm.trans heq⟩
  have himageInj : Set.InjOn (fun i => UInt16.ofNat (f i)) (Finset.range n : Set Nat) := by
    intro i hi j hj heq
    have hi : i < n := by simpa using hi
    have hj : j < n := by simpa using hj
    apply hinj i hi j hj
    rw [← hvalue i hi, ← hvalue j hj]
    exact congrArg UInt16.toNat heq
  rw [himage, himageInj.ncard_image, Set.ncard_coe_finset, Finset.card_range]

theorem ncard_draws_below {limit : Nat} (hlimit : limit ≤ 65536) :
    {draw : UInt16 | draw.toNat < limit}.ncard = limit := by
  apply ncard_draws (f := id) (fun i _ j _ heq => heq) fun i hi => Nat.lt_of_lt_of_le hi hlimit
  intro draw
  constructor
  · intro hdraw
    exact ⟨draw.toNat, hdraw, rfl⟩
  · rintro ⟨i, hi, rfl⟩
    exact hi

/-- The accepted draws with remainder `r` are `r`, `r + max`, and so on up to the limit. -/
theorem ncard_draws_mod {r : Nat} (hr : r < max) :
    {draw : UInt16 | draw.toNat < acceptLimit max ∧ draw.toNat % max = r}.ncard = 65536 / max := by
  have hbelow : ∀ i < 65536 / max, i * max + r < acceptLimit max := by
    intro i hi
    calc
      i * max + r < i * max + max := by omega
      _ = (i + 1) * max := (Nat.succ_mul i max).symm
      _ ≤ 65536 / max * max := Nat.mul_le_mul_right max hi
  apply ncard_draws (f := fun i => i * max + r)
  · intro i _ j _ heq
    exact Nat.eq_of_mul_eq_mul_right (Nat.zero_lt_of_lt hr) (Nat.add_right_cancel heq)
  · intro i hi
    exact Nat.lt_of_lt_of_le (hbelow i hi) (acceptLimit_le max)
  · intro draw
    constructor
    · rintro ⟨hlimit, rfl⟩
      refine ⟨draw.toNat / max, Nat.div_lt_of_lt_mul ?_, Nat.div_add_mod' _ _⟩
      rw [Nat.mul_comm]
      exact hlimit
    · rintro ⟨i, hi, heq⟩
      have hmod : (i * max + r) % max = r := by
        rw [Nat.mul_add_mod', Nat.mod_eq_of_lt hr]
      exact ⟨heq ▸ hbelow i hi, heq ▸ hmod⟩

/-! ### Sequences of draws -/

/-- The draws that every bound accepts. -/
def lowDraws (draws : List UInt16) : Nat := draws.countP fun draw => draw.toNat < 32768

/-- The loop ends at the first accepted draw. -/
theorem randInt_ok (hpos : 0 < max) (hmax : max ≤ 65536) {r : Nat}
    (h : randInt max draws = .ok (r, rest)) :
    ∃ skipped draw, draws = skipped ++ draw :: rest ∧
      (∀ d ∈ skipped, randInt max [d] = .error .unfinished) ∧ randInt max [draw] = .ok (r, []) := by
  induction draws with
  | nil =>
      rw [randInt_nil hpos hmax] at h
      cases h
  | cons draw draws ih =>
      by_cases hdraw : draw.toNat < acceptLimit max
      · rw [randInt_accept hpos hmax hdraw] at h
        cases h
        exact ⟨[], draw, rfl, by simp, randInt_accept hpos hmax hdraw []⟩
      · rw [randInt_reject hpos hmax hdraw] at h
        obtain ⟨skipped, last, rfl, hskipped, hlast⟩ := ih h
        refine ⟨draw :: skipped, last, rfl, ?_, hlast⟩
        rw [List.forall_mem_cons, randInt_reject hpos hmax hdraw]
        exact ⟨randInt_nil hpos hmax, hskipped⟩

/-- It ends unless the draws run out before any low one. -/
theorem randInt_cases (hpos : 0 < max) (hmax : max ≤ 65536) (draws : List UInt16) :
    (∃ r rest, randInt max draws = .ok (r, rest) ∧ r < max ∧ lowDraws draws ≤ lowDraws rest + 1) ∨
      randInt max draws = .error .unfinished ∧ lowDraws draws = 0 := by
  induction draws with
  | nil => exact Or.inr ⟨randInt_nil hpos hmax, rfl⟩
  | cons draw draws ih =>
      by_cases hdraw : draw.toNat < acceptLimit max
      · refine Or.inl ⟨draw.toNat % max, draws, randInt_accept hpos hmax hdraw draws,
          Nat.mod_lt _ hpos, ?_⟩
        rw [lowDraws, lowDraws, List.countP_cons]
        split <;> omega
      · have hhigh : ¬ draw.toNat < 32768 := by
          have hhalf := half_le_acceptLimit hpos hmax
          omega
        have hcount : lowDraws (draw :: draws) = lowDraws draws :=
          List.countP_cons_of_neg (by simpa using hhigh)
        rw [randInt_reject hpos hmax hdraw, hcount]
        exact ih

/-- The numbers of a sequence of draws, each made with what the one before it has left. -/
inductive Draws : List UInt16 → List Nat → List Nat → Prop
  | nil (draws : List UInt16) : Draws draws [] []
  | cons {max r : Nat} {maxes vals : List Nat} {draws rest : List UInt16} :
      randInt max draws = .ok (r, rest) → r < max → Draws rest maxes vals →
      Draws draws (max :: maxes) (r :: vals)

theorem Draws.head_lt {r : Nat} {maxes vals : List Nat} (h : Draws draws (max :: maxes) (r :: vals)) :
    r < max := by
  cases h
  assumption

theorem drawVals_cases {maxes : List Nat} (hmaxes : ∀ max ∈ maxes, 0 < max ∧ max ≤ 65536)
    (draws : List UInt16) :
    (∃ vals, drawVals maxes draws = .ok vals ∧ Draws draws maxes vals) ∨
      drawVals maxes draws = .error .unfinished ∧ lowDraws draws < maxes.length := by
  induction maxes generalizing draws with
  | nil => exact Or.inl ⟨[], rfl, .nil draws⟩
  | cons max maxes ih =>
      obtain ⟨⟨hpos, hmax⟩, hmaxes⟩ := List.forall_mem_cons.mp hmaxes
      rcases randInt_cases hpos hmax draws with ⟨r, rest, hr, hlt, hcount⟩ | ⟨hr, hnone⟩
      · rcases ih hmaxes rest with ⟨vals, hvals, hall⟩ | ⟨hvals, hfew⟩
        · refine Or.inl ⟨r :: vals, ?_, .cons hr hlt hall⟩
          rw [drawVals, hr, Outcome.mapErr_ok, Outcome.ok_bind]
          simp only [hvals]
          rfl
        · refine Or.inr ⟨?_, by rw [List.length_cons]; omega⟩
          rw [drawVals, hr, Outcome.mapErr_ok, Outcome.ok_bind]
          simp only [hvals]
          rfl
      · refine Or.inr ⟨?_, by rw [List.length_cons]; omega⟩
        rw [drawVals, hr]
        rfl

/-! ### Codes -/

section Code

variable {n : Nat} {words : List Bytes} {code tail : Bytes}

theorem fourDigits_length (hn : n < 10000) : (fourDigits n).length = 4 := by
  have hdecimal : (decimal n).length ≤ 4 := by
    rw [decimal, List.length_map]
    exact (Nat.length_toDigits_le_iff (by decide) (by decide)).mpr hn
  rw [fourDigits, List.length_append, List.length_replicate]
  omega

theorem isAsciiDigit_of_toDigit (c : UInt8) :
    (toDigit 10 c).isSome = true → isAsciiDigit c = true := by
  intro h
  by_contra hdigit
  simp only [isAsciiDigit, Bool.and_eq_true, decide_eq_true_eq] at hdigit
  simp only [toDigit, if_neg hdigit, Option.isSome_ite] at h
  split at h
  · omega
  · split at h <;> omega

theorem fourDigits_digits (n : Nat) : ∀ c ∈ fourDigits n, isAsciiDigit c = true := by
  intro c hc
  rcases List.mem_append.mp hc with hzero | hdigit
  · rw [List.eq_of_mem_replicate hzero]
    decide
  · exact isAsciiDigit_of_toDigit c ((digitsText_spec (Or.inl rfl) n).1 c hdigit)

theorem isGeneratedCode_fourDigits (hn : n < 10000) (tail : Bytes) :
    isGeneratedCode (fourDigits n ++ 45 :: tail) = true ∧
      (fourDigits n ++ 45 :: tail).take 4 = fourDigits n := by
  have hlength := fourDigits_length hn
  have htake : (fourDigits n ++ 45 :: tail).take 4 = fourDigits n := by
    rw [← hlength, List.take_left]
  have hdash : (fourDigits n ++ 45 :: tail)[4]? = some 45 := by
    rw [← hlength, List.getElem?_append_right le_rfl, Nat.sub_self]
    rfl
  refine ⟨?_, htake⟩
  rw [isGeneratedCode, htake, hdash]
  have hdigits : (fourDigits n).all isAsciiDigit = true :=
    List.all_eq_true.mpr (fourDigits_digits n)
  have hlong : (fourDigits n ++ 45 :: tail).length ≥ 5 := by
    rw [List.length_append, List.length_cons]
    omega
  rw [hdigits, decide_eq_true hlong]
  rfl

/-- The code that four draws stand for: four digits and three words of the list. -/
def codeOf (words : List Bytes) (n first second third : Nat) : Bytes :=
  fourDigits n ++ 45 :: (words.getD first [] ++ 45 :: (words.getD second [] ++ 45 ::
    words.getD third []))

/-- A code is made unless the draws run out. -/
theorem generateCode_cases (hwords : words ≠ []) (hlength : words.length ≤ 65536)
    (draws : List UInt16) :
    (∃ n first second third,
        Draws draws [10000, words.length, words.length, words.length] [n, first, second, third] ∧
        generateCode words draws = .ok (codeOf words n first second third)) ∨
      generateCode words draws = .error .unfinished ∧ lowDraws draws < 4 := by
  have hpos : 0 < words.length := List.length_pos_iff.mpr hwords
  have hmaxes : ∀ max ∈ [10000, words.length, words.length, words.length],
      0 < max ∧ max ≤ 65536 := by
    simp [hpos, hlength]
  rcases drawVals_cases hmaxes draws with ⟨vals, hvals, hall⟩ | ⟨hvals, hfew⟩
  · have hdraws := hall
    cases hall with
    | @cons _ n _ _ _ _ _ hn hall =>
    cases hall with
    | @cons _ first _ _ _ _ _ hfirst hall =>
    cases hall with
    | @cons _ second _ _ _ _ _ hsecond hall =>
    cases hall with
    | @cons _ third _ _ _ _ _ hthird hall =>
    cases hall
    refine Or.inl ⟨n, first, second, third, hdraws, ?_⟩
    rw [generateCode, hvals]
    simp [Outcome.expect, hfirst, hsecond, hthird, codeOf]
  · refine Or.inr ⟨?_, hfew⟩
    rw [generateCode, hvals]
    rfl

end Code

/-- **Fair codes.** Every number below `max` comes of equally many draws, at least half of the draws
are taken, and the loop ends at the first of these. So with enough low draws there is a code. Its four
digits are a number drawn below 10000, which names its room, and its words are the words of the list
at three numbers drawn below the length of the list, each with what the draw before it has left. -/
theorem generateCode_unbiased {max : Nat} (hpos : 0 < max) (hmax : max ≤ 65536)
    {words : List Bytes} (hwords : words ≠ []) (hlength : words.length ≤ 65536) :
    (∀ r < max, {draw : UInt16 | randInt max [draw] = .ok (r, [])}.ncard = 65536 / max) ∧
    32768 ≤ {draw : UInt16 | ∃ r, randInt max [draw] = .ok (r, [])}.ncard ∧
    (∀ draws, randInt max draws = .error .unfinished ∧ lowDraws draws = 0 ∨
      ∃ r skipped draw rest, randInt max draws = .ok (r, rest) ∧ r < max ∧
        draws = skipped ++ draw :: rest ∧
        (∀ d ∈ skipped, randInt max [d] = .error .unfinished) ∧ randInt max [draw] = .ok (r, [])) ∧
    ∀ draws, generateCode words draws = .error .unfinished ∧ lowDraws draws < 4 ∨
      ∃ code n first second third,
        Draws draws [10000, words.length, words.length, words.length] [n, first, second, third] ∧
        generateCode words draws = .ok code ∧ code = codeOf words n first second third ∧
        n < 10000 ∧ isGeneratedCode code = true ∧
        code.take 4 = fourDigits n ∧ ∀ H, nameplate H code = fourDigits n := by
  refine ⟨fun r hr => ?_, ?_, fun draws => ?_, fun draws => ?_⟩
  · simp only [randInt_single_iff hpos hmax]
    exact ncard_draws_mod hr
  · simp only [randInt_single_iff hpos hmax, exists_and_left, exists_eq', and_true]
    rw [ncard_draws_below (acceptLimit_le max)]
    exact half_le_acceptLimit hpos hmax
  · rcases randInt_cases hpos hmax draws with ⟨r, rest, hr, hlt, -⟩ | hnone
    · obtain ⟨skipped, draw, heq, hskipped, hdraw⟩ := randInt_ok hpos hmax hr
      exact Or.inr ⟨r, skipped, draw, rest, hr, hlt, heq, hskipped, hdraw⟩
    · exact Or.inl hnone
  · rcases generateCode_cases hwords hlength draws with
      ⟨n, first, second, third, hdraws, hcode⟩ | hnone
    · have hn : n < 10000 := hdraws.head_lt
      obtain ⟨hgenerated, htake⟩ := isGeneratedCode_fourDigits hn (words.getD first [] ++ 45 ::
        (words.getD second [] ++ 45 :: words.getD third []))
      refine Or.inr ⟨_, n, first, second, third, hdraws, hcode, rfl, hn, hgenerated, htake,
        fun H => ?_⟩
      rw [codeOf, nameplate, if_pos hgenerated, htake]
    · exact Or.inl hnone

/-- The largest bound, for which every draw is its own result, and a list of two words. -/
theorem generateCode_unbiased_whole :
    (0 < 65536 ∧ [ascii "burrow", ascii "vole"] ≠ []) ∧
      {draw : UInt16 | randInt 65536 [draw] = .ok (65535, [])}.ncard = 1 ∧
      generateCode [ascii "burrow", ascii "vole"] [7, 0, 1, 2] =
        .ok (ascii "0007-burrow-vole-burrow") ∧
      ∀ H, nameplate H (ascii "0007-burrow-vole-burrow") = ascii "0007" := by
  have hwords : [ascii "burrow", ascii "vole"] ≠ [] := List.cons_ne_nil _ _
  have hmade : generateCode [ascii "burrow", ascii "vole"] [7, 0, 1, 2] =
      .ok (ascii "0007-burrow-vole-burrow") := by decide
  obtain ⟨hcount, -, -, hcodes⟩ :=
    generateCode_unbiased (Nat.zero_lt_succ 65535) le_rfl hwords (by decide)
  refine ⟨⟨by decide, hwords⟩, hcount 65535 (by decide), hmade, ?_⟩
  rcases hcodes [7, 0, 1, 2] with ⟨-, hfew⟩ | ⟨code, n, -, -, -, -, hcode, -, -, -, htake, hnamed⟩
  · exact absurd hfew (by decide)
  · obtain rfl := Except.ok.inj (hmade.symm.trans hcode)
    intro H
    rw [hnamed H, ← htake]
    decide

end Qvole.Spake2
