import Qvole.Lib.Brackets
import Qvole.Tunnel.Proof.Spec

/-!
# The parts of a spec

A spec is cut into parts exactly when its brackets are balanced, and in one way only: the parts are
balanced themselves and have colons inside of brackets only.
-/

namespace Qvole.Tunnel

open Bytes (isUtf8 strSlice)
open Brackets

variable {part rest b : Bytes} {depth : Nat} {parts : List Bytes}

/-- A part of a spec, or the end of one that starts `depth` brackets deep. -/
def IsPart (depth : Nat) (p : Bytes) : Prop := Balanced 91 93 depth p ∧ Guarded 91 93 58 depth p

/-! ### One byte -/

theorem isPart_nil_iff : IsPart depth [] ↔ depth = 0 := by
  rw [IsPart, balanced_nil_iff]
  exact ⟨fun h => h.1, fun h => ⟨h, guarded_nil⟩⟩

theorem isPart_open_iff : IsPart depth (91 :: b) ↔ IsPart (depth + 1) b := by
  rw [IsPart, balanced_open_iff (by decide), guarded_open_iff (by decide) (by decide)]
  exact Iff.rfl

theorem isPart_close_iff : IsPart depth (93 :: b) ↔ depth ≠ 0 ∧ IsPart (depth - 1) b := by
  rw [IsPart, balanced_close_iff (by decide), and_assoc]
  refine and_congr_right fun hdepth => ?_
  rw [guarded_close_iff (by decide) (by decide) hdepth]
  exact Iff.rfl

theorem isPart_other_iff {c : UInt8} (hopen : c ≠ 91) (hclose : c ≠ 93) :
    IsPart depth (c :: b) ↔ ¬ (c = 58 ∧ depth = 0) ∧ IsPart depth b := by
  rw [IsPart, balanced_other_iff hopen hclose, guarded_other_iff hopen hclose, not_and,
    and_left_comm]
  exact Iff.rfl

/-! ### The whole spec -/

theorem splitSpecFrom_eq_none_iff :
    splitSpecFrom part depth b = none ↔ ¬ Balanced 91 93 depth b := by
  induction b generalizing part depth with
  | nil =>
      rw [splitSpecFrom, balanced_nil_iff]
      simp
  | cons c b ih =>
      rw [splitSpecFrom]
      split
      · rename_i hopen
        rw [hopen, balanced_open_iff (by decide), ih]
      · rename_i hopen
        split
        · rename_i hclose
          rw [hclose, balanced_close_iff (by decide)]
          split
          · rename_i hdepth
            simp [hdepth]
          · rename_i hdepth
            rw [ih]
            simp [hdepth]
        · rename_i hclose
          rw [balanced_other_iff hopen hclose]
          split
          · rw [Option.map_eq_none_iff, ih]
          · rw [ih]

/-- `part` is continued to the first part, and the others follow. -/
def Continues (part : Bytes) (depth : Nat) (b : Bytes) (parts : List Bytes) : Prop :=
  ∃ first more, parts = (part ++ first) :: more ∧ [58].intercalate (first :: more) = b ∧
    IsPart depth first ∧ ∀ p ∈ more, IsPart 0 p

theorem continues_nil_iff : Continues part depth [] parts ↔ depth = 0 ∧ parts = [part] := by
  constructor
  · rintro ⟨first, more, rfl, hjoin, hfirst, -⟩
    cases more with
    | nil =>
        rw [List.intercalate_singleton] at hjoin
        subst hjoin
        exact ⟨isPart_nil_iff.mp hfirst, by simp⟩
    | cons next more => simp [List.intercalate_cons_cons] at hjoin
  · rintro ⟨rfl, rfl⟩
    exact ⟨[], [], by simp, by simp, isPart_nil_iff.mpr rfl, by simp⟩

/-- A byte that stays in the part. -/
theorem continues_cons_iff {c : UInt8} {next : Nat}
    (hpart : ∀ p, IsPart depth (c :: p) ↔ IsPart next p) (hend : c ≠ 58 ∨ depth ≠ 0) :
    Continues part depth (c :: b) parts ↔ Continues (part ++ [c]) next b parts := by
  constructor
  · rintro ⟨first, more, rfl, hjoin, hfirst, hmore⟩
    rcases intercalate_eq_cons_iff.mp hjoin with ⟨tail, rfl, htail⟩ | ⟨rfl, rfl, -⟩
    · exact ⟨tail, more, by simp, htail, (hpart tail).mp hfirst, hmore⟩
    · have hdepth := isPart_nil_iff.mp hfirst
      simp [hdepth] at hend
  · rintro ⟨tail, more, rfl, hjoin, htail, hmore⟩
    refine ⟨c :: tail, more, by simp, ?_, (hpart tail).mpr htail, hmore⟩
    exact intercalate_eq_cons_iff.mpr (Or.inl ⟨tail, rfl, hjoin⟩)

/-- A colon that ends the part. -/
theorem continues_colon_iff :
    Continues part 0 (58 :: b) parts ↔ ∃ more, parts = part :: more ∧ Continues [] 0 b more := by
  constructor
  · rintro ⟨first, more, rfl, hjoin, hfirst, hmore⟩
    rcases intercalate_eq_cons_iff.mp hjoin with ⟨tail, rfl, -⟩ | ⟨rfl, -, hne, hrest⟩
    · simp [isPart_other_iff] at hfirst
    · obtain ⟨next, more, rfl⟩ := List.exists_cons_of_ne_nil hne
      obtain ⟨hnext, hmore⟩ := List.forall_mem_cons.mp hmore
      exact ⟨next :: more, by simp, next, more, rfl, hrest, hnext, hmore⟩
  · rintro ⟨_, rfl, next, more, rfl, hjoin, hnext, hmore⟩
    refine ⟨[], next :: more, by simp, ?_, isPart_nil_iff.mpr rfl,
      List.forall_mem_cons.mpr ⟨hnext, hmore⟩⟩
    exact intercalate_eq_cons_iff.mpr (Or.inr ⟨rfl, rfl, List.cons_ne_nil _ _, hjoin⟩)

theorem splitSpecFrom_eq_some_iff :
    splitSpecFrom part depth b = some parts ↔ Continues part depth b parts := by
  induction b generalizing part depth parts with
  | nil =>
      rw [splitSpecFrom, continues_nil_iff]
      simp [eq_comm]
  | cons c b ih =>
      rw [splitSpecFrom]
      split
      · rename_i hopen
        subst hopen
        rw [ih, continues_cons_iff (fun p => isPart_open_iff) (Or.inl (by decide))]
      · rename_i hopen
        split
        · rename_i hclose
          subst hclose
          split
          · rename_i hdepth
            simp only [reduceCtorEq, false_iff]
            rintro ⟨first, more, -, hjoin, hfirst, -⟩
            rcases intercalate_eq_cons_iff.mp hjoin with ⟨tail, rfl, -⟩ | ⟨-, hcolon, -⟩
            · exact (isPart_close_iff.mp hfirst).1 hdepth
            · exact absurd hcolon (by decide)
          · rename_i hdepth
            rw [ih, continues_cons_iff (fun p => ?_) (Or.inl (by decide))]
            rw [isPart_close_iff]
            simp [hdepth]
        · rename_i hclose
          split
          · rename_i hcolon
            obtain ⟨rfl, rfl⟩ := hcolon
            rw [Option.map_eq_some_iff, continues_colon_iff]
            simp only [ih, eq_comm, and_comm]
          · rename_i hcolon
            rw [ih, continues_cons_iff (fun p => ?_) (by tauto)]
            rw [isPart_other_iff hopen hclose]
            simp [hcolon]

/-! ### The loop on offsets -/

theorem wrapI32_of_small {n : Int} (hlow : -2147483648 ≤ n) (hhigh : n < 2147483648) :
    wrapI32 n = n := by
  rw [wrapI32, Int.emod_eq_of_lt (by omega) (by omega)]
  omega

theorem wrapI32_succ {depth : Nat} (h : depth + 1 < 2147483648) :
    wrapI32 (depth + 1) = ((depth + 1 : Nat) : Int) := by
  rw [wrapI32_of_small (by omega) (by omega)]
  rfl

theorem wrapI32_pred {depth : Nat} (h : depth < 2147483648) :
    wrapI32 ((depth : Int) - 1) = (depth : Int) - 1 :=
  wrapI32_of_small (by omega) (by omega)

/-- The slice behind the loop. -/
theorem strSlice_last (done : Bytes) {part : Bytes} (hpart : isUtf8 part = true) :
    strSlice (done ++ part) done.length (done ++ part).length = some part := by
  have hcut := Bytes.strSlice_append (a := done) hpart (c := []) rfl
  rw [List.append_nil] at hcut
  rw [List.length_append]
  exact hcut

/-- The slice at a colon. -/
theorem strSlice_colon (done : Bytes) {part b : Bytes} (hs : isUtf8 (part ++ 58 :: b) = true) :
    strSlice (done ++ (part ++ 58 :: b)) done.length (done.length + part.length) = some part ∧
      isUtf8 b = true := by
  obtain ⟨hpart, hrest⟩ := (Bytes.isUtf8_append_ascii (by decide)).mp hs
  have hcolon : isUtf8 ([] ++ 58 :: b) = true :=
    (Bytes.isUtf8_append_ascii (by decide)).mpr ⟨rfl, hrest⟩
  exact ⟨Bytes.strSlice_append hpart hcolon, hrest⟩

/-- The loop at the end of `part`, which starts behind `done`; the counter has room for the rest. -/
theorem splitSpecLoop_eq (done part : Bytes) {b : Bytes} {depth : Nat} (parts : List Bytes)
    (hs : isUtf8 (part ++ b) = true) (hroom : depth + b.length < 2147483648) :
    splitSpecLoop (done ++ (part ++ b)) (done.length + part.length) done.length depth parts b =
      .ok ((splitSpecFrom part depth b).map (parts ++ ·)) := by
  induction b generalizing done part depth parts with
  | nil =>
      rw [splitSpecLoop, splitSpecFrom]
      by_cases hdepth : depth = 0
      · rw [List.append_nil] at hs ⊢
        simp only [hdepth, ne_eq, not_true_eq_false, if_false, strSlice_last done hs]
        rfl
      · have hcast : (depth : Int) ≠ 0 := by omega
        rw [if_pos hcast, if_pos hdepth]
        rfl
  | cons c b ih =>
      rw [List.length_cons] at hroom
      -- `c` joins the part, which the loop is then at the end of
      have hstep : ∀ next : Nat, next + b.length < 2147483648 →
          splitSpecLoop (done ++ (part ++ c :: b)) (done.length + part.length + 1) done.length next
            parts b = .ok ((splitSpecFrom (part ++ [c]) next b).map (parts ++ ·)) := by
        intro next hnext
        have hs' : isUtf8 ((part ++ [c]) ++ b) = true := by simpa using hs
        have hih := ih done (part ++ [c]) parts hs' hnext
        simpa [Nat.add_assoc] using hih
      rw [splitSpecLoop, splitSpecFrom]
      split
      · rw [wrapI32_succ (by omega)]
        exact hstep (depth + 1) (by omega)
      · split
        · rw [wrapI32_pred (by omega)]
          by_cases hdepth : depth = 0
          · rw [if_pos (by omega), if_pos hdepth]
            rfl
          · have hcast : (depth : Int) - 1 = ((depth - 1 : Nat) : Int) := by omega
            rw [if_neg (by omega), if_neg hdepth, hcast]
            exact hstep (depth - 1) (by omega)
        · by_cases hcolon : c = 58 ∧ depth = 0
          · obtain ⟨rfl, rfl⟩ := hcolon
            have hroom' : 0 + b.length < 2147483648 := by omega
            obtain ⟨hslice, hrest⟩ := strSlice_colon done hs
            have hih := ih (done ++ (part ++ [58])) [] (parts ++ [part]) hrest hroom'
            have htext : done ++ (part ++ [58]) ++ ([] ++ b) = done ++ (part ++ 58 :: b) := by simp
            have hlength : (done ++ (part ++ [58])).length = done.length + part.length + 1 := by
              simp [Nat.add_assoc]
            rw [htext, hlength, List.length_nil, Nat.add_zero] at hih
            have hmap : ∀ o : Option (List Bytes), (o.map (part :: ·)).map (parts ++ ·) =
                o.map (parts ++ [part] ++ ·) := by
              intro o
              rw [Option.map_map]
              congr 1
              funext more
              simp
            simp only [and_self, if_true, hslice, Outcome.expect, Outcome.ok_bind, hmap]
            exact hih
          · have hcast : ¬ (c = 58 ∧ (depth : Int) = 0) := fun h => hcolon ⟨h.1, by omega⟩
            rw [if_neg hcast, if_neg hcolon]
            exact hstep depth (by omega)

/-- **The parts of a spec.** A spec has no parts exactly when it closes a bracket that is not open or
leaves one open. Otherwise they are the only balanced texts, with colons inside of brackets only, that
joined by colons are the spec. The loop of the source takes no range that panics, and gives the same
as long as its counter cannot wrap. -/
theorem splitTunnelRequest_decomposes {s : Bytes} (hs : isUtf8 s = true) :
    (s.length < 2147483648 → splitTunnelRequestSliced s = .ok (splitTunnelRequest s)) ∧
    (splitTunnelRequest s = none ↔
      (∃ front, front <+: s ∧ front.count 91 < front.count 93) ∨ s.count 91 ≠ s.count 93) ∧
    ∀ parts, splitTunnelRequest s = some parts ↔
      parts ≠ [] ∧ [58].intercalate parts = s ∧
        ∀ p ∈ parts, Balanced 91 93 0 p ∧ Guarded 91 93 58 0 p := by
  refine ⟨fun hsmall => ?_, ?_, fun parts => ?_⟩
  · have hroom : 0 + s.length < 2147483648 := by omega
    have hloop := splitSpecLoop_eq [] [] [] hs hroom
    simpa [splitTunnelRequestSliced, splitTunnelRequest] using hloop
  · rw [splitTunnelRequest, splitSpecFrom_eq_none_iff]
    constructor
    · intro hunbalanced
      by_contra hnone
      rw [not_or, not_exists] at hnone
      refine hunbalanced ⟨fun front hfront => ?_, by omega⟩
      have hle := hnone.1 front
      simp only [not_and, not_lt] at hle
      rw [Nat.zero_add]
      exact hle hfront
    · rintro hbad ⟨hwithin, hsettled⟩
      rcases hbad with ⟨front, hfront, hmore⟩ | hcounts
      · have hle := hwithin front hfront
        omega
      · omega
  · rw [splitTunnelRequest, splitSpecFrom_eq_some_iff]
    constructor
    · rintro ⟨first, more, rfl, hjoin, hfirst, hmore⟩
      exact ⟨List.cons_ne_nil _ _, hjoin, List.forall_mem_cons.mpr ⟨hfirst, hmore⟩⟩
    · rintro ⟨hne, hjoin, hparts⟩
      obtain ⟨first, more, rfl⟩ := List.exists_cons_of_ne_nil hne
      obtain ⟨hfirst, hmore⟩ := List.forall_mem_cons.mp hparts
      exact ⟨first, more, rfl, hjoin, hfirst, hmore⟩

/-- A spec with a bracketed host, cut at two of its colons. -/
theorem splitTunnelRequest_decomposes_bracketed :
    isUtf8 (ascii "1:[a:[b]]:2") = true ∧
      splitTunnelRequestSliced (ascii "1:[a:[b]]:2") =
        .ok (some [ascii "1", ascii "[a:[b]]", ascii "2"]) := by
  have hutf8 : isUtf8 (ascii "1:[a:[b]]:2") = true := by decide
  refine ⟨hutf8, ?_⟩
  rw [(splitTunnelRequest_decomposes hutf8).1 (by decide)]
  decide

end Qvole.Tunnel
