import Mathlib.Data.List.Basic
import Mathlib.Order.Basic

/-!
# Brackets

Texts over any alphabet with an opening and a closing bracket: when they are balanced, and when a
separator stands in them inside of brackets only. Both are stated for a text that continues another
one, `depth` brackets deep.
-/

namespace Brackets

variable {α : Type} {opening closing sep c : α} {depth : Nat} {b : List α}

/-! ### Joined parts -/

/-- The first letter of a joined text belongs to the first part, or is the separator behind an empty
one. -/
theorem intercalate_eq_cons_iff {first : List α} {parts : List (List α)} :
    [sep].intercalate (first :: parts) = c :: b ↔
      (∃ tail, first = c :: tail ∧ [sep].intercalate (tail :: parts) = b) ∨
        (first = [] ∧ c = sep ∧ parts ≠ [] ∧ [sep].intercalate parts = b) := by
  cases parts with
  | nil =>
      simp only [List.intercalate_singleton, ne_eq, not_true_eq_false, false_and, and_false, or_false]
      constructor
      · rintro rfl
        exact ⟨b, rfl, rfl⟩
      · rintro ⟨tail, rfl, rfl⟩
        rfl
  | cons next parts =>
      simp only [List.intercalate_cons_cons]
      cases first with
      | nil => simp [eq_comm]
      | cons d first =>
          simp only [List.cons_append, List.cons.injEq]
          constructor
          · rintro ⟨rfl, rfl⟩
            exact Or.inl ⟨first, ⟨rfl, rfl⟩, rfl⟩
          · rintro (⟨tail, ⟨rfl, rfl⟩, rfl⟩ | ⟨hnil, -⟩)
            · exact ⟨rfl, rfl⟩
            · cases hnil

/-! ### Brackets -/

theorem forall_prefix_cons {P : List α → Prop} :
    (∀ front, front <+: c :: b → P front) ↔ P [] ∧ ∀ front, front <+: b → P (c :: front) := by
  constructor
  · intro h
    refine ⟨h [] List.nil_prefix, fun front hfront => h _ ?_⟩
    exact List.cons_prefix_cons.mpr ⟨rfl, hfront⟩
  · rintro ⟨hnil, hcons⟩ front hfront
    rcases List.prefix_cons_iff.mp hfront with rfl | ⟨tail, rfl, htail⟩
    · exact hnil
    · exact hcons tail htail

variable [DecidableEq α]

/-- No more is closed than open, and in the end everything is. -/
structure Balanced (opening closing : α) (depth : Nat) (b : List α) : Prop where
  within : ∀ front, front <+: b → front.count closing ≤ depth + front.count opening
  settled : b.count closing = depth + b.count opening

/-- The separator is never met with all brackets closed. -/
def Guarded (opening closing sep : α) (depth : Nat) (b : List α) : Prop :=
  ∀ front, front ++ [sep] <+: b → front.count closing ≠ depth + front.count opening

/-! ### Balanced texts, letter by letter -/

theorem balanced_nil_iff : Balanced opening closing depth [] ↔ depth = 0 := by
  constructor
  · intro h
    simpa using h.settled.symm
  · rintro rfl
    refine ⟨fun front hfront => ?_, rfl⟩
    rw [List.prefix_nil.mp hfront]
    simp

theorem balanced_cons_iff : Balanced opening closing depth (c :: b) ↔
    (∀ front, front <+: b → (c :: front).count closing ≤ depth + (c :: front).count opening) ∧
      (c :: b).count closing = depth + (c :: b).count opening := by
  constructor
  · intro h
    exact ⟨(forall_prefix_cons.mp h.within).2, h.settled⟩
  · rintro ⟨hwithin, hsettled⟩
    exact ⟨forall_prefix_cons.mpr ⟨by simp, hwithin⟩, hsettled⟩

section Letters

variable (hne : opening ≠ closing)
include hne

theorem balanced_open_iff :
    Balanced opening closing depth (opening :: b) ↔ Balanced opening closing (depth + 1) b := by
  have hcount : ∀ front : List α, (opening :: front).count closing = front.count closing ∧
      (opening :: front).count opening = front.count opening + 1 := by
    intro front
    exact ⟨List.count_cons_of_ne hne, List.count_cons_self⟩
  rw [balanced_cons_iff]
  simp only [hcount]
  constructor
  · rintro ⟨hwithin, hsettled⟩
    refine ⟨fun front hfront => ?_, by omega⟩
    have := hwithin front hfront
    omega
  · rintro ⟨hwithin, hsettled⟩
    refine ⟨fun front hfront => ?_, by omega⟩
    have := hwithin front hfront
    omega

theorem balanced_close_iff :
    Balanced opening closing depth (closing :: b) ↔
      depth ≠ 0 ∧ Balanced opening closing (depth - 1) b := by
  have hcount : ∀ front : List α, (closing :: front).count closing = front.count closing + 1 ∧
      (closing :: front).count opening = front.count opening := by
    intro front
    exact ⟨List.count_cons_self, List.count_cons_of_ne hne.symm⟩
  rw [balanced_cons_iff]
  simp only [hcount]
  constructor
  · rintro ⟨hwithin, hsettled⟩
    have hfirst := hwithin [] List.nil_prefix
    simp only [List.count_nil] at hfirst
    refine ⟨by omega, fun front hfront => ?_, by omega⟩
    have := hwithin front hfront
    omega
  · rintro ⟨hdepth, hwithin, hsettled⟩
    refine ⟨fun front hfront => ?_, by omega⟩
    have := hwithin front hfront
    omega

end Letters

theorem balanced_other_iff (hopen : c ≠ opening) (hclose : c ≠ closing) :
    Balanced opening closing depth (c :: b) ↔ Balanced opening closing depth b := by
  rw [balanced_cons_iff]
  simp only [List.count_cons_of_ne hopen, List.count_cons_of_ne hclose]
  exact ⟨fun h => ⟨h.1, h.2⟩, fun h => ⟨h.1, h.2⟩⟩

/-! ### Separators, letter by letter -/

theorem guarded_nil : Guarded opening closing sep depth [] := by
  intro front hfront
  simp at hfront

theorem guarded_cons_iff : Guarded opening closing sep depth (c :: b) ↔
    (c = sep → depth ≠ 0) ∧ ∀ front, front ++ [sep] <+: b →
      (c :: front).count closing ≠ depth + (c :: front).count opening := by
  constructor
  · intro h
    refine ⟨fun hc hdepth => ?_, fun front hfront => h (c :: front) ?_⟩
    · refine h [] ?_ ?_
      · rw [hc]
        exact ⟨b, rfl⟩
      · rw [hdepth]
        rfl
    · rw [List.cons_append]
      exact List.cons_prefix_cons.mpr ⟨rfl, hfront⟩
  · rintro ⟨hfirst, hcons⟩ front hfront
    cases front with
    | nil =>
        obtain ⟨rfl, -⟩ := List.cons_prefix_cons.mp hfront
        have hdepth := hfirst rfl
        simpa using hdepth.symm
    | cons d front =>
        rw [List.cons_append] at hfront
        obtain ⟨rfl, htail⟩ := List.cons_prefix_cons.mp hfront
        exact hcons front htail

theorem guarded_open_iff (hne : opening ≠ closing) (hsep : opening ≠ sep) :
    Guarded opening closing sep depth (opening :: b) ↔
      Guarded opening closing sep (depth + 1) b := by
  rw [guarded_cons_iff]
  simp only [hsep, false_implies, true_and, List.count_cons_of_ne hne, List.count_cons_self]
  constructor
  · intro h front hfront
    have := h front hfront
    omega
  · intro h front hfront
    have := h front hfront
    omega

theorem guarded_close_iff (hne : opening ≠ closing) (hsep : closing ≠ sep) (hdepth : depth ≠ 0) :
    Guarded opening closing sep depth (closing :: b) ↔
      Guarded opening closing sep (depth - 1) b := by
  rw [guarded_cons_iff]
  simp only [hsep, false_implies, true_and, List.count_cons_of_ne hne.symm, List.count_cons_self]
  constructor
  · intro h front hfront
    have := h front hfront
    omega
  · intro h front hfront
    have := h front hfront
    omega

theorem guarded_other_iff (hopen : c ≠ opening) (hclose : c ≠ closing) :
    Guarded opening closing sep depth (c :: b) ↔
      (c = sep → depth ≠ 0) ∧ Guarded opening closing sep depth b := by
  rw [guarded_cons_iff]
  simp only [List.count_cons_of_ne hopen, List.count_cons_of_ne hclose]
  exact Iff.rfl

end Brackets
