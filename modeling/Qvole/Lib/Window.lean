import Mathlib.Data.List.Basic

/-!
# Fixed windows

A limiter that counts in windows of a fixed length, each started by the first call behind the one
before it, grants no more than twice its limit in any interval of that length: an interval meets two
windows at most, since the starts of the windows are further apart than it is long.
-/

/-- The grants so far, under a limit of `limit` in a window that began at `start` and in which
`count` were made. -/
structure Metered (window limit : Nat) (grants : List Nat) (start count : Nat) : Prop where
  count_le : count ≤ limit
  late : ∀ g ∈ grants, g ≤ start + window
  current : grants.countP (fun g => start ≤ g) ≤ count
  previous : grants.countP (fun g => start ≤ g + window ∧ g < start) ≤ limit
  bounded : ∀ a, grants.countP (fun g => a ≤ g ∧ g ≤ a + window) ≤ 2 * limit

namespace Metered

variable {window limit start count now : Nat} {grants : List Nat}

theorem nil (window limit start : Nat) : Metered window limit [] start 0 where
  count_le := Nat.zero_le limit
  late := by simp
  current := by simp
  previous := by simp
  bounded := by simp

/-- The next window begins behind the end of this one. -/
theorem restart (h : Metered window limit grants start count) (hnow : start + window < now) :
    Metered window limit grants now 0 where
  count_le := Nat.zero_le limit
  late := by
    intro g hg
    have := h.late g hg
    omega
  current := by
    rw [Nat.le_zero, List.countP_eq_zero]
    intro g hg
    have := h.late g hg
    simp only [decide_eq_true_eq]
    omega
  previous := by
    calc grants.countP (fun g => now ≤ g + window ∧ g < now)
        ≤ grants.countP (fun g => start ≤ g) := by
          apply List.countP_mono_left
          intro g _ hlast
          simp only [decide_eq_true_eq] at hlast ⊢
          omega
      _ ≤ count := h.current
      _ ≤ limit := h.count_le
  bounded := h.bounded

/-- An interval that ends in the window meets the window and what came right before it. -/
theorem countP_within_le (h : Metered window limit grants start count) {a : Nat}
    (ha : start ≤ a + window) :
    grants.countP (fun g => a ≤ g ∧ g ≤ a + window) ≤ limit + count := by
  have hsplit : ∀ grants : List Nat, grants.countP (fun g => a ≤ g ∧ g ≤ a + window) ≤
      grants.countP (fun g => start ≤ g + window ∧ g < start) +
        grants.countP fun g => start ≤ g := by
    intro grants
    induction grants with
    | nil => simp
    | cons g grants ih =>
        simp only [List.countP_cons, decide_eq_true_eq]
        split_ifs <;> omega
  exact Nat.le_trans (hsplit grants) (Nat.add_le_add h.previous h.current)

theorem grant (h : Metered window limit grants start count) (hcount : count < limit)
    (hstart : start ≤ now) (hnow : now ≤ start + window) :
    Metered window limit (grants ++ [now]) start (count + 1) where
  count_le := hcount
  late := by
    intro g hg
    rcases List.mem_append.mp hg with hold | hnew
    · exact h.late g hold
    · rw [List.mem_singleton.mp hnew]
      exact hnow
  current := by
    rw [List.countP_append, List.countP_singleton, if_pos (by simpa using hstart)]
    exact Nat.succ_le_succ h.current
  previous := by
    rw [List.countP_append, List.countP_singleton, if_neg (by simp; omega)]
    exact h.previous
  bounded := by
    intro a
    rw [List.countP_append, List.countP_singleton]
    by_cases hin : a ≤ now ∧ now ≤ a + window
    · rw [if_pos (by simpa using hin)]
      have := h.countP_within_le (Nat.le_trans hstart hin.2)
      omega
    · rw [if_neg (by simpa using hin)]
      exact h.bounded a

end Metered
