import Mathlib.Data.List.Basic

/-!
# Order in a log

A log is a list of entries that grows at its end. `Behind p q` says of a log that every entry with `p`
came when the entries before it satisfied `q`, and is kept entry by entry.
-/

namespace Log

variable {α : Type}

def Behind (p : α → Prop) (q : List α → Prop) (log : List α) : Prop :=
  ∀ front entry rest, log = front ++ entry :: rest → p entry → q front

variable {p : α → Prop} {q : List α → Prop} {log tail : List α}

theorem behind_nil : Behind p q [] := by
  intro front entry rest heq
  simp at heq

theorem Behind.append (h : Behind p q log)
    (htail : ∀ front entry rest, tail = front ++ entry :: rest → p entry → q (log ++ front)) :
    Behind p q (log ++ tail) := by
  intro front entry rest heq hp
  rcases List.append_eq_append_iff.mp heq with ⟨c, rfl, hc⟩ | ⟨c, rfl, hc⟩
  · exact htail c entry rest hc hp
  · cases c with
    | nil =>
        have hfirst := htail [] entry rest (by simpa using hc.symm) hp
        simpa using hfirst
    | cons first c =>
        obtain ⟨rfl, -⟩ := List.cons.inj hc
        exact h front entry c rfl hp

theorem Behind.append_of_none (h : Behind p q log) (htail : ∀ entry ∈ tail, ¬ p entry) :
    Behind p q (log ++ tail) := by
  refine h.append fun front entry rest heq hp => ?_
  exact absurd hp (htail entry (by rw [heq]; simp))

theorem Behind.concat {entry : α} (h : Behind p q log) (hentry : p entry → q log) :
    Behind p q (log ++ [entry]) := by
  refine h.append fun front last rest heq hp => ?_
  cases front with
  | nil =>
      obtain ⟨rfl, -⟩ := List.cons.inj heq
      rw [List.append_nil]
      exact hentry hp
  | cons first front => simp at heq

end Log
