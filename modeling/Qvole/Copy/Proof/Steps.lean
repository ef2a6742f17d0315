import Qvole.Copy.Proof.Bytes

/-!
# What a step of the copy does

A step either polls one direction, which makes one turn of its loop, or leaves both directions alone.
A direction that has ended is not polled again.
-/

namespace Qvole.Copy

variable {ε : Type} {s : Copies ε} {effects : List (Effect ε)} {side : Side} {how : Ended ε}

/-- No bytes and no end of a direction. -/
def Unmoved (s next : Copies ε) (sent : List (Effect ε)) : Prop :=
  next.phase = s.phase ∧ next.done = s.done ∧ ∀ side act, .act side act ∉ sent

theorem unmoved_check : Unmoved s s.check.1 s.check.2 := by
  refine ⟨rfl, rfl, fun side act hmem => ?_⟩
  rcases List.mem_append.mp hmem with hfirst | hover
  · split at hfirst <;> simp at hfirst
  · split at hover <;> simp at hover

theorem bidirectionalCopy_cases (s : Copies ε) (event : Event ε) :
    Unmoved s (bidirectionalCopy s event).1 (bidirectionalCopy s event).2 ∨
      ∃ side io, event = .advance io ∧ s.pc = .polling side ∧
        bidirectionalCopy s event = s.poll side io := by
  cases event with
  | fire => exact Or.inl ⟨rfl, rfl, by simp [bidirectionalCopy]⟩
  | advance io =>
      cases hpc : s.pc with
      | idle => exact Or.inl (by simp [bidirectionalCopy, hpc, Unmoved])
      | polling side => exact Or.inr ⟨side, io, rfl, rfl, by simp [bidirectionalCopy, hpc]⟩
      | checking =>
          refine Or.inl ?_
          simp only [bidirectionalCopy, hpc]
          exact unmoved_check
      | returned => exact Or.inl (by simp [bidirectionalCopy, hpc, Unmoved])

theorem Unmoved.readBy_eq {next : Copies ε} {sent : List (Effect ε)} (h : Unmoved s next sent)
    (side : Side) : readBy side sent = [] := by
  refine List.flatMap_eq_nil_iff.mpr fun effect heffect => ?_
  cases effect with
  | act other act => exact absurd heffect (h.2.2 other act)
  | interrupt => rfl
  | returned => rfl

theorem Unmoved.wroteBy_eq {next : Copies ε} {sent : List (Effect ε)} (h : Unmoved s next sent)
    (side : Side) : wroteBy side sent = [] := by
  refine List.flatMap_eq_nil_iff.mpr fun effect heffect => ?_
  cases effect with
  | act other act => exact absurd heffect (h.2.2 other act)
  | interrupt => rfl
  | returned => rfl

/-- The poll of one direction leaves the other alone. -/
theorem poll_other {other : Side} (hother : other ≠ side) (io : Io ε) :
    (s.poll side io).1.phase other = s.phase other ∧ readBy other (s.poll side io).2 = [] ∧
      wroteBy other (s.poll side io).2 = [] := by
  refine ⟨by simp [Copies.poll, Function.update_of_ne hother], ?_, ?_⟩
  · simp only [Copies.poll, readBy_acts, if_neg (Ne.symm hother)]
  · simp only [Copies.poll, wroteBy_acts, if_neg (Ne.symm hother)]

/-- **A direction that has ended** reads and writes nothing more. -/
theorem Copied.ended_step (h : Copied effects s) (hended : s.phase side = .ended how)
    (event : Event ε) :
    let next := bidirectionalCopy s event
    next.1.phase side = .ended how ∧ readBy side next.2 = [] ∧ wroteBy side next.2 = [] := by
  intro next
  rcases bidirectionalCopy_cases s event with hsame | ⟨polled, io, rfl, hpc, hnext⟩
  · exact ⟨(congrFun hsame.1 side).trans hended, hsame.readBy_eq side, hsame.wroteBy_eq side⟩
  · have hundone := h.polling polled hpc
    have hside : side ≠ polled := by
      rintro rfl
      rw [(h.done side).mpr ⟨how, hended⟩] at hundone
      cases hundone
    obtain ⟨hphase, hread, hwrote⟩ := poll_other (s := s) hside io
    simp only [next, hnext]
    exact ⟨hphase.trans hended, hread, hwrote⟩

end Qvole.Copy
