import Qvole.Copy.Proof.Bytes

/-!
# One direction on its own

What `copy_stream` has done, as the list of its acts: what was read is what was written and what is to
be written, and the end of the loop is reported once it is reached.
-/

namespace Qvole.Copy

variable {ε : Type} {acts : List (Act ε)} {phase : Phase ε}

def readOf (acts : List (Act ε)) : Bytes := acts.flatMap Act.readBytes

def wroteOf (acts : List (Act ε)) : Bytes := acts.flatMap Act.wroteBytes

structure OneWay (acts : List (Act ε)) (phase : Phase ε) : Prop where
  kept : Kept (readOf acts) (wroteOf acts) phase
  finished : ∀ how, .finished how ∈ acts ↔ phase = .ended how

theorem oneWay_start : OneWay ([] : List (Act ε)) .selecting :=
  ⟨⟨[], rfl, fun _ => rfl⟩, by simp⟩

theorem OneWay.step (h : OneWay acts phase) (hphase : ∀ how, phase ≠ .ended how)
    (interleave stopped : Bool) (io : Io ε) :
    let next := copyInner interleave stopped io phase
    OneWay (acts ++ next.2.2) next.1 := by
  intro next
  refine ⟨?_, fun how => ?_⟩
  · have hkept := copyInner_kept interleave stopped io hphase h.kept
    simpa [readOf, wroteOf] using hkept
  · rw [List.mem_append, h.finished, or_iff_right (hphase how)]
    exact (copyInner_finished interleave stopped io hphase).2 how

theorem OneWay.isPrefix (h : OneWay acts phase) : wroteOf acts <+: readOf acts := h.kept.isPrefix

/-- A copy that did not fail has written all it read, but for what it is writing. -/
theorem OneWay.readOf_eq (h : OneWay acts phase) (hclean : ∀ error, .finished (.failed error) ∉ acts) :
    readOf acts = wroteOf acts ++ phase.unwritten := by
  refine h.kept.eq_of_running ?_
  rintro ⟨error, herror⟩
  exact hclean error ((h.finished _).mpr herror)

end Qvole.Copy
