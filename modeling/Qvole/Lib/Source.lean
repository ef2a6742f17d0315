import Qvole.Lib.Bytes

/-!
# Byte sources

A reader never gets to see a stream as a whole: it asks for some bytes and gets a few of them. A
source holds what the reads to come will give. What a reader makes of a source should depend on its
bytes alone, and `read_cases` is all that it may know about a read.
-/

structure Source where
  chunks : List Bytes
  nonempty : ∀ chunk ∈ chunks, chunk ≠ []
  deriving DecidableEq

namespace Source

def bytes (source : Source) : Bytes := source.chunks.flatten

/-- Gives up to `size` bytes of the next chunk, and nothing when no chunk is left. A read for no bytes
gives nothing as well. -/
def read (size : Nat) : Source → Option (Bytes × Source)
  | ⟨[], _⟩ => none
  | ⟨chunk :: chunks, hne⟩ =>
      if size = 0 then none
      else if hsize : size < chunk.length then
        some (chunk.take size, ⟨chunk.drop size :: chunks, by
          intro other hother
          rcases List.mem_cons.mp hother with rfl | hmem
          · exact List.ne_nil_of_length_pos (by rw [List.length_drop]; omega)
          · exact hne other (List.mem_cons_of_mem chunk hmem)⟩)
      else some (chunk, ⟨chunks, fun other hother => hne other (List.mem_cons_of_mem chunk hother)⟩)

variable {size : Nat}

/-- A read gives a part of the bytes from the front on, or there are none. -/
theorem read_cases (source : Source) (hsize : 0 < size) :
    (source.read size = none ∧ source.bytes = []) ∨
      ∃ b got rest, source.read size = some (b :: got, rest) ∧
        (b :: got).length ≤ size ∧ source.bytes = b :: (got ++ rest.bytes) := by
  obtain ⟨chunks, hne⟩ := source
  cases chunks with
  | nil => exact Or.inl ⟨rfl, rfl⟩
  | cons chunk chunks =>
      right
      cases chunk with
      | nil => exact absurd rfl (hne [] List.mem_cons_self)
      | cons b tail =>
          simp only [read, if_neg (Nat.ne_of_gt hsize)]
          split
          · rename_i hlt
            obtain ⟨size, rfl⟩ := Nat.exists_eq_succ_of_ne_zero (Nat.ne_of_gt hsize)
            refine ⟨b, tail.take size, _, rfl, ?_, ?_⟩
            · rw [List.length_cons, List.length_take]
              omega
            · simp [bytes, ← List.append_assoc]
          · rename_i hle
            exact ⟨b, tail, _, rfl, Nat.le_of_not_lt hle, by simp [bytes]⟩

/-- Every byte in a chunk of its own. -/
def bytewise (b : Bytes) : Source := ⟨b.map fun c => [c], by simp⟩

@[simp]
theorem bytes_bytewise (b : Bytes) : (bytewise b).bytes = b := by
  simp [bytewise, bytes, ← List.flatMap_def]

end Source
