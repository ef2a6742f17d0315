import Qvole.Lib.Bytes

/-!
# UTF-8

When a byte string is text, and what it becomes when it is read as text in any case.
-/

namespace Bytes

/-- One byte of UTF-8: the ranges that the bytes still missing from a character have to be in, before
and after it. -/
def utf8Step (missing : List (UInt8 × UInt8)) (b : UInt8) : Option (List (UInt8 × UInt8)) :=
  match missing with
  | (low, high) :: rest => if low ≤ b ∧ b ≤ high then some rest else none
  | [] =>
      if b ≤ 0x7f then some []
      else if 0xc2 ≤ b ∧ b ≤ 0xdf then some [(0x80, 0xbf)]
      else if b = 0xe0 then some [(0xa0, 0xbf), (0x80, 0xbf)]
      else if b = 0xed then some [(0x80, 0x9f), (0x80, 0xbf)]
      else if 0xe1 ≤ b ∧ b ≤ 0xef then some [(0x80, 0xbf), (0x80, 0xbf)]
      else if b = 0xf0 then some [(0x90, 0xbf), (0x80, 0xbf), (0x80, 0xbf)]
      else if 0xf1 ≤ b ∧ b ≤ 0xf3 then some [(0x80, 0xbf), (0x80, 0xbf), (0x80, 0xbf)]
      else if b = 0xf4 then some [(0x80, 0x8f), (0x80, 0xbf), (0x80, 0xbf)]
      else none

/-- `str::from_utf8` succeeds. -/
def isUtf8 (b : Bytes) : Bool := b.foldlM utf8Step [] == some []

/-- The character U+FFFD. -/
def replacement : Bytes := [0xef, 0xbf, 0xbd]

/-- Goes on after the bytes `seen` of a character that is not complete yet. -/
def lossyFrom (seen : Bytes) (missing : List (UInt8 × UInt8)) : Bytes → Bytes
  | [] => if seen = [] then [] else replacement
  | b :: rest =>
      match utf8Step missing b with
      | some [] => seen ++ b :: lossyFrom [] [] rest
      | some more => lossyFrom (seen ++ [b]) more rest
      | none =>
          if seen = [] then replacement ++ lossyFrom [] [] rest
          else
            -- the byte that does not continue the character is read again as a first one
            match utf8Step [] b with
            | some [] => replacement ++ b :: lossyFrom [] [] rest
            | some more => replacement ++ lossyFrom [b] more rest
            | none => replacement ++ (replacement ++ lossyFrom [] [] rest)

/-- `String::from_utf8_lossy`: what is no part of a character is replaced. -/
def fromUtf8Lossy (b : Bytes) : Bytes := lossyFrom [] [] b

/-- `str::is_char_boundary`: no byte that continues a character stands at `i`. -/
def isCharBoundary (b : Bytes) (i : Nat) : Bool :=
  if i = 0 then true
  else
    match b[i]? with
    | some c => c < 0x80 || 0xc0 ≤ c
    | none => i = b.length

/-- `s[start..stop]` on a `str`; `none` is the panic of a range that is out of bounds or cuts a
character. -/
def strSlice (b : Bytes) (start stop : Nat) : Option Bytes :=
  if start ≤ stop ∧ stop ≤ b.length ∧ isCharBoundary b start ∧ isCharBoundary b stop then
    some ((b.take stop).drop start)
  else none

theorem utf8Step_ascii {c : UInt8} (hc : c ≤ 127) : utf8Step [] c = some [] := by
  rw [utf8Step, if_pos hc]

theorem isUtf8_of_ascii {b : Bytes} (hb : ∀ c ∈ b, c ≤ 127) : isUtf8 b = true := by
  have hfold : b.foldlM utf8Step [] = some [] := by
    induction b with
    | nil => rfl
    | cons c b ih =>
        rw [List.foldlM_cons, utf8Step_ascii (hb c List.mem_cons_self), Option.bind_eq_bind,
          Option.bind_some]
        exact ih fun d hd => hb d (List.mem_cons_of_mem c hd)
  simp [isUtf8, hfold]

theorem fromUtf8Lossy_of_ascii {b : Bytes} (hb : ∀ c ∈ b, c ≤ 127) : fromUtf8Lossy b = b := by
  unfold fromUtf8Lossy
  induction b with
  | nil => rfl
  | cons c b ih =>
      rw [lossyFrom, utf8Step_ascii (hb c List.mem_cons_self)]
      simp only [List.nil_append, List.cons.injEq, true_and]
      exact ih fun d hd => hb d (List.mem_cons_of_mem c hd)

/-! ### Cutting text -/

theorem isUtf8_iff {b : Bytes} : isUtf8 b = true ↔ b.foldlM utf8Step [] = some [] := by
  simp [isUtf8]

theorem isUtf8_append {a b : Bytes} (ha : isUtf8 a = true) :
    isUtf8 (a ++ b) = true ↔ isUtf8 b = true := by
  rw [isUtf8_iff, List.foldlM_append, isUtf8_iff.mp ha, isUtf8_iff]
  rfl

/-- The missing bytes of a character are not plain ones. -/
theorem utf8Step_missing {missing more : List (UInt8 × UInt8)} {b : UInt8}
    (hmissing : ∀ range ∈ missing, 0x80 ≤ range.1) (h : utf8Step missing b = some more) :
    ∀ range ∈ more, 0x80 ≤ range.1 := by
  unfold utf8Step at h
  split at h
  · rename_i low high rest
    split at h
    · obtain rfl := Option.some.inj h
      exact fun range hrange => hmissing range (List.mem_cons_of_mem _ hrange)
    · cases h
  · repeat
      split at h
      · obtain rfl := Option.some.inj h
        simp
    cases h

theorem foldlM_missing {b : Bytes} {missing more : List (UInt8 × UInt8)}
    (hmissing : ∀ range ∈ missing, 0x80 ≤ range.1) (h : b.foldlM utf8Step missing = some more) :
    ∀ range ∈ more, 0x80 ≤ range.1 := by
  induction b generalizing missing with
  | nil =>
      obtain rfl := Option.some.inj h
      exact hmissing
  | cons c b ih =>
      rw [List.foldlM_cons, Option.bind_eq_bind, Option.bind_eq_some_iff] at h
      obtain ⟨next, hnext, h⟩ := h
      exact ih (utf8Step_missing hmissing hnext) h

/-- A plain byte is a character, so it is never inside of one. -/
theorem isUtf8_append_ascii {a b : Bytes} {c : UInt8} (hc : c ≤ 127) :
    isUtf8 (a ++ c :: b) = true ↔ isUtf8 a = true ∧ isUtf8 b = true := by
  constructor
  · intro h
    rw [isUtf8_iff, List.foldlM_append] at h
    cases hmissing : a.foldlM utf8Step [] with
    | none => simp [hmissing] at h
    | some missing =>
        rw [hmissing, Option.bind_eq_bind, Option.bind_some, List.foldlM_cons] at h
        cases missing with
        | nil =>
            rw [utf8Step_ascii hc, Option.bind_eq_bind, Option.bind_some] at h
            exact ⟨isUtf8_iff.mpr hmissing, isUtf8_iff.mpr h⟩
        | cons range missing =>
            have hlow : 0x80 ≤ range.1 :=
              foldlM_missing (by simp) hmissing range List.mem_cons_self
            have houtside : ¬ range.1 ≤ c := fun hle =>
              absurd (UInt8.le_trans hlow (UInt8.le_trans hle hc)) (by decide)
            rw [utf8Step, if_neg fun hin => houtside hin.1] at h
            cases h
  · rintro ⟨ha, hb⟩
    rw [isUtf8_append ha]
    rw [isUtf8_iff, List.foldlM_cons, utf8Step_ascii hc]
    exact isUtf8_iff.mp hb

theorem utf8Step_continuation {c : UInt8} (hlow : 0x80 ≤ c) (hhigh : c < 0xc0) :
    utf8Step [] c = none := by
  have hlow : 128 ≤ c.toNat := hlow
  have hhigh : c.toNat < 192 := hhigh
  simp only [utf8Step, UInt8.le_iff_toNat_le, ← UInt8.toNat_inj, UInt8.reduceToNat]
  repeat rw [if_neg (by omega)]

theorem isUtf8_head {c : UInt8} {b : Bytes} (h : isUtf8 (c :: b) = true) :
    (c < 0x80 || 0xc0 ≤ c) = true := by
  by_contra hcontinues
  simp only [Bool.or_eq_true, decide_eq_true_eq, not_or, UInt8.not_lt, UInt8.not_le] at hcontinues
  rw [isUtf8_iff, List.foldlM_cons, utf8Step_continuation hcontinues.1 hcontinues.2] at h
  cases h

/-- Text may be cut between two texts. -/
theorem isCharBoundary_append {a b : Bytes} (hb : isUtf8 b = true) :
    isCharBoundary (a ++ b) a.length = true := by
  unfold isCharBoundary
  split
  · rfl
  · cases b with
    | nil => simp
    | cons c b => simpa using isUtf8_head hb

theorem eq_of_strSlice {b part : Bytes} {start stop : Nat} (h : strSlice b start stop = some part) :
    part = (b.take stop).drop start := by
  unfold strSlice at h
  split at h
  · exact (Option.some.inj h).symm
  · cases h

theorem strSlice_append {a b c : Bytes} (hb : isUtf8 b = true) (hc : isUtf8 c = true) :
    strSlice (a ++ (b ++ c)) a.length (a.length + b.length) = some b := by
  have hstart : isCharBoundary (a ++ (b ++ c)) a.length = true :=
    isCharBoundary_append ((isUtf8_append hb).mpr hc)
  have hstop : isCharBoundary (a ++ (b ++ c)) (a.length + b.length) = true := by
    rw [← List.append_assoc, ← List.length_append]
    exact isCharBoundary_append hc
  have hlength : a.length + b.length ≤ (a ++ (b ++ c)).length := by
    simp only [List.length_append]
    omega
  rw [strSlice, if_pos ⟨Nat.le_add_right _ _, hlength, hstart, hstop⟩, ← List.append_assoc,
    ← List.length_append, List.take_left, List.drop_left]

end Bytes
