import Qvole.Tunnel.Spec

/-!
# Two splitters, one language

The allowlist splits addresses with its own copy of a routine that the validator has from the
resolver. Both accept `host:port` and `[host]:port` and nothing else, with the same host and port, and
neither takes a range of the text that is not there or that cuts a character.
-/

namespace Qvole.Tunnel

open Outcome (Follows)
open Bytes (isUtf8 strSlice)

/-- No colon and no bracket. -/
def Bare (b : Bytes) : Prop := 58 ∉ b ∧ 91 ∉ b ∧ 93 ∉ b

/-- `host:port`, or `[host]:port` with any colons in the host. -/
def IsHostPort (s host port : Bytes) : Prop :=
  (s = host ++ 58 :: port ∧ Bare host ∧ Bare port) ∨
    (s = 91 :: (host ++ 93 :: 58 :: port) ∧ 91 ∉ host ∧ 93 ∉ host ∧ Bare port)

variable {s host port : Bytes}

/-! ### The parts of the routine -/

/-- The host for a last colon at `i`, and from where on no bracket may follow. -/
def splitHostAt (s : Bytes) (i : Nat) : Option (Bytes × Nat × Nat) :=
  if s.head? = some 91 then
    (s.findIdx? (· == 93)).bind fun close =>
      if close + 1 = s.length then none
      else if close + 1 ≠ i then none
      else some ((s.take close).drop 1, 1, close + 1)
  else if (s.take i).contains 58 then none
  else some (s.take i, 0, 0)

/-- The check for brackets, and the port. -/
def splitPortAt (s : Bytes) (i : Nat) (part : Bytes × Nat × Nat) : Option (Bytes × Bytes) :=
  if (s.drop part.2.1).contains 91 then none
  else if (s.drop part.2.2).contains 93 then none
  else some (part.1, s.drop (i + 1))

theorem splitHostPort_def (s : Bytes) :
    splitHostPort s = (Bytes.rposition (· == 58) s).bind fun i =>
      (splitHostAt s i).bind (splitPortAt s i) := by
  rw [splitHostPort, Option.bind_eq_bind]
  congr 1
  funext i
  unfold splitHostAt
  split
  · cases s.findIdx? (· == 93) with
    | none => rfl
    | some close =>
        simp only [Option.bind_eq_bind, Option.bind_some]
        by_cases hlast : close + 1 = s.length
        · simp only [if_pos hlast]
          rfl
        · by_cases hcolon : close + 1 ≠ i
          · simp only [if_neg hlast, if_pos hcolon]
            rfl
          · simp only [if_neg hlast, if_neg hcolon]
            rfl
  · simp only
    split <;> rfl

theorem splitPortAt_eq_some_iff {i j k : Nat} {host' : Bytes} :
    splitPortAt s i (host', j, k) = some (host, port) ↔
      91 ∉ s.drop j ∧ 93 ∉ s.drop k ∧ host' = host ∧ s.drop (i + 1) = port := by
  simp [splitPortAt]

/-- The bracketed form: the bracket closes right before the last colon. -/
theorem splitHostAt_bracketed {i : Nat} (hhead : s.head? = some 91) {part : Bytes × Nat × Nat} :
    splitHostAt s i = some part ↔
      ∃ inner rest, s = 91 :: (inner ++ 93 :: rest) ∧ 93 ∉ inner ∧ rest ≠ [] ∧
        inner.length + 2 = i ∧ part = (inner, 1, inner.length + 2) := by
  simp only [splitHostAt, if_pos hhead, Option.bind_eq_some_iff, Bytes.findIdx?_eq_some_iff]
  constructor
  · rintro ⟨close, ⟨front, rest, rfl, hfront, rfl⟩, h⟩
    split at h
    · cases h
    · rename_i hlast
      split at h
      · cases h
      · rename_i hcolon
        cases front with
        | nil => simp at hhead
        | cons c inner =>
            obtain rfl : c = 91 := by simpa using hhead
            refine ⟨inner, rest, rfl, fun hmem => hfront (List.mem_cons_of_mem _ hmem), ?_, ?_, ?_⟩
            · rintro rfl
              simp at hlast
            · simpa using hcolon
            · simpa using (Option.some.inj h).symm
  · rintro ⟨inner, rest, rfl, hinner, hrest, rfl, rfl⟩
    refine ⟨inner.length + 1, ⟨91 :: inner, rest, rfl, by simpa using hinner, by simp⟩, ?_⟩
    have hlength : ¬ inner.length + 1 + 1 = (91 :: (inner ++ 93 :: rest)).length := by
      have hpos := List.length_pos_of_ne_nil hrest
      simp only [List.length_cons, List.length_append]
      omega
    rw [if_neg hlength]
    simp

theorem splitHostAt_plain {i : Nat} (hhead : s.head? ≠ some 91) {part : Bytes × Nat × Nat} :
    splitHostAt s i = some part ↔ 58 ∉ s.take i ∧ part = (s.take i, 0, 0) := by
  simp only [splitHostAt, if_neg hhead]
  constructor
  · intro h
    split at h
    · cases h
    · rename_i hcolon
      exact ⟨by simpa using hcolon, (Option.some.inj h).symm⟩
  · rintro ⟨hcolon, rfl⟩
    rw [if_neg (by simpa using hcolon)]

/-! ### The language -/

theorem drop_behind (front : Bytes) (c : UInt8) (rest : Bytes) :
    (front ++ c :: rest).drop (front.length + 1) = rest := by
  rw [← List.drop_drop, List.drop_left]
  rfl

/-- A bracketed host, as the text before the last colon. -/
theorem bracketed_eq (host rest : Bytes) :
    91 :: (host ++ 93 :: rest) = 91 :: (host ++ [93]) ++ rest := by
  simp

theorem drop_bracketed (host rest : Bytes) :
    (91 :: (host ++ 93 :: rest)).drop (host.length + 2) = rest := by
  rw [bracketed_eq]
  exact List.drop_left' (by simp)

theorem isHostPort_of_splitHostPort (h : splitHostPort s = some (host, port)) :
    IsHostPort s host port := by
  simp only [splitHostPort_def, Option.bind_eq_some_iff, Bytes.rposition_eq_some_iff] at h
  obtain ⟨i, ⟨front, rest, rfl, hrest, rfl⟩, part, hpart, hport⟩ := h
  by_cases hhead : (front ++ 58 :: rest).head? = some 91
  · obtain ⟨inner, tail, heq, hinner, -, hlength, rfl⟩ := (splitHostAt_bracketed hhead).mp hpart
    obtain ⟨hopen, hclose, rfl, rfl⟩ := splitPortAt_eq_some_iff.mp hport
    rw [drop_behind]
    obtain ⟨rfl, rfl⟩ := List.append_inj (heq.trans (bracketed_eq inner tail))
      (by simpa using hlength.symm)
    rw [← bracketed_eq] at hopen hclose ⊢
    rw [drop_bracketed] at hclose
    simp only [List.drop_succ_cons, List.drop_zero, List.mem_append, List.mem_cons, not_or]
      at hopen hclose
    exact Or.inr ⟨rfl, hopen.1, hinner, hrest, hopen.2.2.2, hclose.2⟩
  · obtain ⟨hcolon, rfl⟩ := (splitHostAt_plain hhead).mp hpart
    obtain ⟨hopen, hclose, rfl, rfl⟩ := splitPortAt_eq_some_iff.mp hport
    rw [List.take_left] at hcolon ⊢
    rw [drop_behind]
    simp only [List.drop_zero, List.mem_append, List.mem_cons, not_or] at hopen hclose
    exact Or.inl ⟨rfl, ⟨hcolon, hopen.1, hclose.1⟩, hrest, hopen.2.2, hclose.2.2⟩

theorem splitHostPort_plain (hhost : Bare host) (hport : Bare port) :
    splitHostPort (host ++ 58 :: port) = some (host, port) := by
  have hhead : (host ++ 58 :: port).head? ≠ some 91 := by
    intro h
    have hmem := List.mem_of_mem_head? h
    simp [hhost.2.1, hport.2.1] at hmem
  simp only [splitHostPort_def, Option.bind_eq_some_iff, Bytes.rposition_eq_some_iff]
  refine ⟨host.length, ⟨host, port, rfl, hport.1, rfl⟩, (host, 0, 0),
    (splitHostAt_plain hhead).mpr ⟨?_, ?_⟩, splitPortAt_eq_some_iff.mpr ⟨?_, ?_, rfl, ?_⟩⟩
  · rw [List.take_left]
    exact hhost.1
  · rw [List.take_left]
  · simp [hhost.2.1, hport.2.1]
  · simp [hhost.2.2, hport.2.2]
  · exact drop_behind host 58 port

theorem splitHostPort_bracketed (hopen : 91 ∉ host) (hclose : 93 ∉ host) (hport : Bare port) :
    splitHostPort (91 :: (host ++ 93 :: 58 :: port)) = some (host, port) := by
  simp only [splitHostPort_def, Option.bind_eq_some_iff, Bytes.rposition_eq_some_iff]
  refine ⟨host.length + 2, ⟨91 :: (host ++ [93]), port, bracketed_eq host _, hport.1, by simp⟩,
    (host, 1, host.length + 2),
    (splitHostAt_bracketed rfl).mpr ⟨host, 58 :: port, rfl, hclose, by simp, rfl, rfl⟩,
    splitPortAt_eq_some_iff.mpr ⟨?_, ?_, rfl, ?_⟩⟩
  · simp [hopen, hport.2.1]
  · rw [drop_bracketed]
    simp [hport.2.2]
  · rw [← List.drop_drop, drop_bracketed]
    rfl

/-- **The accepted language** of the splitter. -/
theorem splitHostPort_eq_some_iff :
    splitHostPort s = some (host, port) ↔ IsHostPort s host port := by
  refine ⟨isHostPort_of_splitHostPort, ?_⟩
  rintro (⟨rfl, hhost, hport⟩ | ⟨rfl, hopen, hclose, hport⟩)
  · exact splitHostPort_plain hhost hport
  · exact splitHostPort_bracketed hopen hclose hport

/-! ### The ranges -/

theorem strSlice_from (front : Bytes) {rest : Bytes} (hrest : isUtf8 rest = true) :
    strSlice (front ++ rest) front.length (front ++ rest).length = some rest := by
  have hslice := Bytes.strSlice_append (a := front) hrest (c := []) rfl
  rwa [List.append_nil, ← List.length_append] at hslice

theorem strSlice_before {front rest : Bytes} {c : UInt8} (hc : c ≤ 127)
    (hs : isUtf8 (front ++ c :: rest) = true) :
    strSlice (front ++ c :: rest) 0 front.length = some front := by
  obtain ⟨hfront, -⟩ := (Bytes.isUtf8_append_ascii hc).mp hs
  have hslice := Bytes.strSlice_append (a := []) hfront ((Bytes.isUtf8_append hfront).mp hs)
  simpa using hslice

theorem strSlice_behind {front rest : Bytes} {c : UInt8} (hc : c ≤ 127)
    (hs : isUtf8 (front ++ c :: rest) = true) :
    strSlice (front ++ c :: rest) (front.length + 1) (front ++ c :: rest).length = some rest := by
  obtain ⟨-, hrest⟩ := (Bytes.isUtf8_append_ascii hc).mp hs
  have hslice := strSlice_from (front ++ [c]) hrest
  simpa using hslice

/-- The text of a bracketed host, without its first bracket. -/
theorem isUtf8_bracketed {inner rest : Bytes} (hs : isUtf8 (91 :: (inner ++ 93 :: rest)) = true) :
    isUtf8 inner = true ∧ isUtf8 (93 :: rest) = true ∧ isUtf8 rest = true := by
  have hinside := ((Bytes.isUtf8_append_ascii (a := []) (c := 91) (by decide)).mp hs).2
  obtain ⟨hinner, hrest⟩ := (Bytes.isUtf8_append_ascii (c := 93) (by decide)).mp hinside
  exact ⟨hinner, (Bytes.isUtf8_append hinner).mp hinside, hrest⟩

theorem strSlice_inner {close : Nat} (hs : isUtf8 s = true) (hhead : s.head? = some 91)
    (hclose : s.findIdx? (· == 93) = some close) :
    strSlice s 1 close = some ((s.take close).drop 1) := by
  obtain ⟨front, rest, rfl, -, rfl⟩ := Bytes.findIdx?_eq_some_iff.mp hclose
  cases front with
  | nil => simp at hhead
  | cons c inner =>
      obtain rfl : c = 91 := by simpa using hhead
      obtain ⟨hinner, hrest, -⟩ := isUtf8_bracketed hs
      have hslice := Bytes.strSlice_append (a := [91]) hinner hrest
      rw [List.take_left]
      rwa [List.length_singleton, Nat.add_comm] at hslice

/-- The ranges in which brackets are looked for. -/
theorem strSlice_splitHostAt {i j k : Nat} (hs : isUtf8 s = true)
    (h : splitHostAt s i = some (host, j, k)) :
    strSlice s j s.length = some (s.drop j) ∧ strSlice s k s.length = some (s.drop k) := by
  by_cases hhead : s.head? = some 91
  · obtain ⟨inner, rest, rfl, -, -, -, hpart⟩ := (splitHostAt_bracketed hhead).mp h
    obtain ⟨-, rfl, rfl⟩ : host = inner ∧ j = 1 ∧ k = inner.length + 2 := by simpa using hpart
    obtain ⟨hinner, hclose, hrest⟩ := isUtf8_bracketed hs
    constructor
    · exact strSlice_from [91] ((Bytes.isUtf8_append hinner).mpr hclose)
    · have hslice := strSlice_from (91 :: (inner ++ [93])) hrest
      rw [← bracketed_eq] at hslice
      rw [drop_bracketed]
      simpa using hslice
  · obtain ⟨-, hpart⟩ := (splitHostAt_plain hhead).mp h
    obtain ⟨-, rfl, rfl⟩ : host = s.take i ∧ j = 0 ∧ k = 0 := by simpa using hpart
    have hslice := strSlice_from [] hs
    exact ⟨hslice, hslice⟩

/-! ### Both copies -/

/-- Behind the host, given that both copies take it from the same place. -/
theorem follows_splitPortAt {ε : Type} {front rest : Bytes}
    (hs : isUtf8 (front ++ 58 :: rest) = true) {part : Bytes × Nat × Nat}
    (hpart : splitHostAt (front ++ 58 :: rest) front.length = some part) (opened closed : ε) :
    Follows (do
        if (← Outcome.expect (strSlice (front ++ 58 :: rest) part.2.1
            (front ++ 58 :: rest).length)).contains 91 then .fail opened
        else if (← Outcome.expect (strSlice (front ++ 58 :: rest) part.2.2
            (front ++ 58 :: rest).length)).contains 93 then .fail closed
        else return (part.1, ← Outcome.expect (strSlice (front ++ 58 :: rest) (front.length + 1)
            (front ++ 58 :: rest).length)))
      (splitPortAt (front ++ 58 :: rest) front.length part) := by
  obtain ⟨host, j, k⟩ := part
  obtain ⟨hj, hk⟩ := strSlice_splitHostAt hs hpart
  simp only [hj, hk, strSlice_behind (by decide) hs, Outcome.expect, Outcome.ok_bind, splitPortAt,
    drop_behind]
  refine Follows.ite (fun _ => Outcome.follows_fail opened) fun _ => ?_
  exact Follows.ite (fun _ => Outcome.follows_fail closed) fun _ => rfl

theorem follows_splitHostSliced {front rest : Bytes} (hs : isUtf8 (front ++ 58 :: rest) = true) :
    Follows (splitHostSliced (front ++ 58 :: rest) front.length)
      (splitHostAt (front ++ 58 :: rest) front.length) := by
  unfold splitHostSliced splitHostAt
  apply Follows.ite
  · intro hhead
    cases hclose : (front ++ 58 :: rest).findIdx? (· == 93) with
    | none => exact Outcome.follows_fail ()
    | some close =>
        refine Follows.ite (fun _ => Outcome.follows_fail ()) fun _ => ?_
        refine Follows.ite (fun _ => Outcome.follows_fail ()) fun _ => ?_
        rw [strSlice_inner hs hhead hclose]
        rfl
  · intro hhead
    rw [strSlice_before (by decide) hs, List.take_left]
    exact Follows.ite (fun _ => Outcome.follows_fail ()) fun _ => rfl

theorem follows_splitHost {front rest : Bytes} (hs : isUtf8 (front ++ 58 :: rest) = true) :
    Follows (Resolver.splitHost (front ++ 58 :: rest) front.length)
      (splitHostAt (front ++ 58 :: rest) front.length) := by
  unfold Resolver.splitHost splitHostAt
  apply Follows.ite
  · intro hhead
    cases hclose : (front ++ 58 :: rest).findIdx? (· == 93) with
    | none => exact Outcome.follows_fail _
    | some close =>
        refine Follows.ite (fun _ => Outcome.follows_fail _) fun hlast => ?_
        refine Follows.ite (fun _ => ?_) fun _ => ?_
        · -- which of the two errors it is depends on the byte behind the bracket
          obtain ⟨a, b, heq, -, rfl⟩ := Bytes.findIdx?_eq_some_iff.mp hclose
          have hin : a.length + 1 < (front ++ 58 :: rest).length := by
            rw [heq] at hlast ⊢
            simp only [List.length_append, List.length_cons] at hlast ⊢
            omega
          rw [List.getElem?_eq_getElem hin]
          simp only [Outcome.expect, Outcome.ok_bind]
          split <;> exact Outcome.follows_fail _
        · rw [strSlice_inner hs hhead hclose]
          rfl
  · intro hhead
    rw [strSlice_before (by decide) hs, List.take_left]
    exact Follows.ite (fun _ => Outcome.follows_fail _) fun _ => rfl

theorem follows_splitHostPortSliced (hs : isUtf8 s = true) :
    Follows (splitHostPortSliced s) (splitHostPort s) := by
  rw [splitHostPort_def, splitHostPortSliced]
  cases hcolon : Bytes.rposition (· == 58) s with
  | none => exact Outcome.follows_fail ()
  | some i =>
      obtain ⟨front, rest, rfl, -, rfl⟩ := Bytes.rposition_eq_some_iff.mp hcolon
      exact (follows_splitHostSliced hs).bind fun part hpart => follows_splitPortAt hs hpart () ()

theorem follows_resolver (hs : isUtf8 s = true) :
    Follows (Resolver.splitHostPort s) (splitHostPort s) := by
  rw [splitHostPort_def, Resolver.splitHostPort]
  cases hcolon : Bytes.rposition (· == 58) s with
  | none => exact Outcome.follows_fail _
  | some i =>
      obtain ⟨front, rest, rfl, -, rfl⟩ := Bytes.rposition_eq_some_iff.mp hcolon
      exact (follows_splitHost hs).bind fun part hpart => follows_splitPortAt hs hpart _ _

theorem splitHostAt_of_resolver {i : Nat} {part : Bytes × Nat × Nat}
    (h : Resolver.splitHost s i = .ok part) : splitHostAt s i = some part := by
  unfold Resolver.splitHost at h
  unfold splitHostAt
  by_cases hhead : s.head? = some 91
  · rw [if_pos hhead] at h ⊢
    cases hclose : s.findIdx? (· == 93) with
    | none =>
        rw [hclose] at h
        cases h
    | some close =>
        simp only [hclose] at h
        rw [Option.bind_some]
        by_cases hlast : close + 1 = s.length
        · rw [if_pos hlast] at h
          cases h
        · rw [if_neg hlast] at h ⊢
          by_cases hcolon : close + 1 ≠ i
          · rw [if_pos hcolon, Outcome.bind_eq_ok] at h
            obtain ⟨next, -, h⟩ := h
            split at h <;> cases h
          · rw [if_neg hcolon, Outcome.bind_eq_ok] at h
            obtain ⟨inner, hinner, h⟩ := h
            rw [if_neg hcolon, ← Except.ok.inj h,
              Bytes.eq_of_strSlice (Outcome.expect_eq_ok.mp hinner)]
  · rw [if_neg hhead, Outcome.bind_eq_ok] at h
    obtain ⟨front, hfront, h⟩ := h
    rw [if_neg hhead]
    obtain rfl : front = s.take i := Bytes.eq_of_strSlice (Outcome.expect_eq_ok.mp hfront)
    split at h
    · cases h
    · rename_i hcolon
      rw [if_neg hcolon, ← Except.ok.inj h]

/-- What the resolver's copy accepts, of any bytes, the other one does. -/
theorem splitHostPort_of_resolver (h : Resolver.splitHostPort s = .ok (host, port)) :
    splitHostPort s = some (host, port) := by
  have hdrop : ∀ {n : Nat} {tail : Bytes},
      (Outcome.expect (strSlice s n s.length) : Outcome Bytes Bytes) = .ok tail →
        tail = s.drop n := by
    intro n tail htail
    rw [Bytes.eq_of_strSlice (Outcome.expect_eq_ok.mp htail), List.take_length]
  rw [splitHostPort_def]
  unfold Resolver.splitHostPort at h
  cases hcolon : Bytes.rposition (· == 58) s with
  | none =>
      rw [hcolon] at h
      cases h
  | some i =>
      simp only [hcolon, Outcome.bind_eq_ok] at h
      obtain ⟨⟨host', j, k⟩, hpart, opened, hopened, h⟩ := h
      rw [Option.bind_some, splitHostAt_of_resolver hpart, Option.bind_some, splitPortAt]
      rw [hdrop hopened] at h
      split at h
      · cases h
      · rename_i hopen
        rw [if_neg hopen]
        rw [Outcome.bind_eq_ok] at h
        obtain ⟨closed, hclosed, h⟩ := h
        rw [hdrop hclosed] at h
        split at h
        · cases h
        · rename_i hclose
          rw [if_neg hclose]
          rw [Outcome.bind_eq_ok] at h
          obtain ⟨tail, htail, h⟩ := h
          rw [hdrop htail] at h
          exact congrArg some (Except.ok.inj h)

/-- **The splitters accept the same language**, with the same host and port, and never panic. -/
theorem splitters_agree (hs : isUtf8 s = true) :
    Outcome.Returns (splitHostPortSliced s) ∧ Outcome.Returns (Resolver.splitHostPort s) ∧
      ∀ host port,
        (splitHostPortSliced s = .ok (host, port) ↔ Resolver.splitHostPort s = .ok (host, port)) ∧
        (splitHostPortSliced s = .ok (host, port) ↔ IsHostPort s host port) ∧
        (splitHostPort s = some (host, port) ↔ IsHostPort s host port) := by
  have happ := follows_splitHostPortSliced hs
  have hresolver := follows_resolver hs
  refine ⟨happ.returns, hresolver.returns, fun host port => ⟨?_, ?_, splitHostPort_eq_some_iff⟩⟩
  · rw [happ.eq_ok_iff, hresolver.eq_ok_iff]
  · rw [happ.eq_ok_iff, splitHostPort_eq_some_iff]

/-- A host with characters of two bytes. -/
theorem splitters_agree_umlaut :
    Resolver.splitHostPort [91, 0xc3, 0xbc, 58, 93, 58, 56, 48] = .ok ([0xc3, 0xbc, 58], [56, 48]) := by
  have hs : isUtf8 [91, 0xc3, 0xbc, 58, 93, 58, 56, 48] = true := by decide
  have hform : IsHostPort [91, 0xc3, 0xbc, 58, 93, 58, 56, 48] [0xc3, 0xbc, 58] [56, 48] := by
    refine Or.inr ⟨rfl, ?_⟩
    unfold Bare
    decide
  obtain ⟨-, -, hagree⟩ := splitters_agree hs
  obtain ⟨hsame, hlanguage, -⟩ := hagree [0xc3, 0xbc, 58] [56, 48]
  exact hsame.mp (hlanguage.mpr hform)

end Qvole.Tunnel
