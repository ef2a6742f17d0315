import Mathlib.Algebra.Ring.Nat
import Mathlib.Data.List.DropRight
import Mathlib.Data.List.Basic

/-!
# Byte strings

Texts and datagrams are lists of bytes. This module has the scanning steps that parsers of line
protocols are made of: cutting at the first separator, and taking what lies between the first and
the last byte that is not blank.
-/

abbrev Bytes := List UInt8

def Char.byte (c : Char) : UInt8 := c.toNat.toUInt8

def ascii (text : String) : Bytes := text.toList.map Char.byte

namespace Bytes

/-- What precedes the first `sep`, and what follows it if there is one. -/
def splitOnce (sep : UInt8) : Bytes → Bytes × Option Bytes
  | [] => ([], none)
  | c :: rest =>
      if c = sep then ([], some rest)
      else (c :: (splitOnce sep rest).1, (splitOnce sep rest).2)

def rposition (p : UInt8 → Bool) (b : Bytes) : Option Nat :=
  (b.reverse.findIdx? p).map fun i => b.length - 1 - i

def stripPrefix (head b : Bytes) : Option Bytes :=
  if head.isPrefixOf b then some (b.drop head.length) else none

/-- `b[start..stop]`; `none` is a range out of bounds. -/
def slice (b : Bytes) (start stop : Nat) : Option Bytes :=
  if start ≤ stop ∧ stop ≤ b.length then some ((b.take stop).drop start) else none

def beNat (b : Bytes) : Nat := b.foldl (fun n byte => n * 256 + byte.toNat) 0

/-- `u16::to_be_bytes`. -/
def be16 (n : Nat) : Bytes := [UInt8.ofNat (n / 256), UInt8.ofNat n]

/-- `u64::to_be_bytes`. -/
def be64 (n : Nat) : Bytes :=
  (List.range 8).map fun i => UInt8.ofNat (n / 256 ^ (7 - i))

/-- Neither starting nor ending with a blank. -/
def Bare (blank : UInt8 → Bool) (b : Bytes) : Prop :=
  (∀ c ∈ b.head?, blank c = false) ∧ ∀ c ∈ b.getLast?, blank c = false

/-- The longest part of `b` that is bare: every other one is a part of it. -/
structure IsTrim (blank : UInt8 → Bool) (b core : Bytes) : Prop where
  isInfix : core <:+: b
  bare : Bare blank core
  longest : ∀ other, other <:+: b → Bare blank other → other <:+: core

/-- Not empty, and neither starting nor ending with a blank. -/
def Solid (blank : UInt8 → Bool) (b : Bytes) : Prop :=
  (∃ c ∈ b.head?, blank c = false) ∧ ∃ c ∈ b.getLast?, blank c = false

theorem beNat_be16 {n : Nat} (hn : n < 65536) : beNat (be16 n) = n := by
  simp only [beNat, be16, List.foldl_cons, List.foldl_nil, UInt8.toNat_ofNat']
  omega

theorem stripPrefix_append (head b : Bytes) : stripPrefix head (head ++ b) = some b := by
  have hhead : head.isPrefixOf (head ++ b) = true := List.isPrefixOf_iff_prefix.mpr ⟨b, rfl⟩
  rw [stripPrefix, if_pos hhead, List.drop_left]

theorem eq_append_of_stripPrefix {head b rest : Bytes} (h : stripPrefix head b = some rest) :
    b = head ++ rest := by
  unfold stripPrefix at h
  split at h
  · rename_i hhead
    obtain ⟨tail, rfl⟩ := List.isPrefixOf_iff_prefix.mp hhead
    rw [List.drop_left] at h
    rw [Option.some.inj h]
  · cases h

theorem splitOnce_append {sep : UInt8} {head : Bytes} (hhead : sep ∉ head) (rest : Bytes) :
    splitOnce sep (head ++ sep :: rest) = (head, some rest) := by
  induction head with
  | nil => simp [splitOnce]
  | cons c head ih =>
      have hc : c ≠ sep := fun heq => hhead (heq ▸ List.mem_cons_self)
      have hrest : sep ∉ head := fun hmem => hhead (List.mem_cons_of_mem c hmem)
      simp [splitOnce, hc, ih hrest]

theorem splitOnce_eq_some_iff {sep : UInt8} {b head rest : Bytes} :
    splitOnce sep b = (head, some rest) ↔ b = head ++ sep :: rest ∧ sep ∉ head := by
  constructor
  · intro h
    induction b generalizing head with
    | nil => cases h
    | cons c tail ih =>
        unfold splitOnce at h
        split at h
        · rename_i hc
          cases h
          exact ⟨by rw [hc]; rfl, by simp⟩
        · rename_i hc
          obtain ⟨hhead, hrest⟩ := Prod.mk.inj h
          obtain ⟨htail, hnotMem⟩ := ih (Prod.ext rfl hrest)
          subst hhead
          refine ⟨by rw [List.cons_append, ← htail], ?_⟩
          rw [List.mem_cons, not_or]
          exact ⟨Ne.symm hc, hnotMem⟩
  · rintro ⟨rfl, hhead⟩
    exact splitOnce_append hhead rest

theorem splitOnce_suffix {sep : UInt8} {b head rest : Bytes}
    (h : splitOnce sep b = (head, some rest)) : rest <:+ b := by
  obtain ⟨rfl, -⟩ := splitOnce_eq_some_iff.mp h
  exact (List.suffix_cons sep rest).trans (List.suffix_append head _)

theorem splitOnce_of_notMem {sep : UInt8} {b : Bytes} (hb : sep ∉ b) :
    splitOnce sep b = (b, none) := by
  induction b with
  | nil => rfl
  | cons c rest ih =>
      have hc : c ≠ sep := fun heq => hb (heq ▸ List.mem_cons_self)
      have hrest : sep ∉ rest := fun hmem => hb (List.mem_cons_of_mem c hmem)
      simp [splitOnce, hc, ih hrest]

theorem Solid.append {blank : UInt8 → Bool} {b tail : Bytes} (hb : ∃ c ∈ b.head?, blank c = false)
    (htail : Solid blank tail) : Solid blank (b ++ tail) := by
  obtain ⟨c, hc, hsolid⟩ := hb
  obtain ⟨d, hd, hlast⟩ := htail.2
  refine ⟨⟨c, ?_, hsolid⟩, d, ?_, hlast⟩
  · cases b with
    | nil => simp at hc
    | cons e rest => simpa using hc
  · rw [List.getLast?_append]
    simp [Option.mem_def.mp hd]

theorem solid_of_forall {blank : UInt8 → Bool} {b : Bytes} (hne : b ≠ [])
    (hall : ∀ c ∈ b, blank c = false) : Solid blank b :=
  ⟨⟨b.head hne, by simp [List.head?_eq_some_head hne], hall _ (List.head_mem hne)⟩,
    ⟨b.getLast hne, by simp [List.getLast?_eq_some_getLast hne], hall _ (List.getLast_mem hne)⟩⟩

/-! ### Positions -/

theorem findIdx?_eq_some_iff {c : UInt8} {b : Bytes} {i : Nat} :
    b.findIdx? (· == c) = some i ↔
      ∃ front rest, b = front ++ c :: rest ∧ c ∉ front ∧ i = front.length := by
  induction b generalizing i with
  | nil => simp
  | cons d tail ih =>
      rw [List.findIdx?_cons]
      by_cases hd : d = c
      · subst hd
        simp only [beq_self_eq_true, if_true, Option.some.injEq]
        constructor
        · rintro rfl
          exact ⟨[], tail, rfl, by simp, rfl⟩
        · rintro ⟨front, rest, heq, hfront, rfl⟩
          cases front with
          | nil => rfl
          | cons e front =>
              obtain ⟨rfl, -⟩ := List.cons.inj heq
              exact absurd List.mem_cons_self hfront
      · have hne : (d == c) = false := by simpa using hd
        rw [hne]
        simp only [Bool.false_eq_true, if_false, Option.map_eq_some_iff, ih]
        constructor
        · rintro ⟨j, ⟨front, rest, rfl, hfront, rfl⟩, rfl⟩
          refine ⟨d :: front, rest, rfl, ?_, rfl⟩
          rw [List.mem_cons, not_or]
          exact ⟨Ne.symm hd, hfront⟩
        · rintro ⟨front, rest, heq, hfront, rfl⟩
          cases front with
          | nil => exact absurd (List.cons.inj heq).1 hd
          | cons e front =>
              obtain ⟨-, rfl⟩ := List.cons.inj heq
              exact ⟨front.length, ⟨front, rest, rfl, fun h => hfront (List.mem_cons_of_mem e h), rfl⟩,
                rfl⟩

theorem rposition_eq_some_iff {c : UInt8} {b : Bytes} {i : Nat} :
    rposition (· == c) b = some i ↔
      ∃ front rest, b = front ++ c :: rest ∧ c ∉ rest ∧ i = front.length := by
  simp only [rposition, Option.map_eq_some_iff, findIdx?_eq_some_iff]
  constructor
  · rintro ⟨j, ⟨rest, front, heq, hrest, rfl⟩, rfl⟩
    have hb : b = front.reverse ++ c :: rest.reverse := by
      rw [← List.reverse_reverse b, heq]
      simp
    refine ⟨front.reverse, rest.reverse, hb, by simpa using hrest, ?_⟩
    rw [hb]
    simp only [List.length_append, List.length_cons, List.length_reverse]
    omega
  · rintro ⟨front, rest, rfl, hrest, rfl⟩
    refine ⟨rest.length, ⟨rest.reverse, front.reverse, by simp, by simpa using hrest, by simp⟩, ?_⟩
    simp only [List.length_append, List.length_cons]
    omega

theorem findIdx?_blank {blank : UInt8 → Bool} {b : Bytes} (hb : ∀ c ∈ b, blank c = true) :
    b.findIdx? (fun c => !blank c) = none := by
  rw [List.findIdx?_eq_none_iff]
  intro c hc
  rw [hb c hc]
  rfl

theorem rposition_append {blank : UInt8 → Bool} {b tail : Bytes}
    (hb : ∃ c ∈ b.getLast?, blank c = false) (htail : ∀ c ∈ tail, blank c = true) :
    rposition (fun c => !blank c) (b ++ tail) = some (b.length - 1) := by
  obtain ⟨c, hc, hlast⟩ := hb
  have hnone : tail.reverse.findIdx? (fun c => !blank c) = none :=
    findIdx?_blank fun d hd => htail d (List.mem_reverse.mp hd)
  have hzero : b.reverse.findIdx? (fun c => !blank c) = some 0 := by
    have hhead : b.reverse.head? = some c := by
      rw [List.head?_reverse]
      exact hc
    cases hreverse : b.reverse with
    | nil => simp [hreverse] at hhead
    | cons e rest =>
        obtain rfl : e = c := by simpa [hreverse] using hhead
        simp [List.findIdx?_cons, hlast]
  rw [rposition, List.reverse_append, List.findIdx?_append, hnone, hzero]
  simp only [Option.none_or, Option.map_some, List.length_reverse, List.length_append,
    Option.some.injEq]
  omega

theorem takeWhile_reverse_append {blank : UInt8 → Bool} {b tail : Bytes}
    (hb : ∃ c ∈ b.getLast?, blank c = false) (htail : ∀ c ∈ tail, blank c = true) :
    ((b ++ tail).reverse.takeWhile blank).length = tail.length := by
  obtain ⟨c, hc, hlast⟩ := hb
  have hhead : b.reverse.head? = some c := by
    rw [List.head?_reverse]
    exact hc
  have hstop : b.reverse.takeWhile blank = [] := by
    cases hreverse : b.reverse with
    | nil => rfl
    | cons e rest =>
        obtain rfl : e = c := by simpa [hreverse] using hhead
        simp [hlast]
  rw [List.reverse_append,
    List.takeWhile_append_of_pos fun d hd => htail d (List.mem_reverse.mp hd), hstop]
  simp

/-! ### Trimming -/

section Trim

variable {blank : UInt8 → Bool} {b head core tail : Bytes}

theorem Bare.of_suffix (h : Bare blank b) (htail : tail <:+ b) :
    tail = [] ∨ ∃ c ∈ tail, blank c = false := by
  rcases List.eq_nil_or_concat tail with rfl | ⟨front, c, rfl⟩
  · exact Or.inl rfl
  · obtain ⟨before, rfl⟩ := htail
    refine Or.inr ⟨c, by simp, h.2 c ?_⟩
    simp [← List.append_assoc]

theorem Solid.append_last (h : Solid blank core) (head : Bytes) :
    ∃ c ∈ (head ++ core).getLast?, blank c = false := by
  obtain ⟨c, hc, hlast⟩ := h.2
  exact ⟨c, by simp [List.getLast?_append, Option.mem_def.mp hc], hlast⟩

theorem takeWhile_append_solid (hhead : ∀ c ∈ head, blank c = true) (hcore : Solid blank core)
    (tail : Bytes) : (head ++ core ++ tail).takeWhile blank = head := by
  obtain ⟨c, hc, hsolid⟩ := hcore.1
  cases core with
  | nil => simp at hc
  | cons e rest =>
      obtain rfl : e = c := by simpa using hc
      rw [List.append_assoc, List.takeWhile_append_of_pos hhead, List.cons_append,
        List.takeWhile_cons, hsolid]
      simp

theorem Solid.bare (h : Solid blank b) : Bare blank b := by
  obtain ⟨⟨c, hc, hfirst⟩, d, hd, hlast⟩ := h
  refine ⟨fun c' hc' => ?_, fun d' hd' => ?_⟩
  · obtain rfl := Option.mem_unique hc hc'
    exact hfirst
  · obtain rfl := Option.mem_unique hd hd'
    exact hlast

theorem Bare.solid (h : Bare blank b) (hne : b ≠ []) : Solid blank b := by
  have hfirst := List.head?_eq_some_head hne
  have hlast := List.getLast?_eq_some_getLast hne
  exact ⟨⟨_, hfirst, h.1 _ hfirst⟩, _, hlast, h.2 _ hlast⟩

/-- A text with something else than blanks in it is a solid text between blanks. -/
theorem exists_core (h : ∃ c ∈ b, blank c = false) :
    ∃ head core tail, b = head ++ core ++ tail ∧ (∀ c ∈ head, blank c = true) ∧
      Solid blank core ∧ ∀ c ∈ tail, blank c = true := by
  obtain ⟨c, hc, hblank⟩ := h
  have hrest : b.dropWhile blank ≠ [] := by
    intro hnil
    have hall := List.dropWhile_eq_nil_iff.mp hnil c hc
    rw [hblank] at hall
    cases hall
  have hfirst := List.head_dropWhile_not blank hrest
  have hcore : (b.dropWhile blank).rdropWhile blank ≠ [] := by
    intro hnil
    have hall := List.rdropWhile_eq_nil_iff.mp hnil _ (List.head_mem hrest)
    rw [hfirst] at hall
    cases hall
  refine ⟨b.takeWhile blank, (b.dropWhile blank).rdropWhile blank,
    (b.dropWhile blank).rtakeWhile blank, ?_, ?_, ?_, ?_⟩
  · rw [List.append_assoc, List.rdropWhile_append_rtakeWhile, List.takeWhile_append_dropWhile]
  · exact fun d hd => List.mem_takeWhile_imp hd
  · refine ⟨⟨(b.dropWhile blank).head hrest, ?_, hfirst⟩,
      ⟨_, List.getLast?_eq_some_getLast hcore, ?_⟩⟩
    · have hhead : (b.dropWhile blank).head? = ((b.dropWhile blank).rdropWhile blank).head? := by
        rw [← List.head?_append_of_ne_nil _ hcore, List.rdropWhile_append_rtakeWhile]
      exact hhead ▸ List.head?_eq_some_head hrest
    · simpa using List.rdropWhile_last_not blank (b.dropWhile blank) hcore
  · exact fun d hd => List.mem_rtakeWhile_imp hd

/-- A solid text does not start among leading blanks. -/
theorem Solid.after_blanks {other before rest : Bytes} (hother : Solid blank other)
    (hhead : ∀ c ∈ head, blank c = true) (heq : before ++ (other ++ rest) = head ++ core) :
    ∃ mid, core = mid ++ (other ++ rest) := by
  rcases List.append_eq_append_iff.mp heq with ⟨more, hmore, hrest⟩ | ⟨mid, -, hrest⟩
  · cases more with
    | nil => exact ⟨[], by simpa using hrest.symm⟩
    | cons d more =>
        obtain ⟨c, hc, hsolid⟩ := hother.1
        have hd : blank d = true := hhead d (by rw [hmore]; simp)
        cases other with
        | nil => simp at hc
        | cons e other =>
            obtain rfl : e = c := by simpa using hc
            obtain rfl : e = d := (List.cons.inj hrest).1
            rw [hsolid] at hd
            cases hd
  · exact ⟨mid, hrest⟩

/-- Nor does it end among trailing ones. -/
theorem Solid.before_blanks {other before rest : Bytes} (hother : Solid blank other)
    (htail : ∀ c ∈ tail, blank c = true) (heq : before ++ other ++ rest = core ++ tail) :
    ∃ mid, core = before ++ other ++ mid := by
  rcases List.append_eq_append_iff.mp heq with ⟨mid, hcore, -⟩ | ⟨more, hmore, hrest⟩
  · exact ⟨mid, hcore⟩
  · obtain ⟨c, hc, hsolid⟩ := hother.2
    rcases List.eq_nil_or_concat more with rfl | ⟨more, d, rfl⟩
    · exact ⟨[], by simpa using hmore.symm⟩
    · have hd : blank d = true := htail d (by rw [hrest]; simp)
      have hlast := congrArg List.getLast? hmore
      rw [List.getLast?_append, hc, List.getLast?_append, List.concat_eq_append,
        List.getLast?_concat] at hlast
      obtain rfl : c = d := by simpa using hlast
      rw [hsolid] at hd
      cases hd

/-- What lies between the blanks at both ends is the longest bare part. -/
theorem isTrim_core (hhead : ∀ c ∈ head, blank c = true) (hcore : Solid blank core)
    (htail : ∀ c ∈ tail, blank c = true) : IsTrim blank (head ++ core ++ tail) core := by
  refine ⟨⟨head, tail, rfl⟩, hcore.bare, fun other hother hbare => ?_⟩
  obtain ⟨before, after, heq⟩ := hother
  by_cases hne : other = []
  · subst hne
    exact List.nil_infix
  · have hsolid := hbare.solid hne
    rw [List.append_assoc, List.append_assoc] at heq
    obtain ⟨left, hleft⟩ := hsolid.after_blanks hhead heq
    rw [← List.append_assoc] at hleft
    obtain ⟨right, hright⟩ := hsolid.before_blanks htail hleft.symm
    exact ⟨left, right, hright.symm⟩

theorem isTrim_nil (hb : ∀ c ∈ b, blank c = true) : IsTrim blank b [] := by
  refine ⟨List.nil_infix, ⟨by simp, by simp⟩, fun other hother hbare => ?_⟩
  by_cases hne : other = []
  · subst hne
    exact List.nil_infix
  · obtain ⟨c, hc, hsolid⟩ := (hbare.solid hne).1
    have hmem : c ∈ b := hother.subset (List.mem_of_mem_head? hc)
    rw [hb c hmem] at hsolid
    cases hsolid

end Trim

end Bytes
