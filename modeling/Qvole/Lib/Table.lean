import Mathlib.Data.List.AList
import Mathlib.Data.Finset.Card

/-!
# Finite tables

A table is an association list with distinct keys, Mathlib's `AList` at a constant family of
values. What is added here is what a server keeps tables for: dropping the entries that fail a
test, rewriting the values in place, and counting keys, in total or by class.
-/

abbrev Table (κ ν : Type) := AList (fun _ : κ => ν)

namespace AList

variable {κ ν μ : Type}

def retain (p : κ → ν → Bool) (t : Table κ ν) : Table κ ν :=
  ⟨t.entries.filter fun e => p e.1 e.2, t.nodupKeys.sublist List.filter_sublist⟩

def mapVals (f : κ → ν → μ) (t : Table κ ν) : Table κ μ :=
  ⟨t.entries.map fun e => ⟨e.1, f e.1 e.2⟩, by
    have hkeys : (t.entries.map fun e : (_ : κ) × ν =>
        (⟨e.1, f e.1 e.2⟩ : (_ : κ) × μ)).keys = t.entries.keys := by
      simp [List.keys]
    rw [List.NodupKeys, hkeys]
    exact t.nodupKeys⟩

def size (t : Table κ ν) : Nat := t.keys.length

def countKeys (p : κ → Bool) (t : Table κ ν) : Nat := t.keys.countP p

theorem size_eq_countKeys (t : Table κ ν) : t.size = t.countKeys fun _ => true := by
  simp [size, countKeys]

theorem keys_mapVals (f : κ → ν → μ) (t : Table κ ν) : (t.mapVals f).keys = t.keys := by
  simp [mapVals, keys, List.keys]

@[simp]
theorem size_mapVals (f : κ → ν → μ) (t : Table κ ν) : (t.mapVals f).size = t.size := by
  simp [size, keys_mapVals]

theorem keys_retain_sublist (p : κ → ν → Bool) (t : Table κ ν) :
    (t.retain p).keys.Sublist t.keys :=
  List.filter_sublist.map _

theorem countKeys_retain_le (p : κ → ν → Bool) (q : κ → Bool) (t : Table κ ν) :
    (t.retain p).countKeys q ≤ t.countKeys q :=
  (keys_retain_sublist p t).countP_le

theorem size_retain_add (p : κ → ν → Bool) (t : Table κ ν) :
    (t.entries.filter fun e => !p e.1 e.2).length + (t.retain p).size = t.size := by
  have hsplit := List.length_eq_length_filter_add (l := t.entries) (fun e => p e.1 e.2)
  simp only [size, retain, keys, List.keys, List.length_map]
  omega

theorem countKeys_retain_add (p : κ → ν → Bool) (q : κ → Bool) (t : Table κ ν) :
    (t.retain p).countKeys q + (t.retain fun k v => !p k v).countKeys q = t.countKeys q := by
  have hsplit : ∀ entries : List ((_ : κ) × ν),
      (entries.filter fun e => p e.1 e.2).countP (fun e => q e.1) +
        (entries.filter fun e => !p e.1 e.2).countP (fun e => q e.1) =
          entries.countP fun e => q e.1 := by
    intro entries
    induction entries with
    | nil => rfl
    | cons e entries ih =>
        by_cases hp : p e.1 e.2 = true
        · simp only [List.filter_cons, hp, if_true, Bool.not_true, Bool.false_eq_true, if_false,
            List.countP_cons]
          omega
        · simp only [List.filter_cons, hp, Bool.false_eq_true, if_false, Bool.not_false, if_true,
            List.countP_cons]
          omega
  simpa [countKeys, retain, keys, List.keys, List.countP_map, Function.comp_def] using
    hsplit t.entries

theorem countKeys_pos_iff {p : κ → Bool} {t : Table κ ν} :
    0 < t.countKeys p ↔ ∃ k ∈ t, p k = true := by
  simp [countKeys, List.countP_pos_iff, mem_keys]

@[simp]
theorem countKeys_empty (p : κ → Bool) : (∅ : Table κ ν).countKeys p = 0 := rfl

@[simp]
theorem size_empty : (∅ : Table κ ν).size = 0 := rfl

section Lookup

variable [DecidableEq κ]

theorem lookup_insert_ite (t : Table κ ν) (k j : κ) (v : ν) :
    (t.insert k v).lookup j = if j = k then some v else t.lookup j := by
  by_cases hjk : j = k
  · subst hjk
    simp
  · simp [hjk]

theorem lookup_erase_ite (t : Table κ ν) (k j : κ) :
    (t.erase k).lookup j = if j = k then none else t.lookup j := by
  by_cases hjk : j = k
  · subst hjk
    simp
  · simp [hjk]

theorem mem_iff_lookup {t : Table κ ν} {k : κ} : k ∈ t ↔ ∃ v, t.lookup k = some v := by
  rw [← lookup_isSome, Option.isSome_iff_exists]

theorem mem_of_lookup {t : Table κ ν} {k : κ} {v : ν} (h : t.lookup k = some v) : k ∈ t :=
  mem_iff_lookup.mpr ⟨v, h⟩

theorem lookup_eq_some_iff {t : Table κ ν} {k : κ} {v : ν} :
    t.lookup k = some v ↔ (⟨k, v⟩ : (_ : κ) × ν) ∈ t.entries :=
  mem_lookup_iff

theorem lookup_retain (p : κ → ν → Bool) (t : Table κ ν) (k : κ) :
    (t.retain p).lookup k = (t.lookup k).filter (p k) := by
  ext v
  rw [lookup_eq_some_iff, Option.filter_eq_some_iff, lookup_eq_some_iff]
  simp [retain]

theorem lookup_mapVals (f : κ → ν → μ) (t : Table κ ν) (k : κ) :
    (t.mapVals f).lookup k = (t.lookup k).map (f k) := by
  ext w
  rw [lookup_eq_some_iff, Option.map_eq_some_iff]
  simp only [lookup_eq_some_iff, mapVals, List.mem_map]
  constructor
  · rintro ⟨⟨j, v⟩, hmem, heq⟩
    cases heq
    exact ⟨v, hmem, rfl⟩
  · rintro ⟨v, hmem, rfl⟩
    exact ⟨⟨k, v⟩, hmem, rfl⟩

/-- Tables with the same lookups have the same entries, in some order. -/
theorem perm_of_lookup {t u : Table κ ν} (h : ∀ k, t.lookup k = u.lookup k) :
    t.entries.Perm u.entries := by
  refine (List.perm_ext_iff_of_nodup t.nodupKeys.nodup u.nodupKeys.nodup).mpr fun e => ?_
  rw [← lookup_eq_some_iff, ← lookup_eq_some_iff, h]

theorem eq_empty_of_lookup {t : Table κ ν} (h : ∀ k, t.lookup k = none) : t = ∅ := by
  have hperm : t.entries.Perm (∅ : Table κ ν).entries := perm_of_lookup h
  apply AList.ext
  exact hperm.eq_nil

theorem countKeys_insert (p : κ → Bool) (t : Table κ ν) (k : κ) (v : ν) :
    (t.insert k v).countKeys p = t.countKeys p + if p k = true ∧ k ∉ t then 1 else 0 := by
  by_cases hmem : k ∈ t
  · have hperm : (k :: t.keys.erase k).Perm t.keys :=
      (List.perm_cons_erase (mem_keys.mp hmem)).symm
    rw [countKeys, keys_insert, hperm.countP_eq]
    simp [countKeys, hmem]
  · rw [countKeys, keys_insert, List.erase_of_not_mem (fun h => hmem (mem_keys.mpr h)),
      List.countP_cons]
    simp [countKeys, hmem]

theorem countKeys_erase (p : κ → Bool) (t : Table κ ν) (k : κ) :
    (t.erase k).countKeys p + (if p k = true ∧ k ∈ t then 1 else 0) = t.countKeys p := by
  by_cases hmem : k ∈ t
  · have hperm := List.perm_cons_erase (mem_keys.mp hmem)
    rw [countKeys, countKeys, keys_erase, hperm.countP_eq, List.countP_cons]
    simp [hmem]
  · rw [countKeys, countKeys, keys_erase, List.erase_of_not_mem (fun h => hmem (mem_keys.mpr h))]
    simp [hmem]

theorem size_insert (t : Table κ ν) (k : κ) (v : ν) :
    (t.insert k v).size = t.size + if k ∈ t then 0 else 1 := by
  rw [size_eq_countKeys, size_eq_countKeys, countKeys_insert]
  by_cases hmem : k ∈ t <;> simp [hmem]

theorem size_erase (t : Table κ ν) (k : κ) :
    (t.erase k).size + (if k ∈ t then 1 else 0) = t.size := by
  have herase := countKeys_erase (fun _ => true) t k
  rw [size_eq_countKeys, size_eq_countKeys]
  simpa using herase

theorem size_erase_le (t : Table κ ν) (k : κ) : (t.erase k).size ≤ t.size := by
  have herase := size_erase t k
  omega

theorem countKeys_erase_le (p : κ → Bool) (t : Table κ ν) (k : κ) :
    (t.erase k).countKeys p ≤ t.countKeys p := by
  have herase := countKeys_erase p t k
  omega

theorem two_le_countKeys {p : κ → Bool} {t : Table κ ν} {a b : κ} (ha : a ∈ t) (hb : b ∈ t)
    (hne : a ≠ b) (hpa : p a = true) (hpb : p b = true) : 2 ≤ t.countKeys p := by
  have herase := countKeys_erase p t a
  rw [if_pos ⟨hpa, ha⟩] at herase
  have hpos : 0 < (t.erase a).countKeys p :=
    countKeys_pos_iff.mpr ⟨b, mem_erase.mpr ⟨hne.symm, hb⟩, hpb⟩
  omega

theorem lookup_foldl_erase (ks : List κ) (t : Table κ ν) (j : κ) :
    (ks.foldl (fun t k => t.erase k) t).lookup j = if j ∈ ks then none else t.lookup j := by
  induction ks generalizing t with
  | nil => simp
  | cons k ks ih =>
      rw [List.foldl_cons, ih, lookup_erase_ite]
      by_cases hks : j ∈ ks <;> by_cases hjk : j = k <;> simp [hks, hjk]

theorem countKeys_foldl_erase_le (p : κ → Bool) (ks : List κ) (t : Table κ ν) :
    (ks.foldl (fun t k => t.erase k) t).countKeys p ≤ t.countKeys p := by
  induction ks generalizing t with
  | nil => exact le_rfl
  | cons k ks ih => exact (ih _).trans (countKeys_erase_le p t k)

theorem mem_retain {p : κ → ν → Bool} {t : Table κ ν} {k : κ} :
    k ∈ t.retain p ↔ ∃ v, t.lookup k = some v ∧ p k v = true := by
  rw [mem_iff_lookup]
  simp only [lookup_retain, Option.filter_eq_some_iff]

/-- Erasing the entries that pass a test one by one keeps the entries that fail it. -/
theorem lookup_foldl_erase_retain (p : κ → ν → Bool) (t : Table κ ν) (j : κ) :
    ((t.retain p).keys.foldl (fun t k => t.erase k) t).lookup j =
      (t.lookup j).filter fun v => !p j v := by
  have hmem : j ∈ (t.retain p).keys ↔ ∃ v, t.lookup j = some v ∧ p j v = true := by
    rw [← mem_keys, mem_retain]
  rw [lookup_foldl_erase]
  cases hlookup : t.lookup j with
  | none => simp
  | some v =>
      rw [Option.filter_some]
      simp only [hlookup, Option.some.injEq, exists_eq_left'] at hmem
      by_cases hp : p j v = true
      · rw [if_pos (hmem.mpr hp)]
        simp [hp]
      · rw [if_neg fun h => hp (hmem.mp h)]
        simp [hp]

end Lookup

/-! ### Tallies

A server that wants the number of keys of a class in constant time keeps it in a second table, one
entry per class with a non-zero count. -/

section Tally

variable [DecidableEq κ]

def incr (k : κ) (t : Table κ Nat) : Table κ Nat := t.insert k ((t.lookup k).getD 0 + 1)

/-- Count one less of class `k`, dropping the entry at zero. -/
def decr (k : κ) (t : Table κ Nat) : Table κ Nat :=
  match t.lookup k with
  | none => t
  | some count => if count - 1 = 0 then t.erase k else t.insert k (count - 1)

theorem getD_incr (t : Table κ Nat) (k j : κ) :
    ((t.incr k).lookup j).getD 0 = (t.lookup j).getD 0 + if j = k then 1 else 0 := by
  rw [incr, lookup_insert_ite]
  by_cases hjk : j = k
  · subst hjk
    simp
  · simp [hjk]

theorem getD_decr (t : Table κ Nat) (k j : κ) :
    ((t.decr k).lookup j).getD 0 = (t.lookup j).getD 0 - if j = k then 1 else 0 := by
  unfold decr
  cases hk : t.lookup k with
  | none =>
      by_cases hjk : j = k
      · subst hjk
        simp [hk]
      · simp [hjk]
  | some count =>
      dsimp only
      by_cases hjk : j = k
      · subst hjk
        by_cases hlast : count - 1 = 0
        · simp [hk, hlast]
        · simp [hk, hlast]
      · by_cases hlast : count - 1 = 0
        · simp [hjk, hlast]
        · simp [hjk, hlast]

theorem getD_foldl_decr (ks : List κ) (t : Table κ Nat) (j : κ) :
    ((ks.foldl (fun t k => t.decr k) t).lookup j).getD 0 = (t.lookup j).getD 0 - ks.count j := by
  induction ks generalizing t with
  | nil => rfl
  | cons k ks ih =>
      rw [List.foldl_cons, ih, getD_decr, List.count_cons]
      by_cases hjk : j = k
      · subst hjk
        simp only [if_true, beq_self_eq_true]
        omega
      · have hkj : (k == j) = false := by simpa using fun heq => hjk heq.symm
        simp [hjk, hkj]

/-- `t` holds exactly the non-zero values of `f`. -/
def Tallies (t : Table κ Nat) (f : κ → Nat) : Prop :=
  ∀ k, t.lookup k = if f k = 0 then none else some (f k)

theorem Tallies.getD {t : Table κ Nat} {f : κ → Nat} (h : t.Tallies f) (k : κ) :
    (t.lookup k).getD 0 = f k := by
  rw [h k]
  by_cases hzero : f k = 0 <;> simp [hzero]

theorem Tallies.congr {t : Table κ Nat} {f g : κ → Nat} (h : t.Tallies f) (hfg : ∀ k, f k = g k) :
    t.Tallies g := by
  intro k
  rw [h k, hfg k]

theorem tallies_empty {f : κ → Nat} (hf : ∀ k, f k = 0) : (∅ : Table κ Nat).Tallies f := by
  intro k
  simp [hf k]

theorem Tallies.incr {t : Table κ Nat} {f : κ → Nat} (h : t.Tallies f) (k : κ) :
    (t.incr k).Tallies fun j => f j + if j = k then 1 else 0 := by
  intro j
  rw [AList.incr, lookup_insert_ite, h.getD]
  by_cases hjk : j = k
  · subst hjk
    simp
  · simp [hjk, h j]

theorem Tallies.decr {t : Table κ Nat} {f : κ → Nat} (h : t.Tallies f) (k : κ) :
    (t.decr k).Tallies fun j => f j - if j = k then 1 else 0 := by
  intro j
  have hk := h k
  unfold AList.decr
  by_cases hzero : f k = 0
  · rw [if_pos hzero] at hk
    rw [hk]
    by_cases hjk : j = k
    · subst hjk
      simp [hk, hzero]
    · simp [hjk, h j]
  · rw [if_neg hzero] at hk
    simp only [hk]
    by_cases hlast : f k - 1 = 0
    · rw [if_pos hlast, lookup_erase_ite]
      by_cases hjk : j = k
      · subst hjk
        simp [hlast]
      · simp [hjk, h j]
    · rw [if_neg hlast, lookup_insert_ite]
      by_cases hjk : j = k
      · subst hjk
        simp [hlast]
      · simp [hjk, h j]

theorem Tallies.foldl_decr {t : Table κ Nat} {f : κ → Nat} (h : t.Tallies f) (ks : List κ) :
    (ks.foldl (fun t k => t.decr k) t).Tallies fun j => f j - ks.count j := by
  induction ks generalizing t f with
  | nil => exact h
  | cons k ks ih =>
      refine (ih (h.decr k)).congr fun j => ?_
      rw [List.count_cons]
      by_cases hjk : j = k
      · subst hjk
        simp only [if_true, beq_self_eq_true]
        omega
      · have hkj : (k == j) = false := by simpa using fun heq => hjk heq.symm
        simp [hjk, hkj]

/-! The tally of the keys of another table, by class. -/

variable {α β : Type} [DecidableEq α] {t : Table κ Nat} {u : Table α β} {g : α → κ}

theorem Tallies.insert (h : t.Tallies fun k => u.countKeys fun a => g a = k) {a : α} (ha : a ∉ u)
    (b : β) : (t.incr (g a)).Tallies fun k => (u.insert a b).countKeys fun a => g a = k := by
  refine (h.incr (g a)).congr fun k => ?_
  rw [countKeys_insert]
  by_cases hk : k = g a
  · subst hk
    simp [ha]
  · have hk' : g a ≠ k := fun heq => hk heq.symm
    simp [hk, hk']

theorem Tallies.replace (h : t.Tallies fun k => u.countKeys fun a => g a = k) {a : α} (ha : a ∈ u)
    (b : β) : t.Tallies fun k => (u.insert a b).countKeys fun a => g a = k := by
  refine h.congr fun k => ?_
  rw [countKeys_insert, if_neg fun hnew => hnew.2 ha, Nat.add_zero]

theorem Tallies.erase (h : t.Tallies fun k => u.countKeys fun a => g a = k) {a : α} (ha : a ∈ u) :
    (t.decr (g a)).Tallies fun k => (u.erase a).countKeys fun a => g a = k := by
  refine (h.decr (g a)).congr fun k => ?_
  have herase := countKeys_erase (fun a => decide (g a = k)) u a
  by_cases hk : k = g a
  · subst hk
    simp only [decide_true, ha, and_self, if_true] at herase ⊢
    omega
  · have hk' : g a ≠ k := fun heq => hk heq.symm
    simp only [hk, hk', decide_false, Bool.false_eq_true, false_and, if_false] at herase ⊢
    omega

omit [DecidableEq α] in
theorem Tallies.retain (h : t.Tallies fun k => u.countKeys fun a => g a = k) (p : α → β → Bool) :
    (((u.retain p).keys.map g).foldl (fun t k => t.decr k) t).Tallies fun k =>
      (u.retain fun a b => !p a b).countKeys fun a => g a = k := by
  refine (h.foldl_decr _).congr fun k => ?_
  have hsplit := countKeys_retain_add p (fun a => decide (g a = k)) u
  have hcount : ((u.retain p).keys.map g).count k =
      (u.retain p).countKeys fun a => decide (g a = k) := by
    rw [List.count, List.countP_map, countKeys]
    congr 1
  omega

end Tally

end AList
