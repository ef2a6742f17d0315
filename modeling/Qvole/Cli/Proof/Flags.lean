import Qvole.Cli.Flags

/-!
# Flags as a fold

Any command line that writes settings in the forms the parser knows is read as these settings, one
after the other; on any other one the parser reports an error.
-/

namespace Qvole.Cli

open Outcome (fail)
open Bytes (isUtf8 strSlice)

/-! ### Command lines -/

structure IsName (name : Bytes) : Prop where
  ne : name ≠ []
  notEquals : 61 ∉ name
  notMinus : name.head? ≠ some 45

structure FlagTable (specs : List FlagSpec) : Prop where
  distinct : (specs.map FlagSpec.name).Nodup
  isName : ∀ spec ∈ specs, IsName spec.name

/-- `-` or `--`. -/
def IsMinus (minus : Bytes) : Prop := minus = [45] ∨ minus = [45, 45]

/-- What is set by one flag. -/
inductive Setting where
  | bool (name : Bytes) (v : Bool)
  | string (name v : Bytes)
  | slice (name v : Bytes)

def Setting.apply (values : FlagValues) : Setting → FlagValues
  | .bool name v => values.setBool name v
  | .string name v => values.setString name v
  | .slice name v => values.push name v

/-- The flag takes a value, and this is it. -/
def Takes (spec : FlagSpec) (v : Bytes) (setting : Setting) : Prop :=
  spec.ty = .string ∧ setting = .string spec.name v ∨
    spec.ty = .slice ∧ setting = .slice spec.name v

/-- The arguments that write a setting. -/
inductive Written (specs : List FlagSpec) : Setting → List Bytes → Prop
  | bare {spec minus} (hmem : spec ∈ specs) (hty : spec.ty = .bool) (hminus : IsMinus minus) :
      Written specs (.bool spec.name true) [minus ++ spec.name]
  | bool {spec minus text v} (hmem : spec ∈ specs) (hty : spec.ty = .bool) (hminus : IsMinus minus)
      (htext : parseBoolValue text = some v) :
      Written specs (.bool spec.name v) [minus ++ (spec.name ++ 61 :: text)]
  | inline {spec minus v setting} (hmem : spec ∈ specs) (htakes : Takes spec v setting)
      (hminus : IsMinus minus) : Written specs setting [minus ++ (spec.name ++ 61 :: v)]
  | next {spec minus v setting} (hmem : spec ∈ specs) (htakes : Takes spec v setting)
      (hminus : IsMinus minus) : Written specs setting [minus ++ spec.name, v]

/-- `--`, or no flag. -/
def EndsFlags (s : Bytes) : Prop := s = [45, 45] ∨ s.length < 2 ∨ s.head? ≠ some 45

/-- Settings, and behind them nothing, or an argument that ends the flags and anything. -/
inductive CommandLine (specs : List FlagSpec) : List Setting → List Bytes → Prop
  | finish : CommandLine specs [] []
  | stop {s rest} (hend : EndsFlags s) : CommandLine specs [] (s :: rest)
  | set {setting settings group rest} (hgroup : Written specs setting group)
      (hrest : CommandLine specs settings rest) :
      CommandLine specs (setting :: settings) (group ++ rest)

variable {specs : List FlagSpec} {spec : FlagSpec} {name minus s : Bytes}

/-! ### One argument -/

theorem strSlice_behind {a b : Bytes} (hb : isUtf8 b = true) :
    strSlice (a ++ b) a.length (a ++ b).length = some b := by
  have h := Bytes.strSlice_append (a := a) hb (c := []) rfl
  rw [List.append_nil, ← List.length_append] at h
  exact h

theorem strSlice_before {a b : Bytes} (ha : isUtf8 a = true) (hb : isUtf8 b = true) :
    strSlice (a ++ b) 0 a.length = some a := by
  simpa using Bytes.strSlice_append (a := []) ha hb

theorem splitName_bare (hname : 61 ∉ name) : splitName name = .ok (some (name, none)) := by
  have hnone : name.findIdx? (· == 61) = none := by
    rw [List.findIdx?_eq_none_iff]
    intro c hc
    simpa using fun heq : c = 61 => hname (heq ▸ hc)
  rw [splitName, hnone]
  rfl

theorem splitName_inline {v : Bytes} (hname : 61 ∉ name) (hs : isUtf8 (name ++ 61 :: v) = true) :
    splitName (name ++ 61 :: v) = .ok (some (name, some v)) := by
  obtain ⟨hutf8, hvalue⟩ := (Bytes.isUtf8_append_ascii (by decide)).mp hs
  have hfind : (name ++ 61 :: v).findIdx? (· == 61) = some name.length :=
    Bytes.findIdx?_eq_some_iff.mpr ⟨name, v, rfl, hname, rfl⟩
  have htail : isUtf8 (61 :: v) = true := (Bytes.isUtf8_append hutf8).mp hs
  have hfront := strSlice_before hutf8 htail
  have hbehind : strSlice (name ++ 61 :: v) (name.length + 1) (name ++ 61 :: v).length = some v := by
    have h := strSlice_behind (a := name ++ [61]) hvalue
    rw [List.append_assoc, List.length_append, List.singleton_append] at h
    exact h
  rw [splitName, hfind]
  simp only [hfront, hbehind, Outcome.expect, Outcome.ok_bind]
  rfl

/-- An argument that may be a flag. -/
theorem splitFlag_cons (c : UInt8) (rest : Bytes) :
    splitFlag (45 :: c :: rest) =
      if c = 45 ∧ rest = [] then .ok none
      else .expect (strSlice (45 :: c :: rest) (if c = 45 then 2 else 1) (rest.length + 2)) >>=
        checkName (45 :: c :: rest) := by
  have hshort : ¬ ((45 :: c :: rest).length < 2 ∨ (45 :: c :: rest).head? ≠ some 45) := by simp
  have hsecond : (45 :: c :: rest)[1]? = some c := rfl
  have hlength : (45 :: c :: rest).length = rest.length + 2 := rfl
  rw [splitFlag, if_neg hshort, hsecond, hlength]
  simp only [Outcome.expect, Outcome.ok_bind, Nat.add_eq_right, List.length_eq_zero_iff]
  split
  · rfl
  · cases strSlice (45 :: c :: rest) (if c = 45 then 2 else 1) (rest.length + 2) with
    | none => rfl
    | some name => rfl

/-- A flag, by what stands behind its minuses. -/
theorem splitFlag_minus (hminus : IsMinus minus) (hs : isUtf8 (minus ++ name) = true)
    (hne : name ≠ []) (hhead : minus = [45] → name.head? ≠ some 45) :
    splitFlag (minus ++ name) = checkName (minus ++ name) name := by
  have hutf8 : isUtf8 minus = true := by
    rcases hminus with rfl | rfl <;> rfl
  have hslice := strSlice_behind (a := minus) ((Bytes.isUtf8_append hutf8).mp hs)
  rcases hminus with rfl | rfl
  · obtain ⟨c, rest, rfl⟩ := List.exists_cons_of_ne_nil hne
    have hc : c ≠ 45 := by simpa using hhead rfl
    have hslice : strSlice (45 :: c :: rest) 1 (rest.length + 2) = some (c :: rest) := hslice
    rw [List.singleton_append, splitFlag_cons, if_neg fun h => hc h.1, if_neg hc, hslice]
    rfl
  · have hslice : strSlice (45 :: 45 :: name) 2 (name.length + 2) = some name := hslice
    change splitFlag (45 :: 45 :: name) = _
    rw [splitFlag_cons, if_neg fun h => hne h.2, if_pos rfl, hslice]
    rfl

theorem checkName_name (hname : IsName name) (s tail : Bytes) :
    checkName s (name ++ tail) = splitName (name ++ tail) := by
  obtain ⟨c, rest, rfl⟩ := List.exists_cons_of_ne_nil hname.ne
  have hminus : c ≠ 45 := by simpa using hname.notMinus
  have hequals : c ≠ 61 := fun heq => hname.notEquals (heq ▸ List.mem_cons_self)
  rw [checkName, if_neg]
  simp [hminus, hequals]

theorem head_append (hname : IsName name) (tail : Bytes) : (name ++ tail).head? ≠ some 45 := by
  rw [List.head?_append_of_ne_nil _ hname.ne]
  exact hname.notMinus

theorem splitFlag_bare (hminus : IsMinus minus) (hname : IsName name)
    (hs : isUtf8 (minus ++ name) = true) : splitFlag (minus ++ name) = .ok (some (name, none)) := by
  have hcheck := checkName_name hname (minus ++ name) []
  rw [List.append_nil] at hcheck
  rw [splitFlag_minus hminus hs hname.ne fun _ => hname.notMinus, hcheck,
    splitName_bare hname.notEquals]

theorem splitFlag_inline {v : Bytes} (hminus : IsMinus minus) (hname : IsName name)
    (hs : isUtf8 (minus ++ (name ++ 61 :: v)) = true) :
    splitFlag (minus ++ (name ++ 61 :: v)) = .ok (some (name, some v)) := by
  have hutf8 : isUtf8 minus = true := by
    rcases hminus with rfl | rfl <;> rfl
  rw [splitFlag_minus hminus hs (by simp) fun _ => head_append hname _, checkName_name hname,
    splitName_inline hname.notEquals ((Bytes.isUtf8_append hutf8).mp hs)]

theorem splitFlag_ends (h : EndsFlags s) : splitFlag s = .ok none := by
  rcases h with rfl | h
  · rfl
  · rw [splitFlag, if_pos h]
    rfl

section Loop

variable {values : FlagValues} {rest args group : List Bytes} {setting : Setting}
  {settings : List Setting} {v : Bytes}

theorem findFlag_of_mem (htable : FlagTable specs) (hmem : spec ∈ specs) :
    findFlag specs spec.name = .ok spec := by
  have hfind : specs.find? (·.name = spec.name) = some spec := by
    have hdistinct := htable.distinct
    clear htable
    induction specs with
    | nil => cases hmem
    | cons first specs ih =>
        rw [List.map_cons, List.nodup_cons] at hdistinct
        rcases List.mem_cons.mp hmem with rfl | hmem
        · simp
        · have hne : first.name ≠ spec.name := fun heq =>
            hdistinct.1 (heq ▸ List.mem_map_of_mem hmem)
          rw [List.find?_cons_of_neg (by simpa using hne)]
          exact ih hmem hdistinct.2
  rw [findFlag, hfind]

theorem Takes.ty_ne (h : Takes spec v setting) : spec.ty ≠ .bool := by
  rcases h with ⟨hty, -⟩ | ⟨hty, -⟩ <;> simp [hty]

theorem Takes.store (h : Takes spec v setting) :
    store values spec v = .ok (setting.apply values) := by
  rcases h with ⟨hty, rfl⟩ | ⟨hty, rfl⟩
  · simp [Cli.store, hty, Setting.apply]
  · simp [Cli.store, hty, Setting.apply]

/-- A flag that takes no argument, from where its value is read on. -/
theorem parseFlagsFrom_bool {inline : Option Bytes}
    (hsplit : splitFlag s = .ok (some (spec.name, inline)))
    (hfind : findFlag specs spec.name = .ok spec) (hty : spec.ty = .bool) :
    parseFlagsFrom specs none values (s :: rest) =
      boolValue spec inline >>= fun v =>
        parseFlagsFrom specs none (values.setBool spec.name v) rest := by
  rw [parseFlagsFrom, hsplit, Outcome.ok_bind]
  simp only [hfind, Outcome.ok_bind, if_pos hty]

/-- A flag with its value in the same argument. -/
theorem parseFlagsFrom_inline (hsplit : splitFlag s = .ok (some (spec.name, some v)))
    (hfind : findFlag specs spec.name = .ok spec) (htakes : Takes spec v setting) :
    parseFlagsFrom specs none values (s :: rest) =
      parseFlagsFrom specs none (setting.apply values) rest := by
  rw [parseFlagsFrom, hsplit, Outcome.ok_bind]
  simp only [hfind, Outcome.ok_bind, if_neg htakes.ty_ne, htakes.store]

/-- A flag that awaits its value. -/
theorem parseFlagsFrom_await (hsplit : splitFlag s = .ok (some (spec.name, none)))
    (hfind : findFlag specs spec.name = .ok spec) (hty : spec.ty ≠ .bool) :
    parseFlagsFrom specs none values (s :: rest) =
      parseFlagsFrom specs (some spec) values rest := by
  rw [parseFlagsFrom, hsplit, Outcome.ok_bind]
  simp only [hfind, Outcome.ok_bind, if_neg hty]

theorem parseFlagsFrom_next (htakes : Takes spec v setting) :
    parseFlagsFrom specs (some spec) values (v :: rest) =
      parseFlagsFrom specs none (setting.apply values) rest := by
  rw [parseFlagsFrom, htakes.store, Outcome.ok_bind]

theorem Written.parse (htable : FlagTable specs) (h : Written specs setting group)
    (hgroup : ∀ arg ∈ group, isUtf8 arg = true) :
    parseFlagsFrom specs none values (group ++ rest) =
      parseFlagsFrom specs none (setting.apply values) rest := by
  cases h with
  | bare hmem hty hminus =>
      have hsplit := splitFlag_bare hminus (htable.isName _ hmem) (hgroup _ List.mem_cons_self)
      exact parseFlagsFrom_bool hsplit (findFlag_of_mem htable hmem) hty
  | bool hmem hty hminus htext =>
      have hsplit := splitFlag_inline hminus (htable.isName _ hmem) (hgroup _ List.mem_cons_self)
      rw [List.singleton_append, parseFlagsFrom_bool hsplit (findFlag_of_mem htable hmem) hty,
        boolValue, htext]
      rfl
  | inline hmem htakes hminus =>
      have hsplit := splitFlag_inline hminus (htable.isName _ hmem) (hgroup _ List.mem_cons_self)
      exact parseFlagsFrom_inline hsplit (findFlag_of_mem htable hmem) htakes
  | next hmem htakes hminus =>
      have hsplit := splitFlag_bare hminus (htable.isName _ hmem) (hgroup _ List.mem_cons_self)
      calc
        _ = parseFlagsFrom specs (some _) values (_ :: rest) :=
          parseFlagsFrom_await hsplit (findFlag_of_mem htable hmem) htakes.ty_ne
        _ = _ := parseFlagsFrom_next htakes

theorem CommandLine.parse (htable : FlagTable specs) (h : CommandLine specs settings args)
    (hargs : ∀ arg ∈ args, isUtf8 arg = true) :
    parseFlagsFrom specs none values args = .ok (settings.foldl Setting.apply values) := by
  induction h generalizing values with
  | finish => rfl
  | stop hend =>
      rw [parseFlagsFrom, splitFlag_ends hend, Outcome.ok_bind]
      rfl
  | set hgroup hrest ih =>
      rw [List.forall_mem_append] at hargs
      rw [hgroup.parse htable hargs.1, ih hargs.2]
      rfl

/-- The two ways in which arguments can go on. -/
def Continues (specs : List FlagSpec) (args : List Bytes) (x : Outcome FlagsError FlagValues) : Prop :=
  (∃ settings, CommandLine specs settings args) ∨ ∃ error, x = fail error

theorem Continues.set {x : Outcome FlagsError FlagValues} (h : Continues specs rest x)
    (hgroup : Written specs setting group) : Continues specs (group ++ rest) x := by
  rcases h with ⟨settings, hline⟩ | herror
  · exact Or.inl ⟨_, .set hgroup hline⟩
  · exact Or.inr herror

end Loop

/-! ### The values -/

/-- What a setting gives to a boolean flag of that name. -/
def Setting.boolOf (name : Bytes) : Setting → Option Bool
  | .bool flag v => if flag = name then some v else none
  | _ => none

def Setting.sliceOf (name : Bytes) : Setting → Option Bytes
  | .slice flag v => if flag = name then some v else none
  | _ => none

section Values

variable {settings : List Setting} {values : FlagValues}

/-- In a table that settings overwrite, the last one stays. -/
theorem lookup_foldl {ν : Type} (table : FlagValues → Table Bytes ν) (of : Setting → Option ν)
    (hstep : ∀ values (setting : Setting),
      (table (setting.apply values)).lookup name = (of setting).or ((table values).lookup name)) :
    (table (settings.foldl Setting.apply values)).lookup name =
      (settings.filterMap of).getLast?.or ((table values).lookup name) := by
  induction settings using List.reverseRecOn with
  | nil => rfl
  | append_singleton init last ih =>
      rw [List.foldl_append, List.foldl_cons, List.foldl_nil, hstep, ih, List.filterMap_append,
        List.getLast?_append]
      cases hlast : of last with
      | none => simp [hlast]
      | some v => simp [hlast]

theorem bools_foldl (settings : List Setting) (name : Bytes) :
    (settings.foldl Setting.apply .empty).bools.lookup name =
      (settings.filterMap (Setting.boolOf name)).getLast? := by
  rw [lookup_foldl FlagValues.bools (Setting.boolOf name)]
  · exact Option.or_none
  · intro values setting
    cases setting with
    | bool flag v =>
        simp only [Setting.apply, FlagValues.setBool, AList.lookup_insert_ite, Setting.boolOf,
          eq_comm (a := name)]
        split <;> simp
    | string flag v => rfl
    | slice flag v => rfl

/-- The values of a flag that may be repeated; without any, there is no entry. -/
def collected (vs : List Bytes) : Option (List Bytes) := if vs = [] then none else some vs

theorem slices_foldl (settings : List Setting) (name : Bytes) :
    (settings.foldl Setting.apply .empty).slices.lookup name =
      collected (settings.filterMap (Setting.sliceOf name)) := by
  induction settings using List.reverseRecOn with
  | nil => rfl
  | append_singleton init last ih =>
      rw [List.foldl_append, List.foldl_cons, List.foldl_nil, List.filterMap_append]
      cases last with
      | bool flag v =>
          rw [List.filterMap_cons_none rfl, List.filterMap_nil, List.append_nil]
          exact ih
      | string flag v =>
          rw [List.filterMap_cons_none rfl, List.filterMap_nil, List.append_nil]
          exact ih
      | slice flag v =>
          simp only [Setting.apply, FlagValues.push, AList.lookup_insert_ite]
          by_cases hflag : name = flag
          · subst hflag
            rw [if_pos rfl, FlagValues.slice, ih]
            simp only [collected, Setting.sliceOf, if_true, List.filterMap_cons, List.filterMap_nil]
            split
            · rename_i hnil
              simp [hnil]
            · simp
          · rw [if_neg hflag, ih]
            simp [Setting.sliceOf, Ne.symm hflag]

end Values

/-- The tables of the subcommands are of this kind. -/
theorem flagTable_flagSpecsFor (set : FlagSet) : FlagTable (flagSpecsFor set) := by
  have hnames : (flagSpecsFor set).all (fun spec =>
      !spec.name.isEmpty && !spec.name.contains 61 && spec.name.head? != some 45) = true := by
    cases set <;> decide
  refine ⟨by cases set <;> decide, fun spec hspec => ?_⟩
  have hname := List.all_eq_true.mp hnames spec hspec
  simp only [Bool.and_eq_true, Bool.not_eq_true', bne_iff_ne, ne_eq] at hname
  exact ⟨by simpa using hname.1.1, by simpa using hname.1.2, hname.2⟩

end Qvole.Cli
