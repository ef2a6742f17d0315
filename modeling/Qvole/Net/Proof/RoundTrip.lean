import Qvole.Net.Parse

/-!
# Addresses read back

The text of a socket address is read back as the address: numbers first, then the two kinds of IP
addresses, with the run of zeros that an IPv6 text leaves out.
-/

namespace Qvole

/-! ### Numbers -/

/-- The two radixes in use. -/
def Radix (radix : Nat) : Prop := radix = 10 ∨ radix = 16

theorem toDigit_digitChar {radix d : Nat} (hradix : Radix radix) (hd : d < radix) :
    toDigit radix (Nat.digitChar d).byte = some d := by
  have hten : ∀ d : Fin 10, toDigit 10 (Nat.digitChar d).byte = some d.val := by decide
  have hsixteen : ∀ d : Fin 16, toDigit 16 (Nat.digitChar d).byte = some d.val := by decide
  rcases hradix with rfl | rfl
  · exact hten ⟨d, hd⟩
  · exact hsixteen ⟨d, hd⟩

/-- A number in digits. -/
def digitsText (radix n : Nat) : Bytes := (Nat.toDigits radix n).map Char.byte

theorem digitsText_of_lt {radix n : Nat} (hn : n < radix) :
    digitsText radix n = [(Nat.digitChar n).byte] := by
  rw [digitsText, Nat.toDigits_of_lt_base hn]
  rfl

theorem digitsText_of_le {radix n : Nat} (hradix : Radix radix) (hn : radix ≤ n) :
    digitsText radix n = digitsText radix (n / radix) ++ [(Nat.digitChar (n % radix)).byte] := by
  have hone : 1 < radix := by
    rcases hradix with rfl | rfl <;> decide
  rw [digitsText, Nat.toDigits_of_base_le hone hn, List.map_append]
  rfl

theorem digitsValue_append {radix : Nat} (digits : Bytes) (c : UInt8) :
    digitsValue radix (digits ++ [c]) =
      digitsValue radix digits * radix + (toDigit radix c).getD 0 := by
  rw [digitsValue, List.foldl_append]
  rfl

/-- The digits of a number: all of them are digits, they have its value, and only zero starts with a
zero. -/
theorem digitsText_spec {radix : Nat} (hradix : Radix radix) (n : Nat) :
    (∀ c ∈ digitsText radix n, (toDigit radix c).isSome = true) ∧
      digitsValue radix (digitsText radix n) = n ∧
      ((digitsText radix n).head? = some 48 → n = 0) := by
  have hpos : 0 < radix := by
    rcases hradix with rfl | rfl <;> decide
  induction n using Nat.strongRecOn with
  | ind n ih =>
      by_cases hn : n < radix
      · have hdigit := toDigit_digitChar hradix hn
        rw [digitsText_of_lt hn]
        refine ⟨?_, ?_, ?_⟩
        · intro c hc
          rw [List.mem_singleton.mp hc, hdigit]
          rfl
        · simp [digitsValue, hdigit]
        · intro hzero
          have hbyte : (Nat.digitChar n).byte = 48 := Option.some.inj hzero
          rw [hbyte] at hdigit
          have hzero : toDigit radix 48 = some 0 := by
            rcases hradix with rfl | rfl <;> decide
          exact Option.some.inj (hdigit.symm.trans hzero)
      · have hle := Nat.le_of_not_lt hn
        have hlt : n / radix < n := Nat.div_lt_self (hpos.trans_le hle)
          (by rcases hradix with rfl | rfl <;> decide)
        obtain ⟨hdigits, hvalue, hhead⟩ := ih (n / radix) hlt
        have hdigit := toDigit_digitChar hradix (Nat.mod_lt n hpos)
        rw [digitsText_of_le hradix hle]
        refine ⟨?_, ?_, ?_⟩
        · intro c hc
          rcases List.mem_append.mp hc with hc | hc
          · exact hdigits c hc
          · rw [List.mem_singleton.mp hc, hdigit]
            rfl
        · rw [digitsValue_append, hvalue, hdigit]
          exact Nat.div_add_mod' n radix
        · intro hzero
          have hne : digitsText radix (n / radix) ≠ [] := by
            simp [digitsText, Nat.toDigits_ne_nil]
          rw [List.head?_append_of_ne_nil _ hne] at hzero
          have hquotient := hhead hzero
          have hpositive := Nat.div_pos hle hpos
          omega

theorem length_digitsText_le {radix n k : Nat} (hradix : Radix radix) (hk : 0 < k)
    (hn : n < radix ^ k) : (digitsText radix n).length ≤ k := by
  have hone : 1 < radix := by
    rcases hradix with rfl | rfl <;> decide
  rw [digitsText, List.length_map]
  exact (Nat.length_toDigits_le_iff hone hk).mpr hn

/-- What follows a number does not go on with a digit. -/
def Stops (radix : Nat) (rest : Bytes) : Prop := ∀ c ∈ rest.head?, toDigit radix c = none

theorem takeWhile_digitsText {radix n : Nat} (hradix : Radix radix) {rest : Bytes}
    (hrest : Stops radix rest) :
    (digitsText radix n ++ rest).takeWhile (fun c => (toDigit radix c).isSome) =
      digitsText radix n := by
  rw [List.takeWhile_append_of_pos (digitsText_spec hradix n).1]
  cases rest with
  | nil => simp
  | cons c rest =>
      have hc := hrest c rfl
      simp [hc]

/-- **A number is read back.** -/
theorem readNumber_digitsText {radix n maxDigits limit : Nat} (hradix : Radix radix)
    {allowZero : Bool} {rest : Bytes} (hrest : Stops radix rest) (hlimit : n < limit)
    (hlength : (digitsText radix n).length ≤ maxDigits) :
    readNumber radix maxDigits allowZero limit (digitsText radix n ++ rest) = some (n, rest) := by
  obtain ⟨-, hvalue, hhead⟩ := digitsText_spec hradix n
  have hne : digitsText radix n ≠ [] := by
    simp [digitsText, Nat.toDigits_ne_nil]
  have hzero : ¬ (!allowZero ∧ (digitsText radix n ++ rest).head? = some 48 ∧
      (digitsText radix n).length > 1) := by
    rintro ⟨-, hfirst, hlong⟩
    rw [List.head?_append_of_ne_nil _ hne] at hfirst
    have hpos : 0 < radix := by
      rcases hradix with rfl | rfl <;> decide
    rw [hhead hfirst, digitsText_of_lt hpos] at hlong
    exact absurd hlong (by simp)
  have hcount : ¬ ((digitsText radix n).length = 0 ∨ (digitsText radix n).length > maxDigits) := by
    rw [not_or, List.length_eq_zero_iff, not_lt]
    exact ⟨hne, hlength⟩
  unfold readNumber
  simp only [takeWhile_digitsText hradix hrest, if_neg hcount, if_neg hzero, hvalue,
    if_neg (Nat.not_le_of_lt hlimit), List.drop_left]

theorem readDecimal_decimal {n limit : Nat} (hn : n < limit) {rest : Bytes} (hrest : Stops 10 rest) :
    readDecimal limit (decimal n ++ rest) = some (n, rest) := by
  refine readNumber_digitsText (Or.inl rfl) hrest hn ?_
  rw [List.length_append]
  exact Nat.le_add_right _ _

/-! ### IPv4 -/

theorem readOctet_decimal (b : UInt8) {rest : Bytes} (hrest : Stops 10 rest) :
    readNumber 10 3 false 256 (decimal b.toNat ++ rest) = some (b.toNat, rest) :=
  readNumber_digitsText (Or.inl rfl) hrest b.toNat_lt
    (length_digitsText_le (Or.inl rfl) (by decide) (b.toNat_lt.trans (by decide)))

theorem stops_cons {radix : Nat} {c : UInt8} (hc : toDigit radix c = none) (rest : Bytes) :
    Stops radix (c :: rest) := by
  intro d hd
  cases hd
  exact hc

theorem readIpv4Addr_toText (ip : Ipv4Addr) {rest : Bytes} (hrest : Stops 10 rest) :
    readIpv4Addr (ip.toText ++ rest) = some (ip, rest) := by
  have hdot : ∀ b : Bytes, ascii "." ++ b = 46 :: b := fun _ => rfl
  have hstop : ∀ b : Bytes, Stops 10 (46 :: b) := stops_cons (by decide)
  simp only [Ipv4Addr.toText, List.append_assoc, hdot, List.cons_append]
  simp only [readIpv4Addr, readOctet_decimal ip.a (hstop _), Option.bind_eq_bind, Option.bind_some,
    readSeparator, readGivenChar, gt_iff_lt, Nat.zero_lt_succ, if_true,
    readOctet_decimal ip.b (hstop _), readOctet_decimal ip.c (hstop _),
    readOctet_decimal ip.d hrest, UInt8.ofNat_toNat]
  rfl

/-! ### IPv6 -/

theorem readSegment_hexadecimal (segment : UInt16) {rest : Bytes} (hrest : Stops 16 rest) :
    readNumber 16 4 true 65536 (hexadecimal segment.toNat ++ rest) = some (segment.toNat, rest) :=
  readNumber_digitsText (Or.inr rfl) hrest segment.toNat_lt
    (length_digitsText_le (Or.inr rfl) (by decide) segment.toNat_lt)

theorem drop_takeWhile (p : UInt8 → Bool) (s : Bytes) :
    s.drop (s.takeWhile p).length = s.dropWhile p := by
  have hsplit : s.takeWhile p ++ s.dropWhile p = s := List.takeWhile_append_dropWhile
  have hdrop : (s.takeWhile p ++ s.dropWhile p).drop (s.takeWhile p).length = s.dropWhile p :=
    List.drop_left
  rwa [hsplit] at hdrop

/-- A group in hex is not the start of an IPv4 address: no dot follows its digits. -/
theorem readIpv4Addr_eq_none {s : Bytes}
    (h : ∀ c ∈ (s.dropWhile fun c => (toDigit 10 c).isSome).head?, c ≠ 46) :
    readIpv4Addr s = none := by
  unfold readIpv4Addr
  cases hread : readNumber 10 3 false 256 s with
  | none => rfl
  | some r =>
      have hrest : r.2 = s.dropWhile fun c => (toDigit 10 c).isSome := by
        unfold readNumber at hread
        simp only at hread
        split at hread
        · cases hread
        · split at hread
          · cases hread
          · split at hread
            · cases hread
            · cases hread
              exact drop_takeWhile _ s
      have hsep : readGivenChar 46 r.2 = none := by
        rw [hrest]
        cases hdrop : s.dropWhile fun c => (toDigit 10 c).isSome with
        | nil => rfl
        | cons c rest => rw [readGivenChar, if_neg (h c (by rw [hdrop]; rfl))]
      simp [readSeparator, hsep]

/-- What follows the hex groups: neither a digit nor a dot. -/
structure EndsGroup (rest : Bytes) : Prop where
  stops : Stops 16 rest
  dot : ∀ c ∈ rest.head?, c ≠ 46

theorem endsGroup_cons {c : UInt8} (hc : toDigit 16 c = none ∧ c ≠ 46) (rest : Bytes) :
    EndsGroup (c :: rest) := by
  refine ⟨stops_cons hc.1 rest, fun d hd => ?_⟩
  cases hd
  exact hc.2

theorem head_dropWhile_ne {p : UInt8 → Bool} {digits rest : Bytes} {bad : UInt8}
    (hdigits : ∀ c ∈ digits, c ≠ bad) (hrest : ∀ c ∈ rest.head?, c ≠ bad)
    (hstops : ∀ c ∈ rest.head?, p c = false) :
    ∀ c ∈ ((digits ++ rest).dropWhile p).head?, c ≠ bad := by
  induction digits with
  | nil =>
      cases rest with
      | nil => simp
      | cons d rest =>
          have hd := hstops d rfl
          intro c hc
          rw [List.nil_append, List.dropWhile_cons, hd] at hc
          exact hrest c hc
  | cons d digits ih =>
      intro c hc
      rw [List.cons_append, List.dropWhile_cons] at hc
      split at hc
      · exact ih (fun e he => hdigits e (List.mem_cons_of_mem d he)) c hc
      · cases hc
        exact hdigits _ List.mem_cons_self

theorem toDigit_ten_of_sixteen (c : UInt8) : toDigit 16 c = none → toDigit 10 c = none := by
  unfold toDigit
  simp only
  split
  · rename_i hdigit
    have hle : c.toNat ≤ 57 := hdigit.2
    intro h
    simp only [ite_eq_right_iff, reduceCtorEq, imp_false, not_lt] at h
    omega
  · split
    · intro _
      simp
    · split
      · intro _
        simp
      · intro _
        simp

theorem readIpv4Addr_hexadecimal (n : Nat) {rest : Bytes} (hrest : EndsGroup rest) :
    readIpv4Addr (hexadecimal n ++ rest) = none := by
  apply readIpv4Addr_eq_none
  refine head_dropWhile_ne (fun c hc hdot => ?_) hrest.dot fun c hc => ?_
  · have hdigit := (digitsText_spec (Or.inr rfl : Radix 16) n).1 c hc
    rw [hdot] at hdigit
    exact absurd hdigit (by decide)
  · rw [toDigit_ten_of_sixteen c (hrest.stops c hc)]
    rfl

/-! ### Groups -/

/-- The groups from index `i` on, each behind its separator. -/
def groupsText : (i : Nat) → List UInt16 → Bytes
  | _, [] => []
  | i, segment :: rest =>
      (if i > 0 then ascii ":" else []) ++ hexadecimal segment.toNat ++ groupsText (i + 1) rest

theorem segmentsText_eq (segments : List UInt16) : segmentsText segments = groupsText 0 segments := by
  have htail : ∀ (rest : List UInt16) (i : Nat), groupsText (i + 1) rest =
      rest.flatMap fun s => ascii ":" ++ hexadecimal s.toNat := by
    intro rest
    induction rest with
    | nil => intro i; rfl
    | cons segment rest ih =>
        intro i
        rw [groupsText, if_pos (Nat.succ_pos i), ih, List.flatMap_cons]
  cases segments with
  | nil => rfl
  | cons segment rest =>
      rw [groupsText, htail, segmentsText, List.map_cons]
      induction rest generalizing segment with
      | nil => simp
      | cons next rest ih =>
          rw [List.map_cons, List.intercalate_cons_cons, ih next]
          simp

theorem readSeparator_group {α : Type} (i : Nat) (inner : Bytes → Option (α × Bytes)) (s : Bytes) :
    readSeparator 58 i inner ((if i > 0 then ascii ":" else []) ++ s) = inner s := by
  unfold readSeparator
  split
  · rfl
  · rfl

/-- **Groups are read back.** -/
theorem readGroups_groupsText {segments : List UInt16} {left i : Nat} {rest : Bytes}
    (hlength : segments.length ≤ left) (hrest : EndsGroup rest)
    (hend : readGroups (left - segments.length) (i + segments.length) rest = ([], false, rest)) :
    readGroups left i (groupsText i segments ++ rest) = (segments, false, rest) := by
  induction segments generalizing left i with
  | nil => exact hend
  | cons segment segments ih =>
      obtain ⟨left, rfl⟩ : ∃ left', left = left' + 1 := Nat.exists_eq_succ_of_ne_zero (by
        rw [List.length_cons] at hlength
        omega)
      have hnext : EndsGroup (groupsText (i + 1) segments ++ rest) := by
        cases segments with
        | nil => exact hrest
        | cons next segments =>
            rw [groupsText, if_pos (Nat.succ_pos i)]
            exact endsGroup_cons (by decide) _
      have hothers : readGroups left (i + 1) (groupsText (i + 1) segments ++ rest) =
          (segments, false, rest) := by
        apply ih
        · exact Nat.le_of_succ_le_succ hlength
        · rw [List.length_cons, Nat.add_sub_add_right] at hend
          rw [Nat.add_assoc, Nat.add_comm 1]
          exact hend
      have hipv4 : (if left > 0 then readSeparator 58 i readIpv4Addr
          (groupsText i (segment :: segments) ++ rest) else none) = none := by
        split
        · rw [groupsText, List.append_assoc, List.append_assoc, readSeparator_group]
          exact readIpv4Addr_hexadecimal _ hnext
        · rfl
      have hgroup : readSeparator 58 i (readNumber 16 4 true 65536)
          (groupsText i (segment :: segments) ++ rest) =
            some (segment.toNat, groupsText (i + 1) segments ++ rest) := by
        rw [groupsText, List.append_assoc, List.append_assoc, readSeparator_group]
        exact readSegment_hexadecimal segment hnext.stops
      rw [readGroups]
      simp only [hipv4, hgroup, hothers, UInt16.ofNat_toNat]

theorem readNumber_eq_none {radix maxDigits limit : Nat} {allowZero : Bool} {s : Bytes}
    (hs : Stops radix s) : readNumber radix maxDigits allowZero limit s = none := by
  have hdigits : s.takeWhile (fun c => (toDigit radix c).isSome) = [] := by
    cases s with
    | nil => rfl
    | cons c s => simp [hs c rfl]
  simp [readNumber, hdigits]

theorem Stops.ten {s : Bytes} (hs : Stops 16 s) : Stops 10 s :=
  fun c hc => toDigit_ten_of_sixteen c (hs c hc)

theorem readIpv4Addr_of_stops {s : Bytes} (hs : Stops 10 s) : readIpv4Addr s = none := by
  simp [readIpv4Addr, readNumber_eq_none hs]

/-- No group follows: neither here nor behind a separator. -/
theorem readGroups_of_stops (left i : Nat) {s : Bytes} (hs : Stops 16 s)
    (htail : s.head? = some 58 → Stops 16 s.tail) : readGroups left i s = ([], false, s) := by
  have hnone : ∀ {α : Type} (inner : Bytes → Option (α × Bytes)),
      (∀ {s}, Stops 16 s → inner s = none) → readSeparator 58 i inner s = none := by
    intro α inner hinner
    unfold readSeparator
    split
    · cases s with
      | nil => rfl
      | cons c s =>
          rw [readGivenChar]
          split
          · rename_i hc
            exact hinner (htail (by rw [hc]; rfl))
          · rfl
    · exact hinner hs
  cases left with
  | zero => rfl
  | succ left =>
      have hipv4 : (if left > 0 then readSeparator 58 i readIpv4Addr s else none) = none := by
        split
        · exact hnone _ fun hs => readIpv4Addr_of_stops hs.ten
        · rfl
      rw [readGroups]
      simp only [hipv4, hnone (readNumber 16 4 true 65536) fun hs => readNumber_eq_none hs]

/-! ### Runs of zeros -/

/-- From `start` on, `run.2` of the segments are zero. -/
def ZeroRun (segments : List UInt16) (run : Nat × Nat) : Prop :=
  run.1 + run.2 ≤ segments.length ∧
    ∀ j, run.1 ≤ j → j < run.1 + run.2 → segments[j]? = some 0

theorem zeroRun_empty (segments : List UInt16) : ZeroRun segments (0, 0) :=
  ⟨Nat.zero_le _, fun j _ hj => absurd hj (Nat.not_lt_zero j)⟩

theorem zeroRun_longestZeroRun {segments past rest : List UInt16} {i : Nat}
    {current longest : Nat × Nat} (hsegments : segments = past ++ rest) (hi : i = past.length)
    (hcurrent : ZeroRun segments current) (hend : current.2 = 0 ∨ current.1 + current.2 = i)
    (hlongest : ZeroRun segments longest) :
    ZeroRun segments (longestZeroRun rest i current longest) := by
  induction rest generalizing past i current longest with
  | nil => exact hlongest
  | cons segment rest ih =>
      have hhere : segments[i]? = some segment := by
        rw [hsegments, hi]
        simp
      have hbound : i < segments.length := by
        rw [hsegments, hi, List.length_append, List.length_cons]
        omega
      have hsplit : segments = (past ++ [segment]) ++ rest := by
        rw [hsegments, List.append_assoc]
        rfl
      have hlength : i + 1 = (past ++ [segment]).length := by
        rw [hi, List.length_append, List.length_singleton]
      rw [longestZeroRun]
      split
      · rename_i hzero
        -- the run being read is one longer
        have hlonger : ∀ run : Nat × Nat,
            run = (if current.2 = 0 then (i, 1) else (current.1, current.2 + 1)) →
            ZeroRun segments run ∧ run.1 + run.2 = i + 1 := by
          intro run hrun
          split at hrun
          · rw [hrun]
            refine ⟨⟨hbound, fun j hle hlt => ?_⟩, rfl⟩
            obtain rfl : j = i := Nat.le_antisymm (Nat.le_of_lt_succ hlt) hle
            rw [hhere, hzero]
          · rename_i hne
            rw [hrun]
            have hat : current.1 + current.2 = i := hend.resolve_left hne
            refine ⟨⟨?_, fun j hle hlt => ?_⟩, ?_⟩
            · change current.1 + (current.2 + 1) ≤ segments.length
              omega
            · change j < current.1 + (current.2 + 1) at hlt
              by_cases hj : j = i
              · rw [hj, hhere, hzero]
              · exact hcurrent.2 j hle (by omega)
            · change current.1 + (current.2 + 1) = i + 1
              omega
        obtain ⟨hrun, hat⟩ := hlonger _ rfl
        refine ih hsplit hlength hrun (Or.inr hat) ?_
        generalize (if current.2 = 0 then (i, 1) else (current.1, current.2 + 1)) = run at hrun ⊢
        split
        · exact hrun
        · exact hlongest
      · exact ih hsplit hlength (zeroRun_empty _) (Or.inl rfl) hlongest

theorem eq_of_zeroRun {segments : List UInt16} {run : Nat × Nat} (h : ZeroRun segments run) :
    segments = segments.take run.1 ++ List.replicate run.2 0 ++ segments.drop (run.1 + run.2) := by
  have hmiddle : (segments.drop run.1).take run.2 = List.replicate run.2 0 := by
    rw [List.eq_replicate_iff]
    refine ⟨?_, fun b hb => ?_⟩
    · have hle := h.1
      rw [List.length_take, List.length_drop]
      omega
    · obtain ⟨k, hk⟩ := List.mem_iff_getElem?.mp hb
      rw [List.getElem?_take] at hk
      split at hk
      · rename_i hlt
        rw [List.getElem?_drop, h.2 _ (Nat.le_add_right _ _) (Nat.add_lt_add_left hlt _)] at hk
        exact (Option.some.inj hk).symm
      · cases hk
  calc
    segments = segments.take run.1 ++ segments.drop run.1 := (List.take_append_drop _ _).symm
    _ = segments.take run.1 ++ ((segments.drop run.1).take run.2 ++
        (segments.drop run.1).drop run.2) := by rw [List.take_append_drop run.2]
    _ = _ := by rw [hmiddle, List.drop_drop, List.append_assoc]

/-! ### IPv6 addresses -/

theorem ofSegments_segments (ip : Ipv6Addr) : Ipv6Addr.ofSegments ip.segments = ip := rfl

theorem length_segments (ip : Ipv6Addr) : ip.segments.length = 8 := rfl

/-- What follows the address in a socket address. -/
structure EndsAddr (rest : Bytes) : Prop where
  group : EndsGroup rest
  colon : ∀ c ∈ rest.head?, c ≠ 58

theorem EndsAddr.readGroups {rest : Bytes} (h : EndsAddr rest) (left i : Nat) :
    readGroups left i rest = ([], false, rest) :=
  readGroups_of_stops left i h.group.stops fun hhead => absurd rfl (h.colon 58 hhead)

theorem readIpv6Addr_full (ip : Ipv6Addr) {rest : Bytes} (hrest : EndsAddr rest) :
    readIpv6Addr (segmentsText ip.segments ++ rest) = some (ip, rest) := by
  have hgroups : readGroups 8 0 (segmentsText ip.segments ++ rest) = (ip.segments, false, rest) := by
    rw [segmentsText_eq]
    exact readGroups_groupsText (length_segments ip).le hrest.group rfl
  rw [readIpv6Addr]
  simp only [hgroups, length_segments, if_true]
  rfl

theorem readIpv6Addr_compressed {head tail : List UInt16} (ip : Ipv6Addr) {n : Nat}
    (hsegments : ip.segments = head ++ List.replicate n 0 ++ tail) (hn : 1 < n) {rest : Bytes}
    (hrest : EndsAddr rest) :
    readIpv6Addr (segmentsText head ++ ascii "::" ++ segmentsText tail ++ rest) =
      some (ip, rest) := by
  have hlength : head.length + n + tail.length = 8 := by
    have h := congrArg List.length hsegments
    rw [length_segments, List.length_append, List.length_append, List.length_replicate] at h
    exact h.symm
  have hhead : readGroups 8 0 (segmentsText head ++ (58 :: 58 :: (segmentsText tail ++ rest))) =
      (head, false, 58 :: 58 :: (segmentsText tail ++ rest)) := by
    rw [segmentsText_eq]
    refine readGroups_groupsText (by omega) (endsGroup_cons (by decide) _) ?_
    exact readGroups_of_stops _ _ (stops_cons (by decide) _) fun _ => stops_cons (by decide) _
  have htail : readGroups (8 - (head.length + 1)) 0 (segmentsText tail ++ rest) =
      (tail, false, rest) := by
    rw [segmentsText_eq]
    exact readGroups_groupsText (by omega) hrest.group (hrest.readGroups _ _)
  have htext : segmentsText head ++ ascii "::" ++ segmentsText tail ++ rest =
      segmentsText head ++ (58 :: 58 :: (segmentsText tail ++ rest)) := by
    simp only [List.append_assoc]
    rfl
  rw [htext, readIpv6Addr]
  have hzeros : 8 - head.length - tail.length = n := by omega
  simp only [hhead, if_neg (by omega : ¬ head.length = 8), Bool.false_eq_true, if_false,
    readGivenChar, if_true, Option.bind_eq_bind, Option.bind_some, htail, hzeros, ← hsegments]
  rfl

theorem ofNat_octets (segment : UInt16) :
    UInt16.ofNat ((segment >>> 8).toUInt8.toNat * 256 + segment.toUInt8.toNat) = segment := by
  have hlt : segment.toNat < 65536 := segment.toNat_lt
  apply UInt16.toNat_inj.mp
  simp only [UInt16.toNat_ofNat', UInt16.toNat_toUInt8, UInt16.toNat_shiftRight,
    Nat.shiftRight_eq_div_pow, UInt16.reduceToNat, Nat.reduceMod, Nat.reducePow]
  omega

theorem segments_of_toIpv4Mapped {ip : Ipv6Addr} {v4 : Ipv4Addr}
    (h : ip.toIpv4Mapped = some v4) :
    ip.segments = List.replicate 5 0 ++
      [0xffff, .ofNat (v4.a.toNat * 256 + v4.b.toNat), .ofNat (v4.c.toNat * 256 + v4.d.toNat)] := by
  unfold Ipv6Addr.toIpv4Mapped at h
  split at h
  · rename_i hmapped
    obtain ⟨h0, h1, h2, h3, h4, h5⟩ := hmapped
    cases h
    rw [ofNat_octets, ofNat_octets, Ipv6Addr.segments, h0, h1, h2, h3, h4, h5]
    rfl
  · cases h

theorem readIpv6Addr_mapped {ip : Ipv6Addr} {v4 : Ipv4Addr} (h : ip.toIpv4Mapped = some v4)
    {rest : Bytes} (hrest : EndsAddr rest) :
    readIpv6Addr (ascii "::ffff:" ++ v4.toText ++ rest) = some (ip, rest) := by
  have hffff : ascii "ffff" = hexadecimal 0xffff := by decide +kernel
  have htext : ascii "::ffff:" ++ v4.toText ++ rest =
      58 :: 58 :: (hexadecimal 0xffff ++ (58 :: (v4.toText ++ rest))) := by
    rw [← hffff]
    rfl
  have hhead : readGroups 8 0 (58 :: 58 :: (hexadecimal 0xffff ++ (58 :: (v4.toText ++ rest)))) =
      ([], false, 58 :: 58 :: (hexadecimal 0xffff ++ (58 :: (v4.toText ++ rest)))) :=
    readGroups_of_stops 8 0 (stops_cons (by decide) _) fun _ => stops_cons (by decide) _
  have hcolon : EndsGroup (58 :: (v4.toText ++ rest)) := endsGroup_cons (by decide) _
  have hlast : readGroups 6 1 (58 :: (v4.toText ++ rest)) =
      ([.ofNat (v4.a.toNat * 256 + v4.b.toNat), .ofNat (v4.c.toNat * 256 + v4.d.toNat)], true,
        rest) := by
    rw [readGroups]
    simp only [readSeparator, readGivenChar, gt_iff_lt, Nat.zero_lt_succ, if_true, Option.bind_some,
      readIpv4Addr_toText v4 hrest.group.stops.ten]
  have htail : readGroups 7 0 (hexadecimal 0xffff ++ (58 :: (v4.toText ++ rest))) =
      ([0xffff, .ofNat (v4.a.toNat * 256 + v4.b.toNat), .ofNat (v4.c.toNat * 256 + v4.d.toNat)],
        true, rest) := by
    have hgroup : readNumber 16 4 true 65536 (hexadecimal 0xffff ++ (58 :: (v4.toText ++ rest))) =
        some (0xffff, 58 :: (v4.toText ++ rest)) := readSegment_hexadecimal 0xffff hcolon.stops
    rw [readGroups]
    simp only [readSeparator, gt_iff_lt, lt_irrefl, if_false, Nat.zero_lt_succ, if_true,
      readIpv4Addr_hexadecimal _ hcolon, hgroup, Nat.zero_add, hlast]
    rfl
  rw [htext, readIpv6Addr]
  simp only [hhead, List.length_nil, Nat.zero_add, Nat.reduceSub, reduceCtorEq, if_false,
    Bool.false_eq_true, readGivenChar, if_true, Option.bind_eq_bind, Option.bind_some, htail]
  rw [← ofSegments_segments ip, segments_of_toIpv4Mapped h]
  rfl

theorem readIpv6Addr_toText (ip : Ipv6Addr) {rest : Bytes} (hrest : EndsAddr rest) :
    readIpv6Addr (ip.toText ++ rest) = some (ip, rest) := by
  unfold Ipv6Addr.toText
  split
  · rename_i v4 hmapped
    exact readIpv6Addr_mapped hmapped hrest
  · simp only
    split
    · rename_i hlong
      have hrun : ZeroRun ip.segments (longestZeroRun ip.segments 0 (0, 0) (0, 0)) :=
        zeroRun_longestZeroRun (List.nil_append _).symm rfl (zeroRun_empty _) (Or.inl rfl)
          (zeroRun_empty _)
      exact readIpv6Addr_compressed ip (eq_of_zeroRun hrun) hlong hrest
    · exact readIpv6Addr_full ip hrest

/-! ### Socket addresses -/

theorem readPort_decimal (port : UInt16) :
    readPort (58 :: decimal port.toNat) = some (port, []) := by
  have hread : readDecimal 65536 (decimal port.toNat ++ []) = some (port.toNat, []) :=
    readDecimal_decimal port.toNat_lt (by simp [Stops])
  rw [List.append_nil] at hread
  simp [readPort, readGivenChar, hread]

theorem readScopeId_decimal (scopeId : UInt32) (rest : Bytes) :
    readScopeId (37 :: (decimal scopeId.toNat ++ 93 :: rest)) = some (scopeId, 93 :: rest) := by
  have hread := readDecimal_decimal scopeId.toNat_lt (stops_cons (c := 93) (by decide) rest)
  simp [readScopeId, readGivenChar, hread]

/-- **Socket addresses are read back.** -/
theorem SocketAddr.parse_toText (addr : SocketAddr) : SocketAddr.parse addr.toText = some addr := by
  cases addr with
  | v4 ip port =>
      have hip : readIpv4Addr (ip.toText ++ (58 :: decimal port.toNat)) =
          some (ip, 58 :: decimal port.toNat) :=
        readIpv4Addr_toText ip (stops_cons (by decide) _)
      have htext : (SocketAddr.v4 ip port).toText = ip.toText ++ (58 :: decimal port.toNat) := by
        rw [SocketAddr.toText, List.append_assoc]
        rfl
      have hread : readSocketAddrV4 (ip.toText ++ (58 :: decimal port.toNat)) =
          some (.v4 ip port, []) := by
        simp [readSocketAddrV4, hip, readPort_decimal]
      rw [SocketAddr.parse, htext, hread]
      rfl
  | v6 ip port scopeId =>
      let scope := if scopeId = 0 then [] else 37 :: decimal scopeId.toNat
      have htext : (SocketAddr.v6 ip port scopeId).toText =
          91 :: (ip.toText ++ (scope ++ 93 :: 58 :: decimal port.toNat)) := by
        simp only [SocketAddr.toText, List.append_assoc, scope]
        split <;> rfl
      have hends : EndsAddr (scope ++ 93 :: 58 :: decimal port.toNat) := by
        simp only [scope]
        split
        · exact ⟨endsGroup_cons (by decide) _, by simp⟩
        · exact ⟨endsGroup_cons (by decide) _, by simp⟩
      have hscope : (readScopeId (scope ++ 93 :: 58 :: decimal port.toNat)).getD
          (0, scope ++ 93 :: 58 :: decimal port.toNat) = (scopeId, 93 :: 58 :: decimal port.toNat) := by
        simp only [scope]
        split
        · rename_i hzero
          rw [hzero]
          rfl
        · rw [List.cons_append, readScopeId_decimal]
          rfl
      have hv4 : readSocketAddrV4 (91 :: (ip.toText ++ (scope ++ 93 :: 58 :: decimal port.toNat))) =
          none := by
        simp [readSocketAddrV4, readIpv4Addr_of_stops (stops_cons (c := 91) (by decide) _)]
      have hv6 : readSocketAddrV6 (91 :: (ip.toText ++ (scope ++ 93 :: 58 :: decimal port.toNat))) =
          some (.v6 ip port scopeId, []) := by
        simp only [readSocketAddrV6, readGivenChar, if_true, Option.bind_eq_bind, Option.bind_some,
          readIpv6Addr_toText ip hends, hscope, readPort_decimal]
        rfl
      rw [SocketAddr.parse, htext, hv4, hv6]
      rfl

/-! ### What the texts look like -/

def printable (c : UInt8) : Bool := 33 ≤ c && c ≤ 126

/-- Every byte is a visible ASCII character. -/
def Printable (b : Bytes) : Prop := b.all printable = true

instance decidablePrintable (b : Bytes) : Decidable (Printable b) :=
  inferInstanceAs (Decidable (b.all printable = true))

theorem Printable.append {a b : Bytes} (ha : Printable a) (hb : Printable b) :
    Printable (a ++ b) := by
  rw [Printable, List.all_append, ha, hb]
  rfl

theorem printable_of_le {c low high : UInt8} (hlow : low ≤ c) (hhigh : c ≤ high)
    (hrange : 33 ≤ low ∧ high ≤ 126) : printable c = true := by
  rw [printable, Bool.and_eq_true, decide_eq_true_eq, decide_eq_true_eq]
  exact ⟨UInt8.le_trans hrange.1 hlow, UInt8.le_trans hhigh hrange.2⟩

theorem printable_of_toDigit {radix : Nat} {c : UInt8} (h : (toDigit radix c).isSome = true) :
    printable c = true := by
  unfold toDigit at h
  by_cases hdigit : 48 ≤ c ∧ c ≤ 57
  · exact printable_of_le hdigit.1 hdigit.2 (by decide)
  · by_cases hlower : 97 ≤ c ∧ c ≤ 122
    · exact printable_of_le hlower.1 hlower.2 (by decide)
    · by_cases hupper : 65 ≤ c ∧ c ≤ 90
      · exact printable_of_le hupper.1 hupper.2 (by decide)
      · simp [hdigit, hlower, hupper] at h

theorem printable_digitsText {radix : Nat} (hradix : Radix radix) (n : Nat) :
    Printable (digitsText radix n) :=
  List.all_eq_true.mpr fun c hc => printable_of_toDigit ((digitsText_spec hradix n).1 c hc)

theorem printable_decimal (n : Nat) : Printable (decimal n) := printable_digitsText (Or.inl rfl) n

theorem printable_dot : Printable (ascii ".") := by decide

theorem printable_colon : Printable (ascii ":") := by decide

theorem Ipv4Addr.printable_toText (ip : Ipv4Addr) : Printable ip.toText := by
  unfold Ipv4Addr.toText
  exact ((((((printable_decimal _).append printable_dot).append (printable_decimal _)).append
    printable_dot).append (printable_decimal _)).append printable_dot).append (printable_decimal _)

theorem Ipv4Addr.length_toText_le (ip : Ipv4Addr) : ip.toText.length ≤ 15 := by
  have hoctet : ∀ b : UInt8, (decimal b.toNat).length ≤ 3 := fun b =>
    length_digitsText_le (Or.inl rfl) (by decide) (b.toNat_lt.trans (by decide))
  have ha := hoctet ip.a
  have hb := hoctet ip.b
  have hc := hoctet ip.c
  have hd := hoctet ip.d
  have hdot : (ascii ".").length = 1 := rfl
  simp only [Ipv4Addr.toText, List.length_append, hdot]
  omega

theorem groupsText_spec (segments : List UInt16) (i : Nat) :
    Printable (groupsText i segments) ∧ (groupsText i segments).length ≤ 5 * segments.length := by
  induction segments generalizing i with
  | nil => exact ⟨by simp [groupsText, Printable], Nat.zero_le _⟩
  | cons segment segments ih =>
      obtain ⟨hprintable, hlength⟩ := ih (i + 1)
      have hsep : Printable (if i > 0 then ascii ":" else []) ∧
          (if i > 0 then ascii ":" else []).length ≤ 1 := by
        split
        · exact ⟨printable_colon, Nat.le_refl 1⟩
        · exact ⟨by simp [Printable], Nat.zero_le _⟩
      have hgroup : (hexadecimal segment.toNat).length ≤ 4 :=
        length_digitsText_le (Or.inr rfl) (by decide) segment.toNat_lt
      refine ⟨(hsep.1.append (printable_digitsText (Or.inr rfl) _)).append hprintable, ?_⟩
      rw [groupsText, List.length_append, List.length_append, List.length_cons]
      have hcolon := hsep.2
      omega

theorem Ipv6Addr.toText_spec (ip : Ipv6Addr) : Printable ip.toText ∧ ip.toText.length ≤ 42 := by
  unfold Ipv6Addr.toText
  split
  · rename_i v4 _
    have hlength := v4.length_toText_le
    have hmapped : (ascii "::ffff:").length = 7 := rfl
    refine ⟨Printable.append (by decide) v4.printable_toText, ?_⟩
    rw [List.length_append, hmapped]
    omega
  · simp only [segmentsText_eq]
    split
    · generalize longestZeroRun ip.segments 0 (0, 0) (0, 0) = run
      obtain ⟨hhead, hheadLength⟩ := groupsText_spec (ip.segments.take run.1) 0
      obtain ⟨htail, htailLength⟩ := groupsText_spec (ip.segments.drop (run.1 + run.2)) 0
      have hcolons : (ascii "::").length = 2 := rfl
      refine ⟨(hhead.append (by decide)).append htail, ?_⟩
      rw [List.length_take, length_segments] at hheadLength
      rw [List.length_drop, length_segments] at htailLength
      rw [List.length_append, List.length_append, hcolons]
      omega
    · obtain ⟨hprintable, hlength⟩ := groupsText_spec ip.segments 0
      rw [length_segments] at hlength
      exact ⟨hprintable, hlength.trans (by decide)⟩

theorem SocketAddr.toText_spec (addr : SocketAddr) :
    Printable addr.toText ∧ addr.toText.length ≤ 61 := by
  have hport : ∀ port : UInt16, (decimal port.toNat).length ≤ 5 := fun port =>
    length_digitsText_le (Or.inl rfl) (by decide) (port.toNat_lt.trans (by decide))
  cases addr with
  | v4 ip port =>
      have hip := ip.length_toText_le
      have hdecimal := hport port
      have hcolon : (ascii ":").length = 1 := rfl
      refine ⟨(ip.printable_toText.append printable_colon).append (printable_decimal _), ?_⟩
      simp only [SocketAddr.toText, List.length_append, hcolon]
      omega
  | v6 ip port scopeId =>
      obtain ⟨hip, hipLength⟩ := ip.toText_spec
      have hdecimal := hport port
      have hscope : Printable (if scopeId = 0 then [] else ascii "%" ++ decimal scopeId.toNat) ∧
          (if scopeId = 0 then [] else ascii "%" ++ decimal scopeId.toNat).length ≤ 11 := by
        split
        · exact ⟨by simp [Printable], Nat.zero_le _⟩
        · refine ⟨Printable.append (by decide) (printable_decimal _), ?_⟩
          have hpercent : (ascii "%").length = 1 := rfl
          have hlength : (decimal scopeId.toNat).length ≤ 10 :=
            length_digitsText_le (Or.inl rfl) (by decide) (scopeId.toNat_lt.trans (by decide))
          rw [List.length_append, hpercent]
          omega
      have hopen : (ascii "[").length = 1 := rfl
      have hclose : (ascii "]:").length = 2 := rfl
      refine ⟨((((by decide : Printable (ascii "[")).append hip).append hscope.1).append
        (by decide)).append (printable_decimal _), ?_⟩
      have hscopeLength := hscope.2
      simp only [SocketAddr.toText, List.length_append, hopen, hclose]
      omega

end Qvole
