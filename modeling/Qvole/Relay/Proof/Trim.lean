import Qvole.Exchange.Proof.Read
import Qvole.Relay.Server

/-!
# Trimming blanks

The client counts the blanks at both ends of a text and slices between the counts; the relay looks
for the first and the last byte that is not blank. Both give the longest part that neither starts nor
ends with a blank, except that on a text of blanks only the client's two counts overlap.
-/

namespace Qvole.Relay

open Exchange (Registrar)

theorem ws_contains_eq (c : UInt8) : Exchange.ws.contains c = ws.contains c := by
  simp only [Exchange.ws, ws, List.contains_cons, List.contains_nil, Bool.or_false]
  cases c == 32 <;> cases c == 9 <;> simp

/-- The bounds of the slice that `trim_ascii_space` takes. -/
def trimRange (b : Bytes) : Nat × Nat :=
  let start := (b.findIdx? fun c => !ws.contains c).getD b.length
  (start, ((Bytes.rposition (fun c => !ws.contains c) b).map (· + 1)).getD start)

theorem trimRange_core {head core tail : Bytes} (hhead : ∀ c ∈ head, ws.contains c = true)
    (hcore : Bytes.Solid ws.contains core) (htail : ∀ c ∈ tail, ws.contains c = true) :
    trimRange (head ++ core ++ tail) = (head.length, (head ++ core).length) := by
  have hstart : (head ++ core ++ tail).findIdx? (fun c => !ws.contains c) = some head.length := by
    obtain ⟨c, hc, hsolid⟩ := hcore.1
    cases core with
    | nil => simp at hc
    | cons e rest =>
        obtain rfl : e = c := by simpa using hc
        rw [List.append_assoc, List.findIdx?_append, Bytes.findIdx?_blank hhead, List.cons_append,
          List.findIdx?_cons, hsolid]
        simp
  have hpos : 0 < (head ++ core).length := by
    obtain ⟨c, hc, -⟩ := hcore.1
    cases core with
    | nil => simp at hc
    | cons e rest =>
        rw [List.length_append, List.length_cons]
        omega
  have hstop := Bytes.rposition_append (hcore.append_last head) htail
  simp only [trimRange, hstart, hstop, Option.map_some, Option.getD_some]
  rw [Nat.sub_add_cancel hpos]

theorem trimRange_blank {b : Bytes} (hb : ∀ c ∈ b, ws.contains c = true) :
    trimRange b = (b.length, b.length) := by
  have hnone := Bytes.findIdx?_blank hb
  have hlast : Bytes.rposition (fun c => !ws.contains c) b = none := by
    rw [Bytes.rposition, Option.map_eq_none_iff]
    exact Bytes.findIdx?_blank fun c hc => hb c (List.mem_reverse.mp hc)
  simp only [trimRange, hnone, hlast, Option.map_none, Option.getD_none]

theorem trimAsciiSpace_core {head core tail : Bytes} (hhead : ∀ c ∈ head, ws.contains c = true)
    (hcore : Bytes.Solid ws.contains core) (htail : ∀ c ∈ tail, ws.contains c = true) :
    trimAsciiSpace (head ++ core ++ tail) = core := by
  have hrange := trimRange_core hhead hcore htail
  change ((head ++ core ++ tail).take (trimRange (head ++ core ++ tail)).2).drop
    (trimRange (head ++ core ++ tail)).1 = core
  rw [hrange, List.take_left, List.drop_left]

theorem trimAsciiSpace_append {b tail : Bytes} (hb : Bytes.Solid ws.contains b)
    (htail : ∀ c ∈ tail, ws.contains c = true) : trimAsciiSpace (b ++ tail) = b := by
  simpa using @trimAsciiSpace_core [] b tail (by simp) hb htail

theorem trimAsciiSpace_of_solid {b : Bytes} (hb : Bytes.Solid ws.contains b) :
    trimAsciiSpace b = b := by
  simpa using @trimAsciiSpace_append b [] hb (by simp)

/-! ### The two trimmers -/

/-- The relay's slice is in range, and it is the longest bare part. -/
theorem trimAsciiSpace_isTrim (b : Bytes) :
    b.slice (trimRange b).1 (trimRange b).2 = some (trimAsciiSpace b) ∧
      Bytes.IsTrim ws.contains b (trimAsciiSpace b) := by
  by_cases hb : ∃ c ∈ b, ws.contains c = false
  · obtain ⟨head, core, tail, rfl, hhead, hcore, htail⟩ := Bytes.exists_core hb
    rw [trimAsciiSpace_core hhead hcore htail, trimRange_core hhead hcore htail]
    refine ⟨?_, Bytes.isTrim_core hhead hcore htail⟩
    rw [Bytes.slice, if_pos (by simp only [List.length_append]; omega), List.take_left,
      List.drop_left]
  · have hblank : ∀ c ∈ b, ws.contains c = true := by simpa using hb
    have hnil : trimAsciiSpace b = [] := by
      change (b.take (trimRange b).2).drop (trimRange b).1 = []
      rw [trimRange_blank hblank]
      simp
    rw [hnil, trimRange_blank hblank]
    refine ⟨?_, Bytes.isTrim_nil hblank⟩
    rw [Bytes.slice, if_pos ⟨le_rfl, le_rfl⟩]
    simp

theorem trimAscii_eq_some_of {b : Bytes} (hb : b = [] ∨ ∃ c ∈ b, ws.contains c = false) :
    Exchange.trimAscii b = some (trimAsciiSpace b) := by
  rcases hb with rfl | hb
  · rfl
  · obtain ⟨head, core, tail, rfl, hhead, hcore, htail⟩ := Bytes.exists_core hb
    have hws : Exchange.ws.contains = ws.contains := funext ws_contains_eq
    rw [trimAsciiSpace_core hhead hcore htail]
    rw [← hws] at hhead hcore htail
    exact Exchange.trimAscii_core hhead hcore htail

/-- On blanks only, the client's slice would end before it starts. -/
theorem trimAscii_blank {b : Bytes} (hne : b ≠ []) (hb : ∀ c ∈ b, ws.contains c = true) :
    Exchange.trimAscii b = none := by
  have hws : ∀ c ∈ b, Exchange.ws.contains c = true := fun c hc => by rw [ws_contains_eq, hb c hc]
  have hstart : b.takeWhile Exchange.ws.contains = b := List.takeWhile_eq_self_iff.mpr hws
  have hstop : b.reverse.takeWhile Exchange.ws.contains = b.reverse :=
    List.takeWhile_eq_self_iff.mpr fun c hc => hws c (List.mem_reverse.mp hc)
  have hpos := List.length_pos_of_ne_nil hne
  unfold Exchange.trimAscii
  rw [hstart, hstop, List.length_reverse, Nat.sub_self]
  rw [if_neg (by omega)]

/-- Past the first trim, the client never slices out of range. -/
theorem classify_isSome {line : Bytes} (hbare : Bytes.Bare ws.contains line) (room : Room) :
    (Exchange.classify room line).isSome = true := by
  unfold Exchange.classify
  cases hregd : Bytes.stripPrefix (ascii "REGD ") line with
  | none =>
      simp only
      split
      · rfl
      · split <;> rfl
  | some rest =>
      have hrest : rest <:+ line := ⟨_, (Bytes.eq_append_of_stripPrefix hregd).symm⟩
      rcases hsplit : Bytes.splitOnce 32 rest with ⟨relayRoom, _ | relayPayload⟩
      · simp [hsplit]
      · have hpayload := trimAscii_eq_some_of
          (hbare.of_suffix ((Bytes.splitOnce_suffix hsplit).trans hrest))
        simp only [hsplit, hpayload, Option.bind_some]
        split
        · rfl
        · unfold Exchange.classifyRegd
          cases hok : Bytes.stripPrefix (ascii "OK ") (trimAsciiSpace relayPayload) with
          | none =>
              simp only
              split <;> rfl
          | some okRest =>
              have hsuffix : okRest <:+ trimAsciiSpace relayPayload :=
                ⟨_, (Bytes.eq_append_of_stripPrefix hok).symm⟩
              have hinner := (trimAsciiSpace_isTrim relayPayload).2.bare
              simp [trimAscii_eq_some_of (hinner.of_suffix hsuffix)]

theorem onDatagram_isSome {b line : Bytes} (hline : Exchange.trimAscii b = some line)
    (hbare : Bytes.Bare ws.contains line) (client : Registrar) (room : Room) :
    (client.onDatagram room b).isSome = true := by
  rw [Exchange.onDatagram_eq, Option.isSome_map, Exchange.readDatagram, hline, Option.bind_some]
  exact classify_isSome hbare room

/-- **The two trimmers.** They return the same slice, the longest part that neither starts nor ends
with a blank, and no datagram can make the client panic there, exactly if the text is empty or has
something else than blanks in it. -/
theorem trimmers_agree_iff (b : Bytes) :
    ((∃ slice, Exchange.trimAscii b = some slice ∧
        b.slice (trimRange b).1 (trimRange b).2 = some slice ∧ trimAsciiSpace b = slice ∧
        Bytes.IsTrim ws.contains b slice) ∧
      ∀ (client : Registrar) (room : Room), (client.onDatagram room b).isSome = true) ↔
      b = [] ∨ ∃ c ∈ b, ws.contains c = false := by
  constructor
  · rintro ⟨⟨slice, hclient, -⟩, -⟩
    by_contra hnot
    rw [not_or] at hnot
    have hblank : ∀ c ∈ b, ws.contains c = true := by simpa using hnot.2
    rw [trimAscii_blank hnot.1 hblank] at hclient
    cases hclient
  · intro hb
    have hclient := trimAscii_eq_some_of hb
    obtain ⟨hslice, htrim⟩ := trimAsciiSpace_isTrim b
    exact ⟨⟨_, hclient, hslice, rfl, htrim⟩, onDatagram_isSome hclient htrim.bare⟩

/-- A datagram of one line feed. -/
theorem trimAscii_newline :
    Exchange.trimAscii (ascii "\n") = none ∧ trimAsciiSpace (ascii "\n") = [] ∧
      Registrar.new.onDatagram (ascii "1234") (ascii "\n") = none := by
  decide

end Qvole.Relay
