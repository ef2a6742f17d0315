import Qvole.Tunnel.Proof.HostPort

/-!
# Specs, joined and split

A spec is cut at its colons, the brackets of its hosts are taken off, and each host is joined with its
port again. Both splitters undo the joining.
-/

namespace Qvole.Tunnel

open Bytes (isUtf8)

variable {host port h₁ h₂ p₁ p₂ part rest : Bytes}

/-- A host as it may stand in a spec. -/
structure IsHost (host : Bytes) : Prop where
  utf8 : isUtf8 host = true
  notOpen : 91 ∉ host
  notClose : 93 ∉ host

structure IsPort (port : Bytes) : Prop where
  utf8 : isUtf8 port = true
  bare : Bare port

/-- A host with a colon is written in brackets. -/
def specHost (host : Bytes) : Bytes := if 58 ∈ host then 91 :: (host ++ [93]) else host

/-! ### Cutting a spec -/

theorem splitSpecFrom_colon (part rest : Bytes) :
    splitSpecFrom part 0 (58 :: rest) = (splitSpecFrom [] 0 rest).map (part :: ·) := by
  rw [splitSpecFrom]
  simp

theorem splitSpecFrom_open (part rest : Bytes) (depth : Nat) :
    splitSpecFrom part depth (91 :: rest) = splitSpecFrom (part ++ [91]) (depth + 1) rest := by
  rw [splitSpecFrom, if_pos rfl]

theorem splitSpecFrom_close (part rest : Bytes) (depth : Nat) :
    splitSpecFrom part (depth + 1) (93 :: rest) = splitSpecFrom (part ++ [93]) depth rest := by
  rw [splitSpecFrom, if_neg (by decide), if_pos rfl, if_neg (Nat.succ_ne_zero depth),
    Nat.add_sub_cancel]

/-- Outside of brackets, up to the next colon. -/
theorem splitSpecFrom_bare {b : Bytes} (hb : Bare b) :
    splitSpecFrom part 0 (b ++ rest) = splitSpecFrom (part ++ b) 0 rest := by
  induction b generalizing part with
  | nil => simp
  | cons c b ih =>
      obtain ⟨hcolon, hopen, hclose⟩ := hb
      rw [List.mem_cons, not_or] at hcolon hopen hclose
      rw [List.cons_append, splitSpecFrom, if_neg (Ne.symm hopen.1), if_neg (Ne.symm hclose.1),
        if_neg fun h => hcolon.1 h.1.symm, ih ⟨hcolon.2, hopen.2, hclose.2⟩, List.append_assoc]
      rfl

/-- Inside of brackets, up to the next of them. -/
theorem splitSpecFrom_inside {b : Bytes} (hopen : 91 ∉ b) (hclose : 93 ∉ b) (depth : Nat) :
    splitSpecFrom part (depth + 1) (b ++ rest) = splitSpecFrom (part ++ b) (depth + 1) rest := by
  induction b generalizing part with
  | nil => simp
  | cons c b ih =>
      rw [List.mem_cons, not_or] at hopen hclose
      rw [List.cons_append, splitSpecFrom, if_neg (Ne.symm hopen.1), if_neg (Ne.symm hclose.1),
        if_neg fun h => Nat.succ_ne_zero depth h.2, ih hopen.2 hclose.2, List.append_assoc]
      rfl

theorem splitSpecFrom_specHost (hhost : IsHost host) :
    splitSpecFrom [] 0 (specHost host ++ rest) = splitSpecFrom (specHost host) 0 rest := by
  unfold specHost
  split
  · rw [List.cons_append, splitSpecFrom_open, List.nil_append, List.append_assoc,
      splitSpecFrom_inside hhost.notOpen hhost.notClose 0]
    exact splitSpecFrom_close _ rest 0
  · rename_i hcolon
    exact splitSpecFrom_bare ⟨hcolon, hhost.notOpen, hhost.notClose⟩

theorem splitSpecFrom_last (hport : Bare port) : splitSpecFrom [] 0 port = some [port] := by
  have hcut : splitSpecFrom [] 0 (port ++ []) = splitSpecFrom ([] ++ port) 0 [] :=
    splitSpecFrom_bare hport
  rw [List.append_nil] at hcut
  rw [hcut]
  simp [splitSpecFrom]

theorem splitTunnelRequest_three (hp₁ : Bare p₁) (hh₂ : IsHost h₂) (hp₂ : Bare p₂) :
    splitTunnelRequest (p₁ ++ 58 :: (specHost h₂ ++ 58 :: p₂)) = some [p₁, specHost h₂, p₂] := by
  rw [splitTunnelRequest, splitSpecFrom_bare hp₁, splitSpecFrom_colon, splitSpecFrom_specHost hh₂,
    splitSpecFrom_colon, splitSpecFrom_last hp₂]
  rfl

theorem splitTunnelRequest_four (hh₁ : IsHost h₁) (hp₁ : Bare p₁) (hh₂ : IsHost h₂)
    (hp₂ : Bare p₂) :
    splitTunnelRequest (specHost h₁ ++ 58 :: (p₁ ++ 58 :: (specHost h₂ ++ 58 :: p₂))) =
      some [specHost h₁, p₁, specHost h₂, p₂] := by
  have hthree := splitTunnelRequest_three hp₁ hh₂ hp₂
  rw [splitTunnelRequest] at hthree
  rw [splitTunnelRequest, splitSpecFrom_specHost hh₁, splitSpecFrom_colon, hthree]
  rfl

/-! ### What the parts are made of -/

/-- The parts, with colons between them, are the spec again. -/
theorem splitSpecFrom_join {depth : Nat} {b : Bytes} {parts : List Bytes}
    (h : splitSpecFrom part depth b = some parts) :
    parts ≠ [] ∧ [58].intercalate parts = part ++ b := by
  induction b generalizing part depth parts with
  | nil =>
      rw [splitSpecFrom] at h
      split at h
      · cases h
      · obtain rfl := Option.some.inj h
        simp
  | cons c b ih =>
      have hmore : ∀ {depth parts}, splitSpecFrom (part ++ [c]) depth b = some parts →
          parts ≠ [] ∧ [58].intercalate parts = part ++ c :: b := by
        intro depth parts h
        obtain ⟨hne, hjoin⟩ := ih h
        exact ⟨hne, by rw [hjoin, List.append_assoc, List.singleton_append]⟩
      rw [splitSpecFrom] at h
      split at h
      · exact hmore h
      · split at h
        · split at h
          · cases h
          · exact hmore h
        · split at h
          · rename_i hcolon
            obtain ⟨tail, htail, rfl⟩ := Option.map_eq_some_iff.mp h
            obtain ⟨hne, hjoin⟩ := ih htail
            refine ⟨List.cons_ne_nil _ _, ?_⟩
            obtain ⟨next, more, rfl⟩ := List.exists_cons_of_ne_nil hne
            rw [List.intercalate_cons_cons, hjoin, hcolon.1]
            simp
          · exact hmore h

/-- A part keeps a colon only behind a bracket. -/
theorem splitSpecFrom_open_of_colon {depth : Nat} {b : Bytes} {parts : List Bytes}
    (h : splitSpecFrom part depth b = some parts) (hpart : 58 ∈ part ∨ depth ≠ 0 → 91 ∈ part) :
    ∀ p ∈ parts, 58 ∈ p → 91 ∈ p := by
  induction b generalizing part depth parts with
  | nil =>
      rw [splitSpecFrom] at h
      split at h
      · cases h
      · obtain rfl := Option.some.inj h
        intro p hp hcolon
        obtain rfl := List.mem_singleton.mp hp
        exact hpart (Or.inl hcolon)
  | cons c b ih =>
      rw [splitSpecFrom] at h
      split at h
      · rename_i hopen
        exact ih h fun _ => by simp [hopen]
      · split at h
        · rename_i hclose
          split at h
          · cases h
          · rename_i hdepth
            exact ih h fun _ => List.mem_append_left _ (hpart (Or.inr hdepth))
        · split at h
          · rename_i hboundary
            obtain ⟨tail, htail, rfl⟩ := Option.map_eq_some_iff.mp h
            intro p hp hcolon
            rcases List.mem_cons.mp hp with rfl | hp
            · exact hpart (Or.inl hcolon)
            · refine ih htail (fun hempty => ?_) p hp hcolon
              simp [hboundary.2] at hempty
          · rename_i hboundary
            refine ih h fun hmore => List.mem_append_left _ (hpart ?_)
            by_cases hdepth : depth = 0
            · refine Or.inl ?_
              have hc : c ≠ 58 := fun heq => hboundary ⟨heq, hdepth⟩
              simpa [hdepth, Ne.symm hc] using hmore
            · exact Or.inr hdepth

theorem mem_intercalate {parts : List Bytes} {c : UInt8} (h : c ∈ [58].intercalate parts) :
    c = 58 ∨ ∃ p ∈ parts, c ∈ p := by
  induction parts with
  | nil => simp at h
  | cons p parts ih =>
      cases parts with
      | nil =>
          rw [List.intercalate_singleton] at h
          exact Or.inr ⟨p, List.mem_cons_self, h⟩
      | cons q parts =>
          rw [List.intercalate_cons_cons, List.append_assoc, List.mem_append, List.mem_append,
            List.mem_singleton] at h
          rcases h with hp | rfl | hrest
          · exact Or.inr ⟨p, List.mem_cons_self, hp⟩
          · exact Or.inl rfl
          · rcases ih hrest with rfl | ⟨p', hp', hc⟩
            · exact Or.inl rfl
            · exact Or.inr ⟨p', List.mem_cons_of_mem _ hp', hc⟩

theorem mem_intercalate_of_mem {parts : List Bytes} {p : Bytes} (hp : p ∈ parts) {c : UInt8}
    (hc : c ∈ p) : c ∈ [58].intercalate parts := by
  induction parts with
  | nil => cases hp
  | cons q parts ih =>
      cases parts with
      | nil =>
          rw [List.mem_singleton.mp hp] at hc
          rwa [List.intercalate_singleton]
      | cons q' parts =>
          rw [List.intercalate_cons_cons, List.append_assoc, List.mem_append, List.mem_append]
          rcases List.mem_cons.mp hp with rfl | hp
          · exact Or.inl hc
          · exact Or.inr (Or.inr (ih hp))

theorem mem_stripBrackets {c : UInt8} (h : c ∈ part) :
    c ∈ stripBrackets part ∨ c = 91 ∨ c = 93 := by
  unfold stripBrackets
  split
  · rename_i hbrackets
    obtain ⟨hlen, hhead, hlast⟩ := hbrackets
    obtain ⟨tail, rfl⟩ := List.head?_eq_some_iff.mp hhead
    rw [List.getLast?_cons] at hlast
    rcases List.eq_nil_or_concat tail with rfl | ⟨inner, last, rfl⟩
    · simp at hlen
    · obtain rfl : last = 93 := by simpa using hlast
      simp only [List.concat_eq_append, List.mem_cons, List.mem_append, List.not_mem_nil,
        or_false] at h
      have hinner : ((91 :: inner.concat 93).take ((91 :: inner.concat 93).length - 1)).drop 1 =
          inner := by simp
      rw [hinner]
      rcases h with rfl | hc | rfl
      · exact Or.inr (Or.inl rfl)
      · exact Or.inl hc
      · exact Or.inr (Or.inr rfl)
  · exact Or.inl h

theorem mem_of_mem_stripBrackets {c : UInt8} (h : c ∈ stripBrackets part) : c ∈ part := by
  unfold stripBrackets at h
  split at h
  · exact List.mem_of_mem_take (List.mem_of_mem_drop h)
  · exact h

theorem mem_joinHostPort {c : UInt8} :
    c ∈ joinHostPort host port ↔
      c ∈ host ∨ c = 58 ∨ c ∈ port ∨ 58 ∈ host ∧ (c = 91 ∨ c = 93) := by
  unfold joinHostPort
  split
  · rename_i hcolon
    have hcolon : 58 ∈ host := by simpa using hcolon
    simp [ascii, Char.byte, hcolon]
    tauto
  · rename_i hcolon
    have hcolon : 58 ∉ host := by simpa using hcolon
    simp [ascii, Char.byte, hcolon]

/-! ### Hosts and ports -/

theorem stripBrackets_specHost (hhost : IsHost host) : stripBrackets (specHost host) = host := by
  unfold specHost stripBrackets
  split
  · have hlast : (91 :: (host ++ [93])).getLast? = some 93 := by
      rw [← List.cons_append]
      exact List.getLast?_concat
    simp [hlast]
  · rw [if_neg]
    rintro ⟨-, hhead, -⟩
    exact hhost.notOpen (List.mem_of_mem_head? hhead)

theorem isHostPort_join (hhost : IsHost host) (hport : Bare port) :
    IsHostPort (joinHostPort host port) host port := by
  unfold joinHostPort
  split
  · refine Or.inr ⟨?_, hhost.notOpen, hhost.notClose, hport⟩
    simp [ascii, Char.byte]
  · rename_i hcolon
    exact Or.inl ⟨by simp [ascii, Char.byte], ⟨by simpa using hcolon, hhost.notOpen,
      hhost.notClose⟩, hport⟩

theorem isUtf8_join (hhost : IsHost host) (hport : IsPort port) :
    isUtf8 (joinHostPort host port) = true := by
  have hcolon : isUtf8 (58 :: port) = true :=
    (Bytes.isUtf8_append_ascii (a := []) (by decide)).mpr ⟨rfl, hport.utf8⟩
  rcases isHostPort_join hhost hport.bare with ⟨hjoin, -⟩ | ⟨hjoin, -⟩
  · rw [hjoin]
    exact (Bytes.isUtf8_append hhost.utf8).mpr hcolon
  · rw [hjoin]
    refine (Bytes.isUtf8_append_ascii (a := []) (by decide)).mpr ⟨rfl, ?_⟩
    exact (Bytes.isUtf8_append_ascii (by decide)).mpr ⟨hhost.utf8, hcolon⟩

/-- Both copies split the address in this way. -/
def SplitsInto (addr host port : Bytes) : Prop :=
  splitHostPortSliced addr = .ok (host, port) ∧ splitHostPort addr = some (host, port) ∧
    Resolver.splitHostPort addr = .ok (host, port)

theorem splitsInto_join (hhost : IsHost host) (hport : IsPort port) :
    SplitsInto (joinHostPort host port) host port := by
  have hutf8 := isUtf8_join hhost hport
  have hsplit : splitHostPort (joinHostPort host port) = some (host, port) :=
    splitHostPort_eq_some_iff.mpr (isHostPort_join hhost hport.bare)
  exact ⟨(follows_splitHostPortSliced hutf8).eq_ok_iff.mpr hsplit, hsplit,
    (follows_resolver hutf8).eq_ok_iff.mpr hsplit⟩

theorem isHost_default : IsHost defaultHost := ⟨by decide, by decide, by decide⟩

/-- The host to listen on. -/
def listenHost (host : Bytes) : Bytes := if host = [] then defaultHost else host

theorem isHost_listenHost (hhost : IsHost host) : IsHost (listenHost host) := by
  unfold listenHost
  split
  · exact isHost_default
  · exact hhost

/-- **Spec, join and split are inverse**, for all hosts and ports that a spec can be made of. -/
theorem spec_join_split (hh₁ : IsHost h₁) (hp₁ : IsPort p₁) (hh₂ : IsHost h₂) (hp₂ : IsPort p₂)
    (typ : TunnelType) :
    parseTunnelRequest (specHost h₁ ++ 58 :: (p₁ ++ 58 :: (specHost h₂ ++ 58 :: p₂))) typ =
        .ok { typ
              listenAddr := joinHostPort (listenHost h₁) p₁
              targetAddr := joinHostPort h₂ p₂ } ∧
      parseTunnelRequest (p₁ ++ 58 :: (specHost h₂ ++ 58 :: p₂)) typ =
        .ok { typ
              listenAddr := joinHostPort defaultHost p₁
              targetAddr := joinHostPort h₂ p₂ } ∧
      SplitsInto (joinHostPort (listenHost h₁) p₁) (listenHost h₁) p₁ ∧
      SplitsInto (joinHostPort defaultHost p₁) defaultHost p₁ ∧
      SplitsInto (joinHostPort h₂ p₂) h₂ p₂ := by
  refine ⟨?_, ?_, splitsInto_join (isHost_listenHost hh₁) hp₁, splitsInto_join isHost_default hp₁,
    splitsInto_join hh₂ hp₂⟩
  · rw [parseTunnelRequest, splitTunnelRequest_four hh₁ hp₁.bare hh₂ hp₂.bare]
    simp only [Option.getD_some, stripBrackets_specHost hh₁, stripBrackets_specHost hh₂]
    rfl
  · rw [parseTunnelRequest, splitTunnelRequest_three hp₁.bare hh₂ hp₂.bare]
    simp only [Option.getD_some, stripBrackets_specHost hh₂]

/-- Without a host to listen on, and with colons in the other. -/
theorem spec_join_split_loopback :
    parseTunnelRequest (ascii ":8080:[::1]:80") .L =
        .ok ⟨.L, ascii "127.0.0.1:8080", ascii "[::1]:80"⟩ ∧
      SplitsInto (ascii "[::1]:80") (ascii "::1") (ascii "80") := by
  have hempty : IsHost [] := ⟨rfl, by simp, by simp⟩
  have hloopback : IsHost (ascii "::1") := ⟨by decide, by decide, by decide⟩
  have hlisten : IsPort (ascii "8080") := ⟨by decide, by decide, by decide, by decide⟩
  have htarget : IsPort (ascii "80") := ⟨by decide, by decide, by decide, by decide⟩
  obtain ⟨hparsed, -, -, -, hsplit⟩ := spec_join_split hempty hlisten hloopback htarget .L
  exact ⟨hparsed, hsplit⟩

end Qvole.Tunnel
