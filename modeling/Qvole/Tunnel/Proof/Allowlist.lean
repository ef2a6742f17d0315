import Qvole.Tunnel.Proof.HostPort

/-!
# What the allowlist permits

The rules built from a DNS answer permit exactly the addresses that the entries name under that
answer. After startup a request is matched against the rules of the startup answer, except when
there are none: then the rules are built again from whatever the DNS answers at that time. The textual
comparison of hosts needs no more of Unicode than what becomes ASCII in lower case.
-/

namespace Qvole.Tunnel

variable {dns : Dns} {entry host port : Bytes} {forward : List Bytes} {ip : IpAddr}

/-- Some entry is for the port, and either for any host or for a host with this address. -/
def Permits (dns : Dns) (forward : List Bytes) (ip : IpAddr) (port : Bytes) : Prop :=
  ∃ entry ∈ forward, ∃ host, splitHostPort entry = some (host, port) ∧
    (host = [] ∨ ip ∈ resolveAllIps dns host)

/-- A name that does not resolve is no literal, so another answer may resolve it. -/
theorem resolveAllIps_of_unresolved (hhost : host ≠ []) (h : resolveAllIps dns host = [])
    (later : Dns) : resolveAllIps later host = later host := by
  unfold resolveAllIps at h ⊢
  cases hliteral : parseIpGo host with
  | some ip =>
      rw [hliteral] at h
      cases h
  | none => simp [hhost]

theorem entryRules_of_splitHostPort (h : splitHostPort entry = some (host, port)) (dns : Dns) :
    entryRules dns entry =
      if host = [] then [{ port, ip := none }]
      else (resolveAllIps dns host).map fun ip => { port, ip := some ip } := by
  simp only [entryRules, h]

theorem matchForwardIps_buildForwardRules :
    matchForwardIps (buildForwardRules dns forward) ip port = true ↔
      Permits dns forward ip port := by
  simp only [matchForwardIps, List.any_eq_true, buildForwardRules, List.mem_flatMap,
    Bool.and_eq_true, Bool.or_eq_true, decide_eq_true_eq]
  constructor
  · rintro ⟨rule, ⟨entry, hentry, hrule⟩, hport, hip⟩
    cases hsplit : splitHostPort entry with
    | none => simp [entryRules, hsplit] at hrule
    | some parts =>
        obtain ⟨host, port'⟩ := parts
        rw [entryRules_of_splitHostPort hsplit] at hrule
        by_cases hhost : host = []
        · rw [if_pos hhost, List.mem_singleton] at hrule
          subst hrule
          exact ⟨entry, hentry, host, hport ▸ hsplit, Or.inl hhost⟩
        · rw [if_neg hhost, List.mem_map] at hrule
          obtain ⟨ip', hip', rfl⟩ := hrule
          obtain rfl : ip' = ip := by simpa using hip
          exact ⟨entry, hentry, host, hport ▸ hsplit, Or.inr hip'⟩
  · rintro ⟨entry, hentry, host, hsplit, hpermits⟩
    by_cases hhost : host = []
    · refine ⟨{ port, ip := none }, ⟨entry, hentry, ?_⟩, rfl, Or.inl rfl⟩
      rw [entryRules_of_splitHostPort hsplit, if_pos hhost]
      exact List.mem_singleton_self _
    · have hip : ip ∈ resolveAllIps dns host := hpermits.resolve_left hhost
      refine ⟨{ port, ip := some ip }, ⟨entry, hentry, ?_⟩, rfl, Or.inr rfl⟩
      rw [entryRules_of_splitHostPort hsplit, if_neg hhost]
      exact List.mem_map_of_mem hip

/-- Some entry gives a rule: it is for any host, or its host resolves. -/
def Resolves (dns : Dns) (forward : List Bytes) : Prop :=
  ∃ entry ∈ forward, ∃ host port, splitHostPort entry = some (host, port) ∧
    (host = [] ∨ resolveAllIps dns host ≠ [])

theorem buildForwardRules_ne_nil : buildForwardRules dns forward ≠ [] ↔ Resolves dns forward := by
  simp only [buildForwardRules, ne_eq, List.flatMap_eq_nil_iff, not_forall, exists_prop, Resolves]
  constructor
  · rintro ⟨entry, hentry, hrules⟩
    cases hsplit : splitHostPort entry with
    | none => simp [entryRules, hsplit] at hrules
    | some parts =>
        obtain ⟨host, port⟩ := parts
        refine ⟨entry, hentry, host, port, hsplit, ?_⟩
        by_cases hhost : host = []
        · exact Or.inl hhost
        · rw [entryRules_of_splitHostPort hsplit, if_neg hhost, List.map_eq_nil_iff] at hrules
          exact Or.inr hrules
  · rintro ⟨entry, hentry, host, port, hsplit, hresolves⟩
    refine ⟨entry, hentry, ?_⟩
    rw [entryRules_of_splitHostPort hsplit]
    by_cases hhost : host = []
    · simp [hhost]
    · rw [if_neg hhost, List.map_eq_nil_iff]
      exact hresolves.resolve_left hhost

namespace TunnelAllow

variable {allow : TunnelAllow}

theorem forwardIps_eq_ok (hall : allow.all = false) {target : Bytes} {ips : List IpAddr}
    (h : allow.forwardIps dns target = (ips, port, true)) :
    ∀ ip ∈ ips, matchForwardIps (allow.currentRules dns) ip port = true := by
  unfold forwardIps at h
  cases hsplit : splitHostPort target with
  | none => simp [hsplit] at h
  | some parts =>
      obtain ⟨host, port'⟩ := parts
      simp only [hsplit, hall, Bool.false_eq_true, if_false] at h
      split at h
      · cases h
      · split at h
        · cases h
        · cases h
          intro ip hip
          exact (List.mem_filter.mp hip).2

theorem currentRules_of_resolves {startup : Dns} (h : Resolves startup allow.forward) (later : Dns) :
    (allow.resolve startup).currentRules later = buildForwardRules startup allow.forward := by
  simp [currentRules, resolve, buildForwardRules_ne_nil.mpr h]

theorem currentRules_of_not_resolves {startup : Dns} (h : ¬ Resolves startup allow.forward)
    (later : Dns) :
    (allow.resolve startup).currentRules later = buildForwardRules later allow.forward := by
  have hnone : buildForwardRules startup allow.forward = [] := by
    by_contra hne
    exact h (buildForwardRules_ne_nil.mp hne)
  by_cases hforward : allow.forward = []
  · simp [currentRules, resolve, hforward, buildForwardRules]
  · simp [currentRules, resolve, hnone, hforward]

theorem forwardIps_of_match (hall : allow.all = false) {target : Bytes}
    (hsplit : splitHostPort target = some (host, port)) (hone : resolveAllIps dns host = [ip])
    (hmatch : matchForwardIps (allow.currentRules dns) ip port = true) :
    allow.forwardIps dns target = ([ip], port, true) := by
  simp [forwardIps, hsplit, hone, hall, hmatch]

/-- **Soundness of the allowlist after startup.** Every address returned under any later DNS answer
is permitted under the startup answer exactly if some entry gave a rule at startup, or there is no
entry with a port at all. -/
theorem forwardIps_sound_iff (allow : TunnelAllow) (hall : allow.all = false) (startup : Dns) :
    (∀ (later : Dns) (target : Bytes) (ips : List IpAddr) (port : Bytes),
      (allow.resolve startup).forwardIps later target = (ips, port, true) →
        ∀ ip ∈ ips, Permits startup allow.forward ip port) ↔
      Resolves startup allow.forward ∨ ∀ entry ∈ allow.forward, splitHostPort entry = none := by
  have hall' : (allow.resolve startup).all = false := hall
  constructor
  · intro hsound
    by_contra hnot
    rw [not_or] at hnot
    obtain ⟨hunresolved, hmalformed⟩ := hnot
    obtain ⟨entry, hentry, hsplit⟩ : ∃ entry ∈ allow.forward, splitHostPort entry ≠ none := by
      simpa using hmalformed
    obtain ⟨⟨host, port⟩, hsplit⟩ := Option.ne_none_iff_exists'.mp hsplit
    have hdead : ∀ entry ∈ allow.forward, ∀ host port, splitHostPort entry = some (host, port) →
        host ≠ [] ∧ resolveAllIps startup host = [] := by
      intro entry hentry host port hsplit
      by_contra hlive
      refine hunresolved ⟨entry, hentry, host, port, hsplit, ?_⟩
      by_cases hhost : host = []
      · exact Or.inl hhost
      · exact Or.inr fun hnone => hlive ⟨hhost, hnone⟩
    obtain ⟨hhost, hnone⟩ := hdead entry hentry host port hsplit
    -- a later answer that resolves every name to one address
    have hlater := resolveAllIps_of_unresolved hhost hnone fun _ => [IpAddr.v4 ⟨10, 0, 0, 1⟩]
    have hmatch : matchForwardIps ((allow.resolve startup).currentRules
        fun _ => [IpAddr.v4 ⟨10, 0, 0, 1⟩]) (.v4 ⟨10, 0, 0, 1⟩) port = true := by
      rw [currentRules_of_not_resolves hunresolved, matchForwardIps_buildForwardRules]
      exact ⟨entry, hentry, host, hsplit, Or.inr (by rw [hlater]; exact List.mem_singleton_self _)⟩
    obtain ⟨entry', hentry', host', hsplit', hpermits⟩ := hsound _ entry _ port
      (forwardIps_of_match hall' hsplit hlater hmatch) _ (List.mem_singleton_self _)
    obtain ⟨hhost', hnone'⟩ := hdead entry' hentry' host' port hsplit'
    rcases hpermits with hempty | hmem
    · exact hhost' hempty
    · rw [hnone'] at hmem
      cases hmem
  · rintro (hresolves | hmalformed) later target ips port hips ip hip
    · have hmatch := forwardIps_eq_ok hall' hips ip hip
      rwa [currentRules_of_resolves hresolves, matchForwardIps_buildForwardRules] at hmatch
    · have hnone : ¬ Resolves startup allow.forward := by
        rintro ⟨entry, hentry, host, port, hsplit, -⟩
        rw [hmalformed entry hentry] at hsplit
        cases hsplit
      have hmatch := forwardIps_eq_ok hall' hips ip hip
      rw [currentRules_of_not_resolves hnone, matchForwardIps_buildForwardRules] at hmatch
      obtain ⟨entry, hentry, host, hsplit, -⟩ := hmatch
      rw [hmalformed entry hentry] at hsplit
      cases hsplit

/-- Entries for a name and for an address; the name does not resolve at startup. -/
theorem forwardIps_sound_iff_literal :
    Resolves (fun _ => []) [ascii "db:5432", ascii "10.0.0.9:22"] ∧
      ∀ (later : Dns) (target : Bytes) (ips : List IpAddr) (port : Bytes),
        (({ all := false, listen := [], forward := [ascii "db:5432", ascii "10.0.0.9:22"],
            forwardRules := [] } : TunnelAllow).resolve fun _ => []).forwardIps later target =
          (ips, port, true) →
          ∀ ip ∈ ips, Permits (fun _ => []) [ascii "db:5432", ascii "10.0.0.9:22"] ip port := by
  have hresolves : Resolves (fun _ => []) [ascii "db:5432", ascii "10.0.0.9:22"] :=
    ⟨ascii "10.0.0.9:22", by simp, ascii "10.0.0.9", ascii "22", by decide +kernel,
      Or.inr (by decide +kernel)⟩
  exact ⟨hresolves, (forwardIps_sound_iff _ rfl fun _ => []).mpr (Or.inl hresolves)⟩

/-- The only entry is for a name that does not resolve at startup and does later. -/
theorem forwardIps_unsound_after_failed_startup :
    (({ all := false, listen := [], forward := [ascii "db:5432"], forwardRules := [] } :
        TunnelAllow).resolve fun _ => []).forwardIps (fun _ => [.v4 ⟨10, 0, 0, 5⟩])
          (ascii "db:5432") = ([.v4 ⟨10, 0, 0, 5⟩], ascii "5432", true) ∧
      ¬ Permits (fun _ => []) [ascii "db:5432"] (.v4 ⟨10, 0, 0, 5⟩) (ascii "5432") := by
  refine ⟨by decide +kernel, ?_⟩
  rintro ⟨entry, hentry, host, hsplit, hpermits⟩
  obtain rfl := List.mem_singleton.mp hentry
  have hdb : splitHostPort (ascii "db:5432") = some (ascii "db", ascii "5432") := by decide +kernel
  rw [hdb] at hsplit
  obtain rfl : ascii "db" = host := congrArg Prod.fst (Option.some.inj hsplit)
  have hdead : ascii "db" ≠ [] ∧ resolveAllIps (fun _ => []) (ascii "db") = [] := by decide +kernel
  rcases hpermits with hempty | hmem
  · exact hdead.1 hempty
  · rw [hdead.2] at hmem
    cases hmem

end TunnelAllow

/-! ### Lower case -/

/-- A text has the lower case `toLowercase` gives, or neither of the two is ASCII. This is all that is
asked of `str::to_lowercase`. -/
def Lowercases (lower : Bytes → Bytes) : Prop :=
  ∀ b, (∀ c ∈ lower b, c ≤ 127) ∨ (∀ c ∈ toLowercase b, c ≤ 127) → lower b = toLowercase b

theorem ascii_toLowercase {b : Bytes} (hb : ∀ c ∈ b, c ≤ 127) : ∀ c ∈ toLowercase b, c ≤ 127 := by
  induction b using toLowercase.induct with
  | case1 => simp [toLowercase]
  | case2 rest ih => exact absurd (hb 0xe2 List.mem_cons_self) (by decide)
  | case3 b rest hnot ih =>
      obtain ⟨hfirst, hrest⟩ := List.forall_mem_cons.mp hb
      rw [toLowercase.eq_3 b rest hnot]
      refine List.forall_mem_cons.mpr ⟨?_, ih hrest⟩
      split
      · rename_i hupper
        have hle : b.toNat ≤ 90 := hupper.2
        have hsum : (b + 32).toNat = b.toNat + 32 := by
          rw [UInt8.toNat_add]
          exact Nat.mod_eq_of_lt (by simp; omega)
        exact UInt8.le_iff_toNat_le.mpr (by rw [hsum]; simp; omega)
      · exact hfirst

/-- Whether two texts are the same in lower case, when one is ASCII. -/
theorem Lowercases.eq_iff {lower : Bytes → Bytes} (h : Lowercases lower) (a : Bytes) {b : Bytes}
    (hb : ∀ c ∈ b, c ≤ 127) : lower a = lower b ↔ toLowercase a = toLowercase b := by
  have hascii := ascii_toLowercase hb
  rw [h b (Or.inr hascii)]
  constructor
  · intro heq
    rw [← heq]
    exact (h a (Or.inl (heq ▸ hascii))).symm
  · intro heq
    rw [← heq]
    exact h a (Or.inr (heq ▸ hascii))

theorem mem_of_splitHostPort {s : Bytes} (h : splitHostPort s = some (host, port)) {c : UInt8}
    (hc : c ∈ host) : c ∈ s := by
  rcases isHostPort_of_splitHostPort h with ⟨rfl, -⟩ | ⟨rfl, -⟩
  · exact List.mem_append_left _ hc
  · exact List.mem_cons_of_mem _ (List.mem_append_left _ hc)

theorem allowMatchBy_eq {lower : Bytes → Bytes} (h : Lowercases lower) (entries : List Bytes)
    {addr : Bytes} (haddr : ∀ c ∈ addr, c ≤ 127) :
    allowMatchBy lower entries addr = allowMatch entries addr := by
  unfold allowMatch allowMatchBy
  cases hsplit : splitHostPort addr with
  | none => rfl
  | some parts =>
      have hhost : ∀ c ∈ parts.1, c ≤ 127 := fun c hc => haddr c (mem_of_splitHostPort hsplit hc)
      simp only [h.eq_iff _ hhost]

end Qvole.Tunnel
