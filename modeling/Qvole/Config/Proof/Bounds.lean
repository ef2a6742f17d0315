import Qvole.Config.Env

/-!
# Lower bounds through narrowing

A setting is checked against its least value as a number of 64 bits and then cut down to 32. So the
value in use keeps the bound exactly when the number fits, or when the bits that are left happen to be
those of the largest number or of the default.
-/

namespace Qvole

/-- The number that a variable stands for, if it is one from `low` on. -/
def accepted (low : Nat) (v : Option Bytes) : Option Int :=
  (v.bind parseI64).filter fun n => low ≤ n

/-- The value in use is not below its least one, and of a number that is too large it is the largest
one or the default. -/
structure KeepsBound (low default : Nat) (v : Option Bytes) (used : Nat) : Prop where
  bound : low ≤ used
  large : ∀ n, accepted low v = some n → 4294967296 ≤ n → used = 4294967295 ∨ used = default

/-- The number fits, or what is left of it is such a value. -/
def Fits (low default : Nat) (v : Option Bytes) : Prop :=
  ∀ n, accepted low v = some n →
    n < 4294967296 ∨ n % 4294967296 = 4294967295 ∨ n % 4294967296 = default

section Narrowing

variable {low default : Nat} {v : Option Bytes} {n : Int}

/-- The number of the variable without its high bits, or the default. -/
def narrowed (low default : Nat) (v : Option Bytes) : Nat :=
  ((accepted low v).map asU32).getD default

theorem asU32_cast (n : Int) : (asU32 n : Int) = n % 4294967296 := by
  unfold asU32
  omega

theorem low_le_of_accepted (h : accepted low v = some n) : (low : Int) ≤ n := by
  obtain ⟨-, hlow⟩ := Option.filter_eq_some_iff.mp h
  simpa using hlow

theorem keepsBound_narrowed_iff (hlow : low ≤ default) (hdefault : default < 4294967296) :
    KeepsBound low default v (narrowed low default v) ↔ Fits low default v := by
  constructor
  · intro h n hn
    have hused : narrowed low default v = asU32 n := by rw [narrowed, hn]; rfl
    have hcast := asU32_cast n
    by_cases hlarge : n < 4294967296
    · exact Or.inl hlarge
    · rcases h.large n hn (by omega) with hmax | hdef
      · refine Or.inr (Or.inl ?_)
        rw [hused] at hmax
        omega
      · refine Or.inr (Or.inr ?_)
        rw [hused] at hdef
        omega
  · intro h
    constructor
    · cases hn : accepted low v with
      | none =>
          rw [narrowed, hn]
          exact hlow
      | some n =>
          have hused : narrowed low default v = asU32 n := by rw [narrowed, hn]; rfl
          have hcast := asU32_cast n
          have hle := low_le_of_accepted hn
          rw [hused]
          rcases h n hn with hfits | hmax | hdef
          · have hsmall : n % 4294967296 = n := Int.emod_eq_of_lt (by omega) hfits
            omega
          · omega
          · omega
    · intro n hn hlarge
      have hused : narrowed low default v = asU32 n := by rw [narrowed, hn]; rfl
      have hcast := asU32_cast n
      rw [hused]
      rcases h n hn with hfits | hmax | hdef
      · omega
      · exact Or.inl (by omega)
      · exact Or.inr (by omega)

theorem kdfIterations_eq (env : Env) :
    kdfIterations env =
      narrowed minKdfIterations defaultKdfIterations (env "QVOLE_KDF_ITERATIONS") := by
  unfold kdfIterations narrowed accepted
  cases env "QVOLE_KDF_ITERATIONS" with
  | none => rfl
  | some s =>
      simp only [Option.bind_some]
      cases parseI64 s with
      | none => rfl
      | some n =>
          by_cases hn : n ≥ minKdfIterations
          · simp [Option.filter_some, hn]
          · simp [Option.filter_some, hn]

theorem envIntFrom_eq (default : Nat) :
    envIntFrom v default = (accepted 1 v).getD default := by
  unfold envIntFrom accepted
  cases v with
  | none => rfl
  | some s =>
      simp only [Option.bind_some]
      by_cases hs : s = []
      · rw [if_pos hs, hs]
        rfl
      · rw [if_neg hs]
        cases parseI64 s with
        | none => rfl
        | some n =>
            by_cases hn : n > 0
            · have hone : ((1 : Nat) : Int) ≤ n := by omega
              simp only [if_pos hn, Option.filter_some, decide_eq_true hone, if_true, Option.getD_some]
            · have hone : ¬ ((1 : Nat) : Int) ≤ n := by omega
              simp only [if_neg hn, Option.filter_some, decide_eq_false hone, Bool.false_eq_true,
                if_false, Option.getD_none]

theorem asU32_envIntFrom (hdefault : default < 4294967296) :
    asU32 (envIntFrom v default) = narrowed 1 default v := by
  rw [envIntFrom_eq, narrowed]
  cases accepted 1 v with
  | none =>
      have hcast := asU32_cast default
      have hsmall : (default : Int) % 4294967296 = default := by omega
      simp only [Option.getD_none, Option.map_none]
      omega
  | some n => rfl

/-- The relay keeps the number with 64 bits in between. -/
theorem asUsize_mod (n : Int) : asUsize n % 2 ^ 32 = asU32 n := by
  have hcast := asU32_cast n
  unfold asUsize
  omega

theorem msgRate_fromEnv (env : Env) :
    Relay.msgRate (.fromEnv env) = narrowed 1 10 (env "QVOLE_RELAY_MSG_RATE") := by
  rw [Relay.msgRate, Relay.Config.fromEnv, asUsize_mod]
  exact asU32_envIntFrom (by decide)

theorem regRate_fromEnv (env : Env) :
    Relay.regRate (.fromEnv env) = narrowed 1 10 (env "QVOLE_RELAY_REG_RATE") := by
  rw [Relay.regRate, Relay.Config.fromEnv, asUsize_mod]
  exact asU32_envIntFrom (by decide)

/-- The variable as far as it is read: not at all if a number is set. -/
def PeerConfig.streamsVariable (cfg : PeerConfig) (env : Env) : Option Bytes :=
  if cfg.maxStreams.getD 0 = 0 then env "QVOLE_MAX_STREAMS" else none

theorem keepsBound_maxStreams_iff (cfg : PeerConfig) (env : Env) :
    KeepsBound 1 defaultMaxIncomingStreams (cfg.streamsVariable env) (maxStreams cfg env) ↔
      Fits 1 defaultMaxIncomingStreams (cfg.streamsVariable env) := by
  have hread : maxStreams ⟨none⟩ env =
      narrowed 1 defaultMaxIncomingStreams (env "QVOLE_MAX_STREAMS") :=
    asU32_envIntFrom (by decide)
  obtain ⟨configured⟩ := cfg
  cases configured with
  | none =>
      change KeepsBound 1 _ (env "QVOLE_MAX_STREAMS") (maxStreams ⟨none⟩ env) ↔ Fits 1 _ _
      rw [hread]
      exact keepsBound_narrowed_iff (by decide) (by decide)
  | some c =>
      by_cases hzero : c = 0
      · subst hzero
        change KeepsBound 1 _ (env "QVOLE_MAX_STREAMS") (maxStreams ⟨none⟩ env) ↔ Fits 1 _ _
        rw [hread]
        exact keepsBound_narrowed_iff (by decide) (by decide)
      · have hpos : 0 < c.toNat := Nat.pos_of_ne_zero fun h => hzero (UInt32.toNat_inj.mp h)
        have hused : maxStreams ⟨some c⟩ env = c.toNat := if_pos hpos
        have hvariable : PeerConfig.streamsVariable ⟨some c⟩ env = none := if_neg hzero
        rw [hused, hvariable]
        have hnone : ∀ n, accepted 1 none ≠ some n := fun n h => by cases h
        exact ⟨fun _ n hn => absurd hn (hnone n), fun _ => ⟨hpos, fun n hn => absurd hn (hnone n)⟩⟩

/-- **Settings keep their bounds** exactly when the numbers fit or their low bits are harmless. -/
theorem env_bounds_iff (env : Env) (cfg : PeerConfig) :
    (KeepsBound minKdfIterations defaultKdfIterations (env "QVOLE_KDF_ITERATIONS")
        (kdfIterations env) ↔
      Fits minKdfIterations defaultKdfIterations (env "QVOLE_KDF_ITERATIONS")) ∧
    (KeepsBound 1 Relay.Config.defaults.maxMsgRate (env "QVOLE_RELAY_MSG_RATE")
        (Relay.msgRate (.fromEnv env)) ↔
      Fits 1 Relay.Config.defaults.maxMsgRate (env "QVOLE_RELAY_MSG_RATE")) ∧
    (KeepsBound 1 Relay.Config.defaults.maxRegRate (env "QVOLE_RELAY_REG_RATE")
        (Relay.regRate (.fromEnv env)) ↔
      Fits 1 Relay.Config.defaults.maxRegRate (env "QVOLE_RELAY_REG_RATE")) ∧
    (KeepsBound 1 defaultMaxIncomingStreams (cfg.streamsVariable env) (maxStreams cfg env) ↔
      Fits 1 defaultMaxIncomingStreams (cfg.streamsVariable env)) := by
  refine ⟨?_, ?_, ?_, keepsBound_maxStreams_iff cfg env⟩
  · rw [kdfIterations_eq]
    exact keepsBound_narrowed_iff (by decide) (by decide)
  · rw [msgRate_fromEnv]
    exact keepsBound_narrowed_iff (by decide) (by decide)
  · rw [regRate_fromEnv]
    exact keepsBound_narrowed_iff (by decide) (by decide)

/-- `2^32` for every variable. -/
def wrappingEnv : Env := fun _ => some (ascii "4294967296")

/-- All settings become zero, where the check let through a number far above the least one. -/
theorem wrapped_to_zero :
    kdfIterations wrappingEnv = 0 ∧ Relay.msgRate (.fromEnv wrappingEnv) = 0 ∧
      Relay.regRate (.fromEnv wrappingEnv) = 0 ∧ maxStreams ⟨none⟩ wrappingEnv = 0 ∧
      ¬ KeepsBound minKdfIterations defaultKdfIterations (wrappingEnv "QVOLE_KDF_ITERATIONS")
        (kdfIterations wrappingEnv) := by
  have hzero : kdfIterations wrappingEnv = 0 := by decide
  refine ⟨hzero, by decide, by decide, by decide, fun h => ?_⟩
  have hbound := h.bound
  rw [hzero] at hbound
  exact absurd hbound (by decide)

end Narrowing

end Qvole
