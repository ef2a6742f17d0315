import Qvole.Lib.Run
import Qvole.Lib.Window
import Qvole.Relay.Room

/-!
# Rate limits

Both limiters count in windows that the first call behind the last window starts, so no interval as
long as a window sees more than twice the limit. The limiter of registrations keeps two tables by
source. Their keys stay the same, and what the sweep takes out of them had run out anyway.
-/

namespace Qvole.Relay

/-! ### One client -/

section Client

variable {rateWindow : Duration} {maxMsgRate : Nat} {limiter : RateLimiter} {now : Instant}

/-- The limiter of a client that was created at `created`; a call that is let through gives its
time. -/
def limiterMachine (created : Instant) (rateWindow : Duration) (maxMsgRate : Nat) :
    Machine RateLimiter Instant Instant where
  init := .new created
  step limiter now :=
    let answer := limiter.isLimited now rateWindow maxMsgRate
    (answer.1, if answer.2 then [] else [now])
  start now := now
  finish now := now

theorem RateLimiter.isLimited_cases (limiter : RateLimiter) (now : Instant) (rateWindow : Duration)
    (maxMsgRate : Nat) :
    ∃ current : RateLimiter,
      (limiter.windowStart + rateWindow < now ∧ current = ⟨0, now⟩ ∨
        now ≤ limiter.windowStart + rateWindow ∧ current = limiter) ∧
      (maxMsgRate ≤ current.msgCount ∧ limiter.isLimited now rateWindow maxMsgRate = (current, true) ∨
        current.msgCount < maxMsgRate ∧ limiter.isLimited now rateWindow maxMsgRate =
          (⟨current.msgCount + 1, current.windowStart⟩, false)) := by
  unfold isLimited
  by_cases hwindow : now - limiter.windowStart > rateWindow
  · refine ⟨⟨0, now⟩, Or.inl ⟨Nat.add_lt_of_lt_sub' hwindow, rfl⟩, ?_⟩
    simp only [if_pos hwindow]
    by_cases hfull : 0 ≥ maxMsgRate
    · exact Or.inl ⟨hfull, by rw [if_pos hfull]⟩
    · exact Or.inr ⟨Nat.lt_of_not_le hfull, by rw [if_neg hfull]⟩
  · refine ⟨limiter, Or.inr ⟨Nat.sub_le_iff_le_add'.mp (Nat.le_of_not_lt hwindow), rfl⟩, ?_⟩
    simp only [if_neg hwindow]
    by_cases hfull : limiter.msgCount ≥ maxMsgRate
    · exact Or.inl ⟨hfull, by rw [if_pos hfull]⟩
    · exact Or.inr ⟨Nat.lt_of_not_le hfull, by rw [if_neg hfull]⟩

theorem metered_limiter_step (created : Instant) {grants : List Instant}
    (h : Metered rateWindow maxMsgRate grants limiter.windowStart limiter.msgCount)
    (hstart : limiter.windowStart ≤ now) :
    let next := (limiterMachine created rateWindow maxMsgRate).step limiter now
    Metered rateWindow maxMsgRate (grants ++ next.2) next.1.windowStart next.1.msgCount ∧
      next.1.windowStart ≤ now := by
  obtain ⟨current, hcurrent, hanswer⟩ := limiter.isLimited_cases now rateWindow maxMsgRate
  have hmetered : Metered rateWindow maxMsgRate grants current.windowStart current.msgCount ∧
      current.windowStart ≤ now ∧ now ≤ current.windowStart + rateWindow := by
    rcases hcurrent with ⟨hlate, rfl⟩ | ⟨hin, rfl⟩
    · exact ⟨h.restart hlate, Nat.le_refl now, Nat.le_add_right now rateWindow⟩
    · exact ⟨h, hstart, hin⟩
  obtain ⟨hmetered, hstart, hin⟩ := hmetered
  rcases hanswer with ⟨-, hanswer⟩ | ⟨hroom, hanswer⟩
  · simp only [limiterMachine, hanswer, if_true, List.append_nil]
    exact ⟨hmetered, hstart⟩
  · simp only [limiterMachine, hanswer, Bool.false_eq_true, if_false]
    exact ⟨hmetered.grant hroom hstart hin, hstart⟩

theorem limiter_bounded {created : Instant} {history} (hrun :
    (limiterMachine created rateWindow maxMsgRate).Run history limiter now)
    (hcreated : ∀ r ∈ history, created ≤ r.event) (a : Instant) :
    (history.flatMap (·.sent)).countP (fun g => a ≤ g ∧ g ≤ a + rateWindow) ≤ 2 * maxMsgRate := by
  have hinv : Metered rateWindow maxMsgRate (history.flatMap (·.sent)) limiter.windowStart
      limiter.msgCount ∧ ∀ later, created ≤ later → now ≤ later → limiter.windowStart ≤ later := by
    refine hrun.inv (G := fun _ time => created ≤ time) (I := fun history limiter now =>
      Metered rateWindow maxMsgRate (history.flatMap (·.sent)) limiter.windowStart
        limiter.msgCount ∧ ∀ later, created ≤ later → now ≤ later → limiter.windowStart ≤ later)
      ?_ ?_ hcreated
    · exact ⟨Metered.nil _ _ _, fun later hlater _ => hlater⟩
    · intro history limiter now time _ hnow htime hmetered
      obtain ⟨hmetered, hlater⟩ := hmetered
      obtain ⟨hnext, hstart⟩ := metered_limiter_step created hmetered
        (hlater time htime hnow)
      rw [List.flatMap_append, List.flatMap_singleton]
      exact ⟨hnext, fun later _ htime => Nat.le_trans hstart htime⟩
  exact hinv.1.bounded a

end Client

/-! ### One source -/

section Source

variable {rateWindow : Duration} {maxRate : Nat} {shard : RegShard} {src : Bytes} {now : Instant}

theorem RegShard.isLimited_cases (shard : RegShard) (src : Bytes) (now : Instant)
    (rateWindow : Duration) (maxRate : Nat) :
    (shard.times.lookup src = none ∧ maxRegShardEntries ≤ shard.times.size ∧
      shard.isLimited src now rateWindow maxRate = (shard, true)) ∨
    ((shard.times.lookup src = none ∧ shard.times.size < maxRegShardEntries ∨
        ∃ reset, shard.times.lookup src = some reset ∧ reset + rateWindow < now) ∧
      shard.isLimited src now rateWindow maxRate =
        (⟨shard.sent.insert src 1, shard.times.insert src now⟩, false)) ∨
    ∃ reset, shard.times.lookup src = some reset ∧ now ≤ reset + rateWindow ∧
      ((maxRate ≤ (shard.sent.lookup src).getD 0 ∧ shard.isLimited src now rateWindow maxRate =
          ({ shard with sent := shard.sent.insert src ((shard.sent.lookup src).getD 0) }, true)) ∨
        ((shard.sent.lookup src).getD 0 < maxRate ∧ shard.isLimited src now rateWindow maxRate =
          ({ shard with sent := shard.sent.insert src ((shard.sent.lookup src).getD 0 + 1) },
            false))) := by
  unfold isLimited
  cases hlookup : shard.times.lookup src with
  | none =>
      by_cases hfull : shard.times.size ≥ maxRegShardEntries
      · exact Or.inl ⟨rfl, hfull, by simp only [if_pos hfull]⟩
      · refine Or.inr (Or.inl ⟨Or.inl ⟨rfl, Nat.lt_of_not_le hfull⟩, ?_⟩)
        simp only [if_neg hfull]
  | some reset =>
      right
      by_cases hwindow : now - reset > rateWindow
      · refine Or.inl ⟨Or.inr ⟨reset, rfl, Nat.add_lt_of_lt_sub' hwindow⟩, ?_⟩
        simp only [if_pos hwindow]
      · refine Or.inr ⟨reset, rfl, Nat.sub_le_iff_le_add'.mp (Nat.le_of_not_lt hwindow), ?_⟩
        simp only [if_neg hwindow]
        by_cases hfull : (shard.sent.lookup src).getD 0 ≥ maxRate
        · exact Or.inl ⟨hfull, by rw [if_pos hfull]⟩
        · exact Or.inr ⟨Nat.lt_of_not_le hfull, by rw [if_neg hfull]⟩

/-- The tables have the same keys, and not too many. -/
structure RegShard.Paired (shard : RegShard) : Prop where
  keys : ∀ k, k ∈ shard.sent ↔ k ∈ shard.times
  size : shard.times.size ≤ maxRegShardEntries

theorem RegShard.Paired.size_sent (h : shard.Paired) : shard.sent.size = shard.times.size := by
  have hperm : shard.sent.keys.Perm shard.times.keys := by
    apply (List.perm_ext_iff_of_nodup shard.sent.nodupKeys shard.times.nodupKeys).mpr
    exact h.keys
  exact hperm.length_eq

theorem RegShard.Paired.size_sent_le (h : shard.Paired) :
    shard.sent.size ≤ maxRegShardEntries := by
  rw [h.size_sent]
  exact h.size

theorem RegShard.paired_empty : RegShard.empty.Paired :=
  ⟨fun _ => Iff.rfl, Nat.zero_le _⟩

theorem RegShard.Paired.isLimited (h : shard.Paired) (src : Bytes) (now : Instant)
    (rateWindow : Duration) (maxRate : Nat) : (shard.isLimited src now rateWindow maxRate).1.Paired := by
  rcases shard.isLimited_cases src now rateWindow maxRate with
    ⟨-, -, heq⟩ | ⟨hopen, heq⟩ | ⟨reset, hreset, -, ⟨-, heq⟩ | ⟨-, heq⟩⟩
  · rw [heq]
    exact h
  · rw [heq]
    refine ⟨fun k => ?_, ?_⟩
    · simp only [AList.mem_insert, h.keys k]
    · rw [AList.size_insert]
      rcases hopen with ⟨hnone, hroom⟩ | ⟨reset, hsome, -⟩
      · rw [if_neg (AList.lookup_eq_none.mp hnone)]
        exact hroom
      · rw [if_pos (AList.mem_of_lookup hsome)]
        exact h.size
  all_goals
    rw [heq]
    refine ⟨fun k => ?_, h.size⟩
    have hmem := AList.mem_of_lookup hreset
    simp only [AList.mem_insert, h.keys k]
    constructor
    · rintro (rfl | hk)
      · exact hmem
      · exact hk
    · exact Or.inr

/-- What a sweep leaves: of every source both entries or none, and the tables are never emptied. -/
theorem RegShard.lookup_cleanupStale (h : shard.Paired) (now : Instant) (maxAge : Duration)
    (k : Bytes) :
    (∃ t, shard.times.lookup k = some t ∧ t + maxAge < now ∧
        (shard.cleanupStale now maxAge).times.lookup k = none ∧
        (shard.cleanupStale now maxAge).sent.lookup k = none) ∨
      ((∀ t, shard.times.lookup k = some t → now ≤ t + maxAge) ∧
        (shard.cleanupStale now maxAge).times.lookup k = shard.times.lookup k ∧
        (shard.cleanupStale now maxAge).sent.lookup k = shard.sent.lookup k) := by
  have hsent : ((shard.times.retain fun _ t => now - t > maxAge).keys.foldl
      (fun sent src => sent.erase src) shard.sent).size ≤ maxRegShardEntries := by
    rw [AList.size_eq_countKeys]
    refine (AList.countKeys_foldl_erase_le _ _ _).trans ?_
    rw [← AList.size_eq_countKeys]
    exact h.size_sent_le
  have htimes : (shard.times.retain fun _ t => !(now - t > maxAge)).size ≤ maxRegShardEntries :=
    (AList.keys_retain_sublist _ _).length_le.trans h.size
  have hold : k ∈ (shard.times.retain fun _ t => now - t > maxAge).keys ↔
      ∃ t, shard.times.lookup k = some t ∧ now - t > maxAge := by
    rw [← AList.mem_keys, AList.mem_retain]
    simp
  simp only [cleanupStale, if_neg (Nat.not_lt_of_le hsent), if_neg (Nat.not_lt_of_le htimes),
    AList.lookup_foldl_erase, AList.lookup_retain, hold]
  cases hlookup : shard.times.lookup k with
  | none =>
      have hnone : shard.sent.lookup k = none := by
        rw [AList.lookup_eq_none, h.keys, ← AList.lookup_eq_none]
        exact hlookup
      right
      simp [hnone]
  | some t =>
      by_cases hage : now - t > maxAge
      · refine Or.inl ⟨t, rfl, Nat.add_lt_of_lt_sub' hage, ?_, by simp [hage]⟩
        rw [Option.filter_some, decide_eq_true hage]
        rfl
      · refine Or.inr ⟨fun t' ht => ?_, by simp [hage], by simp [hage]⟩
        obtain rfl := Option.some.inj ht
        exact Nat.sub_le_iff_le_add'.mp (Nat.le_of_not_lt hage)

theorem RegShard.Paired.cleanupStale (h : shard.Paired) (now : Instant) (maxAge : Duration) :
    (shard.cleanupStale now maxAge).Paired where
  keys := by
    intro k
    rw [← AList.lookup_isSome, ← AList.lookup_isSome]
    rcases lookup_cleanupStale h now maxAge k with ⟨t, -, -, htimes, hsent⟩ | ⟨-, htimes, hsent⟩
    · rw [htimes, hsent]
    · rw [htimes, hsent, AList.lookup_isSome, AList.lookup_isSome]
      exact h.keys k
  size := by
    simp only [RegShard.cleanupStale]
    split
    · exact Nat.zero_le _
    · rename_i hle
      exact Nat.le_of_not_lt hle

/-- The grants to a source, as its entries count them; without an entry a window may begin at any
time. -/
structure RegShard.Counts (rateWindow : Duration) (maxRate : Nat) (src : Bytes)
    (grants : List Instant) (shard : RegShard) (now : Instant) : Prop where
  present : ∀ start, shard.times.lookup src = some start → start ≤ now ∧
    Metered rateWindow maxRate grants start ((shard.sent.lookup src).getD 0)
  absent : shard.times.lookup src = none → ∀ later, now ≤ later →
    Metered rateWindow maxRate grants later 0

variable {grants : List Instant} {last : Instant}

theorem RegShard.Counts.congr {shard' : RegShard}
    (h : shard.Counts rateWindow maxRate src grants last) (hlast : last ≤ now)
    (htimes : shard'.times.lookup src = shard.times.lookup src)
    (hsent : shard'.sent.lookup src = shard.sent.lookup src) :
    shard'.Counts rateWindow maxRate src grants now where
  present := by
    intro start hstart
    rw [htimes] at hstart
    rw [hsent]
    obtain ⟨hle, hmetered⟩ := h.present start hstart
    exact ⟨hle.trans hlast, hmetered⟩
  absent := by
    intro hnone later hlater
    rw [htimes] at hnone
    exact h.absent hnone later (hlast.trans hlater)

/-- A call for the source itself. -/
theorem RegShard.Counts.isLimited (h : shard.Counts rateWindow maxRate src grants last)
    (hlast : last ≤ now) (hrate : 1 ≤ maxRate) :
    (shard.isLimited src now rateWindow maxRate).1.Counts rateWindow maxRate src
      (grants ++ if (shard.isLimited src now rateWindow maxRate).2 then [] else [now]) now := by
  rcases shard.isLimited_cases src now rateWindow maxRate with
    ⟨-, -, heq⟩ | ⟨hopen, heq⟩ | ⟨reset, hreset, hin, ⟨-, heq⟩ | ⟨hroom, heq⟩⟩
  · rw [heq, if_pos rfl, List.append_nil]
    exact h.congr hlast rfl rfl
  · rw [heq, if_neg Bool.false_ne_true]
    have hfresh : Metered rateWindow maxRate grants now 0 := by
      rcases hopen with ⟨hnone, -⟩ | ⟨reset, hreset, hlate⟩
      · exact h.absent hnone now hlast
      · exact (h.present reset hreset).2.restart hlate
    have hfirst := hfresh.grant hrate (Nat.le_refl now) (Nat.le_add_right now rateWindow)
    refine ⟨fun start hstart => ?_, fun hnone => ?_⟩
    · rw [AList.lookup_insert] at hstart ⊢
      obtain rfl := Option.some.inj hstart
      exact ⟨Nat.le_refl _, hfirst⟩
    · rw [AList.lookup_insert] at hnone
      cases hnone
  · obtain ⟨hle, hmetered⟩ := h.present reset hreset
    rw [heq, if_pos rfl, List.append_nil]
    refine ⟨fun start hstart => ?_, fun hnone => ?_⟩
    · rw [AList.lookup_insert]
      obtain rfl := Option.some.inj (hreset.symm.trans hstart)
      exact ⟨hle.trans hlast, hmetered⟩
    · cases hreset.symm.trans hnone
  · obtain ⟨hle, hmetered⟩ := h.present reset hreset
    rw [heq, if_neg Bool.false_ne_true]
    refine ⟨fun start hstart => ?_, fun hnone => ?_⟩
    · rw [AList.lookup_insert]
      obtain rfl := Option.some.inj (hreset.symm.trans hstart)
      exact ⟨hle.trans hlast, hmetered.grant hroom (hle.trans hlast) hin⟩
    · cases hreset.symm.trans hnone

/-- A call for another source changes nothing of this one's entries. -/
theorem RegShard.lookup_isLimited_of_ne (shard : RegShard) {other : Bytes} (hne : src ≠ other)
    (now : Instant) (rateWindow : Duration) (maxRate : Nat) :
    (shard.isLimited other now rateWindow maxRate).1.times.lookup src = shard.times.lookup src ∧
      (shard.isLimited other now rateWindow maxRate).1.sent.lookup src = shard.sent.lookup src := by
  rcases shard.isLimited_cases other now rateWindow maxRate with
    ⟨-, -, heq⟩ | ⟨-, heq⟩ | ⟨reset, -, -, ⟨-, heq⟩ | ⟨-, heq⟩⟩
  · rw [heq]
    exact ⟨rfl, rfl⟩
  · rw [heq]
    exact ⟨AList.lookup_insert_ne hne, AList.lookup_insert_ne hne⟩
  · rw [heq]
    exact ⟨rfl, AList.lookup_insert_ne hne⟩
  · rw [heq]
    exact ⟨rfl, AList.lookup_insert_ne hne⟩

/-- A sweep at twice the window takes only entries whose windows are over. -/
theorem over_of_stale {t : Instant} (h : t + rateWindow * 2 < now) : t + rateWindow < now := by
  calc t + rateWindow ≤ t + rateWindow * 2 :=
        Nat.add_le_add_left (Nat.le_mul_of_pos_right rateWindow (by decide)) t
    _ < now := h

theorem RegShard.Counts.cleanupStale (h : shard.Counts rateWindow maxRate src grants last)
    (hpaired : shard.Paired) (hlast : last ≤ now) :
    (shard.cleanupStale now (rateWindow * 2)).Counts rateWindow maxRate src grants now := by
  rcases lookup_cleanupStale hpaired now (rateWindow * 2) src with
    ⟨t, ht, hage, htimes, -⟩ | ⟨-, htimes, hsent⟩
  · refine ⟨fun start hstart => ?_, fun _ later hlater => ?_⟩
    · cases htimes.symm.trans hstart
    · apply (h.present t ht).2.restart
      exact Nat.lt_of_lt_of_le (over_of_stale hage) hlater
  · exact h.congr hlast htimes hsent

/-! ### All calls -/

inductive RegCall where
  | isLimited (src : Bytes) (now : Instant)
  | cleanupStale (now : Instant)
  deriving DecidableEq, Repr

def RegCall.time : RegCall → Instant
  | .isLimited _ now => now
  | .cleanupStale now => now

/-- The answer to a call for a source. -/
structure RegAnswer where
  src : Bytes
  now : Instant
  limited : Bool
  deriving DecidableEq, Repr

def regMachine (rateWindow : Duration) (maxRate : Nat) : Machine RegShard RegCall RegAnswer where
  init := .empty
  step shard
    | .isLimited src now =>
        let answer := shard.isLimited src now rateWindow maxRate
        (answer.1, [⟨src, now, answer.2⟩])
    | .cleanupStale now => (shard.cleanupStale now (rateWindow * 2), [])
  start := RegCall.time
  finish := RegCall.time

/-- The times of the calls for a source that were let through. -/
def grantsTo (src : Bytes) (answers : List RegAnswer) : List Instant :=
  (answers.filter fun answer => answer.src = src ∧ answer.limited = false).map (·.now)

theorem grantsTo_append (src : Bytes) (front rest : List RegAnswer) :
    grantsTo src (front ++ rest) = grantsTo src front ++ grantsTo src rest := by
  rw [grantsTo, List.filter_append, List.map_append]
  rfl

theorem grantsTo_singleton (src : Bytes) (answer : RegAnswer) :
    grantsTo src [answer] =
      if answer.src = src then if answer.limited then [] else [answer.now] else [] := by
  by_cases hsrc : answer.src = src <;> by_cases hlimited : answer.limited = true <;>
    simp [grantsTo, hsrc, hlimited]

variable {history : List (Machine.Record RegShard RegCall RegAnswer)}

theorem reg_paired (hrun : (regMachine rateWindow maxRate).Run history shard now) : shard.Paired := by
  refine hrun.stateInv RegShard.paired_empty ?_
  intro shard call hpaired
  cases call with
  | isLimited src now => exact hpaired.isLimited src now rateWindow maxRate
  | cleanupStale now => exact hpaired.cleanupStale now (rateWindow * 2)

theorem reg_counts (hrate : 1 ≤ maxRate)
    (hrun : (regMachine rateWindow maxRate).Run history shard now) (src : Bytes) :
    shard.Counts rateWindow maxRate src (grantsTo src (history.flatMap (·.sent))) now := by
  refine hrun.inv (G := fun _ _ => True) (I := fun history shard now =>
    shard.Counts rateWindow maxRate src (grantsTo src (history.flatMap (·.sent))) now)
    ?_ ?_ fun _ _ => trivial
  · refine ⟨fun start hstart => ?_, fun _ later _ => Metered.nil _ _ later⟩
    cases hstart
  · intro history shard last call hrun hlast _ hcounts
    rw [List.flatMap_append, List.flatMap_singleton, grantsTo_append]
    cases call with
    | isLimited other now =>
        change last ≤ now at hlast
        change (shard.isLimited other now rateWindow maxRate).1.Counts _ _ _
          (_ ++ grantsTo src [⟨other, now, _⟩]) now
        rw [grantsTo_singleton]
        by_cases hsrc : other = src
        · subst hsrc
          rw [if_pos rfl]
          exact hcounts.isLimited hlast hrate
        · obtain ⟨htimes, hsent⟩ :=
            shard.lookup_isLimited_of_ne (Ne.symm hsrc) now rateWindow maxRate
          rw [if_neg hsrc, List.append_nil]
          exact hcounts.congr hlast htimes hsent
    | cleanupStale now =>
        change last ≤ now at hlast
        change (shard.cleanupStale now (rateWindow * 2)).Counts _ _ _ (_ ++ grantsTo src []) now
        rw [show grantsTo src [] = [] from rfl, List.append_nil]
        exact hcounts.cleanupStale (reg_paired hrun) hlast

/-! ### Sweeps in between -/

/-- More sweeps put into a sequence of calls. -/
inductive Swept : List RegCall → List RegCall → Prop
  | nil : Swept [] []
  | keep (call : RegCall) {calls more : List RegCall} :
      Swept calls more → Swept (call :: calls) (call :: more)
  | insert (now : Instant) {calls more : List RegCall} :
      Swept calls more → Swept calls (.cleanupStale now :: more)

/-- The shard with more sweeps lacks only entries whose windows are over. -/
def RegShard.Lags (rateWindow : Duration) (swept shard : RegShard) (now : Instant) : Prop :=
  ∀ k, (swept.times.lookup k = shard.times.lookup k ∧ swept.sent.lookup k = shard.sent.lookup k) ∨
    (swept.times.lookup k = none ∧ ∃ t, shard.times.lookup k = some t ∧ t + rateWindow < now)

/-- The entries of a source after a call, and the answer to it. -/
def regEntry (rateWindow : Duration) (maxRate : Nat) (now : Instant) (time : Option Instant)
    (count : Nat) : Instant × Nat × Bool :=
  match time with
  | none => (now, 1, false)
  | some reset =>
      if now - reset > rateWindow then (now, 1, false)
      else if count ≥ maxRate then (reset, count, true)
      else (reset, count + 1, false)

theorem RegShard.isLimited_entry (hroom : shard.times.size < maxRegShardEntries) (src : Bytes)
    (now : Instant) (rateWindow : Duration) (maxRate : Nat) :
    let next := shard.isLimited src now rateWindow maxRate
    let entry := regEntry rateWindow maxRate now (shard.times.lookup src)
      ((shard.sent.lookup src).getD 0)
    next.2 = entry.2.2 ∧ next.1.times.lookup src = some entry.1 ∧
      next.1.sent.lookup src = some entry.2.1 := by
  unfold RegShard.isLimited regEntry
  cases hlookup : shard.times.lookup src with
  | none =>
      simp [Nat.not_le_of_lt hroom]
  | some reset =>
      by_cases hwindow : now - reset > rateWindow
      · simp only [if_pos hwindow, AList.lookup_insert, and_self]
      · simp only [if_neg hwindow]
        by_cases hfull : (shard.sent.lookup src).getD 0 ≥ maxRate
        · simp only [if_pos hfull, AList.lookup_insert, hlookup, and_self]
        · simp only [if_neg hfull, AList.lookup_insert, hlookup, and_self]

variable {swept : RegShard}

theorem RegShard.Lags.later (h : Lags rateWindow swept shard last) (hlast : last ≤ now) :
    Lags rateWindow swept shard now := by
  intro k
  rcases h k with hsame | ⟨hnone, t, ht, hover⟩
  · exact Or.inl hsame
  · exact Or.inr ⟨hnone, t, ht, Nat.lt_of_lt_of_le hover hlast⟩

theorem RegShard.Lags.size_le (h : Lags rateWindow swept shard now) :
    swept.times.size ≤ shard.times.size := by
  have hsubset : swept.times.keys ⊆ shard.times.keys := by
    intro k hk
    obtain ⟨t, ht⟩ := AList.mem_iff_lookup.mp (AList.mem_keys.mpr hk)
    rcases h k with ⟨htimes, -⟩ | ⟨hnone, -⟩
    · exact AList.mem_keys.mp (AList.mem_of_lookup (htimes.symm.trans ht))
    · cases hnone.symm.trans ht
  exact (List.subperm_of_subset swept.times.nodupKeys hsubset).length_le

/-- The same call gets the same answer of both. -/
theorem RegShard.Lags.isLimited (h : Lags rateWindow swept shard last) (hlast : last ≤ now)
    (hroom : shard.times.size < maxRegShardEntries) (src : Bytes) (maxRate : Nat) :
    (swept.isLimited src now rateWindow maxRate).2 = (shard.isLimited src now rateWindow maxRate).2 ∧
      Lags rateWindow (swept.isLimited src now rateWindow maxRate).1
        (shard.isLimited src now rateWindow maxRate).1 now := by
  obtain ⟨hanswer, htimes, hsent⟩ :=
    isLimited_entry (Nat.lt_of_le_of_lt h.size_le hroom) src now rateWindow maxRate
  obtain ⟨hanswer', htimes', hsent'⟩ := isLimited_entry hroom src now rateWindow maxRate
  have hentry : regEntry rateWindow maxRate now (swept.times.lookup src)
      ((swept.sent.lookup src).getD 0) =
      regEntry rateWindow maxRate now (shard.times.lookup src)
        ((shard.sent.lookup src).getD 0) := by
    rcases h src with ⟨hsame, hcount⟩ | ⟨hnone, t, ht, hover⟩
    · rw [hsame, hcount]
    · have hwindow : now - t > rateWindow :=
        Nat.lt_sub_of_add_lt ((Nat.add_comm _ _).trans_lt (Nat.lt_of_lt_of_le hover hlast))
      simp only [hnone, ht, regEntry, if_pos hwindow]
  rw [hentry] at hanswer htimes hsent
  refine ⟨hanswer.trans hanswer'.symm, fun k => ?_⟩
  by_cases hk : k = src
  · rw [hk]
    exact Or.inl ⟨htimes.trans htimes'.symm, hsent.trans hsent'.symm⟩
  · obtain ⟨hleft, hleft'⟩ := swept.lookup_isLimited_of_ne hk now rateWindow maxRate
    obtain ⟨hright, hright'⟩ := shard.lookup_isLimited_of_ne hk now rateWindow maxRate
    rw [hleft, hleft', hright, hright']
    exact h.later hlast k

theorem RegShard.Lags.sweep (h : Lags rateWindow swept shard last) (hlast : last ≤ now)
    (hswept : swept.Paired) :
    Lags rateWindow (swept.cleanupStale now (rateWindow * 2)) shard now := by
  intro k
  rcases lookup_cleanupStale hswept now (rateWindow * 2) k with
    ⟨t, ht, hage, htimes, -⟩ | ⟨-, htimes, hsent⟩
  · refine Or.inr ⟨htimes, t, ?_, over_of_stale hage⟩
    rcases h k with ⟨hsame, -⟩ | ⟨hnone, -⟩
    · exact hsame.symm.trans ht
    · cases hnone.symm.trans ht
  · rw [htimes, hsent]
    exact h.later hlast k

theorem RegShard.Lags.sweep_both (h : Lags rateWindow swept shard last) (hlast : last ≤ now)
    (hswept : swept.Paired) (hshard : shard.Paired) :
    Lags rateWindow (swept.cleanupStale now (rateWindow * 2))
      (shard.cleanupStale now (rateWindow * 2)) now := by
  intro k
  rcases lookup_cleanupStale hshard now (rateWindow * 2) k with
    ⟨t, ht, hage, htimes', hsent'⟩ | ⟨-, htimes', hsent'⟩
  · -- an entry that goes from the other goes from this one, or had gone before
    have hgone : (swept.cleanupStale now (rateWindow * 2)).times.lookup k = none := by
      rcases lookup_cleanupStale hswept now (rateWindow * 2) k with
        ⟨t', -, -, htimes, -⟩ | ⟨hkept, htimes, -⟩
      · exact htimes
      · rw [htimes]
        rcases h k with ⟨hsame, -⟩ | ⟨hnone, -⟩
        · exact absurd hage (Nat.not_lt_of_le (hkept t (hsame.trans ht)))
        · exact hnone
    have hgone' : (swept.cleanupStale now (rateWindow * 2)).sent.lookup k = none := by
      rw [AList.lookup_eq_none, (hswept.cleanupStale now (rateWindow * 2)).keys,
        ← AList.lookup_eq_none]
      exact hgone
    exact Or.inl ⟨hgone.trans htimes'.symm, hgone'.trans hsent'.symm⟩
  · rw [htimes', hsent']
    exact h.sweep hlast hswept k

variable {calls more : List RegCall}

theorem answers_swept (hmore : Swept calls more) (h : RegShard.Lags rateWindow swept shard last)
    (hswept : swept.Paired) (hshard : shard.Paired)
    (hordered : (regMachine rateWindow maxRate).Ordered last more)
    (hroom : ∀ front, front <+: calls →
      ((regMachine rateWindow maxRate).exec shard front).times.size < maxRegShardEntries) :
    ((regMachine rateWindow maxRate).trace swept more).flatMap (·.sent) =
      ((regMachine rateWindow maxRate).trace shard calls).flatMap (·.sent) := by
  induction hmore generalizing swept shard last with
  | nil => rfl
  | keep call _ ih =>
      obtain ⟨hlast, hordered⟩ := hordered
      have hrest : ∀ front, front <+: _ → ((regMachine rateWindow maxRate).exec
          ((regMachine rateWindow maxRate).step shard call).1 front).times.size <
            maxRegShardEntries := fun front hfront =>
        hroom (call :: front) (List.cons_prefix_cons.mpr ⟨rfl, hfront⟩)
      rw [Machine.trace, Machine.trace, List.flatMap_cons, List.flatMap_cons]
      cases call with
      | isLimited src now =>
          change last ≤ now at hlast
          obtain ⟨hanswer, hlags⟩ := h.isLimited hlast (hroom [] (List.nil_prefix)) src maxRate
          have hsame := ih hlags (hswept.isLimited src now rateWindow maxRate)
            (hshard.isLimited src now rateWindow maxRate) hordered hrest
          simp only [Machine.record, regMachine, hanswer] at hsame ⊢
          rw [hsame]
      | cleanupStale now =>
          change last ≤ now at hlast
          have hsame := ih (h.sweep_both hlast hswept hshard)
            (hswept.cleanupStale now (rateWindow * 2)) (hshard.cleanupStale now (rateWindow * 2))
            hordered hrest
          exact hsame
  | insert now _ ih =>
      obtain ⟨hlast, hordered⟩ := hordered
      change last ≤ now at hlast
      rw [Machine.trace, List.flatMap_cons]
      exact ih (h.sweep hlast hswept) (hswept.cleanupStale now (rateWindow * 2)) hshard hordered
        hroom

theorem RegShard.Counts.bounded (h : shard.Counts rateWindow maxRate src grants now) (a : Instant) :
    grants.countP (fun g => a ≤ g ∧ g ≤ a + rateWindow) ≤ 2 * maxRate := by
  cases hlookup : shard.times.lookup src with
  | none => exact (h.absent hlookup now (Nat.le_refl now)).bounded a
  | some start => exact (h.present start hlookup).2.bounded a

/-- The answers to calls from the start on. -/
def regAnswers (rateWindow : Duration) (maxRate : Nat) (calls : List RegCall) : List RegAnswer :=
  ((regMachine rateWindow maxRate).trace .empty calls).flatMap (·.sent)

/-- **Rate limits are bounded and sweeps do not show.** In a closed interval as long as the window at
most twice the limit is let through, for each client and for each source, whatever the other calls
are; the two tables keep the same keys, within their bound; and sweeps put between the calls change no
answer, unless the tables would fill up without them. -/
theorem rate_limits_bounded (rateWindow : Duration) {maxRate : Nat} (hrate : 1 ≤ maxRate) :
    (∀ created history limiter now,
      (limiterMachine created rateWindow maxRate).Run history limiter now →
      (∀ r ∈ history, created ≤ r.event) → ∀ a,
      (history.flatMap (·.sent)).countP (fun g => a ≤ g ∧ g ≤ a + rateWindow) ≤ 2 * maxRate) ∧
    (∀ history shard now, (regMachine rateWindow maxRate).Run history shard now →
      (∀ src a, (grantsTo src (history.flatMap (·.sent))).countP
        (fun g => a ≤ g ∧ g ≤ a + rateWindow) ≤ 2 * maxRate) ∧
      (∀ k, k ∈ shard.sent ↔ k ∈ shard.times) ∧ shard.sent.size ≤ maxRegShardEntries ∧
      shard.times.size ≤ maxRegShardEntries) ∧
    ∀ calls more, Swept calls more → (regMachine rateWindow maxRate).Ordered 0 more →
      (∀ front, front <+: calls →
        ((regMachine rateWindow maxRate).exec .empty front).times.size < maxRegShardEntries) →
      regAnswers rateWindow maxRate more = regAnswers rateWindow maxRate calls := by
  refine ⟨fun created history limiter now hrun hcreated a => ?_, fun history shard now hrun => ?_,
    fun calls more hmore hordered hroom => ?_⟩
  · exact limiter_bounded hrun hcreated a
  · have hpaired := reg_paired hrun
    exact ⟨fun src a => (reg_counts hrate hrun src).bounded a, hpaired.keys, hpaired.size_sent_le,
      hpaired.size⟩
  · have hsame : RegShard.Lags rateWindow .empty .empty 0 := fun _ => Or.inl ⟨rfl, rfl⟩
    exact answers_swept hmore hsame RegShard.paired_empty RegShard.paired_empty hordered hroom

def crossingCalls : List RegCall :=
  [.isLimited [97] 0, .isLimited [97] 10, .isLimited [97] 11, .isLimited [97] 11,
    .isLimited [97] 12, .isLimited [97] 40]

def crossingSwept : List RegCall :=
  [.isLimited [97] 0, .isLimited [97] 10, .isLimited [97] 11, .isLimited [97] 11,
    .isLimited [97] 12, .cleanupStale 32, .isLimited [97] 40]

/-- Two windows of ten met by one interval: three calls are let through in it. The sweep takes the
entry of the second. -/
theorem rate_limits_bounded_crossing :
    (grantsTo [97] (regAnswers 10 2 crossingCalls)) = [0, 10, 11, 11, 40] ∧
      (grantsTo [97] (regAnswers 10 2 crossingCalls)).countP (fun g => 10 ≤ g ∧ g ≤ 20) ≤ 4 ∧
      regAnswers 10 2 crossingSwept = regAnswers 10 2 crossingCalls := by
  obtain ⟨-, hbounded, hswept⟩ := rate_limits_bounded 10 (show 1 ≤ 2 by decide)
  have hordered : (regMachine 10 2).Ordered 0 crossingCalls := by decide
  have hordered' : (regMachine 10 2).Ordered 0 crossingSwept := by decide
  refine ⟨by decide, (hbounded _ _ _ ((regMachine 10 2).run_exec hordered)).1 [97] 10, ?_⟩
  refine hswept crossingCalls crossingSwept ?_ hordered' fun front hfront => ?_
  · apply Swept.keep
    apply Swept.keep
    apply Swept.keep
    apply Swept.keep
    apply Swept.keep
    apply Swept.insert
    apply Swept.keep
    exact Swept.nil
  · have hall : ∀ front ∈ crossingCalls.inits,
        ((regMachine 10 2).exec .empty front).times.size < maxRegShardEntries := by decide
    exact hall front ((List.mem_inits _ _).mpr hfront)

end Source

end Qvole.Relay
