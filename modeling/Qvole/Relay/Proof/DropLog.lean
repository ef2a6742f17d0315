import Qvole.Lib.Run
import Qvole.Lib.Window
import Qvole.Relay.Proof.LatestCookie

/-!
# The drop log

A flood of bad packets must not become a flood of log lines. The limiter lets one IP through once an
interval and everybody together a fixed number of times in a window of a second, and it keeps a time
for a bounded number of IPs. The sweep forgets an IP only when its interval is long over, so no line
of an IP comes too early behind the one before it. On the other side a line is held back only for a
reason that stands in the log itself, or because the table is full.
-/

namespace Qvole.Relay

/-- A line of the log: the IP it is about and the time it was written. -/
structure Line where
  ip : Bytes
  time : Instant
  deriving DecidableEq, Repr

/-! ### One call -/

theorem lt_of_window_over {start now window : Nat} (hpos : 0 < window)
    (hover : window ≤ now - start) : start + (window - 1) < now := by
  omega

theorem le_of_in_window {start now window : Nat} (hin : now < start + window) :
    start ≤ now → now ≤ start + (window - 1) := by
  omega

section Limiter

variable {limiter : DropLogLimiter} {lines : List Line} {ip : Bytes} {now : Instant}
  {interval maxAge : Duration}

/-- The limiter with the window that `now` falls in. -/
def DropLogLimiter.current (limiter : DropLogLimiter) (now : Instant) : DropLogLimiter :=
  if now - limiter.windowStart ≥ fromMillis 1000 then
    { limiter with windowStart := now, windowCount := 0 }
  else limiter

/-- The limiter behind a line. -/
def DropLogLimiter.wrote (limiter : DropLogLimiter) (ip : Bytes) (now : Instant) :
    DropLogLimiter :=
  { limiter with last := limiter.last.insert ip now, windowCount := limiter.windowCount + 1 }

/-- Why a line is held back: the window has its lines, the IP has its line, or there is no place for
one more IP. -/
def DropLogLimiter.Blocks (limiter : DropLogLimiter) (ip : Bytes) (now : Instant)
    (interval : Duration) : Prop :=
  limiter.maxPerSec ≤ limiter.windowCount ∨
    (∃ last, limiter.last.lookup ip = some last ∧ now - last < interval) ∨
    (ip ∉ limiter.last ∧ limiter.maxEntries ≤ limiter.last.size)

theorem DropLogLimiter.allow_cases (limiter : DropLogLimiter) (ip : Bytes) (now : Instant)
    (interval : Duration) :
    (limiter.current now).Blocks ip now interval ∧
      limiter.allow ip now interval = (limiter.current now, false) ∨
    ¬ (limiter.current now).Blocks ip now interval ∧
      limiter.allow ip now interval = ((limiter.current now).wrote ip now, true) := by
  have hallow : limiter.allow ip now interval =
      if (limiter.current now).windowCount ≥ (limiter.current now).maxPerSec then
        (limiter.current now, false)
      else if ((limiter.current now).last.lookup ip).any fun last => now - last < interval then
        (limiter.current now, false)
      else if ip ∉ (limiter.current now).last ∧
          (limiter.current now).last.size ≥ (limiter.current now).maxEntries then
        (limiter.current now, false)
      else ((limiter.current now).wrote ip now, true) := rfl
  generalize limiter.current now = current at hallow ⊢
  rw [hallow]
  by_cases hcount : current.windowCount ≥ current.maxPerSec
  · exact Or.inl ⟨Or.inl hcount, if_pos hcount⟩
  rw [if_neg hcount]
  by_cases hlast : (current.last.lookup ip).any fun last => now - last < interval
  · rw [if_pos hlast]
    refine Or.inl ⟨Or.inr (Or.inl ?_), rfl⟩
    simpa [Option.any_eq_true] using hlast
  rw [if_neg hlast]
  by_cases hfull : ip ∉ current.last ∧ current.last.size ≥ current.maxEntries
  · exact Or.inl ⟨Or.inr (Or.inr hfull), if_pos hfull⟩
  refine Or.inr ⟨?_, if_neg hfull⟩
  rintro (hblocked | hblocked | hblocked)
  · exact hcount hblocked
  · exact hlast (by simpa [Option.any_eq_true] using hblocked)
  · exact hfull hblocked

theorem DropLogLimiter.current_last (limiter : DropLogLimiter) (now : Instant) :
    (limiter.current now).last = limiter.last := by
  unfold DropLogLimiter.current
  split <;> rfl

theorem DropLogLimiter.current_limits (limiter : DropLogLimiter) (now : Instant) :
    (limiter.current now).maxEntries = limiter.maxEntries ∧
      (limiter.current now).maxPerSec = limiter.maxPerSec := by
  unfold DropLogLimiter.current
  split <;> exact ⟨rfl, rfl⟩

theorem DropLogLimiter.allow_limits (limiter : DropLogLimiter) (ip : Bytes) (now : Instant)
    (interval : Duration) :
    (limiter.allow ip now interval).1.maxEntries = limiter.maxEntries ∧
      (limiter.allow ip now interval).1.maxPerSec = limiter.maxPerSec := by
  rcases limiter.allow_cases ip now interval with ⟨-, hanswer⟩ | ⟨-, hanswer⟩
  · rw [hanswer]
    exact limiter.current_limits now
  · rw [hanswer]
    exact limiter.current_limits now

/-! ### The limiter and its log -/

/-- What the lines written by `now` say of the limiter. -/
structure Logs (interval : Duration) (limiter : DropLogLimiter) (lines : List Line)
    (now : Instant) : Prop where
  size : limiter.last.size ≤ limiter.maxEntries
  started : limiter.windowStart ≤ now
  metered : Metered (fromMillis 1000 - 1) limiter.maxPerSec (lines.map (·.time))
    limiter.windowStart limiter.windowCount
  counted : limiter.windowCount ≤ lines.countP fun line => limiter.windowStart ≤ line.time
  past : ∀ line ∈ lines, line.time ≤ now
  kept : ∀ ip last, limiter.last.lookup ip = some last → ⟨ip, last⟩ ∈ lines
  /-- The table knows of a line until the interval is over. -/
  known : ∀ line ∈ lines, line.time + interval ≤ now ∨
    ∃ last, limiter.last.lookup line.ip = some last ∧ line.time ≤ last
  apart : lines.Pairwise fun line later => line.ip = later.ip → line.time + interval ≤ later.time

namespace Logs

theorem nil (created : Instant) (interval : Duration) :
    Logs interval (.new created) [] created where
  size := Nat.zero_le _
  started := Nat.le_refl created
  metered := Metered.nil _ _ _
  counted := Nat.zero_le _
  past := by simp
  kept := by
    intro ip last hlast
    cases hlast
  known := by simp
  apart := List.Pairwise.nil

variable {later : Instant}

theorem mono (h : Logs interval limiter lines now) (hlater : now ≤ later) :
    Logs interval limiter lines later where
  size := h.size
  started := h.started.trans hlater
  metered := h.metered
  counted := h.counted
  past line hline := (h.past line hline).trans hlater
  kept := h.kept
  known line hline := (h.known line hline).imp_left hlater.trans'
  apart := h.apart

/-- The window that `now` falls in has begun less than a second ago. -/
theorem current (h : Logs interval limiter lines now) :
    Logs interval (limiter.current now) lines now ∧
      now < (limiter.current now).windowStart + fromMillis 1000 := by
  have hsecond : 0 < fromMillis 1000 := by decide
  unfold DropLogLimiter.current
  split
  · rename_i hover
    exact ⟨⟨h.size, Nat.le_refl now, h.metered.restart (lt_of_window_over hsecond hover),
      Nat.zero_le _, h.past, h.kept, h.known, h.apart⟩, Nat.lt_add_of_pos_right hsecond⟩
  · rename_i hin
    exact ⟨h, (Nat.sub_lt_iff_lt_add' h.started).mp (Nat.lt_of_not_le hin)⟩

/-- Where nothing holds an IP back, its lines so far are an interval old. -/
theorem waited (h : Logs interval limiter lines now) (hfree : ¬ limiter.Blocks ip now interval)
    {line : Line} (hline : line ∈ lines) (hip : line.ip = ip) : line.time + interval ≤ now := by
  rcases h.known line hline with hover | ⟨last, hlookup, hle⟩
  · exact hover
  · rw [hip] at hlookup
    have hpast : last ≤ now := h.past _ (h.kept ip last hlookup)
    have hwaited : interval ≤ now - last :=
      Nat.le_of_not_lt fun hearly => hfree (Or.inr (Or.inl ⟨last, hlookup, hearly⟩))
    calc line.time + interval ≤ last + interval := Nat.add_le_add_right hle interval
      _ ≤ now := (Nat.le_sub_iff_add_le' hpast).mp hwaited

theorem wrote (h : Logs interval limiter lines now) (hfree : ¬ limiter.Blocks ip now interval)
    (hin : now < limiter.windowStart + fromMillis 1000) :
    Logs interval (limiter.wrote ip now) (lines ++ [⟨ip, now⟩]) now where
  size := by
    change (limiter.last.insert ip now).size ≤ limiter.maxEntries
    rw [AList.size_insert]
    split_ifs with hmem
    · exact h.size
    · exact Nat.lt_of_not_le fun hfull => hfree (Or.inr (Or.inr ⟨hmem, hfull⟩))
  started := h.started
  metered := by
    have hcount : limiter.windowCount < limiter.maxPerSec :=
      Nat.lt_of_not_le fun hcount => hfree (Or.inl hcount)
    rw [List.map_append]
    exact h.metered.grant hcount h.started (le_of_in_window hin h.started)
  counted := by
    have hnew : decide ((limiter.wrote ip now).windowStart ≤ (⟨ip, now⟩ : Line).time) = true :=
      decide_eq_true h.started
    rw [List.countP_append, List.countP_singleton, if_pos hnew]
    exact Nat.succ_le_succ h.counted
  past := by
    intro line hline
    rcases List.mem_append.mp hline with hold | hnew
    · exact h.past line hold
    · rw [List.mem_singleton.mp hnew]
  kept := by
    intro ip' last hlookup
    change (limiter.last.insert ip now).lookup ip' = some last at hlookup
    rw [AList.lookup_insert_ite] at hlookup
    split at hlookup
    · rename_i hip
      cases hlookup
      simp [hip]
    · exact List.mem_append_left _ (h.kept ip' last hlookup)
  known := by
    intro line hline
    change _ ∨ ∃ last, (limiter.last.insert ip now).lookup line.ip = some last ∧ line.time ≤ last
    rw [AList.lookup_insert_ite]
    rcases List.mem_append.mp hline with hold | hnew
    · split
      · exact Or.inr ⟨now, rfl, h.past line hold⟩
      · exact h.known line hold
    · rw [List.mem_singleton.mp hnew, if_pos rfl]
      exact Or.inr ⟨now, rfl, Nat.le_refl now⟩
  apart := by
    rw [List.pairwise_append]
    refine ⟨h.apart, List.pairwise_singleton _ _, ?_⟩
    intro line hline later hlater hip
    rw [List.mem_singleton.mp hlater] at hip ⊢
    exact h.waited hfree hline hip

/-- One call, with the line it lets through. -/
theorem allow (h : Logs interval limiter lines now) (ip : Bytes) :
    Logs interval (limiter.allow ip now interval).1
      (lines ++ if (limiter.allow ip now interval).2 then [⟨ip, now⟩] else []) now := by
  obtain ⟨hcurrent, hin⟩ := h.current
  rcases limiter.allow_cases ip now interval with ⟨-, hanswer⟩ | ⟨hfree, hanswer⟩
  · rw [hanswer, if_neg Bool.false_ne_true, List.append_nil]
    exact hcurrent
  · rw [hanswer, if_pos rfl]
    exact hcurrent.wrote hfree hin

/-- The sweep only takes out IPs whose interval is over. -/
theorem cleanupStale (h : Logs interval limiter lines now) (hage : interval ≤ maxAge) :
    Logs interval (limiter.cleanupStale now maxAge) lines now where
  size := by
    have := AList.size_retain_add (fun _ last => decide (now - last ≤ maxAge)) limiter.last
    have hsize := h.size
    change (limiter.last.retain fun _ last => decide (now - last ≤ maxAge)).size ≤
      limiter.maxEntries
    omega
  started := h.started
  metered := h.metered
  counted := h.counted
  past := h.past
  kept := by
    intro ip last hlookup
    rw [DropLogLimiter.cleanupStale, AList.lookup_retain, Option.filter_eq_some_iff] at hlookup
    exact h.kept ip last hlookup.1
  known := by
    intro line hline
    rcases h.known line hline with hover | ⟨last, hlookup, hle⟩
    · exact Or.inl hover
    · by_cases hfresh : now - last ≤ maxAge
      · refine Or.inr ⟨last, ?_, hle⟩
        rw [DropLogLimiter.cleanupStale, AList.lookup_retain, hlookup, Option.filter_some]
        simp [hfresh]
      · have hold : maxAge ≤ now - last := Nat.le_of_not_le hfresh
        left
        calc line.time + interval ≤ last + maxAge := Nat.add_le_add hle hage
          _ ≤ now := (Nat.le_sub_iff_add_le' (h.past _ (h.kept _ last hlookup))).mp hold
  apart := h.apart

/-- The reasons in the log for a line that was held back. -/
theorem reason (h : Logs interval limiter lines now)
    (hheld : (limiter.allow ip now interval).2 = false) :
    limiter.maxPerSec ≤ lines.countP (fun line => now < line.time + fromMillis 1000) ∨
      (∃ line ∈ lines, line.ip = ip ∧ now < line.time + interval) ∨
      limiter.last.size = limiter.maxEntries := by
  obtain ⟨hcurrent, hin⟩ := h.current
  obtain ⟨hmaxEntries, hmaxPerSec⟩ := limiter.current_limits now
  rcases limiter.allow_cases ip now interval with ⟨hblocked, -⟩ | ⟨-, hanswer⟩
  · rcases hblocked with hcount | ⟨last, hlookup, hearly⟩ | ⟨-, hfull⟩
    · left
      calc limiter.maxPerSec ≤ (limiter.current now).windowCount := hmaxPerSec ▸ hcount
        _ ≤ lines.countP fun line => (limiter.current now).windowStart ≤ line.time :=
            hcurrent.counted
        _ ≤ lines.countP fun line => now < line.time + fromMillis 1000 := by
            apply List.countP_mono_left
            intro line _ hwindow
            simp only [decide_eq_true_eq] at hwindow ⊢
            exact hin.trans_le (Nat.add_le_add_right hwindow _)
    · right; left
      rw [limiter.current_last now] at hlookup
      have hline := h.kept ip last hlookup
      have hpast : last ≤ now := h.past _ hline
      exact ⟨⟨ip, last⟩, hline, rfl, (Nat.sub_lt_iff_lt_add' hpast).mp hearly⟩
    · right; right
      rw [limiter.current_last now, hmaxEntries] at hfull
      exact Nat.le_antisymm h.size hfull
  · rw [hanswer] at hheld
    cases hheld

end Logs

end Limiter

/-! ### The relay -/

/-- `log_write_error`: throttled together with the drops, but not counted. -/
def Meters.logWriteError (meters : Meters) (target : SocketAddr) (now : Instant) : Meters :=
  { meters with
    dropLogLimiter := (meters.dropLogLimiter.allow (ipKey target).toText now dropLogInterval).1 }

/-- What may write to the log: an event of the relay, or a `REGD` that could not be sent. -/
inductive LogEvent where
  | handled (event : Event)
  | writeFailed (target : SocketAddr) (now : Instant)

/-- The line that an event asks for. A drop is always counted, so the relay has dropped a packet
when the count went up. -/
def line? (relay : Relay) : LogEvent → Option Line
  | .handled (.packet data src clock rnd) =>
      let meters := (relay.handlePacket data src clock rnd).1.meters
      if meters.statDrops = relay.meters.statDrops then none
      else some ⟨(ipKey src).toText, clock.log⟩
  | .handled (.roomTick _ _ _) => none
  | .handled (.rateTick _) => none
  | .writeFailed target now => some ⟨(ipKey target).toText, now⟩

def logStep (relay : Relay) : LogEvent → Relay
  | .handled event => (relay.step event).1
  | .writeFailed target now => { relay with meters := relay.meters.logWriteError target now }

def LogEvent.start : LogEvent → Instant
  | .handled event => event.start
  | .writeFailed _ now => now

def LogEvent.finish : LogEvent → Instant
  | .handled event => event.finish
  | .writeFailed _ now => now

/-- The relay with the lines that it writes. -/
def logMachine (cfg : Config) : Machine Relay LogEvent Line where
  init := .empty cfg
  step relay event :=
    (relay.logStep event, (relay.line? event).toList.filter fun line =>
      (relay.meters.dropLogLimiter.allow line.ip line.time dropLogInterval).2)
  start := LogEvent.start
  finish := LogEvent.finish

section Relay

variable {cfg : Config} {relay : Relay} {src : SocketAddr} {clock : Clock} {rnd : Cookie}
  {now : Instant}

/-- What a handler does to the drop log: it is left alone, or one drop is counted and logged. -/
def Meters.DropsOnce (src : SocketAddr) (now : Instant) (meters after : Meters) : Prop :=
  after.statDrops = meters.statDrops ∧ after.dropLogLimiter = meters.dropLogLimiter ∨
    after.statDrops = meters.statDrops + 1 ∧ after.dropLogLimiter =
      (meters.dropLogLimiter.allow (ipKey src).toText now dropLogInterval).1

theorem drop_dropsOnce (relay : Relay) (src : SocketAddr) (clock : Clock) :
    relay.meters.DropsOnce src clock.log (relay.drop src clock).1.meters :=
  Or.inr ⟨rfl, rfl⟩

theorem handleReg_dropsOnce (relay : Relay) (room : Room) (cookie : Bytes) (src : SocketAddr)
    (clock : Clock) (rnd : Cookie) :
    relay.meters.DropsOnce src clock.log (relay.handleReg room cookie src clock rnd).1.meters := by
  unfold Relay.handleReg
  dsimp only
  split
  · exact drop_dropsOnce _ src clock
  · split
    · exact Or.inl ⟨rfl, rfl⟩
    · exact Or.inl ⟨rfl, rfl⟩
    · exact drop_dropsOnce _ src clock

theorem handleMsg_dropsOnce (relay : Relay) (payload : Bytes) (src : SocketAddr) (clock : Clock) :
    relay.meters.DropsOnce src clock.log (relay.handleMsg payload src clock).1.meters := by
  unfold Relay.handleMsg
  split
  · exact drop_dropsOnce relay src clock
  · split
    · exact drop_dropsOnce relay src clock
    · split
      · exact drop_dropsOnce relay src clock
      · dsimp only
        split
        · exact drop_dropsOnce _ src clock
        · exact Or.inl ⟨rfl, rfl⟩

theorem handlePacket_dropsOnce (relay : Relay) (data : Bytes) (src : SocketAddr) (clock : Clock)
    (rnd : Cookie) :
    relay.meters.DropsOnce src clock.log (relay.handlePacket data src clock rnd).1.meters := by
  unfold Relay.handlePacket
  split
  · exact drop_dropsOnce relay src clock
  · exact handleReg_dropsOnce relay _ _ src clock rnd
  · exact handleMsg_dropsOnce relay _ src clock

/-- The step of the limiter under an event: one call for the line that the event asks for, a sweep,
or nothing. -/
inductive Asks (relay : Relay) (event : LogEvent) : Prop
  | line (line : Line) : relay.line? event = some line → line.time = event.finish →
      (relay.logStep event).meters.dropLogLimiter =
        (relay.meters.dropLogLimiter.allow line.ip line.time dropLogInterval).1 → Asks relay event
  | sweep (now : Instant) : relay.line? event = none → now = event.finish →
      (relay.logStep event).meters.dropLogLimiter =
        relay.meters.dropLogLimiter.cleanupStale now (dropLogInterval * 2) → Asks relay event
  | nothing : relay.line? event = none →
      (relay.logStep event).meters.dropLogLimiter = relay.meters.dropLogLimiter → Asks relay event

theorem asks (relay : Relay) (event : LogEvent) : Asks relay event := by
  cases event with
  | handled event =>
      cases event with
      | packet data src clock rnd =>
          rcases handlePacket_dropsOnce relay data src clock rnd with
            ⟨hstat, hkept⟩ | ⟨hstat, hasked⟩
          · exact .nothing (if_pos hstat) hkept
          · have hcounted : (relay.handlePacket data src clock rnd).1.meters.statDrops ≠
                relay.meters.statDrops := by
              rw [hstat]
              exact Nat.succ_ne_self _
            exact .line ⟨(ipKey src).toText, clock.log⟩ (if_neg hcounted) rfl hasked
      | roomTick sweep expire ordered => exact .nothing rfl rfl
      | rateTick now => exact .sweep now rfl rfl rfl
  | writeFailed target now => exact .line ⟨(ipKey target).toText, now⟩ rfl rfl rfl

theorem LogEvent.start_le_finish (event : LogEvent) : event.start ≤ event.finish := by
  cases event with
  | handled event => exact event.start_le_finish
  | writeFailed target now => exact Nat.le_refl now

theorem time_of_line {event : LogEvent} {line : Line} (hline : relay.line? event = some line) :
    line.time = event.finish := by
  cases asks relay event with
  | line line' hline' htime _ =>
      rw [hline'] at hline
      cases hline
      exact htime
  | sweep _ hnone =>
      rw [hnone] at hline
      cases hline
  | nothing hnone =>
      rw [hnone] at hline
      cases hline

theorem sent_of_line {event : LogEvent} {line : Line} (hline : relay.line? event = some line) :
    ((logMachine cfg).step relay event).2 =
      if (relay.meters.dropLogLimiter.allow line.ip line.time dropLogInterval).2 then [line]
      else [] := by
  change (relay.line? event).toList.filter _ = _
  rw [hline, Option.toList_some, List.filter_singleton, cond_eq_ite]

theorem sent_of_none {event : LogEvent} (hline : relay.line? event = none) :
    ((logMachine cfg).step relay event).2 = [] := by
  change (relay.line? event).toList.filter _ = _
  rw [hline]
  rfl

theorem Logs.step (cfg : Config) {lines : List Line} {event : LogEvent}
    (h : Logs dropLogInterval relay.meters.dropLogLimiter lines now)
    (hstart : now ≤ event.start) :
    Logs dropLogInterval (relay.logStep event).meters.dropLogLimiter
      (lines ++ ((logMachine cfg).step relay event).2) event.finish := by
  have hnow := h.mono (hstart.trans event.start_le_finish)
  cases asks relay event with
  | line line hline htime hlimiter =>
      rw [sent_of_line hline, hlimiter, htime]
      have hcall := hnow.allow line.ip
      rw [← htime] at hcall ⊢
      exact hcall
  | sweep t hline ht hlimiter =>
      rw [sent_of_none hline, hlimiter, List.append_nil, ht]
      exact hnow.cleanupStale (by decide)
  | nothing hline hlimiter =>
      rw [sent_of_none hline, hlimiter, List.append_nil]
      exact hnow

theorem limits_step (relay : Relay) (event : LogEvent) :
    (relay.logStep event).meters.dropLogLimiter.maxEntries =
        relay.meters.dropLogLimiter.maxEntries ∧
      (relay.logStep event).meters.dropLogLimiter.maxPerSec =
        relay.meters.dropLogLimiter.maxPerSec := by
  cases asks relay event with
  | line line _ _ hlimiter =>
      rw [hlimiter]
      exact DropLogLimiter.allow_limits _ _ _ _
  | sweep t _ _ hlimiter =>
      rw [hlimiter]
      exact ⟨rfl, rfl⟩
  | nothing _ hlimiter =>
      rw [hlimiter]
      exact ⟨rfl, rfl⟩

theorem limits_of_run {history} (hrun : (logMachine cfg).Run history relay now) :
    relay.meters.dropLogLimiter.maxEntries = 100000 ∧
      relay.meters.dropLogLimiter.maxPerSec = 100 := by
  refine hrun.stateInv (I := fun relay : Relay =>
    relay.meters.dropLogLimiter.maxEntries = 100000 ∧ relay.meters.dropLogLimiter.maxPerSec = 100)
    ⟨rfl, rfl⟩ ?_
  intro relay event h
  obtain ⟨hentries, hpersec⟩ := limits_step relay event
  exact ⟨hentries.trans h.1, hpersec.trans h.2⟩

theorem logs_of_run {history} (hrun : (logMachine cfg).Run history relay now) :
    Logs dropLogInterval relay.meters.dropLogLimiter (history.flatMap (·.sent)) now := by
  refine hrun.inv (G := fun _ _ => True) (I := fun history relay now =>
    Logs dropLogInterval relay.meters.dropLogLimiter (history.flatMap (·.sent)) now)
    (Logs.nil 0 dropLogInterval) ?_ (fun _ _ => trivial)
  intro history relay now event _ hstart _ h
  rw [List.flatMap_append, List.flatMap_singleton]
  exact h.step cfg hstart

/-- **The drop log is throttled.** Whatever the relay is sent, it keeps the times of no more than
100000 IPs, writes at most 200 lines in any second, and waits a second between two lines of one IP.
A line that it holds back had 100 lines or one of its own IP in the second before it, or the table
was full. -/
theorem drop_log_throttled {history} (hrun : (logMachine cfg).Run history relay now) :
    let lines := history.flatMap (·.sent)
    relay.meters.dropLogLimiter.last.size ≤ 100000 ∧
    (∀ a, lines.countP (fun line => a ≤ line.time ∧ line.time < a + fromMillis 1000) ≤ 200) ∧
    lines.Pairwise (fun line later =>
      line.ip = later.ip → line.time + dropLogInterval ≤ later.time) ∧
    ∀ event line, now ≤ event.start → relay.line? event = some line →
      ((logMachine cfg).step relay event).2 = [] →
      100 ≤ lines.countP (fun other => line.time < other.time + fromMillis 1000) ∨
      (∃ other ∈ lines, other.ip = line.ip ∧ line.time < other.time + dropLogInterval) ∨
      relay.meters.dropLogLimiter.last.size = 100000 := by
  intro lines
  obtain ⟨hentries, hpersec⟩ := limits_of_run hrun
  have hlogs : Logs dropLogInterval relay.meters.dropLogLimiter lines now := logs_of_run hrun
  refine ⟨hentries ▸ hlogs.size, fun a => ?_, hlogs.apart, ?_⟩
  · have hbounded := hlogs.metered.bounded a
    rw [hpersec, List.countP_map] at hbounded
    refine (List.countP_mono_left ?_).trans hbounded
    intro line _ hin
    simp only [Function.comp_apply, decide_eq_true_eq] at hin ⊢
    exact ⟨hin.1, le_of_in_window hin.2 hin.1⟩
  · intro event line hstart hline hheld
    rw [sent_of_line hline] at hheld
    have hnow : Logs dropLogInterval relay.meters.dropLogLimiter lines line.time :=
      time_of_line hline ▸ hlogs.mono (hstart.trans event.start_le_finish)
    have hblocked : (relay.meters.dropLogLimiter.allow line.ip line.time dropLogInterval).2 =
        false := by
      by_contra hallowed
      rw [Bool.not_eq_false] at hallowed
      rw [if_pos hallowed] at hheld
      cases hheld
    rcases hnow.reason hblocked with hcount | hown | hfull
    · exact Or.inl (hpersec ▸ hcount)
    · exact Or.inr (Or.inl hown)
    · exact Or.inr (Or.inr (hfull.trans hentries))

end Relay

/-- Three datagrams of one source that the relay cannot read, the last one a second behind the
first. -/
def unreadable : List LogEvent :=
  [0, 1, fromMillis 1000].map fun now =>
    .handled (.packet [] (.v4 ⟨10, 0, 0, 1⟩ 1000) (.same now) (.fill 1))

theorem drop_log_throttled_unreadable :
    let lines := ((logMachine .defaults).trace (logMachine .defaults).init unreadable).flatMap
      (·.sent)
    lines.map (·.time) = [0, fromMillis 1000] ∧
      lines.Pairwise (fun line later =>
        line.ip = later.ip → line.time + dropLogInterval ≤ later.time) := by
  have hordered : (logMachine .defaults).Ordered 0 unreadable := by decide
  exact ⟨by decide, (drop_log_throttled ((logMachine .defaults).run_exec hordered)).2.2.1⟩

end Qvole.Relay
