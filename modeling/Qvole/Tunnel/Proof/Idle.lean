import Qvole.Copy.Proof.Steps
import Qvole.Tunnel.Idle

/-!
# Only silence is reaped

The deadline of a bridge is never less than the idle time behind the last data it read, so a read
that fails by the deadline fails behind a time of silence on both sides. It fails where nothing is
left to write, and no source is asked again.
-/

namespace Qvole.Tunnel

open Copy

variable {ε : Type} {idle now : Nat} {s : TunnelCopy ε}
  {history : List (Machine.Record (TunnelCopy ε) (Turn ε) (Effect (IdleError ε)))}

/-- The read of a direction fails by the deadline. -/
def reapedAs (side : Side) : Effect (IdleError ε) := finishedAs side (.failed (.io .timedOut))

/-- A read brought data. -/
def ReadsData (sent : List (Effect (IdleError ε))) : Prop := ∃ side b, .act side (.read b) ∈ sent

/-- A direction was reaped. -/
def Reaps (sent : List (Effect (IdleError ε))) : Prop := ∃ side, reapedAs side ∈ sent

/-- A direction met the end of its source. -/
def MeetsEof (sent : List (Effect (IdleError ε))) : Prop := ∃ side, finishedAs side .eof ∈ sent

/-- A source gave data or its end. -/
def Hears (sent : List (Effect (IdleError ε))) : Prop := ReadsData sent ∨ MeetsEof sent

/-! ### One step -/

/-- A step without news from a source. -/
def Quiet (sent : List (Effect (IdleError ε))) : Prop :=
  ¬ ReadsData sent ∧ ¬ Reaps sent ∧ ¬ MeetsEof sent

theorem quiet_nil : Quiet ([] : List (Effect (IdleError ε))) := by
  simp [Quiet, ReadsData, Reaps, MeetsEof]

theorem quiet_of_unmoved {copies next : Copies (IdleError ε)} {sent : List (Effect (IdleError ε))}
    (h : Unmoved copies next sent) : Quiet sent := by
  refine ⟨?_, ?_, ?_⟩
  · rintro ⟨side, b, hmem⟩
    exact h.2.2 side _ hmem
  · rintro ⟨side, hmem⟩
    exact h.2.2 side _ hmem
  · rintro ⟨side, hmem⟩
    exact h.2.2 side _ hmem

/-- Away from a source, nothing is read and no deadline is looked at. -/
theorem quiet_of_not_reading {copies : Copies (IdleError ε)} {side : Side}
    (hphase : copies.phase side ≠ .reading) (read : ReadAnswer (IdleError ε)) (write : WriteAnswer ε) :
    Quiet (copies.poll side ⟨read, plainWrite write⟩).2 := by
  simp only [Copies.poll]
  cases hcase : copies.phase side with
  | reading => exact absurd hcase hphase
  | selecting =>
      simp only [copyInner]
      split <;> simp [Quiet, ReadsData, Reaps, MeetsEof, reapedAs, finishedAs, finish]
  | writing rest =>
      simp only [copyInner]
      split
      · exact quiet_nil
      · cases write with
        | pending => exact quiet_nil
        | took n =>
            simp only [plainWrite]
            split <;> simp [Quiet, ReadsData, Reaps, MeetsEof, reapedAs, finishedAs, finish]
        | failed error =>
            simp [plainWrite, Quiet, ReadsData, Reaps, MeetsEof, reapedAs, finishedAs, finish]
  | yielding => exact quiet_nil
  | ended how => exact quiet_nil

/-- What a step can do: nothing about a source; read data and put the deadline off; meet the end of a
source, or another failure of it; or reap, if the deadline is over. -/
inductive Stepped (idle : Nat) (s next : TunnelCopy ε) (turn : Turn ε) :
    List (Effect (IdleError ε)) → Prop
  | quiet {sent : List (Effect (IdleError ε))} (hsleep : next.sleep = s.sleep) (hquiet : Quiet sent) :
      Stepped idle s next turn sent
  | data (side : Side) (b : Bytes) (hpc : s.copies.pc = .polling side) (hreads : s.reads = true)
      (hread : turn.io.read = .ready b)
      (hsleep : next.sleep = s.sleep.map fun _ => .new turn.now idle)
      (hrunning : ∀ sleep, s.sleep = some sleep → sleep.elapsed = false) :
      Stepped idle s next turn [.act side (.read b)]
  | eof (side : Side) (hpc : s.copies.pc = .polling side) (hreads : s.reads = true)
      (hread : turn.io.read = .ready []) (hsleep : next.sleep = s.sleep)
      (hrunning : ∀ sleep, s.sleep = some sleep → sleep.elapsed = false) :
      Stepped idle s next turn [finishedAs side .eof]
  | reap (side : Side) (sleep : Sleep) (hsleep : s.sleep = some sleep)
      (hnext : next.sleep = some { sleep with elapsed := true })
      (hover : sleep.elapsed = true ∨ sleep.deadline ≤ turn.now)
      (hphase : s.copies.phase side = .reading) :
      Stepped idle s next turn [reapedAs side]

theorem reads_iff :
    s.reads = true ↔ ∃ side, s.copies.pc = .polling side ∧ s.copies.phase side = .reading := by
  unfold TunnelCopy.reads
  cases hpc : s.copies.pc with
  | polling side => cases hphase : s.copies.phase side <;> simp [hphase]
  | idle => simp
  | checking => simp
  | returned => simp

theorem answer_sleep_of_not_reads (turn : Turn ε) (hreads : s.reads = false) :
    (s.answer idle turn).1 = s.sleep := by
  unfold TunnelCopy.answer
  cases s.sleep with
  | none => rfl
  | some sleep => simp [hreads]

/-- The answer of a source is passed on while the deadline is not over, and data puts it off. -/
theorem answer_of_reads (idle : Nat) (turn : Turn ε) (hreads : s.reads = true) :
    ((s.answer idle turn).2 = plainRead turn.io.read ∧
      (∀ sleep, s.sleep = some sleep → sleep.elapsed = false) ∧
      ((s.answer idle turn).1 = s.sleep ∨ (∃ b, b ≠ [] ∧ turn.io.read = .ready b)) ∧
      ∀ b, b ≠ [] → turn.io.read = .ready b →
        (s.answer idle turn).1 = s.sleep.map fun _ => .new turn.now idle) ∨
      ∃ sleep, s.sleep = some sleep ∧ (sleep.elapsed = true ∨ sleep.deadline ≤ turn.now) ∧
        s.answer idle turn = (some { sleep with elapsed := true }, .failed .timedOut) := by
  cases hsleep : s.sleep with
  | none => simp [TunnelCopy.answer, hsleep]
  | some sleep =>
      simp only [TunnelCopy.answer, hsleep, hreads, if_true, IdleReader.pollRead]
      by_cases hpoll : sleep.poll turn.now turn.timer = true
      · refine Or.inr ⟨sleep, rfl, ?_, by simp [hpoll]⟩
        simp only [Sleep.poll, Bool.or_eq_true, Bool.and_eq_true, decide_eq_true_eq] at hpoll
        exact hpoll.imp_right And.right
      · have helapsed : sleep.elapsed = false := by
          simp only [Sleep.poll, Bool.or_eq_true, not_or, Bool.not_eq_true] at hpoll
          exact hpoll.1
        refine Or.inl ?_
        cases turn.io.read with
        | pending => simp [hpoll, plainRead, helapsed]
        | ready b =>
            by_cases hb : b = []
            · subst hb
              refine ⟨by simp [hpoll, plainRead], by simp [helapsed], by simp [hpoll], ?_⟩
              intro b hb hempty
              exact absurd (ReadAnswer.ready.inj hempty).symm hb
            · simp [hpoll, plainRead, helapsed, hb]
        | failed error => simp [hpoll, plainRead, helapsed]

/-- The poll of a source. -/
theorem stepped_of_reading {side : Side} (turn : Turn ε) (hpc : s.copies.pc = .polling side)
    (hphase : s.copies.phase side = .reading) :
    Stepped idle s (tunnelCopy idle s turn).1 turn (tunnelCopy idle s turn).2 := by
  have hsent : (tunnelCopy idle s turn).2 =
      (copyInner true (s.copies.stop || s.copies.pairStop)
        ⟨(s.answer idle turn).2, plainWrite turn.io.write⟩ .reading).2.2.map (.act side) := by
    simp only [tunnelCopy, bidirectionalCopy, hpc, Copies.poll, hphase]
  have hreads := reads_iff.mpr ⟨side, hpc, hphase⟩
  rw [hsent]
  rcases answer_of_reads idle turn hreads with
    ⟨hread, hrunning, hsame, hdata⟩ | ⟨sleep, hsleep, hover, hanswer⟩
  · rw [hread]
    have hquiet : (∀ b, b ≠ [] → turn.io.read ≠ .ready b) → (s.answer idle turn).1 = s.sleep := by
      intro hnone
      refine hsame.resolve_right fun hsome => ?_
      obtain ⟨b, hb, hready⟩ := hsome
      exact hnone b hb hready
    cases hinner : turn.io.read with
    | pending => exact .quiet (hquiet (by simp [hinner])) quiet_nil
    | failed error =>
        refine .quiet (hquiet (by simp [hinner])) ?_
        simp [plainRead, copyInner, finish, Quiet, ReadsData, Reaps, MeetsEof, reapedAs, finishedAs]
    | ready b =>
        by_cases hb : b = []
        · subst hb
          exact .eof side hpc hreads hinner (hquiet (by simp [hinner])) hrunning
        · simp only [plainRead, copyInner, if_neg hb]
          exact .data side b hpc hreads hinner (hdata b hb hinner) hrunning
  · rw [hanswer]
    exact .reap side sleep hsleep (congrArg Prod.fst hanswer) hover hphase

/-- **Every step** is one of these. -/
theorem tunnelCopy_stepped (idle : Nat) (s : TunnelCopy ε) (turn : Turn ε) :
    Stepped idle s (tunnelCopy idle s turn).1 turn (tunnelCopy idle s turn).2 := by
  by_cases hreads : s.reads = true
  · obtain ⟨side, hpc, hphase⟩ := reads_iff.mp hreads
    exact stepped_of_reading turn hpc hphase
  · refine .quiet (answer_sleep_of_not_reads turn (by simpa using hreads)) ?_
    rcases bidirectionalCopy_cases s.copies
        (.advance ⟨(s.answer idle turn).2, plainWrite turn.io.write⟩) with
      hsame | ⟨side, io, hio, hpc, hnext⟩
    · exact quiet_of_unmoved hsame
    · obtain rfl := Event.advance.inj hio
      have hphase : s.copies.phase side ≠ .reading := fun hphase =>
        hreads (reads_iff.mpr ⟨side, hpc, hphase⟩)
      simp only [tunnelCopy, hnext]
      exact quiet_of_not_reading hphase _ _

/-! ### The deadline along a run -/

/-- How the deadline stands to the records of a run. -/
structure Timed (idle : Nat)
    (history : List (Machine.Record (TunnelCopy ε) (Turn ε) (Effect (IdleError ε))))
    (sleep : Option Sleep) (now : Nat) : Prop where
  armed : ∀ wake ∈ sleep, 0 < idle ∧ idle ≤ wake.deadline
  putOff : ∀ wake ∈ sleep, ∀ r ∈ history, ReadsData r.sent → r.event.now + idle ≤ wake.deadline
  elapsed : ∀ wake ∈ sleep, wake.elapsed = true → wake.deadline ≤ now
  reaped : ∀ r ∈ history, Reaps r.sent →
    ∃ wake ∈ sleep, wake.elapsed = true ∧ wake.deadline ≤ r.event.now
  final : ∀ earlier later, Machine.Precedes history earlier later → Reaps earlier.sent →
    ¬ Hears later.sent

theorem timed_start :
    Timed idle ([] : List (Machine.Record (TunnelCopy ε) (Turn ε) (Effect (IdleError ε))))
      (TunnelCopy.start ε idle).sleep 0 where
  armed sleep hsleep := by
    simp only [TunnelCopy.start] at hsleep
    split at hsleep
    · cases hsleep
    · obtain rfl := Option.some.inj hsleep
      simp only [Sleep.new]
      omega
  putOff _ _ r hr := by cases hr
  elapsed sleep hsleep helapsed := by
    simp only [TunnelCopy.start] at hsleep
    split at hsleep
    · cases hsleep
    · obtain rfl := Option.some.inj hsleep
      cases helapsed
  reaped r hr := by cases hr
  final earlier later h := by
    obtain ⟨front, middle, rest, heq⟩ := h
    simp at heq

variable {sleep : Option Sleep}
  {r : Machine.Record (TunnelCopy ε) (Turn ε) (Effect (IdleError ε))}

/-- Behind a reaped read the sleep is over. -/
theorem Timed.not_reaped (h : Timed idle history sleep now)
    (hrunning : ∀ wake, sleep = some wake → wake.elapsed = false) :
    ∀ r ∈ history, ¬ Reaps r.sent := by
  intro r hr hreaps
  obtain ⟨wake, hwake, helapsed, -⟩ := h.reaped r hr hreaps
  rw [hrunning wake hwake] at helapsed
  cases helapsed

theorem Timed.final_append (h : Timed idle history sleep now)
    (hlast : Hears r.sent → ∀ r ∈ history, ¬ Reaps r.sent) :
    ∀ earlier later, Machine.Precedes (history ++ [r]) earlier later → Reaps earlier.sent →
      ¬ Hears later.sent := by
  intro earlier later hprecedes hreaps hhears
  rcases Machine.precedes_snoc_iff.mp hprecedes with hold | ⟨hmem, rfl⟩
  · exact h.final earlier later hold hreaps hhears
  · exact hlast hhears earlier hmem hreaps

/-- The deadline stays, and nothing was read. -/
theorem Timed.keep (h : Timed idle history sleep now) (hnow : now ≤ r.event.now)
    (hdata : ¬ ReadsData r.sent) (hreaps : ¬ Reaps r.sent)
    (heof : MeetsEof r.sent → ∀ r ∈ history, ¬ Reaps r.sent) :
    Timed idle (history ++ [r]) sleep r.event.now where
  armed := h.armed
  putOff wake hwake r' hr' hread := by
    rcases List.mem_append.mp hr' with hold | hnew
    · exact h.putOff wake hwake r' hold hread
    · obtain rfl := List.mem_singleton.mp hnew
      exact absurd hread hdata
  elapsed wake hwake helapsed := (h.elapsed wake hwake helapsed).trans hnow
  reaped r' hr' hreap := by
    rcases List.mem_append.mp hr' with hold | hnew
    · exact h.reaped r' hold hreap
    · obtain rfl := List.mem_singleton.mp hnew
      exact absurd hreap hreaps
  final := h.final_append fun hhears => heof (hhears.resolve_left hdata)

/-- Data puts the deadline off, behind the idle time of all that was read. -/
theorem Timed.data (h : Timed idle history sleep now)
    (hrun : ∀ r ∈ history, r.event.now ≤ now) (hnow : now ≤ r.event.now)
    (hreaps : ¬ Reaps r.sent)
    (hrunning : ∀ wake, sleep = some wake → wake.elapsed = false) :
    Timed idle (history ++ [r]) (sleep.map fun _ => .new r.event.now idle) r.event.now where
  armed wake hwake := by
    obtain ⟨old, hold, rfl⟩ := Option.map_eq_some_iff.mp hwake
    have harmed := h.armed old hold
    simp only [Sleep.new]
    omega
  putOff wake hwake r' hr' _ := by
    obtain ⟨old, hold, rfl⟩ := Option.map_eq_some_iff.mp hwake
    have hbefore : r'.event.now ≤ r.event.now := by
      rcases List.mem_append.mp hr' with hmem | hnew
      · exact (hrun r' hmem).trans hnow
      · obtain rfl := List.mem_singleton.mp hnew
        exact le_rfl
    simp only [Sleep.new]
    omega
  elapsed wake hwake helapsed := by
    obtain ⟨old, hold, rfl⟩ := Option.map_eq_some_iff.mp hwake
    cases helapsed
  reaped r' hr' hreap := by
    rcases List.mem_append.mp hr' with hmem | hnew
    · exact absurd hreap (h.not_reaped hrunning r' hmem)
    · obtain rfl := List.mem_singleton.mp hnew
      exact absurd hreap hreaps
  final := h.final_append fun _ => h.not_reaped hrunning

/-- A reaped read leaves the deadline as it is, and it is over for good. -/
theorem Timed.reap {wake : Sleep} (h : Timed idle history (some wake) now) (hnow : now ≤ r.event.now)
    (hover : wake.elapsed = true ∨ wake.deadline ≤ r.event.now) (hdata : ¬ ReadsData r.sent)
    (heof : ¬ MeetsEof r.sent) :
    Timed idle (history ++ [r]) (some { wake with elapsed := true }) r.event.now := by
  have hpassed : wake.deadline ≤ r.event.now := by
    rcases hover with helapsed | hpassed
    · exact (h.elapsed wake rfl helapsed).trans hnow
    · exact hpassed
  refine ⟨?_, ?_, ?_, ?_, h.final_append fun hhears => absurd hhears (not_or.mpr ⟨hdata, heof⟩)⟩
  · rintro _ ⟨⟩
    exact h.armed wake rfl
  · rintro _ ⟨⟩ r' hr' hread
    rcases List.mem_append.mp hr' with hold | hnew
    · exact h.putOff wake rfl r' hold hread
    · obtain rfl := List.mem_singleton.mp hnew
      exact absurd hread hdata
  · rintro _ ⟨⟩ -
    exact hpassed
  · intro r' hr' hreap
    refine ⟨_, rfl, rfl, ?_⟩
    rcases List.mem_append.mp hr' with hold | hnew
    · obtain ⟨_, ⟨⟩, -, hdeadline⟩ := h.reaped r' hold hreap
      exact hdeadline
    · obtain rfl := List.mem_singleton.mp hnew
      exact hpassed

theorem Timed.step {next : TunnelCopy ε} (h : Timed idle history s.sleep now)
    (hrun : ∀ r ∈ history, r.event.now ≤ now) (hnow : now ≤ r.event.now)
    (hstep : Stepped idle s next r.event r.sent) :
    Timed idle (history ++ [r]) next.sleep r.event.now := by
  generalize hsent : r.sent = sent at hstep
  cases hstep with
  | quiet hsleep hquiet =>
      obtain ⟨hdata, hreaps, heof⟩ := hquiet
      rw [hsleep]
      rw [← hsent] at hdata hreaps heof
      exact h.keep hnow hdata hreaps fun hmeets => absurd hmeets heof
  | data side b _ _ _ hsleep hrunning =>
      rw [hsleep]
      refine h.data hrun hnow ?_ hrunning
      simp [hsent, Reaps, reapedAs, finishedAs]
  | eof side _ _ _ hsleep hrunning =>
      rw [hsleep]
      refine h.keep hnow ?_ ?_ fun _ => h.not_reaped hrunning
      · simp [hsent, ReadsData, finishedAs]
      · simp [hsent, Reaps, reapedAs, finishedAs]
  | reap side wake hsleep hnext hover hphase =>
      rw [hnext]
      rw [hsleep] at h
      refine h.reap hnow hover ?_ ?_
      · simp [hsent, ReadsData, reapedAs, finishedAs]
      · simp [hsent, MeetsEof, reapedAs, finishedAs]

/-! ### The bytes along a run -/

/-- A reaped direction has written all it read. -/
def Whole (effects : List (Effect (IdleError ε))) (copies : Copies (IdleError ε)) : Prop :=
  ∀ side, copies.phase side = .ended (.failed (.io .timedOut)) →
    readBy side effects = wroteBy side effects

variable {effects : List (Effect (IdleError ε))}

/-- Nothing is left to write where the deadline is looked at. -/
theorem Whole.step (hcopied : Copied effects s.copies) (h : Whole effects s.copies) (turn : Turn ε) :
    Whole (effects ++ (tunnelCopy idle s turn).2) (tunnelCopy idle s turn).1.copies := by
  intro side hended
  have hnext : Copied (effects ++ (tunnelCopy idle s turn).2) (tunnelCopy idle s turn).1.copies :=
    hcopied.step _
  rw [readBy_append, wroteBy_append]
  by_cases hbefore : s.copies.phase side = .ended (.failed (.io .timedOut))
  · obtain ⟨-, hread, hwrote⟩ := hcopied.ended_step hbefore
      (.advance ⟨(s.answer idle turn).2, plainWrite turn.io.write⟩)
    have hsame := h side hbefore
    simp only [tunnelCopy]
    rw [hread, hwrote, hsame]
  · have hreaped : reapedAs side ∈ (tunnelCopy idle s turn).2 := by
      rcases List.mem_append.mp ((hnext.finished side _).mpr hended) with hold | hnew
      · exact absurd ((hcopied.finished side _).mp hold) hbefore
      · exact hnew
    have hstepped := tunnelCopy_stepped idle s turn
    generalize (tunnelCopy idle s turn).2 = sent at hstepped hreaped
    cases hstepped with
    | quiet _ hquiet => exact absurd ⟨side, hreaped⟩ hquiet.2.1
    | data => simp [reapedAs, finishedAs] at hreaped
    | eof => simp [reapedAs, finishedAs] at hreaped
    | reap other wake _ _ _ hphase =>
        obtain rfl : side = other := by simpa [reapedAs, finishedAs] using hreaped
        have hkept := (hcopied.kept side).eq_of_running (by simp [hphase, Phase.Failed])
        rw [hphase] at hkept
        simpa [readBy, wroteBy, reapedAs, finishedAs, Effect.readBytes, Effect.wroteBytes,
          Act.readBytes, Act.wroteBytes, Phase.unwritten] using hkept

/-! ### Runs -/

/-- What holds of a run and of the state it has come to. -/
structure Idling (idle : Nat)
    (history : List (Machine.Record (TunnelCopy ε) (Turn ε) (Effect (IdleError ε))))
    (s : TunnelCopy ε) (now : Nat) : Prop where
  timed : Timed idle history s.sleep now
  past : ∀ r ∈ history, r.event.now ≤ now
  copied : Copied (history.flatMap (·.sent)) s.copies
  whole : Whole (history.flatMap (·.sent)) s.copies

theorem idling_of_run (hrun : (idleMachine ε idle).Run history s now) : Idling idle history s now := by
  refine hrun.inv (G := fun _ _ => True) (I := fun history s now => Idling idle history s now) ?_ ?_
    fun _ _ => trivial
  · exact ⟨timed_start, by simp, copied_start, fun side hended => by cases hended⟩
  · intro history s now turn _ hnow _ h
    refine ⟨?_, ?_, ?_, ?_⟩
    · exact h.timed.step h.past hnow (tunnelCopy_stepped idle s turn)
    · intro r hr
      rcases List.mem_append.mp hr with hold | hnew
      · exact (h.past r hold).trans hnow
      · obtain rfl := List.mem_singleton.mp hnew
        exact le_rfl
    · rw [List.flatMap_append, List.flatMap_singleton]
      exact h.copied.step _
    · rw [List.flatMap_append, List.flatMap_singleton]
      exact h.whole.step h.copied turn

/-- **Only a silent bridge is reaped, for good, and without loss.** When a read fails by the idle
timeout, that time has passed since the start and since every read of data in the whole run, on
either side; without an idle time none does. Behind it no source is heard again. At every point each
sink has the front of what was read from the other side, and a reaped direction has written all it
read. -/
theorem reaped_of_silence (hrun : (idleMachine ε idle).Run history s now) :
    let effects := history.flatMap (·.sent)
    (∀ r ∈ history, Reaps r.sent → 0 < idle ∧ idle ≤ r.event.now ∧
      ∀ r' ∈ history, ReadsData r'.sent → r'.event.now + idle ≤ r.event.now) ∧
    (∀ earlier later, Machine.Precedes history earlier later → Reaps earlier.sent →
      ¬ Hears later.sent) ∧
    (∀ side, wroteBy side effects <+: readBy side effects) ∧
    ∀ side, reapedAs side ∈ effects → wroteBy side effects = readBy side effects := by
  intro effects
  have h := idling_of_run hrun
  have hsilent : ∀ r ∈ history, Reaps r.sent → 0 < idle ∧ idle ≤ r.event.now ∧
      ∀ r' ∈ history, ReadsData r'.sent → r'.event.now + idle ≤ r.event.now := by
    intro r hr hreaps
    obtain ⟨wake, hwake, -, hdeadline⟩ := h.timed.reaped r hr hreaps
    obtain ⟨hpos, hle⟩ := h.timed.armed wake hwake
    exact ⟨hpos, hle.trans hdeadline, fun r' hr' hread =>
      (h.timed.putOff wake hwake r' hr' hread).trans hdeadline⟩
  refine ⟨hsilent, h.timed.final, fun side => (h.copied.kept side).isPrefix, ?_⟩
  intro side hreaped
  exact (h.whole side ((h.copied.finished side _).mp hreaped)).symm

def turnAt (now : Nat) (timer : Bool) (read : ReadAnswer Unit) : Turn Unit :=
  { now, timer, io := ⟨read, .took 1⟩ }

/-- Two bytes at 3, nothing at 4, and at 13 the timer of a bridge with the idle time 10. -/
def silentBridge : List (Turn Unit) :=
  List.replicate 6 (turnAt 3 false (.ready (ascii "xy"))) ++
    List.replicate 3 (turnAt 4 false .pending) ++ List.replicate 6 (turnAt 13 true .pending)

theorem reaped_of_silence_ten :
    let effects := ((idleMachine Unit 10).trace (.start Unit 10) silentBridge).flatMap (·.sent)
    reapedAs .ab ∈ effects ∧ reapedAs .ba ∈ effects ∧ wroteBy .ab effects = ascii "xy" := by
  intro effects
  have hordered : (idleMachine Unit 10).Ordered 0 silentBridge := by decide
  obtain ⟨-, -, -, hwhole⟩ := reaped_of_silence ((idleMachine Unit 10).run_exec hordered)
  have hab : reapedAs .ab ∈ effects := by decide
  have hba : reapedAs .ba ∈ effects := by decide
  have hread : readBy .ab effects = ascii "xy" := by decide
  exact ⟨hab, hba, (hwhole .ab hab).trans hread⟩

end Qvole.Tunnel
