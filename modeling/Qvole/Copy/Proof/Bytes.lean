import Qvole.Copy.Bidirectional

/-!
# No byte lost or moved

What a direction has read is what it has written, then what it still has to write, and then, only if it
failed, what it has given up. The stop token is looked at where nothing is left to write, so that a
direction that is stopped leaves nothing behind.
-/

namespace Qvole.Copy

variable {ε : Type}

/-! ### One direction -/

def Act.readBytes : Act ε → Bytes
  | .read b => b
  | _ => []

def Act.wroteBytes : Act ε → Bytes
  | .wrote b => b
  | _ => []

def Phase.unwritten : Phase ε → Bytes
  | .writing rest => rest
  | _ => []

def Phase.Failed (phase : Phase ε) : Prop := ∃ error, phase = .ended (.failed error)

/-- What was read is what was written and what is to be written, unless the direction failed. -/
def Kept (read wrote : Bytes) (phase : Phase ε) : Prop :=
  ∃ lost, read = wrote ++ phase.unwritten ++ lost ∧ (¬ phase.Failed → lost = [])

variable {read wrote : Bytes} {phase : Phase ε}

theorem Kept.eq_of_running (h : Kept read wrote phase) (hrunning : ¬ phase.Failed) :
    read = wrote ++ phase.unwritten := by
  obtain ⟨lost, hread, hlost⟩ := h
  rw [hread, hlost hrunning, List.append_nil]

/-- A failed write gives up what was left. -/
theorem Kept.fail (h : Kept read wrote phase) (error : CopyError ε) :
    Kept read wrote (.ended (.failed error)) := by
  obtain ⟨lost, hread, -⟩ := h
  refine ⟨phase.unwritten ++ lost, ?_, fun hrunning => absurd ⟨error, rfl⟩ hrunning⟩
  rw [hread]
  simp [Phase.unwritten]

theorem Kept.move {next : Phase ε} (h : Kept read wrote phase) (hrunning : ¬ phase.Failed)
    (hnext : next.unwritten = phase.unwritten) : Kept read wrote next := by
  refine ⟨[], ?_, fun _ => rfl⟩
  rw [hnext, List.append_nil]
  exact h.eq_of_running hrunning

/-- A step that is not behind the end of the loop. It ends the loop, and gives up bytes only by
failing; or it moves on and does nothing; or it reads a chunk, or writes the front of what is left. -/
theorem copyInner_cases (interleave stopped : Bool) (io : Io ε)
    (hphase : ∀ how, phase ≠ .ended how) :
    let next := copyInner interleave stopped io phase
    (∃ how, next = finish how ∧ (phase.unwritten = [] ∨ ∃ error, how = .failed error)) ∨
      (∃ moved polled, next = (moved, polled, []) ∧ polled ≠ .ready ∧
        (∀ how, moved ≠ .ended how) ∧ moved.unwritten = phase.unwritten) ∨
      (∃ b, next = (.writing b, .running, [.read b]) ∧ phase.unwritten = []) ∨
      ∃ rest n, next = (.writing (rest.drop n), .running, [.wrote (rest.take n)]) ∧
        phase.unwritten = rest := by
  have hmove : ∀ (moved : Phase ε) {polled : Polled}, polled ≠ .ready →
      (∀ how, moved ≠ .ended how) → moved.unwritten = phase.unwritten →
      ∃ moved' polled', (moved, polled, ([] : List (Act ε))) = (moved', polled', []) ∧
        polled' ≠ .ready ∧ (∀ how, moved' ≠ .ended how) ∧ moved'.unwritten = phase.unwritten :=
    fun moved polled hpolled hmoved hsame => ⟨moved, polled, rfl, hpolled, hmoved, hsame⟩
  cases phase with
  | selecting =>
      simp only [copyInner]
      split
      · exact Or.inl ⟨_, rfl, Or.inl rfl⟩
      · exact Or.inr (Or.inl (hmove .reading (by simp) (by simp) rfl))
  | reading =>
      simp only [copyInner]
      split
      · exact Or.inr (Or.inl (hmove .selecting (by simp) (by simp) rfl))
      · split
        · exact Or.inl ⟨_, rfl, Or.inl rfl⟩
        · exact Or.inr (Or.inr (Or.inl ⟨_, rfl, rfl⟩))
      · exact Or.inl ⟨_, rfl, Or.inl rfl⟩
  | writing rest =>
      simp only [copyInner]
      split
      · rename_i hrest
        subst hrest
        cases interleave with
        | true => exact Or.inr (Or.inl (hmove .yielding (by simp) (by simp) rfl))
        | false => exact Or.inr (Or.inl (hmove .selecting (by simp) (by simp) rfl))
      · split
        · exact Or.inr (Or.inl (hmove (.writing rest) (by simp) (by simp) rfl))
        · split
          · exact Or.inl ⟨_, rfl, Or.inr ⟨_, rfl⟩⟩
          · exact Or.inr (Or.inr (Or.inr ⟨rest, _, rfl, rfl⟩))
        · exact Or.inl ⟨_, rfl, Or.inr ⟨_, rfl⟩⟩
  | yielding => exact Or.inr (Or.inl (hmove .selecting (by simp) (by simp) rfl))
  | ended how => exact absurd rfl (hphase how)

/-- **One step of the loop** neither loses nor moves a byte. -/
theorem copyInner_kept (interleave stopped : Bool) (io : Io ε) (hphase : ∀ how, phase ≠ .ended how)
    (h : Kept read wrote phase) :
    let next := copyInner interleave stopped io phase
    Kept (read ++ next.2.2.flatMap Act.readBytes) (wrote ++ next.2.2.flatMap Act.wroteBytes)
      next.1 := by
  have hrunning : ¬ phase.Failed := fun ⟨error, herror⟩ => hphase _ herror
  have hread := h.eq_of_running hrunning
  rcases copyInner_cases interleave stopped io hphase with ⟨how, hnext, hend⟩ |
    ⟨moved, polled, hnext, -, -, hsame⟩ | ⟨b, hnext, hnone⟩ | ⟨rest, n, hnext, hrest⟩
  · have hended : Kept read wrote (.ended how) := by
      rcases hend with hnone | ⟨error, rfl⟩
      · exact h.move hrunning hnone.symm
      · exact h.fail error
    simpa [hnext, finish, Act.readBytes, Act.wroteBytes] using hended
  · have hmoved : Kept read wrote moved := h.move hrunning hsame
    simpa [hnext] using hmoved
  · rw [hnext]
    refine ⟨[], ?_, fun _ => rfl⟩
    rw [hread, hnone]
    simp [Act.readBytes, Act.wroteBytes, Phase.unwritten]
  · rw [hnext]
    refine ⟨[], ?_, fun _ => rfl⟩
    rw [hread, hrest]
    simp [Act.readBytes, Act.wroteBytes, Phase.unwritten]

/-- The poll is ready when the loop ends, and the end is reported then. -/
theorem copyInner_finished (interleave stopped : Bool) (io : Io ε)
    (hphase : ∀ how, phase ≠ .ended how) :
    let next := copyInner interleave stopped io phase
    (next.2.1 = .ready ↔ ∃ how, next.1 = .ended how) ∧
      ∀ how, .finished how ∈ next.2.2 ↔ next.1 = .ended how := by
  rcases copyInner_cases interleave stopped io hphase with ⟨how, hnext, -⟩ |
    ⟨moved, polled, hnext, hpolled, hmoved, -⟩ | ⟨b, hnext, -⟩ | ⟨rest, n, hnext, -⟩
  · simp [hnext, finish, eq_comm]
  · simp [hnext, hpolled, hmoved]
  · simp [hnext]
  · simp [hnext]

/-! ### Both directions -/

def Effect.readBytes (side : Side) : Effect ε → Bytes
  | .act s a => if s = side then a.readBytes else []
  | _ => []

def Effect.wroteBytes (side : Side) : Effect ε → Bytes
  | .act s a => if s = side then a.wroteBytes else []
  | _ => []

def Effect.isInterrupt : Effect ε → Bool
  | .interrupt => true
  | _ => false

/-- All that was read from the source of a direction. -/
def readBy (side : Side) (effects : List (Effect ε)) : Bytes := effects.flatMap (Effect.readBytes side)

/-- All that was written to its sink. -/
def wroteBy (side : Side) (effects : List (Effect ε)) : Bytes := effects.flatMap (Effect.wroteBytes side)

def finishedAs (side : Side) (how : Ended ε) : Effect ε := .act side (.finished how)

/-- No interrupt comes before some direction has finished. -/
def Announced (effects : List (Effect ε)) : Prop :=
  ∀ front rest, effects = front ++ .interrupt :: rest → ∃ side how, finishedAs side how ∈ front

/-- What holds of the effects of a run and of the state it has come to. -/
structure Copied (effects : List (Effect ε)) (s : Copies ε) : Prop where
  kept : ∀ side, Kept (readBy side effects) (wroteBy side effects) (s.phase side)
  done : ∀ side, s.done side = true ↔ ∃ how, s.phase side = .ended how
  finished : ∀ side how, finishedAs side how ∈ effects ↔ s.phase side = .ended how
  polling : ∀ side, s.pc = .polling side → s.done side = false
  interrupts : effects.countP Effect.isInterrupt = if s.fired then 1 else 0
  order : Announced effects
  returned : .returned ∈ effects → s.fired = true ∧ ∀ side, s.done side = true

variable {effects : List (Effect ε)} {s : Copies ε}

theorem readBy_append (side : Side) (front rest : List (Effect ε)) :
    readBy side (front ++ rest) = readBy side front ++ readBy side rest :=
  List.flatMap_append

theorem wroteBy_append (side : Side) (front rest : List (Effect ε)) :
    wroteBy side (front ++ rest) = wroteBy side front ++ wroteBy side rest :=
  List.flatMap_append

theorem readBy_acts (side other : Side) (acts : List (Act ε)) :
    readBy side (acts.map (.act other)) =
      if other = side then acts.flatMap Act.readBytes else [] := by
  rw [readBy, List.flatMap_map]
  by_cases hside : other = side <;> simp [Effect.readBytes, hside]

theorem wroteBy_acts (side other : Side) (acts : List (Act ε)) :
    wroteBy side (acts.map (.act other)) =
      if other = side then acts.flatMap Act.wroteBytes else [] := by
  rw [wroteBy, List.flatMap_map]
  by_cases hside : other = side <;> simp [Effect.wroteBytes, hside]

theorem mem_acts {side other : Side} {how : Ended ε} {acts : List (Act ε)} :
    finishedAs side how ∈ acts.map (Effect.act other) ↔ other = side ∧ .finished how ∈ acts := by
  simp [finishedAs, and_comm]

theorem countP_acts (side : Side) (acts : List (Act ε)) :
    (acts.map (Effect.act side)).countP Effect.isInterrupt = 0 := by
  rw [List.countP_eq_zero]
  intro effect heffect
  obtain ⟨act, -, rfl⟩ := List.mem_map.mp heffect
  exact Bool.false_ne_true

theorem Announced.append {tail : List (Effect ε)} (h : Announced effects)
    (htail : .interrupt ∈ tail → ∃ side how, finishedAs side how ∈ effects) :
    Announced (effects ++ tail) := by
  intro front rest heq
  rcases List.append_eq_append_iff.mp heq with ⟨c, rfl, hc⟩ | ⟨c, rfl, hc⟩
  · obtain ⟨side, how, hmem⟩ := htail (by rw [hc]; simp)
    exact ⟨side, how, List.mem_append_left c hmem⟩
  · cases c with
    | nil =>
        obtain ⟨side, how, hmem⟩ := htail (by rw [← List.nil_append tail, ← hc]; simp)
        exact ⟨side, how, by simpa using hmem⟩
    | cons effect c =>
        obtain ⟨rfl, -⟩ := List.cons.inj hc
        exact h front c rfl

theorem copied_start : Copied [] (.start : Copies ε) where
  kept _ := ⟨[], rfl, fun _ => rfl⟩
  done _ := by simp [Copies.start]
  finished _ _ := by simp [Copies.start]
  polling _ h := by cases h
  interrupts := rfl
  order front rest h := by simp at h
  returned h := by cases h

/-- A step that leaves the directions as they are and does nothing. -/
theorem Copied.silent {next : Copies ε} (h : Copied effects s) (hphase : next.phase = s.phase)
    (hdone : next.done = s.done) (hfired : next.fired = s.fired)
    (hpc : ∀ side, next.pc = .polling side → s.done side = false) : Copied effects next where
  kept side := hphase ▸ h.kept side
  done side := by rw [hphase, hdone]; exact h.done side
  finished side how := by rw [hphase]; exact h.finished side how
  polling side hside := by rw [hdone]; exact hpc side hside
  interrupts := by rw [hfired]; exact h.interrupts
  order := h.order
  returned hreturned := by rw [hfired, hdone]; exact h.returned hreturned

theorem polling_pcBehind {done : Side → Bool} {side other : Side}
    (h : pcBehind done side = .polling other) : done other = false := by
  cases side with
  | ba => cases h
  | ab =>
      simp only [pcBehind, pcBehindAb] at h
      split at h
      · cases h
      · rename_i hdone
        obtain rfl := Pc.polling.inj h
        simpa using hdone

theorem polling_pcFirst {done : Side → Bool} {other : Side}
    (h : pcFirst done = .polling other) : done other = false := by
  unfold pcFirst at h
  split at h
  · have hbehind : pcBehind done .ab = .polling other := h
    exact polling_pcBehind hbehind
  · rename_i hdone
    obtain rfl := Pc.polling.inj h
    simpa using hdone

/-- The effects of a direction's own step. -/
theorem Copied.act {side : Side} {phase : Phase ε} {done : Bool} {acts : List (Act ε)} {pc : Pc}
    (h : Copied effects s) (hundone : s.done side = false)
    (hkept : Kept (readBy side effects ++ acts.flatMap Act.readBytes)
      (wroteBy side effects ++ acts.flatMap Act.wroteBytes) phase)
    (hdone : done = true ↔ ∃ how, phase = .ended how)
    (hsaid : ∀ how, .finished how ∈ acts ↔ phase = .ended how)
    (hpc : ∀ other, pc = .polling other → Function.update s.done side done other = false) :
    Copied (effects ++ acts.map (.act side))
      { s with
        phase := Function.update s.phase side phase
        done := Function.update s.done side done
        pc } where
  kept other := by
    rw [readBy_append, wroteBy_append, readBy_acts, wroteBy_acts]
    by_cases hother : side = other
    · subst hother
      simpa using hkept
    · simpa [hother, Function.update_of_ne (Ne.symm hother)] using h.kept other
  done other := by
    by_cases hother : other = side
    · subst hother
      simpa using hdone
    · simpa [Function.update_of_ne hother] using h.done other
  finished other how := by
    rw [List.mem_append, mem_acts, h.finished]
    by_cases hother : other = side
    · subst hother
      have hphase : s.phase other ≠ .ended how := by
        intro hended
        rw [(h.done other).mpr ⟨how, hended⟩] at hundone
        cases hundone
      simp [hphase, hsaid]
    · simp [Function.update_of_ne hother, Ne.symm hother]
  polling := hpc
  interrupts := by
    rw [List.countP_append, countP_acts]
    exact h.interrupts
  order := by
    refine h.order.append fun hmem => ?_
    obtain ⟨act, -, hact⟩ := List.mem_map.mp hmem
    cases hact
  returned := by
    intro hreturned
    rcases List.mem_append.mp hreturned with hold | hnew
    · rw [(h.returned hold).2 side] at hundone
      cases hundone
    · obtain ⟨act, -, hact⟩ := List.mem_map.mp hnew
      cases hact

theorem Copied.poll {side : Side} (h : Copied effects s) (hpc : s.pc = .polling side) (io : Io ε) :
    Copied (effects ++ (s.poll side io).2) (s.poll side io).1 := by
  have hundone := h.polling side hpc
  have hphase : ∀ how, s.phase side ≠ .ended how := by
    intro how hended
    rw [(h.done side).mpr ⟨how, hended⟩] at hundone
    cases hundone
  obtain ⟨hready, hsaid⟩ := copyInner_finished true (s.stop || s.pairStop) io hphase
  refine h.act hundone (copyInner_kept true _ io hphase (h.kept side)) ?_ hsaid ?_
  · rw [decide_eq_true_eq]
    exact hready
  · intro other hother
    split at hother
    · rename_i hrunning
      obtain rfl := Pc.polling.inj hother
      rw [Function.update_self, hrunning]
      rfl
    · exact polling_pcBehind hother

/-! Behind both directions there are no bytes and no ends, only the interrupt and the return. -/

theorem readBy_check (side : Side) : readBy side s.check.2 = [] := by
  simp only [Copies.check, readBy_append]
  split <;> split <;> rfl

theorem wroteBy_check (side : Side) : wroteBy side s.check.2 = [] := by
  simp only [Copies.check, wroteBy_append]
  split <;> split <;> rfl

theorem finishedAs_notMem_check (side : Side) (how : Ended ε) : finishedAs side how ∉ s.check.2 := by
  simp only [Copies.check, finishedAs, List.mem_append, not_or]
  constructor
  · split <;> simp
  · split <;> simp

theorem interrupt_mem_check (h : .interrupt ∈ s.check.2) : ∃ side, s.done side = true := by
  rcases List.mem_append.mp h with hfirst | hover
  · split at hfirst
    · rename_i hcond
      rcases (Bool.or_eq_true _ _).mp (Bool.and_eq_true_iff.mp hcond).1 with hdone | hdone
      · exact ⟨.ab, hdone⟩
      · exact ⟨.ba, hdone⟩
    · cases hfirst
  · split at hover
    · simp at hover
    · cases hover

theorem returned_mem_check (h : .returned ∈ s.check.2) : ∀ side, s.done side = true := by
  have hboth : s.done .ab = true ∧ s.done .ba = true := by
    rcases List.mem_append.mp h with hfirst | hover
    · split at hfirst
      · simp at hfirst
      · cases hfirst
    · split at hover
      · rename_i hcond
        exact Bool.and_eq_true_iff.mp hcond
      · cases hover
  intro side
  cases side with
  | ab => exact hboth.1
  | ba => exact hboth.2

theorem fired_check : s.check.1.fired = (s.fired || s.done .ab || s.done .ba) := by
  simp only [Copies.check]
  cases s.fired <;> simp

/-- The interrupt is called when the flag is set. -/
theorem countP_check (hcount : effects.countP Effect.isInterrupt = if s.fired then 1 else 0) :
    (effects ++ s.check.2).countP Effect.isInterrupt = if s.check.1.fired then 1 else 0 := by
  have hover : List.countP Effect.isInterrupt
      (if (s.done .ab && s.done .ba) = true then [(.returned : Effect ε)] else []) = 0 := by
    split <;> rfl
  simp only [Copies.check]
  rw [List.countP_append, List.countP_append, hover, hcount]
  by_cases hfired : s.fired = true
  · simp [hfired]
  · by_cases hfirst : (s.done .ab || s.done .ba) = true
    · simp [hfired, hfirst, Effect.isInterrupt]
    · simp [hfired, hfirst]

theorem Copied.check (h : Copied effects s) : Copied (effects ++ s.check.2) s.check.1 where
  kept side := by
    rw [readBy_append, wroteBy_append, readBy_check, wroteBy_check, List.append_nil, List.append_nil]
    exact h.kept side
  done := h.done
  finished side how := by
    rw [List.mem_append, or_iff_left (finishedAs_notMem_check side how)]
    exact h.finished side how
  polling side hside := by
    simp only [Copies.check] at hside
    split at hside <;> cases hside
  interrupts := countP_check h.interrupts
  order := by
    refine h.order.append fun hmem => ?_
    obtain ⟨side, hdone⟩ := interrupt_mem_check hmem
    obtain ⟨how, hended⟩ := (h.done side).mp hdone
    exact ⟨side, how, (h.finished side how).mpr hended⟩
  returned hreturned := by
    rcases List.mem_append.mp hreturned with hold | hnew
    · obtain ⟨hfired, hdone⟩ := h.returned hold
      exact ⟨by simp [fired_check, hfired], hdone⟩
    · have hdone := returned_mem_check hnew
      exact ⟨by simp [fired_check, hdone], hdone⟩

theorem Copied.step (h : Copied effects s) (event : Event ε) :
    Copied (effects ++ (bidirectionalCopy s event).2) (bidirectionalCopy s event).1 := by
  have hsame : ∀ {next : Copies ε}, Copied effects next → Copied (effects ++ []) next := by
    intro next hnext
    rw [List.append_nil]
    exact hnext
  cases event with
  | fire => exact hsame (h.silent rfl rfl rfl h.polling)
  | advance io =>
      simp only [bidirectionalCopy]
      split
      · exact hsame (h.silent rfl rfl rfl fun side => polling_pcFirst)
      · rename_i side hpc
        exact h.poll hpc io
      · exact h.check
      · exact hsame h

/-! ### Runs -/

variable {history : List (Machine.Record (Copies ε) (Event ε) (Effect ε))} {now : Nat}

theorem copied_of_run (hrun : (machine ε).Run history s now) :
    Copied (history.flatMap (·.sent)) s := by
  refine hrun.inv (G := fun _ _ => True) (I := fun history s _ => Copied (history.flatMap (·.sent)) s)
    ?_ ?_ fun _ _ => trivial
  · exact copied_start
  · intro history s now event _ _ _ h
    rw [List.flatMap_append, List.flatMap_singleton]
    exact h.step event

theorem Kept.isPrefix (h : Kept read wrote phase) : wrote <+: read := by
  obtain ⟨lost, rfl, -⟩ := h
  rw [List.append_assoc]
  exact List.prefix_append wrote _

/-- **Copying both ways loses, repeats and moves no byte.** At every point of every run each sink has
the front of what was read from the other side's source, and the interrupt was called at most once and
behind the end of a direction. When the copy has returned, both directions have finished, those that
met the end of input or were stopped have written all they read, and the interrupt was called. -/
theorem bidirectionalCopy_conserves (hrun : (machine ε).Run history s now) :
    let effects := history.flatMap (·.sent)
    (∀ side, wroteBy side effects <+: readBy side effects) ∧
      Announced effects ∧ effects.countP Effect.isInterrupt ≤ 1 ∧
      (.returned ∈ effects →
        effects.countP Effect.isInterrupt = 1 ∧
        (∀ side, ∃ how, finishedAs side how ∈ effects) ∧
        ∀ side how, finishedAs side how ∈ effects → (∀ error, how ≠ .failed error) →
          wroteBy side effects = readBy side effects) := by
  intro effects
  have h := copied_of_run hrun
  refine ⟨fun side => (h.kept side).isPrefix, h.order, ?_, fun hreturned => ?_⟩
  · rw [h.interrupts]
    split <;> omega
  · obtain ⟨hfired, hdone⟩ := h.returned hreturned
    refine ⟨by rw [h.interrupts, if_pos hfired], fun side => ?_, fun side how hfinished hclean => ?_⟩
    · obtain ⟨how, hended⟩ := (h.done side).mp (hdone side)
      exact ⟨how, (h.finished side how).mpr hended⟩
    · have hended := (h.finished side how).mp hfinished
      have hrunning : ¬ (s.phase side).Failed := by
        rw [hended]
        rintro ⟨error, herror⟩
        exact hclean error (Phase.ended.inj herror)
      have hread := (h.kept side).eq_of_running hrunning
      rw [hended] at hread
      exact (hread.trans (List.append_nil _)).symm

/-- A source with two bytes at a time, and a sink that takes one. -/
def slowSink : Event Unit := .advance ⟨.ready (ascii "xy"), .took 1⟩

/-- The token fires between the two bytes of the first chunk. -/
def stoppedBetween : List (Event Unit) :=
  List.replicate 4 slowSink ++ .fire :: List.replicate 8 slowSink

/-- The second byte is still written. -/
theorem bidirectionalCopy_conserves_stopped :
    let effects := ((machine Unit).trace .start stoppedBetween).flatMap (·.sent)
    .returned ∈ effects ∧ readBy .ab effects = ascii "xy" ∧ wroteBy .ab effects = ascii "xy" ∧
      effects.countP Effect.isInterrupt = 1 := by
  intro effects
  have hordered : (machine Unit).Ordered 0 stoppedBetween := by decide
  obtain ⟨-, -, -, hreturned⟩ := bidirectionalCopy_conserves ((machine Unit).run_exec hordered)
  have hmem : .returned ∈ effects := by decide
  have hread : readBy .ab effects = ascii "xy" := by decide
  have hstopped : finishedAs .ab .stopped ∈ effects := by decide
  obtain ⟨honce, -, hall⟩ := hreturned hmem
  have hwrote : wroteBy .ab effects = readBy .ab effects :=
    hall .ab .stopped hstopped fun error herror => by cases herror
  exact ⟨hmem, hread, hwrote.trans hread, honce⟩

end Qvole.Copy
