import Qvole.Pipe.Proof.HalfClose

/-!
# The peer's stream gets through

From wherever a run has come, the bridge returns with all that the peer still sends, once everything
but standard input is ready; standard input may say nothing any more.
-/

namespace Qvole.Pipe

open Copy (Phase Act Io Ended ReadAnswer copyInner)
open Log (Behind)

variable {ε : Type}

/-! ### Going on -/

structure CleanPipeIo (io : PipeIo ε) : Prop where
  answers : CleanIo io.toIo
  shutdown : ∀ error, io.shutdown ≠ .failed error

/-- Polls without errors lead from one state to another, with these effects. -/
inductive Leads : Pipes ε → List (PipeEffect ε) → Pipes ε → Prop
  | refl (s) : Leads s [] s
  | step {s next more s'} (io : PipeIo ε) (hio : CleanPipeIo io)
      (hstep : startStdinPipe s (.advance io) = next) (h : Leads next.1 more s') :
      Leads s (next.2 ++ more) s'

/-- Standard input gives no byte and does not end. -/
def Silent (effects : List (PipeEffect ε)) : Prop :=
  readFrom .stdin effects = [] ∧ endedAs .stdin .eof ∉ effects

/-- Nothing is pending but the read, and the sink takes `n` bytes. -/
def readyIo (n : Nat) : PipeIo ε := { read := .pending, write := .took n, shutdown := .done }

/-- As `readyIo`, with bytes to read. -/
def givingIo (b : Bytes) : PipeIo ε := { read := .ready b, write := .took 1, shutdown := .done }

variable {s s' s'' : Pipes ε} {effects more rest : List (PipeEffect ε)}

theorem cleanPipeIo_readyIo {n : Nat} (hn : n ≠ 0) : CleanPipeIo (readyIo n : PipeIo ε) :=
  ⟨⟨by simp [readyIo], by simp [readyIo], by simpa [readyIo] using hn⟩, by simp [readyIo]⟩

theorem cleanPipeIo_givingIo (b : Bytes) : CleanPipeIo (givingIo b : PipeIo ε) :=
  ⟨⟨by simp [givingIo], by simp [givingIo], by simp [givingIo]⟩, by simp [givingIo]⟩

theorem Leads.trans (h : Leads s more s') (h' : Leads s' rest s'') : Leads s (more ++ rest) s'' := by
  induction h with
  | refl s => exact h'
  | step io hio hstep _ ih =>
      rw [List.append_assoc]
      exact .step io hio hstep (ih h')

theorem Leads.single {io : PipeIo ε} (hio : CleanPipeIo io) {next : Pipes ε × List (PipeEffect ε)}
    (hstep : startStdinPipe s (.advance io) = next) : Leads s next.2 next.1 := by
  have h := Leads.step io hio hstep (.refl next.1)
  rw [List.append_nil] at h
  exact h

theorem Leads.piped (h : Leads s more s') (hs : Piped effects s) : Piped (effects ++ more) s' := by
  induction h generalizing effects with
  | refl s =>
      rw [List.append_nil]
      exact hs
  | step io hio hstep _ ih =>
      rw [← List.append_assoc]
      apply ih
      rw [← hstep]
      exact hs.step ⟨hio.answers, hio.shutdown⟩

/-- As a run of the machine. -/
theorem Leads.exists_events (h : Leads s more s') :
    ∃ events, (∀ event ∈ events, CleanEvent event) ∧
      ((pipeMachine ε).trace s events).flatMap (·.sent) = more ∧ (pipeMachine ε).exec s events = s' := by
  induction h with
  | refl s => exact ⟨[], by simp, rfl, rfl⟩
  | step io hio hstep _ ih =>
      obtain ⟨events, hclean, htrace, hexec⟩ := ih
      refine ⟨.advance io :: events, ?_, ?_, ?_⟩
      · rw [List.forall_mem_cons]
        exact ⟨⟨hio.answers, hio.shutdown⟩, hclean⟩
      · rw [← htrace, ← hstep]
        rfl
      · rw [← hexec, ← hstep]
        rfl

theorem Silent.append (h : Silent more) (h' : Silent rest) : Silent (more ++ rest) := by
  refine ⟨?_, ?_⟩
  · rw [readFrom_append, h.1, h'.1]
    rfl
  · rw [List.mem_append, not_or]
    exact ⟨h.2, h'.2⟩

theorem silent_nil : Silent ([] : List (PipeEffect ε)) := ⟨rfl, by simp⟩

/-- On the way nothing is read. -/
structure Quietly (s : Pipes ε) (more : List (PipeEffect ε)) (s' : Pipes ε) : Prop where
  leads : Leads s more s'
  silent : Silent more
  readIn : readFrom .inbound more = []

theorem Quietly.refl (s : Pipes ε) : Quietly s [] s := ⟨.refl s, silent_nil, rfl⟩

theorem Quietly.trans (h : Quietly s more s') (h' : Quietly s' rest s'') :
    Quietly s (more ++ rest) s'' where
  leads := h.leads.trans h'.leads
  silent := h.silent.append h'.silent
  readIn := by rw [readFrom_append, h.readIn, h'.readIn]; rfl

theorem Quietly.single {io : PipeIo ε} (hio : CleanPipeIo io) {next : Pipes ε × List (PipeEffect ε)}
    (hstep : startStdinPipe s (.advance io) = next) (hsilent : Silent next.2)
    (hreadIn : readFrom .inbound next.2 = []) : Quietly s next.2 next.1 :=
  ⟨.single hio hstep, hsilent, hreadIn⟩

/-! ### A poll of the direction from standard input -/

/-- What a poll of that direction comes to: it is closed, or waits for input. -/
structure StdinPolled (s : Pipes ε) (more : List (PipeEffect ε)) (s' : Pipes ε) : Prop
    extends Quietly s more s' where
  pc : s'.pc = pcBehindStdin s.inboundDone
  stdinStop : s'.stdinStop = s.stdinStop
  inboundDone : s'.inboundDone = s.inboundDone
  stdin : s'.stdin = .closed ∨ s'.stdin = .copying .selecting

/-- A step that stays in the poll. -/
theorem StdinPolled.step {io : PipeIo ε} (hio : CleanPipeIo io)
    {next : Pipes ε × List (PipeEffect ε)} (hstep : startStdinPipe s (.advance io) = next)
    (hsilent : Silent next.2) (hreadIn : readFrom .inbound next.2 = [])
    (hstop : next.1.stdinStop = s.stdinStop) (hdone : next.1.inboundDone = s.inboundDone)
    (h : StdinPolled next.1 more s') : StdinPolled s (next.2 ++ more) s' where
  toQuietly := (Quietly.single hio hstep hsilent hreadIn).trans h.toQuietly
  pc := by rw [h.pc, hdone]
  stdinStop := by rw [h.stdinStop, hstop]
  inboundDone := by rw [h.inboundDone, hdone]
  stdin := h.stdin

theorem stdinPolled_closing (hpc : s.pc = .polling .stdin) (hstdin : s.stdin = .closing) :
    ∃ more s', StdinPolled s more s' ∧ s'.stdin = .closed := by
  have hstep : startStdinPipe s (.advance (readyIo 1)) =
      ({ s with stdin := .closed, stdinDone := true, pc := pcBehindStdin s.inboundDone }, []) := by
    simp [startStdinPipe, hpc, Pipes.pollStdin, hstdin, readyIo]
  have hquiet := Quietly.single (cleanPipeIo_readyIo (by simp)) hstep silent_nil rfl
  exact ⟨[], _, ⟨hquiet, rfl, rfl, rfl, Or.inl rfl⟩, rfl⟩

theorem stdinPolled_reading {phase : Phase ε} (hpc : s.pc = .polling .stdin)
    (hstdin : s.stdin = .copying phase) (hphase : phase = .reading ∨ phase = .yielding) :
    ∃ more s', StdinPolled s more s' := by
  have hstep : startStdinPipe s (.advance (readyIo 1)) =
      ({ s with stdin := .copying .selecting, pc := pcBehindStdin s.inboundDone }, []) := by
    rcases hphase with rfl | rfl <;>
      simp [startStdinPipe, hpc, Pipes.pollStdin, hstdin, Pipes.copyStdin, copyInner, readyIo]
  have hquiet := Quietly.single (cleanPipeIo_readyIo (by simp)) hstep silent_nil rfl
  exact ⟨[], _, hquiet, rfl, rfl, rfl, Or.inr rfl⟩

theorem stdinPolled_stopped (hpc : s.pc = .polling .stdin) (hstdin : s.stdin = .copying .selecting)
    (hstopped : (s.cancel || s.stdinStop) = true) :
    ∃ more s', StdinPolled s more s' ∧ s'.stdin = .closed := by
  have hstep : startStdinPipe s (.advance (readyIo 1)) =
      ({ s with stdin := .closing }, [endedAs .stdin .stopped, .shutdown]) := by
    simp [startStdinPipe, hpc, Pipes.pollStdin, hstdin, Pipes.copyStdin, copyInner, Copy.finish,
      hstopped, endedAs]
  have hsilent : Silent [endedAs .stdin .stopped, (.shutdown : PipeEffect ε)] :=
    ⟨rfl, by simp [endedAs]⟩
  obtain ⟨more, s', hpolled, hclosed⟩ :=
    stdinPolled_closing (s := { s with stdin := .closing }) hpc rfl
  exact ⟨_, s', .step (cleanPipeIo_readyIo (by simp)) hstep hsilent rfl rfl rfl hpolled, hclosed⟩

theorem stdinPolled_selecting (hpc : s.pc = .polling .stdin) (hstdin : s.stdin = .copying .selecting) :
    ∃ more s', StdinPolled s more s' := by
  by_cases hstopped : (s.cancel || s.stdinStop) = true
  · obtain ⟨more, s', hpolled, -⟩ := stdinPolled_stopped hpc hstdin hstopped
    exact ⟨more, s', hpolled⟩
  · have hstep : startStdinPipe s (.advance (readyIo 1)) =
        ({ s with stdin := .copying .reading }, []) := by
      simp [startStdinPipe, hpc, Pipes.pollStdin, hstdin, Pipes.copyStdin, copyInner, hstopped]
    obtain ⟨more, s', hpolled⟩ :=
      stdinPolled_reading (s := { s with stdin := .copying .reading }) hpc rfl (Or.inl rfl)
    exact ⟨_, s', .step (cleanPipeIo_readyIo (by simp)) hstep silent_nil rfl rfl rfl hpolled⟩

theorem stdinPolled_written (hpc : s.pc = .polling .stdin)
    (hstdin : s.stdin = .copying (.writing [])) : ∃ more s', StdinPolled s more s' := by
  have hstep : startStdinPipe s (.advance (readyIo 1)) =
      ({ s with stdin := .copying .selecting }, []) := by
    simp [startStdinPipe, hpc, Pipes.pollStdin, hstdin, Pipes.copyStdin, copyInner]
  obtain ⟨more, s', hpolled⟩ :=
    stdinPolled_selecting (s := { s with stdin := .copying .selecting }) hpc rfl
  exact ⟨_, s', .step (cleanPipeIo_readyIo (by simp)) hstep silent_nil rfl rfl rfl hpolled⟩

theorem stdinPolled_writing {b : Bytes} (hpc : s.pc = .polling .stdin)
    (hstdin : s.stdin = .copying (.writing b)) : ∃ more s', StdinPolled s more s' := by
  by_cases hb : b = []
  · subst hb
    exact stdinPolled_written hpc hstdin
  · have hlength : b.length ≠ 0 := by simpa using hb
    have hstep : startStdinPipe s (.advance (readyIo b.length)) =
        ({ s with stdin := .copying (.writing []) }, [.act .stdin (.wrote b)]) := by
      simp [startStdinPipe, hpc, Pipes.pollStdin, hstdin, Pipes.copyStdin, copyInner, readyIo, hb]
    have hsilent : Silent [(.act .stdin (.wrote b) : PipeEffect ε)] := ⟨rfl, by simp [endedAs]⟩
    obtain ⟨more, s', hpolled⟩ :=
      stdinPolled_written (s := { s with stdin := .copying (.writing []) }) hpc rfl
    exact ⟨_, s', .step (cleanPipeIo_readyIo hlength) hstep hsilent rfl rfl rfl hpolled⟩

theorem Piped.exists_stdinPolled (h : Piped effects s) (hpc : s.pc = .polling .stdin) :
    ∃ more s', StdinPolled s more s' := by
  cases hstdin : s.stdin with
  | closed =>
      have hundone := h.polling hpc
      rw [h.outbound.done.mpr hstdin] at hundone
      cases hundone
  | closing =>
      obtain ⟨more, s', hpolled, -⟩ := stdinPolled_closing hpc hstdin
      exact ⟨more, s', hpolled⟩
  | copying phase =>
      cases phase with
      | selecting => exact stdinPolled_selecting hpc hstdin
      | reading => exact stdinPolled_reading hpc hstdin (Or.inl rfl)
      | yielding => exact stdinPolled_reading hpc hstdin (Or.inr rfl)
      | writing b => exact stdinPolled_writing hpc hstdin
      | ended how => exact absurd rfl (h.outbound.live _ hstdin how)

/-! ### Up to the other direction -/

theorem silent_check (s : Pipes ε) : Silent s.check.2 :=
  ⟨by rw [readFrom, actsOf_check]; rfl, notMem_check s .stdin (.finished .eof)⟩

theorem Piped.exists_inbound_of_idle (h : Piped effects s) (hpc : s.pc = .idle)
    (hdone : s.inboundDone = false) :
    ∃ more s', Quietly s more s' ∧ s'.pc = .polling .inbound ∧ s'.inboundDone = false := by
  cases hstdin : s.stdinDone with
  | true =>
      have hstep : startStdinPipe s (.advance (readyIo 1)) =
          ({ s with pc := .polling .inbound }, []) := by
        simp [startStdinPipe, hpc, hstdin, hdone, pcBehindStdin]
      exact ⟨[], _, .single (cleanPipeIo_readyIo (by simp)) hstep silent_nil rfl, rfl, hdone⟩
  | false =>
      have hstep : startStdinPipe s (.advance (readyIo 1)) =
          ({ s with pc := .polling .stdin }, []) := by
        simp [startStdinPipe, hpc, hstdin]
      have hquiet := Quietly.single (cleanPipeIo_readyIo (by simp)) hstep silent_nil rfl
      obtain ⟨more, s', hpolled⟩ := (hquiet.leads.piped h).exists_stdinPolled rfl
      have hpc' := hpolled.pc
      rw [pcBehindStdin, hdone] at hpc'
      exact ⟨_, s', hquiet.trans hpolled.toQuietly, hpc', hpolled.inboundDone.trans hdone⟩

/-- The direction to standard output gets its turn. -/
theorem Piped.exists_inbound (h : Piped effects s) (hdone : s.inboundDone = false) :
    ∃ more s', Quietly s more s' ∧ s'.pc = .polling .inbound ∧ s'.inboundDone = false := by
  cases hpc : s.pc with
  | idle => exact h.exists_inbound_of_idle hpc hdone
  | polling dir =>
      cases dir with
      | stdin =>
          obtain ⟨more, s', hpolled⟩ := h.exists_stdinPolled hpc
          have hpc' := hpolled.pc
          rw [pcBehindStdin, hdone] at hpc'
          exact ⟨more, s', hpolled.toQuietly, hpc', hpolled.inboundDone.trans hdone⟩
      | inbound => exact ⟨[], s, .refl s, hpc, hdone⟩
  | checking =>
      have hstep : startStdinPipe s (.advance (readyIo 1)) = s.check := by
        simp [startStdinPipe, hpc]
      have hquiet := Quietly.single (cleanPipeIo_readyIo (by simp)) hstep (silent_check s)
        (by rw [readFrom, actsOf_check]; rfl)
      have hidle : s.check.1.pc = .idle := by simp [Pipes.check, hdone]
      obtain ⟨more, s', hrest, hpc', hdone'⟩ :=
        (hquiet.leads.piped h).exists_inbound_of_idle hidle hdone
      exact ⟨_, s', hquiet.trans hrest, hpc', hdone'⟩
  | returned =>
      rw [h.atReturn hpc] at hdone
      cases hdone

/-! ### The peer's stream -/

/-- In one poll of that direction the rest of the stream is read, and it is at its end. -/
structure InboundRead (s : Pipes ε) (chunks : List Bytes) (more : List (PipeEffect ε))
    (s' : Pipes ε) : Prop where
  leads : Leads s more s'
  silent : Silent more
  readIn : readFrom .inbound more = chunks.flatten
  pc : s'.pc = .checking
  inboundDone : s'.inboundDone = true

structure AtInbound (s : Pipes ε) (phase : Phase ε) : Prop where
  pc : s.pc = .polling .inbound
  cancel : s.cancel = false
  inbound : s.inbound = phase

theorem silent_inbound (acts : List (Act ε)) : Silent (acts.map (PipeEffect.act .inbound)) := by
  refine ⟨by rw [readFrom_acts, if_neg (by decide)], ?_⟩
  rw [endedAs_mem_acts]
  simp

/-- A step that stays in the poll. -/
theorem AtInbound.step {phase next : Phase ε} {acts : List (Act ε)} {io : PipeIo ε}
    {chunks later : List Bytes} (hs : AtInbound s phase) (hio : CleanPipeIo io)
    (hcopy : copyInner false false io.toIo phase = (next, .running, acts))
    (hread : acts.flatMap Act.readBytes ++ later.flatten = chunks.flatten)
    (h : ∀ s' : Pipes ε, AtInbound s' next → ∃ more s'', InboundRead s' later more s'') :
    ∃ more s', InboundRead s chunks more s' := by
  have hstep : startStdinPipe s (.advance io) =
      ({ s with inbound := next, inboundDone := false, pc := .polling .inbound },
        acts.map (.act .inbound)) := by
    simp [startStdinPipe, hs.pc, Pipes.pollInbound, hs.cancel, hs.inbound, hcopy]
  obtain ⟨more, s', hmore⟩ := h { s with inbound := next, inboundDone := false, pc := .polling .inbound }
    ⟨rfl, hs.cancel, rfl⟩
  refine ⟨_, s', .step io hio hstep hmore.leads, (silent_inbound acts).append hmore.silent, ?_,
    hmore.pc, hmore.inboundDone⟩
  rw [readFrom_append, readFrom_acts, if_pos rfl, hmore.readIn]
  exact hread

theorem AtInbound.selecting {chunks : List Bytes}
    (h : ∀ s : Pipes ε, AtInbound s .reading → ∃ more s', InboundRead s chunks more s')
    (hs : AtInbound s .selecting) : ∃ more s', InboundRead s chunks more s' := by
  exact hs.step (cleanPipeIo_givingIo []) rfl rfl h

theorem AtInbound.writing {chunks : List Bytes} {b : Bytes}
    (h : ∀ s : Pipes ε, AtInbound s .reading → ∃ more s', InboundRead s chunks more s')
    (hs : AtInbound s (.writing b)) : ∃ more s', InboundRead s chunks more s' := by
  have hwritten : ∀ s : Pipes ε, AtInbound s (.writing []) →
      ∃ more s', InboundRead s chunks more s' := by
    intro s hs
    exact hs.step (cleanPipeIo_givingIo []) rfl rfl fun s' hs' => hs'.selecting h
  by_cases hb : b = []
  · subst hb
    exact hwritten s hs
  · have hlength : b.length ≠ 0 := by simpa using hb
    have hcopy : copyInner false false (readyIo b.length : PipeIo ε).toIo (.writing b) =
        (.writing [], .running, [.wrote b]) := by
      simp [copyInner, readyIo, hb]
    exact hs.step (cleanPipeIo_readyIo hlength) hcopy rfl hwritten

theorem AtInbound.reading {chunks : List Bytes} (hchunks : ∀ b ∈ chunks, b ≠ []) :
    ∀ s : Pipes ε, AtInbound s .reading → ∃ more s', InboundRead s chunks more s' := by
  induction chunks with
  | nil =>
      intro s hs
      have hstep : startStdinPipe s (.advance (givingIo [])) =
          ({ s with inbound := .ended .eof, inboundDone := true, pc := .checking },
            [.act .inbound (.finished .eof)]) := by
        simp [startStdinPipe, hs.pc, Pipes.pollInbound, hs.cancel, hs.inbound, copyInner, Copy.finish,
          givingIo]
      refine ⟨_, _, .single (cleanPipeIo_givingIo []) hstep, ?_, rfl, rfl, rfl⟩
      exact silent_inbound [.finished .eof]
  | cons b chunks ih =>
      intro s hs
      rw [List.forall_mem_cons] at hchunks
      obtain ⟨hb, hchunks⟩ := hchunks
      have hcopy : copyInner false false (givingIo b : PipeIo ε).toIo .reading =
          (.writing b, .running, [.read b]) := by
        simp [copyInner, givingIo, hb]
      refine hs.step (cleanPipeIo_givingIo b) hcopy ?_ fun s' hs' => hs'.writing (ih hchunks)
      rw [List.flatten_cons]
      simp [Act.readBytes]

/-- From anywhere in a poll of that direction. -/
theorem Piped.exists_inboundRead (h : Piped effects s) (hpc : s.pc = .polling .inbound)
    {chunks : List Bytes} (hchunks : ∀ b ∈ chunks, b ≠ []) :
    ∃ more s', InboundRead s chunks more s' := by
  have hread := AtInbound.reading (ε := ε) hchunks
  cases hphase : s.inbound with
  | selecting => exact AtInbound.selecting hread ⟨hpc, h.cancel, hphase⟩
  | reading => exact hread s ⟨hpc, h.cancel, hphase⟩
  | writing b => exact AtInbound.writing hread ⟨hpc, h.cancel, hphase⟩
  | yielding => exact absurd hphase h.inbound.awake
  | ended how =>
      have hundone := h.pollingIn hpc
      rw [h.inbound.done.mpr ⟨how, hphase⟩] at hundone
      cases hundone

/-! ### The return -/

theorem exists_returned (hpc : s.pc = .checking) (hinbound : s.inboundDone = true)
    (hstdin : s.stdinDone = true) : ∃ more s', Quietly s more s' ∧ .returned ∈ more := by
  have hstep : startStdinPipe s (.advance (readyIo 1)) = s.check := by simp [startStdinPipe, hpc]
  refine ⟨_, _, .single (cleanPipeIo_readyIo (by simp)) hstep (silent_check s) ?_, ?_⟩
  · rw [readFrom, actsOf_check]
    rfl
  · simp [Pipes.check, hinbound, hstdin]

/-- Behind the end of the peer's stream, standard input is told to stop and polled once more. -/
theorem exists_stopped (hpc : s.pc = .checking) (hinbound : s.inboundDone = true)
    (hstdin : s.stdinDone = false) :
    ∃ more s', Quietly s more s' ∧ s'.pc = .polling .stdin ∧ s'.stdin = s.stdin ∧
      s'.stdinStop = true ∧ s'.inboundDone = true := by
  have hcheck : startStdinPipe s (.advance (readyIo 1)) = s.check := by simp [startStdinPipe, hpc]
  have hturn : startStdinPipe s.check.1 (.advance (readyIo 1)) =
      ({ s.check.1 with pc := .polling .stdin }, []) := by
    simp [startStdinPipe, Pipes.check, hinbound, hstdin]
  have hread : readFrom .inbound s.check.2 = [] := by
    rw [readFrom, actsOf_check]
    rfl
  have hquiet := Quietly.single (cleanPipeIo_readyIo (by simp)) hcheck (silent_check s) hread
  have hquiet' := Quietly.single (cleanPipeIo_readyIo (by simp)) hturn silent_nil rfl
  refine ⟨_, _, hquiet.trans hquiet', rfl, rfl, ?_, hinbound⟩
  simp [Pipes.check, hinbound, hstdin]

theorem Piped.returns (h : Piped effects s) (hpc : s.pc = .checking) (hinbound : s.inboundDone = true) :
    ∃ more s', Quietly s more s' ∧ .returned ∈ more := by
  cases hstdin : s.stdinDone with
  | true => exact exists_returned hpc hinbound hstdin
  | false =>
      obtain ⟨more, s₁, hquiet, hpc₁, -, -, hinbound₁⟩ := exists_stopped hpc hinbound hstdin
      have h₁ := hquiet.leads.piped h
      obtain ⟨more₂, s₂, hpolled⟩ := h₁.exists_stdinPolled hpc₁
      have h₂ := hpolled.leads.piped h₁
      have hinbound₂ := hpolled.inboundDone.trans hinbound₁
      have hpc₂ : s₂.pc = .checking := by rw [hpolled.pc, pcBehindStdin, hinbound₁, if_pos rfl]
      have hquiet₂ := hquiet.trans hpolled.toQuietly
      rcases hpolled.stdin with hclosed | hselecting
      · obtain ⟨rest, s₃, hrest, hreturned⟩ :=
          exists_returned hpc₂ hinbound₂ (h₂.outbound.done.mpr hclosed)
        exact ⟨_, s₃, hquiet₂.trans hrest, List.mem_append_right _ hreturned⟩
      · -- the poll began before the stop, and waits at the token now
        have hstdin₂ : s₂.stdinDone = false := by
          rw [Bool.eq_false_iff]
          intro hdone
          rw [h₂.outbound.done.mp hdone] at hselecting
          cases hselecting
        obtain ⟨more₃, s₃, hquiet₃, hpc₃, hstdin₃, hstop₃, hinbound₃⟩ :=
          exists_stopped hpc₂ hinbound₂ hstdin₂
        obtain ⟨more₄, s₄, hpolled₄, hclosed⟩ := stdinPolled_stopped hpc₃ (hstdin₃.trans hselecting)
          (by rw [hstop₃, Bool.or_true])
        have hquiet₄ := hquiet₂.trans (hquiet₃.trans hpolled₄.toQuietly)
        have hpc₄ : s₄.pc = .checking := by rw [hpolled₄.pc, pcBehindStdin, hinbound₃, if_pos rfl]
        have h₄ := hquiet₄.leads.piped h
        obtain ⟨rest, s₅, hrest, hreturned⟩ := exists_returned hpc₄
          (hpolled₄.inboundDone.trans hinbound₃) (h₄.outbound.done.mpr hclosed)
        exact ⟨_, s₅, hquiet₄.trans hrest, List.mem_append_right _ hreturned⟩

/-- **Progress.** While the peer's stream goes on, whatever it still sends, the bridge gets to its end
and returns, with standard input silent. -/
theorem Piped.finishes (h : Piped effects s) (hdone : s.inboundDone = false) {chunks : List Bytes}
    (hchunks : ∀ b ∈ chunks, b ≠ []) :
    ∃ more s', Leads s more s' ∧ Silent more ∧ readFrom .inbound more = chunks.flatten ∧
      .returned ∈ more := by
  obtain ⟨more₁, s₁, hquiet, hpc₁, -⟩ := h.exists_inbound hdone
  have h₁ := hquiet.leads.piped h
  obtain ⟨more₂, s₂, hread⟩ := h₁.exists_inboundRead hpc₁ hchunks
  obtain ⟨more₃, s₃, hrest, hreturned⟩ := (hread.leads.piped h₁).returns hread.pc hread.inboundDone
  refine ⟨more₁ ++ (more₂ ++ more₃), s₃, hquiet.leads.trans (hread.leads.trans hrest.leads),
    hquiet.silent.append (hread.silent.append hrest.silent), ?_, ?_⟩
  · rw [readFrom_append, readFrom_append, hquiet.readIn, hread.readIn, hrest.readIn]
    simp
  · exact List.mem_append_right _ (List.mem_append_right _ hreturned)

/-! ### Whole runs -/

variable {history : List (Machine.Record (Pipes ε) (PipeEvent ε) (PipeEffect ε))} {now : Nat}

theorem piped_of_run (hrun : (pipeMachine ε).Run history s now)
    (hclean : ∀ r ∈ history, CleanEvent r.event) : Piped (history.flatMap (·.sent)) s := by
  refine hrun.inv (G := fun _ event => CleanEvent event)
    (I := fun history s _ => Piped (history.flatMap (·.sent)) s) ?_ ?_ hclean
  · exact piped_start
  · intro history s now event _ _ hevent h
    rw [List.flatMap_append, List.flatMap_singleton]
    exact h.step hevent

theorem Piped.inbound_written (h : Piped effects s) {how : Ended ε}
    (hended : endedAs .inbound how ∈ effects) :
    how = .eof ∧ writtenTo .inbound effects = readFrom .inbound effects := by
  have hphase := (h.inbound.finished how).mp (endedAs_mem.mp hended)
  refine ⟨h.inbound.eof how hphase, ?_⟩
  have hbytes := h.inbound.bytes
  rw [hphase] at hbytes
  exact (hbytes.trans (List.append_nil _)).symm

theorem Piped.of_returned (h : Piped effects s) (hreturned : .returned ∈ effects) :
    endedAs .inbound .eof ∈ effects ∧ effects.countP PipeEffect.isShutdown = 1 ∧
      effects.countP PipeEffect.isCloseStdin = 1 := by
  obtain ⟨hfired, hstdin, hinbound⟩ := h.returned hreturned
  refine ⟨h.peerEnded hinbound, ?_, ?_⟩
  · rw [h.shutDown.count, h.outbound.done.mp hstdin]
    rfl
  · rw [h.closes, if_pos hfired]

/-- **Half-close.** In every run without cancellation and errors, what the peer sends is written to
standard output in order, and all of it when that direction ends, which it does at the end of the
peer's stream only; standard input is copied up to its end, unless the peer's stream has ended
before; the stream is shut down at most once, behind the last byte of standard input, and standard
input is closed at most once. The bridge returns behind the end of the peer's stream, having done
both. From every state before that end it does return, with whatever the peer still sends written to
standard output, also when standard input gives nothing and does not end. -/
theorem startStdinPipe_half_close (hrun : (pipeMachine ε).Run history s now)
    (hclean : ∀ r ∈ history, CleanEvent r.event) :
    let effects := history.flatMap (·.sent)
    writtenTo .inbound effects <+: readFrom .inbound effects ∧
      (∀ how, endedAs .inbound how ∈ effects →
        how = .eof ∧ writtenTo .inbound effects = readFrom .inbound effects) ∧
      writtenTo .stdin effects <+: readFrom .stdin effects ∧
      Behind (· = .shutdown) StdinWritten effects ∧
      Behind ActsOnStdin (.shutdown ∉ ·) effects ∧
      effects.countP PipeEffect.isShutdown ≤ 1 ∧
      (∀ how, endedAs .stdin how ∈ effects → how = .eof ∨ how = .stopped) ∧
      Behind StopsStdin PeerEnded effects ∧
      effects.countP PipeEffect.isCloseStdin ≤ 1 ∧
      (.returned ∈ effects →
        endedAs .inbound .eof ∈ effects ∧ effects.countP PipeEffect.isShutdown = 1 ∧
          effects.countP PipeEffect.isCloseStdin = 1) ∧
      ((∀ how, endedAs .inbound how ∉ effects) → ∀ chunks : List Bytes, (∀ b ∈ chunks, b ≠ []) →
        ∃ events, (∀ event ∈ events, CleanEvent event) ∧
          let more := ((pipeMachine ε).trace s events).flatMap (·.sent)
          Silent more ∧ readFrom .inbound more = chunks.flatten ∧ .returned ∈ more ∧
            writtenTo .inbound (effects ++ more) = readFrom .inbound effects ++ chunks.flatten) := by
  intro effects
  have h : Piped effects s := piped_of_run hrun hclean
  refine ⟨?_, fun how hended => h.inbound_written hended, ?_, h.shutDown.last, h.shutDown.behind, ?_,
    fun how hended => h.outbound.finished how (endedAs_mem.mp hended), h.stops, ?_, h.of_returned,
    fun hlive chunks hchunks => ?_⟩
  · rw [readFrom, h.inbound.bytes]
    exact List.prefix_append _ _
  · rw [readFrom, h.outbound.bytes]
    exact List.prefix_append _ _
  · rw [h.shutDown.count]
    split <;> omega
  · rw [h.closes]
    split <;> omega
  · have hdone : s.inboundDone = false := by
      rw [Bool.eq_false_iff]
      intro hdone
      obtain ⟨how, hended⟩ := h.inbound.done.mp hdone
      exact hlive how (endedAs_mem.mpr ((h.inbound.finished how).mpr hended))
    obtain ⟨more, s', hleads, hsilent, hread, hreturned⟩ := h.finishes hdone hchunks
    obtain ⟨events, hevents, hmore, -⟩ := hleads.exists_events
    have h' := hleads.piped h
    obtain ⟨heof, -⟩ := h'.of_returned (List.mem_append_right _ hreturned)
    refine ⟨events, hevents, ?_⟩
    rw [hmore]
    refine ⟨hsilent, hread, hreturned, ?_⟩
    rw [(h'.inbound_written heof).2, readFrom_append, hread]

/-- A poll that reads this, with a sink that takes one byte. -/
def oneByteSink (read : ReadAnswer Unit) : PipeEvent Unit :=
  .advance { read, write := .took 1, shutdown := .done }

/-- Standard input ends at once, the peer sends two bytes behind that and then ends. -/
def endsFirst : List (PipeEvent Unit) :=
  [.pending, .pending, .ready [], .pending, .pending, .pending, .pending, .pending, .pending,
    .ready (ascii "xy"), .pending, .pending, .pending, .pending, .ready [], .pending].map oneByteSink

theorem cleanEvent_endsFirst : ∀ event ∈ endsFirst, CleanEvent event := by
  intro event hevent
  obtain ⟨read, hread, rfl⟩ := List.mem_map.mp hevent
  refine ⟨⟨fun error herror => ?_, by simp, by simp⟩, by simp⟩
  simp only at herror
  subst herror
  simp at hread

/-- The two bytes are written to standard output. -/
theorem startStdinPipe_half_close_endsFirst :
    let effects := ((pipeMachine Unit).trace .start endsFirst).flatMap (·.sent)
    .returned ∈ effects ∧ writtenTo .inbound effects = ascii "xy" ∧
      effects.countP PipeEffect.isShutdown = 1 ∧ effects.countP PipeEffect.isCloseStdin = 1 := by
  intro effects
  have hordered : (pipeMachine Unit).Ordered 0 endsFirst := by decide
  have hclean : ∀ r ∈ (pipeMachine Unit).trace .start endsFirst, CleanEvent r.event :=
    fun r hr => cleanEvent_endsFirst r.event (Machine.event_mem_of_mem_trace hr)
  obtain ⟨-, hall, -, -, -, -, -, -, -, hreturned, -⟩ :=
    startStdinPipe_half_close ((pipeMachine Unit).run_exec hordered) hclean
  have hmem : .returned ∈ effects := by decide
  obtain ⟨heof, hshutdown, hclose⟩ := hreturned hmem
  have hread : readFrom .inbound effects = ascii "xy" := by decide
  exact ⟨hmem, (hall .eof heof).2.trans hread, hshutdown, hclose⟩

end Qvole.Pipe
