import Qvole.Copy.Proof.Bytes
import Qvole.Lib.Log
import Qvole.Pipe.Stdin

/-!
# Half-close

While nothing is canceled and nothing fails, the direction to standard output ends at the end of the
peer's stream and nowhere else, the direction from standard input is stopped only behind that, the
stream is shut down once and behind the last byte, and standard input is closed once.
-/

namespace Qvole.Pipe

open Copy (Phase Act Io Ended ReadAnswer WriteAnswer copyInner copyInner_cases copyInner_finished)
open Log (Behind behind_nil)

variable {ε : Type}

/-! ### Steps without errors -/

/-- No answer is an error, and the sink takes something. -/
structure CleanIo (io : Io ε) : Prop where
  read : ∀ error, io.read ≠ .failed error
  write : ∀ error, io.write ≠ .failed error
  took : io.write ≠ .took 0

def CleanEvent : PipeEvent ε → Prop
  | .cancel => False
  | .advance io => CleanIo io.toIo ∧ ∀ error, io.shutdown ≠ .failed error

/-- Without errors a copy ends at the end of input, or because it was stopped. -/
theorem ended_of_clean {phase : Phase ε} {interleave stopped : Bool} {io : Io ε} (hio : CleanIo io)
    (hphase : ∀ how, phase ≠ .ended how) {how : Ended ε}
    (h : (copyInner interleave stopped io phase).1 = .ended how) :
    phase.unwritten = [] ∧ (how = .eof ∨ how = .stopped ∧ stopped = true) := by
  cases phase with
  | selecting =>
      simp only [copyInner] at h
      split at h
      · rename_i hstopped
        cases h
        exact ⟨rfl, Or.inr ⟨rfl, hstopped⟩⟩
      · cases h
  | reading =>
      simp only [copyInner] at h
      split at h
      · cases h
      · split at h
        · cases h
          exact ⟨rfl, Or.inl rfl⟩
        · cases h
      · rename_i error hread
        exact absurd hread (hio.read error)
  | writing rest =>
      simp only [copyInner] at h
      split at h
      · split at h <;> cases h
      · split at h
        · cases h
        · rename_i n hwrite
          split at h
          · rename_i hn
            exact absurd (hn ▸ hwrite) hio.took
          · cases h
        · rename_i error hwrite
          exact absurd hwrite (hio.write error)
  | yielding => cases h
  | ended how => exact absurd rfl (hphase how)

/-- The step that ends a copy does nothing else. -/
theorem acts_of_ended {phase : Phase ε} (interleave stopped : Bool) (io : Io ε)
    (hphase : ∀ how, phase ≠ .ended how) (how : Ended ε)
    (h : (copyInner interleave stopped io phase).1 = .ended how) :
    (copyInner interleave stopped io phase).2.2 = [.finished how] := by
  rcases copyInner_cases interleave stopped io hphase with ⟨how', hnext, -⟩ |
    ⟨moved, polled, hnext, -, hmoved, -⟩ | ⟨b, hnext, -⟩ | ⟨rest, n, hnext, -⟩
  · rw [hnext] at h ⊢
    cases h
    rfl
  · rw [hnext] at h
    exact absurd h (hmoved how)
  · rw [hnext] at h
    cases h
  · rw [hnext] at h
    cases h

/-- One step of a copy without errors: what was read is what was written and what is to be written. -/
theorem copyInner_bytes (interleave stopped : Bool) {phase : Phase ε} {io : Io ε} {read wrote : Bytes}
    (hio : CleanIo io) (hphase : ∀ how, phase ≠ .ended how) (h : read = wrote ++ phase.unwritten) :
    let next := copyInner interleave stopped io phase
    read ++ next.2.2.flatMap Act.readBytes =
      wrote ++ next.2.2.flatMap Act.wroteBytes ++ next.1.unwritten := by
  intro next
  have hkept : Copy.Kept read wrote phase := ⟨[], by rw [h, List.append_nil], fun _ => rfl⟩
  refine (Copy.copyInner_kept interleave stopped io hphase hkept).eq_of_running ?_
  rintro ⟨error, herror⟩
  rcases (ended_of_clean hio hphase herror).2 with hhow | ⟨hhow, -⟩ <;> cases hhow

theorem copyInner_yielding (stopped : Bool) (io : Io ε) {phase : Phase ε} (hphase : phase ≠ .yielding) :
    (copyInner false stopped io phase).1 ≠ .yielding := by
  cases phase with
  | selecting =>
      simp only [copyInner]
      split <;> simp [Copy.finish]
  | reading =>
      simp only [copyInner]
      split
      · simp
      · split <;> simp [Copy.finish]
      · simp [Copy.finish]
  | writing rest =>
      simp only [copyInner]
      split
      · simp
      · split
        · simp
        · split <;> simp [Copy.finish]
        · simp [Copy.finish]
  | yielding => exact absurd rfl hphase
  | ended how => simp [copyInner]

/-! ### What the effects say -/

def PipeEffect.act? (dir : Dir) : PipeEffect ε → Option (Act ε)
  | .act d a => if d = dir then some a else none
  | _ => none

/-- What the copy of a direction did. -/
def actsOf (dir : Dir) (effects : List (PipeEffect ε)) : List (Act ε) :=
  effects.filterMap (PipeEffect.act? dir)

/-- All that was read from the source of a direction. -/
def readFrom (dir : Dir) (effects : List (PipeEffect ε)) : Bytes :=
  (actsOf dir effects).flatMap Act.readBytes

/-- All that was written to its sink. -/
def writtenTo (dir : Dir) (effects : List (PipeEffect ε)) : Bytes :=
  (actsOf dir effects).flatMap Act.wroteBytes

def endedAs (dir : Dir) (how : Ended ε) : PipeEffect ε := .act dir (.finished how)

def PipeEffect.isShutdown : PipeEffect ε → Bool
  | .shutdown => true
  | _ => false

def PipeEffect.isCloseStdin : PipeEffect ε → Bool
  | .closeStdin => true
  | _ => false

variable {effects tail : List (PipeEffect ε)} {dir other : Dir} {acts : List (Act ε)}

theorem actsOf_append (dir : Dir) (front rest : List (PipeEffect ε)) :
    actsOf dir (front ++ rest) = actsOf dir front ++ actsOf dir rest :=
  List.filterMap_append

theorem actsOf_acts (dir other : Dir) (acts : List (Act ε)) :
    actsOf dir (acts.map (PipeEffect.act other)) = if other = dir then acts else [] := by
  rw [actsOf, List.filterMap_map]
  by_cases hdir : other = dir
  · simp [hdir, PipeEffect.act?]
  · simp [hdir, Function.comp_def, PipeEffect.act?]

theorem readFrom_append (dir : Dir) (front rest : List (PipeEffect ε)) :
    readFrom dir (front ++ rest) = readFrom dir front ++ readFrom dir rest := by
  rw [readFrom, actsOf_append, List.flatMap_append]
  rfl

theorem writtenTo_append (dir : Dir) (front rest : List (PipeEffect ε)) :
    writtenTo dir (front ++ rest) = writtenTo dir front ++ writtenTo dir rest := by
  rw [writtenTo, actsOf_append, List.flatMap_append]
  rfl

theorem mem_actsOf {act : Act ε} : act ∈ actsOf dir effects ↔ .act dir act ∈ effects := by
  rw [actsOf, List.mem_filterMap]
  constructor
  · rintro ⟨effect, hmem, hact⟩
    cases effect with
    | act other a =>
        simp only [PipeEffect.act?, Option.ite_none_right_eq_some, Option.some.injEq] at hact
        obtain ⟨rfl, rfl⟩ := hact
        exact hmem
    | _ => cases hact
  · intro hmem
    exact ⟨_, hmem, by simp [PipeEffect.act?]⟩

theorem endedAs_mem {how : Ended ε} : endedAs dir how ∈ effects ↔ .finished how ∈ actsOf dir effects :=
  mem_actsOf.symm

theorem notMem_acts {effect : PipeEffect ε} (heffect : ∀ act, effect ≠ .act dir act)
    (acts : List (Act ε)) : effect ∉ acts.map (PipeEffect.act dir) := by
  intro hmem
  obtain ⟨act, -, rfl⟩ := List.mem_map.mp hmem
  exact heffect act rfl

theorem endedAs_mem_acts {how : Ended ε} :
    endedAs dir how ∈ acts.map (PipeEffect.act other) ↔ other = dir ∧ .finished how ∈ acts := by
  simp [endedAs, and_comm]

theorem countP_acts {count : PipeEffect ε → Bool} (hcount : ∀ act, count (.act dir act) = false)
    (acts : List (Act ε)) : (acts.map (PipeEffect.act dir)).countP count = 0 := by
  rw [List.countP_eq_zero]
  intro effect hmem
  obtain ⟨act, -, rfl⟩ := List.mem_map.mp hmem
  rw [hcount act]
  exact Bool.false_ne_true

theorem readFrom_acts (acts : List (Act ε)) :
    readFrom dir (acts.map (PipeEffect.act other)) =
      if other = dir then acts.flatMap Act.readBytes else [] := by
  rw [readFrom, actsOf_acts]
  split <;> rfl

/-! ### The invariant -/

def StdinDir.unwritten : StdinDir ε → Bytes
  | .copying phase => phase.unwritten
  | _ => []

/-- The copy from standard input has ended. -/
def StdinDir.ended : StdinDir ε → Bool
  | .copying _ => false
  | _ => true

/-- Behind the end of the peer's stream. -/
def PeerEnded (front : List (PipeEffect ε)) : Prop := endedAs .inbound .eof ∈ front

/-- The direction from standard input is stopped, or told to stop. -/
def StopsStdin (effect : PipeEffect ε) : Prop := effect = endedAs .stdin .stopped ∨ effect = .stopStdin

/-- All bytes read from standard input were written. -/
def StdinWritten (front : List (PipeEffect ε)) : Prop := writtenTo .stdin front = readFrom .stdin front

def ActsOnStdin (effect : PipeEffect ε) : Prop := ∃ act, effect = .act .stdin act

/-- What the copy to standard output did, and where it stands. -/
structure Inbound (acts : List (Act ε)) (phase : Phase ε) (isDone : Bool) : Prop where
  bytes : acts.flatMap Act.readBytes = acts.flatMap Act.wroteBytes ++ phase.unwritten
  done : isDone = true ↔ ∃ how, phase = .ended how
  finished : ∀ how, .finished how ∈ acts ↔ phase = .ended how
  eof : ∀ how, phase = .ended how → how = .eof
  awake : phase ≠ .yielding

/-- What the copy from standard input did, and where it stands. -/
structure Outbound (acts : List (Act ε)) (stdin : StdinDir ε) (isDone : Bool) : Prop where
  bytes : acts.flatMap Act.readBytes = acts.flatMap Act.wroteBytes ++ stdin.unwritten
  live : ∀ phase, stdin = .copying phase → ∀ how, phase ≠ .ended how
  done : isDone = true ↔ stdin = .closed
  finished : ∀ how, .finished how ∈ acts → how = .eof ∨ how = .stopped

/-- The stream is shut down when that copy ends, behind everything it did. -/
structure ShutDown (effects : List (PipeEffect ε)) (stdin : StdinDir ε) : Prop where
  count : effects.countP PipeEffect.isShutdown = if stdin.ended then 1 else 0
  last : Behind (· = .shutdown) StdinWritten effects
  behind : Behind ActsOnStdin (.shutdown ∉ ·) effects

/-- What a run without cancellation and errors has done, and the state it has come to. -/
structure Piped (effects : List (PipeEffect ε)) (s : Pipes ε) : Prop where
  cancel : s.cancel = false
  inbound : Inbound (actsOf .inbound effects) s.inbound s.inboundDone
  outbound : Outbound (actsOf .stdin effects) s.stdin s.stdinDone
  shutDown : ShutDown effects s.stdin
  stdinStop : s.stdinStop = true → s.inboundDone = true
  stops : Behind StopsStdin PeerEnded effects
  closes : effects.countP PipeEffect.isCloseStdin = if s.fired then 1 else 0
  closer : s.closeStdin = !s.fired
  returned : .returned ∈ effects → s.fired = true ∧ s.stdinDone = true ∧ s.inboundDone = true
  polling : s.pc = .polling .stdin → s.stdinDone = false
  pollingIn : s.pc = .polling .inbound → s.inboundDone = false
  atReturn : s.pc = .returned → s.inboundDone = true

variable {s : Pipes ε} {stdin : StdinDir ε} {phase next : Phase ε} {isDone : Bool}

theorem piped_start : Piped [] (.start : Pipes ε) where
  cancel := rfl
  inbound := ⟨rfl, by simp [Pipes.start], by simp [Pipes.start, actsOf], by simp [Pipes.start],
    by simp [Pipes.start]⟩
  outbound := ⟨rfl, by simp [Pipes.start], by simp [Pipes.start], by simp [actsOf]⟩
  shutDown := ⟨rfl, behind_nil, behind_nil⟩
  stdinStop h := by cases h
  stops := behind_nil
  closes := rfl
  closer := rfl
  returned h := by cases h
  polling h := by cases h
  pollingIn h := by cases h
  atReturn h := by cases h

/-- Only the place in the code changes. -/
theorem Piped.goto (h : Piped effects s) {pc : PipePc}
    (hstdin : pc = .polling .stdin → s.stdinDone = false)
    (hinbound : pc = .polling .inbound → s.inboundDone = false) (hpc : pc ≠ .returned) :
    Piped effects { s with pc } :=
  { h with polling := hstdin, pollingIn := hinbound, atReturn := fun hover => absurd hover hpc }

theorem Piped.peerEnded (h : Piped effects s) (hdone : s.inboundDone = true) : PeerEnded effects := by
  obtain ⟨how, hhow⟩ := h.inbound.done.mp hdone
  obtain rfl := h.inbound.eof how hhow
  exact endedAs_mem.mpr ((h.inbound.finished .eof).mpr hhow)

/-! ### The direction to standard output -/

/-- The stream is not shut down by what happens, and standard input not touched. -/
theorem ShutDown.append (h : ShutDown effects stdin) (hshutdown : .shutdown ∉ tail)
    (hacts : actsOf .stdin tail = []) : ShutDown (effects ++ tail) stdin where
  count := by
    have hnone : tail.countP PipeEffect.isShutdown = 0 := by
      rw [List.countP_eq_zero]
      intro effect hmem hcount
      cases effect with
      | shutdown => exact hshutdown hmem
      | _ => cases hcount
    rw [List.countP_append, hnone]
    exact h.count
  last := h.last.append_of_none fun effect hmem heq => hshutdown (heq ▸ hmem)
  behind := by
    refine h.behind.append_of_none fun effect hmem hact => ?_
    obtain ⟨act, rfl⟩ := hact
    have hmem : act ∈ actsOf .stdin tail := mem_actsOf.mpr hmem
    rw [hacts] at hmem
    cases hmem

theorem Inbound.live (h : Inbound acts phase false) (how : Ended ε) : phase ≠ .ended how := by
  intro hended
  have hdone := h.done.mpr ⟨how, hended⟩
  cases hdone

/-- A step of the copy, without the stop token. -/
theorem Inbound.step (h : Inbound acts phase false) {io : Io ε} (hio : CleanIo io) :
    let next := copyInner false false io phase
    Inbound (acts ++ next.2.2) next.1 (decide (next.2.1 = .ready)) := by
  intro next
  obtain ⟨hready, hfinished⟩ := copyInner_finished false false io h.live
  constructor
  case bytes =>
    rw [List.flatMap_append, List.flatMap_append]
    exact copyInner_bytes false false hio h.live h.bytes
  case done =>
    rw [decide_eq_true_eq]
    exact hready
  case finished =>
    intro how
    rw [List.mem_append, h.finished, hfinished]
    exact or_iff_right (h.live how)
  case eof =>
    intro how hhow
    rcases (ended_of_clean hio h.live hhow).2 with hend | ⟨-, hstopped⟩
    · exact hend
    · cases hstopped
  case awake => exact copyInner_yielding false io h.awake

theorem Piped.pollInbound (h : Piped effects s) (hpc : s.pc = .polling .inbound) {io : PipeIo ε}
    (hio : CleanIo io.toIo) : Piped (effects ++ (s.pollInbound io).2) (s.pollInbound io).1 := by
  have hundone := h.pollingIn hpc
  have hinbound := h.inbound
  rw [hundone] at hinbound
  have hinbound := hinbound.step hio
  simp only [Pipes.pollInbound, h.cancel]
  generalize copyInner false false io.toIo s.inbound = next at *
  have hnotMem : ∀ effect : PipeEffect ε, (∀ act, effect ≠ .act .inbound act) →
      effect ∉ next.2.2.map (PipeEffect.act .inbound) :=
    fun effect heffect => notMem_acts heffect next.2.2
  constructor
  case cancel => rfl
  case inbound =>
    rw [actsOf_append, actsOf_acts, if_pos rfl]
    exact hinbound
  case outbound =>
    rw [actsOf_append, actsOf_acts, if_neg (by decide), List.append_nil]
    exact h.outbound
  case shutDown =>
    refine h.shutDown.append (hnotMem _ (by simp)) ?_
    rw [actsOf_acts, if_neg (by decide)]
  case stdinStop =>
    intro hstop
    rw [h.stdinStop hstop] at hundone
    cases hundone
  case stops =>
    refine h.stops.append_of_none fun effect hmem hstops => ?_
    rcases hstops with rfl | rfl
    · exact hnotMem _ (by simp [endedAs]) hmem
    · exact hnotMem _ (by simp) hmem
  case closes =>
    rw [List.countP_append, countP_acts fun _ => rfl]
    exact h.closes
  case closer => exact h.closer
  case returned =>
    intro hreturned
    rcases List.mem_append.mp hreturned with hold | hnew
    · rw [(h.returned hold).2.2] at hundone
      cases hundone
    · exact absurd hnew (hnotMem _ (by simp))
  case polling =>
    intro hpolling
    simp only at hpolling
    split at hpolling <;> cases hpolling
  case pollingIn =>
    intro hpolling
    simp only at hpolling ⊢
    split at hpolling
    · rename_i hrunning
      rw [hrunning]
      rfl
    · cases hpolling
  case atReturn =>
    intro hover
    simp only at hover
    split at hover <;> cases hover

/-! ### The direction from standard input -/

theorem Outbound.copying (h : Outbound acts (.copying phase) isDone) : isDone = false := by
  by_contra hdone
  rw [Bool.not_eq_false, h.done] at hdone
  cases hdone

/-- The copy does something and goes on. -/
theorem Outbound.append (h : Outbound acts (.copying phase) isDone) {more : List (Act ε)}
    (hnext : ∀ how, next ≠ .ended how) (hfinished : ∀ how, .finished how ∉ more)
    (hbytes : acts.flatMap Act.readBytes ++ more.flatMap Act.readBytes =
      acts.flatMap Act.wroteBytes ++ more.flatMap Act.wroteBytes ++ next.unwritten) :
    Outbound (acts ++ more) (.copying next) isDone where
  bytes := by
    rw [List.flatMap_append, List.flatMap_append]
    exact hbytes
  live phase' hphase' := by
    obtain rfl := StdinDir.copying.inj hphase'
    exact hnext
  done := by
    rw [h.copying]
    simp
  finished how hmem := by
    rcases List.mem_append.mp hmem with hold | hnew
    · exact h.finished how hold
    · exact absurd hnew (hfinished how)

/-- The copy ends. -/
theorem Outbound.finish (h : Outbound acts (.copying phase) isDone) {how : Ended ε}
    (hwritten : phase.unwritten = []) (hhow : how = .eof ∨ how = .stopped) :
    Outbound (acts ++ [.finished how]) .closing isDone where
  bytes := by
    rw [List.flatMap_append, List.flatMap_append, h.bytes]
    simp [StdinDir.unwritten, hwritten, Act.readBytes, Act.wroteBytes]
  live phase' hphase' := by cases hphase'
  done := by
    rw [h.copying]
    simp
  finished how' hmem := by
    rcases List.mem_append.mp hmem with hold | hnew
    · exact h.finished how' hold
    · obtain rfl := Act.finished.inj (List.mem_singleton.mp hnew)
      exact hhow

theorem ShutDown.notMem (h : ShutDown effects (.copying phase)) : .shutdown ∉ effects := by
  intro hmem
  have hcount := h.count
  rw [StdinDir.ended, if_neg Bool.false_ne_true, List.countP_eq_zero] at hcount
  exact hcount _ hmem rfl

/-- The copy does something; there was no shutdown yet. -/
theorem ShutDown.copied (h : ShutDown effects (.copying phase)) (acts : List (Act ε)) :
    ShutDown (effects ++ acts.map (.act .stdin)) (.copying next) where
  count := by
    rw [List.countP_append, countP_acts fun _ => rfl]
    exact h.count
  last := h.last.append_of_none fun effect hmem heq => notMem_acts (by simp) acts (heq ▸ hmem)
  behind := by
    refine h.behind.append fun front effect rest heq _ hmem => ?_
    rcases List.mem_append.mp hmem with hold | hnew
    · exact h.notMem hold
    · have hacts : .shutdown ∈ acts.map (PipeEffect.act .stdin) := by
        rw [heq]
        exact List.mem_append_left _ hnew
      exact notMem_acts (by simp) acts hacts

/-- The stream is shut down with everything written. -/
theorem ShutDown.concat (h : ShutDown effects (.copying phase)) (hwritten : StdinWritten effects) :
    ShutDown (effects ++ [.shutdown]) .closing where
  count := by
    rw [List.countP_append, h.count]
    rfl
  last := h.last.concat fun _ => hwritten
  behind := h.behind.concat fun hact => by
    obtain ⟨act, heq⟩ := hact
    cases heq

/-- A step of the copy from standard input that does not end it. -/
theorem Piped.stdinActs (h : Piped effects s) {pc : PipePc} (hstdin : s.stdin = .copying phase)
    (hnext : ∀ how, next ≠ .ended how) (hfinished : ∀ how, .finished how ∉ acts)
    (hbytes : readFrom .stdin effects ++ acts.flatMap Act.readBytes =
      writtenTo .stdin effects ++ acts.flatMap Act.wroteBytes ++ next.unwritten)
    (hinbound : pc = .polling .inbound → s.inboundDone = false)
    (hpc : pc = .returned → s.inboundDone = true) :
    Piped (effects ++ acts.map (.act .stdin)) { s with stdin := .copying next, pc } := by
  have houtbound := h.outbound
  have hshutDown := h.shutDown
  rw [hstdin] at houtbound hshutDown
  refine { h with
    inbound := ?_, outbound := ?_, shutDown := hshutDown.copied acts, stops := ?_, closes := ?_,
    returned := ?_, polling := fun _ => houtbound.copying, pollingIn := hinbound, atReturn := hpc }
  · rw [actsOf_append, actsOf_acts, if_neg (by decide), List.append_nil]
    exact h.inbound
  · rw [actsOf_append, actsOf_acts, if_pos rfl]
    exact houtbound.append hnext hfinished hbytes
  · refine h.stops.append_of_none fun effect hmem hstops => ?_
    rcases hstops with rfl | rfl
    · exact hfinished _ (endedAs_mem_acts.mp hmem).2
    · exact notMem_acts (by simp) acts hmem
  · rw [List.countP_append, countP_acts fun _ => rfl]
    exact h.closes
  · intro hreturned
    rcases List.mem_append.mp hreturned with hold | hnew
    · exact h.returned hold
    · exact absurd hnew (notMem_acts (by simp) acts)

/-- The copy from standard input ends, and the stream is shut down. -/
theorem Piped.stdinEnds (h : Piped effects s) {how : Ended ε} (hstdin : s.stdin = .copying phase)
    (hwritten : phase.unwritten = []) (hhow : how = .eof ∨ how = .stopped ∧ s.stdinStop = true) :
    Piped (effects ++ [endedAs .stdin how, .shutdown]) { s with stdin := .closing } := by
  have houtbound := h.outbound
  have hshutDown := h.shutDown
  rw [hstdin] at houtbound hshutDown
  have hacts : actsOf .stdin [endedAs .stdin how, .shutdown] = [.finished how] := rfl
  have htwo : effects ++ [endedAs .stdin how, .shutdown] =
      effects ++ [endedAs .stdin how] ++ [.shutdown] := by simp
  have hbytes : StdinWritten (effects ++ [endedAs .stdin how]) := by
    have hbytes := houtbound.bytes
    rw [StdinDir.unwritten, hwritten, List.append_nil] at hbytes
    rw [StdinWritten, readFrom_append, writtenTo_append, readFrom, writtenTo, hbytes]
    rfl
  refine { h with
    inbound := ?_, outbound := ?_, shutDown := ?_, stops := ?_, closes := ?_, returned := ?_,
    polling := fun _ => houtbound.copying }
  · rw [actsOf_append]
    exact (List.append_nil _).symm ▸ h.inbound
  · rw [actsOf_append, hacts]
    exact houtbound.finish hwritten (hhow.imp_right And.left)
  · rw [htwo]
    have hcopied : ShutDown (effects ++ [endedAs .stdin how]) (.copying (.ended how)) :=
      hshutDown.copied [.finished how]
    exact hcopied.concat hbytes
  · rw [htwo]
    refine (h.stops.concat fun hstops => ?_).concat fun hstops => ?_
    · rcases hstops with hstopped | hstopped
      · obtain rfl : how = .stopped := by simpa [endedAs] using hstopped
        rcases hhow with heof | ⟨-, hstop⟩
        · cases heof
        · exact h.peerEnded (h.stdinStop hstop)
      · cases hstopped
    · rcases hstops with hstopped | hstopped <;> cases hstopped
  · rw [List.countP_append, h.closes]
    rfl
  · intro hreturned
    rcases List.mem_append.mp hreturned with hold | hnew
    · exact h.returned hold
    · simp [endedAs] at hnew

/-- The shutdown is over. -/
theorem Piped.stdinClosed (h : Piped effects s) {pc : PipePc} (hstdin : s.stdin = .closing)
    (hpc : pc = .polling .inbound → s.inboundDone = false) (hpc' : pc ≠ .polling .stdin)
    (hover : pc ≠ .returned) :
    Piped effects { s with stdin := .closed, stdinDone := true, pc } := by
  have houtbound := h.outbound
  have hshutDown := h.shutDown
  rw [hstdin] at houtbound hshutDown
  exact { h with
    outbound := ⟨houtbound.bytes, by simp, by simp, houtbound.finished⟩
    shutDown := ⟨hshutDown.count, hshutDown.last, hshutDown.behind⟩
    polling := fun hpolling => absurd hpolling hpc'
    pollingIn := hpc
    atReturn := fun hreturned => absurd hreturned hover
    returned := fun hreturned =>
      ⟨(h.returned hreturned).1, rfl, (h.returned hreturned).2.2⟩ }

theorem polling_pcBehindStdin {inboundDone : Bool} :
    (pcBehindStdin inboundDone = .polling .inbound → inboundDone = false) ∧
      pcBehindStdin inboundDone ≠ .polling .stdin ∧ pcBehindStdin inboundDone ≠ .returned := by
  cases inboundDone <;> simp [pcBehindStdin]

theorem Piped.copyStdin (h : Piped effects s) (hstdin : s.stdin = .copying phase) {io : Io ε}
    (hio : CleanIo io) : Piped (effects ++ (s.copyStdin phase io).2) (s.copyStdin phase io).1 := by
  have hphase := h.outbound.live phase hstdin
  have hbytesOut := h.outbound.bytes
  rw [hstdin] at hbytesOut
  have hbytes := copyInner_bytes false (s.cancel || s.stdinStop) hio hphase hbytesOut
  obtain ⟨hready, hfinished⟩ := copyInner_finished false (s.cancel || s.stdinStop) io hphase
  have hended := @ended_of_clean _ phase false (s.cancel || s.stdinStop) io hio hphase
  have hends := acts_of_ended false (s.cancel || s.stdinStop) io hphase
  simp only [Pipes.copyStdin]
  generalize copyInner false (s.cancel || s.stdinStop) io phase = next at *
  have hlive : next.2.1 ≠ .ready →
      (∀ how, next.1 ≠ .ended how) ∧ ∀ how, .finished how ∉ next.2.2 := by
    intro hpolled
    have hnext : ∀ how, next.1 ≠ .ended how := fun how hhow => hpolled (hready.mpr ⟨how, hhow⟩)
    exact ⟨hnext, fun how hmem => hnext how ((hfinished how).mp hmem)⟩
  split
  · rename_i hpolled
    obtain ⟨how, hhow⟩ := hready.mp hpolled
    obtain ⟨hwritten, hcause⟩ := hended hhow
    rw [hends how hhow]
    rw [h.cancel, Bool.false_or] at hcause
    exact h.stdinEnds hstdin hwritten hcause
  · rename_i hpolled
    obtain ⟨hnext, hnone⟩ := hlive (by simp [hpolled])
    exact h.stdinActs hstdin hnext hnone hbytes h.pollingIn h.atReturn
  · rename_i hpolled
    obtain ⟨hnext, hnone⟩ := hlive (by simp [hpolled])
    exact h.stdinActs hstdin hnext hnone hbytes polling_pcBehindStdin.1
      fun hover => absurd hover polling_pcBehindStdin.2.2

theorem Piped.pollStdin (h : Piped effects s) {io : PipeIo ε} (hio : CleanIo io.toIo) :
    Piped (effects ++ (s.pollStdin io).2) (s.pollStdin io).1 := by
  unfold Pipes.pollStdin
  split
  · rename_i phase hstdin
    exact h.copyStdin hstdin hio
  · rename_i hstdin
    split
    · rw [List.append_nil]
      exact h.goto (fun hpolling => absurd hpolling polling_pcBehindStdin.2.1) polling_pcBehindStdin.1
        polling_pcBehindStdin.2.2
    · rw [List.append_nil]
      exact h.stdinClosed hstdin polling_pcBehindStdin.1 polling_pcBehindStdin.2.1
        polling_pcBehindStdin.2.2
  · rw [List.append_nil]
    exact h

/-! ### Behind both directions -/

/-- What the check does, one effect at a time. -/
theorem check_effects (s : Pipes ε) : ∀ effect ∈ s.check.2,
    effect = .closeStdin ∧ s.fired = false ∧ (s.stdinDone || s.inboundDone) = true ∨
      effect = .stopStdin ∧ s.inboundDone = true ∨
      effect = .returned ∧ s.stdinDone = true ∧ s.inboundDone = true := by
  intro effect hmem
  simp only [Pipes.check, List.mem_append] at hmem
  rcases hmem with hclose | hstop | hover
  · split at hclose
    · rename_i hcond
      simp only [Bool.and_eq_true, Bool.not_eq_true'] at hcond
      exact Or.inl ⟨List.mem_singleton.mp hclose, hcond.1.2, hcond.1.1⟩
    · cases hclose
  · split at hstop
    · rename_i hcond
      exact Or.inr (Or.inl ⟨List.mem_singleton.mp hstop, (Bool.and_eq_true_iff.mp hcond).1⟩)
    · cases hstop
  · split at hover
    · rename_i hcond
      exact Or.inr (Or.inr ⟨List.mem_singleton.mp hover, Bool.and_eq_true_iff.mp hcond⟩)
    · cases hover

theorem actsOf_check (s : Pipes ε) (dir : Dir) : actsOf dir s.check.2 = [] := by
  rw [actsOf, List.filterMap_eq_nil_iff]
  intro effect hmem
  rcases check_effects s effect hmem with ⟨rfl, -⟩ | ⟨rfl, -⟩ | ⟨rfl, -⟩ <;> rfl

theorem notMem_check (s : Pipes ε) (dir : Dir) (act : Act ε) : .act dir act ∉ s.check.2 := by
  intro hmem
  rcases check_effects s _ hmem with ⟨heq, -⟩ | ⟨heq, -⟩ | ⟨heq, -⟩ <;> cases heq

theorem countP_closeStdin_check (h : Piped effects s) :
    (effects ++ s.check.2).countP PipeEffect.isCloseStdin = if s.check.1.fired then 1 else 0 := by
  have hstops : List.countP PipeEffect.isCloseStdin
      (if (s.inboundDone && !s.stdinDone) = true then [(.stopStdin : PipeEffect ε)] else []) = 0 := by
    split <;> rfl
  have hover : List.countP PipeEffect.isCloseStdin
      (if (s.stdinDone && s.inboundDone) = true then [(.returned : PipeEffect ε)] else []) = 0 := by
    split <;> rfl
  rw [List.countP_append, h.closes]
  simp only [Pipes.check, List.countP_append, h.closer]
  rw [hstops, hover]
  by_cases hfired : s.fired = true
  · simp [hfired]
  · by_cases hfirst : (s.stdinDone || s.inboundDone) = true
    · simp [hfired, hfirst, PipeEffect.isCloseStdin]
    · simp [hfired, hfirst]

theorem Piped.check (h : Piped effects s) : Piped (effects ++ s.check.2) s.check.1 := by
  have heffects := check_effects s
  have hacts : ∀ dir, actsOf dir (effects ++ s.check.2) = actsOf dir effects := by
    intro dir
    rw [actsOf_append, actsOf_check, List.append_nil]
  constructor
  case cancel => exact h.cancel
  case inbound =>
    rw [hacts]
    exact h.inbound
  case outbound =>
    rw [hacts]
    exact h.outbound
  case shutDown =>
    refine h.shutDown.append (fun hmem => ?_) (actsOf_check s .stdin)
    rcases heffects _ hmem with ⟨heq, -⟩ | ⟨heq, -⟩ | ⟨heq, -⟩ <;> cases heq
  case stdinStop =>
    intro hstop
    rcases (Bool.or_eq_true _ _).mp hstop with hold | hnew
    · exact h.stdinStop hold
    · exact (Bool.and_eq_true_iff.mp hnew).1
  case stops =>
    refine h.stops.append fun front effect rest heq hstops => ?_
    have hmem : effect ∈ s.check.2 := by
      rw [heq]
      simp
    have hdone : s.inboundDone = true := by
      rcases heffects effect hmem with ⟨rfl, -⟩ | ⟨-, hdone⟩ | ⟨-, -, hdone⟩
      · rcases hstops with heq | heq <;> cases heq
      · exact hdone
      · exact hdone
    exact List.mem_append_left _ (h.peerEnded hdone)
  case closes => exact countP_closeStdin_check h
  case closer =>
    simp only [Pipes.check, h.closer]
    cases s.fired <;> simp
  case returned =>
    intro hreturned
    rcases List.mem_append.mp hreturned with hold | hnew
    · obtain ⟨hfired, hdone⟩ := h.returned hold
      exact ⟨by simp [Pipes.check, hfired], hdone⟩
    · rcases heffects _ hnew with ⟨heq, -⟩ | ⟨heq, -⟩ | ⟨-, hdone⟩
      · cases heq
      · cases heq
      · exact ⟨by simp [Pipes.check, hdone.1], hdone⟩
  case polling =>
    intro hpolling
    simp only [Pipes.check] at hpolling
    split at hpolling <;> cases hpolling
  case pollingIn =>
    intro hpolling
    simp only [Pipes.check] at hpolling
    split at hpolling <;> cases hpolling
  case atReturn =>
    intro hover
    simp only [Pipes.check] at hover ⊢
    split at hover
    · rename_i hboth
      exact (Bool.and_eq_true_iff.mp hboth).2
    · cases hover

theorem Piped.step (h : Piped effects s) {event : PipeEvent ε} (hevent : CleanEvent event) :
    Piped (effects ++ (startStdinPipe s event).2) (startStdinPipe s event).1 := by
  cases event with
  | cancel => exact absurd hevent id
  | advance io =>
      obtain ⟨hio, -⟩ := hevent
      simp only [startStdinPipe]
      split
      · rw [List.append_nil]
        refine h.goto (fun hpolling => ?_) (fun hpolling => ?_) ?_
        · split at hpolling
          · exact absurd hpolling polling_pcBehindStdin.2.1
          · rename_i hdone
            simpa using hdone
        · split at hpolling
          · exact polling_pcBehindStdin.1 hpolling
          · cases hpolling
        · split
          · exact polling_pcBehindStdin.2.2
          · simp
      · exact h.pollStdin hio
      · rename_i hpc
        exact h.pollInbound hpc hio
      · exact h.check
      · rw [List.append_nil]
        exact h

end Qvole.Pipe
