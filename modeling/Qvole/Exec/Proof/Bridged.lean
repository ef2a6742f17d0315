import Qvole.Copy.Proof.Stream
import Qvole.Exec.Proof.Run
import Qvole.Lib.Log

/-!
# A command bridged to its stream

What a step can send is said once. From it follow the order of what is sent, the bytes of the two
copies, and who can stop them: the tokens fire for the caller, for a lost connection and for the drain
timeout, and the end of the child's input fires none of them.
-/

namespace Qvole.Exec

open Copy (Phase Act Io Ended copyInner OneWay oneWay_start readOf wroteOf)
open Log (Behind behind_nil)

variable {ε : Type} {command : Bytes} {s next : Running ε} {event : ExecEvent ε}

/-! ### What a step sends -/

/-- The copies are where they were. -/
def SameCopies (s next : Running ε) : Prop :=
  next.stdin = s.stdin ∧ next.stdout = s.stdout ∧ next.copyDone = s.copyDone ∧
    next.stdoutDone = s.stdoutDone

/-- Everything that the steps send, with what they change of the copies. -/
inductive Sent (command : Bytes) (s next : Running ε) : List (ExecEffect ε) → Prop
  | nothing (hsame : SameCopies s next) (hspawned : next.spawned = s.spawned) :
      Sent command s next []
  | spawned (args : List Bytes) (hsame : SameCopies s next) (hspawned : next.spawned = true)
      (hargs : splitCommand command = some args) (hsome : args ≠ []) :
      Sent command s next [.spawned args]
  | kill (hsame : SameCopies s next) (hspawned : next.spawned = s.spawned) (hpc : s.pc = .waiting)
      (hstops : s.stops = true) : Sent command s next [.kill]
  | stdin (io : Io ε) (hopen : s.copyDone = false) (hphase : ∀ how, s.stdin ≠ .ended how)
      (hnext : next = { s with stdin := (copyInner false s.copyStop io s.stdin).1 }) :
      Sent command s next ((copyInner false s.copyStop io s.stdin).2.2.map .stdin)
  | stdinOver (hopen : s.copyDone = false) (hnext : next = { s with copyDone := true }) :
      Sent command s next ((if s.copyStop then [.stopSending] else []) ++ [.closeStdin])
  | stdout (io : Io ε) (hopen : s.stdoutDone = false) (hphase : ∀ how, s.stdout ≠ .ended how)
      (hnext : next = { s with stdout := (copyInner false false io s.stdout).1 }) :
      Sent command s next ((copyInner false false io s.stdout).2.2.map .stdout)
  | stdoutOver (hopen : s.stdoutDone = false) (hnext : next = { s with stdoutDone := true }) :
      Sent command s next [.fin]
  | returned (result : Option ExecError) (hsame : SameCopies s next)
      (hspawned : next.spawned = s.spawned) (hpc : s.pc = .finishing result)
      (hnext : next.pc = .returned result) :
      Sent command s next [.closeConnection, .returned result]

theorem sameCopies_refl : SameCopies s s := ⟨rfl, rfl, rfl, rfl⟩

theorem sent_spawn (ok : Bool) : Sent command s (s.spawn command ok).1 (s.spawn command ok).2 := by
  unfold Running.spawn
  split
  · exact .nothing sameCopies_refl rfl
  · rename_i args hargs
    split
    · exact .nothing sameCopies_refl rfl
    · rename_i hsome
      split
      · exact .spawned args sameCopies_refl rfl hargs hsome
      · exact .nothing sameCopies_refl rfl

theorem sent_copyStdin (hopen : s.copyDone = false) (io : Io ε) :
    Sent command s (s.copyStdin io).1 (s.copyStdin io).2 := by
  unfold Running.copyStdin
  split
  · exact .stdinOver hopen rfl
  · rename_i hphase
    exact .stdin io hopen hphase rfl

theorem sent_copyStdout (hopen : s.stdoutDone = false) (io : Io ε) :
    Sent command s (s.copyStdout io).1 (s.copyStdout io).2 := by
  unfold Running.copyStdout
  split
  · exact .stdoutOver hopen rfl
  · rename_i hphase
    exact .stdout io hopen hphase rfl

theorem sent_main (event : ExecEvent ε) : Sent command s (s.main event).1 (s.main event).2 := by
  cases event with
  | stop =>
      simp only [Running.main]
      split
      · rename_i hguard
        obtain ⟨hpc, hstops⟩ := Bool.and_eq_true_iff.mp hguard
        exact .kill sameCopies_refl rfl (of_decide_eq_true hpc) hstops
      · exact .nothing sameCopies_refl rfl
  | finishDelay =>
      simp only [Running.main]
      split
      · rename_i result hpc
        exact .returned result sameCopies_refl rfl hpc rfl
      · exact .nothing sameCopies_refl rfl
  | waited =>
      simp only [Running.main]
      split <;> exact .nothing sameCopies_refl rfl
  | waitFailed =>
      simp only [Running.main]
      split <;> exact .nothing sameCopies_refl rfl
  | killed failed =>
      simp only [Running.main]
      split <;> exact .nothing sameCopies_refl rfl
  | copied =>
      simp only [Running.main]
      split
      · split <;> exact .nothing sameCopies_refl rfl
      · split <;> exact .nothing sameCopies_refl rfl
      · exact .nothing sameCopies_refl rfl
  | interrupt =>
      simp only [Running.main]
      split
      · split <;> exact .nothing sameCopies_refl rfl
      · exact .nothing sameCopies_refl rfl
  | drainTimeout =>
      simp only [Running.main]
      split <;> exact .nothing sameCopies_refl rfl
  | joined =>
      simp only [Running.main]
      split
      · split <;> exact .nothing sameCopies_refl rfl
      · exact .nothing sameCopies_refl rfl
  | _ => exact .nothing sameCopies_refl rfl

/-- **Every step** sends one of these. -/
theorem sent_step (command : Bytes) (s : Running ε) (event : ExecEvent ε) :
    Sent command s (runExecCommand command s event).1 (runExecCommand command s event).2 := by
  cases event with
  | cancel => exact .nothing sameCopies_refl rfl
  | lost => exact .nothing sameCopies_refl rfl
  | opened ok =>
      simp only [runExecCommand]
      split
      · exact .nothing sameCopies_refl rfl
      · split <;> exact .nothing sameCopies_refl rfl
  | announced ok =>
      simp only [runExecCommand]
      split
      · exact .nothing sameCopies_refl rfl
      · split <;> exact .nothing sameCopies_refl rfl
  | spawn ok =>
      simp only [runExecCommand]
      split
      · exact .nothing sameCopies_refl rfl
      · exact sent_spawn ok
  | watchClosed =>
      simp only [runExecCommand]
      split <;> exact .nothing sameCopies_refl rfl
  | watchStopped =>
      simp only [runExecCommand]
      split <;> exact .nothing sameCopies_refl rfl
  | forward =>
      simp only [runExecCommand]
      split <;> exact .nothing sameCopies_refl rfl
  | stdin io =>
      simp only [runExecCommand]
      split
      · rename_i hguard
        exact sent_copyStdin (by simpa using (Bool.and_eq_true_iff.mp hguard).2) io
      · exact .nothing sameCopies_refl rfl
  | stdout io =>
      simp only [runExecCommand]
      split
      · rename_i hguard
        exact sent_copyStdout (by simpa using (Bool.and_eq_true_iff.mp hguard).2) io
      · exact .nothing sameCopies_refl rfl
  | exit status =>
      simp only [runExecCommand]
      split <;> exact .nothing sameCopies_refl rfl
  | _ => exact sent_main _

theorem Sent.kill_mem {sent : List (ExecEffect ε)} (h : Sent command s next sent) (hmem : .kill ∈ sent) :
    s.pc = .waiting ∧ s.stops = true := by
  cases h with
  | kill _ _ hpc hstops => exact ⟨hpc, hstops⟩
  | stdinOver => split at hmem <;> simp at hmem
  | _ => simp at hmem

theorem Sent.stopSending_mem {sent : List (ExecEffect ε)} (h : Sent command s next sent)
    (hmem : .stopSending ∈ sent) : s.copyStop = true ∧ s.copyDone = false := by
  cases h with
  | stdinOver hopen =>
      split at hmem
      · rename_i hstop
        exact ⟨hstop, hopen⟩
      · simp at hmem
  | _ => simp at hmem

theorem Sent.returned_mem {sent : List (ExecEffect ε)} {result : Option ExecError}
    (h : Sent command s next sent) (hmem : .returned result ∈ sent) : next.pc = .returned result := by
  cases h with
  | returned result' _ _ _ hnext =>
      obtain rfl : result = result' := by simpa using hmem
      exact hnext
  | stdinOver => split at hmem <;> simp at hmem
  | _ => simp at hmem

/-! ### What was sent -/

def ExecEffect.stdin? : ExecEffect ε → Option (Act ε)
  | .stdin act => some act
  | _ => none

def ExecEffect.stdout? : ExecEffect ε → Option (Act ε)
  | .stdout act => some act
  | _ => none

/-- What the copy to the child's input has done. -/
def stdinActs (effects : List (ExecEffect ε)) : List (Act ε) := effects.filterMap ExecEffect.stdin?

/-- What the copy of its output has done. -/
def stdoutActs (effects : List (ExecEffect ε)) : List (Act ε) := effects.filterMap ExecEffect.stdout?

/-- A child was started. -/
def Started (effects : List (ExecEffect ε)) : Prop := ∃ args, .spawned args ∈ effects

def OnStdout (effect : ExecEffect ε) : Prop := ∃ act, effect = .stdout act

/-- How the effects of a run stand to the state it has come to. -/
structure Bridged (command : Bytes) (effects : List (ExecEffect ε)) (s : Running ε) : Prop where
  stdin : OneWay (stdinActs effects) s.stdin
  stdout : OneWay (stdoutActs effects) s.stdout
  closed : .closeStdin ∈ effects ↔ s.copyDone = true
  fin : .fin ∈ effects ↔ s.stdoutDone = true
  started : Started effects ↔ s.spawned = true
  args : ∀ args, .spawned args ∈ effects → splitCommand command = some args ∧ args ≠ []
  last : Behind OnStdout (.fin ∉ ·) effects
  closes : Behind (· = .closeConnection) (fun front => Started front → .fin ∈ front) effects

variable {effects sent : List (ExecEffect ε)}

theorem bridged_start : Bridged command [] (.start : Running ε) where
  stdin := oneWay_start
  stdout := oneWay_start
  closed := by simp [Running.start]
  fin := by simp [Running.start]
  started := by simp [Running.start, Started]
  args := by simp
  last := behind_nil
  closes := behind_nil

/-- A step that leaves the copies alone. -/
theorem Bridged.same (h : Bridged command effects s) (hsame : SameCopies s next)
    (hspawned : Started (effects ++ sent) ↔ next.spawned = true)
    (hargs : ∀ args, .spawned args ∈ sent → splitCommand command = some args ∧ args ≠ [])
    (hsent : ∀ effect ∈ sent, effect.stdin? = none ∧ effect.stdout? = none ∧ effect ≠ .closeStdin ∧
      effect ≠ .fin)
    (hcloses : .closeConnection ∈ sent →
      ∀ front, front <+: sent → Started (effects ++ front) → .fin ∈ effects) :
    Bridged command (effects ++ sent) next := by
  obtain ⟨hin, hout, hdone, houtDone⟩ := hsame
  have hstdin : stdinActs (effects ++ sent) = stdinActs effects := by
    rw [stdinActs, List.filterMap_append, List.filterMap_eq_nil_iff.mpr fun e he => (hsent e he).1,
      List.append_nil]
    rfl
  have hstdout : stdoutActs (effects ++ sent) = stdoutActs effects := by
    rw [stdoutActs, List.filterMap_append, List.filterMap_eq_nil_iff.mpr fun e he => (hsent e he).2.1,
      List.append_nil]
    rfl
  refine ⟨?_, ?_, ?_, ?_, hspawned, ?_, ?_, ?_⟩
  · rw [hstdin, hin]
    exact h.stdin
  · rw [hstdout, hout]
    exact h.stdout
  · rw [List.mem_append, or_iff_left fun hmem => (hsent _ hmem).2.2.1 rfl, hdone]
    exact h.closed
  · rw [List.mem_append, or_iff_left fun hmem => (hsent _ hmem).2.2.2 rfl, houtDone]
    exact h.fin
  · intro args hmem
    rcases List.mem_append.mp hmem with hold | hnew
    · exact h.args args hold
    · exact hargs args hnew
  · refine h.last.append_of_none fun effect heffect => ?_
    rintro ⟨act, rfl⟩
    cases (hsent _ heffect).2.1
  · refine h.closes.append fun front effect rest heq hclose hstarted => ?_
    subst hclose
    have hmem : ExecEffect.closeConnection ∈ sent := by rw [heq]; simp
    exact List.mem_append_left _ (hcloses hmem front ⟨_, heq.symm⟩ hstarted)

theorem stdinActs_append (front rest : List (ExecEffect ε)) :
    stdinActs (front ++ rest) = stdinActs front ++ stdinActs rest := List.filterMap_append

theorem stdoutActs_append (front rest : List (ExecEffect ε)) :
    stdoutActs (front ++ rest) = stdoutActs front ++ stdoutActs rest := List.filterMap_append

/-- A step of the two copies: it starts nothing and closes no connection. -/
theorem Bridged.copy (h : Bridged command effects s) (hspawned : next.spawned = s.spawned)
    (hstarts : ∀ effect ∈ sent, (∀ args, effect ≠ .spawned args) ∧ effect ≠ .closeConnection)
    (hstdin : OneWay (stdinActs effects ++ stdinActs sent) next.stdin)
    (hstdout : OneWay (stdoutActs effects ++ stdoutActs sent) next.stdout)
    (hclosed : .closeStdin ∈ sent ∨ s.copyDone = true ↔ next.copyDone = true)
    (hfin : .fin ∈ sent ∨ s.stdoutDone = true ↔ next.stdoutDone = true)
    (hlast : ∀ effect ∈ sent, OnStdout effect → s.stdoutDone = false ∧ .fin ∉ sent) :
    Bridged command (effects ++ sent) next := by
  have hstarted : Started (effects ++ sent) ↔ Started effects := by
    refine ⟨?_, fun ⟨args, hmem⟩ => ⟨args, List.mem_append_left _ hmem⟩⟩
    rintro ⟨args, hmem⟩
    rcases List.mem_append.mp hmem with hold | hnew
    · exact ⟨args, hold⟩
    · exact absurd rfl ((hstarts _ hnew).1 args)
  refine ⟨?_, ?_, ?_, ?_, ?_, ?_, ?_, ?_⟩
  · rw [stdinActs_append]
    exact hstdin
  · rw [stdoutActs_append]
    exact hstdout
  · rw [List.mem_append, h.closed, or_comm]
    exact hclosed
  · rw [List.mem_append, h.fin, or_comm]
    exact hfin
  · rw [hstarted, h.started, hspawned]
  · intro args hmem
    rcases List.mem_append.mp hmem with hold | hnew
    · exact h.args args hold
    · exact absurd rfl ((hstarts _ hnew).1 args)
  · refine h.last.append fun front effect rest heq hon hmem => ?_
    obtain ⟨hopen, hnone⟩ := hlast effect (by rw [heq]; simp) hon
    rcases List.mem_append.mp hmem with hold | hnew
    · rw [h.fin.mp hold] at hopen
      cases hopen
    · exact hnone (by rw [heq]; simp [hnew])
  · refine h.closes.append_of_none fun effect heffect hclose => ?_
    exact (hstarts effect heffect).2 hclose

/-- **Every step keeps this.** -/
theorem Bridged.step (hsound : Sound s) (h : Bridged command effects s)
    (hsent : Sent command s next sent) : Bridged command (effects ++ sent) next := by
  cases hsent with
  | nothing hsame hspawned =>
      refine h.same hsame ?_ (by simp) (by simp) (by simp)
      rw [List.append_nil, hspawned]
      exact h.started
  | spawned args hsame hspawned hargs hsome =>
      refine h.same hsame ?_ ?_ ?_ (by simp)
      · rw [hspawned]
        exact ⟨fun _ => rfl, fun _ => ⟨args, by simp⟩⟩
      · simpa using ⟨hargs, hsome⟩
      · simp [ExecEffect.stdin?, ExecEffect.stdout?]
  | kill hsame hspawned =>
      refine h.same hsame ?_ (by simp) (by simp [ExecEffect.stdin?, ExecEffect.stdout?]) (by simp)
      rw [hspawned, ← h.started]
      simp [Started]
  | stdin io hopen hphase hnext =>
      subst hnext
      refine h.copy rfl (by simp) ?_ ?_ (by simp) (by simp) (by simp [OnStdout])
      · have hacts : stdinActs ((copyInner false s.copyStop io s.stdin).2.2.map ExecEffect.stdin) =
            (copyInner false s.copyStop io s.stdin).2.2 := by
          simp [stdinActs, List.filterMap_map, Function.comp_def, ExecEffect.stdin?]
        rw [hacts]
        exact h.stdin.step hphase false s.copyStop io
      · have hacts : stdoutActs ((copyInner false s.copyStop io s.stdin).2.2.map ExecEffect.stdin) =
            [] := by
          simp [stdoutActs, List.filterMap_map, Function.comp_def, ExecEffect.stdout?]
        rw [hacts, List.append_nil]
        exact h.stdout
  | stdinOver hopen hnext =>
      subst hnext
      have hin : stdinActs ((if s.copyStop then [.stopSending] else []) ++
          [(.closeStdin : ExecEffect ε)]) = [] := by
        split <;> rfl
      have hout : stdoutActs ((if s.copyStop then [.stopSending] else []) ++
          [(.closeStdin : ExecEffect ε)]) = [] := by
        split <;> rfl
      refine h.copy rfl ?_ ?_ ?_ (by simp) ?_ ?_
      · split <;> simp
      · rw [hin, List.append_nil]
        exact h.stdin
      · rw [hout, List.append_nil]
        exact h.stdout
      · split <;> simp
      · split <;> simp [OnStdout]
  | stdout io hopen hphase hnext =>
      subst hnext
      refine h.copy rfl (by simp) ?_ ?_ (by simp) (by simp) ?_
      · have hacts : stdinActs ((copyInner false false io s.stdout).2.2.map ExecEffect.stdout) = [] := by
          simp [stdinActs, List.filterMap_map, Function.comp_def, ExecEffect.stdin?]
        rw [hacts, List.append_nil]
        exact h.stdin
      · have hacts : stdoutActs ((copyInner false false io s.stdout).2.2.map ExecEffect.stdout) =
            (copyInner false false io s.stdout).2.2 := by
          simp [stdoutActs, List.filterMap_map, Function.comp_def, ExecEffect.stdout?]
        rw [hacts]
        exact h.stdout.step hphase false false io
      · intro effect _ _
        exact ⟨hopen, by simp⟩
  | stdoutOver hopen hnext =>
      subst hnext
      refine h.copy rfl (by simp) ?_ ?_ (by simp) (by simp) (by simp [OnStdout])
      · have hacts : stdinActs [(.fin : ExecEffect ε)] = [] := rfl
        rw [hacts, List.append_nil]
        exact h.stdin
      · have hacts : stdoutActs [(.fin : ExecEffect ε)] = [] := rfl
        rw [hacts, List.append_nil]
        exact h.stdout
  | returned result hsame hspawned hpc =>
      refine h.same hsame ?_ (by simp) (by simp [ExecEffect.stdin?, ExecEffect.stdout?]) ?_
      · rw [hspawned, ← h.started]
        simp [Started]
      · intro _ front hfront hstarted
        have hbefore : Started effects := by
          obtain ⟨args, hmem⟩ := hstarted
          rcases List.mem_append.mp hmem with hold | hnew
          · exact ⟨args, hold⟩
          · have hin := hfront.subset hnew
            simp at hin
        exact h.fin.mpr (hsound.stdout (h.started.mp hbefore) (by simp [hpc]))

/-! ### What stops a command -/

theorem behindStdin_of_behindStdout {pc : ExecPc} (h : pc.behindStdout = true) :
    pc.behindStdin = true := by
  cases pc <;> simp_all

/-- `exec_stop` fires for the caller's token, for a lost connection, or behind it all. -/
theorem Sound.stops_cases (h : Sound s) (hspawned : s.spawned = true) (hstops : s.stops = true) :
    s.cancel = true ∨ s.lost = true ∨ s.copyDone = true := by
  rcases (Bool.or_eq_true _ _).mp hstops with hexec | hcancel
  · rcases h.stop hexec with hlost | hbehind
    · exact Or.inr (Or.inl hlost)
    · exact Or.inr (Or.inr (h.stdin hspawned (behindStdin_of_behindStdout hbehind)))
  · exact Or.inl hcancel

/-- The tokens of the caller and of the connection, and the end of the copy, are there to stay. -/
theorem flags_step (command : Bytes) (s : Running ε) (event : ExecEvent ε) :
    let next := (runExecCommand command s event).1
    (s.cancel = true → next.cancel = true) ∧ (s.lost = true → next.lost = true) ∧
      (s.copyDone = true → next.copyDone = true) := by
  cases event <;>
    simp only [runExecCommand, Running.main, Running.spawn, Running.copyStdin, Running.copyStdout,
      Running.fails] <;>
    grind

/-- `copy_stop` is canceled by the task that forwards, or in the drain. -/
theorem copyStop_cases (hnext : (runExecCommand command s event).1.copyStop = true) :
    s.copyStop = true ∨ (s.forwarder = true ∧ s.stops = true) ∨
      (∃ err, s.pc = .draining err) ∧ (s.stops = true ∨ event = .drainTimeout) := by
  cases event <;>
    simp only [runExecCommand, Running.main, Running.spawn, Running.copyStdin, Running.copyStdout,
      Running.fails] at hnext <;>
    grind

theorem returned_stays {result : Option ExecError} (hpc : s.pc = .returned result) :
    (runExecCommand command s event).1.pc = .returned result := by
  cases event <;>
    simp only [runExecCommand, Running.main, Running.spawn, Running.copyStdin, Running.copyStdout,
      Running.fails] <;>
    grind

theorem cmdErr_ne_waitFailed (status : ExitStatus) : cmdErr status ≠ some .waitFailed := by
  cases status with
  | signal => simp [cmdErr]
  | code c =>
      simp only [cmdErr]
      split <;> simp

/-- A wait that failed puts its error in the place of the child's status, and nothing else does. -/
theorem result_waitFailed_iff :
    (runExecCommand command s event).1.pc.result? = some (some .waitFailed) ↔
      s.pc.result? = some (some .waitFailed) ∨ event = .waitFailed ∧ s.pc = .waiting := by
  have hstatus := cmdErr_ne_waitFailed
  cases event <;>
    simp only [runExecCommand, Running.main, Running.spawn, Running.copyStdin, Running.copyStdout,
      Running.fails] <;>
    grind [ExecPc.result?]

/-! ### Runs -/

variable {history : List (Machine.Record (Running ε) (ExecEvent ε) (ExecEffect ε))} {now : Nat}

/-- The wait for the child failed. -/
def WaitFailed (history : List (Machine.Record (Running ε) (ExecEvent ε) (ExecEffect ε))) : Prop :=
  ∃ r ∈ history, r.event = .waitFailed ∧ r.before.pc = .waiting

/-- The drain timeout fired, behind the wait for the child, which has given its status or failed. -/
def TimedOut (history : List (Machine.Record (Running ε) (ExecEvent ε) (ExecEffect ε))) : Prop :=
  ∃ r ∈ history, r.event = .drainTimeout ∧ ∃ err, r.before.pc = .draining err

/-- A reason to give the child's input up. -/
def Stopped (history : List (Machine.Record (Running ε) (ExecEvent ε) (ExecEffect ε)))
    (s : Running ε) : Prop :=
  s.cancel = true ∨ s.lost = true ∨ TimedOut history

theorem waitFailed_concat {event : ExecEvent ε} :
    WaitFailed (history ++ [(execMachine ε command).record s event]) ↔
      WaitFailed history ∨ event = .waitFailed ∧ s.pc = .waiting := by
  simp [WaitFailed, Machine.record, or_and_right, exists_or]

structure Executed (command : Bytes)
    (history : List (Machine.Record (Running ε) (ExecEvent ε) (ExecEffect ε)))
    (s : Running ε) : Prop where
  sound : Sound s
  bridged : Bridged command (history.flatMap (·.sent)) s
  killed : .kill ∈ history.flatMap (·.sent) → s.cancel = true ∨ s.lost = true
  copyStop : s.copyStop = true → Stopped history s ∨ s.copyDone = true
  stopSending : .stopSending ∈ history.flatMap (·.sent) → Stopped history s
  returned : ∀ result, .returned result ∈ history.flatMap (·.sent) → s.pc = .returned result
  waitFailed : s.pc.result? = some (some .waitFailed) ↔ WaitFailed history

theorem Stopped.step (h : Stopped history s) (event : ExecEvent ε) :
    Stopped (history ++ [(execMachine ε command).record s event])
      (runExecCommand command s event).1 := by
  obtain ⟨hcancel, hlost, -⟩ := flags_step command s event
  rcases h with h | h | ⟨r, hr, htimed⟩
  · exact Or.inl (hcancel h)
  · exact Or.inr (Or.inl (hlost h))
  · exact Or.inr (Or.inr ⟨r, List.mem_append_left _ hr, htimed⟩)

theorem Executed.copyStop_step (h : Executed command history s) (event : ExecEvent ε)
    (hnext : (runExecCommand command s event).1.copyStop = true) :
    Stopped (history ++ [(execMachine ε command).record s event]) (runExecCommand command s event).1 ∨
      (runExecCommand command s event).1.copyDone = true := by
  obtain ⟨hcancel, hlost, hdone⟩ := flags_step command s event
  have hstops : s.spawned = true → s.stops = true →
      Stopped (history ++ [(execMachine ε command).record s event])
        (runExecCommand command s event).1 ∨ (runExecCommand command s event).1.copyDone = true := by
    intro hspawned hstops
    rcases h.sound.stops_cases hspawned hstops with hc | hl | hd
    · exact Or.inl (Or.inl (hcancel hc))
    · exact Or.inl (Or.inr (Or.inl (hlost hl)))
    · exact Or.inr (hdone hd)
  rcases copyStop_cases hnext with hold | ⟨hforwards, hstop⟩ | ⟨⟨err, hpc⟩, hstop | rfl⟩
  · exact (h.copyStop hold).imp (fun hstopped => hstopped.step event) hdone
  · exact hstops (h.sound.forwards hforwards) hstop
  · exact hstops (h.sound.spawned_of (by simp [hpc]) (by simp [hpc])) hstop
  · exact Or.inl (Or.inr (Or.inr ⟨_, List.mem_append_right _ (List.mem_singleton.mpr rfl), rfl, err, hpc⟩))

theorem Executed.step (h : Executed command history s) (event : ExecEvent ε) :
    Executed command (history ++ [(execMachine ε command).record s event])
      (runExecCommand command s event).1 := by
  have hsent := sent_step command s event
  obtain ⟨hcancel, hlost, -⟩ := flags_step command s event
  have heffects : (history ++ [(execMachine ε command).record s event]).flatMap (·.sent) =
      history.flatMap (·.sent) ++ (runExecCommand command s event).2 := by
    rw [List.flatMap_append, List.flatMap_singleton]
    rfl
  refine ⟨h.sound.step event, heffects ▸ h.bridged.step h.sound hsent, ?_, h.copyStop_step event, ?_,
    ?_, ?_⟩
  · intro hkill
    rw [heffects] at hkill
    rcases List.mem_append.mp hkill with hold | hnew
    · exact (h.killed hold).imp hcancel hlost
    · obtain ⟨hpc, hstops⟩ := hsent.kill_mem hnew
      rcases (Bool.or_eq_true _ _).mp hstops with hexec | hc
      · exact Or.inr (hlost ((h.sound.stop hexec).resolve_right (by simp [hpc])))
      · exact Or.inl (hcancel hc)
  · intro hstop
    rw [heffects] at hstop
    rcases List.mem_append.mp hstop with hold | hnew
    · exact (h.stopSending hold).step event
    · obtain ⟨hcopyStop, hopen⟩ := hsent.stopSending_mem hnew
      refine ((h.copyStop hcopyStop).resolve_right ?_).step event
      simp [hopen]
  · intro result hreturned
    rw [heffects] at hreturned
    rcases List.mem_append.mp hreturned with hold | hnew
    · exact returned_stays (h.returned result hold)
    · exact hsent.returned_mem hnew
  · rw [result_waitFailed_iff, h.waitFailed]
    exact waitFailed_concat.symm

theorem executed_of_run (hrun : (execMachine ε command).Run history s now) :
    Executed command history s := by
  refine hrun.inv (G := fun _ _ => True) (I := fun history s _ => Executed command history s) ?_ ?_
    fun _ _ => trivial
  · exact ⟨sound_start, bridged_start, by simp, by simp [execMachine, Running.start], by simp, by simp,
      by simp [execMachine, Running.start, WaitFailed]⟩
  · intro history s now event _ _ _ h
    exact h.step event

/-- **The bytes of a command.** At every point of every run the child's input has the front of what
came on the stream, and the stream the front of the child's output; nothing follows the end of the
output on the stream, and the connection is closed only behind it. When the command has returned,
the copy of the output has ended, and if it did not fail the whole output was sent; so it is with the
input. -/
theorem exec_bridges (hrun : (execMachine ε command).Run history s now) :
    let effects := history.flatMap (·.sent)
    let stdin := stdinActs effects
    let stdout := stdoutActs effects
    wroteOf stdin <+: readOf stdin ∧ wroteOf stdout <+: readOf stdout ∧
    Behind OnStdout (.fin ∉ ·) effects ∧
    Behind (· = .closeConnection) (fun front => Started front → .fin ∈ front) effects ∧
    ∀ result, .returned result ∈ effects → Started effects →
      (∃ how, .finished how ∈ stdout ∧ ((∀ error, how ≠ .failed error) → wroteOf stdout = readOf stdout)) ∧
      ∃ how, .finished how ∈ stdin ∧ ((∀ error, how ≠ .failed error) → wroteOf stdin = readOf stdin) := by
  intro effects stdin stdout
  have h := executed_of_run hrun
  refine ⟨h.bridged.stdin.isPrefix, h.bridged.stdout.isPrefix, h.bridged.last, h.bridged.closes, ?_⟩
  intro result hreturned hstarted
  have hpc := h.returned result hreturned
  have hspawned := h.bridged.started.mp hstarted
  have hwhole : ∀ {acts : List (Act ε)} {phase : Phase ε}, OneWay acts phase →
      (∃ how, phase = .ended how) →
      ∃ how, .finished how ∈ acts ∧ ((∀ error, how ≠ .failed error) → wroteOf acts = readOf acts) := by
    rintro acts phase hway ⟨how, rfl⟩
    refine ⟨how, (hway.finished how).mpr rfl, fun hclean => ?_⟩
    have hread := hway.readOf_eq fun error hfailed => ?_
    · rw [hread]
      exact (List.append_nil _).symm
    · exact hclean error (Phase.ended.inj ((hway.finished _).mp hfailed))
  exact ⟨hwhole h.bridged.stdout (h.sound.stdoutEnded (h.sound.stdout hspawned (by simp [hpc]))),
    hwhole h.bridged.stdin (h.sound.stdinEnded (h.sound.stdin hspawned (by simp [hpc])))⟩

/-- The peer's input ends at once, the child writes a byte and exits with 3. -/
def halfClosed : List (ExecEvent Unit) :=
  [.opened true, .announced true, .spawn true] ++
    List.replicate 3 (.stdin ⟨.ready [], .pending⟩) ++
    List.replicate 4 (.stdout ⟨.ready (ascii "x"), .took 1⟩) ++
    List.replicate 3 (.stdout ⟨.ready [], .pending⟩) ++
    [.stop, .exit (.code 3), .waited, .copied, .joined, .finishDelay]

theorem exec_bridges_exit :
    let M := execMachine Unit (ascii "ls")
    let effects := (M.trace M.init halfClosed).flatMap (·.sent)
    .finished .eof ∈ stdoutActs effects ∧ wroteOf (stdoutActs effects) = ascii "x" := by
  intro M effects
  have hordered : M.Ordered 0 halfClosed := by decide
  have hreturned : .returned (some (.exit 3)) ∈ effects := by decide
  have hread : readOf (stdoutActs effects) = ascii "x" := by decide
  have heof : .finished .eof ∈ stdoutActs effects := by decide
  have hclean : ∀ error, .finished (.failed error) ∉ stdoutActs effects := by
    intro error
    cases error with
    | writeZero => decide
    | io error => cases error; decide
  obtain ⟨-, -, -, -, hwhole⟩ := exec_bridges (M.run_exec hordered)
  obtain ⟨⟨how, hmem, hcopied⟩, -⟩ := hwhole _ hreturned ⟨[ascii "ls"], by decide⟩
  exact ⟨heof, (hcopied fun error heq => hclean error (heq ▸ hmem)).trans hread⟩

end Qvole.Exec
