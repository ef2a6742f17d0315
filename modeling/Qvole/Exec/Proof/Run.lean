import Qvole.Copy.Proof.Bytes
import Qvole.Exec.Run

/-!
# Where a running command stands

The state of the call and of its tasks: the call is behind a copy only when that is over, its result
is the child's, and `exec_stop` is canceled on its own only for a lost connection or at the end.
-/

namespace Qvole.Exec

open Copy (Phase Act Io Ended copyInner Kept)

variable {ε : Type} {command : Bytes} {s : Running ε}

/-! ### Places of the call -/

/-- What the call will return, from the wait for the child on. -/
@[simp]
def ExecPc.result? : ExecPc → Option (Option ExecError)
  | .draining err => some err
  | .interrupted err => some err
  | .joining err => some err
  | .finishing result => some result
  | .returned result => some result
  | _ => none

/-- Behind the copy to the child's input. -/
@[simp]
def ExecPc.behindStdin : ExecPc → Bool
  | .joining _ => true
  | .finishing _ => true
  | .returned _ => true
  | _ => false

/-- Behind the copy of its output. -/
@[simp]
def ExecPc.behindStdout : ExecPc → Bool
  | .finishing _ => true
  | .returned _ => true
  | _ => false

/-- Before the child. -/
@[simp]
def ExecPc.early : ExecPc → Bool
  | .opening => true
  | .announcing => true
  | .spawning => true
  | _ => false

/-- A return before the child was started. -/
def EarlyError (s : Running ε) (error : ExecError) : Prop :=
  error = .canceled ∧ s.cancel = true ∨ error = .quic ∨ error = .emptyCommand ∨ error = .spawnFailed

/-- What holds in every state. -/
structure Sound (s : Running ε) : Prop where
  stop : s.execStop = true → s.lost = true ∨ s.pc.behindStdout = true
  stdin : s.spawned = true → s.pc.behindStdin = true → s.copyDone = true
  stdout : s.spawned = true → s.pc.behindStdout = true → s.stdoutDone = true
  result : s.spawned = true → ∀ result, s.pc.result? = some result →
    result = some .waitFailed ∨ ∃ status, s.exited = some status ∧ result = cmdErr status
  late : s.spawned = true → s.pc.early = false
  failed : s.spawned = false → s.pc.early = true ∨ ∃ error, EarlyError s error ∧
    (s.pc = .finishing (some error) ∨ s.pc = .returned (some error))
  forwards : s.forwarder = true → s.spawned = true
  stdinEnded : s.copyDone = true → ∃ how, s.stdin = .ended how
  stdoutEnded : s.stdoutDone = true → ∃ how, s.stdout = .ended how

theorem sound_start : Sound (.start : Running ε) := by
  constructor <;> simp [Running.start, ExecPc.early, ExecPc.result?]

theorem Sound.spawned_of (h : Sound s) (hlate : s.pc.early = false)
    (hpc : s.pc.behindStdout = false) : s.spawned = true := by
  by_contra hnot
  rcases h.failed (by simpa using hnot) with hearly | ⟨error, -, hpc' | hpc'⟩
  · rw [hearly] at hlate
    cases hlate
  · rw [hpc'] at hpc
    cases hpc
  · rw [hpc'] at hpc
    cases hpc

/-- The call goes on, with the child there. -/
theorem Sound.goto {pc : ExecPc} (h : Sound s) (hspawned : s.spawned = true)
    (hstop : s.pc.behindStdout = true → pc.behindStdout = true)
    (hstdin : pc.behindStdin = true → s.copyDone = true)
    (hstdout : pc.behindStdout = true → s.stdoutDone = true)
    (hresult : ∀ result, pc.result? = some result →
      result = some .waitFailed ∨ ∃ status, s.exited = some status ∧ result = cmdErr status)
    (hlate : pc.early = false) : Sound { s with pc } where
  stop hexec := (h.stop hexec).imp_right hstop
  stdin _ := hstdin
  stdout _ := hstdout
  result _ := hresult
  late _ := hlate
  failed hnot := by
    rw [hspawned] at hnot
    cases hnot
  forwards := h.forwards
  stdinEnded := h.stdinEnded
  stdoutEnded := h.stdoutEnded

theorem Sound.unspawned (h : Sound s) (hearly : s.pc.early = true) : s.spawned = false := by
  by_contra hspawned
  rw [h.late (by simpa using hspawned)] at hearly
  cases hearly

/-- An early return. -/
theorem Sound.fails (h : Sound s) (hearly : s.pc.early = true) {error : ExecError}
    (herror : EarlyError s error) : Sound (s.fails error).1 := by
  have hnot := h.unspawned hearly
  refine ⟨fun _ => Or.inr rfl, ?_, ?_, ?_, ?_, fun _ => Or.inr ⟨error, herror, Or.inl rfl⟩, h.forwards,
    h.stdinEnded, h.stdoutEnded⟩
  all_goals
    intro hspawned
    rw [show (s.fails error).1.spawned = s.spawned from rfl, hnot] at hspawned
    cases hspawned

theorem Sound.copyStop (h : Sound s) : Sound { s with copyStop := true } :=
  ⟨h.stop, h.stdin, h.stdout, h.result, h.late, h.failed, h.forwards, h.stdinEnded, h.stdoutEnded⟩

theorem Sound.cancel (h : Sound s) : Sound { s with cancel := true } where
  stop := h.stop
  stdin := h.stdin
  stdout := h.stdout
  result := h.result
  late := h.late
  failed hnot := by
    refine (h.failed hnot).imp_right ?_
    rintro ⟨error, herror, hpc⟩
    exact ⟨error, herror.imp_left fun hcanceled => ⟨hcanceled.1, rfl⟩, hpc⟩
  forwards := h.forwards
  stdinEnded := h.stdinEnded
  stdoutEnded := h.stdoutEnded

/-- The stream is opened, or announced. -/
theorem Sound.open {pc : ExecPc} (h : Sound s) (hearly : s.pc.early = true) (hpc : pc.early = true)
    (ok : Bool) :
    Sound (if ok then ({ s with pc }, []) else s.fails (if s.cancel then .canceled else .quic)).1 := by
  cases ok with
  | true =>
      have hnot := h.unspawned hearly
      have hstop : s.execStop = true → s.lost = true := by
        intro hexec
        rcases h.stop hexec with hlost | hbehind
        · exact hlost
        · cases hpc' : s.pc <;> simp_all
      simp only [if_true]
      refine ⟨fun hexec => Or.inl (hstop hexec), ?_, ?_, ?_, ?_, fun _ => Or.inl hpc, h.forwards,
        h.stdinEnded, h.stdoutEnded⟩
      all_goals
        intro hspawned
        rw [hnot] at hspawned
        cases hspawned
  | false =>
      refine h.fails hearly ?_
      by_cases hcancel : s.cancel = true
      · simp [EarlyError, hcancel]
      · simp [EarlyError, hcancel]

/-- The child is started. -/
theorem Sound.spawn (h : Sound s) (hpc : s.pc = .spawning) (ok : Bool) :
    Sound (s.spawn command ok).1 := by
  have hearly : s.pc.early = true := by rw [hpc]; rfl
  unfold Running.spawn
  split
  · exact h.fails hearly (by simp [EarlyError])
  · split
    · exact h.fails hearly (by simp [EarlyError])
    · split
      · refine ⟨fun hexec => ?_, by simp [ExecPc.behindStdin], by simp [ExecPc.behindStdout],
          by simp [ExecPc.result?], by simp [ExecPc.early], by simp, by simp, h.stdinEnded,
          h.stdoutEnded⟩
        exact (h.stop hexec).imp_right fun hbehind => by simp [hpc, ExecPc.behindStdout] at hbehind
      · have hwatched : Sound { s with watcher := true } :=
          ⟨h.stop, h.stdin, h.stdout, h.result, h.late, h.failed, h.forwards, h.stdinEnded,
            h.stdoutEnded⟩
        exact hwatched.fails hearly (by simp [EarlyError])

/-- One step of the copy to the child's input, or what follows it. -/
theorem Sound.copyStdin (h : Sound s) (hopen : s.copyDone = false) (io : Io ε) :
    Sound (s.copyStdin io).1 := by
  unfold Running.copyStdin
  split
  · rename_i how hended
    exact ⟨h.stop, fun _ _ => rfl, h.stdout, h.result, h.late, h.failed, h.forwards,
      fun _ => ⟨how, hended⟩, h.stdoutEnded⟩
  · refine ⟨h.stop, h.stdin, h.stdout, h.result, h.late, h.failed, h.forwards, fun hdone => ?_,
      h.stdoutEnded⟩
    rw [hopen] at hdone
    cases hdone

/-- One step of the copy of the child's output, or what follows it. -/
theorem Sound.copyStdout (h : Sound s) (hopen : s.stdoutDone = false) (io : Io ε) :
    Sound (s.copyStdout io).1 := by
  unfold Running.copyStdout
  split
  · rename_i how hended
    exact ⟨h.stop, h.stdin, fun _ _ => rfl, h.result, h.late, h.failed, h.forwards, h.stdinEnded,
      fun _ => ⟨how, hended⟩⟩
  · refine ⟨h.stop, h.stdin, h.stdout, h.result, h.late, h.failed, h.forwards, h.stdinEnded,
      fun hdone => ?_⟩
    rw [hopen] at hdone
    cases hdone

theorem Sound.exit (h : Sound s) (hrunning : s.exited = none) (status : ExitStatus) :
    Sound { s with exited := some status } where
  stop := h.stop
  stdin := h.stdin
  stdout := h.stdout
  result hspawned result hresult := by
    refine (h.result hspawned result hresult).imp_right ?_
    rintro ⟨status, hexited, -⟩
    rw [hrunning] at hexited
    cases hexited
  late := h.late
  failed := h.failed
  forwards := h.forwards
  stdinEnded := h.stdinEnded
  stdoutEnded := h.stdoutEnded

/-- Back in the wait, or in the kill. -/
theorem Sound.wait {pc : ExecPc} (h : Sound s) (hlate : s.pc.early = false)
    (hbefore : s.pc.behindStdout = false) (hpc : pc = .waiting ∨ pc = .killing) :
    Sound { s with pc } := by
  have hspawned := h.spawned_of hlate hbefore
  have hnot : s.pc.behindStdout = true → pc.behindStdout = true := by
    intro hbehind
    rw [hbefore] at hbehind
    cases hbehind
  rcases hpc with rfl | rfl
  · exact h.goto hspawned hnot (by simp) (by simp) (by simp) rfl
  · exact h.goto hspawned hnot (by simp) (by simp) (by simp) rfl

/-- The wait is over. -/
theorem Sound.drain {err : Option ExecError} (h : Sound s) (hpc : s.pc = .waiting)
    (herr : err = some .waitFailed ∨ ∃ status, s.exited = some status ∧ err = cmdErr status) :
    Sound { s with pc := .draining err } := by
  have hspawned := h.spawned_of (by simp [hpc]) (by simp [hpc])
  exact h.goto hspawned (by simp [hpc]) (by simp) (by simp) (by simpa using herr) rfl

/-- The call goes on with its result. -/
theorem Sound.onward {pc : ExecPc} (err : Option ExecError) (h : Sound s)
    (hspawned : s.spawned = true)
    (hbefore : s.pc.result? = some err) (hafter : pc.result? = some err)
    (hstop : s.pc.behindStdout = true → pc.behindStdout = true)
    (hstdin : pc.behindStdin = true → s.copyDone = true)
    (hstdout : pc.behindStdout = true → s.stdoutDone = true) (hlate : pc.early = false) :
    Sound { s with pc } := by
  refine h.goto hspawned hstop hstdin hstdout ?_ hlate
  intro result hresult
  rw [hafter] at hresult
  exact h.result hspawned result (hbefore.trans hresult)

/-- The call's own steps up to the drain. -/
theorem Sound.waits (h : Sound s) (event : ExecEvent ε)
    (hevent : event = .waited ∨ event = .waitFailed ∨ event = .stop ∨ ∃ failed, event = .killed failed) :
    Sound (s.main event).1 := by
  rcases hevent with rfl | rfl | rfl | ⟨failed, rfl⟩
  · simp only [Running.main]
    split
    · rename_i status hpc hexited
      exact h.drain hpc (Or.inr ⟨status, hexited, rfl⟩)
    · exact h
  · simp only [Running.main]
    split
    · rename_i hpc
      exact h.drain hpc (Or.inl rfl)
    · exact h
  · simp only [Running.main]
    split
    · rename_i hguard
      have hpc : s.pc = .waiting := of_decide_eq_true (Bool.and_eq_true_iff.mp hguard).1
      exact h.wait (by simp [hpc]) (by simp [hpc]) (Or.inr rfl)
    · exact h
  · simp only [Running.main]
    split
    · rename_i hguard
      have hpc : s.pc = .killing := of_decide_eq_true (Bool.and_eq_true_iff.mp hguard).1
      exact h.wait (by simp [hpc]) (by simp [hpc]) (Or.inl rfl)
    · exact h

theorem Sound.interrupted {err : Option ExecError} (h : Sound s) (hpc : s.pc = .draining err) :
    Sound { s with copyStop := true, pc := .interrupted err } := by
  have hspawned := h.spawned_of (by simp [hpc]) (by simp [hpc])
  exact h.copyStop.onward err hspawned (by simp [hpc]) rfl (by simp [hpc]) (by simp) (by simp)
    rfl

theorem Sound.joining {err : Option ExecError} (h : Sound s)
    (hpc : s.pc = .draining err ∨ s.pc = .interrupted err) (hdone : s.copyDone = true) :
    Sound { s with pc := .joining err } := by
  rcases hpc with hpc | hpc
  · exact h.onward err (h.spawned_of (by simp [hpc]) (by simp [hpc])) (by simp [hpc]) rfl
      (by simp [hpc]) (fun _ => hdone) (by simp) rfl
  · exact h.onward err (h.spawned_of (by simp [hpc]) (by simp [hpc])) (by simp [hpc]) rfl
      (by simp [hpc]) (fun _ => hdone) (by simp) rfl

/-- The call's own steps. -/
theorem Sound.main (h : Sound s) (event : ExecEvent ε) : Sound (s.main event).1 := by
  cases event with
  | waited => exact h.waits _ (by simp)
  | waitFailed => exact h.waits _ (by simp)
  | stop => exact h.waits _ (by simp)
  | killed failed => exact h.waits _ (by simp)
  | copied =>
      simp only [Running.main]
      split
      · rename_i err hpc
        split
        · rename_i hdone
          exact h.joining (Or.inl hpc) hdone
        · exact h
      · rename_i err hpc
        split
        · rename_i hdone
          exact h.joining (Or.inr hpc) hdone
        · exact h
      · exact h
  | interrupt =>
      simp only [Running.main]
      split
      · rename_i err hpc
        split
        · exact h.interrupted hpc
        · exact h
      · exact h
  | drainTimeout =>
      simp only [Running.main]
      split
      · rename_i err hpc
        exact h.interrupted hpc
      · exact h
  | joined =>
      simp only [Running.main]
      split
      · rename_i err hpc
        split
        · rename_i hdone
          have hspawned := h.spawned_of (by simp [hpc]) (by simp [hpc])
          have hnext : Sound { s with pc := .finishing err } :=
            h.onward err hspawned (by simp [hpc]) rfl (by simp)
              (fun _ => h.stdin hspawned (by simp [hpc])) (fun _ => hdone) rfl
          exact ⟨fun _ => Or.inr rfl, hnext.stdin, hnext.stdout, hnext.result, hnext.late,
            hnext.failed, hnext.forwards, hnext.stdinEnded, hnext.stdoutEnded⟩
        · exact h
      · exact h
  | finishDelay =>
      simp only [Running.main]
      split
      · rename_i result hpc
        refine ⟨fun _ => Or.inr rfl, fun hspawned _ => h.stdin hspawned (by simp [hpc]),
          fun hspawned _ => h.stdout hspawned (by simp [hpc]),
          fun hspawned result hresult => h.result hspawned result (by simpa [hpc] using hresult),
          fun _ => rfl, fun hnot => ?_, h.forwards, h.stdinEnded, h.stdoutEnded⟩
        rcases h.failed hnot with hearly | ⟨error, herror, hpc' | hpc'⟩
        · simp [hpc] at hearly
        · rw [hpc] at hpc'
          exact Or.inr ⟨error, herror, Or.inr (by simpa using hpc')⟩
        · simp [hpc] at hpc'
      · exact h
  | _ => exact h

theorem Sound.step (h : Sound s) (event : ExecEvent ε) : Sound (runExecCommand command s event).1 := by
  cases event with
  | cancel => exact h.cancel
  | lost =>
      exact ⟨fun _ => Or.inl rfl, h.stdin, h.stdout, h.result, h.late, h.failed, h.forwards,
        h.stdinEnded, h.stdoutEnded⟩
  | opened ok =>
      simp only [runExecCommand]
      split
      · exact h
      · rename_i hpc
        have hopening : s.pc = .opening := not_not.mp hpc
        exact h.open (by simp [hopening]) rfl ok
  | announced ok =>
      simp only [runExecCommand]
      split
      · exact h
      · rename_i hpc
        have hannouncing : s.pc = .announcing := not_not.mp hpc
        exact h.open (by simp [hannouncing]) rfl ok
  | spawn ok =>
      simp only [runExecCommand]
      split
      · exact h
      · rename_i hpc
        exact h.spawn (not_not.mp hpc) ok
  | watchClosed =>
      simp only [runExecCommand]
      split
      · rename_i hguard
        have hlost : s.lost = true := (Bool.and_eq_true_iff.mp hguard).2
        exact ⟨fun _ => Or.inl hlost, h.stdin, h.stdout, h.result, h.late, h.failed, h.forwards,
          h.stdinEnded, h.stdoutEnded⟩
      · exact h
  | watchStopped =>
      simp only [runExecCommand]
      split
      · exact ⟨h.stop, h.stdin, h.stdout, h.result, h.late, h.failed, h.forwards, h.stdinEnded,
          h.stdoutEnded⟩
      · exact h
  | forward =>
      simp only [runExecCommand]
      split
      · exact ⟨h.stop, h.stdin, h.stdout, h.result, h.late, h.failed, by simp, h.stdinEnded,
          h.stdoutEnded⟩
      · exact h
  | stdin io =>
      simp only [runExecCommand]
      split
      · rename_i hguard
        exact h.copyStdin (by simpa using (Bool.and_eq_true_iff.mp hguard).2) io
      · exact h
  | stdout io =>
      simp only [runExecCommand]
      split
      · rename_i hguard
        exact h.copyStdout (by simpa using (Bool.and_eq_true_iff.mp hguard).2) io
      · exact h
  | exit status =>
      simp only [runExecCommand]
      split
      · rename_i hguard
        exact h.exit (Option.isNone_iff_eq_none.mp (Bool.and_eq_true_iff.mp hguard).2) status
      · exact h
  | _ => exact h.main _

end Qvole.Exec
