import Qvole.Copy.Bidirectional
import Qvole.Exec.Command

/-!
# Running a command

Port of `run_exec_command` and of what `run_exec` does behind it: a stream is opened, the command is
started with its standard input and output bridged to the stream, and its exit is awaited. The tasks
are the watcher of the connection, the one that passes `exec_stop` on to `copy_stop`, the copies to the
child's input and from its output, and the call itself. They interleave freely; what the child, the
pipes, the stream and the timers do are events, and so is which branch of a `select!` is taken. An
event whose branch is not ready changes nothing. That a copy task panics is left out.
-/

namespace Qvole.Exec

open Copy (Phase Act Io copyInner)

variable {ε : Type}

/-- `code()` of the exit status is none for a child that a signal ended. -/
inductive ExitStatus where
  | code (c : Nat)
  | signal
  deriving DecidableEq, Repr

inductive ExecError where
  | canceled
  | quic
  | emptyCommand
  | spawnFailed
  | waitFailed
  | exit (code : Nat)
  | killed
  deriving DecidableEq, Repr

def cmdErr : ExitStatus → Option ExecError
  | .code c => if c = 0 then none else some (.exit c)
  | .signal => some .killed

/-- Where the call stands. -/
inductive ExecPc where
  | opening
  | announcing
  | spawning
  /-- In the `select!` over the child's exit and `exec_stop`. -/
  | waiting
  /-- In `child.kill()`. -/
  | killing
  /-- In the `select!` over `copy_done`, `exec_stop` and the drain timeout. -/
  | draining (cmdErr : Option ExecError)
  /-- Behind `copy_stop.cancel()`, in the wait for `copy_done`. -/
  | interrupted (cmdErr : Option ExecError)
  /-- In the wait for the copy of the output. -/
  | joining (cmdErr : Option ExecError)
  /-- Back in `run_exec`, before the connection is closed. -/
  | finishing (result : Option ExecError)
  | returned (result : Option ExecError)
  deriving DecidableEq, Repr

structure Running (ε : Type) where
  pc : ExecPc
  /-- The caller's token, and whether the connection is closed. -/
  cancel : Bool
  lost : Bool
  /-- The child of the caller's token, as canceled on its own. -/
  execStop : Bool
  copyStop : Bool
  copyDone : Bool
  watcher : Bool
  forwarder : Bool
  /-- The copies, once the child is there. -/
  stdin : Phase ε
  stdout : Phase ε
  stdoutDone : Bool
  spawned : Bool
  exited : Option ExitStatus

def Running.start : Running ε :=
  { pc := .opening, cancel := false, lost := false, execStop := false, copyStop := false,
    copyDone := false, watcher := false, forwarder := false, stdin := .selecting,
    stdout := .selecting, stdoutDone := false, spawned := false, exited := none }

/-- `exec_stop.is_cancelled()`. -/
def Running.stops (s : Running ε) : Bool := s.execStop || s.cancel

inductive ExecEffect (ε : Type) where
  | spawned (args : List Bytes)
  | stdin (act : Act ε)
  | stdout (act : Act ε)
  | kill
  /-- `recv.stop(0)`. -/
  | stopSending
  | closeStdin
  /-- The sending half of the stream is finished. -/
  | fin
  | closeConnection
  | returned (result : Option ExecError)
  deriving DecidableEq, Repr

inductive ExecEvent (ε : Type) where
  | cancel
  | lost
  | opened (ok : Bool)
  | announced (ok : Bool)
  | spawn (ok : Bool)
  /-- The branches of the watcher, and the task that forwards. -/
  | watchClosed
  | watchStopped
  | forward
  | stdin (io : Io ε)
  | stdout (io : Io ε)
  | exit (status : ExitStatus)
  /-- The branches of the wait, and the end of `child.kill()`. -/
  | waited
  | waitFailed
  | stop
  | killed (failed : Bool)
  /-- The branches of the drain, the waits behind it, and the delay before the close. -/
  | copied
  | interrupt
  | drainTimeout
  | joined
  | finishDelay

/-- An early return. -/
def Running.fails (s : Running ε) (error : ExecError) : Running ε × List (ExecEffect ε) :=
  ({ s with pc := .finishing (some error) }, [])

def Running.spawn (command : Bytes) (ok : Bool) (s : Running ε) : Running ε × List (ExecEffect ε) :=
  match splitCommand command with
  | none => s.fails .emptyCommand
  | some args =>
      if args = [] then s.fails .emptyCommand
      else if ok then
        ({ s with pc := .waiting, watcher := true, forwarder := true, spawned := true }, [.spawned args])
      else ({ s with watcher := true }).fails .spawnFailed

/-- The copy to the child's input, and what follows it. -/
def Running.copyStdin (io : Io ε) (s : Running ε) : Running ε × List (ExecEffect ε) :=
  match s.stdin with
  | .ended _ =>
      ({ s with copyDone := true }, (if s.copyStop then [.stopSending] else []) ++ [.closeStdin])
  | phase =>
      let next := copyInner false s.copyStop io phase
      ({ s with stdin := next.1 }, next.2.2.map .stdin)

/-- The copy from the child's output, which nothing stops, and the end of the stream behind it. -/
def Running.copyStdout (io : Io ε) (s : Running ε) : Running ε × List (ExecEffect ε) :=
  match s.stdout with
  | .ended _ => ({ s with stdoutDone := true }, [.fin])
  | phase =>
      let next := copyInner false false io phase
      ({ s with stdout := next.1 }, next.2.2.map .stdout)

/-- The call's own steps behind the start of the child. -/
def Running.main (s : Running ε) : ExecEvent ε → Running ε × List (ExecEffect ε)
  | .waited =>
      match s.pc, s.exited with
      | .waiting, some status => ({ s with pc := .draining (cmdErr status) }, [])
      | _, _ => (s, [])
  | .waitFailed =>
      if s.pc = .waiting then ({ s with pc := .draining (some .waitFailed) }, []) else (s, [])
  | .stop => if s.pc = .waiting && s.stops then ({ s with pc := .killing }, [.kill]) else (s, [])
  | .killed failed =>
      if s.pc = .killing && (s.exited.isSome || failed) then ({ s with pc := .waiting }, []) else (s, [])
  | .copied =>
      match s.pc with
      | .draining err => if s.copyDone then ({ s with pc := .joining err }, []) else (s, [])
      | .interrupted err => if s.copyDone then ({ s with pc := .joining err }, []) else (s, [])
      | _ => (s, [])
  | .interrupt =>
      match s.pc with
      | .draining err =>
          if s.stops then ({ s with copyStop := true, pc := .interrupted err }, []) else (s, [])
      | _ => (s, [])
  | .drainTimeout =>
      match s.pc with
      | .draining err => ({ s with copyStop := true, pc := .interrupted err }, [])
      | _ => (s, [])
  | .joined =>
      match s.pc with
      | .joining err =>
          if s.stdoutDone then ({ s with execStop := true, pc := .finishing err }, []) else (s, [])
      | _ => (s, [])
  | .finishDelay =>
      match s.pc with
      | .finishing result => ({ s with pc := .returned result }, [.closeConnection, .returned result])
      | _ => (s, [])
  | _ => (s, [])

def runExecCommand (command : Bytes) (s : Running ε) :
    ExecEvent ε → Running ε × List (ExecEffect ε)
  | .cancel => ({ s with cancel := true }, [])
  | .lost => ({ s with lost := true }, [])
  | .opened ok =>
      if s.pc ≠ .opening then (s, [])
      else if ok then ({ s with pc := .announcing }, [])
      else s.fails (if s.cancel then .canceled else .quic)
  | .announced ok =>
      if s.pc ≠ .announcing then (s, [])
      else if ok then ({ s with pc := .spawning }, [])
      else s.fails (if s.cancel then .canceled else .quic)
  | .spawn ok => if s.pc ≠ .spawning then (s, []) else s.spawn command ok
  | .watchClosed =>
      if s.watcher && s.lost then ({ s with execStop := true, watcher := false }, []) else (s, [])
  | .watchStopped => if s.watcher && s.stops then ({ s with watcher := false }, []) else (s, [])
  | .forward =>
      if s.forwarder && s.stops then ({ s with copyStop := true, forwarder := false }, []) else (s, [])
  | .stdin io => if s.spawned && !s.copyDone then s.copyStdin io else (s, [])
  | .stdout io => if s.spawned && !s.stdoutDone then s.copyStdout io else (s, [])
  | .exit status =>
      if s.spawned && s.exited.isNone then ({ s with exited := some status }, []) else (s, [])
  | event => s.main event

/-- Runs of the command. The clock plays no part. -/
def execMachine (ε : Type) (command : Bytes) : Machine (Running ε) (ExecEvent ε) (ExecEffect ε) where
  init := .start
  step := runExecCommand command
  start _ := 0
  finish _ := 0

/-! ### The exit code of the process -/

end Qvole.Exec
