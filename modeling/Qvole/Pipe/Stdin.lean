import Qvole.Copy.Bidirectional

/-!
# Bridging standard input and output

Port of `start_stdin_pipe`: one task that copies standard input to the peer's stream and the stream to
standard output. The end of standard input ends the stream's sending half only; the end of the stream
stops both. A step is one poll of a source, of a sink or of a token, or one turn of the code around
them, as for the copy of two streams.
-/

namespace Qvole.Pipe

open Copy (Phase Act Io copyInner)

variable {ε : Type}

inductive Dir where
  | stdin
  | inbound
  deriving DecidableEq, Repr

inductive ShutdownAnswer (ε : Type) where
  | pending
  | done
  | failed (error : ε)
  deriving DecidableEq, Repr

/-- The answers to the polls that a step may make. -/
structure PipeIo (ε : Type) extends Io ε where
  shutdown : ShutdownAnswer ε

/-- Where the direction from standard input stands: behind its copy it shuts the stream down. -/
inductive StdinDir (ε : Type) where
  | copying (phase : Phase ε)
  | closing
  | closed

inductive PipePc where
  | idle
  | polling (dir : Dir)
  | checking
  | returned
  deriving DecidableEq, Repr

structure Pipes (ε : Type) where
  stdin : StdinDir ε
  inbound : Phase ε
  stdinDone : Bool
  inboundDone : Bool
  fired : Bool
  /-- The callback that closes standard input was not taken yet. -/
  closeStdin : Bool
  /-- The caller's token; its child `stop` is never canceled on its own. -/
  cancel : Bool
  /-- The child of `stop` that stops the direction from standard input. -/
  stdinStop : Bool
  pc : PipePc

def Pipes.start : Pipes ε :=
  { stdin := .copying .selecting, inbound := .selecting, stdinDone := false, inboundDone := false,
    fired := false, closeStdin := true, cancel := false, stdinStop := false, pc := .idle }

inductive PipeEffect (ε : Type) where
  | act (dir : Dir) (act : Act ε)
  /-- The sending half of the stream is shut down. -/
  | shutdown
  | closeStdin
  /-- `stdin_stop` is canceled. -/
  | stopStdin
  | returned
  deriving DecidableEq, Repr

inductive PipeEvent (ε : Type) where
  /-- The caller's token fires. -/
  | cancel
  | advance (io : PipeIo ε)

def pcBehindStdin (inboundDone : Bool) : PipePc :=
  if inboundDone then .checking else .polling .inbound

/-- One step of the copy from standard input; the end of the copy is followed by the shutdown in the
same poll. -/
def Pipes.copyStdin (s : Pipes ε) (phase : Phase ε) (io : Io ε) : Pipes ε × List (PipeEffect ε) :=
  let next := copyInner false (s.cancel || s.stdinStop) io phase
  let acts := next.2.2.map (.act .stdin)
  match next.2.1 with
  | .ready => ({ s with stdin := .closing }, acts ++ [.shutdown])
  | .running => ({ s with stdin := .copying next.1 }, acts)
  | .pending => ({ s with stdin := .copying next.1, pc := pcBehindStdin s.inboundDone }, acts)

def Pipes.pollStdin (s : Pipes ε) (io : PipeIo ε) : Pipes ε × List (PipeEffect ε) :=
  match s.stdin with
  | .copying phase => s.copyStdin phase io.toIo
  | .closing =>
      match io.shutdown with
      | .pending => ({ s with pc := pcBehindStdin s.inboundDone }, [])
      | _ =>
          -- the result of the shutdown is not looked at
          ({ s with stdin := .closed, stdinDone := true, pc := pcBehindStdin s.inboundDone }, [])
  | .closed => (s, [])

def Pipes.pollInbound (s : Pipes ε) (io : PipeIo ε) : Pipes ε × List (PipeEffect ε) :=
  let next := copyInner false s.cancel io.toIo s.inbound
  ({ s with
      inbound := next.1
      inboundDone := decide (next.2.1 = .ready)
      pc := if next.2.1 = .running then .polling .inbound else .checking },
    next.2.2.map (.act .inbound))

def Pipes.check (s : Pipes ε) : Pipes ε × List (PipeEffect ε) :=
  let first := (s.stdinDone || s.inboundDone) && !s.fired
  let stops := s.inboundDone && !s.stdinDone
  let both := s.stdinDone && s.inboundDone
  ({ s with
      fired := s.fired || first
      closeStdin := s.closeStdin && !first
      stdinStop := s.stdinStop || stops
      pc := if both then .returned else .idle },
    (if first && s.closeStdin then [.closeStdin] else []) ++
      ((if stops then [.stopStdin] else []) ++ if both then [.returned] else []))

def startStdinPipe (s : Pipes ε) : PipeEvent ε → Pipes ε × List (PipeEffect ε)
  | .cancel => ({ s with cancel := true }, [])
  | .advance io =>
      match s.pc with
      | .idle =>
          ({ s with pc := if s.stdinDone then pcBehindStdin s.inboundDone else .polling .stdin }, [])
      | .polling .stdin => s.pollStdin io
      | .polling .inbound => s.pollInbound io
      | .checking => s.check
      | .returned => (s, [])

/-- Runs of the bridge. The clock plays no part. -/
def pipeMachine (ε : Type) : Machine (Pipes ε) (PipeEvent ε) (PipeEffect ε) where
  init := .start
  step := startStdinPipe
  start _ := 0
  finish _ := 0

end Qvole.Pipe
