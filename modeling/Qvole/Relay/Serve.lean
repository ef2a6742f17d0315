import Qvole.Relay.Threads

/-!
# The serving loop

Port of `run` and `write_relay` of `relay.rs`: one task reads datagrams into a bounded channel, a
number of workers take them out and handle them, and the cleanup task ticks between them. Every task
is a sequence of small steps, and the steps of different tasks interleave freely; the handlers are
the programs of `Relay.Threads`, so a step of a worker is one operation on the shared memory, or the
start or the end of one write. How a write ends is only logged. The stats task only logs as well and
is left out, and so is what fails before the loops start.

Of flume's bounded channel this is taken, as its documentation has it: receivers get the datagrams in
the order in which they were sent, each by one receiver; `try_send` refuses one only when the channel
is full, and a receiver that waits may make room for one more; `recv_async` fails once the channel is
empty and its sender gone. Of tokio's `Semaphore`: `try_acquire` fails when no permit is free, and a
permit that is dropped is free again.
-/

namespace Qvole.Relay.Serve

open Threads (Code Globals Input Job)

/-- The settings that `run` reads. -/
structure Settings where
  pktChanBuf : Nat
  writePoolSize : Nat
  relayWorkers : Nat
  deriving DecidableEq, Repr

def Settings.defaults : Settings where
  pktChanBuf := 256
  writePoolSize := 256
  relayWorkers := 4

abbrev Datagram := Bytes × SocketAddr

/-- The read loop, or what it returned. Returning drops the sending end of the channel. -/
inductive Reader where
  | reading
  | returned (ok : Bool)
  deriving DecidableEq, Repr

inductive Worker where
  /-- In `recv_async`. -/
  | waiting
  /-- In a handler that has not come to its writes. -/
  | handling (prog : Code (List Reply))
  /-- Between two writes, with the replies still to be written. -/
  | writing (rest : List Reply)
  /-- In `send_to`, with the replies behind this one. -/
  | sending (rest : List Reply)
  | ended

inductive Cleanup where
  | waiting
  | working (prog : Code (List Reply))
  | ended

/-- A worker in a handler that has come this far. -/
def Worker.of : Code (List Reply) → Worker
  | .ret replies => .writing replies
  | .op o next => .handling (.op o next)

def Cleanup.of : Code (List Reply) → Cleanup
  | .ret _ => .waiting
  | .op o next => .working (.op o next)

structure Server where
  globals : Globals
  cancelled : Bool
  reader : Reader
  queue : List Datagram
  workers : List Worker
  cleanup : Cleanup
  /-- The free permits of the write pool, when there is one. -/
  permits : Option Nat
  /-- `stat_drops`, as far as it counts what the channel or the write pool had no place for. -/
  statDrops : Nat

def Server.start (settings : Settings) : Server where
  globals := .empty
  cancelled := false
  reader := .reading
  queue := []
  workers := List.replicate settings.relayWorkers .waiting
  cleanup := .waiting
  permits := if settings.writePoolSize > 0 then some settings.writePoolSize else none
  statDrops := 0

inductive Event where
  /-- A datagram was read. `roomy` tells whether a channel that is full takes one more, as it may for
  a receiver that waits. -/
  | received (datagram : Datagram) (roomy : Bool)
  | readError
  | cancel
  | readerStops
  | take (worker : Nat)
  | leave (worker : Nat)
  | work (worker : Nat) (input : Input)
  | write (worker : Nat)
  | wrote (worker : Nat)
  | roomTick
  | rateTick
  | clean (input : Input)
  | cleanupStops

/-- What the serving loop does with datagrams, ticks and replies. -/
inductive Note where
  | queued (datagram : Datagram)
  | refused (datagram : Datagram)
  | taken (datagram : Datagram)
  | ticked (job : Job)
  | sent (reply : Reply)
  | unsent (reply : Reply)
  | finished

namespace Server

def setWorker (server : Server) (i : Nat) (worker : Worker) : Server :=
  { server with workers := server.workers.set i worker }

/-- `tx.try_send`. -/
def trySend (server : Server) (settings : Settings) (datagram : Datagram) (roomy : Bool) :
    Server × List Note :=
  if server.queue.length < settings.pktChanBuf ∨ roomy then
    ({ server with queue := server.queue ++ [datagram] }, [.queued datagram])
  else ({ server with statDrops := server.statDrops + 1 }, [.refused datagram])

/-- `rx.recv_async`: a datagram, or the end once the sender is gone and the channel is empty. -/
def take (server : Server) (cfg : Config) (i : Nat) : Server × List Note :=
  match server.workers[i]?, server.queue with
  | some .waiting, datagram :: queue =>
      let prog := Threads.code cfg (.packet datagram.1 datagram.2)
      ({ server with queue }.setWorker i (.of prog), [.taken datagram])
  | _, _ => (server, [])

def leave (server : Server) (i : Nat) : Server × List Note :=
  match server.workers[i]?, server.queue, server.reader with
  | some .waiting, [], .returned _ => (server.setWorker i .ended, [])
  | _, _, _ => (server, [])

def work (server : Server) (i : Nat) (input : Input) : Server × List Note :=
  match server.workers[i]? with
  | some (.handling (.op o next)) =>
      if server.globals.ready o then
        let result := server.globals.exec o input
        ({ server with globals := result.1 }.setWorker i (.of (next result.2)), [])
      else (server, [])
  | _ => (server, [])

/-- `write_relay` up to the write: without a permit the reply is dropped and counted. -/
def writeRelay (server : Server) (i : Nat) (reply : Reply) (rest : List Reply) :
    Server × List Note :=
  match server.permits with
  | some 0 =>
      ({ server with statDrops := server.statDrops + 1 }.setWorker i (.writing rest),
        [.unsent reply])
  | some (free + 1) =>
      ({ server with permits := some free }.setWorker i (.sending rest), [.sent reply])
  | none => (server.setWorker i (.sending rest), [.sent reply])

/-- The next write, or the end of the handler. -/
def write (server : Server) (i : Nat) : Server × List Note :=
  match server.workers[i]? with
  | some (.writing (reply :: rest)) => server.writeRelay i reply rest
  | some (.writing []) => (server.setWorker i .waiting, [.finished])
  | _ => (server, [])

/-- The write is over and its permit goes back. -/
def wrote (server : Server) (i : Nat) : Server × List Note :=
  match server.workers[i]? with
  | some (.sending rest) =>
      ({ server with permits := server.permits.map (· + 1) }.setWorker i (.writing rest), [])
  | _ => (server, [])

def tick (server : Server) (cfg : Config) (job : Job) : Server × List Note :=
  match server.cleanup with
  | .waiting => ({ server with cleanup := .of (Threads.code cfg job) }, [.ticked job])
  | _ => (server, [])

def clean (server : Server) (input : Input) : Server × List Note :=
  match server.cleanup with
  | .working (.op o next) =>
      if server.globals.ready o then
        let result := server.globals.exec o input
        ({ server with globals := result.1, cleanup := .of (next result.2) }, [])
      else (server, [])
  | _ => (server, [])

def stopCleanup (server : Server) : Server :=
  match server.cleanup with
  | .waiting => if server.cancelled then { server with cleanup := .ended } else server
  | _ => server

def step (cfg : Config) (settings : Settings) (server : Server) : Event → Server × List Note
  | .received datagram roomy =>
      match server.reader with
      | .reading => server.trySend settings datagram roomy
      | .returned _ => (server, [])
  | .readError =>
      match server.reader with
      | .reading => ({ server with reader := .returned false }, [])
      | .returned _ => (server, [])
  | .cancel => ({ server with cancelled := true }, [])
  | .readerStops =>
      match server.reader with
      | .reading =>
          (if server.cancelled then { server with reader := .returned true } else server, [])
      | .returned _ => (server, [])
  | .take i => server.take cfg i
  | .leave i => server.leave i
  | .work i input => server.work i input
  | .write i => server.write i
  | .wrote i => server.wrote i
  | .roomTick => server.tick cfg .roomTick
  | .rateTick => server.tick cfg .rateTick
  | .clean input => server.clean input
  | .cleanupStops => (server.stopCleanup, [])

end Server

def machine (cfg : Config) (settings : Settings) : Machine Server Event Note where
  init := .start settings
  step := Server.step cfg settings
  start := fun _ => 0
  finish := fun _ => 0

end Qvole.Relay.Serve
