import Qvole.Lib.Alone
import Qvole.Relay.Serve

/-!
# The serving loop and its threads

Every datagram that a worker takes and every tick is a thread of `Relay.Threads`: the worker that
takes it runs its program, step by step, and then writes its replies. So the serving loop can be
followed by the threads, with the same shared memory, and what holds of the memory under all
interleavings of threads holds of it here. The channel is first in, first out, and nothing that it
accepted is lost or handled twice.
-/

namespace Qvole.Relay.Serve

open Threads (Code Globals Input Job)

variable {cfg : Config} {settings : Settings} {server : Server}

/-! ### What a step can do -/

/-- The cases of a step of the serving loop: the event, the server after it and the notes. -/
inductive Move (cfg : Config) (settings : Settings) (server : Server) :
    Event → Server → List Note → Prop
  | idle (event : Event) : Move cfg settings server event server []
  | queued (datagram : Datagram) (roomy : Bool) : server.reader = .reading →
      Move cfg settings server (.received datagram roomy)
        { server with queue := server.queue ++ [datagram] } [.queued datagram]
  | refused (datagram : Datagram) (roomy : Bool) :
      settings.pktChanBuf ≤ server.queue.length →
      Move cfg settings server (.received datagram roomy)
        { server with statDrops := server.statDrops + 1 } [.refused datagram]
  | returned (event : Event) (ok : Bool) : server.reader = .reading →
      Move cfg settings server event { server with reader := .returned ok } []
  | cancelled : Move cfg settings server .cancel { server with cancelled := true } []
  | took (front rest : List Worker) (datagram : Datagram) (queue : List Datagram) :
      server.workers = front ++ .waiting :: rest → server.queue = datagram :: queue →
      Move cfg settings server (.take front.length)
        { server with
          queue
          workers := front ++ .of (Threads.code cfg (.packet datagram.1 datagram.2)) :: rest }
        [.taken datagram]
  | left (front rest : List Worker) (ok : Bool) : server.workers = front ++ .waiting :: rest →
      server.queue = [] → server.reader = .returned ok →
      Move cfg settings server (.leave front.length)
        { server with workers := front ++ .ended :: rest } []
  | worked (front rest : List Worker) (o : Threads.Op) (next : o.Ret → Code (List Reply))
      (input : Input) : server.workers = front ++ .handling (.op o next) :: rest →
      server.globals.ready o = true →
      Move cfg settings server (.work front.length input)
        { server with
          globals := (server.globals.exec o input).1
          workers := front ++ .of (next (server.globals.exec o input).2) :: rest } []
  | unsent (front rest : List Worker) (reply : Reply) (replies : List Reply) :
      server.workers = front ++ .writing (reply :: replies) :: rest → server.permits = some 0 →
      Move cfg settings server (.write front.length)
        { server with
          statDrops := server.statDrops + 1
          workers := front ++ .writing replies :: rest } [.unsent reply]
  | sent (front rest : List Worker) (reply : Reply) (replies : List Reply) :
      server.workers = front ++ .writing (reply :: replies) :: rest → server.permits ≠ some 0 →
      Move cfg settings server (.write front.length)
        { server with
          permits := server.permits.map (· - 1)
          workers := front ++ .sending replies :: rest } [.sent reply]
  | finished (front rest : List Worker) : server.workers = front ++ .writing [] :: rest →
      Move cfg settings server (.write front.length)
        { server with workers := front ++ .waiting :: rest } [.finished]
  | wrote (front rest : List Worker) (replies : List Reply) :
      server.workers = front ++ .sending replies :: rest →
      Move cfg settings server (.wrote front.length)
        { server with
          permits := server.permits.map (· + 1)
          workers := front ++ .writing replies :: rest } []
  | ticked (event : Event) (job : Job) : server.cleanup = .waiting →
      (∀ data src, job ≠ .packet data src) →
      Move cfg settings server event
        { server with cleanup := .of (Threads.code cfg job) } [.ticked job]
  | cleaned (o : Threads.Op) (next : o.Ret → Code (List Reply)) (input : Input) :
      server.cleanup = .working (.op o next) → server.globals.ready o = true →
      Move cfg settings server (.clean input)
        { server with
          globals := (server.globals.exec o input).1
          cleanup := .of (next (server.globals.exec o input).2) } []
  | stopped : server.cleanup = .waiting → server.cancelled = true →
      Move cfg settings server .cleanupStops { server with cleanup := .ended } []

theorem split_of_getElem? {α : Type} {l : List α} {i : Nat} {a : α} (h : l[i]? = some a) :
    ∃ front rest, l = front ++ a :: rest ∧ front.length = i ∧
      ∀ b, l.set i b = front ++ b :: rest := by
  obtain ⟨hlt, hget⟩ := List.getElem?_eq_some_iff.mp h
  refine ⟨l.take i, l.drop (i + 1), ?_, List.length_take_of_le hlt.le, fun b => ?_⟩
  · rw [← hget, List.getElem_cons_drop, List.take_append_drop]
  · rw [List.set_eq_take_append_cons_drop, if_pos hlt]

theorem tick_move (server : Server) (event : Event) {job : Job}
    (hjob : ∀ data src, job ≠ .packet data src) :
    Move cfg settings server event (server.tick cfg job).1 (server.tick cfg job).2 := by
  unfold Server.tick
  split
  · rename_i hcleanup
    exact .ticked event job hcleanup hjob
  · exact .idle event

/-- **Inversion.** Every step of the serving loop is one of the cases. -/
theorem step_move (server : Server) (event : Event) :
    Move cfg settings server event (server.step cfg settings event).1
      (server.step cfg settings event).2 := by
  cases event with
  | received datagram roomy =>
      simp only [Server.step]
      split
      · rename_i hreader
        unfold Server.trySend
        split
        · exact .queued datagram roomy hreader
        · rename_i hfull
          refine .refused datagram roomy ?_
          exact Nat.le_of_not_lt fun hlt => hfull (Or.inl hlt)
      · exact .idle _
  | readError =>
      simp only [Server.step]
      split
      · rename_i hreader
        exact .returned _ false hreader
      · exact .idle _
  | cancel => exact .cancelled
  | readerStops =>
      simp only [Server.step]
      split
      · rename_i hreader
        dsimp only
        split
        · exact .returned _ true hreader
        · exact .idle _
      · exact .idle _
  | take i =>
      simp only [Server.step, Server.take]
      split
      · rename_i datagram queue hworker hqueue
        obtain ⟨front, rest, hworkers, rfl, hset⟩ := split_of_getElem? hworker
        simp only [Server.setWorker, hset]
        exact .took front rest datagram queue hworkers hqueue
      · exact .idle _
  | leave i =>
      simp only [Server.step, Server.leave]
      split
      · rename_i ok hworker hqueue hreader
        obtain ⟨front, rest, hworkers, rfl, hset⟩ := split_of_getElem? hworker
        simp only [Server.setWorker, hset]
        exact .left front rest ok hworkers hqueue hreader
      · exact .idle _
  | work i input =>
      simp only [Server.step, Server.work]
      split
      · rename_i o next hworker
        obtain ⟨front, rest, hworkers, rfl, hset⟩ := split_of_getElem? hworker
        split
        · rename_i hready
          simp only [Server.setWorker, hset]
          exact .worked front rest o next input hworkers hready
        · exact .idle _
      · exact .idle _
  | write i =>
      simp only [Server.step, Server.write]
      split
      · rename_i reply replies hworker
        obtain ⟨front, rest, hworkers, rfl, hset⟩ := split_of_getElem? hworker
        unfold Server.writeRelay
        split
        · rename_i hpermits
          simp only [Server.setWorker, hset]
          exact .unsent front rest reply replies hworkers hpermits
        · rename_i free hpermits
          have hmove : Move cfg settings server (.write front.length) _ _ :=
            .sent front rest reply replies hworkers (by simp [hpermits])
          simpa only [Server.setWorker, hset, hpermits, Option.map_some, Nat.succ_sub_one]
            using hmove
        · rename_i hpermits
          have hmove : Move cfg settings server (.write front.length) _ _ :=
            .sent front rest reply replies hworkers (by simp [hpermits])
          simpa only [Server.setWorker, hset, hpermits, Option.map_none] using hmove
      · rename_i hworker
        obtain ⟨front, rest, hworkers, rfl, hset⟩ := split_of_getElem? hworker
        simp only [Server.setWorker, hset]
        exact .finished front rest hworkers
      · exact .idle _
  | wrote i =>
      simp only [Server.step, Server.wrote]
      split
      · rename_i replies hworker
        obtain ⟨front, rest, hworkers, rfl, hset⟩ := split_of_getElem? hworker
        simp only [Server.setWorker, hset]
        exact .wrote front rest replies hworkers
      · exact .idle _
  | roomTick => exact tick_move server .roomTick (by simp)
  | rateTick => exact tick_move server .rateTick (by simp)
  | clean input =>
      simp only [Server.step, Server.clean]
      split
      · rename_i o next hcleanup
        split
        · rename_i hready
          exact .cleaned o next input hcleanup hready
        · exact .idle _
      · exact .idle _
  | cleanupStops =>
      simp only [Server.step, Server.stopCleanup]
      split
      · rename_i hcleanup
        split
        · rename_i hcancelled
          exact .stopped hcleanup hcancelled
        · exact .idle _
      · exact .idle _

/-! ### What the tasks are at -/

def Worker.progs : Worker → List (Code (List Reply))
  | .handling prog => [prog]
  | _ => []

/-- The replies still to be written. -/
def Worker.replies : Worker → List Reply
  | .writing rest => rest
  | .sending rest => rest
  | _ => []

def Cleanup.progs : Cleanup → List (Code (List Reply))
  | .working prog => [prog]
  | _ => []

/-- The programs that the tasks are running. -/
def Server.progs (server : Server) : List (Code (List Reply)) :=
  server.workers.flatMap Worker.progs ++ server.cleanup.progs

def Server.replies (server : Server) : List Reply := server.workers.flatMap Worker.replies

def Note.job? : Note → Option Job
  | .taken datagram => some (.packet datagram.1 datagram.2)
  | .ticked job => some job
  | _ => none

def Note.sent? : Note → Option Reply
  | .sent reply => some reply
  | _ => none

def Note.unsent? : Note → Option Reply
  | .unsent reply => some reply
  | _ => none

/-- The threads that are not done. -/
def unfinished (threads : List (Code (List Reply))) : List (Code (List Reply)) :=
  threads.filter fun thread => !thread.done

def result : Code (List Reply) → List Reply
  | .ret replies => replies
  | .op _ _ => []

theorem progs_of (prog : Code (List Reply)) : (Worker.of prog).progs = unfinished [prog] := by
  cases prog <;> rfl

theorem replies_of (prog : Code (List Reply)) : (Worker.of prog).replies = result prog := by
  cases prog <;> rfl

theorem cleanup_progs_of (prog : Code (List Reply)) :
    (Cleanup.of prog).progs = unfinished [prog] := by
  cases prog <;> rfl

/-- A program that sends nothing. -/
def Silent : Code (List Reply) → Prop
  | .ret replies => replies = []
  | .op o next => ∀ answer : o.Ret, Silent (next answer)

theorem silent_bind {α : Type} (prog : Code α) :
    Silent (prog >>= fun _ => (Pure.pure [] : Code (List Reply))) := by
  change Silent (prog.bind fun _ => .ret [])
  induction prog with
  | ret a => rfl
  | op o next ih => exact fun answer => ih answer

theorem silent_tick (cfg : Config) {job : Job} (hjob : ∀ data src, job ≠ .packet data src) :
    Silent (Threads.code cfg job) := by
  cases job with
  | packet data src => exact absurd rfl (hjob data src)
  | roomTick => exact silent_bind (Threads.roomTick cfg)
  | rateTick => exact silent_bind (Threads.rateTick cfg)

theorem Silent.result {prog : Code (List Reply)} (h : Silent prog) : result prog = [] := by
  cases prog with
  | ret replies => exact h
  | op o next => rfl

/-! ### The threads follow -/

theorem perm_replace {α : Type} {a b f r : List α} {x : α} (ys : List α)
    (h : (a ++ x :: b).Perm (f ++ x :: r)) : (a ++ (ys ++ b)).Perm (f ++ (ys ++ r)) := by
  have hrest : (a ++ b).Perm (f ++ r) :=
    ((List.perm_middle.symm.trans h).trans List.perm_middle).cons_inv
  have hback := List.perm_append_comm_assoc ys f r
  exact (List.perm_append_comm_assoc a ys b).trans ((hrest.append_left ys).trans hback)

/-- The threads stand where the tasks stand: the memory is the same, the threads that are not done are
what the tasks are running, and of what the others put out every reply was written, was dropped for
want of a permit or is still to be written. -/
structure Follows (pool : Pool Threads.Op Threads.Op.Ret Globals (List Reply)) (server : Server)
    (notes : List Note) : Prop where
  state : pool.state = server.globals
  progs : (unfinished pool.threads).Perm server.progs
  replies : (pool.threads.flatMap result).Perm
    (server.replies ++ (notes.filterMap Note.sent? ++ notes.filterMap Note.unsent?))
  silent : ∀ prog ∈ server.cleanup.progs, Silent prog

variable {pool : Pool Threads.Op Threads.Op.Ret Globals (List Reply)} {notes more : List Note}
  {server' : Server}

theorem unfinished_append (front rest : List (Code (List Reply))) :
    unfinished (front ++ rest) = unfinished front ++ unfinished rest :=
  List.filter_append ..

/-- A step that starts no thread and advances none. -/
theorem Follows.aside (h : Follows pool server notes) (hglobals : server'.globals = server.globals)
    (hprogs : server'.progs = server.progs)
    (hcleanup : ∀ prog ∈ server'.cleanup.progs, prog ∈ server.cleanup.progs)
    (hreplies : server.replies.Perm
      (server'.replies ++ (more.filterMap Note.sent? ++ more.filterMap Note.unsent?))) :
    Follows pool server' (notes ++ more) where
  state := h.state.trans hglobals.symm
  progs := hprogs ▸ h.progs
  replies := by
    refine (h.replies.trans (hreplies.append_right _)).trans ?_
    rw [List.filterMap_append, List.filterMap_append, List.append_assoc]
    refine List.Perm.append_left _ ?_
    rw [List.perm_iff_count]
    intro reply
    simp only [List.count_append]
    omega
  silent prog hprog := h.silent prog (hcleanup prog hprog)

/-- A thread for a datagram that a worker takes, or for a tick. -/
theorem Follows.spawn (h : Follows pool server notes) (prog : Code (List Reply))
    (hglobals : server'.globals = server.globals)
    (hprogs : (server.progs ++ unfinished [prog]).Perm server'.progs)
    (hreplies : (server.replies ++ result prog).Perm server'.replies)
    (hsilent : ∀ prog ∈ server'.cleanup.progs, Silent prog)
    (hmore : more.filterMap Note.sent? = [] ∧ more.filterMap Note.unsent? = []) :
    Follows { pool with threads := pool.threads ++ [prog] } server' (notes ++ more) where
  state := h.state.trans hglobals.symm
  progs := by
    rw [unfinished_append]
    exact (h.progs.append_right _).trans hprogs
  replies := by
    rw [List.flatMap_append, List.flatMap_singleton, List.filterMap_append, List.filterMap_append,
      hmore.1, hmore.2, List.append_nil, List.append_nil]
    refine (h.replies.append_right _).trans (List.Perm.trans ?_ (hreplies.append_right _))
    rw [List.perm_iff_count]
    intro reply
    simp only [List.count_append]
    omega
  silent := hsilent

theorem exec_advance (cfg : Config) {thread : Nat} {o : Threads.Op}
    {next : o.Ret → Code (List Reply)} (hthread : pool.threads[thread]? = some (.op o next))
    (hready : pool.state.ready o = true) (input : Input) :
    (Threads.machine cfg).exec pool [.advance thread input] =
      { state := (pool.state.exec o input).1
        threads := pool.threads.set thread (next (pool.state.exec o input).2) } := by
  simp [Machine.exec, Threads.machine, Memory.machine, Threads.memory, hthread, hready]

/-- A step of one of the programs that the tasks are running. `front` and `rest` are the others. -/
theorem Follows.advance (h : Follows pool server notes) {o : Threads.Op}
    {next : o.Ret → Code (List Reply)} {front rest : List (Code (List Reply))}
    (hmem : server.progs = front ++ .op o next :: rest) (hready : server.globals.ready o = true)
    (input : Input)
    (hglobals : server'.globals = (server.globals.exec o input).1)
    (hprogs : server'.progs =
      front ++ (unfinished [next (server.globals.exec o input).2] ++ rest))
    (hreplies : (server.replies ++ result (next (server.globals.exec o input).2)).Perm server'.replies)
    (hsilent : ∀ prog ∈ server'.cleanup.progs, Silent prog) :
    ∃ thread, pool.threads[thread]? = some (.op o next) ∧
      Follows ((Threads.machine cfg).exec pool [.advance thread input]) server' (notes ++ []) := by
  have hin : Prog.op o next ∈ unfinished pool.threads := by
    refine h.progs.mem_iff.mpr ?_
    rw [hmem]
    exact List.mem_append_right _ List.mem_cons_self
  obtain ⟨thread, hlt, hget⟩ := List.getElem_of_mem (List.mem_filter.mp hin).1
  have hthread : pool.threads[thread]? = some (.op o next) :=
    List.getElem?_eq_some_iff.mpr ⟨hlt, hget⟩
  obtain ⟨a, b, hthreads, -, hset⟩ := split_of_getElem? hthread
  have hold := h.progs
  rw [hthreads, unfinished_append, hmem] at hold
  refine ⟨thread, hthread, ?_⟩
  rw [exec_advance cfg hthread (h.state ▸ hready), List.append_nil, hset, h.state]
  refine ⟨hglobals.symm, ?_, ?_, hsilent⟩
  · rw [unfinished_append, hprogs, show next (server.globals.exec o input).2 :: b =
      [next (server.globals.exec o input).2] ++ b from rfl, unfinished_append]
    exact perm_replace _ hold
  · have hresults := h.replies
    rw [hthreads, List.flatMap_append, List.flatMap_cons] at hresults
    rw [List.flatMap_append, List.flatMap_cons]
    refine (List.perm_append_comm_assoc _ _ _).trans ?_
    refine (hresults.append_left _).trans ?_
    rw [← List.append_assoc]
    exact (List.perm_append_comm.trans hreplies).append_right _

theorem replies_split {front rest : List Worker} {worker : Worker}
    (h : server.workers = front ++ worker :: rest) :
    server.replies = front.flatMap Worker.replies ++ (worker.replies ++ rest.flatMap Worker.replies) := by
  rw [Server.replies, h, List.flatMap_append, List.flatMap_cons]

theorem progs_split {front rest : List Worker} {worker : Worker}
    (h : server.workers = front ++ worker :: rest) :
    server.progs = front.flatMap Worker.progs ++ (worker.progs ++
      (rest.flatMap Worker.progs ++ server.cleanup.progs)) := by
  rw [Server.progs, h, List.flatMap_append, List.flatMap_cons, List.append_assoc, List.append_assoc]

/-- A step in which one worker writes, or comes and goes between datagrams. -/
theorem Follows.worker (h : Follows pool server notes) {front rest : List Worker} {old new : Worker}
    (hworkers : server.workers = front ++ old :: rest)
    (hworkers' : server'.workers = front ++ new :: rest)
    (hglobals : server'.globals = server.globals) (hcleanup : server'.cleanup = server.cleanup)
    (hprogs : new.progs = old.progs)
    (hreplies : old.replies.Perm
      (new.replies ++ (more.filterMap Note.sent? ++ more.filterMap Note.unsent?))) :
    Follows pool server' (notes ++ more) := by
  refine h.aside hglobals ?_ (fun prog hprog => hcleanup ▸ hprog) ?_
  · rw [progs_split hworkers, progs_split hworkers', hprogs, hcleanup]
  · rw [replies_split hworkers, replies_split hworkers', List.perm_iff_count]
    intro reply
    have hcount := hreplies.count_eq reply
    simp only [List.count_append] at hcount ⊢
    omega

/-- A step in which no worker takes part. -/
theorem Follows.noWorker (h : Follows pool server notes) (hworkers : server'.workers = server.workers)
    (hglobals : server'.globals = server.globals) (hcleanup : server'.cleanup.progs = server.cleanup.progs)
    (hmore : more.filterMap Note.sent? = [] ∧ more.filterMap Note.unsent? = []) :
    Follows pool server' (notes ++ more) := by
  refine h.aside hglobals ?_ (fun prog hprog => hcleanup ▸ hprog) ?_
  · rw [Server.progs, Server.progs, hworkers, hcleanup]
  · rw [hmore.1, hmore.2, Server.replies, Server.replies, hworkers]
    simp

theorem Follows.workerTakes (h : Follows pool server notes) {front rest : List Worker}
    (prog : Code (List Reply)) (hworkers : server.workers = front ++ .waiting :: rest)
    (hworkers' : server'.workers = front ++ .of prog :: rest)
    (hglobals : server'.globals = server.globals) (hcleanup : server'.cleanup = server.cleanup)
    (hmore : more.filterMap Note.sent? = [] ∧ more.filterMap Note.unsent? = []) :
    Follows { pool with threads := pool.threads ++ [prog] } server' (notes ++ more) := by
  refine h.spawn prog hglobals ?_ ?_ (hcleanup ▸ h.silent) hmore
  · rw [progs_split hworkers, progs_split hworkers', progs_of, hcleanup]
    refine List.perm_append_comm.trans ?_
    exact List.perm_append_comm_assoc _ _ _
  · rw [replies_split hworkers, replies_split hworkers', replies_of]
    refine List.perm_append_comm.trans ?_
    exact List.perm_append_comm_assoc _ _ _

theorem Follows.workerAdvances (h : Follows pool server notes) (server' : Server) {front rest : List Worker}
    {o : Threads.Op} {next : o.Ret → Code (List Reply)}
    (hworkers : server.workers = front ++ .handling (.op o next) :: rest)
    (hready : server.globals.ready o = true) (input : Input)
    (hworkers' : server'.workers = front ++ .of (next (server.globals.exec o input).2) :: rest)
    (hglobals : server'.globals = (server.globals.exec o input).1)
    (hcleanup : server'.cleanup = server.cleanup) :
    ∃ thread, pool.threads[thread]? = some (.op o next) ∧
      Follows ((Threads.machine cfg).exec pool [.advance thread input]) server' (notes ++ []) := by
  refine h.advance (progs_split hworkers) hready input hglobals ?_ ?_ (hcleanup ▸ h.silent)
  · rw [progs_split hworkers', progs_of, hcleanup]
    rfl
  · rw [replies_split hworkers, replies_split hworkers', replies_of]
    refine List.perm_append_comm.trans ?_
    exact List.perm_append_comm_assoc _ _ _

theorem Follows.cleanupTicks (h : Follows pool server notes) {job : Job}
    (hjob : ∀ data src, job ≠ .packet data src) (hcleanup : server.cleanup = .waiting)
    (hcleanup' : server'.cleanup = .of (Threads.code cfg job))
    (hworkers : server'.workers = server.workers) (hglobals : server'.globals = server.globals)
    (hmore : more.filterMap Note.sent? = [] ∧ more.filterMap Note.unsent? = []) :
    Follows { pool with threads := pool.threads ++ [Threads.code cfg job] } server'
      (notes ++ more) := by
  have hsilent := silent_tick cfg hjob
  refine h.spawn (Threads.code cfg job) hglobals ?_ ?_ ?_ hmore
  · rw [Server.progs, Server.progs, hworkers, hcleanup, hcleanup', cleanup_progs_of]
    simp [Cleanup.progs]
  · rw [Server.replies, Server.replies, hworkers, hsilent.result, List.append_nil]
  · intro prog hprog
    rw [hcleanup', cleanup_progs_of] at hprog
    rw [List.mem_singleton.mp (List.mem_filter.mp hprog).1]
    exact hsilent

theorem Follows.cleanupAdvances (h : Follows pool server notes) (server' : Server) {o : Threads.Op}
    {next : o.Ret → Code (List Reply)} (hcleanup : server.cleanup = .working (.op o next))
    (hready : server.globals.ready o = true) (input : Input)
    (hcleanup' : server'.cleanup = .of (next (server.globals.exec o input).2))
    (hworkers : server'.workers = server.workers)
    (hglobals : server'.globals = (server.globals.exec o input).1) :
    ∃ thread, pool.threads[thread]? = some (.op o next) ∧
      Follows ((Threads.machine cfg).exec pool [.advance thread input]) server' (notes ++ []) := by
  have hsilent : Silent (.op o next) := h.silent _ (by rw [hcleanup]; exact List.mem_singleton_self _)
  have hafter : Silent (next (server.globals.exec o input).2) := hsilent _
  have hprogs : server.progs = server.workers.flatMap Worker.progs ++ .op o next :: [] := by
    rw [Server.progs, hcleanup]
    rfl
  refine h.advance hprogs hready input hglobals ?_ ?_ ?_
  · rw [Server.progs, hworkers, hcleanup', cleanup_progs_of, List.append_nil]
  · rw [Server.replies, Server.replies, hworkers, hafter.result, List.append_nil]
  · intro prog hprog
    rw [hcleanup', cleanup_progs_of] at hprog
    rw [List.mem_singleton.mp (List.mem_filter.mp hprog).1]
    exact hafter

/-- The threads make the step that the server makes, if it is one of a program. -/
theorem Follows.move (h : Follows pool server notes) {event : Event}
    (hmove : Move cfg settings server event server' more) :
    ∃ events, events.filterMap Schedule.job? = more.filterMap Note.job? ∧
      Follows ((Threads.machine cfg).exec pool events) server' (notes ++ more) := by
  cases hmove with
  | idle => exact ⟨[], rfl, h.noWorker rfl rfl rfl ⟨rfl, rfl⟩⟩
  | queued => exact ⟨[], rfl, h.noWorker rfl rfl rfl ⟨rfl, rfl⟩⟩
  | refused => exact ⟨[], rfl, h.noWorker rfl rfl rfl ⟨rfl, rfl⟩⟩
  | returned => exact ⟨[], rfl, h.noWorker rfl rfl rfl ⟨rfl, rfl⟩⟩
  | cancelled => exact ⟨[], rfl, h.noWorker rfl rfl rfl ⟨rfl, rfl⟩⟩
  | stopped hcleanup _ =>
      exact ⟨[], rfl, h.noWorker rfl rfl (by rw [hcleanup]; rfl) ⟨rfl, rfl⟩⟩
  | left front rest ok hworkers hqueue hreader =>
      exact ⟨[], rfl, h.worker hworkers rfl rfl rfl rfl (List.Perm.refl [])⟩
  | unsent front rest reply replies hworkers hpermits =>
      exact ⟨[], rfl, h.worker hworkers rfl rfl rfl rfl (List.perm_append_singleton reply replies).symm⟩
  | sent front rest reply replies hworkers hpermits =>
      exact ⟨[], rfl, h.worker hworkers rfl rfl rfl rfl (List.perm_append_singleton reply replies).symm⟩
  | finished front rest hworkers =>
      exact ⟨[], rfl, h.worker hworkers rfl rfl rfl rfl (List.Perm.refl [])⟩
  | wrote front rest replies hworkers =>
      exact ⟨[], rfl, h.worker hworkers rfl rfl rfl rfl (by simp [Worker.replies])⟩
  | took front rest datagram queue hworkers hqueue =>
      refine ⟨[.spawn (.packet datagram.1 datagram.2)], rfl, ?_⟩
      exact h.workerTakes _ hworkers rfl rfl rfl ⟨rfl, rfl⟩
  | worked front rest o next input hworkers hready =>
      obtain ⟨thread, -, hfollows⟩ := h.workerAdvances
        { server with
          globals := (server.globals.exec o input).1
          workers := front ++ .of (next (server.globals.exec o input).2) :: rest }
        hworkers hready input rfl rfl rfl
      exact ⟨[.advance thread input], rfl, hfollows⟩
  | ticked _ job hcleanup hjob =>
      refine ⟨[.spawn job], rfl, ?_⟩
      exact h.cleanupTicks hjob hcleanup rfl rfl rfl ⟨rfl, rfl⟩
  | cleaned o next input hcleanup hready =>
      obtain ⟨thread, -, hfollows⟩ := h.cleanupAdvances
        { server with
          globals := (server.globals.exec o input).1
          cleanup := .of (next (server.globals.exec o input).2) } hcleanup hready input rfl rfl rfl
      exact ⟨[.advance thread input], rfl, hfollows⟩

/-! ### Whole runs -/

variable {history : List (Machine.Record Server Event Note)} {now : Nat}

theorem follows_start (cfg : Config) (settings : Settings) :
    Follows (Threads.machine cfg).init (.start settings) [] where
  state := rfl
  progs := by
    have hnone : (List.replicate settings.relayWorkers Worker.waiting).flatMap Worker.progs = [] :=
      List.flatMap_eq_nil_iff.mpr fun worker hworker => by
        rw [List.eq_of_mem_replicate hworker]
        rfl
    rw [Server.progs, Server.start, hnone]
    exact List.Perm.refl []
  replies := by
    have hnone : (List.replicate settings.relayWorkers Worker.waiting).flatMap Worker.replies = [] :=
      List.flatMap_eq_nil_iff.mpr fun worker hworker => by
        rw [List.eq_of_mem_replicate hworker]
        rfl
    rw [Server.replies, Server.start, hnone]
    exact List.Perm.refl []
  silent prog hprog := by cases hprog

theorem exists_follows (hrun : (machine cfg settings).Run history server now) :
    ∃ events : List (Schedule Job Input),
      events.filterMap Schedule.job? = (history.flatMap (·.sent)).filterMap Note.job? ∧
      Follows ((Threads.machine cfg).exec (Threads.machine cfg).init events) server
        (history.flatMap (·.sent)) := by
  induction hrun with
  | nil => exact ⟨[], rfl, follows_start cfg settings⟩
  | @snoc history server now event hrun _ ih =>
      obtain ⟨events, hjobs, hfollows⟩ := ih
      obtain ⟨more, hmore, hfollows'⟩ := hfollows.move (step_move server event)
      refine ⟨events ++ more, ?_, ?_⟩
      · rw [List.filterMap_append, List.flatMap_append, List.flatMap_singleton,
          List.filterMap_append, hjobs, hmore]
        rfl
      · rw [Machine.exec, List.foldl_append, List.flatMap_append, List.flatMap_singleton]
        exact hfollows'

theorem length_workers (hrun : (machine cfg settings).Run history server now) :
    server.workers.length = settings.relayWorkers := by
  refine hrun.stateInv (I := fun server => server.workers.length = settings.relayWorkers)
    List.length_replicate ?_
  intro server event hlength
  have hmove : Move cfg settings server event _ _ := step_move server event
  change (server.step cfg settings event).1.workers.length = _
  generalize (server.step cfg settings event).1 = server' at hmove ⊢
  generalize (server.step cfg settings event).2 = notes at hmove
  cases hmove <;> simp_all

theorem length_flatMap_progs_le (workers : List Worker) :
    (workers.flatMap Worker.progs).length ≤ workers.length := by
  induction workers with
  | nil => exact le_rfl
  | cons worker rest ih =>
      have hone : worker.progs.length ≤ 1 := by
        cases worker <;> simp [Worker.progs]
      rw [List.flatMap_cons, List.length_append, List.length_cons]
      omega

/-- **The serving loop runs the threads.** Every run of the reader, the workers and the cleanup task is
followed by threads, one for every datagram taken and every tick, started in that order: the shared
memory is the same, the threads that are not done are what the workers and the cleanup task are
running, at most one more than there are workers, and every reply of the others was written, was
dropped for want of a permit or is still to be written, once. -/
theorem served_by_threads (hrun : (machine cfg settings).Run history server now) :
    ∃ events : List (Schedule Job Input),
      let pool := (Threads.machine cfg).exec (Threads.machine cfg).init events
      let notes := history.flatMap (·.sent)
      events.filterMap Schedule.job? = notes.filterMap Note.job? ∧
      pool.state = server.globals ∧
      (unfinished pool.threads).Perm server.progs ∧
      (unfinished pool.threads).length ≤ settings.relayWorkers + 1 ∧
      (pool.threads.flatMap result).Perm
        (server.replies ++ (notes.filterMap Note.sent? ++ notes.filterMap Note.unsent?)) := by
  obtain ⟨events, hjobs, hfollows⟩ := exists_follows hrun
  refine ⟨events, hjobs, hfollows.state, hfollows.progs, ?_, hfollows.replies⟩
  have hworkers := length_flatMap_progs_le server.workers
  have hcleanup : server.cleanup.progs.length ≤ 1 := by
    cases server.cleanup <;> simp [Cleanup.progs]
  rw [hfollows.progs.length_eq, Server.progs, List.length_append, ← length_workers hrun]
  omega

def oneSlot : Settings := { pktChanBuf := 1, writePoolSize := 1, relayWorkers := 2 }

def register : Datagram := (ascii "REG r", .v4 ⟨10, 0, 0, 1⟩ 1000)

def serveInput : Input := ⟨0, List.replicate pendingCookieBytes 7, rfl⟩

/-- Two registrations come in, the second finds the channel full, and the first is answered. -/
def serveEvents : List Event :=
  [.received register false, .received register false, .take 1] ++
    List.replicate 15 (.work 1 serveInput) ++ [.write 1]

theorem served_by_threads_register : ∃ events : List (Schedule Job Input),
    let pool := (Threads.machine .defaults).exec (Threads.machine .defaults).init events
    events.filterMap Schedule.job? = [.packet register.1 register.2] ∧
      (pool.threads.flatMap result).Perm
        [.challenge (ascii "r") ⟨List.replicate pendingCookieBytes 7, rfl⟩ register.2] := by
  have hrun := (machine .defaults oneSlot).run_untimed (fun _ => rfl) serveEvents
  obtain ⟨events, hjobs, -, -, -, hreplies⟩ := served_by_threads hrun
  refine ⟨events, hjobs.trans ?_, hreplies.trans (List.Perm.of_eq ?_)⟩
  · rfl
  · decide +kernel

end Qvole.Relay.Serve
