import Qvole.Relay.Proof.LockOrder
import Qvole.Relay.Proof.Serve

/-!
# The books of the serving loop

Every datagram that was read is refused at a full channel, waits in it, is being handled or is done
with, and the drop counter counts exactly what the channel and the write pool refused. When the read
loop has returned, the workers can empty the channel, write what is to be written and end.
-/

namespace Qvole.Relay.Serve

open Threads (Code Globals Input Job)

variable {cfg : Config} {settings : Settings} {server server' : Server} {notes more : List Note}

def Note.queued? : Note → Option Datagram
  | .queued datagram => some datagram
  | _ => none

def Note.refused? : Note → Option Datagram
  | .refused datagram => some datagram
  | _ => none

def Note.taken? : Note → Option Datagram
  | .taken datagram => some datagram
  | _ => none

def Note.isFinished : Note → Bool
  | .finished => true
  | _ => false

/-- The worker has a datagram. -/
def Worker.busy : Worker → Bool
  | .waiting => false
  | .ended => false
  | _ => true

/-- The worker holds a permit of the write pool, if there is one. -/
def Worker.isSending : Worker → Bool
  | .sending _ => true
  | _ => false

structure Accounts (settings : Settings) (server : Server) (notes : List Note) : Prop where
  workers : server.workers.length = settings.relayWorkers
  /-- First in, first out. -/
  fifo : notes.filterMap Note.queued? = notes.filterMap Note.taken? ++ server.queue
  handled : (notes.filterMap Note.taken?).length =
    notes.countP Note.isFinished + server.workers.countP Worker.busy
  drops : server.statDrops =
    (notes.filterMap Note.refused?).length + (notes.filterMap Note.unsent?).length
  permits : (settings.writePoolSize = 0 ∧ server.permits = none) ∨
    (0 < settings.writePoolSize ∧ ∃ free, server.permits = some free ∧
      free + server.workers.countP Worker.isSending = settings.writePoolSize)
  unsent : settings.writePoolSize = 0 ∨ settings.relayWorkers ≤ settings.writePoolSize →
    notes.filterMap Note.unsent? = []
  ended : Worker.ended ∈ server.workers → server.queue = [] ∧ ∃ ok, server.reader = .returned ok

theorem countP_replicate_waiting (n : Nat) (p : Worker → Bool) (hp : p .waiting = false) :
    (List.replicate n Worker.waiting).countP p = 0 := by
  rw [List.countP_replicate, if_neg (by simp [hp])]

theorem accounts_start (settings : Settings) : Accounts settings (.start settings) [] where
  workers := List.length_replicate
  fifo := rfl
  handled := by
    rw [Server.start, countP_replicate_waiting _ Worker.busy rfl]
    rfl
  drops := rfl
  permits := by
    simp only [Server.start]
    by_cases hpool : settings.writePoolSize > 0
    · rw [if_pos hpool]
      refine Or.inr ⟨hpool, settings.writePoolSize, rfl, ?_⟩
      rw [countP_replicate_waiting _ Worker.isSending rfl, Nat.add_zero]
    · rw [if_neg hpool]
      exact Or.inl ⟨Nat.eq_zero_of_not_pos hpool, rfl⟩
  unsent := fun _ => rfl
  ended hmem := by
    cases List.eq_of_mem_replicate hmem

theorem busy_of (prog : Code (List Reply)) : (Worker.of prog).busy = true := by
  cases prog <;> rfl

theorem isSending_of (prog : Code (List Reply)) : (Worker.of prog).isSending = false := by
  cases prog <;> rfl

theorem of_ne_ended (prog : Code (List Reply)) : Worker.of prog ≠ .ended := by
  cases prog <;> simp [Worker.of]

/-- A step in which no worker takes part, and no reply. -/
theorem Accounts.noWorker (h : Accounts settings server notes)
    (hworkers : server'.workers = server.workers) (hpermits : server'.permits = server.permits)
    (hfifo : server.queue ++ more.filterMap Note.queued? = server'.queue)
    (hdrops : server'.statDrops = server.statDrops + (more.filterMap Note.refused?).length)
    (hmore : more.filterMap Note.taken? = [] ∧ more.countP Note.isFinished = 0 ∧
      more.filterMap Note.unsent? = [])
    (hended : Worker.ended ∈ server.workers → server'.queue = server.queue ∧
      server'.reader = server.reader) :
    Accounts settings server' (notes ++ more) where
  workers := hworkers ▸ h.workers
  fifo := by
    rw [List.filterMap_append, List.filterMap_append, hmore.1, List.append_nil, h.fifo,
      List.append_assoc, hfifo]
  handled := by
    rw [List.filterMap_append, List.countP_append, hmore.1, hmore.2.1, List.append_nil, hworkers,
      h.handled, Nat.add_zero]
  drops := by
    rw [List.filterMap_append, List.filterMap_append, hmore.2.2, List.append_nil,
      List.length_append, hdrops, h.drops]
    omega
  permits := by
    rw [hworkers, hpermits]
    exact h.permits
  unsent hpool := by rw [List.filterMap_append, hmore.2.2, List.append_nil, h.unsent hpool]
  ended hmem := by
    rw [hworkers] at hmem
    obtain ⟨hqueue, hreader⟩ := hended hmem
    rw [hqueue, hreader]
    exact h.ended hmem

theorem countP_split (p : Worker → Bool) (front rest : List Worker) (worker : Worker) :
    (front ++ worker :: rest).countP p = front.countP p + rest.countP p + (p worker).toNat := by
  rw [List.countP_append, List.countP_cons]
  cases p worker <;> simp [Nat.add_assoc]

/-- A pool with a permit for every worker has one left while some worker is not sending. -/
theorem Accounts.permits_ne_zero (h : Accounts settings server notes) {front rest : List Worker}
    {worker : Worker} (hworkers : server.workers = front ++ worker :: rest)
    (hidle : worker.isSending = false)
    (hpool : settings.writePoolSize = 0 ∨ settings.relayWorkers ≤ settings.writePoolSize) :
    server.permits ≠ some 0 := by
  intro hnone
  rcases h.permits with ⟨-, hnone'⟩ | ⟨hpos, free, hfree, hsum⟩
  · cases hnone.symm.trans hnone'
  · obtain rfl : free = 0 := Option.some.inj (hfree.symm.trans hnone)
    have hfew := (front ++ rest).countP_le_length (p := Worker.isSending)
    have hlength := h.workers
    rw [hworkers, countP_split, hidle] at hsum
    rw [hworkers] at hlength
    simp only [List.countP_append, List.length_append, List.length_cons, Bool.toNat_false] at *
    omega

/-- A step of one worker, by what it changes. -/
theorem Accounts.worker (h : Accounts settings server notes) {front rest : List Worker}
    {old new : Worker} (hworkers : server.workers = front ++ old :: rest)
    (hworkers' : server'.workers = front ++ new :: rest) (hreader : server'.reader = server.reader)
    (hqueue : server.queue = more.filterMap Note.taken? ++ server'.queue)
    (hqueued : more.filterMap Note.queued? = [] ∧ more.filterMap Note.refused? = [])
    (hbusy : (more.filterMap Note.taken?).length + old.busy.toNat =
      more.countP Note.isFinished + new.busy.toNat)
    (hdrops : server'.statDrops = server.statDrops + (more.filterMap Note.unsent?).length)
    (hpermits : server'.permits = none ∧ server.permits = none ∨ ∃ free free',
      server.permits = some free ∧ server'.permits = some free' ∧
      free + old.isSending.toNat = free' + new.isSending.toNat)
    (hunsent : more.filterMap Note.unsent? ≠ [] → server.permits = some 0 ∧ old.isSending = false)
    (hended : new = .ended → server'.queue = [] ∧ ∃ ok, server'.reader = .returned ok) :
    Accounts settings server' (notes ++ more) := by
  have hunsentPool : settings.writePoolSize = 0 ∨ settings.relayWorkers ≤ settings.writePoolSize →
      more.filterMap Note.unsent? = [] := by
    intro hpool
    by_contra hne
    obtain ⟨hnone, hidle⟩ := hunsent hne
    exact h.permits_ne_zero hworkers hidle hpool hnone
  refine ⟨?_, ?_, ?_, ?_, ?_, ?_, ?_⟩
  · rw [hworkers', ← h.workers, hworkers]
    simp
  · rw [List.filterMap_append, List.filterMap_append, hqueued.1, List.append_nil, h.fifo, hqueue,
      List.append_assoc]
  · have hhandled := h.handled
    rw [hworkers, countP_split] at hhandled
    rw [List.filterMap_append, List.length_append, List.countP_append, hworkers', countP_split]
    omega
  · have hold := h.drops
    rw [List.filterMap_append, List.filterMap_append, List.length_append, List.length_append,
      hqueued.2, hdrops, hold, List.length_nil]
    omega
  · rcases h.permits with ⟨hzero, hnone⟩ | ⟨hpos, free, hfree, hsum⟩
    · rcases hpermits with ⟨hnone', -⟩ | ⟨free, free', hfree, -, -⟩
      · exact Or.inl ⟨hzero, hnone'⟩
      · cases hnone.symm.trans hfree
    · rcases hpermits with ⟨-, hnone⟩ | ⟨k, free', hk, hfree', hchange⟩
      · cases hnone.symm.trans hfree
      · obtain rfl := Option.some.inj (hfree.symm.trans hk)
        refine Or.inr ⟨hpos, free', hfree', ?_⟩
        rw [hworkers, countP_split] at hsum
        rw [hworkers', countP_split]
        omega
  · intro hpool
    rw [List.filterMap_append, h.unsent hpool, hunsentPool hpool, List.append_nil]
  · intro hmem
    rw [hworkers'] at hmem
    by_cases hnew : new = .ended
    · exact hended hnew
    · have hold : Worker.ended ∈ server.workers := by
        rw [hworkers]
        rcases List.mem_append.mp hmem with hfront | hrest
        · exact List.mem_append_left _ hfront
        · rcases List.mem_cons.mp hrest with heq | hrest
          · exact absurd heq.symm hnew
          · exact List.mem_append_right _ (List.mem_cons_of_mem _ hrest)
      obtain ⟨hempty, ok, hok⟩ := h.ended hold
      rw [hqueue] at hempty
      exact ⟨(List.append_eq_nil_iff.mp hempty).2, ok, hreader.trans hok⟩

theorem Accounts.move (h : Accounts settings server notes) {event : Event}
    (hmove : Move cfg settings server event server' more) :
    Accounts settings server' (notes ++ more) := by
  have hsame : server.permits = none ∧ server.permits = none ∨ ∃ free free',
      server.permits = some free ∧ server.permits = some free' ∧ free = free' := by
    cases server.permits with
    | none => exact Or.inl ⟨rfl, rfl⟩
    | some free => exact Or.inr ⟨free, free, rfl, rfl, rfl⟩
  cases hmove with
  | idle => exact h.noWorker rfl rfl (List.append_nil _) rfl ⟨rfl, rfl, rfl⟩ fun _ => ⟨rfl, rfl⟩
  | queued datagram roomy hreader =>
      refine h.noWorker rfl rfl rfl rfl ⟨rfl, rfl, rfl⟩ fun hended => ?_
      obtain ⟨-, ok, hok⟩ := h.ended hended
      cases hreader.symm.trans hok
  | refused => exact h.noWorker rfl rfl (List.append_nil _) rfl ⟨rfl, rfl, rfl⟩ fun _ => ⟨rfl, rfl⟩
  | returned event ok hreader =>
      refine h.noWorker rfl rfl (List.append_nil _) rfl ⟨rfl, rfl, rfl⟩ fun hended => ?_
      obtain ⟨-, ok, hok⟩ := h.ended hended
      cases hreader.symm.trans hok
  | cancelled => exact h.noWorker rfl rfl (List.append_nil _) rfl ⟨rfl, rfl, rfl⟩ fun _ => ⟨rfl, rfl⟩
  | stopped => exact h.noWorker rfl rfl (List.append_nil _) rfl ⟨rfl, rfl, rfl⟩ fun _ => ⟨rfl, rfl⟩
  | ticked => exact h.noWorker rfl rfl (List.append_nil _) rfl ⟨rfl, rfl, rfl⟩ fun _ => ⟨rfl, rfl⟩
  | cleaned => exact h.noWorker rfl rfl (List.append_nil _) rfl ⟨rfl, rfl, rfl⟩ fun _ => ⟨rfl, rfl⟩
  | took front rest datagram queue hworkers hqueue =>
      refine h.worker hworkers rfl rfl hqueue ⟨rfl, rfl⟩ ?_ rfl ?_ (absurd rfl ·) ?_
      · rw [busy_of]
        rfl
      · rw [isSending_of]
        exact hsame
      · exact fun heq => absurd heq (of_ne_ended _)
  | left front rest ok hworkers hqueue hreader =>
      exact h.worker hworkers rfl rfl rfl ⟨rfl, rfl⟩ rfl rfl hsame (absurd rfl ·)
        fun _ => ⟨hqueue, ok, hreader⟩
  | worked front rest o next input hworkers hready =>
      refine h.worker hworkers rfl rfl rfl ⟨rfl, rfl⟩ ?_ rfl ?_ (absurd rfl ·) ?_
      · rw [busy_of]
        rfl
      · rw [isSending_of]
        exact hsame
      · exact fun heq => absurd heq (of_ne_ended _)
  | unsent front rest reply replies hworkers hpermits =>
      exact h.worker hworkers rfl rfl rfl ⟨rfl, rfl⟩ rfl rfl hsame (fun _ => ⟨hpermits, rfl⟩)
        fun heq => by cases heq
  | sent front rest reply replies hworkers hpermits =>
      refine h.worker hworkers rfl rfl rfl ⟨rfl, rfl⟩ rfl rfl ?_ (absurd rfl ·) fun heq => by cases heq
      dsimp only
      cases hfree : server.permits with
      | none => exact Or.inl ⟨rfl, rfl⟩
      | some free =>
          have hpos : free ≠ 0 := fun heq => hpermits (heq ▸ hfree)
          exact Or.inr ⟨free, free - 1, rfl, rfl,
            (Nat.sub_add_cancel (Nat.one_le_iff_ne_zero.mpr hpos)).symm⟩
  | finished front rest hworkers =>
      exact h.worker hworkers rfl rfl rfl ⟨rfl, rfl⟩ rfl rfl hsame (absurd rfl ·)
        fun heq => by cases heq
  | wrote front rest replies hworkers =>
      refine h.worker hworkers rfl rfl rfl ⟨rfl, rfl⟩ rfl rfl ?_ (absurd rfl ·) fun heq => by cases heq
      dsimp only
      cases server.permits with
      | none => exact Or.inl ⟨rfl, rfl⟩
      | some free => exact Or.inr ⟨free, free + 1, rfl, rfl, rfl⟩

variable {history : List (Machine.Record Server Event Note)} {now : Nat}

theorem accounts (hrun : (machine cfg settings).Run history server now) :
    Accounts settings server (history.flatMap (·.sent)) := by
  induction hrun with
  | nil => exact accounts_start settings
  | @snoc history server now event hrun _ ih =>
      rw [List.flatMap_append, List.flatMap_singleton]
      exact ih.move (step_move server event)

/-- **The books of the serving loop.** In every run: what was accepted into the channel is what the
workers took, in the same order, and then what waits in it; a datagram is refused only when as many
wait as the channel is made for; every datagram taken is done with or with one worker; the drop counter
counts the refused datagrams and the replies without a permit; and no reply goes without a permit
unless the write pool is smaller than the number of workers. A worker ends only when the read loop has
returned and the channel is empty. -/
theorem accounts_of_run (hrun : (machine cfg settings).Run history server now) :
    let notes := history.flatMap (·.sent)
    notes.filterMap Note.queued? = notes.filterMap Note.taken? ++ server.queue ∧
      (∀ r ∈ history, ∀ datagram, Note.refused datagram ∈ r.sent →
        settings.pktChanBuf ≤ r.before.queue.length) ∧
      (notes.filterMap Note.taken?).length =
        notes.countP Note.isFinished + server.workers.countP Worker.busy ∧
      server.statDrops =
        (notes.filterMap Note.refused?).length + (notes.filterMap Note.unsent?).length ∧
      (settings.writePoolSize = 0 ∨ settings.relayWorkers ≤ settings.writePoolSize →
        notes.filterMap Note.unsent? = []) ∧
      (Worker.ended ∈ server.workers → server.queue = [] ∧ ∃ ok, server.reader = .returned ok) := by
  have haccounts := accounts hrun
  refine ⟨haccounts.fifo, ?_, haccounts.handled, haccounts.drops, haccounts.unsent, haccounts.ended⟩
  intro r hr datagram hmem
  obtain ⟨past, rest, now', -, -, -, hrecord⟩ := hrun.before_reached hr
  obtain ⟨event, before, sent⟩ := r
  have hmove : Move cfg settings before event _ _ := step_move before event
  have hsent : sent = (before.step cfg settings event).2 := congrArg Machine.Record.sent hrecord
  rw [← hsent] at hmove
  generalize (before.step cfg settings event).1 = after at hmove
  clear hr hrecord hsent
  cases hmove <;> simp_all

/-- One registration was taken and one refused, and the worker still writes its answer. -/
theorem accounts_of_run_register :
    let server := (machine .defaults oneSlot).exec (machine .defaults oneSlot).init serveEvents
    let notes := ((machine .defaults oneSlot).trace (machine .defaults oneSlot).init
      serveEvents).flatMap (·.sent)
    notes.filterMap Note.queued? = [register] ∧ notes.filterMap Note.refused? = [register] ∧
      server.statDrops = 1 ∧ server.workers.countP Worker.busy = 1 := by
  intro server notes
  have hrun := (machine .defaults oneSlot).run_untimed (fun _ => rfl) serveEvents
  obtain ⟨hfifo, -, hhandled, hdrops, -, -⟩ := accounts_of_run hrun
  have htaken : notes.filterMap Note.taken? = [register] := by decide +kernel
  have hqueue : server.queue = [] := by decide +kernel
  have hrefused : notes.filterMap Note.refused? = [register] := by decide +kernel
  have hunsent : notes.filterMap Note.unsent? = [] := by decide +kernel
  have hfinished : notes.countP Note.isFinished = 0 := by decide +kernel
  refine ⟨hfifo.trans ?_, hrefused, hdrops.trans ?_, ?_⟩
  · change notes.filterMap Note.taken? ++ server.queue = [register]
    rw [htaken, hqueue]
    rfl
  · change (notes.filterMap Note.refused?).length + (notes.filterMap Note.unsent?).length = 1
    rw [hrefused, hunsent]
    rfl
  · change (notes.filterMap Note.taken?).length =
      notes.countP Note.isFinished + server.workers.countP Worker.busy at hhandled
    rw [htaken, hfinished, Nat.zero_add] at hhandled
    exact hhandled.symm

/-! ### Emptying the channel -/

/-- What workers and the cleanup task do by themselves. -/
def Event.inner : Event → Bool
  | .take _ | .leave _ | .work _ _ | .write _ | .wrote _ | .clean _ => true
  | _ => false

def Reaches (cfg : Config) (settings : Settings) (server server' : Server) : Prop :=
  ∃ events, (∀ event ∈ events, event.inner = true) ∧
    (machine cfg settings).exec server events = server'

theorem Reaches.refl (server : Server) : Reaches cfg settings server server :=
  ⟨[], by simp, rfl⟩

theorem Reaches.trans {server'' : Server} (h : Reaches cfg settings server server')
    (h' : Reaches cfg settings server' server'') : Reaches cfg settings server server'' := by
  obtain ⟨events, hinner, rfl⟩ := h
  obtain ⟨more, hmore, rfl⟩ := h'
  refine ⟨events ++ more, fun event hevent => ?_, List.foldl_append⟩
  rcases List.mem_append.mp hevent with hold | hnew
  · exact hinner event hold
  · exact hmore event hnew

theorem Reaches.step (event : Event) (hinner : event.inner = true)
    (hstep : (server.step cfg settings event).1 = server') : Reaches cfg settings server server' :=
  ⟨[event], by simpa using hinner, hstep⟩

theorem progs_eq_nil_of_quiet {pool : Pool Threads.Op Threads.Op.Ret Globals (List Reply)}
    (h : Follows pool server notes) (hquiet : pool.quiet = true) : server.progs = [] := by
  have hnone : unfinished pool.threads = [] := by
    refine List.filter_eq_nil_iff.mpr fun thread hthread => ?_
    simpa using List.all_eq_true.mp hquiet thread hthread
  exact List.Perm.nil_eq (hnone ▸ h.progs) |>.symm

/-- A task whose next operation is ready makes it, and a thread with it. -/
theorem exists_advance {pool : Pool Threads.Op Threads.Op.Ret Globals (List Reply)}
    (h : Follows pool server notes) {o : Threads.Op} {next : o.Ret → Code (List Reply)}
    (hmem : .op o next ∈ server.progs) (hready : server.globals.ready o = true) (input : Input) :
    ∃ server' thread, Reaches cfg settings server server' ∧ server'.queue = server.queue ∧
      server'.reader = server.reader ∧ pool.threads[thread]? = some (.op o next) ∧
      Follows ((Threads.machine cfg).exec pool [.advance thread input]) server' (notes ++ []) := by
  rcases List.mem_append.mp hmem with hworker | hcleanup
  · obtain ⟨worker, hworker, hprog⟩ := List.mem_flatMap.mp hworker
    obtain rfl : worker = .handling (.op o next) := by
      cases worker with
      | handling prog => rw [List.mem_singleton.mp hprog]
      | _ => cases hprog
    obtain ⟨front, rest, hworkers⟩ := List.append_of_mem hworker
    obtain ⟨thread, hthread, hfollows⟩ := h.workerAdvances
      { server with
        globals := (server.globals.exec o input).1
        workers := front ++ .of (next (server.globals.exec o input).2) :: rest }
      hworkers hready input rfl rfl rfl
    refine ⟨_, thread, ?_, ?_, ?_, hthread, hfollows⟩
    · refine .step (.work front.length input) rfl ?_
      simp [Server.step, Server.work, hworkers, hready, Server.setWorker]
    · rfl
    · rfl
  · have hworking : server.cleanup = .working (.op o next) := by
      cases hstate : server.cleanup with
      | working prog =>
          rw [hstate] at hcleanup
          rw [List.mem_singleton.mp hcleanup]
      | _ =>
          rw [hstate] at hcleanup
          cases hcleanup
    obtain ⟨thread, hthread, hfollows⟩ := h.cleanupAdvances
      { server with
        globals := (server.globals.exec o input).1
        cleanup := .of (next (server.globals.exec o input).2) } hworking hready input rfl rfl rfl
    refine ⟨_, thread, ?_, ?_, ?_, hthread, hfollows⟩
    · refine .step (.clean input) rfl ?_
      simp [Server.step, Server.clean, hworking, hready]
    · rfl
    · rfl

/-- The handlers under way come to their writes. -/
theorem exists_worked {pool : Pool Threads.Op Threads.Op.Ret Globals (List Reply)}
    {all : List (List Threads.Lock)} (hholding : Holding Threads.memory Threads.locking pool all)
    (hfollows : Follows pool server notes) :
    ∃ server', Reaches cfg settings server server' ∧ server'.progs = [] ∧
      server'.queue = server.queue ∧ server'.reader = server.reader := by
  obtain ⟨state, threads⟩ := pool
  induction acc_answered threads generalizing state all server notes with
  | intro threads _ ih =>
      cases hquiet : Pool.quiet { state, threads } with
      | true => exact ⟨server, .refl server, progs_eq_nil_of_quiet hfollows hquiet, rfl, rfl⟩
      | false =>
          obtain ⟨thread, o, next, hthread, hready⟩ := hholding.exists_ready Threads.lawful hquiet
          have hready' : server.globals.ready o = true := hfollows.state ▸ hready
          have hmem : Prog.op o next ∈ server.progs := by
            refine hfollows.progs.mem_iff.mp (List.mem_filter.mpr ⟨?_, rfl⟩)
            exact List.mem_of_getElem? hthread
          obtain ⟨server', thread', hreaches, hqueue, hreader, hthread', hfollows'⟩ :=
            exists_advance hfollows hmem hready' Threads.someInput
          obtain ⟨all', hholding'⟩ := hholding.advance Threads.lawful hthread' hready Threads.someInput
          rw [exec_advance cfg hthread' hready] at hfollows'
          obtain ⟨last, hlast, hprogs, hqueue', hreader'⟩ :=
            ih _ ⟨thread', o, next, _, hthread', rfl⟩ _ hholding' hfollows'
          exact ⟨last, hreaches.trans hlast, hprogs, hqueue'.trans hqueue, hreader'.trans hreader⟩

/-- What is left of the writes of a worker, in steps. -/
def Worker.writes : Worker → Nat
  | .writing rest => 2 * rest.length + 1
  | .sending rest => 2 * rest.length + 2
  | _ => 0

def Server.writes (server : Server) : Nat := (server.workers.map Worker.writes).sum

theorem writes_split {front rest : List Worker} {worker : Worker}
    (h : server.workers = front ++ worker :: rest) :
    server.writes = (front.map Worker.writes).sum + worker.writes + (rest.map Worker.writes).sum := by
  simp [Server.writes, h, Nat.add_assoc]

/-- A worker that has something to write makes a step of it. -/
theorem exists_write (hworker : ∃ worker ∈ server.workers, worker.writes ≠ 0) :
    ∃ server', Reaches cfg settings server server' ∧ server'.writes < server.writes ∧
      server'.progs = server.progs ∧ server'.queue = server.queue ∧
      server'.reader = server.reader := by
  obtain ⟨worker, hmem, hwrites⟩ := hworker
  obtain ⟨front, rest, hworkers⟩ := List.append_of_mem hmem
  -- the server after a step of this worker
  have hstep : ∀ (event : Event) (new : Worker) (permits : Option Nat) (statDrops : Nat),
      event.inner = true → new.writes < worker.writes → new.progs = worker.progs →
      (server.step cfg settings event).1 =
        { server with workers := front ++ new :: rest, permits, statDrops } →
      ∃ server', Reaches cfg settings server server' ∧ server'.writes < server.writes ∧
        server'.progs = server.progs ∧ server'.queue = server.queue ∧
        server'.reader = server.reader := by
    intro event new permits statDrops hinner hless hprogs heq
    refine ⟨_, .step event hinner heq, ?_, ?_, rfl, rfl⟩
    · rw [writes_split hworkers, writes_split rfl]
      omega
    · rw [progs_split hworkers, progs_split rfl, hprogs]
  cases worker with
  | waiting => exact absurd rfl hwrites
  | handling prog => exact absurd rfl hwrites
  | ended => exact absurd rfl hwrites
  | sending replies =>
      refine hstep (.wrote front.length) (.writing replies) (server.permits.map (· + 1))
        server.statDrops rfl (Nat.lt_succ_self _) rfl ?_
      simp [Server.step, Server.wrote, Server.setWorker, hworkers]
  | writing replies =>
      cases replies with
      | nil =>
          refine hstep (.write front.length) .waiting server.permits server.statDrops rfl
            Nat.zero_lt_one rfl ?_
          simp [Server.step, Server.write, Server.setWorker, hworkers]
      | cons reply replies =>
          have hfewer : 2 * replies.length + 2 < 2 * (reply :: replies).length + 1 := by
            rw [List.length_cons]
            omega
          cases hpermits : server.permits with
          | none =>
              refine hstep (.write front.length) (.sending replies) none server.statDrops rfl hfewer
                rfl ?_
              simp [Server.step, Server.write, Server.writeRelay, hpermits, Server.setWorker,
                hworkers]
          | some free =>
              cases free with
              | zero =>
                  refine hstep (.write front.length) (.writing replies) (some 0)
                    (server.statDrops + 1) rfl (Nat.lt_of_succ_lt hfewer) rfl ?_
                  simp [Server.step, Server.write, Server.writeRelay, hpermits,
                    Server.setWorker, hworkers]
              | succ free =>
                  refine hstep (.write front.length) (.sending replies) (some free) server.statDrops
                    rfl hfewer rfl ?_
                  simp [Server.step, Server.write, Server.writeRelay, hpermits,
                    Server.setWorker, hworkers]

/-- All that is to be written is written. -/
theorem exists_written (hprogs : server.progs = []) :
    ∃ server', Reaches cfg settings server server' ∧ server'.progs = [] ∧
      (∀ worker ∈ server'.workers, worker.writes = 0) ∧ server'.queue = server.queue ∧
      server'.reader = server.reader := by
  induction hwrites : server.writes using Nat.strong_induction_on generalizing server with
  | _ writes ih =>
      by_cases hworker : ∃ worker ∈ server.workers, worker.writes ≠ 0
      · obtain ⟨next, hreaches, hless, hnext, hqueue, hreader⟩ := exists_write hworker
        obtain ⟨last, hlast, hdone, hwritten, hqueue', hreader'⟩ :=
          ih next.writes (hwrites ▸ hless) (hnext.trans hprogs) rfl
        exact ⟨last, hreaches.trans hlast, hdone, hwritten, hqueue'.trans hqueue,
          hreader'.trans hreader⟩
      · push Not at hworker
        exact ⟨server, .refl server, hprogs, hworker, rfl, rfl⟩

/-- No worker has a datagram. -/
def Server.Resting (server : Server) : Prop :=
  ∀ worker ∈ server.workers, worker = .waiting ∨ worker = .ended

theorem resting_of {server : Server} (hprogs : server.progs = [])
    (hwrites : ∀ worker ∈ server.workers, worker.writes = 0) : server.Resting := by
  intro worker hworker
  have hnone : worker.progs = [] :=
    List.flatMap_eq_nil_iff.mp (List.append_eq_nil_iff.mp hprogs).1 worker hworker
  have hzero := hwrites worker hworker
  cases worker with
  | waiting => exact Or.inl rfl
  | ended => exact Or.inr rfl
  | handling prog => cases hnone
  | writing rest => simp [Worker.writes] at hzero
  | sending rest => simp [Worker.writes] at hzero

/-- What is under way comes to its end. -/
theorem exists_settled (hrun : (machine cfg settings).Run history server now) :
    ∃ server', Reaches cfg settings server server' ∧ server'.Resting ∧
      server'.queue = server.queue ∧ server'.reader = server.reader := by
  obtain ⟨events, -, hfollows⟩ := exists_follows hrun
  have hthreads := Machine.run_exec _ (Threads.memory.ordered .empty (Threads.code cfg) events)
  obtain ⟨all, hholding⟩ := Threads.holding_of_run hthreads
  obtain ⟨worked, hworked, hprogs, hqueue, hreader⟩ := exists_worked hholding hfollows
  obtain ⟨written, hwritten, hprogs', hwrites, hqueue', hreader'⟩ := exists_written hprogs
  exact ⟨written, hworked.trans hwritten, resting_of hprogs' hwrites, hqueue'.trans hqueue,
    hreader'.trans hreader⟩

def Worker.isWaiting : Worker → Bool
  | .waiting => true
  | _ => false

/-- Workers that find the channel empty and the sender gone end, one by one. -/
theorem exists_left (hresting : server.Resting) (hqueue : server.queue = [])
    {ok : Bool} (hreader : server.reader = .returned ok) :
    ∃ server', Reaches cfg settings server server' ∧ ∀ worker ∈ server'.workers, worker = .ended := by
  induction hcount : server.workers.countP Worker.isWaiting generalizing server with
  | zero =>
      refine ⟨server, .refl server, fun worker hworker => ?_⟩
      rcases hresting worker hworker with rfl | rfl
      · exact absurd rfl (List.countP_eq_zero.mp hcount _ hworker)
      · rfl
  | succ count ih =>
      have hpos : 0 < server.workers.countP Worker.isWaiting := hcount ▸ Nat.succ_pos count
      obtain ⟨worker, hworker, hwaiting⟩ := List.countP_pos_iff.mp hpos
      obtain rfl : worker = .waiting := by
        cases worker <;> first | rfl | cases hwaiting
      obtain ⟨front, rest, hworkers⟩ := List.append_of_mem hworker
      have hleft : Reaches cfg settings server
          { server with workers := front ++ .ended :: rest } := by
        refine .step (.leave front.length) rfl ?_
        simp [Server.step, Server.leave, hworkers, hqueue, hreader, Server.setWorker]
      have hfewer : (front ++ .ended :: rest).countP Worker.isWaiting = count := by
        rw [hworkers, List.countP_append, List.countP_cons] at hcount
        rw [List.countP_append, List.countP_cons]
        simp only [Worker.isWaiting, if_true, Bool.false_eq_true, if_false] at hcount ⊢
        omega
      have hresting' : Server.Resting { server with workers := front ++ .ended :: rest } := by
        intro worker hmem
        rcases List.mem_append.mp hmem with hfront | hrest
        · exact hresting worker (hworkers ▸ List.mem_append_left _ hfront)
        · rcases List.mem_cons.mp hrest with rfl | hrest
          · exact Or.inr rfl
          · refine hresting worker (hworkers ▸ List.mem_append_right _ ?_)
            exact List.mem_cons_of_mem _ hrest
      obtain ⟨last, hlast, hended⟩ := ih hresting' hqueue hreader hfewer
      exact ⟨last, hleft.trans hlast, hended⟩

theorem exists_drained {ok : Bool} (hworkers : 0 < settings.relayWorkers)
    (hrun : (machine cfg settings).Run history server now) (hreader : server.reader = .returned ok) :
    ∃ server', Reaches cfg settings server server' ∧ ∀ worker ∈ server'.workers, worker = .ended := by
  obtain ⟨queue, hqueue⟩ : ∃ queue, server.queue = queue := ⟨_, rfl⟩
  induction queue generalizing server history now with
  | nil =>
      obtain ⟨settled, hsettled, hresting, hqueue', hreader'⟩ := exists_settled hrun
      obtain ⟨last, hlast, hended⟩ :=
        exists_left hresting (hqueue'.trans hqueue) (hreader'.trans hreader)
      exact ⟨last, hsettled.trans hlast, hended⟩
  | cons datagram queue ih =>
      obtain ⟨settled, hsettled, hresting, hqueue', hreader'⟩ := exists_settled hrun
      obtain ⟨events, -, rfl⟩ := id hsettled
      have hrun' := hrun.exec_untimed (fun _ => rfl) events
      obtain ⟨worker, rest, hfirst⟩ : ∃ worker rest,
          ((machine cfg settings).exec server events).workers = worker :: rest := by
        refine List.exists_cons_of_length_pos ?_
        rw [length_workers hrun']
        exact hworkers
      -- no worker has ended as long as a datagram waits
      obtain rfl : worker = .waiting := by
        have hmem : worker ∈ ((machine cfg settings).exec server events).workers := by
          rw [hfirst]
          exact List.mem_cons_self
        rcases hresting worker hmem with heq | rfl
        · exact heq
        · have hempty := ((accounts hrun').ended hmem).1
          rw [hqueue', hqueue] at hempty
          cases hempty
      have htook : Reaches cfg settings ((machine cfg settings).exec server events)
          (((machine cfg settings).exec server events).step cfg settings (.take 0)).1 :=
        .step (.take 0) rfl rfl
      have hnext : (((machine cfg settings).exec server events).step cfg settings (.take 0)).1.queue =
          queue ∧ (((machine cfg settings).exec server events).step cfg settings (.take 0)).1.reader =
            ((machine cfg settings).exec server events).reader := by
        simp [Server.step, Server.take, hfirst, hqueue', hqueue, Server.setWorker]
      obtain ⟨last, hlast, hended⟩ := ih (hrun'.exec_untimed (fun _ => rfl) [.take 0])
        (hnext.2.trans (hreader'.trans hreader)) hnext.1
      exact ⟨last, (hsettled.trans htook).trans hlast, hended⟩

/-- **The channel is emptied.** When the read loop has returned, there is an order of steps in which
the workers take and handle every datagram that was accepted, write or drop every reply, and end. -/
theorem drains_of_run {ok : Bool} (hworkers : 0 < settings.relayWorkers)
    (hrun : (machine cfg settings).Run history server now) (hreader : server.reader = .returned ok) :
    ∃ events : List Event, (∀ event ∈ events, event.inner = true) ∧
      let last := (machine cfg settings).exec server events
      let notes := (history ++ (machine cfg settings).trace server events).flatMap (·.sent)
      (∀ worker ∈ last.workers, worker = .ended) ∧ last.queue = [] ∧
      notes.filterMap Note.queued? = notes.filterMap Note.taken? ∧
      (notes.filterMap Note.taken?).length = notes.countP Note.isFinished := by
  obtain ⟨last, ⟨events, hinner, rfl⟩, hended⟩ := exists_drained hworkers hrun hreader
  have haccounts := accounts (hrun.exec_untimed (fun _ => rfl) events)
  have hempty : ((machine cfg settings).exec server events).queue = [] := by
    obtain ⟨worker, rest, hfirst⟩ : ∃ worker rest,
        ((machine cfg settings).exec server events).workers = worker :: rest := by
      refine List.exists_cons_of_length_pos ?_
      rw [haccounts.workers]
      exact hworkers
    have hmem : worker ∈ ((machine cfg settings).exec server events).workers := by
      rw [hfirst]
      exact List.mem_cons_self
    exact (haccounts.ended (hended worker hmem ▸ hmem)).1
  have hidle : ((machine cfg settings).exec server events).workers.countP Worker.busy = 0 := by
    refine List.countP_eq_zero.mpr fun worker hmem => ?_
    rw [hended worker hmem]
    exact Bool.false_ne_true
  have hfifo := haccounts.fifo
  have hhandled := haccounts.handled
  rw [hempty, List.append_nil] at hfifo
  rw [hidle, Nat.add_zero] at hhandled
  exact ⟨events, hinner, hended, hempty, hfifo, hhandled⟩

/-- A registration waits in the channel when the read loop is cancelled. -/
def cancelEvents : List Event := [.received register false, .cancel, .readerStops]

theorem drains_of_run_cancel :
    ∃ events : List Event, (∀ event ∈ events, event.inner = true) ∧
      ∀ worker ∈ ((machine .defaults oneSlot).exec (machine .defaults oneSlot).init
        (cancelEvents ++ events)).workers, worker = .ended := by
  have hrun := (machine .defaults oneSlot).run_untimed (fun _ => rfl) cancelEvents
  obtain ⟨events, hinner, hended, -⟩ :=
    drains_of_run (by decide) hrun (show _ = Reader.returned true from rfl)
  refine ⟨events, hinner, ?_⟩
  rw [Machine.exec, List.foldl_append]
  exact hended

end Qvole.Relay.Serve
