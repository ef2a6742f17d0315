import Mathlib.Data.List.Forall2
import Qvole.Lib.Alone

/-!
# Lock order

Threads that take locks in a fixed order never block each other for good. Every lock has a rank, and
a thread takes a lock only while the ranks of all it holds are higher; so of the threads that wait,
the one whose lock has the lowest rank waits for a thread that does not wait. Locks may come into
being on the way: a lock is there from some level of the memory on, and levels only grow.
-/

section

variable {Op : Type} {Ret : Op → Type} {State Input Job Lock α β : Type} [DecidableEq Lock]

/-- Which lock an operation takes or drops, and when a lock is there. `inv` is what the memory has to
satisfy for the threads to know which locks are there. -/
structure Locking (Op State Lock : Type) where
  takes : Op → Option Lock
  drops : Op → Option Lock
  rank : Lock → Nat
  level : State → Nat
  needs : Lock → Nat
  locked : State → Lock → Prop
  inv : State → Prop

/-- The memory does with the locks what `D` declares. -/
structure Locking.Lawful (D : Locking Op State Lock) (M : Memory Op Ret State Input) : Prop where
  ready_iff : ∀ o s, M.ready o s = true ↔
    ∀ lock, D.takes o = some lock → D.needs lock ≤ D.level s ∧ ¬ D.locked s lock
  locked_exec : ∀ o input s, M.ready o s = true → ∀ lock, D.locked (M.exec o input s).1 lock ↔
    D.takes o = some lock ∨ (D.locked s lock ∧ D.drops o ≠ some lock)
  level_le : ∀ o input s, D.level s ≤ D.level (M.exec o input s).1

/-- What a thread holds after an operation. -/
def Locking.after (D : Locking Op State Lock) (o : Op) (held : List Lock) : List Lock :=
  (D.takes o).toList ++ held.filter fun lock => D.drops o ≠ some lock

/-- The program keeps to the order, drops only what it holds and knows that the locks it takes are
there, when it starts with the locks `held` at the level `n`. -/
def Prog.Polite (M : Memory Op Ret State Input) (D : Locking Op State Lock) :
    Prog Op Ret α → List Lock → Nat → (α → List Lock → Nat → Prop) → Prop
  | .ret a, held, n, post => post a held n
  | .op o next, held, n, post =>
      (∀ lock, D.takes o = some lock → D.needs lock ≤ n ∧ ∀ h ∈ held, D.rank lock < D.rank h) ∧
      (∀ lock, D.drops o = some lock → lock ∈ held) ∧
      ∀ s input, D.inv s → n ≤ D.level s → M.ready o s = true →
        D.inv (M.exec o input s).1 ∧ ∃ n', n ≤ n' ∧ n' ≤ D.level (M.exec o input s).1 ∧
          (next (M.exec o input s).2).Polite M D (D.after o held) n' post

variable {M : Memory Op Ret State Input} {D : Locking Op State Lock} {p : Prog Op Ret α}
  {held : List Lock} {n : Nat} {post : α → List Lock → Nat → Prop}

/-! ### Rules for programs -/

namespace Prog.Polite

theorem mono {post' : α → List Lock → Nat → Prop} (h : p.Polite M D held n post)
    (hpost : ∀ a held' n', n ≤ n' → post a held' n' → post' a held' n') :
    p.Polite M D held n post' := by
  induction p generalizing held n with
  | ret a => exact hpost a held n le_rfl h
  | op o next ih =>
      refine ⟨h.1, h.2.1, fun s input hinv hlevel hready => ?_⟩
      obtain ⟨hinv', n', hle, hlevel', hnext⟩ := h.2.2 s input hinv hlevel hready
      refine ⟨hinv', n', hle, hlevel', ih _ hnext fun a held' m hm hp => ?_⟩
      exact hpost a held' m (hle.trans hm) hp

theorem pure {a : α} (h : post a held n) : (Pure.pure a : Prog Op Ret α).Polite M D held n post := h

theorem bind {rest : α → Prog Op Ret β} {post' : β → List Lock → Nat → Prop}
    (h : p.Polite M D held n fun a held' n' => (rest a).Polite M D held' n' post') :
    (p >>= rest).Polite M D held n post' := by
  change (p.bind rest).Polite M D held n post'
  induction p generalizing held n with
  | ret a => exact h
  | op o next ih =>
      refine ⟨h.1, h.2.1, fun s input hinv hlevel hready => ?_⟩
      obtain ⟨hinv', n', hle, hlevel', hnext⟩ := h.2.2 s input hinv hlevel hready
      exact ⟨hinv', n', hle, hlevel', ih _ hnext⟩

theorem andThen {rest : α → Prog Op Ret β} {post' : β → List Lock → Nat → Prop}
    (h : p.Polite M D held n post)
    (hrest : ∀ a held' n', n ≤ n' → post a held' n' → (rest a).Polite M D held' n' post') :
    (p >>= rest).Polite M D held n post' :=
  (h.mono hrest).bind

theorem perform {o : Op} {post : Ret o → List Lock → Nat → Prop}
    (htakes : ∀ lock, D.takes o = some lock →
      D.needs lock ≤ n ∧ ∀ h ∈ held, D.rank lock < D.rank h)
    (hdrops : ∀ lock, D.drops o = some lock → lock ∈ held)
    (hexec : ∀ s input, D.inv s → n ≤ D.level s → D.inv (M.exec o input s).1 ∧
      ∃ n', n ≤ n' ∧ n' ≤ D.level (M.exec o input s).1 ∧
        post (M.exec o input s).2 (D.after o held) n') :
    (Prog.perform o : Prog Op Ret (Ret o)).Polite M D held n post :=
  ⟨htakes, hdrops, fun s input hinv hlevel _ => hexec s input hinv hlevel⟩

end Prog.Polite

/-! ### All interleavings -/

/-- The threads keep to the order from what they hold now, and what they hold is what is locked. -/
structure Holding (M : Memory Op Ret State Input) (D : Locking Op State Lock)
    (pool : Pool Op Ret State α) (held : List (List Lock)) : Prop where
  inv : D.inv pool.state
  polite : List.Forall₂ (fun thread own => ∃ n ≤ D.level pool.state,
    thread.Polite M D own n fun _ rest _ => rest = []) pool.threads held
  nodup : held.flatten.Nodup
  locked : ∀ lock, D.locked pool.state lock ↔ lock ∈ held.flatten

variable {pool : Pool Op Ret State α} {all : List (List Lock)}

theorem Holding.get (h : Holding M D pool all) {thread : Nat} {q : Prog Op Ret α}
    (hthread : pool.threads[thread]? = some q) :
    ∃ own, all[thread]? = some own ∧ ∃ n ≤ D.level pool.state,
      q.Polite M D own n fun _ rest _ => rest = [] := by
  obtain ⟨hlt, hget⟩ := List.getElem?_eq_some_iff.mp hthread
  have hlt' : thread < all.length := h.polite.length_eq ▸ hlt
  refine ⟨all[thread], List.getElem?_eq_getElem hlt', ?_⟩
  have hpolite := h.polite.get hlt hlt'
  rw [List.get_eq_getElem, List.get_eq_getElem, hget] at hpolite
  exact hpolite

omit [DecidableEq Lock] in
theorem List.Forall₂.set {γ δ : Type} {R : γ → δ → Prop} {xs : List γ} {ys : List δ}
    (h : List.Forall₂ R xs ys) (i : Nat) {x : γ} {y : δ} (hxy : R x y) :
    List.Forall₂ R (xs.set i x) (ys.set i y) := by
  induction h generalizing i with
  | nil => exact .nil
  | cons hfirst hrest ih =>
      cases i with
      | zero => exact .cons hxy hrest
      | succ i => exact .cons hfirst (ih i)

/-- One step of a thread that can move. -/
theorem Holding.advance (h : Holding M D pool all) (hlawful : D.Lawful M) {thread : Nat} {o : Op}
    {next : Ret o → Prog Op Ret α} (hthread : pool.threads[thread]? = some (.op o next))
    (hready : M.ready o pool.state = true) (input : Input) :
    ∃ all', Holding M D
      { state := (M.exec o input pool.state).1
        threads := pool.threads.set thread (next (M.exec o input pool.state).2) } all' := by
  obtain ⟨own, hown, n, hn, htakes, hdrops, hnext⟩ := h.get hthread
  obtain ⟨hinv, n', hle, hlevel, hpolite⟩ := hnext pool.state input h.inv hn hready
  obtain ⟨hlt, hget⟩ := List.getElem?_eq_some_iff.mp hown
  obtain ⟨front, rest, hall, -, hset⟩ := @List.exists_of_set _ thread (D.after o own) all hlt
  rw [hget] at hall
  have hflat : all.flatten = front.flatten ++ (own ++ rest.flatten) := by simp [hall]
  have hflat' : (all.set thread (D.after o own)).flatten =
      front.flatten ++ (D.after o own ++ rest.flatten) := by simp [hset]
  have hnodup := h.nodup
  rw [hflat] at hnodup
  refine ⟨all.set thread (D.after o own), hinv, ?_, ?_, fun lock => ?_⟩
  · apply List.Forall₂.set _ thread ⟨n', hlevel, hpolite⟩
    refine h.polite.imp fun q own' hq => ?_
    obtain ⟨m, hm, hq⟩ := hq
    exact ⟨m, hm.trans (hlawful.level_le o input pool.state), hq⟩
  · have hkept : (front.flatten ++ (own.filter (fun lock => D.drops o ≠ some lock) ++
        rest.flatten)).Sublist all.flatten := by
      rw [hflat]
      exact (List.Sublist.refl _).append (List.filter_sublist.append (List.Sublist.refl _))
    have hperm : ((D.takes o).toList ++ (front.flatten ++
        (own.filter (fun lock => D.drops o ≠ some lock) ++ rest.flatten))).Perm
          (all.set thread (D.after o own)).flatten := by
      rw [hflat', Locking.after, List.append_assoc]
      exact List.perm_append_comm_assoc _ _ _
    refine hperm.nodup_iff.mp ?_
    cases hlock : D.takes o with
    | none => exact hkept.nodup h.nodup
    | some lock =>
        have hfree := ((hlawful.ready_iff o pool.state).mp hready lock hlock).2
        refine List.nodup_cons.mpr ⟨fun hmem => ?_, hkept.nodup h.nodup⟩
        exact hfree ((h.locked lock).mpr (hkept.subset hmem))
  · rw [hlawful.locked_exec o input pool.state hready lock, h.locked lock, hflat, hflat']
    -- a lock that is dropped is in the thread's own part, and nowhere else
    have helse : D.drops o = some lock → lock ∉ front.flatten ∧ lock ∉ rest.flatten := by
      intro hdrop
      have hmem := hdrops lock hdrop
      obtain ⟨-, hparts, hfront⟩ := List.nodup_append.mp hnodup
      obtain ⟨-, -, hrest⟩ := List.nodup_append.mp hparts
      exact ⟨fun hf => hfront lock hf lock (List.mem_append_left _ hmem) rfl,
        fun hr => hrest lock hmem lock hr rfl⟩
    have htoList : lock ∈ (D.takes o).toList ↔ D.takes o = some lock := Option.mem_toList
    simp only [Locking.after, List.mem_append, htoList, List.mem_filter, decide_eq_true_eq]
    tauto

/-- A thread that cannot move waits for a lock that is taken. -/
theorem Holding.blocked (h : Holding M D pool all) (hlawful : D.Lawful M) {thread : Nat} {o : Op}
    {next : Ret o → Prog Op Ret α} (hthread : pool.threads[thread]? = some (.op o next))
    (hready : ¬ M.ready o pool.state = true) :
    ∃ lock, D.takes o = some lock ∧ D.locked pool.state lock := by
  obtain ⟨own, -, n, hn, htakes, -⟩ := h.get hthread
  by_contra hnone
  push Not at hnone
  refine hready ((hlawful.ready_iff o pool.state).mpr fun lock hlock => ?_)
  exact ⟨(htakes lock hlock).1.trans hn, hnone lock hlock⟩

/-- The thread that holds a lock is not done, and what it takes next has a lower rank. -/
theorem Holding.holder (h : Holding M D pool all) {lock : Lock} (hlocked : D.locked pool.state lock) :
    ∃ (thread : Nat) (o : Op) (next : Ret o → Prog Op Ret α),
      pool.threads[thread]? = some (.op o next) ∧
      ∀ lock', D.takes o = some lock' → D.rank lock' < D.rank lock := by
  obtain ⟨own, hown, hmem⟩ := List.mem_flatten.mp ((h.locked lock).mp hlocked)
  obtain ⟨thread, hlt, hget⟩ := List.getElem_of_mem hown
  have hlt' : thread < pool.threads.length := h.polite.length_eq ▸ hlt
  have hthread : pool.threads[thread]? = some pool.threads[thread] := List.getElem?_eq_getElem hlt'
  obtain ⟨own', hown', n, -, hpolite⟩ := h.get hthread
  obtain rfl : own' = own := by
    rw [List.getElem?_eq_getElem hlt, hget] at hown'
    exact (Option.some.inj hown').symm
  cases hprog : pool.threads[thread] with
  | ret a =>
      rw [hprog] at hpolite
      obtain rfl : own' = [] := hpolite
      cases hmem
  | op o next =>
      rw [hprog] at hpolite hthread
      exact ⟨thread, o, next, hthread, fun lock' hlock' => (hpolite.1 lock' hlock').2 lock hmem⟩

/-- **Nobody waits for good.** As long as not all threads are done, one of them can move. -/
theorem Holding.exists_ready (h : Holding M D pool all) (hlawful : D.Lawful M)
    (hquiet : pool.quiet = false) :
    ∃ (thread : Nat) (o : Op) (next : Ret o → Prog Op Ret α),
      pool.threads[thread]? = some (.op o next) ∧ M.ready o pool.state = true := by
  have hwaits : ∀ (rank thread : Nat) (o : Op) (next : Ret o → Prog Op Ret α),
      pool.threads[thread]? = some (.op o next) →
      (∀ lock, D.takes o = some lock → D.rank lock < rank) →
      ∃ (thread : Nat) (o : Op) (next : Ret o → Prog Op Ret α),
        pool.threads[thread]? = some (.op o next) ∧ M.ready o pool.state = true := by
    intro rank
    induction rank using Nat.strong_induction_on with
    | _ rank ih =>
        intro thread o next hthread hrank
        by_cases hready : M.ready o pool.state = true
        · exact ⟨thread, o, next, hthread, hready⟩
        · obtain ⟨lock, hlock, hlocked⟩ := h.blocked hlawful hthread hready
          obtain ⟨thread', o', next', hthread', hlower⟩ := h.holder hlocked
          exact ih (D.rank lock) (hrank lock hlock) thread' o' next' hthread' hlower
  obtain ⟨q, hq, hdone⟩ := List.all_eq_false.mp hquiet
  obtain ⟨thread, hlt, hget⟩ := List.getElem_of_mem hq
  cases q with
  | ret a => exact absurd rfl hdone
  | op o next =>
      have hthread : pool.threads[thread]? = some (.op o next) :=
        List.getElem?_eq_some_iff.mpr ⟨hlt, hget⟩
      by_cases hlock : ∃ lock, D.takes o = some lock
      · obtain ⟨lock, hlock⟩ := hlock
        refine hwaits (D.rank lock + 1) thread o next hthread fun lock' hlock' => ?_
        obtain rfl := Option.some.inj (hlock.symm.trans hlock')
        exact Nat.lt_succ_self _
      · exact hwaits 0 thread o next hthread fun lock' hlock' => absurd ⟨lock', hlock'⟩ hlock

/-! ### To the end -/

/-- Some operation of one thread is answered. -/
def Answered (after before : List (Prog Op Ret α)) : Prop :=
  ∃ (thread : Nat) (o : Op) (next : Ret o → Prog Op Ret α) (answer : Ret o),
    before[thread]? = some (.op o next) ∧ after = before.set thread (next answer)

omit [DecidableEq Lock] in
theorem acc_answered_cons (q : Prog Op Ret α) {rest : List (Prog Op Ret α)}
    (hrest : Acc Answered rest) : Acc Answered (q :: rest) := by
  induction q generalizing rest with
  | ret a =>
      induction hrest with
      | intro rest _ ih =>
          refine Acc.intro _ ?_
          rintro after ⟨thread, o, next, answer, hthread, rfl⟩
          cases thread with
          | zero => simp at hthread
          | succ thread => exact ih _ ⟨thread, o, next, answer, by simpa using hthread, rfl⟩
  | op o next ihnext =>
      induction hrest with
      | intro rest hacc ih =>
          refine Acc.intro _ ?_
          rintro after ⟨thread, o', next', answer, hthread, rfl⟩
          cases thread with
          | zero =>
              obtain ⟨rfl, hnext⟩ : o = o' ∧ HEq next next' := by simpa using hthread
              obtain rfl := eq_of_heq hnext
              exact ihnext answer (Acc.intro rest hacc)
          | succ thread => exact ih _ ⟨thread, o', next', answer, by simpa using hthread, rfl⟩

/-- Threads cannot go on forever. -/
theorem acc_answered (threads : List (Prog Op Ret α)) : Acc Answered threads := by
  induction threads with
  | nil =>
      refine Acc.intro _ ?_
      rintro after ⟨thread, o, next, answer, hthread, -⟩
      simp at hthread
  | cons q rest ih => exact acc_answered_cons q ih

variable {init : State} {code : Job → Prog Op Ret α}

theorem Holding.completes (h : Holding M D pool all) (hlawful : D.Lawful M) (input : Input)
    (init : State) (code : Job → Prog Op Ret α) :
    ∃ events : List (Schedule Job Input), events.filterMap Schedule.job? = [] ∧
      ((M.machine init code).exec pool events).quiet = true := by
  obtain ⟨state, threads⟩ := pool
  induction acc_answered threads generalizing state all with
  | intro threads _ ih =>
      cases hquiet : Pool.quiet { state, threads } with
      | true => exact ⟨[], rfl, hquiet⟩
      | false =>
          obtain ⟨thread, o, next, hthread, hready⟩ := h.exists_ready hlawful hquiet
          obtain ⟨all', hnext⟩ := h.advance hlawful hthread hready input
          obtain ⟨events, hjobs, hdone⟩ := ih _ ⟨thread, o, next, _, hthread, rfl⟩ _ hnext
          refine ⟨.advance thread input :: events, hjobs, ?_⟩
          have hstep : ((M.machine init code).step { state, threads } (.advance thread input)).1 =
              { state := (M.exec o input state).1
                threads := threads.set thread (next (M.exec o input state).2) } := by
            simp only at hthread hready
            simp [Memory.machine, hthread, hready]
          rw [Machine.exec, List.foldl_cons, hstep]
          exact hdone

variable {history : List (Machine.Record (Pool Op Ret State α) (Schedule Job Input) Op)} {now : Nat}

/-- Threads whose programs keep to the order do so along every run. -/
theorem Memory.run_holding (hlawful : D.Lawful M)
    (hcode : ∀ job, (code job).Polite M D [] 0 fun _ rest _ => rest = [])
    (hinv : D.inv init) (hfree : ∀ lock, ¬ D.locked init lock)
    (hrun : Machine.Run (M.machine init code) history pool now) :
    ∃ all, Holding M D pool all := by
  have hinit : Holding M D (M.machine init code).init [] :=
    ⟨hinv, .nil, List.nodup_nil, fun lock => iff_of_false (hfree lock) List.not_mem_nil⟩
  refine hrun.stateInv (I := fun pool => ∃ all, Holding M D pool all) ⟨[], hinit⟩ ?_
  rintro pool event ⟨all, h⟩
  cases event with
  | spawn job =>
      refine ⟨all ++ [[]], h.inv, ?_, ?_, ?_⟩
      · exact List.rel_append h.polite (.cons ⟨0, Nat.zero_le _, hcode job⟩ .nil)
      · simpa using h.nodup
      · intro lock
        rw [List.flatten_append, List.flatten_singleton, List.append_nil]
        exact h.locked lock
  | advance thread input =>
      simp only [Memory.machine]
      cases hthread : pool.threads[thread]? with
      | none => exact ⟨all, h⟩
      | some q =>
          cases q with
          | ret a => exact ⟨all, h⟩
          | op o next =>
              dsimp only
              by_cases hready : M.ready o pool.state = true
              · rw [if_pos hready]
                exact h.advance hlawful hthread hready input
              · rw [if_neg hready]
                exact ⟨all, h⟩

end
