import Mathlib.Algebra.BigOperators.Group.List.Basic
import Qvole.Lib.Run

/-!
# Threads

A thread is a program over operations on a memory that it shares with others; every operation is one
step, and the steps of different threads interleave freely. To show what the memory looks like
between the steps, every thread gets a share of a ledger: the invariant speaks of the memory and of
the sum of all shares, and a step may change the memory and the share of the thread that makes it,
whatever the others have. A thread that is done has nothing left, so when all are done the invariant
speaks of the memory alone.
-/

/-- An operation, and the rest of the program for each of its answers. -/
inductive Prog (Op : Type) (Ret : Op → Type) (α : Type) : Type where
  | ret (a : α)
  | op (o : Op) (next : Ret o → Prog Op Ret α)

namespace Prog

variable {Op : Type} {Ret : Op → Type} {α β : Type}

def bind : Prog Op Ret α → (α → Prog Op Ret β) → Prog Op Ret β
  | ret a, rest => rest a
  | op o next, rest => op o fun answer => (next answer).bind rest

instance monad : Monad (Prog Op Ret) where
  pure := ret
  bind := bind

def perform (o : Op) : Prog Op Ret (Ret o) := op o ret

def done : Prog Op Ret α → Bool
  | ret _ => true
  | op _ _ => false

end Prog

/-- What the operations do. A thread waits until its next operation is ready; the input stands for
what an operation takes from outside. -/
structure Memory (Op : Type) (Ret : Op → Type) (State Input : Type) where
  ready : Op → State → Bool
  exec : (o : Op) → Input → State → State × Ret o

structure Pool (Op : Type) (Ret : Op → Type) (State α : Type) where
  state : State
  threads : List (Prog Op Ret α)

/-- All threads are done. -/
def Pool.quiet {Op : Type} {Ret : Op → Type} {State α : Type} (pool : Pool Op Ret State α) : Bool :=
  pool.threads.all Prog.done

inductive Schedule (Job Input : Type) where
  | spawn (job : Job)
  | advance (thread : Nat) (input : Input)

/-- The books that go with a memory: the invariant on the memory and the sum of the shares, and what
has to hold when an operation is made. -/
structure Books (Op State L : Type) where
  inv : State → L → Prop
  fine : Op → State → Prop

section

variable {Op : Type} {Ret : Op → Type} {State Input Job α β L : Type}

/-- Threads start at any time, each with the program of its job. What a step puts out is the
operation it made. -/
def Memory.machine (M : Memory Op Ret State Input) (init : State) (code : Job → Prog Op Ret α) :
    Machine (Pool Op Ret State α) (Schedule Job Input) Op where
  init := { state := init, threads := [] }
  step := fun pool event =>
    match event with
    | .spawn job => ({ pool with threads := pool.threads ++ [code job] }, [])
    | .advance thread input =>
        match pool.threads[thread]? with
        | none => (pool, [])
        | some (.ret _) => (pool, [])
        | some (.op o next) =>
            if M.ready o pool.state then
              let result := M.exec o input pool.state
              ({ state := result.1, threads := pool.threads.set thread (next result.2) }, [o])
            else (pool, [])
  start := fun _ => 0
  finish := fun _ => 0

theorem Memory.ordered (M : Memory Op Ret State Input) (init : State) (code : Job → Prog Op Ret α)
    (events : List (Schedule Job Input)) : (M.machine init code).Ordered 0 events := by
  induction events with
  | nil => exact trivial
  | cons event rest ih => exact ⟨Nat.le_refl 0, ih⟩

variable [AddCommMonoid L] {M : Memory Op Ret State Input} {B : Books Op State L}

/-- Every step of the program keeps the books, starting from the share `l`; at its end the result and
the share are as `post` says. -/
def Prog.Safe (M : Memory Op Ret State Input) (B : Books Op State L) :
    Prog Op Ret α → L → (α → L → Prop) → Prop
  | .ret a, l, post => post a l
  | .op o next, l, post => ∀ state input rest, M.ready o state = true → B.inv state (l + rest) →
      B.fine o state ∧ ∃ l', B.inv (M.exec o input state).1 (l' + rest) ∧
        (next (M.exec o input state).2).Safe M B l' post

/-! ### Rules for programs -/

namespace Prog.Safe

variable {p : Prog Op Ret α} {l : L} {post : α → L → Prop}

theorem mono {post' : α → L → Prop} (h : p.Safe M B l post)
    (hpost : ∀ a l', post a l' → post' a l') : p.Safe M B l post' := by
  induction p generalizing l with
  | ret a => exact hpost a l h
  | op o next ih =>
      intro state input rest hready hinv
      obtain ⟨hfine, l', hinv', hnext⟩ := h state input rest hready hinv
      exact ⟨hfine, l', hinv', ih _ hnext⟩

theorem bind {rest : α → Prog Op Ret β} {post' : β → L → Prop}
    (h : p.Safe M B l fun a l' => (rest a).Safe M B l' post') : (p >>= rest).Safe M B l post' := by
  change (p.bind rest).Safe M B l post'
  induction p generalizing l with
  | ret a => exact h
  | op o next ih =>
      intro state input others hready hinv
      obtain ⟨hfine, l', hinv', hnext⟩ := h state input others hready hinv
      exact ⟨hfine, l', hinv', ih _ hnext⟩

theorem andThen {rest : α → Prog Op Ret β} {post' : β → L → Prop} (h : p.Safe M B l post)
    (hrest : ∀ a l', post a l' → (rest a).Safe M B l' post') : (p >>= rest).Safe M B l post' :=
  (h.mono hrest).bind

theorem pure {a : α} (h : post a l) : (Pure.pure a : Prog Op Ret α).Safe M B l post := h

end Prog.Safe

/-! ### All interleavings -/

/-- Every thread keeps the books from its share on, and will have nothing left. -/
def Accounted (M : Memory Op Ret State Input) (B : Books Op State L)
    (threads : List (Prog Op Ret α)) (shares : List L) : Prop :=
  List.Forall₂ (fun thread share => thread.Safe M B share fun _ l => l = 0) threads shares

theorem Accounted.advance {threads : List (Prog Op Ret α)} {shares : List L}
    (h : Accounted M B threads shares) {thread : Nat} {o : Op} {next : Ret o → Prog Op Ret α}
    (hthread : threads[thread]? = some (.op o next)) {state : State} (hready : M.ready o state = true)
    {rest : L} (hinv : B.inv state (shares.sum + rest)) (input : Input) :
    B.fine o state ∧ ∃ shares', B.inv (M.exec o input state).1 (shares'.sum + rest) ∧
      Accounted M B (threads.set thread (next (M.exec o input state).2)) shares' := by
  induction h generalizing thread rest with
  | nil => simp at hthread
  | @cons first share threads shares hfirst hothers ih =>
      rw [List.sum_cons] at hinv
      cases thread with
      | zero =>
          obtain rfl : first = .op o next := by simpa using hthread
          rw [add_assoc] at hinv
          obtain ⟨hfine, l', hinv', hnext⟩ := hfirst state input (shares.sum + rest) hready hinv
          refine ⟨hfine, l' :: shares, ?_, .cons hnext hothers⟩
          rwa [List.sum_cons, add_assoc]
      | succ thread =>
          rw [add_comm share, add_assoc] at hinv
          obtain ⟨hfine, shares', hinv', haccounted⟩ := ih (by simpa using hthread) hinv
          refine ⟨hfine, share :: shares', ?_, .cons hfirst haccounted⟩
          rwa [List.sum_cons, add_comm share, add_assoc]

theorem Accounted.sum_eq_zero {threads : List (Prog Op Ret α)} {shares : List L}
    (h : Accounted M B threads shares) (hdone : threads.all Prog.done = true) : shares.sum = 0 := by
  induction h with
  | nil => rfl
  | @cons first share threads shares hfirst _ ih =>
      rw [List.all_cons, Bool.and_eq_true] at hdone
      rw [List.sum_cons, ih hdone.2, add_zero]
      cases first with
      | ret a => exact hfirst
      | op o next => cases hdone.1

variable {init : State} {code : Job → Prog Op Ret α}
  {history : List (Machine.Record (Pool Op Ret State α) (Schedule Job Input) Op)}
  {pool : Pool Op Ret State α} {now : Nat}

/-- One step of any thread. -/
theorem Accounted.step (hcode : ∀ job, (code job).Safe M B 0 fun _ l => l = 0)
    (event : Schedule Job Input) {shares : List L} (h : Accounted M B pool.threads shares)
    (hinv : B.inv pool.state shares.sum) :
    (∀ o ∈ ((M.machine init code).step pool event).2, B.fine o pool.state) ∧
      ∃ shares', B.inv ((M.machine init code).step pool event).1.state shares'.sum ∧
        Accounted M B ((M.machine init code).step pool event).1.threads shares' := by
  cases event with
  | spawn job =>
      refine ⟨by simp [Memory.machine], shares ++ [0], ?_, ?_⟩
      · simpa [Memory.machine] using hinv
      · exact List.rel_append h (.cons (hcode job) .nil)
  | advance thread input =>
      simp only [Memory.machine]
      cases hthread : pool.threads[thread]? with
      | none => exact ⟨by simp, shares, hinv, h⟩
      | some prog =>
          cases prog with
          | ret a => exact ⟨by simp, shares, hinv, h⟩
          | op o next =>
              dsimp only
              by_cases hready : M.ready o pool.state = true
              · rw [if_pos hready]
                rw [← add_zero shares.sum] at hinv
                obtain ⟨hfine, shares', hinv', haccounted⟩ := h.advance hthread hready hinv input
                rw [add_zero] at hinv'
                exact ⟨by simpa using hfine, shares', hinv', haccounted⟩
              · rw [if_neg hready]
                exact ⟨by simp, shares, hinv, h⟩

/-- **All interleavings keep the books.** If the program of every job keeps them from an empty share
to an empty share, then after every run the invariant holds of some shares, it holds of none when all
threads are done, and every operation of the run was fine when it was made. -/
theorem Memory.run_books (hcode : ∀ job, (code job).Safe M B 0 fun _ l => l = 0)
    (hinit : B.inv init 0) (hrun : Machine.Run (M.machine init code) history pool now) :
    (∃ l, B.inv pool.state l) ∧ (pool.quiet = true → B.inv pool.state 0) ∧
      ∀ r ∈ history, ∀ o ∈ r.sent, B.fine o r.before.state := by
  have hbooks : ∀ {history pool now}, Machine.Run (M.machine init code) history pool now →
      ∃ shares, B.inv pool.state shares.sum ∧ Accounted M B pool.threads shares := by
    intro history pool now hrun
    have hempty : Accounted M B ([] : List (Prog Op Ret α)) [] := .nil
    refine hrun.stateInv (I := fun pool => ∃ shares, B.inv pool.state shares.sum ∧
      Accounted M B pool.threads shares) ⟨[], hinit, hempty⟩ ?_
    rintro pool event ⟨shares, hinv, haccounted⟩
    exact (haccounted.step hcode event hinv).2
  obtain ⟨shares, hinv, haccounted⟩ := hbooks hrun
  refine ⟨⟨_, hinv⟩, fun hquiet => ?_, fun r hr o ho => ?_⟩
  · rw [← haccounted.sum_eq_zero hquiet]
    exact hinv
  · obtain ⟨past, later, now', -, hpast, -, hrecord⟩ := hrun.before_reached hr
    obtain ⟨shares, hinv, haccounted⟩ := hbooks hpast
    rw [hrecord] at ho
    exact (haccounted.step hcode r.event hinv).1 o ho

end
