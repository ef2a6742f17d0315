import Mathlib.Order.Nat
import Qvole.Lib.Threads

/-!
# One thread at a time

A thread that nobody interrupts runs through to its end, if it never has to wait for a guard that
nobody will drop. Threads that are run one behind the other do what a machine does that handles one
event at a time, if the program of every event does what the machine's step does; the inputs are then
those that the event brought, in the order of their clock readings.
-/

section

variable {Op : Type} {Ret : Op → Type} {State Input Job α β : Type}

/-- Run without interruption, with all clock readings between `t` and `t'`, the program ends with the
result and the memory that are named last. -/
inductive Prog.Alone (M : Memory Op Ret State Input) (clock : Input → Nat) :
    Prog Op Ret α → Nat → State → α → Nat → State → Prop
  | ret {a : α} {s : State} {t t' : Nat} (hle : t ≤ t') : Prog.Alone M clock (.ret a) t s a t' s
  | op {o : Op} {next : Ret o → Prog Op Ret α} {s s' : State} {a : α} {t t' : Nat} (input : Input)
      (hready : M.ready o s = true) (hle : t ≤ clock input)
      (hnext : Prog.Alone M clock (next (M.exec o input s).2) (clock input) (M.exec o input s).1 a t' s') :
      Prog.Alone M clock (.op o next) t s a t' s'

variable {M : Memory Op Ret State Input} {clock : Input → Nat} {p : Prog Op Ret α} {s s' s'' : State}
  {a : α} {b : β} {t t' t'' : Nat}

/-! ### Rules for programs -/

namespace Prog.Alone

theorem le (h : p.Alone M clock t s a t' s') : t ≤ t' := by
  induction h with
  | ret hle => exact hle
  | op input _ hle _ ih => exact hle.trans ih

theorem mono (h : p.Alone M clock t s a t' s') {first last : Nat} (hfirst : first ≤ t)
    (hlast : t' ≤ last) : p.Alone M clock first s a last s' := by
  induction h generalizing first with
  | ret hle => exact .ret (hfirst.trans (hle.trans hlast))
  | op input hready hle hnext ih => exact .op input hready (hfirst.trans hle) (ih le_rfl hlast)

theorem pure (a : α) (t : Nat) (s : State) :
    (Pure.pure a : Prog Op Ret α).Alone M clock t s a t s := .ret le_rfl

theorem bind {rest : α → Prog Op Ret β} (h : p.Alone M clock t s a t' s')
    (hrest : (rest a).Alone M clock t' s' b t'' s'') : (p >>= rest).Alone M clock t s b t'' s'' := by
  change (p.bind rest).Alone M clock t s b t'' s''
  induction h with
  | ret hle => exact hrest.mono hle le_rfl
  | op input hready hle _ ih => exact .op input hready hle (ih hrest)

theorem perform {o : Op} (input : Input) (hready : M.ready o s = true) (hle : t ≤ clock input) :
    (Prog.perform o : Prog Op Ret (Ret o)).Alone M clock t s (M.exec o input s).2 (clock input)
      (M.exec o input s).1 :=
  .op input hready hle (.ret le_rfl)

end Prog.Alone

/-! ### Threads one behind the other -/

def Schedule.job? : Schedule Job Input → Option Job
  | .spawn job => some job
  | .advance _ _ => none

def Schedule.reading? (clock : Input → Nat) : Schedule Job Input → Option Nat
  | .spawn _ => none
  | .advance _ input => some (clock input)

/-- The inputs that bring a thread to its end, whatever the other threads are. -/
theorem Prog.Alone.exists_inputs (init : State) (code : Job → Prog Op Ret α)
    (h : p.Alone M clock t s a t' s') :
    ∃ inputs : List Input, (inputs.map clock).Pairwise (· ≤ ·) ∧
      (∀ input ∈ inputs, t ≤ clock input ∧ clock input ≤ t') ∧
      ∀ (threads : List (Prog Op Ret α)) (thread : Nat), threads[thread]? = some p →
        (M.machine init code).exec { state := s, threads } (inputs.map (.advance thread)) =
          { state := s', threads := threads.set thread (.ret a) } := by
  induction h with
  | @ret a s t t' hle =>
      refine ⟨[], List.Pairwise.nil, by simp, fun threads thread hthread => ?_⟩
      obtain ⟨hlt, hget⟩ := List.getElem?_eq_some_iff.mp hthread
      simp only [List.map_nil, Machine.exec, List.foldl_nil]
      rw [← hget, List.set_getElem_self]
  | @op o next s s' a t t' input hready hle hnext ih =>
      obtain ⟨inputs, hsorted, hbounds, hexec⟩ := ih
      refine ⟨input :: inputs, ?_, ?_, fun threads thread hthread => ?_⟩
      · rw [List.map_cons, List.pairwise_cons]
        refine ⟨fun reading hreading => ?_, hsorted⟩
        obtain ⟨other, hother, rfl⟩ := List.mem_map.mp hreading
        exact (hbounds other hother).1
      · intro other hother
        rcases List.mem_cons.mp hother with rfl | hother
        · exact ⟨hle, hnext.le⟩
        · exact ⟨hle.trans (hbounds other hother).1, (hbounds other hother).2⟩
      · have hstep : ((M.machine init code).step { state := s, threads } (.advance thread input)).1 =
            { state := (M.exec o input s).1
              threads := threads.set thread (next (M.exec o input s).2) } := by
          simp [Memory.machine, hthread, hready]
        obtain ⟨hlt, -⟩ := List.getElem?_eq_some_iff.mp hthread
        have hrest := hexec (threads.set thread (next (M.exec o input s).2)) thread
          (by simp [hlt])
        rw [List.set_set] at hrest
        rw [List.map_cons, Machine.exec, List.foldl_cons, hstep]
        exact hrest

variable {σ Event Out : Type} {S : Machine σ Event Out} {history : List (Machine.Record σ Event Out)}
  {spec : σ} {now : Nat} {init : State} {code : Job → Prog Op Ret (List Out)}

/-- **One at a time.** If the program of every event, run alone, puts out what the step of the machine
puts out and keeps the relation between the two memories, then the threads can be scheduled, one
behind the other and with the clock never going back, to follow any run of the machine. -/
theorem Memory.exists_serial (job : Event → Job) (R : σ → State → Prop) (hinit : R S.init init)
    (hstep : ∀ spec event s, R spec s → ∃ s', (code (job event)).Alone M clock (S.start event) s
      (S.step spec event).2 (S.finish event) s' ∧ R (S.step spec event).1 s')
    (hrun : S.Run history spec now) :
    ∃ events : List (Schedule Job Input),
      let pool := (M.machine init code).exec (M.machine init code).init events
      events.filterMap Schedule.job? = history.map (fun r => job r.event) ∧
      (events.filterMap (Schedule.reading? clock)).Pairwise (· ≤ ·) ∧
      (∀ reading ∈ events.filterMap (Schedule.reading? clock), reading ≤ now) ∧
      pool.threads = history.map (fun r => .ret r.sent) ∧ R spec pool.state := by
  induction hrun with
  | nil => exact ⟨[], rfl, List.Pairwise.nil, by simp, rfl, hinit⟩
  | @snoc history spec now event hrun hle ih =>
      obtain ⟨events, hjobs, hsorted, hbound, hthreads, hR⟩ := ih
      obtain ⟨s', halone, hR'⟩ := hstep spec event _ hR
      obtain ⟨inputs, hinputs, hbounds, hexec⟩ := halone.exists_inputs init code
      set machine := M.machine init code with hmachine
      set pool := machine.exec machine.init events with hpool
      set advances : List (Schedule Job Input) := inputs.map (.advance history.length) with hadvances
      have hnone : advances.filterMap Schedule.job? = [] := by
        simp [hadvances, List.filterMap_map, Function.comp_def, Schedule.job?]
      have hreadings : advances.filterMap (Schedule.reading? clock) = inputs.map clock := by
        rw [hadvances, List.filterMap_map, ← List.filterMap_eq_map]
        rfl
      have hspawn : (machine.step pool (.spawn (job event))).1 =
          { state := pool.state, threads := pool.threads ++ [code (job event)] } := rfl
      have hafter : machine.exec machine.init (events ++ .spawn (job event) :: advances) =
          { state := s', threads := (history ++ [S.record spec event]).map fun r => .ret r.sent } := by
        have hlast := hexec (pool.threads ++ [code (job event)]) history.length
          (by simp [hthreads])
        rw [Machine.exec, List.foldl_append, List.foldl_cons]
        change Machine.exec machine (machine.step pool (.spawn (job event))).1 _ = _
        rw [hspawn, hlast, hthreads]
        simp [Machine.record]
      refine ⟨events ++ .spawn (job event) :: advances, ?_, ?_, ?_, ?_, ?_⟩
      · rw [List.filterMap_append, hjobs, List.filterMap_cons, hnone]
        simp [Schedule.job?, Machine.record]
      · rw [List.filterMap_append, List.filterMap_cons, hreadings, List.pairwise_append]
        refine ⟨hsorted, hinputs, fun reading hreading later hlater => ?_⟩
        obtain ⟨input, hinput, rfl⟩ := List.mem_map.mp hlater
        exact (hbound reading hreading).trans (hle.trans (hbounds input hinput).1)
      · intro reading hreading
        rw [List.filterMap_append, List.filterMap_cons, hreadings] at hreading
        rcases List.mem_append.mp hreading with hold | hnew
        · exact (hbound reading hold).trans (hle.trans halone.le)
        · obtain ⟨input, hinput, rfl⟩ := List.mem_map.mp hnew
          exact (hbounds input hinput).2
      · exact congrArg Pool.threads hafter
      · rw [hafter]
        exact hR'

end
