import Mathlib.Data.List.Basic

/-!
# Counting semaphores

A pool of semaphores, named by their places, and tasks that hold at most one permit each. A task
knows the semaphore its permit came from. `Balanced` says that every permit is free or held, and is
kept when a task takes a permit or gives it back.
-/

structure Semaphore where
  size : Nat
  free : Nat
  deriving DecidableEq, Repr

theorem List.getElem?_concat_cases {α : Type} {xs : List α} {a b : α} {i : Nat}
    (h : (xs ++ [b])[i]? = some a) : xs[i]? = some a ∨ (i = xs.length ∧ a = b) := by
  by_cases hlt : i < xs.length
  · rw [List.getElem?_append_left hlt] at h
    exact Or.inl h
  · have hi := (List.getElem?_eq_some_iff.mp h).1
    rw [List.length_append, List.length_singleton] at hi
    obtain rfl : i = xs.length := by omega
    rw [List.getElem?_concat_length] at h
    exact Or.inr ⟨rfl, (Option.some.inj h).symm⟩

namespace Semaphore

def new (size : Nat) : Semaphore := { size, free := size }

def tryAcquire (sem : Semaphore) : Option Semaphore :=
  if sem.free = 0 then none else some { sem with free := sem.free - 1 }

def release (sem : Semaphore) : Semaphore := { sem with free := sem.free + 1 }

variable {α : Type} {permit : α → Option Nat} {pool : List Semaphore} {tasks : List α}
  {task task' : α} {sem sem' : Semaphore} {handle place : Nat}

theorem size_tryAcquire (h : sem.tryAcquire = some sem') : sem'.size = sem.size := by
  unfold tryAcquire at h
  split at h
  · cases h
  · cases h
    rfl

theorem free_tryAcquire (h : sem.tryAcquire = some sem') : sem'.free + 1 = sem.free := by
  unfold tryAcquire at h
  split at h
  · cases h
  · rename_i hfree
    cases h
    exact Nat.succ_pred hfree

/-! ### Holders -/

/-- How many tasks hold a permit of this semaphore. -/
def holders (permit : α → Option Nat) (tasks : List α) (handle : Nat) : Nat :=
  tasks.countP fun task => permit task == some handle

theorem holders_append (permit : α → Option Nat) (tasks : List α) (task : α) (handle : Nat) :
    holders permit (tasks ++ [task]) handle =
      holders permit tasks handle + if permit task = some handle then 1 else 0 := by
  simp only [holders, List.countP_append, List.countP_singleton, beq_iff_eq]

theorem holders_set (permit : α → Option Nat) (task' : α) (handle : Nat)
    (htask : tasks[place]? = some task) :
    holders permit (tasks.set place task') handle +
        (if permit task = some handle then 1 else 0) =
      holders permit tasks handle + if permit task' = some handle then 1 else 0 := by
  induction tasks generalizing place with
  | nil => simp at htask
  | cons first rest ih =>
      cases place with
      | zero =>
          obtain rfl := Option.some.inj htask
          simp only [holders, List.set_cons_zero, List.countP_cons, beq_iff_eq]
          omega
      | succ place =>
          have hnext : rest[place]? = some task := htask
          have hrest := ih hnext
          simp only [holders, List.set_cons_succ, List.countP_cons] at hrest ⊢
          omega

/-! ### Balance -/

structure Balanced (permit : α → Option Nat) (pool : List Semaphore) (tasks : List α) : Prop where
  known : ∀ handle, pool.length ≤ handle → holders permit tasks handle = 0
  whole : ∀ handle sem, pool[handle]? = some sem →
    sem.free + holders permit tasks handle = sem.size

theorem balanced_nil : Balanced permit [] ([] : List α) where
  known := fun _ _ => rfl
  whole := fun _ _ hsem => by simp at hsem

theorem Balanced.append_new (h : Balanced permit pool tasks) (size : Nat) :
    Balanced permit (pool ++ [new size]) tasks := by
  constructor
  · intro handle hle
    rw [List.length_append] at hle
    exact h.known handle (by omega)
  · intro handle sem hsem
    rcases List.getElem?_concat_cases hsem with hold | ⟨rfl, rfl⟩
    · exact h.whole handle sem hold
    · rw [h.known _ (Nat.le_refl _)]
      rfl

theorem Balanced.congr {tasks' : List α} (h : Balanced permit pool tasks)
    (hsame : ∀ handle, holders permit tasks' handle = holders permit tasks handle) :
    Balanced permit pool tasks' where
  known := fun handle hle => (hsame handle).trans (h.known handle hle)
  whole := fun handle sem hsem => by rw [hsame handle]; exact h.whole handle sem hsem

/-- One semaphore changes along with the number of its holders. -/
theorem Balanced.update {tasks' : List α} (h : Balanced permit pool tasks)
    (hsem : pool[handle]? = some sem)
    (hchanged : sem'.free + holders permit tasks' handle = sem'.size)
    (hothers : ∀ other, other ≠ handle →
      holders permit tasks' other = holders permit tasks other) :
    Balanced permit (pool.set handle sem') tasks' := by
  have hlt : handle < pool.length := (List.getElem?_eq_some_iff.mp hsem).1
  constructor
  · intro other hle
    rw [List.length_set] at hle
    rw [hothers other (by omega)]
    exact h.known other hle
  · intro other sem'' hother
    rw [List.getElem?_set] at hother
    by_cases heq : handle = other
    · rw [if_pos heq, if_pos hlt] at hother
      obtain rfl := Option.some.inj hother
      exact heq ▸ hchanged
    · rw [if_neg heq] at hother
      rw [hothers other (Ne.symm heq)]
      exact h.whole other sem'' hother

/-- A new task comes with a permit. -/
theorem Balanced.spawn (h : Balanced permit pool tasks) (hsem : pool[handle]? = some sem)
    (htake : sem.tryAcquire = some sem') (hpermit : permit task = some handle) :
    Balanced permit (pool.set handle sem') (tasks ++ [task]) := by
  have hwhole := h.whole handle sem hsem
  have hsize := size_tryAcquire htake
  have hfree := free_tryAcquire htake
  refine h.update hsem ?_ fun other hne => ?_
  · rw [holders_append, if_pos hpermit]
    omega
  · rw [holders_append, hpermit, if_neg (by simpa using Ne.symm hne), Nat.add_zero]

theorem Balanced.append_idle (h : Balanced permit pool tasks) (hpermit : permit task = none) :
    Balanced permit pool (tasks ++ [task]) := by
  refine h.congr fun handle => ?_
  rw [holders_append, hpermit, if_neg nofun, Nat.add_zero]

/-- A task takes a permit. -/
theorem Balanced.acquire (h : Balanced permit pool tasks) (htask : tasks[place]? = some task)
    (hidle : permit task = none) (hsem : pool[handle]? = some sem)
    (htake : sem.tryAcquire = some sem') (hpermit : permit task' = some handle) :
    Balanced permit (pool.set handle sem') (tasks.set place task') := by
  have hwhole := h.whole handle sem hsem
  have hsize := size_tryAcquire htake
  have hfree := free_tryAcquire htake
  refine h.update hsem ?_ fun other hne => ?_
  · have hset := holders_set permit task' handle htask
    rw [hidle, if_neg nofun, if_pos hpermit] at hset
    omega
  · have hset := holders_set permit task' other htask
    rw [hidle, if_neg nofun, hpermit, if_neg (by simpa using Ne.symm hne)] at hset
    omega

/-- A task gives its permit back. -/
theorem Balanced.release (h : Balanced permit pool tasks) (htask : tasks[place]? = some task)
    (hpermit : permit task = some handle) (hsem : pool[handle]? = some sem)
    (hidle : permit task' = none) :
    Balanced permit (pool.set handle sem.release) (tasks.set place task') := by
  have hwhole := h.whole handle sem hsem
  refine h.update hsem ?_ fun other hne => ?_
  · have hset := holders_set permit task' handle htask
    rw [if_pos hpermit, hidle, if_neg nofun] at hset
    simp only [Semaphore.release]
    omega
  · have hset := holders_set permit task' other htask
    rw [hpermit, if_neg (by simpa using Ne.symm hne), hidle, if_neg nofun] at hset
    omega

theorem Balanced.set_same (h : Balanced permit pool tasks) (htask : tasks[place]? = some task)
    (hsame : permit task' = permit task) : Balanced permit pool (tasks.set place task') := by
  refine h.congr fun handle => ?_
  have hset := holders_set permit task' handle htask
  rw [hsame] at hset
  omega

/-- The semaphore of a permit that is held is there. -/
theorem Balanced.exists_of_held (h : Balanced permit pool tasks)
    (htask : tasks[place]? = some task) (hpermit : permit task = some handle) :
    ∃ sem, pool[handle]? = some sem := by
  by_cases hlt : handle < pool.length
  · exact ⟨pool[handle], List.getElem?_eq_getElem hlt⟩
  · have hzero := h.known handle (Nat.le_of_not_lt hlt)
    have hpos : 0 < holders permit tasks handle :=
      List.countP_pos_iff.mpr ⟨task, List.mem_of_getElem? htask, by simp [hpermit]⟩
    omega

end Semaphore
