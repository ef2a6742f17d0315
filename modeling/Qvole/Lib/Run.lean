import Mathlib.Data.List.Basic

/-!
# Timed runs

A machine handles one event at a time. An event comes with the clock readings taken while it is
handled, between `start` and `finish`, and a run never lets the clock go back. The history of a run
keeps, for every event, the state it was handled in and what was sent, so that a statement about the
past of a state is a statement about its history.
-/

/-- A deterministic machine, with the first and the last clock reading of each event. -/
structure Machine (State Event Out : Type) where
  init : State
  step : State → Event → State × List Out
  start : Event → Nat
  finish : Event → Nat

namespace Machine

variable {State Event Out : Type}

structure Record (State Event Out : Type) where
  event : Event
  before : State
  sent : List Out

def record (M : Machine State Event Out) (before : State) (event : Event) :
    Record State Event Out :=
  { event, before, sent := (M.step before event).2 }

/-- The runs of a machine: the history, the state reached and the last clock reading. -/
inductive Run (M : Machine State Event Out) : List (Record State Event Out) → State → Nat → Prop
  | nil : Run M [] M.init 0
  | snoc {history : List (Record State Event Out)} {state : State} {now : Nat} (event : Event) :
      Run M history state now → now ≤ M.start event →
      Run M (history ++ [M.record state event]) (M.step state event).1 (M.finish event)

def Precedes (history : List (Record State Event Out)) (earlier later : Record State Event Out) :
    Prop :=
  ∃ front middle rest, history = front ++ earlier :: (middle ++ later :: rest)

variable {M : Machine State Event Out} {history : List (Record State Event Out)} {state : State}
  {now : Nat}

theorem Precedes.append {earlier later : Record State Event Out}
    (h : Precedes history earlier later) (more : List (Record State Event Out)) :
    Precedes (history ++ more) earlier later := by
  obtain ⟨front, middle, rest, rfl⟩ := h
  exact ⟨front, middle, rest ++ more, by simp⟩

theorem precedes_snoc {earlier : Record State Event Out} (hmem : earlier ∈ history)
    (later : Record State Event Out) : Precedes (history ++ [later]) earlier later := by
  obtain ⟨front, rest, rfl⟩ := List.append_of_mem hmem
  exact ⟨front, rest, [], by simp⟩

/-- The last record comes behind all the others, which keep their order. -/
theorem precedes_snoc_iff {earlier later last : Record State Event Out} :
    Precedes (history ++ [last]) earlier later ↔
      Precedes history earlier later ∨ (earlier ∈ history ∧ later = last) := by
  constructor
  · rintro ⟨front, middle, rest, heq⟩
    rcases rest.eq_nil_or_concat with rfl | ⟨rest, tail, rfl⟩
    · have hsplit : history ++ [last] = (front ++ earlier :: middle) ++ [later] := by simp [heq]
      obtain ⟨rfl, hlast⟩ := List.append_inj' hsplit rfl
      exact Or.inr ⟨by simp, (List.cons.inj hlast).1.symm⟩
    · have hsplit : history ++ [last] =
          (front ++ earlier :: (middle ++ later :: rest)) ++ [tail] := by simp [heq]
      obtain ⟨rfl, -⟩ := List.append_inj' hsplit rfl
      exact Or.inl ⟨front, middle, rest, rfl⟩
  · rintro (h | ⟨hmem, rfl⟩)
    · exact h.append _
    · exact precedes_snoc hmem later

/-- **The run rule.** What holds at the start and survives every step taken under the guard holds
after every run whose steps all met the guard. -/
theorem Run.inv {G : State → Event → Prop}
    {I : List (Record State Event Out) → State → Nat → Prop} (hinit : I [] M.init 0)
    (hstep : ∀ {history state now} (event : Event), Run M history state now →
      now ≤ M.start event → G state event → I history state now →
      I (history ++ [M.record state event]) (M.step state event).1 (M.finish event))
    (hrun : Run M history state now)
    (hguard : ∀ r ∈ history, G r.before r.event) : I history state now := by
  induction hrun with
  | nil => exact hinit
  | @snoc history state now event hrun hle ih =>
      have hlast : G state event := hguard (M.record state event) (by simp)
      exact hstep event hrun hle hlast (ih fun r hr => hguard r (List.mem_append_left _ hr))

theorem Run.stateInv {I : State → Prop} (hinit : I M.init)
    (hstep : ∀ (state : State) (event : Event), I state → I (M.step state event).1)
    (hrun : Run M history state now) : I state :=
  hrun.inv (G := fun _ _ => True) (I := fun _ state _ => I state) hinit
    (fun event _ _ _ hI => hstep _ event hI) (fun _ _ => trivial)

/-- What an event brings about and every later step keeps holds to the end of the run. -/
theorem Run.since {G : State → Event → Prop} {E : Event → Prop} {I : State → Nat → Prop}
    (hset : ∀ {history state now} (event : Event), Run M history state now →
      now ≤ M.start event → (∀ r ∈ history, G r.before r.event) → G state event →
      E event → I (M.step state event).1 (M.finish event))
    (hkeep : ∀ {history state now} (event : Event), Run M history state now →
      now ≤ M.start event → (∀ r ∈ history, G r.before r.event) → G state event →
      I state now → I (M.step state event).1 (M.finish event))
    (hrun : Run M history state now) (hguard : ∀ r ∈ history, G r.before r.event)
    {r : Record State Event Out} (hr : r ∈ history) (hevent : E r.event) :
    I state now := by
  induction hrun with
  | nil => cases hr
  | @snoc history state now event hrun hle ih =>
      have hlast : G state event := hguard (M.record state event) (by simp)
      have hpast : ∀ r ∈ history, G r.before r.event :=
        fun r hr => hguard r (List.mem_append_left _ hr)
      rcases List.mem_append.mp hr with hold | hnew
      · exact hkeep event hrun hle hpast hlast (ih hpast hold)
      · obtain rfl := List.mem_singleton.mp hnew
        exact hset event hrun hle hpast hlast hevent

/-- Every record of a run was made in a state that a shorter run reached. -/
theorem Run.before_reached (hrun : Run M history state now) {r : Record State Event Out}
    (hr : r ∈ history) :
    ∃ past rest now', history = past ++ r :: rest ∧ Run M past r.before now' ∧
      now' ≤ M.start r.event ∧ r = M.record r.before r.event := by
  induction hrun with
  | nil => simp at hr
  | @snoc history state now event hrun hle ih =>
      rcases List.mem_append.mp hr with hold | hnew
      · obtain ⟨past, rest, now', heq, hpast, hnow, hrec⟩ := ih hold
        exact ⟨past, rest ++ [M.record state event], now', by simp [heq], hpast, hnow, hrec⟩
      · obtain rfl := List.mem_singleton.mp hnew
        exact ⟨history, [], now, rfl, hrun, hle, rfl⟩

/-! ### Runs of given events -/

def trace (M : Machine State Event Out) : State → List Event → List (Record State Event Out)
  | _, [] => []
  | state, event :: rest => M.record state event :: M.trace (M.step state event).1 rest

def exec (M : Machine State Event Out) (state : State) (events : List Event) : State :=
  events.foldl (fun state event => (M.step state event).1) state

def clockAfter (M : Machine State Event Out) (now : Nat) (events : List Event) : Nat :=
  events.foldl (fun _ event => M.finish event) now

/-- No event starts before the one ahead of it has finished. -/
def Ordered (M : Machine State Event Out) : Nat → List Event → Prop
  | _, [] => True
  | now, event :: rest => now ≤ M.start event ∧ M.Ordered (M.finish event) rest

instance decidableOrdered (M : Machine State Event Out) :
    (now : Nat) → (events : List Event) → Decidable (M.Ordered now events)
  | _, [] => isTrue trivial
  | now, event :: rest =>
      have := decidableOrdered M (M.finish event) rest
      inferInstanceAs (Decidable (now ≤ M.start event ∧ M.Ordered (M.finish event) rest))

theorem event_mem_of_mem_trace {events : List Event} {r : Record State Event Out}
    (hr : r ∈ M.trace state events) : r.event ∈ events := by
  induction events generalizing state with
  | nil => cases hr
  | cons event rest ih =>
      rcases List.mem_cons.mp hr with rfl | hr
      · exact List.mem_cons_self
      · exact List.mem_cons_of_mem _ (ih hr)

theorem exists_mem_trace {events : List Event} {event : Event} (hmem : event ∈ events)
    (state : State) : ∃ r ∈ M.trace state events, r.event = event := by
  induction events generalizing state with
  | nil => cases hmem
  | cons first rest ih =>
      rcases List.mem_cons.mp hmem with rfl | hmem
      · exact ⟨M.record state event, List.mem_cons_self, rfl⟩
      · obtain ⟨r, hr, heq⟩ := ih hmem (M.step state first).1
        exact ⟨r, List.mem_cons_of_mem _ hr, heq⟩

theorem Run.exec (hrun : Run M history state now) {events : List Event}
    (hordered : M.Ordered now events) :
    Run M (history ++ M.trace state events) (M.exec state events) (M.clockAfter now events) := by
  induction events generalizing history state now with
  | nil => simpa [trace, Machine.exec, clockAfter] using hrun
  | cons event rest ih =>
      obtain ⟨hle, hrest⟩ := hordered
      simpa [trace, Machine.exec, clockAfter] using ih (hrun.snoc event hle) hrest

theorem run_exec (M : Machine State Event Out) {events : List Event}
    (hordered : M.Ordered 0 events) :
    Run M (M.trace M.init events) (M.exec M.init events) (M.clockAfter 0 events) :=
  Run.nil.exec hordered

/-- A machine without a clock goes on with any events. -/
theorem Run.exec_untimed (hfinish : ∀ event, M.finish event = 0) (hrun : Run M history state now)
    (events : List Event) :
    Run M (history ++ M.trace state events) (M.exec state events) (M.clockAfter now events) := by
  have hnow : now = 0 := by
    cases hrun with
    | nil => rfl
    | snoc event hrun hle => exact hfinish event
  subst hnow
  refine hrun.exec ?_
  clear hrun
  induction events with
  | nil => exact trivial
  | cons event rest ih => exact ⟨Nat.zero_le _, (hfinish event).symm ▸ ih⟩

theorem run_untimed (M : Machine State Event Out) (hfinish : ∀ event, M.finish event = 0)
    (events : List Event) :
    Run M (M.trace M.init events) (M.exec M.init events) (M.clockAfter 0 events) :=
  Run.nil.exec_untimed hfinish events

end Machine
