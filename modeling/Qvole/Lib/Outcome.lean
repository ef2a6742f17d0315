import Qvole.Lib.Bytes

/-!
# Outcomes

How a call of partial code ends: with a value, with an error it reports, in a panic, or not within
the steps it was given.
-/

inductive Fault (ε : Type) where
  | panicked
  | unfinished
  | failed (error : ε)
  deriving DecidableEq, Repr

abbrev Outcome (ε α : Type) := Except (Fault ε) α

namespace Outcome

variable {ε δ α β : Type}

def fail (error : ε) : Outcome ε α := .error (.failed error)

/-- `Option::expect` and the like. -/
def expect : Option α → Outcome ε α
  | some a => .ok a
  | none => .error .panicked

def mapErr (f : ε → δ) : Outcome ε α → Outcome δ α
  | .ok a => .ok a
  | .error .panicked => .error .panicked
  | .error .unfinished => .error .unfinished
  | .error (.failed error) => .error (.failed (f error))

theorem bind_eq_ok {x : Outcome ε α} {f : α → Outcome ε β} {b : β} :
    (x >>= f) = .ok b ↔ ∃ a, x = .ok a ∧ f a = .ok b := by
  cases x with
  | ok a => simp [bind, Except.bind]
  | error fault => simp [bind, Except.bind]

theorem expect_eq_ok {o : Option α} {a : α} :
    (expect o : Outcome ε α) = .ok a ↔ o = some a := by
  cases o <;> simp [expect]

theorem mapErr_eq_ok {f : ε → δ} {x : Outcome ε α} {a : α} : mapErr f x = .ok a ↔ x = .ok a := by
  rcases x with (_ | _ | _) | _ <;> simp [mapErr]

/-- The value of a call that returned. -/
def get : (x : Outcome ε α) → x.isOk = true → α
  | .ok a, _ => a

theorem eq_ok_get {x : Outcome ε α} (h : x.isOk = true) : x = .ok (x.get h) := by
  cases x with
  | ok a => rfl
  | error fault => cases h

@[simp]
theorem ok_bind (a : α) (f : α → Outcome ε β) : (Except.ok a >>= f : Outcome ε β) = f a := rfl

@[simp]
theorem mapErr_ok (f : ε → δ) (a : α) : mapErr f (.ok a) = .ok a := rfl

/-! ### Returning -/

/-- The call comes back, with a value or with an error it reports. -/
def Returns (x : Outcome ε α) : Prop := ∀ fault, x = .error fault → ∃ error, fault = .failed error

theorem returns_ok (a : α) : Returns (.ok a : Outcome ε α) := by
  intro fault h
  cases h

theorem returns_fail (error : ε) : Returns (fail error : Outcome ε α) := by
  intro fault h
  cases h
  exact ⟨error, rfl⟩

theorem not_returns_panicked : ¬ Returns (.error .panicked : Outcome ε α) := by
  intro h
  obtain ⟨error, herror⟩ := h _ rfl
  cases herror

theorem Returns.bind {x : Outcome ε α} {f : α → Outcome ε β} (hx : Returns x)
    (hf : ∀ a, x = .ok a → Returns (f a)) : Returns (x >>= f) := by
  cases x with
  | ok a => exact hf a rfl
  | error fault =>
      obtain ⟨error, rfl⟩ := hx fault rfl
      exact returns_fail error

theorem Returns.of_bind {x : Outcome ε α} {f : α → Outcome ε β} (h : Returns (x >>= f)) :
    Returns x := by
  intro fault hx
  rw [hx] at h
  exact h fault rfl

theorem returns_mapErr {f : ε → δ} {x : Outcome ε α} : Returns (mapErr f x) ↔ Returns x := by
  rcases x with (_ | _ | error) | a
  · exact ⟨fun h => absurd h not_returns_panicked, fun h => absurd h not_returns_panicked⟩
  · constructor
    · intro h
      obtain ⟨error, herror⟩ := h _ rfl
      cases herror
    · intro h
      obtain ⟨error, herror⟩ := h _ rfl
      cases herror
  · exact ⟨fun _ => returns_fail error, fun _ => returns_fail (f error)⟩
  · exact ⟨fun _ => returns_ok a, fun _ => returns_ok a⟩

/-! ### Following a partial function -/

/-- The call returns the value of `o`, and reports an error if there is none. -/
def Follows (x : Outcome ε α) : Option α → Prop
  | some a => x = .ok a
  | none => ∃ error, x = fail error

theorem Follows.returns {x : Outcome ε α} {o : Option α} (h : Follows x o) : Returns x := by
  cases o with
  | some a =>
      rw [show x = .ok a from h]
      exact returns_ok a
  | none =>
      obtain ⟨error, rfl⟩ := h
      exact returns_fail error

theorem Follows.eq_ok_iff {x : Outcome ε α} {o : Option α} (h : Follows x o) {a : α} :
    x = .ok a ↔ o = some a := by
  cases o with
  | some b =>
      rw [show x = .ok b from h, Except.ok.injEq, Option.some.injEq]
  | none =>
      obtain ⟨error, rfl⟩ := h
      simp [fail]

theorem Follows.bind {x : Outcome ε α} {o : Option α} {f : α → Outcome ε β} {g : α → Option β}
    (h : Follows x o) (hf : ∀ a, o = some a → Follows (f a) (g a)) :
    Follows (x >>= f) (o.bind g) := by
  cases o with
  | some a =>
      rw [show x = .ok a from h]
      exact hf a rfl
  | none =>
      obtain ⟨error, rfl⟩ := h
      exact ⟨error, rfl⟩

theorem Follows.ite {p : Prop} [Decidable p] {x y : Outcome ε α} {o o' : Option α}
    (hpos : p → Follows x o) (hneg : ¬ p → Follows y o') :
    Follows (if p then x else y) (if p then o else o') := by
  by_cases hp : p
  · rw [if_pos hp, if_pos hp]
    exact hpos hp
  · rw [if_neg hp, if_neg hp]
    exact hneg hp

theorem follows_fail (error : ε) : Follows (fail error : Outcome ε α) none := ⟨error, rfl⟩

/-! ### Searching -/

/-- The first call that returns, with its value. A call that reports an error is passed over; any
other fault ends the search. -/
def firstOk (f : α → Outcome ε β) : List α → Outcome ε (Option (α × β))
  | [] => .ok none
  | a :: rest =>
      match f a with
      | .ok b => .ok (some (a, b))
      | .error (.failed _) => firstOk f rest
      | .error .panicked => .error .panicked
      | .error .unfinished => .error .unfinished

theorem firstOk_eq_some {f : α → Outcome ε β} {as : List α} {a : α} {b : β}
    (h : firstOk f as = .ok (some (a, b))) : a ∈ as ∧ f a = .ok b := by
  induction as with
  | nil => cases h
  | cons c rest ih =>
      unfold firstOk at h
      split at h
      · rename_i b' hb
        cases h
        exact ⟨List.mem_cons_self, hb⟩
      · exact ⟨List.mem_cons_of_mem c (ih h).1, (ih h).2⟩
      · cases h
      · cases h

theorem firstOk_eq_none_iff {f : α → Outcome ε β} {as : List α} :
    firstOk f as = .ok none ↔ ∀ a ∈ as, ∃ error, f a = .fail error := by
  induction as with
  | nil => simp [firstOk]
  | cons c rest ih =>
      unfold firstOk
      rcases hc : f c with (_ | _ | error) | b
      · simp [hc, fail]
      · simp [hc, fail]
      · simp only [ih, List.forall_mem_cons, hc]
        exact ⟨fun h => ⟨⟨error, rfl⟩, h⟩, And.right⟩
      · simp [hc, fail]

theorem firstOk_ne_failed {f : α → Outcome ε β} {as : List α} {error : ε} :
    firstOk f as ≠ .fail error := by
  induction as with
  | nil => simp [firstOk, fail]
  | cons c rest ih =>
      unfold firstOk
      rcases f c with (_ | _ | _) | b
      · simp [fail]
      · simp [fail]
      · exact ih
      · simp [fail]

theorem returns_firstOk {f : α → Outcome ε β} {as : List α} (h : ∀ a ∈ as, Returns (f a)) :
    Returns (firstOk f as) := by
  induction as with
  | nil => exact returns_ok none
  | cons c rest ih =>
      have hc := h c List.mem_cons_self
      unfold firstOk
      rcases hfc : f c with (_ | _ | error) | b
      · exact absurd (hfc ▸ hc) not_returns_panicked
      · obtain ⟨error, herror⟩ := hc _ hfc
        cases herror
      · exact ih fun a ha => h a (List.mem_cons_of_mem c ha)
      · exact returns_ok _

end Outcome
