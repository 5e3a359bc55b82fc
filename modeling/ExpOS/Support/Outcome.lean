import Mathlib.Algebra.Group.Nat.Defs
import Mathlib.Logic.Basic

/-!
# Computations that return, fail or halt

An `Outcome` is what one call of a systems routine can end in: a value, an
error reported to the caller, or a halt that no caller sees (a failed
assertion, an index outside an array, a loss of power).

An `Effect` is such a call on a mutable state.  Unlike an exception over a
state transformer it keeps the state it had reached when it fails, because an
error return does not undo the assignments made before it.
-/

namespace ExpOS

universe u v w

/-- The first number a `usize` does not hold. -/
def usizeLimit : ℕ := 2 ^ 64

/-- The end of one call: a value, a reported error, or a halt. -/
inductive Outcome (ε : Type u) (α : Type v) where
  | done (value : α)
  | fail (error : ε)
  | halt
deriving DecidableEq

namespace Outcome

variable {ε : Type u} {α β : Type v}

/-- Continue with the value of a call that returned one. -/
protected def bind (x : Outcome ε α) (f : α → Outcome ε β) : Outcome ε β :=
  match x with
  | done a => f a
  | fail e => fail e
  | halt => halt

instance : Monad (Outcome ε) where
  pure := done
  bind := Outcome.bind

variable (a : α)

@[simp] theorem pure_eq : (pure a : Outcome ε α) = done a := rfl

variable (f : α → Outcome ε β)

@[simp] theorem done_bind : (done a >>= f) = f a := rfl

@[simp] theorem fail_bind (e : ε) (f : α → Outcome ε β) : (fail e >>= f) = fail e := rfl

@[simp] theorem halt_bind : ((halt : Outcome ε α) >>= f) = halt := rfl

variable {x : Outcome ε α} {f : α → Outcome ε β}

theorem bind_eq_done {b : β} : (x >>= f) = done b ↔ ∃ a, x = done a ∧ f a = done b := by
  cases x <;> simp

/-- A composite call halts only in one of its parts. -/
theorem bind_ne_halt (hx : x ≠ halt) (hf : ∀ a, x = done a → f a ≠ halt) : (x >>= f) ≠ halt := by
  cases x with
  | done a => exact hf a rfl
  | fail e => simp
  | halt => exact absurd rfl hx

/-- A sum of machine words, which halts when it does not fit. -/
def addBelow (limit a b : ℕ) : Outcome ε ℕ :=
  if a + b < limit then done (a + b) else halt

theorem addBelow_eq {limit a b : ℕ} (h : a + b < limit) :
    (addBelow limit a b : Outcome ε ℕ) = done (a + b) :=
  if_pos h

/-- Read an optional value, reporting `error` when there is none. -/
def ofOption (error : ε) : Option α → Outcome ε α
  | some a => done a
  | none => fail error

/-- The value of a call that returned one. -/
def toOption : Outcome ε α → Option α
  | done a => some a
  | _ => none

variable (error : ε)

@[simp] theorem ofOption_some (a : α) : ofOption error (some a) = done a := rfl

@[simp] theorem ofOption_none : ofOption error (none : Option α) = fail error := rfl

theorem ofOption_eq_done {error : ε} {o : Option α} {a : α} :
    ofOption error o = done a ↔ o = some a := by
  cases o with
  | none => simp
  | some b => simp

@[simp] theorem toOption_done : (done a : Outcome ε α).toOption = some a := rfl

theorem toOption_eq_some {a : α} : x.toOption = some a ↔ x = done a := by
  cases x <;> simp [toOption]

end Outcome

/-- One call on a mutable state of type `σ`, written out. -/
abbrev Mutator (σ : Type u) (ε : Type v) (α : Type w) : Type (max u v w) :=
  σ → Outcome ε α × σ

/-- One call on a mutable state, as a computation to be sequenced. -/
structure Effect (σ : Type u) (ε : Type v) (α : Type w) where
  run : Mutator σ ε α

namespace Effect

variable {σ : Type u} {ε : Type v} {α β : Type w}

/-- Run the first call and, if it returned, the second one on its state. -/
protected def bind (x : Effect σ ε α) (f : α → Effect σ ε β) : Effect σ ε β where
  run s :=
    match x.run s with
    | (.done a, t) => (f a).run t
    | (.fail e, t) => (.fail e, t)
    | (.halt, t) => (.halt, t)

instance : Monad (Effect σ ε) where
  pure a := ⟨fun s => (.done a, s)⟩
  bind := Effect.bind

instance : LawfulMonad (Effect σ ε) := by
  refine LawfulMonad.mk' _ ?_ ?_ ?_
  · rintro α ⟨run⟩
    refine congrArg Effect.mk (funext fun s => ?_)
    change (match run s with
      | (.done a, t) => (Outcome.done a, t)
      | (.fail e, t) => (.fail e, t)
      | (.halt, t) => (.halt, t)) = run s
    rcases run s with ⟨a | e | _, t⟩ <;> rfl
  · intro α β a f
    rfl
  · rintro α β γ ⟨run⟩ f g
    refine congrArg Effect.mk (funext fun s => ?_)
    simp only [Bind.bind, Effect.bind]
    rcases run s with ⟨a | e | _, t⟩ <;> rfl

/-- Report an error, keeping the state reached so far. -/
def fail (error : ε) : Effect σ ε α := ⟨fun s => (.fail error, s)⟩

/-- Lift a call that touches no state. -/
def lift (x : Outcome ε α) : Effect σ ε α := ⟨fun s => (x, s)⟩

@[simp] theorem run_pure (a : α) (s : σ) : (pure a : Effect σ ε α).run s = (.done a, s) := rfl

@[simp] theorem run_fail (error : ε) (s : σ) :
    (fail error : Effect σ ε α).run s = (.fail error, s) := rfl

@[simp] theorem run_lift (x : Outcome ε α) (s : σ) : (lift x : Effect σ ε α).run s = (x, s) := rfl

theorem run_bind (x : Effect σ ε α) (f : α → Effect σ ε β) (s : σ) : (x >>= f).run s =
      match x.run s with
      | (.done a, t) => (f a).run t
      | (.fail e, t) => (.fail e, t)
      | (.halt, t) => (.halt, t) := rfl

variable {f : α → Effect σ ε β} {x : Effect σ ε α} {s t : σ}

theorem run_bind_of_done {a : α} (h : x.run s = (.done a, t)) : (x >>= f).run s = (f a).run t := by
  rw [run_bind, h]

theorem run_bind_of_fail {e : ε} (h : x.run s = (.fail e, t)) : (x >>= f).run s = (.fail e, t) := by
  rw [run_bind, h]

/-- A composite call returns exactly when both of its parts return. -/
theorem run_bind_eq_done {b : β} : (x >>= f).run s = (.done b, t) ↔
      ∃ a r, x.run s = (.done a, r) ∧ (f a).run r = (.done b, t) := by
  rw [run_bind]
  rcases x.run s with ⟨a | _ | _, r⟩
  · constructor
    · intro h
      exact ⟨a, r, rfl, h⟩
    · rintro ⟨a', r', hx, h⟩
      cases hx
      exact h
  · simp
  · simp

/-- A composite call reports an error of one of its parts. -/
theorem run_bind_eq_fail {e : ε} (h : (x >>= f).run s = (.fail e, t)) : x.run s = (.fail e, t) ∨
      ∃ a r, x.run s = (.done a, r) ∧ (f a).run r = (.fail e, t) := by
  rw [run_bind] at h
  rcases hx : x.run s with ⟨a | e' | _, r⟩
  · rw [hx] at h
    exact .inr ⟨a, r, rfl, h⟩
  · rw [hx] at h
    cases h
    exact .inl rfl
  · rw [hx] at h
    cases h

end Effect

/-- Run a call and answer `none` where it reports an error. -/
def Effect.attempt {σ : Type u} {ε : Type v} {α : Type w}
    (x : Effect σ ε α) : Effect σ ε (Option α) where
  run s :=
    match x.run s with
    | (.done a, t) => (.done (some a), t)
    | (.fail _, t) => (.done none, t)
    | (.halt, t) => (.halt, t)

variable {σ : Type u} {ε : Type v} {α : Type w}

theorem Effect.run_attempt (x : Effect σ ε α) (s : σ) : x.attempt.run s =
      match x.run s with
      | (.done a, t) => (.done (some a), t)
      | (.fail _, t) => (.done none, t)
      | (.halt, t) => (.halt, t) := rfl

variable {x : Effect σ ε α}

/-- The current state. -/
def Effect.get {σ : Type u} {ε : Type v} : Effect σ ε σ :=
  ⟨fun s => (.done s, s)⟩

/-- Replace the state. -/
def Effect.modify {σ : Type u} {ε : Type v} (f : σ → σ) : Effect σ ε PUnit :=
  ⟨fun s => (.done ⟨⟩, f s)⟩

theorem Effect.run_modify (f : σ → σ) (s : σ) :
    (Effect.modify f : Effect σ ε PUnit).run s = (.done ⟨⟩, f s) := rfl

/-! ## Properties of the state that a call keeps -/

/-- However the call ends, the property still holds of the state. -/
def Effect.Keeps {σ : Type u} {ε : Type v} {α : Type w} (P : σ → Prop) (x : Effect σ ε α) : Prop :=
  ∀ s, P s → P (x.run s).2

namespace Effect

variable {σ : Type u} {ε : Type v} {α β : Type w} {P : σ → Prop}

theorem keeps_pure (a : α) : Keeps P (pure a : Effect σ ε α) :=
  fun _ h => h

variable (error : ε)

theorem keeps_fail : Keeps P (fail error : Effect σ ε α) :=
  fun _ h => h

theorem keeps_lift (x : Outcome ε α) : Keeps P (lift x : Effect σ ε α) :=
  fun _ h => h

theorem keeps_get : Keeps P (Effect.get : Effect σ ε σ) :=
  fun _ h => h

theorem keeps_modify {f : σ → σ} (h : ∀ s, P s → P (f s)) :
    Keeps P (Effect.modify f : Effect σ ε PUnit) :=
  h

variable {x : Effect σ ε α} {f : α → Effect σ ε β}

theorem run_bind_keeps {s : σ}
    (hx : P (x.run s).2) (hf : ∀ a, Keeps P (f a)) : P ((x >>= f).run s).2 := by
  rw [run_bind]
  revert hx
  rcases x.run s with ⟨a | error | _, t⟩
  · exact hf a t
  · exact id
  · exact id

theorem Keeps.bind (hx : Keeps P x) (hf : ∀ a, Keeps P (f a)) : Keeps P (x >>= f) :=
  fun s hs => run_bind_keeps (hx s hs) hf

theorem Keeps.attempt (hx : Keeps P x) : Keeps P x.attempt := by
  intro s hs
  have h := hx s hs
  rw [run_attempt]
  revert h
  rcases x.run s with ⟨a | error | _, t⟩
  · exact id
  · exact id
  · exact id

/-- Every value the call returns has the property. -/
def Yields (Q : α → Prop) (x : Effect σ ε α) : Prop :=
  ∀ s a t, x.run s = (.done a, t) → Q a

variable {Q : α → Prop}

theorem yields_pure {a : α} (h : Q a) : Yields Q (pure a : Effect σ ε α) := by
  intro s b t hrun
  cases hrun
  exact h

theorem Yields.bind {Q : β → Prop} (hf : ∀ a, Yields Q (f a)) : Yields Q (x >>= f) := by
  intro s b t h
  obtain ⟨a, r, -, hrun⟩ := run_bind_eq_done.mp h
  exact hf a r b t hrun

/-- What the second part yields may depend on what the first one yields. -/
theorem Yields.bind_yields {R : β → Prop} (hx : Yields Q x)
    (hf : ∀ a, Q a → Yields R (f a)) : Yields R (x >>= f) := by
  intro s b t h
  obtain ⟨a, r, hrun, hrest⟩ := run_bind_eq_done.mp h
  exact hf a (hx s a r hrun) r b t hrest

/-- An attempt that gives a value is a call that returned it. -/
theorem run_attempt_eq_some {s t : σ} {a : α} (h : x.attempt.run s = (.done (some a), t)) :
    x.run s = (.done a, t) := by
  rw [run_attempt] at h
  split at h <;> cases h
  rename_i hrun
  exact hrun

/-- The second part of a composite call may rely on what the first part
yields. -/
theorem Keeps.bind_yields (hx : Keeps P x)
    (hQ : ∀ s, P s → ∀ a t, x.run s = (.done a, t) → Q a)
    (hf : ∀ a, Q a → Keeps P (f a)) : Keeps P (x >>= f) := by
  intro s hs
  have h := hx s hs
  rw [run_bind]
  rcases hrun : x.run s with ⟨a | error | _, t⟩
  · rw [hrun] at h
    exact hf a (hQ s hs a t hrun) t h
  · rw [hrun] at h
    exact h
  · rw [hrun] at h
    exact h

variable {ι : Type w} {f : ι → Effect σ ε PUnit}

theorem keeps_forM
    (items : List ι) (hf : ∀ item ∈ items, Keeps P (f item)) : Keeps P (items.forM f) := by
  induction items with
  | nil => exact keeps_pure _
  | cons item rest ih =>
    exact (hf item List.mem_cons_self).bind fun _ => ih fun i hi => hf i (List.mem_cons_of_mem _ hi)

/-- A loop that returned ran each of its rounds to its return, from a state
with what every round keeps. -/
theorem forM_run_done
    {items : List ι} {s t : σ} {u : PUnit} (hf : ∀ item ∈ items, Keeps P (f item)) (hs : P s)
    (h : (items.forM f).run s = (.done u, t)) : P t ∧ ∀ item ∈ items, ∃ s' t' u', P s' ∧
      (f item).run s' = (.done u', t') := by
  induction items generalizing s with
  | nil =>
    cases h
    exact ⟨hs, by simp⟩
  | cons item rest ih =>
    obtain ⟨v, middle, hfirst, hrest⟩ := run_bind_eq_done.mp h
    have hmiddle := hf item List.mem_cons_self s hs
    rw [hfirst] at hmiddle
    obtain ⟨ht, hrounds⟩ := ih (fun i hi => hf i (List.mem_cons_of_mem _ hi)) hmiddle hrest
    refine ⟨ht, fun i hi => ?_⟩
    rcases List.mem_cons.mp hi with rfl | hi
    · exact ⟨s, middle, v, hs, hfirst⟩
    · exact hrounds i hi

end Effect

end ExpOS
