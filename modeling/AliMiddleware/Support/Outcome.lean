/-!
# Support — Outcome

Imperative code over a state `σ` that may throw (`ε`) or run into undefined behaviour.  A
`throw` keeps the state it was thrown in, so that what a failed call leaves behind can be
stated; `undefined` keeps nothing.
-/

namespace AliMiddleware

/-- How a call ends. -/
inductive Outcome (σ ε α : Type) where
  | done (a : α) (s : σ)
  | threw (e : ε) (s : σ)
  | undefined
  deriving DecidableEq, Repr

/-- A computation with state `σ`, exceptions `ε` and result `α`. -/
structure Exec (σ ε α : Type) where
  run : σ → Outcome σ ε α

namespace Exec

variable {σ ε α β : Type}

/-- `m`, then `f` at its result; a throw or undefined behaviour of `m` ends both. -/
def andThen (m : Exec σ ε α) (f : α → Exec σ ε β) : Exec σ ε β where
  run s := match m.run s with
    | .done a s' => (f a).run s'
    | .threw e s' => .threw e s'
    | .undefined => .undefined

instance : Monad (Exec σ ε) where
  pure a := ⟨fun s => .done a s⟩
  bind := andThen

/-- The state. -/
def get : Exec σ ε σ := ⟨fun s => .done s s⟩

/-- An update of the state. -/
def modify (f : σ → σ) : Exec σ ε Unit := ⟨fun s => .done () (f s)⟩

/-- An exception. -/
def throw (e : ε) : Exec σ ε α := ⟨fun s => .threw e s⟩

/-- Behaviour the language leaves undefined. -/
def undefined : Exec σ ε α := ⟨fun _ => .undefined⟩

@[simp] theorem run_pure (a : α) (s : σ) : (pure a : Exec σ ε α).run s = .done a s := rfl

@[simp] theorem run_get (s : σ) : (get : Exec σ ε σ).run s = .done s s := rfl

@[simp] theorem run_modify (f : σ → σ) (s : σ) :
    (modify f : Exec σ ε Unit).run s = .done () (f s) := rfl

@[simp] theorem run_throw (e : ε) (s : σ) : (throw e : Exec σ ε α).run s = .threw e s := rfl

@[simp] theorem run_undefined (s : σ) : (undefined : Exec σ ε α).run s = .undefined := rfl

@[simp] theorem run_bind (m : Exec σ ε α) (f : α → Exec σ ε β) (s : σ) :
    (m >>= f).run s = match m.run s with
      | .done a s' => (f a).run s'
      | .threw e s' => .threw e s'
      | .undefined => .undefined := rfl

/-- A computation that ends normally has got through its first step. -/
theorem run_bind_eq_done {m : Exec σ ε α} {f : α → Exec σ ε β} {s s' : σ} {b : β} :
    (m >>= f).run s = .done b s' ↔ ∃ a s₁, m.run s = .done a s₁ ∧ (f a).run s₁ = .done b s' := by
  rw [run_bind]
  cases hm : m.run s with
  | done a s₁ =>
      refine ⟨fun h => ⟨a, s₁, rfl, h⟩, ?_⟩
      rintro ⟨_, _, ⟨⟩, h⟩
      exact h
  | threw e s₁ => simp
  | undefined => simp

/-- A step that ends normally is followed by the rest. -/
theorem run_bind_done {m : Exec σ ε α} {a : α} {s s' : σ} (h : m.run s = .done a s')
    (f : α → Exec σ ε β) : (m >>= f).run s = (f a).run s' := by
  rw [run_bind, h]

end Exec

end AliMiddleware
