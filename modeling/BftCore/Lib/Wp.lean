import Mathlib

/-!
# Weakest preconditions for programs in `EStateM`

A program of `EStateM ε σ α` runs on a state and ends by returning a value or by failing, in
both cases with the state it leaves: the shape of a Go function that mutates memory and
returns `(result, error)`.  `wp x Q E s` says that `x`, run from `s`, returns some `a` in a
state satisfying `Q a`, or fails with some `e` in a state satisfying `E e`.

The `@[simp]` rules push `wp` through `pure`, `bind`, `throw`, state access and `if`, so that
`simp only [wp_bind, …]` turns a program into the condition it has to meet; `wp_mono` and
`wp_and` are the rules of consequence and conjunction, and `wp_bind_of` the rule of an
invariant through a sequence.  `final` and `returned` read the state a run leaves and the value
it returns, for runs on given inputs.
-/

namespace EStateM

variable {ε σ α β : Type}

/-- The weakest precondition of `x` for the postcondition `Q` on a return and `E` on a
failure. -/
def wp (x : EStateM ε σ α) (Q : α → σ → Prop) (E : ε → σ → Prop) (s : σ) : Prop :=
  match x s with
  | .ok a s' => Q a s'
  | .error e s' => E e s'

@[simp] theorem wp_pure (a : α) (Q : α → σ → Prop) (E : ε → σ → Prop) (s : σ) :
    wp (pure a) Q E s = Q a s := rfl

@[simp] theorem wp_throw (e : ε) (Q : α → σ → Prop) (E : ε → σ → Prop) (s : σ) :
    wp (throw e : EStateM ε σ α) Q E s = E e s := rfl

@[simp] theorem wp_bind (x : EStateM ε σ α) (f : α → EStateM ε σ β) (Q : β → σ → Prop)
    (E : ε → σ → Prop) (s : σ) :
    wp (x >>= f) Q E s = wp x (fun a s' => wp (f a) Q E s') E s := by
  simp only [wp]
  show (match EStateM.bind x f s with | .ok a s' => Q a s' | .error e s' => E e s') = _
  simp only [EStateM.bind]
  cases x s <;> rfl

@[simp] theorem wp_get (Q : σ → σ → Prop) (E : ε → σ → Prop) (s : σ) :
    wp (get : EStateM ε σ σ) Q E s = Q s s := rfl

@[simp] theorem wp_modifyGet (f : σ → α × σ) (Q : α → σ → Prop) (E : ε → σ → Prop) (s : σ) :
    wp (modifyGet f : EStateM ε σ α) Q E s = Q (f s).1 (f s).2 := rfl

@[simp] theorem wp_modify (f : σ → σ) (Q : PUnit → σ → Prop) (E : ε → σ → Prop) (s : σ) :
    wp (modify f : EStateM ε σ PUnit) Q E s = Q ⟨⟩ (f s) := rfl

@[simp] theorem wp_ite (c : Prop) [Decidable c] (x y : EStateM ε σ α) (Q : α → σ → Prop)
    (E : ε → σ → Prop) (s : σ) :
    wp (if c then x else y) Q E s = if c then wp x Q E s else wp y Q E s := by
  split <;> rfl

@[simp] theorem throw_apply (e : ε) (s : σ) : (throw e : EStateM ε σ α) s = .error e s := rfl

@[simp] theorem throw_bind (e : ε) (f : α → EStateM ε σ β) :
    (throw e >>= f : EStateM ε σ β) = throw e := rfl

/-- The run with its result dropped: a call whose returned value the caller ignores. -/
def dropResult (x : EStateM ε σ α) : EStateM ε σ PUnit := fun s =>
  match x s with
  | .ok _ s' => .ok () s'
  | .error e s' => .error e s'

/-- A run that returned: the rest of a sequence starts from its result. -/
theorem bind_of_ok {x : EStateM ε σ α} {f : α → EStateM ε σ β} {s s' : σ} {a : α}
    (h : x s = .ok a s') : (x >>= f) s = f a s' := by
  show EStateM.bind x f s = f a s'
  simp only [EStateM.bind, h]

/-- A run that failed: the sequence fails with it. -/
theorem bind_of_error {x : EStateM ε σ α} {f : α → EStateM ε σ β} {s s' : σ} {e : ε}
    (h : x s = .error e s') : (x >>= f) s = .error e s' := by
  show EStateM.bind x f s = .error e s'
  simp only [EStateM.bind, h]

theorem wp_of_ok {x : EStateM ε σ α} {Q : α → σ → Prop} {E : ε → σ → Prop} {s s' : σ} {a : α}
    (h : x s = .ok a s') : wp x Q E s = Q a s' := by
  simp only [wp, h]

theorem wp_of_error {x : EStateM ε σ α} {Q : α → σ → Prop} {E : ε → σ → Prop} {s s' : σ}
    {e : ε} (h : x s = .error e s') : wp x Q E s = E e s' := by
  simp only [wp, h]

/-- Two runs that end alike. -/
theorem wp_of_eq {x y : EStateM ε σ α} {Q : α → σ → Prop} {E : ε → σ → Prop} {s s' : σ}
    (h : x s = y s') : wp x Q E s = wp y Q E s' := by
  simp only [wp, h]

/-- Consequence: a weaker postcondition follows from a stronger one. -/
theorem wp_mono {x : EStateM ε σ α} {Q Q' : α → σ → Prop} {E E' : ε → σ → Prop} {s : σ}
    (h : wp x Q E s) (hQ : ∀ a s', Q a s' → Q' a s') (hE : ∀ e s', E e s' → E' e s') :
    wp x Q' E' s := by
  unfold wp at h ⊢
  split at h <;> simp_all

/-- An invariant that both parts of a sequence keep, whether they return or fail. -/
theorem wp_bind_of {x : EStateM ε σ α} {f : α → EStateM ε σ β} {I : σ → Prop} {s : σ}
    (hx : wp x (fun _ => I) (fun _ => I) s)
    (hf : ∀ a s', I s' → wp (f a) (fun _ => I) (fun _ => I) s') :
    wp (x >>= f) (fun _ => I) (fun _ => I) s := by
  rw [wp_bind]
  exact wp_mono hx (fun a s' h => hf a s' h) (fun _ _ h => h)

@[simp] theorem wp_dropResult (x : EStateM ε σ α) (Q : PUnit → σ → Prop) (E : ε → σ → Prop)
    (s : σ) : wp (dropResult x) Q E s = wp x (fun _ => Q ()) E s := by
  simp only [wp, dropResult]
  cases x s <;> rfl

/-- Every run meets the postconditions that ask nothing. -/
theorem wp_true (x : EStateM ε σ α) (s : σ) : wp x (fun _ _ => True) (fun _ _ => True) s := by
  unfold wp
  split <;> trivial

/-- Conjunction: two postconditions of one run hold together. -/
theorem wp_and {x : EStateM ε σ α} {Q Q' : α → σ → Prop} {E E' : ε → σ → Prop} {s : σ}
    (h : wp x Q E s) (h' : wp x Q' E' s) :
    wp x (fun a s' => Q a s' ∧ Q' a s') (fun e s' => E e s' ∧ E' e s') s := by
  unfold wp at h h' ⊢
  split at h <;> simp_all

/-- The state a run leaves, whether it returns or fails. -/
def final (x : EStateM ε σ α) (s : σ) : σ :=
  match x s with
  | .ok _ s' => s'
  | .error _ s' => s'

/-- What a run returns; `none` when it fails. -/
def returned (x : EStateM ε σ α) (s : σ) : Option α :=
  match x s with
  | .ok a _ => some a
  | .error _ _ => none

/-- A condition that a run leaves in both of its ends holds of the state it leaves. -/
theorem final_of_wp {x : EStateM ε σ α} {I : σ → Prop} {s : σ}
    (h : wp x (fun _ => I) (fun _ => I) s) : I (final x s) := by
  unfold wp at h
  unfold final
  revert h
  cases x s <;> exact id

/-- A run returns or fails, in both cases with the state `final` names. -/
theorem final_cases (x : EStateM ε σ α) (s : σ) :
    (∃ a, x s = .ok a (final x s)) ∨ ∃ e, x s = .error e (final x s) := by
  unfold final
  cases x s with
  | ok a s' => exact .inl ⟨a, rfl⟩
  | error e s' => exact .inr ⟨e, rfl⟩

theorem dropResult_eq_ok {x : EStateM ε σ α} {s s' : σ} {u : PUnit}
    (h : dropResult x s = .ok u s') : ∃ a, x s = .ok a s' := by
  unfold dropResult at h
  revert h
  cases x s with
  | ok a s'' => intro h; cases h; exact ⟨a, rfl⟩
  | error e s'' => intro h; cases h

theorem dropResult_eq_error {x : EStateM ε σ α} {s s' : σ} {e : ε}
    (h : dropResult x s = .error e s') : x s = .error e s' := by
  unfold dropResult at h
  revert h
  cases x s with
  | ok a s'' => intro h; cases h
  | error e' s'' => intro h; cases h; rfl

/-- A sequence returns exactly when its first part returns and the rest returns from there. -/
theorem bind_eq_ok {x : EStateM ε σ α} {f : α → EStateM ε σ β} {s s'' : σ} {b : β} :
    (x >>= f) s = .ok b s'' ↔ ∃ a s', x s = .ok a s' ∧ f a s' = .ok b s'' := by
  show EStateM.bind x f s = .ok b s'' ↔ _
  unfold EStateM.bind
  cases x s <;> simp

end EStateM
