import Mathlib

/-!
# Programs in `Except`: inverting a bind, and the rules of a loop

A Go function that returns `(result, error)` and changes nothing else is a program of
`Except ε α`, and a loop over a slice that may return early is `List.foldlM` in `Except`.  A
proof about such a loop uses two rules, stated here once: an invariant that every step keeps when
it returns holds of the loop's result (`foldlM_except_inv`), and a loop whose every step returns
from a state satisfying the invariant returns (`foldlM_except_ok`).  `bind_eq_ok` takes a
returned bind apart.
-/

namespace Except

variable {ε α β : Type}

/-- A bind returns exactly when its first part returns and the rest returns from that. -/
theorem bind_eq_ok {x : Except ε α} {f : α → Except ε β} {b : β} :
    x >>= f = .ok b ↔ ∃ a, x = .ok a ∧ f a = .ok b := by
  cases x <;> simp [bind, Except.bind]

theorem pure_eq_ok {a b : α} : (pure a : Except ε α) = .ok b ↔ a = b := by
  simp [pure, Except.pure]

end Except

namespace List

variable {ε α β : Type}

/-- **The invariant rule of a loop**: what holds initially and is kept by every step that
returns, holds of the result of a loop that returns. -/
theorem foldlM_except_inv (P : β → Prop) {f : β → α → Except ε β} {l : List α} {init r : β}
    (hstep : ∀ b a b', P b → a ∈ l → f b a = .ok b' → P b') (h0 : P init)
    (h : l.foldlM f init = .ok r) : P r := by
  induction l generalizing init with
  | nil =>
    rw [foldlM_nil, Except.pure_eq_ok] at h
    exact h ▸ h0
  | cons a l ih =>
    rw [foldlM_cons, Except.bind_eq_ok] at h
    obtain ⟨b, hb, hr⟩ := h
    exact ih (fun b a' b' hb ha => hstep b a' b' hb (mem_cons_of_mem _ ha))
      (hstep init a b h0 mem_cons_self hb) hr

/-- **The progress rule of a loop**: a loop whose every step returns, from a state satisfying
the invariant, to one that satisfies it, returns. -/
theorem foldlM_except_ok (P : β → Prop) {f : β → α → Except ε β} {l : List α} {init : β}
    (hstep : ∀ b a, P b → a ∈ l → ∃ b', f b a = .ok b' ∧ P b') (h0 : P init) :
    ∃ r, l.foldlM f init = .ok r ∧ P r := by
  induction l generalizing init with
  | nil => exact ⟨init, rfl, h0⟩
  | cons a l ih =>
    obtain ⟨b, hb, hPb⟩ := hstep init a h0 mem_cons_self
    obtain ⟨r, hr, hPr⟩ := ih (fun b a' hb ha => hstep b a' hb (mem_cons_of_mem _ ha)) hPb
    refine ⟨r, ?_, hPr⟩
    rw [foldlM_cons, hb]
    exact hr

end List
