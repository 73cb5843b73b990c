import Mathlib

/-!
# Order facts for `UInt64` and `UInt32`

`UInt64` and `UInt32` carry no `LinearOrder` instance, so the lemmas of `max` over a linear
order do not apply to them; these are the ones the proofs about round numbers, amounts and
memory pages use, proved from the definition of `max` as `if a ≤ b then b else a`, with the
facts of the successor and predecessor that rounds need where they must not wrap.
-/

namespace UInt64

theorem le_max_left (a b : UInt64) : a ≤ max a b := by
  show a ≤ (if a ≤ b then b else a)
  split
  · assumption
  · exact UInt64.le_refl a

theorem le_max_right (a b : UInt64) : b ≤ max a b := by
  show b ≤ (if a ≤ b then b else a)
  split
  · exact UInt64.le_refl b
  · rename_i h
    exact UInt64.le_of_lt (UInt64.not_le.mp h)

theorem le_max_of_le_right {a b c : UInt64} (h : c ≤ b) : c ≤ max a b :=
  UInt64.le_trans h (le_max_right a b)

theorem max_eq_or (a b : UInt64) : max a b = a ∨ max a b = b := by
  show (if a ≤ b then b else a) = a ∨ (if a ≤ b then b else a) = b
  split
  · exact .inr rfl
  · exact .inl rfl

/-- Keeping the larger of two numbers by a strict comparison is `max`. -/
theorem ite_lt_eq_max (a b : UInt64) : (if a < b then b else a) = max a b := by
  show _ = if a ≤ b then b else a
  by_cases hlt : a < b
  · rw [if_pos hlt, if_pos (UInt64.le_of_lt hlt)]
  · rw [if_neg hlt]
    split
    · exact UInt64.le_antisymm ‹a ≤ b› (UInt64.not_lt.mp hlt)
    · rfl

/-- The largest of a start and the members of a list, kept by `max` from left to right: at least
each of them, and one of them. -/
theorem foldl_max_spec (l : List UInt64) (m : UInt64) :
    m ≤ l.foldl max m ∧ (∀ x ∈ l, x ≤ l.foldl max m) ∧ (l.foldl max m = m ∨ l.foldl max m ∈ l) := by
  induction l generalizing m with
  | nil => exact ⟨UInt64.le_refl m, by simp, .inl rfl⟩
  | cons x l ih =>
    obtain ⟨hle, hall, hfrom⟩ := ih (max m x)
    rw [List.foldl_cons]
    refine ⟨UInt64.le_trans (le_max_left m x) hle, fun y hy => ?_, ?_⟩
    · rcases List.mem_cons.mp hy with rfl | hy
      · exact UInt64.le_trans (le_max_right _ _) hle
      · exact hall y hy
    · -- the result is the start, the first member, or one of the rest
      rcases hfrom with h | h
      · rcases max_eq_or m x with hm | hm
        · exact .inl (h.trans hm)
        · exact .inr (by rw [h, hm]; exact List.mem_cons_self)
      · exact .inr (List.mem_cons_of_mem _ h)

/-- A left fold that keeps the element of the largest key, the first one on ties: its key is at
least the start's and every element's, and it is the start or one of the elements. -/
theorem foldl_argmax_spec {β γ : Type} (f : β → UInt64) (g : β → γ) (l : List β) (m : UInt64)
    (c : γ) :
    let r := l.foldl (fun acc x => if acc.1 < f x then (f x, g x) else acc) (m, c)
    m ≤ r.1 ∧ (∀ x ∈ l, f x ≤ r.1) ∧ (r = (m, c) ∨ ∃ x ∈ l, r = (f x, g x)) := by
  induction l generalizing m c with
  | nil => exact ⟨UInt64.le_refl m, by simp, .inl rfl⟩
  | cons x l ih =>
    simp only [List.foldl_cons]
    split
    · -- `x` is larger: the fold goes on from it
      rename_i hlt
      obtain ⟨hle, hall, hfrom⟩ := ih (f x) (g x)
      refine ⟨UInt64.le_trans (UInt64.le_of_lt hlt) hle, fun y hy => ?_, ?_⟩
      · rcases List.mem_cons.mp hy with rfl | hy
        · exact hle
        · exact hall y hy
      · rcases hfrom with h | ⟨y, hy, h⟩
        · exact .inr ⟨x, List.mem_cons_self, h⟩
        · exact .inr ⟨y, List.mem_cons_of_mem _ hy, h⟩
    · rename_i hnlt
      obtain ⟨hle, hall, hfrom⟩ := ih m c
      refine ⟨hle, fun y hy => ?_, ?_⟩
      · rcases List.mem_cons.mp hy with rfl | hy
        · exact UInt64.le_trans (UInt64.not_lt.mp hnlt) hle
        · exact hall y hy
      · rcases hfrom with h | ⟨y, hy, h⟩
        · exact .inl h
        · exact .inr ⟨y, List.mem_cons_of_mem _ hy, h⟩

/-- `a - b + c` does not wrap when `b ≤ a` and the sum fits. -/
theorem toNat_sub_add {a b c : UInt64} (hba : b ≤ a) (hlt : a.toNat - b.toNat + c.toNat < 2 ^ 64) :
    (a - b + c).toNat = a.toNat - b.toNat + c.toNat := by
  rw [UInt64.toNat_add, UInt64.toNat_sub_of_le _ _ hba]
  exact Nat.mod_eq_of_lt hlt

/-- A number whose successor does not wrap to `0` is below it. -/
theorem lt_add_one_of_ne_zero {a : UInt64} (h : a + 1 ≠ 0) : a < a + 1 :=
  UInt64.lt_add_one fun ha => h (by rw [ha]; decide)

/-- A number other than `0` is above its predecessor. -/
theorem sub_one_lt {a : UInt64} (h : a ≠ 0) : a - 1 < a := by
  have hne : a.toNat ≠ 0 := fun h0 => h (UInt64.toNat_inj.mp (by rw [h0]; rfl))
  have hle : (1 : UInt64) ≤ a := by rw [UInt64.le_iff_toNat_le, UInt64.toNat_one]; omega
  rw [UInt64.lt_iff_toNat_lt, UInt64.toNat_sub_of_le _ _ hle, UInt64.toNat_one]
  omega

/-- The successor of a number below another does not wrap, and is at most it. -/
theorem add_one_le_of_lt {a b : UInt64} (h : a < b) : a + 1 ≤ b := by
  rw [UInt64.lt_iff_toNat_lt] at h
  have hb := b.toNat_lt
  rw [UInt64.le_iff_toNat_le, UInt64.toNat_add, UInt64.toNat_one, Nat.mod_eq_of_lt (by omega)]
  omega

end UInt64

namespace UInt32

theorem le_max_right (a b : UInt32) : b ≤ max a b := by
  show b ≤ (if a ≤ b then b else a)
  split
  · exact UInt32.le_refl b
  · rename_i h
    exact UInt32.le_of_lt (UInt32.not_le.mp h)

end UInt32
