import Mathlib

/-!
# Stacks of savepoints

A stack of savepoints is a list whose last entry is the working copy and whose other
entries are the copies saved by earlier savepoints, oldest first.  A savepoint is named by
its index, an integer as the caller passes it:

* `push`: a copy of the top is pushed, its index is the old height;
* `rollback id`: the stack is cut to height `id`, so the entry below the savepoint `id`,
  saved when it was taken, is the top again;
* `release id`: the top replaces the entry at `id - 1` and the stack is cut to height `id`,
  keeping the changes;
* `setTop`: the top is replaced.

Ids above the height are ignored, and ids out of range below are an error (`none`).

* `Rel`: two stacks of one height related entry by entry, with a weaker relation for the
  tops; every operation keeps it;
* `take_of_rollback`, `take_of_release`, `take_setTop`, `take_push`: an operation that leaves
  more than `n` entries keeps the lowest `n`;
* `rollback_restores`, `release_keeps`: so while a savepoint stays open, rolling back to it
  restores the stack it was taken on, and releasing it keeps the top;
* `Holds P Q`: a stack whose entries below the top satisfy `P` and whose top satisfies `Q`,
  which the operations keep when `P` implies `Q`; `Holds.rel_map` relates it to its image.
-/

namespace SavepointStack

variable {α β : Type}

/-- The new top, a copy of the old one, and its index. -/
def push (l : List α) : Option (Nat × List α) :=
  l.getLast?.map fun a => (l.length, l ++ [a])

/-- The stack cut to height `id`, unless `id` is above the height. -/
def rollback (id : Int) (l : List α) : Option (List α) :=
  if id > l.length then some l
  else if id < 0 then none
  else some (l.take id.toNat)

/-- The top moved to index `id - 1` and the stack cut to height `id`, unless `id` is above
the height. -/
def release (id : Int) (l : List α) : Option (List α) :=
  if id > l.length then some l
  else match l.getLast? with
    | none => none
    | some top => if id < 1 then none else some ((l.set (id - 1).toNat top).take id.toNat)

/-- The top replaced by `a`. -/
def setTop (a : α) (l : List α) : List α := l.dropLast ++ [a]

/-! ### The operations at valid indices -/

theorem rollback_eq_none_iff {id : Int} {l : List α} :
    rollback id l = none ↔ ¬ id > l.length ∧ id < 0 := by
  unfold rollback
  split_ifs <;> simp_all

theorem release_eq_none_iff {id : Int} {l : List α} :
    release id l = none ↔ ¬ id > l.length ∧ (l = [] ∨ id < 1) := by
  unfold release
  by_cases h : id > l.length
  · simp [h]
  · rw [if_neg h]
    cases hl : l.getLast? with
    | none =>
      have h0 := List.getLast?_eq_none_iff.1 hl
      subst h0
      exact ⟨fun _ => ⟨h, Or.inl rfl⟩, fun _ => rfl⟩
    | some a =>
      have hne : l ≠ [] := fun h0 => by simp [h0] at hl
      by_cases h₁ : id < 1 <;> simp [h, h₁, hne]

theorem rollback_natCast {n : Nat} {l : List α} (h : n ≤ l.length) :
    rollback n l = some (l.take n) := by
  have h₁ : ¬ (n : Int) > l.length := by omega
  have h₂ : ¬ (n : Int) < 0 := by omega
  simp only [rollback, h₁, h₂, if_false, Int.toNat_natCast]

theorem release_natCast {n : Nat} {l : List α} {a : α} (ha : l.getLast? = some a) (h1 : 1 ≤ n)
    (h : n ≤ l.length) : release n l = some ((l.set (n - 1) a).take n) := by
  have h₁ : ¬ (n : Int) > l.length := by omega
  have h₂ : ¬ (n : Int) < 1 := by omega
  have h₃ : ((n : Int) - 1).toNat = n - 1 := by omega
  simp only [release, h₁, h₂, ha, if_false, h₃, Int.toNat_natCast]

theorem length_setTop (a : α) {l : List α} (hl : l ≠ []) : (setTop a l).length = l.length := by
  have := List.length_pos_of_ne_nil hl
  simp only [setTop, List.length_append, List.length_dropLast, List.length_singleton]
  omega

theorem getLast?_setTop (a : α) (l : List α) : (setTop a l).getLast? = some a := by
  simp [setTop]

/-- Writing the top back leaves the stack as it is. -/
theorem setTop_getLast? {l : List α} {a : α} (h : l.getLast? = some a) : setTop a l = l :=
  List.dropLast_append_getLast? _ h

/-- Writing the top and cutting just above it. -/
theorem take_set_succ {l : List α} {n : Nat} (a : α) (hn : n < l.length) :
    (l.set n a).take (n + 1) = l.take n ++ [a] := by
  rw [List.take_add_one, List.take_set_of_le (Nat.le_refl n), List.getElem?_set_self hn]
  rfl

/-! ### An operation keeps the entries it leaves below -/

theorem take_push {l : List α} {n : Nat} (a : α) (hn : n ≤ l.length) :
    (l ++ [a]).take n = l.take n :=
  List.take_append_of_le_length hn

theorem take_setTop {l : List α} {n : Nat} (a : α) (hn : n < l.length) :
    (setTop a l).take n = l.take n := by
  have hd : n ≤ l.length - 1 := by omega
  rw [setTop, List.take_append_of_le_length (by simpa using hd), List.dropLast_eq_take,
    List.take_take, Nat.min_eq_left hd]

theorem take_of_rollback {id : Int} {l l' : List α} (h : rollback id l = some l') {n : Nat}
    (hn : n < l'.length) : l'.take n = l.take n := by
  unfold rollback at h
  split_ifs at h with h₁ h₂
  · cases h
    rfl
  · cases h
    rw [List.take_take]
    simp only [List.length_take] at hn
    rw [Nat.min_eq_left (by omega)]

theorem take_of_release {id : Int} {l l' : List α} (h : release id l = some l') {n : Nat}
    (hn : n < l'.length) : l'.take n = l.take n := by
  unfold release at h
  by_cases h₁ : id > l.length
  · rw [if_pos h₁] at h
    cases h
    rfl
  · rw [if_neg h₁] at h
    cases ht : l.getLast? with
    | none => simp [ht] at h
    | some top =>
      by_cases h₂ : id < 1
      · simp [ht, h₂] at h
      · simp only [ht, h₂, if_false, Option.some.injEq] at h
        subst h
        simp only [List.length_take, List.length_set] at hn
        rw [List.take_take, Nat.min_eq_left (by omega), List.take_set_of_le (by omega)]

/-! ### While a savepoint stays open -/

/-- Rolling back to the height of a stack whose entries are still the lowest ones restores it. -/
theorem rollback_restores {l₀ l : List α} (hl : l.take l₀.length = l₀)
    (hlen : l₀.length ≤ l.length) : rollback l₀.length l = some l₀ := by
  rw [rollback_natCast hlen, hl]

/-- Releasing at the height of such a stack puts the top in the place of its top. -/
theorem release_keeps {l₀ l : List α} {a : α} (hl : l.take l₀.length = l₀) (h0 : l₀ ≠ [])
    (hlen : l₀.length < l.length) (ha : l.getLast? = some a) :
    release l₀.length l = some (setTop a l₀) := by
  have hpos := List.length_pos_of_ne_nil h0
  rw [release_natCast ha hpos (Nat.le_of_lt hlen)]
  obtain ⟨k, hk⟩ : ∃ k, l₀.length = k + 1 := ⟨l₀.length - 1, by omega⟩
  rw [hk] at hl hlen ⊢
  rw [Nat.add_sub_cancel, take_set_succ a (by omega), setTop, ← hl, List.dropLast_eq_take,
    List.length_take, List.take_take, show min (min (k + 1) l.length - 1) (k + 1) = k by omega]

/-! ### Stacks related entry by entry -/

/-- Two stacks of one height: the entries below the tops related by `R`, the tops by `T`. -/
structure Rel (R T : α → β → Prop) (l : List α) (l' : List β) : Prop where
  length_eq : l.length = l'.length
  below : ∀ i a b, i + 1 < l.length → l[i]? = some a → l'[i]? = some b → R a b
  top : ∀ a b, l.getLast? = some a → l'.getLast? = some b → T a b

namespace Rel

variable {R T Q U : α → β → Prop} {l : List α} {l' : List β}

theorem getLast?_isSome_iff (h : Rel R T l l') : l.getLast?.isSome = l'.getLast?.isSome := by
  rw [Bool.eq_iff_iff, List.getLast?_isSome, List.getLast?_isSome, ne_eq, ne_eq,
    ← List.length_eq_zero_iff, ← List.length_eq_zero_iff, h.length_eq]

theorem mono (h : Rel R T l l') (hR : ∀ a b, R a b → Q a b) (hT : ∀ a b, T a b → U a b) :
    Rel Q U l l' :=
  ⟨h.length_eq, fun i a b hi ha hb => hR a b (h.below i a b hi ha hb),
    fun a b ha hb => hT a b (h.top a b ha hb)⟩

theorem mono_below (h : Rel R T l l') (hR : ∀ a b, R a b → Q a b) : Rel Q T l l' :=
  h.mono hR fun _ _ => id

/-- The stacks cut to height `m`, with new tops related by `U`. -/
theorem take_append (h : Rel R T l l') {m : Nat} (hm : m ≤ l.length - 1) {a : α} {b : β}
    (hab : U a b) : Rel R U (l.take m ++ [a]) (l'.take m ++ [b]) := by
  refine ⟨by simp [h.length_eq], fun i x y hi hx hy => ?_, fun x y hx hy => ?_⟩
  · simp only [List.length_append, List.length_take, List.length_singleton] at hi
    have him : i < m := by omega
    rw [List.getElem?_append_left (by simp; omega), List.getElem?_take, if_pos him] at hx
    rw [List.getElem?_append_left (by simp [← h.length_eq]; omega), List.getElem?_take,
      if_pos him] at hy
    exact h.below i x y (by omega) hx hy
  · simp only [List.getLast?_concat, Option.some.injEq] at hx hy
    subst hx hy
    exact hab

/-- A new top: the entries below are kept. -/
theorem setTop (h : Rel R T l l') {a : α} {b : β} (hab : U a b) :
    Rel R U (SavepointStack.setTop a l) (SavepointStack.setTop b l') := by
  have ht := h.take_append (Nat.le_refl _) hab
  rwa [← List.dropLast_eq_take, h.length_eq, ← List.dropLast_eq_take] at ht

/-- A copy of the top pushed: the old top is now below, so it must be related by `R`. -/
theorem push (h : Rel R T l l') {a : α} {b : β} (ha : l.getLast? = some a)
    (hb : l'.getLast? = some b) (hR : R a b) (hT : T a b) : Rel R T (l ++ [a]) (l' ++ [b]) := by
  refine ⟨by simp [h.length_eq], fun i x y hi hx hy => ?_, fun x y hx hy => ?_⟩
  · simp only [List.length_append, List.length_singleton] at hi
    rcases Nat.lt_or_ge (i + 1) l.length with hlt | hge
    · rw [List.getElem?_append_left (by omega)] at hx
      rw [List.getElem?_append_left (by rw [← h.length_eq]; omega)] at hy
      exact h.below i x y hlt hx hy
    · -- the old top
      have hi : i = l.length - 1 := by omega
      rw [List.getElem?_append_left (by omega), hi, ← List.getLast?_eq_getElem?, ha] at hx
      rw [List.getElem?_append_left (by rw [← h.length_eq]; omega), hi, h.length_eq,
        ← List.getLast?_eq_getElem?, hb] at hy
      cases hx
      cases hy
      exact hR
  · simp only [List.getLast?_concat, Option.some.injEq] at hx hy
    subst hx hy
    exact hT

/-- The stacks cut to one height: the new tops were below, related by `R`. -/
theorem take (h : Rel R T l l') (hRT : ∀ a b, R a b → T a b) (n : Nat) :
    Rel R T (l.take n) (l'.take n) := by
  rcases Nat.lt_or_ge n l.length with hn | hn
  · refine ⟨by simp [h.length_eq], fun i a b hi ha hb => ?_, fun a b ha hb => ?_⟩
    · simp only [List.length_take] at hi
      rw [List.getElem?_take, if_pos (by omega)] at ha hb
      exact h.below i a b (by omega) ha hb
    · rcases Nat.eq_zero_or_pos n with rfl | hpos
      · simp at ha
      · rw [List.getLast?_eq_getElem?, List.getElem?_take, if_pos (by simp; omega)] at ha hb
        simp only [List.length_take, Nat.min_eq_left (Nat.le_of_lt hn)] at ha
        simp only [List.length_take, ← h.length_eq, Nat.min_eq_left (Nat.le_of_lt hn)] at hb
        exact hRT a b (h.below (n - 1) a b (by omega) ha hb)
  · rw [List.take_of_length_le hn, List.take_of_length_le (by rw [← h.length_eq]; exact hn)]
    exact h

theorem rollback (h : Rel R T l l') (hRT : ∀ a b, R a b → T a b) {id : Int} {k : List α}
    (hk : SavepointStack.rollback id l = some k) :
    ∃ k', SavepointStack.rollback id l' = some k' ∧ Rel R T k k' := by
  unfold SavepointStack.rollback at hk ⊢
  rw [← h.length_eq]
  split_ifs at hk ⊢ with h₁ h₂
  · cases hk
    exact ⟨l', rfl, h⟩
  · cases hk
    exact ⟨_, rfl, h.take hRT _⟩

theorem release (h : Rel R T l l') {id : Int} {k : List α}
    (hk : SavepointStack.release id l = some k) :
    ∃ k', SavepointStack.release id l' = some k' ∧ Rel R T k k' := by
  unfold SavepointStack.release at hk ⊢
  rw [← h.length_eq]
  by_cases h₁ : id > l.length
  · rw [if_pos h₁] at hk ⊢
    cases hk
    exact ⟨l', rfl, h⟩
  · rw [if_neg h₁] at hk ⊢
    cases ha : l.getLast? with
    | none => simp [ha] at hk
    | some a =>
      obtain ⟨b, hb⟩ : ∃ b, l'.getLast? = some b := by
        have := h.getLast?_isSome_iff
        rw [ha, Option.isSome_some, eq_comm, Option.isSome_iff_exists] at this
        exact this
      by_cases h₂ : id < 1
      · simp [ha, h₂] at hk
      · simp only [ha, hb, h₂, if_false, Option.some.injEq] at hk ⊢
        subst hk
        -- the release writes the top at `id - 1` and cuts just above it
        have hn : (id - 1).toNat + 1 = id.toNat := by omega
        have hlt : (id - 1).toNat < l.length := by omega
        refine ⟨_, rfl, ?_⟩
        rw [← hn, take_set_succ a hlt, take_set_succ b (by rw [← h.length_eq]; exact hlt)]
        exact h.take_append (by omega) (h.top a b ha hb)

end Rel

/-! ### Stacks whose entries satisfy a predicate -/

theorem setTop_setTop (a b : α) (l : List α) : setTop b (setTop a l) = setTop b l := by
  simp [setTop]

/-- The entries below the top satisfy `P`, the top satisfies `Q`. -/
structure Holds (P Q : α → Prop) (l : List α) : Prop where
  below : ∀ i a, i + 1 < l.length → l[i]? = some a → P a
  top : ∀ a, l.getLast? = some a → Q a

namespace Holds

variable {P Q P' Q' : α → Prop} {l k : List α}

/-- The stack related to itself. -/
theorem toRel (h : Holds P Q l) : Rel (fun a (_ : α) => P a) (fun a _ => Q a) l l :=
  ⟨rfl, fun i a _ hi ha _ => h.below i a hi ha, fun a _ ha _ => h.top a ha⟩

theorem ofRel (h : Rel (fun a (_ : α) => P a) (fun a _ => Q a) l l) : Holds P Q l :=
  ⟨fun i a hi ha => h.below i a a hi ha ha, fun a ha => h.top a a ha ha⟩

theorem mono (h : Holds P Q l) (hP : ∀ a, P a → P' a) (hQ : ∀ a, Q a → Q' a) : Holds P' Q' l :=
  ⟨fun i a hi ha => hP a (h.below i a hi ha), fun a ha => hQ a (h.top a ha)⟩

theorem singleton {a : α} (hQ : Q a) : Holds P Q [a] :=
  ⟨fun i _ hi => absurd hi (by simp), fun b hb => by simp at hb; exact hb ▸ hQ⟩

/-- A new top. -/
theorem setTop (h : Holds P Q l) {b : α} (hb : Q' b) : Holds P Q' (SavepointStack.setTop b l) :=
  ofRel (h.toRel.setTop (U := fun a (_ : α) => Q' a) hb)

/-- A copy of the top pushed, which must now satisfy `P`. -/
theorem push (h : Holds P Q l) {a : α} (ha : l.getLast? = some a) (hP : P a) (hQ' : Q' a) :
    Holds P Q' (l ++ [a]) := by
  have hr := (h.mono (fun _ => id) (fun _ _ => trivial) : Holds P (fun _ => True) l).toRel.push
    ha ha hP trivial
  exact ⟨(ofRel hr).below, fun b hb => by simp at hb; exact hb ▸ hQ'⟩

theorem rollback (h : Holds P Q l) (hPQ : ∀ a, P a → Q a) {id : Int}
    (hk : SavepointStack.rollback id l = some k) : Holds P Q k := by
  obtain ⟨k', hk', hr⟩ := h.toRel.rollback (fun a _ => hPQ a) hk
  rw [hk] at hk'
  cases hk'
  exact ofRel hr

theorem release (h : Holds P Q l) {id : Int} (hk : SavepointStack.release id l = some k) :
    Holds P Q k := by
  obtain ⟨k', hk', hr⟩ := h.toRel.release hk
  rw [hk] at hk'
  cases hk'
  exact ofRel hr

/-- The stack related to its image under `f`, when `f` relates each entry as its place asks. -/
theorem rel_map {R T : α → β → Prop} (h : Holds P Q l) (f : α → β) (hP : ∀ a, P a → R a (f a))
    (hQ : ∀ a, Q a → T a (f a)) : Rel R T l (l.map f) := by
  refine ⟨(List.length_map _).symm, fun i a b hi ha hb => ?_, fun a b ha hb => ?_⟩
  · rw [List.getElem?_map, ha, Option.map_some, Option.some.injEq] at hb
    exact hb ▸ hP a (h.below i a hi ha)
  · rw [List.getLast?_map, ha, Option.map_some, Option.some.injEq] at hb
    exact hb ▸ hQ a (h.top a ha)

end Holds

end SavepointStack
