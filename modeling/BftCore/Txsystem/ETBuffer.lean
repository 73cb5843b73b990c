import Mathlib

/-!
# `txsystem`: the executed transactions buffer

`executed_transactions_buffer.go`: the `ETBuffer` remembers, for every transaction a block
executed, the round after which the transaction expires, so that `Execute` can refuse a
duplicate.  It holds two maps: the transactions of committed blocks and those of the current
block, which `Commit` merges into the first and `Revert` drops.

* `add`, `get`, `commit`, `revert`, `clearExpired`: the methods of the code, a map
  `map[string]uint64` being a function to `Option UInt64`;
* their lemmas: how `get` and the two maps read after each method.

`Hash` is left out: nothing modelled here reads the hash of the buffer.
-/

namespace BftCore.Txsystem

/-- `ETBuffer`: transaction id ↦ the round of its timeout, for committed blocks
(`executedTransactions`) and for the current block (`pendingTransactions`). -/
structure ETBuffer (I : Type) where
  executedTransactions : I → Option UInt64
  pendingTransactions : I → Option UInt64

namespace ETBuffer

variable {I : Type} (b : ETBuffer I)

/-- `NewETBuffer(WithExecutedTxs(txs))`: the executed transactions of a stored state and no
pending ones. -/
def ofExecuted (txs : I → Option UInt64) : ETBuffer I := ⟨txs, fun _ => none⟩

/-- `Add(txID, timeout)`: into the pending map. -/
def add [DecidableEq I] (txID : I) (timeout : UInt64) : ETBuffer I :=
  { b with pendingTransactions := Function.update b.pendingTransactions txID (some timeout) }

/-- `Get(txID)`: the executed map first, then the pending one. -/
def get (txID : I) : Option UInt64 :=
  match b.executedTransactions txID with
  | some timeout => some timeout
  | none => b.pendingTransactions txID

/-- `Commit()`: every pending entry is written into the executed map, and the pending map is
emptied. -/
def commit : ETBuffer I where
  executedTransactions txID :=
    match b.pendingTransactions txID with
    | some timeout => some timeout
    | none => b.executedTransactions txID
  pendingTransactions _ := none

/-- `Revert()`: the pending map is emptied. -/
def revert : ETBuffer I := { b with pendingTransactions := fun _ => none }

/-- The loop of `ClearExpired` over one map: an entry whose deletion round is at most the
current round is deleted. -/
def clearMap (m : I → Option UInt64) (currentRound : UInt64) : I → Option UInt64 := fun txID =>
  match m txID with
  | some deletionRound => if deletionRound ≤ currentRound then none else some deletionRound
  | none => none

/-- `ClearExpired(currentRound)`: both maps lose the entries that expire by the current round. -/
def clearExpired (currentRound : UInt64) : ETBuffer I where
  executedTransactions := clearMap b.executedTransactions currentRound
  pendingTransactions := clearMap b.pendingTransactions currentRound

/-! ### How the maps read after each method -/

@[simp] theorem add_executed [DecidableEq I] (x : I) (t : UInt64) :
    (b.add x t).executedTransactions = b.executedTransactions := rfl

@[simp] theorem add_pending_self [DecidableEq I] (x : I) (t : UInt64) :
    (b.add x t).pendingTransactions x = some t := by
  simp [add]

theorem add_pending_of_ne [DecidableEq I] {x y : I} (h : y ≠ x) (t : UInt64) :
    (b.add x t).pendingTransactions y = b.pendingTransactions y := by
  simp [add, Function.update_of_ne h]

@[simp] theorem commit_pending (x : I) : b.commit.pendingTransactions x = none := rfl

theorem commit_executed (x : I) :
    b.commit.executedTransactions x = (b.pendingTransactions x).or (b.executedTransactions x) := by
  simp only [commit]
  cases b.pendingTransactions x <;> rfl

@[simp] theorem revert_executed : b.revert.executedTransactions = b.executedTransactions := rfl

@[simp] theorem revert_pending (x : I) : b.revert.pendingTransactions x = none := rfl

theorem clearMap_eq_some {m : I → Option UInt64} {r : UInt64} {x : I} {t : UInt64} :
    clearMap m r x = some t ↔ m x = some t ∧ r < t := by
  unfold clearMap
  cases hx : m x with
  | none => simp
  | some d =>
    by_cases hd : d ≤ r
    · simp only [if_pos hd, reduceCtorEq, Option.some.injEq, false_iff, not_and]
      rintro rfl
      exact UInt64.not_lt.mpr hd
    · simp only [if_neg hd, Option.some.injEq]
      constructor
      · rintro rfl
        exact ⟨rfl, UInt64.not_le.mp hd⟩
      · rintro ⟨rfl, -⟩
        rfl

theorem clearMap_eq_none {m : I → Option UInt64} {r : UInt64} {x : I} :
    clearMap m r x = none ↔ ∀ t, m x = some t → t ≤ r := by
  unfold clearMap
  cases hx : m x with
  | none => simp
  | some d =>
    by_cases hd : d ≤ r
    · simp [hd]
    · simp [hd]

/-- A map that `ClearExpired` left has no entry at or below the current round. -/
theorem clearMap_lt {m : I → Option UInt64} {r : UInt64} {x : I} {t : UInt64}
    (h : clearMap m r x = some t) : r < t :=
  (clearMap_eq_some.mp h).2

@[simp] theorem get_eq_none {x : I} :
    b.get x = none ↔ b.executedTransactions x = none ∧ b.pendingTransactions x = none := by
  unfold get
  cases b.executedTransactions x <;> simp

theorem get_of_executed {x : I} {t : UInt64} (h : b.executedTransactions x = some t) :
    b.get x = some t := by
  simp [get, h]

theorem get_of_pending {x : I} {t : UInt64} (h : b.pendingTransactions x = some t) :
    b.get x = some t ∨ ∃ t', b.executedTransactions x = some t' := by
  unfold get
  cases hx : b.executedTransactions x <;> simp [h]

/-! ### An entry through the methods

An id with its timeout is `Pending` when only the pending map has it, and `Held` when only the
executed map has it.  Adding another id keeps either; `Commit` makes a pending entry held and
keeps a held one; `Revert` keeps a held one; and `ClearExpired` keeps either unless the timeout
is at most the current round. -/

section Entry

variable (x : I) (t : UInt64)

/-- `x` is in the pending map with timeout `t`, and not in the executed one. -/
def Pending : Prop := b.pendingTransactions x = some t ∧ b.executedTransactions x = none

/-- `x` is in the executed map with timeout `t`, and not in the pending one. -/
def Held : Prop := b.executedTransactions x = some t ∧ b.pendingTransactions x = none

end Entry

variable {b} {x : I} {t : UInt64}

theorem Pending.get (h : b.Pending x t) : b.get x = some t := by
  simp [ETBuffer.get, h.1, h.2]

theorem Held.get (h : b.Held x t) : b.get x = some t := get_of_executed b h.1

/-- An id that the buffer does not hold is not `x`. -/
theorem ne_of_get_eq_none {y : I} (hx : b.get x = some t) (hy : b.get y = none) : y ≠ x := by
  rintro rfl
  rw [hx] at hy
  cases hy

theorem Pending.add [DecidableEq I] (h : b.Pending x t) {y : I} (hy : b.get y = none)
    (t' : UInt64) : (b.add y t').Pending x t :=
  ⟨by rw [add_pending_of_ne b (ne_of_get_eq_none h.get hy).symm]; exact h.1, h.2⟩

theorem Held.add [DecidableEq I] (h : b.Held x t) {y : I} (hy : b.get y = none)
    (t' : UInt64) : (b.add y t').Held x t :=
  ⟨h.1, by rw [add_pending_of_ne b (ne_of_get_eq_none h.get hy).symm]; exact h.2⟩

theorem Pending.commit (h : b.Pending x t) : b.commit.Held x t :=
  ⟨by rw [commit_executed, h.1]; rfl, commit_pending b x⟩

theorem Held.commit (h : b.Held x t) : b.commit.Held x t :=
  ⟨by rw [commit_executed, h.1, h.2]; rfl, commit_pending b x⟩

theorem Held.revert (h : b.Held x t) : b.revert.Held x t := ⟨h.1, revert_pending b x⟩

/-- `ClearExpired(r)` keeps a pending entry unless it expires by round `r`. -/
theorem Pending.clearExpired (h : b.Pending x t) (r : UInt64) :
    (b.clearExpired r).Pending x t ∨ t ≤ r := by
  by_cases ht : t ≤ r
  · exact .inr ht
  · refine .inl ⟨clearMap_eq_some.mpr ⟨h.1, UInt64.not_le.mp ht⟩, ?_⟩
    exact clearMap_eq_none.mpr fun t' h' => by rw [h.2] at h'; cases h'

/-- `ClearExpired(r)` keeps a held entry unless it expires by round `r`. -/
theorem Held.clearExpired (h : b.Held x t) (r : UInt64) :
    (b.clearExpired r).Held x t ∨ t ≤ r := by
  by_cases ht : t ≤ r
  · exact .inr ht
  · refine .inl ⟨clearMap_eq_some.mpr ⟨h.1, UInt64.not_le.mp ht⟩, ?_⟩
    exact clearMap_eq_none.mpr fun t' h' => by rw [h.2] at h'; cases h'

end ETBuffer

end BftCore.Txsystem
