import BftCore.State.ActionRefine
import BftCore.State.Hasher
import BftCore.State.Savepoints

/-!
# `state`: the actions keep the invariant of the skip rule

Every action writes the tree at most once, and the unit it writes is new or a clone: its
summary is not calculated and it has no logs hash (`UnitV1.Fresh`).  The tree methods keep
`HashInv` for such a unit (`Node.HashInv.apply`), so the actions keep it on the latest
savepoint.

* `HStep`: an action on a tree with the invariant ends with a tree with the invariant that
  owns records it owned or new ones, or fails having changed no allocated record;
* `hstep_write`: the one write of an action; `liftStore_get_cases`: a read changes nothing;
* `Action.run_hstep`, `addUnitLog_hstep`: the actions, and the change `AddUnitLog` makes.
-/

namespace BftCore.State

open BftCore.Avl BftCore.Avl.Heap EStateM

variable {A K D ε : Type} [LinearOrder K] [UnitData D] (H : A → List (HashItem K D) → Bytes)
  (alg : A) (logsRoot : A → List (Log D) → Option Bytes)

/-- An action on a latest savepoint that owns `Dt` keeps the invariant of the skip rule: it
ends with a tree satisfying it that writes only records of `Dt`, or fails having changed no
allocated record. -/
def HStep (Dt : List Nat) (s : Store K (UnitV1 D)) :
    EStateM.Result (StateError K ε) (Store K (UnitV1 D)) Tree → Prop
  | .ok t' s' => ∃ tv' Dt', Owns s' t'.root tv' Dt' ∧ tv'.HashInv H alg logsRoot ∧ Within Dt s s'
  | .error _ s' => Within [] s s'

section Calls

variable {H alg logsRoot} {s : Store K (UnitV1 D)} {t : Tree} {tv : Node K (UnitV1 D)}
  {Dt : List Nat}

omit [LinearOrder K] in
theorem hstep_error (e : StateError K ε) : HStep H alg logsRoot Dt s (.error e s) :=
  Within.refl _ _

omit [LinearOrder K] in
theorem HStep.withContext {x : ActionM K D ε Tree} (h : HStep H alg logsRoot Dt s (x s))
    (c : String) : HStep H alg logsRoot Dt s (State.withContext c x s) := by
  unfold State.withContext
  generalize x s = r at h ⊢
  cases r with
  | ok t' s' => exact h
  | error e s' => exact h

/-- The write of an action: a tree method with a fresh unit. -/
theorem hstep_write (h : Owns s t.root tv Dt) (hi : tv.HashInv H alg logsRoot)
    (op : Avl.Op K (UnitV1 D)) (hop : op.Writes UnitV1.Fresh) :
    HStep H alg logsRoot Dt s (liftStore (t.apply op) s : EStateM.Result (StateError K ε) _ _) := by
  have hsim := Tree.apply_spec h op
  unfold liftStore
  cases hv : (⟨tv⟩ : Avl.Tree K (UnitV1 D)).apply op with
  | error e =>
    rw [hv] at hsim
    generalize t.apply op s = r at hsim ⊢
    cases r with
    | ok => exact hsim.elim
    | error e' s' => exact hsim.2
  | ok tv' =>
    rw [hv] at hsim
    generalize t.apply op s = r at hsim ⊢
    cases r with
    | error => exact hsim.elim
    | ok t' s' =>
      obtain ⟨D', ho', hW, -⟩ := hsim
      exact ⟨tv'.root, D', ho', Node.HashInv.apply H alg logsRoot hi hop hv, hW⟩

omit [UnitData D] in
/-- A read: the unit, or an error, and the store as it was. -/
theorem liftStore_get_cases (h : Owns s t.root tv Dt) (id : K) :
    (∃ u, (liftStore (t.get id) : ActionM K D ε (UnitV1 D)) s = .ok u s) ∨
      ∃ e, (liftStore (t.get id) : ActionM K D ε (UnitV1 D)) s = .error e s := by
  unfold liftStore
  rw [Tree.get_spec h]
  cases Avl.Tree.get ⟨tv⟩ id with
  | ok u => exact .inl ⟨u, rfl⟩
  | error e => exact .inr ⟨_, rfl⟩

end Calls

/-! ### The actions -/

section Actions

variable [UnitId K] {H alg logsRoot} {s : Store K (UnitV1 D)} {t : Tree} {tv : Node K (UnitV1 D)}
  {Dt : List Nat} (h : Owns s t.root tv Dt) (hi : tv.HashInv H alg logsRoot)
include h hi

theorem addUnit_hstep (id : K) (data : Option D) :
    HStep H alg logsRoot Dt s (addUnit (ε := ε) H alg id data t s) := by
  unfold addUnit
  by_cases hnil : UnitId.isNil id = true
  · simp only [hnil, ↓reduceIte, throw_bind, throw_apply]
    exact hstep_error _
  · simp only [hnil, Bool.false_eq_true, ↓reduceIte]
    cases data with
    | none => exact hstep_error _
    | some d => exact (hstep_write h hi (.add id _) ⟨rfl, rfl⟩).withContext _

theorem addOrPromoteUnit_hstep (id : K) (data : Option D) :
    HStep H alg logsRoot Dt s (addOrPromoteUnit (ε := ε) H alg id data t s) := by
  unfold addOrPromoteUnit
  by_cases hnil : UnitId.isNil id = true
  · simp only [hnil, ↓reduceIte, throw_bind, throw_apply]
    exact hstep_error _
  · simp only [hnil, Bool.false_eq_true, ↓reduceIte]
    cases data with
    | none => exact hstep_error _
    | some d =>
      dsimp only
      -- `getExistingUnit` reads the tree: the store is as it was
      have hget : ∃ r, (getExistingUnit t id : ActionM K D ε _) s = r ∧
          ((∃ o, r = .ok o s) ∨ ∃ e, r = .error e s) := by
        unfold getExistingUnit
        rw [Tree.get_spec h]
        cases Avl.Tree.get ⟨tv⟩ id with
        | ok u => exact ⟨_, rfl, .inl ⟨_, rfl⟩⟩
        | error e =>
          cases e with
          | notFound => exact ⟨_, rfl, .inl ⟨_, rfl⟩⟩
          | alreadyExists => exact ⟨_, rfl, .inr ⟨_, rfl⟩⟩
      obtain ⟨r, hr, ⟨o, rfl⟩ | ⟨e, rfl⟩⟩ := hget
      · rw [bind_of_ok hr]
        cases o with
        | none => exact (hstep_write h hi (.add id _) ⟨rfl, rfl⟩).withContext _
        | some u =>
          dsimp only
          by_cases hd : (!u.isDummy) = true
          · simp only [hd, ↓reduceIte, throw_bind, throw_apply]
            exact hstep_error _
          · simp only [hd, Bool.false_eq_true, ↓reduceIte]
            exact (hstep_write h hi (.update id _) ⟨rfl, rfl⟩).withContext _
      · rw [bind_of_error hr]
        exact hstep_error _

theorem addUnitWithLock_hstep (id : K) (data : Option D) (l : Option Bytes) :
    HStep H alg logsRoot Dt s (addUnitWithLock (ε := ε) H alg id data l t s) := by
  unfold addUnitWithLock
  by_cases hnil : UnitId.isNil id = true
  · simp only [hnil, ↓reduceIte, throw_bind, throw_apply]
    exact hstep_error _
  · simp only [hnil, Bool.false_eq_true, ↓reduceIte]
    exact (hstep_write h hi (.add id _) ⟨rfl, rfl⟩).withContext _

theorem addDummyUnit_hstep (id : K) :
    HStep H alg logsRoot Dt s (addDummyUnit (ε := ε) id t s) := by
  unfold addDummyUnit
  by_cases hnil : UnitId.isNil id = true
  · simp only [hnil, ↓reduceIte, throw_bind, throw_apply]
    exact hstep_error _
  · simp only [hnil, Bool.false_eq_true, ↓reduceIte]
    exact (hstep_write h hi (.add id _) ⟨rfl, rfl⟩).withContext _

theorem updateUnitData_hstep (id : K) (f : Option (UpdateFunction D ε)) :
    HStep H alg logsRoot Dt s (updateUnitData id f t s) := by
  unfold updateUnitData
  cases f with
  | none => exact hstep_error _
  | some f =>
    dsimp only
    rcases liftStore_get_cases (ε := ε) h id with ⟨u, hget⟩ | ⟨e, hget⟩
    · rw [bind_of_ok (withContext_of_ok hget _)]
      cases f u.clone.data with
      | error e => exact hstep_error _
      | ok newData => exact (hstep_write h hi (.update id _) ⟨rfl, rfl⟩).withContext _
    · rw [bind_of_error (withContext_of_error hget _)]
      exact hstep_error _

theorem setStateLock_hstep (id : K) (l : Option Bytes) :
    HStep H alg logsRoot Dt s (setStateLock (ε := ε) id l t s) := by
  unfold setStateLock
  by_cases hnil : UnitId.isNil id = true
  · simp only [hnil, ↓reduceIte, throw_bind, throw_apply]
    exact hstep_error _
  · simp only [hnil, Bool.false_eq_true, ↓reduceIte]
    cases l with
    | none => exact hstep_error _
    | some lock =>
      simp only [Option.isNone_some, Bool.false_eq_true, ↓reduceIte]
      rcases liftStore_get_cases (ε := ε) h id with ⟨u, hget⟩ | ⟨e, hget⟩
      · rw [bind_of_ok (withContext_of_ok hget _)]
        by_cases hl : u.stateLockTx.isSome = true
        · simp only [hl, ↓reduceIte, throw_bind, throw_apply]
          exact hstep_error _
        · simp only [hl, Bool.false_eq_true, ↓reduceIte]
          exact (hstep_write h hi (.update id _) ⟨rfl, rfl⟩).withContext _
      · rw [bind_of_error (withContext_of_error hget _)]
        exact hstep_error _

theorem removeStateLock_hstep (id : K) :
    HStep H alg logsRoot Dt s (removeStateLock (ε := ε) id t s) := by
  unfold removeStateLock
  by_cases hnil : UnitId.isNil id = true
  · simp only [hnil, ↓reduceIte, throw_bind, throw_apply]
    exact hstep_error _
  · simp only [hnil, Bool.false_eq_true, ↓reduceIte]
    rcases liftStore_get_cases (ε := ε) h id with ⟨u, hget⟩ | ⟨e, hget⟩
    · rw [bind_of_ok (withContext_of_ok hget _)]
      by_cases hl : u.stateLockTx.isNone = true
      · simp only [hl, ↓reduceIte, throw_bind, throw_apply]
        exact hstep_error _
      · simp only [hl, Bool.false_eq_true, ↓reduceIte]
        exact (hstep_write h hi (.update id _) ⟨rfl, rfl⟩).withContext _
    · rw [bind_of_error (withContext_of_error hget _)]
      exact hstep_error _

theorem deleteUnit_hstep (id : K) :
    HStep H alg logsRoot Dt s (deleteUnit (ε := ε) id t s) := by
  unfold deleteUnit
  by_cases hnil : UnitId.isNil id = true
  · simp only [hnil, ↓reduceIte, throw_bind, throw_apply]
    exact hstep_error _
  · simp only [hnil, Bool.false_eq_true, ↓reduceIte]
    exact (hstep_write h hi (.delete id) trivial).withContext _

theorem markForDeletion_hstep (id : K) (r : UInt64) :
    HStep H alg logsRoot Dt s (markForDeletion (ε := ε) id r t s) := by
  unfold markForDeletion
  by_cases hnil : UnitId.isNil id = true
  · simp only [hnil, ↓reduceIte, throw_bind, throw_apply]
    exact hstep_error _
  · simp only [hnil, Bool.false_eq_true, ↓reduceIte]
    rcases liftStore_get_cases (ε := ε) h id with ⟨u, hget⟩ | ⟨e, hget⟩
    · rw [bind_of_ok (withContext_of_ok hget _)]
      exact (hstep_write h hi (.update id _) ⟨rfl, rfl⟩).withContext _
    · rw [bind_of_error (withContext_of_error hget _)]
      exact hstep_error _

/-- **Every action keeps the invariant of the skip rule** on the latest savepoint. -/
theorem Action.run_hstep (a : Action K D ε) :
    HStep H alg logsRoot Dt s (a.run H alg t s) := by
  cases a with
  | addUnit id data => exact addUnit_hstep h hi id data
  | addOrPromoteUnit id data => exact addOrPromoteUnit_hstep h hi id data
  | addUnitWithLock id data l => exact addUnitWithLock_hstep h hi id data l
  | addDummyUnit id => exact addDummyUnit_hstep h hi id
  | updateUnitData id f => exact updateUnitData_hstep h hi id f
  | setStateLock id l => exact setStateLock_hstep h hi id l
  | removeStateLock id => exact removeStateLock_hstep h hi id
  | deleteUnit id => exact deleteUnit_hstep h hi id
  | markForDeletion id r => exact markForDeletion_hstep h hi id r

omit [UnitId K] in
/-- The change `AddUnitLog` makes to the latest savepoint: a clone with one more log. -/
theorem addUnitLog_hstep (id : K) (txrHash : Option Bytes) :
    HStep H alg logsRoot Dt s ((do
      let u ← withContext "unable to find unit" (liftStore (t.get id))
      liftStore (t.update id (u.clone.addUnitLog H alg txrHash)) : ActionM K D ε Tree) s) := by
  rcases liftStore_get_cases (ε := ε) h id with ⟨u, hget⟩ | ⟨e, hget⟩
  · rw [bind_of_ok (withContext_of_ok hget _)]
    exact hstep_write h hi (.update id _) ⟨rfl, rfl⟩
  · rw [bind_of_error (withContext_of_error hget _)]
    exact hstep_error _

end Actions

end BftCore.State
