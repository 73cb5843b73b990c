import BftCore.State.ActionRefine
import BftCore.State.Savepoints

/-!
# `state`: the abstract state

What the state is for: a committed unit map and a stack of savepoint unit maps, the last
one the working copy.  The calls of the API act on it as follows:

* `Savepoint()` pushes a copy of the latest map, and returns its index;
* `RollbackToSavepoint(id)` and `ReleaseToSavepoint(id)` are the stack operations of
  `SavepointStack`;
* `Apply(actions...)` and `AddUnitLog(id, txrHash)` change the latest map as a whole, or
  fail and change nothing (`change`);
* `Revert()` replaces the stack by the committed map.

`Op.take_absRun`: a call that leaves more than `n` savepoints keeps the lowest `n` of them, the
property on which rolling back to an open savepoint rests.
-/

namespace BftCore.State

open BftCore.Avl

variable {A K D ε : Type}

/-- The unit maps of the committed tree and of the savepoints. -/
structure AbsState (K D : Type) where
  committed : UnitMap K D
  savepoints : List (UnitMap K D)

/-- A call on the abstract state. -/
abbrev AbsM (K D ε : Type) := EStateM (StateError K ε) (AbsState K D)

namespace AbsState

/-- The empty state: no units, one savepoint. -/
def empty : AbsState K D := ⟨fun _ => none, [fun _ => none]⟩

/-- `Savepoint()`. -/
def savepoint : AbsM K D ε Int := fun A =>
  match SavepointStack.push A.savepoints with
  | none => .error .panic A
  | some (id, savepoints) => .ok id { A with savepoints := savepoints }

/-- `RollbackToSavepoint(id)`. -/
def rollbackToSavepoint (id : Int) : AbsM K D ε PUnit := fun A =>
  match SavepointStack.rollback id A.savepoints with
  | none => .error .panic A
  | some savepoints => .ok () { A with savepoints := savepoints }

/-- `ReleaseToSavepoint(id)`. -/
def releaseToSavepoint (id : Int) : AbsM K D ε PUnit := fun A =>
  match SavepointStack.release id A.savepoints with
  | none => .error .panic A
  | some savepoints => .ok () { A with savepoints := savepoints }

/-- A change of the latest map as a whole: its new value, or an error and no change. -/
def change (f : UnitMap K D → Except (StateError K ε) (UnitMap K D)) : AbsM K D ε PUnit :=
  fun A =>
    match A.savepoints.getLast? with
    | none => .error .panic A
    | some M =>
      match f M with
      | .ok M' => .ok () { A with savepoints := SavepointStack.setTop M' A.savepoints }
      | .error e => .error e A

/-- `Revert()`. -/
def revert : AbsM K D ε PUnit := fun A => .ok () { A with savepoints := [A.committed] }

theorem change_of_ok {f : UnitMap K D → Except (StateError K ε) (UnitMap K D)}
    {B : AbsState K D} {M M' : UnitMap K D} (hl : B.savepoints.getLast? = some M)
    (hf : f M = .ok M') :
    change f B = .ok () { B with savepoints := SavepointStack.setTop M' B.savepoints } := by
  simp only [change, hl, hf]

theorem change_of_error {f : UnitMap K D → Except (StateError K ε) (UnitMap K D)}
    {B : AbsState K D} {M : UnitMap K D} {e : StateError K ε} (hl : B.savepoints.getLast? = some M)
    (hf : f M = .error e) : change f B = .error e B := by
  simp only [change, hl, hf]

end AbsState

theorem Action.applyAll_cons_of_ok [DecidableEq K] [UnitId K] {a : Action K D ε}
    {rest : List (Action K D ε)} {M M₁ : UnitMap K D} (h : a.apply M = .ok M₁) :
    Action.applyAll (a :: rest) M = Action.applyAll rest M₁ := by
  simp only [Action.applyAll, h]
  rfl

theorem Action.applyAll_cons_of_error [DecidableEq K] [UnitId K] {a : Action K D ε}
    {rest : List (Action K D ε)} {M : UnitMap K D} {e : StateError K ε} (h : a.apply M = .error e) :
    Action.applyAll (a :: rest) M = .error e := by
  simp only [Action.applyAll, h]
  rfl

/-- The unit an action names. -/
def Action.unitID : Action K D ε → K
  | .addUnit id _ | .addOrPromoteUnit id _ | .addUnitWithLock id _ _ | .addDummyUnit id
  | .updateUnitData id _ | .setStateLock id _ | .removeStateLock id | .deleteUnit id
  | .markForDeletion id _ => id

/-- An action that succeeds writes the unit it names, and no other. -/
theorem Action.apply_eq_update_unitID [DecidableEq K] [UnitId K] {a : Action K D ε}
    {M M' : UnitMap K D} (h : a.apply M = .ok M') : ∃ o, M' = Function.update M a.unitID o := by
  -- each branch of `apply` that returns writes `Function.update M id _`
  cases a <;> simp only [Action.apply] at h <;> (repeat' split at h) <;>
    first | (cases h; exact ⟨_, rfl⟩) | cases h

theorem Action.apply_of_ne [DecidableEq K] [UnitId K] {a : Action K D ε} {M M' : UnitMap K D}
    (h : a.apply M = .ok M') {u : K} (hu : u ≠ a.unitID) : M' u = M u := by
  obtain ⟨o, rfl⟩ := Action.apply_eq_update_unitID h
  exact Function.update_of_ne hu _ _

/-- Actions in sequence change only the units they name. -/
theorem Action.applyAll_of_not_mem [DecidableEq K] [UnitId K] :
    ∀ {as : List (Action K D ε)} {M M' : UnitMap K D}, Action.applyAll as M = .ok M' →
      ∀ u ∉ as.map Action.unitID, M' u = M u
  | [], _, _, h, _, _ => by cases h; rfl
  | a :: rest, M, M', h, u, hu => by
    rw [List.map_cons, List.mem_cons, not_or] at hu
    rcases hx : a.apply M with e | M₁
    · rw [Action.applyAll_cons_of_error hx] at h
      cases h
    · rw [Action.applyAll_cons_of_ok hx] at h
      rw [Action.applyAll_of_not_mem h u hu.2, Action.apply_of_ne hx hu.1]

/-- `AddUnitLog(id, txrHash)` on a unit map. -/
def UnitMap.addUnitLog [DecidableEq K] (H : A → List (HashItem K D) → Bytes) (alg : A) (id : K)
    (txrHash : Option Bytes) (M : UnitMap K D) : Except (StateError K ε) (UnitMap K D) :=
  match M id with
  | none => .error (.wrapped "unable to find unit" (.avl (.notFound id)))
  | some w => .ok (Function.update M id (some (w.addUnitLog H alg txrHash)))

/-- `AddUnitLog` changes only the unit it logs. -/
theorem UnitMap.addUnitLog_of_ne [DecidableEq K] {H : A → List (HashItem K D) → Bytes} {alg : A}
    {id : K} {txrHash : Option Bytes} {M M' : UnitMap K D}
    (h : UnitMap.addUnitLog (ε := ε) H alg id txrHash M = .ok M') {u : K} (hu : u ≠ id) :
    M' u = M u := by
  unfold UnitMap.addUnitLog at h
  split at h
  · cases h
  · cases h
    exact Function.update_of_ne hu _ _

/-- How an abstract call ends without a panic. -/
def AbsEnds {α : Type} (x : AbsM K D ε α) (B B' : AbsState K D) : Prop :=
  match x B with
  | .ok _ B'' => B'' = B'
  | .error e B'' => e.isPanic = false ∧ B'' = B'

section Calls

variable [DecidableEq K] [UnitId K] (H : A → List (HashItem K D) → Bytes) (alg : A)

/-- A call of the API on the abstract state. -/
def Op.absRun : Op K D ε → AbsM K D ε PUnit
  | .apply actions => AbsState.change (Action.applyAll actions)
  | .addUnitLog id txrHash => AbsState.change (UnitMap.addUnitLog H alg id txrHash)
  | .savepoint => EStateM.dropResult AbsState.savepoint
  | .rollbackToSavepoint id => AbsState.rollbackToSavepoint id
  | .releaseToSavepoint id => AbsState.releaseToSavepoint id
  | .revert => AbsState.revert

omit [DecidableEq K] [UnitId K] in
theorem take_change {f : UnitMap K D → Except (StateError K ε) (UnitMap K D)}
    {B B' : AbsState K D} (h : AbsEnds (AbsState.change f) B B') {n : Nat}
    (hn : n < B'.savepoints.length) : B'.savepoints.take n = B.savepoints.take n := by
  unfold AbsEnds AbsState.change at h
  cases hl : B.savepoints.getLast? with
  | none => simp [hl, StateError.isPanic] at h
  | some M =>
    rw [hl] at h
    cases hf : f M with
    | error e =>
      simp only [hf] at h
      rw [← h.2]
    | ok M' =>
      simp only [hf] at h
      subst h
      have hne : B.savepoints ≠ [] := fun h0 => by simp [h0] at hl
      rw [SavepointStack.length_setTop _ hne] at hn
      exact SavepointStack.take_setTop M' hn

/-- **A call that leaves more than `n` savepoints keeps the lowest `n`.** -/
theorem Op.take_absRun (op : Op K D ε) {B B' : AbsState K D} (h : AbsEnds (op.absRun H alg) B B')
    {n : Nat} (hn : n < B'.savepoints.length) : B'.savepoints.take n = B.savepoints.take n := by
  cases op with
  | apply actions => exact take_change h hn
  | addUnitLog id txrHash => exact take_change h hn
  | savepoint =>
    simp only [AbsEnds, Op.absRun, EStateM.dropResult, AbsState.savepoint,
      SavepointStack.push] at h
    cases hl : B.savepoints.getLast? with
    | none => simp [hl, StateError.isPanic] at h
    | some M =>
      simp only [hl, Option.map_some] at h
      subst h
      simp only [List.length_append, List.length_singleton] at hn
      exact SavepointStack.take_push M (by omega)
  | rollbackToSavepoint id =>
    simp only [AbsEnds, Op.absRun, AbsState.rollbackToSavepoint] at h
    cases hr : SavepointStack.rollback id B.savepoints with
    | none => simp [hr, StateError.isPanic] at h
    | some l =>
      simp only [hr] at h
      subst h
      exact SavepointStack.take_of_rollback hr hn
  | releaseToSavepoint id =>
    simp only [AbsEnds, Op.absRun, AbsState.releaseToSavepoint] at h
    cases hr : SavepointStack.release id B.savepoints with
    | none => simp [hr, StateError.isPanic] at h
    | some l =>
      simp only [hr] at h
      subst h
      exact SavepointStack.take_of_release hr hn
  | revert =>
    simp only [AbsEnds, Op.absRun, AbsState.revert] at h
    subst h
    -- one savepoint is left, so nothing below it is kept
    simp only [List.length_singleton] at hn
    rw [Nat.lt_one_iff.1 hn, List.take_zero, List.take_zero]

end Calls

end BftCore.State
