import BftCore.State.Actions
import BftCore.Lib.SavepointStack

/-!
# `state`: the state and its savepoints

`state.go`: a `State` holds the committed tree and a stack of savepoint trees, all in one
store of records, sharing their clean records.  Changes are made on the latest savepoint.

* `createSavepoint`: the latest savepoint is cloned, the clone's records are marked clean in
  place by the `PostOrderCommitTraverser` (so that the trees sharing them copy them before a
  write), and the clone is pushed; its id is its index;
* `rollbackToSavepoint id`, `releaseToSavepoint id`: the slice arithmetic of the code on an
  `int` id, `SavepointStack.rollback` and `SavepointStack.release`, with the panics of the
  code for ids out of range;
* `apply`: `Apply(actions...)`, the actions in a savepoint of their own, rolled back on the
  first error and released after the last action; a panic unwinds without a rollback;
* `getUnit`, the read of a unit of the committed tree or of the latest savepoint;
* `addUnitLog`, `revert`, and the calls of the API as `Op`, with runs of calls `Run` and the
  reachable states `Reachable`.

The mutex of the code is left out: every call holds it from start to end, so calls do not
interleave.
-/

namespace BftCore.State

open BftCore.Avl BftCore.Avl.Heap

variable {A K D ε : Type}

/-- `state.State`: the store with the committed tree and the savepoints, all pointers into it. -/
structure State (K D : Type) where
  store : Store K (UnitV1 D)
  committedTree : Tree
  savepoints : List Tree

/-- A call on the state. -/
abbrev StateM (K D ε : Type) := EStateM (StateError K ε) (State K D)

namespace State

/-- `NewEmptyState()`: an empty committed tree and one savepoint, its clone. -/
def empty : State K D := ⟨Store.empty, ⟨none⟩, [(⟨none⟩ : Tree).clone]⟩

/-- `createSavepoint()`. -/
def createSavepoint : StateM K D ε Int := fun σ =>
  -- `s.latestSavepoint()` indexes `len - 1`
  match σ.savepoints.getLast? with
  | none => .error .panic σ
  | some latest =>
    let clonedSavepoint := latest.clone
    match clonedSavepoint.commit σ.store with
    | .ok () s' =>
      .ok σ.savepoints.length { σ with store := s', savepoints := σ.savepoints ++ [clonedSavepoint] }
    | .error e s' =>
      .error ((StateError.ofStore e).wrap "unable to mark the tree clean") { σ with store := s' }

/-- `rollbackToSavepoint(id)`: `savepoints[0:id]` if `id` is at most the height, which
panics for a negative `id`. -/
def rollbackToSavepoint (id : Int) : StateM K D ε PUnit := fun σ =>
  match SavepointStack.rollback id σ.savepoints with
  | none => .error .panic σ
  | some savepoints => .ok () { σ with savepoints := savepoints }

/-- `releaseToSavepoint(id)`: `savepoints[id-1] = latest` and `savepoints[0:id]` if `id` is at
most the height; the index `id - 1` panics below 0, and so does the latest savepoint of an
empty stack. -/
def releaseToSavepoint (id : Int) : StateM K D ε PUnit := fun σ =>
  match SavepointStack.release id σ.savepoints with
  | none => .error .panic σ
  | some savepoints => .ok () { σ with savepoints := savepoints }

/-- A call on the latest savepoint tree: the tree object is changed in place, so the stack
holds the returned tree. -/
def onLatest (x : Tree → ActionM K D ε Tree) : StateM K D ε PUnit := fun σ =>
  match σ.savepoints.getLast? with
  | none => .error .panic σ
  | some latest =>
    match x latest σ.store with
    | .ok latest' s' =>
      .ok () { σ with store := s', savepoints := SavepointStack.setTop latest' σ.savepoints }
    | .error e s' => .error e { σ with store := s' }

section Apply

variable [Ord K] [UnitId K] [UnitData D] (H : A → List (HashItem K D) → Bytes) (alg : A)

/-- The loop of `Apply`: each action on the latest savepoint; the first error rolls back to
`id`, and after the last action the savepoint `id` is released. -/
def applyActions (id : Int) : List (Action K D ε) → StateM K D ε PUnit
  | [] => releaseToSavepoint id
  | action :: actions => fun σ =>
    match onLatest (action.run H alg) σ with
    | .ok () σ' => applyActions id actions σ'
    | .error e σ' =>
      -- a panic unwinds the stack, past the rollback
      if e.isPanic then .error e σ' else (do rollbackToSavepoint id; throw e) σ'

/-- `Apply(actions...)`. -/
def apply (actions : List (Action K D ε)) : StateM K D ε PUnit := fun σ =>
  match createSavepoint σ with
  | .ok id σ' => applyActions H alg id actions σ'
  | .error e σ' => .error (e.wrap "unable to create savepoint") σ'

/-- `AddUnitLog(id, txrHash)`: a clone of the unit with a new log replaces it.  The error of
the final `Update` is returned without a context. -/
def addUnitLog (id : K) (txrHash : Option Bytes) : StateM K D ε PUnit :=
  onLatest fun t => do
    let u ← withContext "unable to find unit" (liftStore (t.get id))
    liftStore (t.update id (u.clone.addUnitLog H alg txrHash))

/-- A read of a tree of the state. -/
def readTree (t : Tree) (id : K) : StateM K D ε (UnitV1 D) := fun σ =>
  match (liftStore (t.get id) : ActionM K D ε (UnitV1 D)) σ.store with
  | .ok u s' => .ok u { σ with store := s' }
  | .error e s' => .error e { σ with store := s' }

/-- `GetUnit(id, committed)`: the unit of the committed tree, or a clone of the unit of the
latest savepoint. -/
def getUnit (id : K) (committed : Bool) : StateM K D ε (UnitV1 D) := fun σ =>
  if committed then readTree σ.committedTree id σ
  else
    match σ.savepoints.getLast? with
    | none => .error .panic σ
    | some latest => (UnitV1.clone <$> readTree latest id) σ

end Apply

/-- `Revert()`: the savepoints are dropped for a clone of the committed tree. -/
def revert : StateM K D ε PUnit := fun σ => .ok () { σ with savepoints := [σ.committedTree.clone] }

end State

/-- The calls of the state API that change the unit maps. -/
inductive Op (K D ε : Type) where
  | apply (actions : List (Action K D ε))
  | addUnitLog (id : K) (txrHash : Option Bytes)
  | savepoint
  | rollbackToSavepoint (id : Int)
  | releaseToSavepoint (id : Int)
  | revert

/-- How a call ends without a panic: returning, or failing with an error value. -/
def Ends {α : Type} (x : StateM K D ε α) (σ σ' : State K D) : Prop :=
  match x σ with
  | .ok _ σ'' => σ'' = σ'
  | .error e σ'' => e.isPanic = false ∧ σ'' = σ'

section Runs

variable [Ord K] [UnitId K] [UnitData D] (H : A → List (HashItem K D) → Bytes) (alg : A)

/-- A call of the API, its result dropped. -/
def Op.run : Op K D ε → StateM K D ε PUnit
  | .apply actions => State.apply H alg actions
  | .addUnitLog id txrHash => State.addUnitLog H alg id txrHash
  | .savepoint => EStateM.dropResult State.createSavepoint
  | .rollbackToSavepoint id => State.rollbackToSavepoint id
  | .releaseToSavepoint id => State.releaseToSavepoint id
  | .revert => State.revert

/-- A run of calls, none of which panics, through states that all satisfy `P`. -/
inductive Run (P : State K D → Prop) : State K D → List (Op K D ε) → State K D → Prop
  | nil (σ : State K D) : Run P σ [] σ
  | cons {σ σ' σ'' : State K D} {op : Op K D ε} {ops : List (Op K D ε)} :
      Ends (op.run H alg) σ σ' → P σ' → Run P σ' ops σ'' → Run P σ (op :: ops) σ''

/-- The states some run from `NewEmptyState()` reaches. -/
def Reachable (σ : State K D) : Prop :=
  ∃ ops : List (Op K D ε), Run H alg (fun _ => True) State.empty ops σ

end Runs

end BftCore.State
