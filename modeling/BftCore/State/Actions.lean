import BftCore.State.Unit
import BftCore.Avl.Methods

/-!
# `state`: the actions

`actions.go`: an `Action` is a closure over its arguments that runs on the latest savepoint
tree through the `ShardState` interface (`Add`, `Get`, `Update`, `Delete`) and returns an
error or nil.  Each action checks its arguments, reads the unit it changes with `Get` where
it needs it, and ends with at most one call that writes the tree.

* `StateError`: the errors of the package, with the context `fmt.Errorf` adds (`wrap`) and
  `panic` for a runtime panic, which no context wraps;
* the actions on the store, `addUnit` … `markForDeletion`, each on a tree of the store, and
  `Action` with `Action.run`;
* `UnitMap` and `Action.apply`: what an action does to the map from unit ids to unit views,
  the abstract meaning that `BftCore.State.ActionRefine` proves the store actions implement.

The tree of the state is `avl.Tree[types.UnitID, Unit]`, whose only `Unit` is `UnitV1`, so the
`ToUnitV1` conversions cannot fail and are left out.
-/

namespace BftCore.State

open BftCore.Avl BftCore.Avl.Heap

variable {A K D ε α : Type}

/-- The errors of the state package. -/
inductive StateError (K ε : Type) where
  /-- `avl.ErrNotFound` or `avl.ErrAlreadyExists`, naming the key -/
  | avl (e : AvlError K)
  /-- `errors.New(text)` -/
  | message (text : String)
  /-- `ErrUnitAlreadyUnlocked` -/
  | unitAlreadyUnlocked
  /-- `fmt.Errorf("non-dummy unit already exists: %s", id)` -/
  | nonDummyUnitExists (id : K)
  /-- an error of an `UpdateFunction` -/
  | update (e : ε)
  /-- `fmt.Errorf(context + ": %w", e)` -/
  | wrapped (context : String) (e : StateError K ε)
  /-- a runtime panic: a method called on nil data, an index out of range -/
  | panic
  deriving DecidableEq

namespace StateError

/-- `fmt.Errorf(context + ": %w", err)`: a panic is not an error value and is never wrapped. -/
def wrap (context : String) : StateError K ε → StateError K ε
  | panic => panic
  | e => wrapped context e

/-- The error is a runtime panic rather than an error value. -/
def isPanic : StateError K ε → Bool
  | panic => true
  | _ => false

@[simp] theorem isPanic_wrap (context : String) (e : StateError K ε) :
    (e.wrap context).isPanic = e.isPanic := by
  cases e <;> rfl

/-- A failed tree call: its error, or a panic for a nil pointer dereferenced (and for fuel
running out, which the tree methods never do). -/
def ofStore : StoreError K → StateError K ε
  | .avl e => avl e
  | _ => panic

@[simp] theorem ofStore_avl (e : AvlError K) : (ofStore (.avl e) : StateError K ε) = avl e := rfl

end StateError

/-- An action runs on the store of the state tree. -/
abbrev ActionM (K D ε : Type) := EStateM (StateError K ε) (Store K (UnitV1 D))

/-- A tree method called by an action. -/
def liftStore (x : StoreM K (UnitV1 D) α) : ActionM K D ε α := fun s =>
  match x s with
  | .ok a s' => .ok a s'
  | .error e s' => .error (StateError.ofStore e) s'

/-- `if err := x; err != nil { return fmt.Errorf(context + ": %w", err) }`. -/
def withContext (context : String) (x : ActionM K D ε α) : ActionM K D ε α := fun s =>
  match x s with
  | .ok a s' => .ok a s'
  | .error e s' => .error (e.wrap context) s'

/-- `UpdateFunction`: the new data of a unit, or an error. -/
abbrev UpdateFunction (D ε : Type) := Option D → Except ε (Option D)

/-! ### The actions on the store -/

section Actions

variable [Ord K] [UnitId K] [UnitData D] (H : A → List (HashItem K D) → Bytes) (alg : A)

/-- `summaryHashForNewUnit`: the summary hash of a leaf with the given summary value. -/
def summaryHashForNewUnit (id : K) (unitDataSummaryValue : UInt64) : Bytes :=
  H alg [.unitId id, .bytes none, .uint64 unitDataSummaryValue, .bytes none, .uint64 0,
    .bytes none, .uint64 0]

/-- The unit `AddUnit`, `AddOrPromoteUnit` and `AddUnitWithLock` build: no logs, and the
summary of a leaf. -/
def newUnit (id : K) (data : Option D) (stateLockTx : Option Bytes)
    (unitDataSummaryValue : UInt64) : UnitV1 D where
  logs := []
  logsHash := none
  data := data
  deletionRound := 0
  stateLockTx := stateLockTx
  subTreeSummaryValue := unitDataSummaryValue
  subTreeSummaryHash := some (summaryHashForNewUnit H alg id unitDataSummaryValue)
  summaryCalculated := false

/-- The unit `AddDummyUnit` adds: every field zero. -/
def dummyUnit : UnitV1 D := ⟨[], none, none, 0, none, 0, none, false⟩

/-- `AddUnit(id, data)`. -/
def addUnit (id : K) (data : Option D) (t : Tree) : ActionM K D ε Tree := do
  if UnitId.isNil id then throw (.message "id is nil")
  -- `d.SummaryValueInput()` on nil data calls a method of a nil interface
  let some d := data | throw .panic
  let u := newUnit H alg id data none (UnitData.summaryValueInput d)
  withContext "unable to add unit" (liftStore (t.add id u))

/-- `s.Get(id)` in `AddOrPromoteUnit`: nil for `ErrNotFound`, any other error wrapped. -/
def getExistingUnit (t : Tree) (id : K) : ActionM K D ε (Option (UnitV1 D)) := fun s =>
  match t.get id s with
  | .ok u s' => .ok (some u) s'
  | .error (.avl (.notFound _)) s' => .ok none s'
  | .error e s' => .error ((StateError.ofStore e).wrap "add unit: unable to get existing unit") s'

/-- `AddOrPromoteUnit(id, data)`: adds the unit, or replaces a dummy unit of the same id. -/
def addOrPromoteUnit (id : K) (data : Option D) (t : Tree) : ActionM K D ε Tree := do
  if UnitId.isNil id then throw (.message "id is nil")
  let some d := data | throw .panic
  let u := newUnit H alg id data none (UnitData.summaryValueInput d)
  match ← getExistingUnit t id with
  | some existingUnit =>
    if !existingUnit.isDummy then throw (.nonDummyUnitExists id)
    withContext "unable to update dummy unit" (liftStore (t.update id u))
  | none => withContext "unable to add unit" (liftStore (t.add id u))

/-- `AddUnitWithLock(id, data, l)`: nil data has the summary value 0. -/
def addUnitWithLock (id : K) (data : Option D) (l : Option Bytes) (t : Tree) :
    ActionM K D ε Tree := do
  if UnitId.isNil id then throw (.message "id is nil")
  let unitDataSummaryValue := match data with
    | some d => UnitData.summaryValueInput d
    | none => 0
  withContext "unable to add unit" (liftStore (t.add id (newUnit H alg id data l unitDataSummaryValue)))

/-- `AddDummyUnit(id)`. -/
def addDummyUnit (id : K) (t : Tree) : ActionM K D ε Tree := do
  if UnitId.isNil id then throw (.message "id is nil")
  withContext "failed to add unit" (liftStore (t.add id dummyUnit))

/-- `UpdateUnitData(id, f)`: the one action that does not check the id for nil. -/
def updateUnitData (id : K) (f : Option (UpdateFunction D ε)) (t : Tree) : ActionM K D ε Tree := do
  let some f := f | throw (.message "update function is nil")
  let u ← withContext "failed to get unit" (liftStore (t.get id))
  let cloned := u.clone
  match f cloned.data with
  | .error e => throw ((StateError.update e).wrap "unable to update unit data")
  | .ok newData => withContext "unable to update unit" (liftStore (t.update id { cloned with data := newData }))

/-- `SetStateLock(id, stateLockTx)`: a unit with a lock, even an empty one, is not locked again. -/
def setStateLock (id : K) (stateLockTx : Option Bytes) (t : Tree) : ActionM K D ε Tree := do
  if UnitId.isNil id then throw (.message "id is nil")
  if stateLockTx.isNone then throw (.message "stateLockTx is nil")
  let unit ← withContext "failed to find unit" (liftStore (t.get id))
  if unit.stateLockTx.isSome then throw (.message "unit already has a state lock")
  withContext "unable to update unit" (liftStore (t.update id { unit.clone with stateLockTx := stateLockTx }))

/-- `RemoveStateLock(id)`. -/
def removeStateLock (id : K) (t : Tree) : ActionM K D ε Tree := do
  if UnitId.isNil id then throw (.message "id is nil")
  let unit ← withContext "failed to find unit" (liftStore (t.get id))
  if unit.stateLockTx.isNone then throw .unitAlreadyUnlocked
  withContext "failed to update unit" (liftStore (t.update id { unit.clone with stateLockTx := none }))

/-- `DeleteUnit(id)`. -/
def deleteUnit (id : K) (t : Tree) : ActionM K D ε Tree := do
  if UnitId.isNil id then throw (.message "id is nil")
  withContext "unable to delete unit" (liftStore (t.delete id))

/-- `MarkForDeletion(id, deletionRound)`. -/
def markForDeletion (id : K) (deletionRound : UInt64) (t : Tree) : ActionM K D ε Tree := do
  if UnitId.isNil id then throw (.message "id is nil")
  let unit ← withContext "failed to find unit" (liftStore (t.get id))
  withContext "failed to update unit" (liftStore (t.update id { unit.clone with deletionRound := deletionRound }))

end Actions

/-- The actions, by the function of `actions.go` that builds each and its arguments. -/
inductive Action (K D ε : Type) where
  | addUnit (id : K) (data : Option D)
  | addOrPromoteUnit (id : K) (data : Option D)
  | addUnitWithLock (id : K) (data : Option D) (l : Option Bytes)
  | addDummyUnit (id : K)
  | updateUnitData (id : K) (f : Option (UpdateFunction D ε))
  | setStateLock (id : K) (stateLockTx : Option Bytes)
  | removeStateLock (id : K)
  | deleteUnit (id : K)
  | markForDeletion (id : K) (deletionRound : UInt64)

/-- `action(tree, hashAlgorithm)`: the action on a tree of the store, returning the tree with
its new root. -/
def Action.run [Ord K] [UnitId K] [UnitData D] (H : A → List (HashItem K D) → Bytes) (alg : A) :
    Action K D ε → Tree → ActionM K D ε Tree
  | .addUnit id data => State.addUnit H alg id data
  | .addOrPromoteUnit id data => State.addOrPromoteUnit H alg id data
  | .addUnitWithLock id data l => State.addUnitWithLock H alg id data l
  | .addDummyUnit id => State.addDummyUnit id
  | .updateUnitData id f => State.updateUnitData id f
  | .setStateLock id l => State.setStateLock id l
  | .removeStateLock id => State.removeStateLock id
  | .deleteUnit id => State.deleteUnit id
  | .markForDeletion id r => State.markForDeletion id r

/-! ### What an action does to the unit map -/

/-- The unit map of a tree: each unit id's unit, seen through its view. -/
abbrev UnitMap (K D : Type) := K → Option (UnitView D)

/-- The view of a unit an add action stores. -/
def UnitView.new (data : Option D) (stateLockTx : Option Bytes) : UnitView D :=
  ⟨data, 0, stateLockTx, []⟩

/-- What an action does to the unit map: the error it returns, or the new map.  An action
fails before it writes, so a failure has no effect on the map. -/
def Action.apply [DecidableEq K] [UnitId K] :
    Action K D ε → UnitMap K D → Except (StateError K ε) (UnitMap K D)
  | .addUnit id data, M =>
    if UnitId.isNil id then .error (.message "id is nil")
    else if data.isNone then .error .panic
    else if (M id).isSome then .error (.wrapped "unable to add unit" (.avl (.alreadyExists id)))
    else .ok (Function.update M id (some (.new data none)))
  | .addOrPromoteUnit id data, M =>
    if UnitId.isNil id then .error (.message "id is nil")
    else if data.isNone then .error .panic
    else match M id with
      | some w =>
        if w.data.isSome then .error (.nonDummyUnitExists id)
        else .ok (Function.update M id (some (.new data none)))
      | none => .ok (Function.update M id (some (.new data none)))
  | .addUnitWithLock id data l, M =>
    if UnitId.isNil id then .error (.message "id is nil")
    else if (M id).isSome then .error (.wrapped "unable to add unit" (.avl (.alreadyExists id)))
    else .ok (Function.update M id (some (.new data l)))
  | .addDummyUnit id, M =>
    if UnitId.isNil id then .error (.message "id is nil")
    else if (M id).isSome then .error (.wrapped "failed to add unit" (.avl (.alreadyExists id)))
    else .ok (Function.update M id (some (.new none none)))
  | .updateUnitData id f, M =>
    match f, M id with
    | none, _ => .error (.message "update function is nil")
    | some _, none => .error (.wrapped "failed to get unit" (.avl (.notFound id)))
    | some f, some w =>
      match f w.data with
      | .error e => .error (.wrapped "unable to update unit data" (.update e))
      | .ok newData => .ok (Function.update M id (some { w with data := newData }))
  | .setStateLock id l, M =>
    if UnitId.isNil id then .error (.message "id is nil")
    else if l.isNone then .error (.message "stateLockTx is nil")
    else match M id with
      | none => .error (.wrapped "failed to find unit" (.avl (.notFound id)))
      | some w =>
        if w.stateLockTx.isSome then .error (.message "unit already has a state lock")
        else .ok (Function.update M id (some { w with stateLockTx := l }))
  | .removeStateLock id, M =>
    if UnitId.isNil id then .error (.message "id is nil")
    else match M id with
      | none => .error (.wrapped "failed to find unit" (.avl (.notFound id)))
      | some w =>
        if w.stateLockTx.isNone then .error .unitAlreadyUnlocked
        else .ok (Function.update M id (some { w with stateLockTx := none }))
  | .deleteUnit id, M =>
    if UnitId.isNil id then .error (.message "id is nil")
    else if (M id).isSome then .ok (Function.update M id none)
    else .error (.wrapped "unable to delete unit" (.avl (.notFound id)))
  | .markForDeletion id r, M =>
    if UnitId.isNil id then .error (.message "id is nil")
    else match M id with
      | none => .error (.wrapped "failed to find unit" (.avl (.notFound id)))
      | some w => .ok (Function.update M id (some { w with deletionRound := r }))

/-- Actions in sequence: the first error, or the map after the last. -/
def Action.applyAll [DecidableEq K] [UnitId K] :
    List (Action K D ε) → UnitMap K D → Except (StateError K ε) (UnitMap K D)
  | [], M => .ok M
  | a :: as, M => do
    let M' ← a.apply M
    Action.applyAll as M'

end BftCore.State
