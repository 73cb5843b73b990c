import BftCore.Txsystem.Generic
import BftCore.Txsystem.Fees
import BftCore.State.Abstract

/-!
# `txsystem`: executing an order, with its fees and state locks

The part of `GenericTxSystem.Execute` after the generic validation (`generic_tx_system.go`),
and the state lock code it calls (`state_lock.go`), over the abstract state: the unit maps of
the committed tree and of the savepoints, whose latest map `Apply` and `AddUnitLog` change as a
whole (`State.Abstract`).

* `TxHandler`, `TxExecutors`: the handlers of the modules by transaction type.  A validator
  reads the latest unit map and changes only the execution context (the gas its predicates
  spend, the data it leaves for the executor); an executor reads both and returns the new
  latest map, the changes of the actions it applies, with its server metadata;
* `appendServerMetadata`, `ServerMetadata.setError`;
* `parseTxOnHold`, `handleTxOnHold`, `handleUnlockUnitState`, `executeLockedTx` and
  `executeLockUnitState`: an order with a state lock locks its target units with its own bytes
  and waits; a later order on a locked unit carries an unlock proof, and first executes the
  waiting order or rolls it back;
* `doExecute`: an ordinary order.  Its changes are kept, or rolled back to a savepoint when it
  fails (`txExecErr`); either way its fee is debited from its fee credit record and a log is
  added to every target unit, and a failure of these drops the record;
* `executeFc`: a fee credit order, which pays for itself;
* `process`: `snFees` and then one of the two, the part of `Execute` that `Generic` hands on.

What lies outside the repository (CBOR, the record hash, the predicate engines, the checks of
the fee credit module, `StateLock.IsValid`) is a parameter, `TxSystemEnv`.  An error text that
names a unit id leaves the id out.
-/

namespace BftCore.Txsystem

open BftCore.State EStateM

/-- A unit id is a byte slice; an empty one stands for a nil one. -/
instance : UnitId Bytes := ⟨List.isEmpty⟩

/-- The errors of the transaction system: those of the state, with the texts of its own. -/
abbrev TxError := StateError Bytes String

/-- `types.StateLock`. -/
structure StateLock where
  executionPredicate : Bytes
  rollbackPredicate : Bytes
  deriving DecidableEq

/-- The fields of `types.TransactionOrder` besides those of `TransactionOrder` that the
execution reads: the type, the attributes and proofs as the modules read them (`A`), the state
lock and unlock proof, and of the client metadata the maximum fee and the fee credit record. -/
structure Payload (A : Type) where
  type : UInt16
  attributes : A
  stateLock : Option StateLock
  stateUnlock : Bytes
  maxFee : UInt64
  feeCreditRecordID : Bytes
  deriving DecidableEq

/-- `types.TransactionOrder`. -/
abbrev TxOrder (A : Type) := TransactionOrder Bytes (Payload A)

/-- `tx.HasStateLock()`. -/
def TxOrder.hasStateLock {A : Type} (tx : TxOrder A) : Bool := tx.payload.stateLock.isSome

/-- `types.TransactionRecord`: the bytes of the order and its server metadata. -/
structure TransactionRecord where
  transactionOrder : Bytes
  serverMetadata : ServerMetadata

/-- The server metadata a record starts with. -/
def ServerMetadata.initial : ServerMetadata := ⟨0, [], .successful⟩

/-- `sm.SetError(err)`: the status set to failed and the target units cleared, as the comment at
its call in `doExecute` says (the processing details, which hold the error, are left out). -/
def ServerMetadata.setError (sm : ServerMetadata) : ServerMetadata :=
  { sm with successIndicator := .failed, targetUnits := [] }

/-- The ids of `new` that are not in `seen` nor earlier in `new`, in order. -/
def appendUnique : List Bytes → List Bytes → List Bytes
  | _, [] => []
  | seen, u :: us => if u ∈ seen then appendUnique seen us else u :: appendUnique (u :: seen) us

/-- `appendServerMetadata(sm, smNew)`: the fees added and the target units of `smNew` not yet
listed appended (the first argument is never nil where it is called). -/
def appendServerMetadata (sm : ServerMetadata) : Option ServerMetadata → ServerMetadata
  | none => sm
  | some smNew =>
    { sm with
      actualFee := sm.actualFee + smNew.actualFee
      targetUnits := sm.targetUnits ++ appendUnique sm.targetUnits smNew.targetUnits }

/-! ### The handlers -/

/-- A handler of a module, `TxHandler[A, P]` of `types/executor.go`, over unit data `D`, the
attributes of orders `A`, and the attributes and auth proof it unmarshals. -/
structure TxHandler (D A Attr Proof : Type) where
  /-- `txo.UnmarshalAttributes(attr)` -/
  unmarshalAttributes : TxOrder A → Except TxError Attr
  /-- `txo.UnmarshalAuthProof(authProof)` -/
  unmarshalAuthProof : TxOrder A → Except TxError Proof
  /-- `TargetUnits`, `[tx.UnitID]` unless the module gives its own -/
  targetUnits : TxOrder A → Attr → Proof → Except TxError (List Bytes)
  /-- `Validate`: reads the latest unit map and changes the execution context only -/
  validate : TxOrder A → Attr → Proof → UnitMap Bytes D → EStateM TxError TxExecutionContext Unit
  /-- `Execute`: reads the context and the latest unit map, and returns the new map with the
  server metadata -/
  execute : TxOrder A → Attr → Proof → TxExecutionContext → UnitMap Bytes D →
    Except TxError (UnitMap Bytes D × ServerMetadata)

/-- `types.TxExecutors`: the handlers by transaction type. -/
abbrev TxExecutors (D A Attr Proof : Type) := UInt16 → Option (TxHandler D A Attr Proof)

section Handlers

variable {D A Attr Proof : Type}

/-- `fmt.Errorf("unknown transaction type %d", type)`. -/
def unknownType (txType : UInt16) : TxError := .message s!"unknown transaction type {txType}"

/-- `handler.UnmarshalTx(txo, exeCtx)`: the attributes, the auth proof and the target units. -/
def TxHandler.unmarshalTx (t : TxHandler D A Attr Proof) (tx : TxOrder A) :
    Except TxError (Attr × Proof × List Bytes) :=
  match t.unmarshalAttributes tx with
  | .error e => .error (e.wrap "failed to unmarshal payload")
  | .ok attr =>
    match t.unmarshalAuthProof tx with
    | .error e => .error (e.wrap "failed to unmarshal auth proof")
    | .ok proof =>
      match t.targetUnits tx attr proof with
      | .error e => .error (e.wrap "failed to unmarshal target units")
      | .ok targetUnits => .ok (attr, proof, targetUnits)

/-- `handler.ExecuteTx(txo, exeCtx)`: the order unmarshalled and executed, with no
validation. -/
def TxHandler.executeTx (t : TxHandler D A Attr Proof) (tx : TxOrder A) (ec : TxExecutionContext)
    (M : UnitMap Bytes D) : Except TxError (UnitMap Bytes D × ServerMetadata) :=
  match t.unmarshalAttributes tx with
  | .error e => .error (e.wrap "failed to unmarshal payload")
  | .ok attr =>
    match t.unmarshalAuthProof tx with
    | .error e => .error (e.wrap "failed to unmarshal auth proof")
    | .ok proof => t.execute tx attr proof ec M

namespace TxExecutors

variable (h : TxExecutors D A Attr Proof)

/-- `UnmarshalTx(tx, exeCtx)`. -/
def unmarshalTx (tx : TxOrder A) : Except TxError (Attr × Proof × List Bytes) :=
  match h tx.payload.type with
  | none => .error (unknownType tx.payload.type)
  | some t => t.unmarshalTx tx

/-- `Validate(txo, attr, authProof, exeCtx)`. -/
def validate (tx : TxOrder A) (attr : Attr) (proof : Proof) (M : UnitMap Bytes D) :
    EStateM TxError TxExecutionContext Unit :=
  match h tx.payload.type with
  | none => throw (unknownType tx.payload.type)
  | some t => t.validate tx attr proof M

/-- `ExecuteWithAttr(txo, attr, authProof, exeCtx)`. -/
def executeWithAttr (tx : TxOrder A) (attr : Attr) (proof : Proof) (ec : TxExecutionContext)
    (M : UnitMap Bytes D) : Except TxError (UnitMap Bytes D × ServerMetadata) :=
  match h tx.payload.type with
  | none => .error (unknownType tx.payload.type)
  | some t => t.execute tx attr proof ec M

/-- `Execute(txo, exeCtx)`: the order executed with no validation. -/
def execute (tx : TxOrder A) (ec : TxExecutionContext) (M : UnitMap Bytes D) :
    Except TxError (UnitMap Bytes D × ServerMetadata) :=
  match h tx.payload.type with
  | none => .error (unknownType tx.payload.type)
  | some t =>
    match t.executeTx tx ec M with
    | .error e => .error (e.wrap "transaction order execution failed")
    | .ok r => .ok r

end TxExecutors

end Handlers

/-! ### The state and the context of an execution -/

/-- What an execution changes: the state, and the execution context of the order. -/
structure ExecState (D : Type) where
  state : AbsState Bytes D
  exeCtx : TxExecutionContext

/-- A step of an execution. -/
abbrev TxM (D : Type) := EStateM TxError (ExecState D)

section Lifts

variable {D α : Type}

/-- A result or an error of a function that changes nothing. -/
def ofExcept (x : Except TxError α) : TxM D α := fun s =>
  match x with
  | .ok a => .ok a s
  | .error e => .error e s

/-- A call of the state. -/
def onState (x : AbsM Bytes D String α) : TxM D α := fun s =>
  match x s.state with
  | .ok a st => .ok a { s with state := st }
  | .error e st => .error e { s with state := st }

/-- A call of the execution context. -/
def onCtx (x : EStateM TxError TxExecutionContext α) : TxM D α := fun s =>
  match x s.exeCtx with
  | .ok a ec => .ok a { s with exeCtx := ec }
  | .error e ec => .error e { s with exeCtx := ec }

/-- A call that reads the latest unit map (`GetUnit(id, false)`) and changes the context
only. -/
def withLatest (x : UnitMap Bytes D → EStateM TxError TxExecutionContext α) : TxM D α :=
  fun s =>
    match s.state.savepoints.getLast? with
    | none => .error .panic s
    | some M => onCtx (x M) s

/-- An executor on the latest unit map: the map it returns replaces it. -/
def runExecutor
    (x : TxExecutionContext → UnitMap Bytes D → Except TxError (UnitMap Bytes D × ServerMetadata)) :
    TxM D ServerMetadata := fun s =>
  match s.state.savepoints.getLast? with
  | none => .error .panic s
  | some M =>
    match x s.exeCtx M with
    | .error e => .error e s
    | .ok (M', sm) =>
      .ok sm { s with state := { s.state with savepoints := SavepointStack.setTop M' s.state.savepoints } }

/-- `m.state.Apply(actions...)`. -/
def applyActions (actions : List (Action Bytes D String)) : TxM D Unit :=
  onState (AbsState.change (Action.applyAll actions))

/-- A failure of `x` rolls the state back to the savepoint `savepointID` and is returned
wrapped in `context`. -/
def orRollback (savepointID : Int) (context : String) (x : TxM D α) : TxM D α := fun s =>
  match x s with
  | .ok a s' => .ok a s'
  | .error e s' =>
    match onState (AbsState.rollbackToSavepoint savepointID) s' with
    | .ok () s'' => .error (e.wrap context) s''
    | .error e' s'' => .error e' s''

end Lifts

/-- Whether an error is `avl.ErrAlreadyExists`, through the contexts wrapped around it. -/
def isAlreadyExists {K ε : Type} : StateError K ε → Bool
  | .avl (.alreadyExists _) => true
  | .wrapped _ e => isAlreadyExists e
  | _ => false

/-- Whether an error is `state.ErrUnitAlreadyUnlocked`, through the contexts wrapped around
it. -/
def isUnitAlreadyUnlocked {K ε : Type} : StateError K ε → Bool
  | .unitAlreadyUnlocked => true
  | .wrapped _ e => isUnitAlreadyUnlocked e
  | _ => false

/-! ### The execution -/

/-- What the execution reads beside the state: the modules' handlers, the fee credit module,
and what lies outside the repository. -/
structure TxSystemEnv (D A Attr Proof : Type) where
  handlers : TxExecutors D A Attr Proof
  /-- `m.pr(predicate, args, tx, exeCtx)`, the predicate runner: reads the latest unit map and
  spends gas -/
  pr : Bytes → Bytes → TxOrder A → UnitMap Bytes D → EStateM TxError TxExecutionContext Unit
  /-- `m.fees.IsFeeCreditTx(tx)` -/
  isFeeCreditTx : TxOrder A → Bool
  /-- `m.fees.IsCredible(exeCtx, tx)` -/
  isCredible : TxOrder A → UnitMap Bytes D → EStateM TxError TxExecutionContext Unit
  /-- `m.fees`, the fee calculation -/
  fees : FeeCalculation
  /-- `tx.MarshalCBOR()` -/
  marshal : TxOrder A → Except TxError Bytes
  /-- `types.Cbor.Unmarshal(b, txOnHold)` -/
  unmarshal : Bytes → Except TxError (TxOrder A)
  /-- `txr.Hash(m.hashAlgorithm)` -/
  recordHash : TransactionRecord → Except TxError Bytes
  /-- `tx.StateLock.IsValid()` -/
  stateLockIsValid : Option StateLock → Except TxError Unit
  /-- the hash of a unit log's fields, for `AddUnitLog` -/
  logHash : List (HashItem Bytes D) → Bytes
  /-- `nop.TransactionTypeNOP` -/
  nopType : UInt16
  /-- the fee credit records among the unit data -/
  toFeeCreditRecord : D → Option FeeCreditRecord
  ofFeeCreditRecord : FeeCreditRecord → D

/-- `fc.GeneralTxCostGasUnits`. -/
def generalTxCostGasUnits : UInt64 := 400

/-- `types.ErrOutOfGas`. -/
def GasError.toTxError : GasError → TxError
  | .errOutOfGas => .message "out of gas"

/-- `StateUnlockRollback`. -/
def stateUnlockRollback : UInt8 := 0

/-- `StateUnlockExecute`. -/
def stateUnlockExecute : UInt8 := 1

/-- `StateUnlockProof`. -/
structure StateUnlockProof where
  kind : UInt8
  proof : Bytes

/-- `stateUnlockProofFromTx(tx)`: the first byte of the order's unlock proof is its kind. -/
def stateUnlockProofFromTx {A : Type} (tx : TxOrder A) : Except TxError StateUnlockProof :=
  match tx.payload.stateUnlock with
  | [] => .error (.message "invalid state unlock proof: empty")
  | kind :: proof => .ok ⟨kind, proof⟩

section Execute

variable {D A Attr Proof : Type} (env : TxSystemEnv D A Attr Proof)

/-- `p.check(pr, tx, stateLock, exeCtx)`: the proof satisfies the lock's predicate of its
kind. -/
def StateUnlockProof.check (p : StateUnlockProof) (tx : TxOrder A) (stateLock : Option StateLock)
    (M : UnitMap Bytes D) : EStateM TxError TxExecutionContext Unit :=
  match stateLock with
  | none => throw (.message "StateLock is nil")
  | some lock =>
    if p.kind = stateUnlockExecute then
      EStateM.adaptExcept (·.wrap "state lock\x27s execution predicate failed")
        (env.pr lock.executionPredicate p.proof tx M)
    else if p.kind = stateUnlockRollback then
      EStateM.adaptExcept (·.wrap "state lock\x27s rollback predicate failed")
        (env.pr lock.rollbackPredicate p.proof tx M)
    else throw (.message "invalid state unlock proof kind")

/-- `parseTxOnHold(unitID)`: the order a unit is locked with, `none` for a unit that is absent
or not locked. -/
def parseTxOnHold (unitID : Bytes) : TxM D (Option (TxOrder A)) := fun s =>
  match s.state.savepoints.getLast? with
  | none => .error .panic s
  | some M =>
    match M unitID with
    | none => .ok none s
    | some w =>
      -- `IsStateLocked()`: a non-empty lock
      match w.stateLockTx with
      | none => .ok none s
      | some [] => .ok none s
      | some lockTx =>
        match env.unmarshal lockTx with
        | .error e => .error (e.wrap "failed to unmarshal state lock transaction") s
        | .ok txOnHold => .ok (some txOnHold) s

/-- The body of the loop of the rollback in `executeLockedTx`: the target unit must exist, and a
dummy one is marked for deletion at `round`. -/
def markDummyForDeletion (round : UInt64) (targetUnit : Bytes) : TxM D Unit := fun s =>
  match s.state.savepoints.getLast? with
  | none => .error .panic s
  | some M =>
    match M targetUnit with
    | none =>
      .error ((StateError.avl (.notFound targetUnit)).wrap "failed to find rollback tx target unit") s
    | some w =>
      if w.data.isNone then
        EStateM.adaptExcept (·.wrap "failed to mark rollack tx dummy unit for deletion")
          (applyActions [.markForDeletion targetUnit round]) s
      else .ok () s

/-- The loop of the rollback in `executeLockedTx`. -/
def markDummiesForDeletion (round : UInt64) : List Bytes → TxM D Unit
  | [] => pure ()
  | targetUnit :: rest => do
    markDummyForDeletion round targetUnit
    markDummiesForDeletion round rest

/-- `m.currentRoundNumber`, which the context holds. -/
def currentRoundNumber : TxM D UInt64 := fun s => .ok s.exeCtx.currentRound s

/-- `executeLockedTx(proof, txOnHold, exeCtx)`: the waiting order executed with no validation,
or rolled back: its dummy units marked for deletion at the next round. -/
def executeLockedTx (proof : StateUnlockProof) (txOnHold : TxOrder A) : TxM D ServerMetadata :=
  if proof.kind = stateUnlockExecute then
    EStateM.adaptExcept (·.wrap "failed to execute transaction that was on hold")
      (runExecutor (env.handlers.execute txOnHold))
  else if proof.kind = stateUnlockRollback then
    match env.handlers.unmarshalTx txOnHold with
    | .error e => throw (e.wrap "failed to unmarshal transaction that was on hold for rollback")
    | .ok (_, _, targetUnits) => do
      let round ← currentRoundNumber
      markDummiesForDeletion (round + 1) targetUnits
      pure ⟨0, targetUnits, .successful⟩
  else throw (.message "invalid state unlock proof kind")

/-- The body of the loop of `handleTxOnHold` that unlocks the target units: a unit that is
absent or already unlocked is passed over. -/
def removeStateLock (targetUnit : Bytes) : TxM D Unit := fun s =>
  match applyActions [.removeStateLock targetUnit] s with
  | .ok () s' => .ok () s'
  | .error e s' =>
    if isNotFound e || isUnitAlreadyUnlocked e then .ok () s'
    else .error (e.wrap "failed to release state lock for unit") s'

/-- The loop of `handleTxOnHold` that unlocks the target units. -/
def removeStateLocks : List Bytes → TxM D Unit
  | [] => pure ()
  | targetUnit :: rest => do
    removeStateLock targetUnit
    removeStateLocks rest

/-- `handleTxOnHold(tx, txOnHold, exeCtx)`: an order waiting on a unit is executed or rolled
back as the unlock proof of `tx` says, and its target units are unlocked. -/
def handleTxOnHold (tx : TxOrder A) : Option (TxOrder A) → TxM D (Option ServerMetadata)
  | none => pure none
  | some txOnHold => do
    let proof ← ofExcept (match stateUnlockProofFromTx tx with
      | .error e => .error (e.wrap "unlock proof error")
      | .ok p => .ok p)
    withLatest fun M =>
      EStateM.adaptExcept (·.wrap "unlock error") (proof.check env tx txOnHold.payload.stateLock M)
    let sm ← executeLockedTx env proof txOnHold
    if sm.targetUnits.isEmpty then
      throw (.message
        "failed to execute txOnHold: TxHandler returned nil server metadata or no target units")
    else
      removeStateLocks sm.targetUnits
      pure (some sm)

/-- `handleUnlockUnitState(tx, unitID, exeCtx)`. -/
def handleUnlockUnitState (tx : TxOrder A) (unitID : Bytes) : TxM D (Option ServerMetadata) := do
  let txOnHold ← EStateM.adaptExcept (·.wrap "failed to parse txOnHold") (parseTxOnHold env unitID)
  handleTxOnHold env tx txOnHold

/-- `AddDummyUnit` in the loop of `executeLockUnitState`: an existing unit is no error. -/
def addDummyUnitIfAbsent (targetUnit : Bytes) : TxM D Unit := fun s =>
  match applyActions [.addDummyUnit targetUnit] s with
  | .ok () s' => .ok () s'
  | .error e s' =>
    if isAlreadyExists e then .ok () s' else .error (e.wrap "failed to add dummy unit") s'

/-- The loop of `executeLockUnitState`: every target unit, added as a dummy unit when absent,
is locked with the bytes of the order. -/
def lockUnits (txBytes : Bytes) : List Bytes → TxM D Unit
  | [] => pure ()
  | targetUnit :: rest => do
    addDummyUnitIfAbsent targetUnit
    EStateM.adaptExcept (·.wrap "state lock: failed to lock the state")
      (applyActions [.setStateLock targetUnit (some txBytes)])
    lockUnits txBytes rest

/-- `executeLockUnitState(tx, txBytes, targetUnits, exeCtx)`. -/
def executeLockUnitState (tx : TxOrder A) (txBytes : Bytes) (targetUnits : List Bytes) :
    TxM D ServerMetadata := do
  ofExcept (match env.stateLockIsValid tx.payload.stateLock with
    | .error e => .error (e.wrap "invalid state lock parameter")
    | .ok () => .ok ())
  lockUnits txBytes targetUnits
  pure ⟨1, targetUnits, .successful⟩

/-- The loop of `doExecute` over the target units: each is unlocked, and what unlocking it
returns is added to the server metadata. -/
def unlockTargetUnits (tx : TxOrder A) : List Bytes → ServerMetadata → TxM D ServerMetadata
  | [], sm => pure sm
  | targetUnit :: rest, sm => do
    let sm' ← EStateM.adaptExcept (·.wrap "unit state unlock error")
      (handleUnlockUnitState env tx targetUnit)
    unlockTargetUnits tx rest (appendServerMetadata sm sm')

/-- The body of `doExecute`, before its deferred function: the server metadata the order
builds, or the error it records as `txExecErr`. -/
def doExecuteBody (tx : TxOrder A) (txBytes : Bytes) : TxM D ServerMetadata :=
  match env.handlers.unmarshalTx tx with
  | .error e => throw (e.wrap "failed to unmarshal transaction")
  | .ok (attr, proof, targetUnits) => do
    -- check conditional state unlock and release it
    let sm ← unlockTargetUnits env tx targetUnits .initial
    let txType := tx.payload.type
    EStateM.adaptExcept (·.wrap s!"transaction validation error (type={txType})")
      (withLatest (env.handlers.validate tx attr proof))
    if tx.hasStateLock then
      let sm' ← EStateM.adaptExcept (·.wrap "unit state lock error")
        (executeLockUnitState env tx txBytes targetUnits)
      pure (appendServerMetadata sm (some sm'))
    else
      let sm' ← EStateM.adaptExcept (·.wrap "execute error")
        (runExecutor (env.handlers.executeWithAttr tx attr proof))
      pure (appendServerMetadata sm (some sm'))

/-- `unit.DecrCredit(id, value)`. -/
def decrCreditAction (id : Bytes) (value : UInt64) : Action Bytes D String :=
  .updateUnitData id (some fun data =>
    match data.bind env.toFeeCreditRecord with
    | none => .error "unit does not contain fee credit record"
    | some fcr =>
      match decrCredit value fcr with
      | .error e => .error e
      | .ok fcr' => .ok (some (env.ofFeeCreditRecord fcr')))

/-- `m.state.AddUnitLog(id, txrHash)`. -/
def addUnitLog (id : Bytes) (txrHash : Bytes) : TxM D Unit :=
  onState (AbsState.change (UnitMap.addUnitLog (fun (_ : Unit) => env.logHash) () id (some txrHash)))

/-- The loop of the deferred function that adds a log to every target unit; a failure rolls
back to the savepoint. -/
def addUnitLogs (txr : TransactionRecord) (savepointID : Int) : List Bytes → TxM D Unit
  | [] => pure ()
  | targetID :: rest => do
    let txrHash ← orRollback savepointID "hashing transaction record" (ofExcept (env.recordHash txr))
    orRollback savepointID "adding unit log" (addUnitLog env targetID txrHash)
    addUnitLogs txr savepointID rest

/-- `exeCtx.CalculateCost()`. -/
def calculateCost : TxM D UInt64 := fun s => .ok s.exeCtx.calculateCost s

/-- The deferred function of `doExecute`: the fee the context has counted is debited from the
fee credit record of the order, a log is added to every target unit, and the savepoint is
released. -/
def doExecuteDefer (tx : TxOrder A) (txBytes : Bytes) (savepointID : Int) (sm : ServerMetadata) :
    TxM D TransactionRecord := do
  let fee ← calculateCost
  let feeCreditRecordID := tx.payload.feeCreditRecordID
  let sm ← if 0 < fee then do
      orRollback savepointID "handling transaction fee"
        (applyActions [decrCreditAction env feeCreditRecordID fee])
      pure { sm with actualFee := fee, targetUnits := sm.targetUnits ++ [feeCreditRecordID] }
    else pure { sm with actualFee := fee }
  let txr : TransactionRecord := ⟨txBytes, sm⟩
  addUnitLogs env txr savepointID sm.targetUnits
  onState (AbsState.releaseToSavepoint savepointID)
  pure txr

/-- `x`, then `k` on its result or `handler` on its error, from the state it leaves: a Go
function that records an error and goes on. -/
def recordingError {α β : Type} (x : TxM D α) (k : α → TxM D β) (handler : TxError → TxM D β) : TxM D β :=
  fun s =>
    match x s with
    | .ok a s' => k a s'
    | .error e s' => handler e s'

/-- `doExecute(tx, exeCtx)`. -/
def doExecute (tx : TxOrder A) : TxM D TransactionRecord := do
  let txBytes ← ofExcept (match env.marshal tx with
    | .error e => .error (e.wrap "marshalling transaction")
    | .ok b => .ok b)
  let savepointID ← EStateM.adaptExcept (·.wrap "savepoint error") (onState AbsState.savepoint)
  recordingError (doExecuteBody env tx txBytes) (doExecuteDefer env tx txBytes savepointID)
    -- `txExecErr`: the status set to failed and every change of the order rolled back
    fun _ => do
      onState (AbsState.rollbackToSavepoint savepointID)
      doExecuteDefer env tx txBytes savepointID ServerMetadata.initial.setError

/-- The loop of `executeFc` that adds a log to the target units of its executor. -/
def addFcUnitLogs (savepointID : Int) (trHash : Bytes) : List Bytes → TxM D Unit
  | [] => pure ()
  | targetID :: rest => do
    orRollback savepointID "adding unit log" (addUnitLog env targetID trHash)
    addFcUnitLogs savepointID trHash rest

/-- `executeFc(tx, exeCtx)`: a fee credit order, refused on a unit waiting for an order other
than a NOP, and executed under a savepoint that any failure rolls back to. -/
def executeFc (tx : TxOrder A) : TxM D TransactionRecord :=
  if tx.payload.stateLock.isSome then throw (.message "error fc transaction contains state lock")
  else do
  let txOnHold ← EStateM.adaptExcept (·.wrap "failed to parse txOnHold") (parseTxOnHold env tx.unitID)
  if txOnHold.any fun t => t.payload.type ≠ env.nopType then
    throw (.message "target unit is locked with a non-trivial (non-NOP) transaction")
  else
  match env.handlers.unmarshalTx tx with
  | .error e => throw (e.wrap "failed to unmarshal transaction")
  | .ok (attr, proof, _) => do
    EStateM.adaptExcept (·.wrap "failed to validate transaction")
      (withLatest (env.handlers.validate tx attr proof))
    let txBytes ← ofExcept (match env.marshal tx with
      | .error e => .error (e.wrap "marshalling transaction")
      | .ok b => .ok b)
    let savepointID ← EStateM.adaptExcept (·.wrap "savepoint error") (onState AbsState.savepoint)
    let sm₀ ← orRollback savepointID "unit state unlock error" (handleTxOnHold env tx txOnHold)
    let sm ← orRollback savepointID "execute error"
      (runExecutor (env.handlers.executeWithAttr tx attr proof))
    let tr : ServerMetadata := appendServerMetadata (appendServerMetadata .initial sm₀) (some sm)
    let trHash ← orRollback savepointID "hashing transaction record"
      (ofExcept (env.recordHash ⟨txBytes, tr⟩))
    addFcUnitLogs env savepointID trHash sm.targetUnits
    onState (AbsState.releaseToSavepoint savepointID)
    pure ⟨txBytes, tr⟩

/-- The part of `Execute(tx)` after the generic validation, in the execution context of the
order: the gas its `MaxFee` buys pays `snFees`, and then `executeFc` runs for a fee credit
order, or `IsCredible` and `doExecute` for the others. -/
def executeInContext (tx : TxOrder A) : TxM D TransactionRecord := do
  EStateM.adaptExcept (·.wrap "error transaction snFees")
    (onCtx (EStateM.adaptExcept GasError.toTxError (TxExecutionContext.spendGas generalTxCostGasUnits)))
  if env.isFeeCreditTx tx then
    EStateM.adaptExcept (·.wrap "execute fc error") (executeFc env tx)
  else do
    EStateM.adaptExcept (·.wrap "error transaction not credible") (withLatest (env.isCredible tx))
    EStateM.adaptExcept (·.wrap "execute error") (doExecute env tx)

/-- What `Execute(tx)` hands on after the generic validation, at the round `currentRound`: the
steps run in a new execution context (`NewExecutionContext(m, m.fees, tx.MaxFee())`), which is
then dropped. -/
def process (currentRound : UInt64) (tx : TxOrder A) :
    EStateM TxError (AbsState Bytes D) TransactionRecord := fun st =>
  match executeInContext env tx ⟨st, TxExecutionContext.new currentRound env.fees tx.payload.maxFee⟩ with
  | .ok r s => .ok r s.state
  | .error e s => .error e s.state

end Execute

end BftCore.Txsystem
