import BftCore.Txsystem.Tokens
import BftCore.Lib.Except

/-!
# `txsystem/money`: the bills of the money partition and the orders that move their value

The units of the money partition are bills (`money.BillData`: a value, an owner predicate and
a counter) and fee credit records.  The money module (`money_module.go`) has a handler for each
kind of order, a validator and an executor; the validator reads the latest unit map and may
leave data in the execution context, and the executor changes the map by actions of the state:

* `transfer` gives a bill a new owner;
* `split` takes amounts off a bill into new bills, whose ids the generator of the order gives
  (`money.PrndSh(tx)`, one id a call);
* `transDC` gives the whole value of a bill to the money supply bill of the dust collector
  (`DustCollectorMoneySupplyID`), and leaves the bill empty and owned by the dust collector;
* `swapDC` moves from the dust collector's bill to a bill the sum of the dust transfers made
  out to it at its counter, which the validator checks, adds up and leaves in the context;
* `transferFC` takes an amount off a bill for fee credit in another partition;
* `nop` increments the counter of a unit.

Every validator checks the order against the counter of the unit, and every executor
increments the counter of the bill it changes (`nop` leaves a dummy unit as it is).

What the module reads outside the state (the predicate runner, the partition description, the
trust base through `VerifyTxProof`, the id generator, the constants of `bft-go-base`) is a
parameter, `Module`.  The auth proof of every order is an owner proof, so the handlers decode
the same `MoneyAuthProof`; the fee proof of an order, which only `transferFC` reads, travels
with its attributes.  The `reclaimFC` handler is not part of `txHandlers`: its validator and
executor are those of `Txsystem.Fees`.  What `transferFC` records for the end of the block is
left out: the consolidation that reads it is not among the module's `EndBlockFuncs`.
-/

namespace BftCore.Txsystem.Money

open BftCore.State (Bytes StateError UnitMap UnitView Action UpdateFunction)
open EStateM

/-! ### The unit data -/

/-- The unit data of the money partition. -/
inductive MoneyUnitData where
  | bill (d : BillData)
  | feeCreditRecord (d : FeeCreditRecord)

/-- `data.(*money.BillData)`. -/
def MoneyUnitData.toBill : MoneyUnitData → Option BillData
  | .bill d => some d
  | .feeCreditRecord _ => none

/-- `unitData.Owner()`. -/
def MoneyUnitData.owner : MoneyUnitData → Bytes
  | .bill d => d.ownerPredicate
  | .feeCreditRecord d => d.ownerPredicate

/-- `money.NewBillData(value, ownerPredicate)`: a new bill, at counter `0`. -/
def newBillData (value : UInt64) (ownerPredicate : Bytes) : BillData := ⟨value, ownerPredicate, 0⟩

/-- `money.TransferAttributes`. -/
structure TransferAttributes where
  newOwnerPredicate : Bytes
  targetValue : UInt64
  counter : UInt64

/-- `money.TargetUnit`. -/
structure TargetUnit where
  amount : UInt64
  ownerPredicate : Bytes

/-- `money.SplitAttributes`: a target unit is a pointer, which may be nil. -/
structure SplitAttributes where
  targetUnits : List (Option TargetUnit)
  counter : UInt64

/-- `money.TransferDCAttributes`. -/
structure TransferDCAttributes where
  value : UInt64
  targetUnitID : Bytes
  targetUnitCounter : UInt64
  counter : UInt64

/-- The order a dust transfer proof is for, as `GetTransactionOrderV1` gives it: the fields
`verifyDustTransfer` reads, and its attributes as `UnmarshalAttributes` reads them. -/
structure DustTransferOrder where
  networkID : UInt16
  partitionID : UInt32
  type : UInt16
  unitID : Bytes
  attributes : Except String TransferDCAttributes

/-- `types.TxRecordProof` of a dust transfer, as `verifyDustTransfer` reads it. -/
structure DustTransferProof where
  /-- `IsValid()` -/
  isValid : Except String Unit
  /-- `GetTransactionOrderV1()` -/
  transactionOrder : Except String DustTransferOrder

/-- `money.SwapDCAttributes`. -/
structure SwapDCAttributes where
  dustTransferProofs : List DustTransferProof

/-- `fc.TransferFeeCreditAttributes`, with the counter of the bill the amount is taken from. -/
structure TransferFCAttributes extends TransferFeeCreditAttributes where
  counter : UInt64

/-- The attributes of the orders of the module, as the handlers decode them. -/
inductive MoneyAttributes where
  | transfer (a : TransferAttributes)
  | split (a : SplitAttributes)
  | transDC (a : TransferDCAttributes)
  | swapDC (a : SwapDCAttributes)
  | transferFC (a : TransferFCAttributes)
  | nop (a : Tokens.NopAttributes)

/-- The auth proof of the module's orders: an owner proof, which may be nil. -/
structure MoneyAuthProof where
  ownerProof : Option Bytes

/-- The attributes and the auth proof of an order, and its fee proof (`tx.FeeProof`). -/
structure MoneyTx where
  attributes : MoneyAttributes
  authProof : MoneyAuthProof
  feeProof : Option Bytes

/-- The handlers of the module. -/
abbrev MoneyHandler := TxHandler MoneyUnitData MoneyTx MoneyAttributes MoneyAuthProof

/-- What the money module reads outside the state. -/
structure Module where
  /-- `m.execPredicate(predicate, proof, tx, exeCtx)`: reads the latest unit map and spends
  gas -/
  execPredicate : Bytes → Bytes → TxOrder MoneyTx → UnitMap Bytes MoneyUnitData →
    EStateM TxError TxExecutionContext Unit
  /-- `m.pdr.NetworkID` -/
  networkID : UInt16
  /-- `m.pdr.PartitionID` -/
  partitionID : UInt32
  /-- `m.pdr.ComposeUnitID(types.ShardID{}, money.BillUnitType, idGen)` at the `i`-th call of
  the generator `idGen := money.PrndSh(tx)` -/
  composeUnitID : TxOrder MoneyTx → Nat → Except String Bytes
  /-- `types.VerifyTxProof(proof, m.trustBase, m.hashAlgorithm)` -/
  verifyTxProof : DustTransferProof → Except String Unit
  /-- `DustCollectorMoneySupplyID` -/
  dustCollectorMoneySupplyID : Bytes
  /-- `DustCollectorPredicate` -/
  dustCollectorPredicate : Bytes
  /-- `money.TransactionTypeTransfer` -/
  transferType : UInt16
  /-- `money.TransactionTypeSplit` -/
  splitType : UInt16
  /-- `money.TransactionTypeTransDC` -/
  transDCType : UInt16
  /-- `money.TransactionTypeSwapDC` -/
  swapDCType : UInt16
  /-- `fc.TransactionTypeTransferFeeCredit` -/
  transferFCType : UInt16
  /-- `nop.TransactionTypeNOP` -/
  nopType : UInt16
  /-- `%v` and `%s` of a unit id -/
  hex : Bytes → String

/-! ### What the handlers share -/

/-- `unit, err := m.state.GetUnit(id, false)` and `bd, ok := unit.Data().(*money.BillData)`:
the caller goes on with the bill; `notFound` is what it returns for the error of `GetUnit`, and
`notBill` what it returns for data that is not a bill. -/
def withBill {α : Type} (M : UnitMap Bytes MoneyUnitData) (id : Bytes) (notFound : TxError → TxError)
    (notBill : TxError) (k : BillData → EStateM TxError TxExecutionContext α) :
    EStateM TxError TxExecutionContext α :=
  match M id with
  | none => throw (notFound (.avl (.notFound id)))
  | some u =>
    match u.data.bind MoneyUnitData.toBill with
    | none => throw notBill
    | some bd => k bd

/-- `m.state.Apply(actions...)`, its error wrapped in `context`, and the server metadata the
executor returns after it. -/
def runActions (context : String) (actions : List (Action Bytes MoneyUnitData String))
    (sm : ServerMetadata) (M : UnitMap Bytes MoneyUnitData) :
    Except TxError (UnitMap Bytes MoneyUnitData × ServerMetadata) :=
  match Action.applyAll actions M with
  | .error e => .error (e.wrap context)
  | .ok M' => .ok (M', sm)

/-- `ErrInvalidCounter`. -/
def errInvalidCounter : TxError := .message "the transaction counter is not equal to the unit counter"

namespace Module

variable (m : Module)

/-- `m.execPredicate(owner, authProof.OwnerProof, tx, exeCtx)`, its error wrapped in `context`;
a nil owner proof is the empty argument. -/
def execOwner (context : String) (owner : Bytes) (tx : TxOrder MoneyTx) (authProof : MoneyAuthProof)
    (M : UnitMap Bytes MoneyUnitData) : EStateM TxError TxExecutionContext Unit :=
  adaptExcept (·.wrap context) (m.execPredicate owner (authProof.ownerProof.getD []) tx M)

/-- The update functions of the executors: the bill of the unit `id` changed by `f`; data that is
not a bill is an error. -/
def updateBill (id : Bytes) (f : BillData → BillData) : UpdateFunction MoneyUnitData String
  | some (.bill bd) => .ok (some (.bill (f bd)))
  | _ =>
    let unitID := m.hex id
    .error s!"unit {unitID} does not contain bill data"

/-! ### `transfer` and `transDC` -/

/-- The checks `validateTrans` and `validateTransDC` share: the bill's counter and value are
those of the order, and its owner predicate accepts the owner proof. -/
def checkBill (tx : TxOrder MoneyTx) (counter value : UInt64) (authProof : MoneyAuthProof)
    (M : UnitMap Bytes MoneyUnitData) : EStateM TxError TxExecutionContext Unit :=
  withBill M tx.unitID (fun e => e) (.message "invalid unit data type") fun unitData =>
    if unitData.counter ≠ counter then
      throw (.message "the transaction counter is not equal to the bill counter")
    else if unitData.value ≠ value then
      throw (.message "the transaction value is not equal to the bill value")
    else m.execOwner "evaluating owner predicate" unitData.ownerPredicate tx authProof M

/-- `validateTrans(tx, attr, authProof, exeCtx)`. -/
def validateTrans (tx : TxOrder MoneyTx) (attr : TransferAttributes) (authProof : MoneyAuthProof)
    (M : UnitMap Bytes MoneyUnitData) : EStateM TxError TxExecutionContext Unit :=
  m.checkBill tx attr.counter attr.targetValue authProof M

/-- `validateTransferTx(tx, attr, authProof, exeCtx)`. -/
def validateTransferTx (tx : TxOrder MoneyTx) (attr : TransferAttributes)
    (authProof : MoneyAuthProof) (M : UnitMap Bytes MoneyUnitData) :
    EStateM TxError TxExecutionContext Unit :=
  adaptExcept (·.wrap "transfer validation error") (m.validateTrans tx attr authProof M)

/-- `executeTransferTx(tx, attr, authProof, exeCtx)`: the bill gets the new owner. -/
def executeTransferTx (tx : TxOrder MoneyTx) (attr : TransferAttributes)
    (M : UnitMap Bytes MoneyUnitData) :
    Except TxError (UnitMap Bytes MoneyUnitData × ServerMetadata) :=
  runActions "transfer: failed to update state"
    [.updateUnitData tx.unitID (some (m.updateBill tx.unitID fun bd =>
      { bd with counter := bd.counter + 1, ownerPredicate := attr.newOwnerPredicate }))]
    ⟨0, [tx.unitID], .successful⟩ M

/-- `validateTransDC(tx, attr, authProof, exeCtx)`: the checks of `validateTrans`, for an order
without a state lock. -/
def validateTransDC (tx : TxOrder MoneyTx) (attr : TransferDCAttributes)
    (authProof : MoneyAuthProof) (M : UnitMap Bytes MoneyUnitData) :
    EStateM TxError TxExecutionContext Unit :=
  if tx.hasStateLock then throw (.message "transDC transaction cannot contain state lock")
  else m.checkBill tx attr.counter attr.value authProof M

/-- `validateTransferDCTx(tx, attr, authProof, exeCtx)`. -/
def validateTransferDCTx (tx : TxOrder MoneyTx) (attr : TransferDCAttributes)
    (authProof : MoneyAuthProof) (M : UnitMap Bytes MoneyUnitData) :
    EStateM TxError TxExecutionContext Unit :=
  adaptExcept (·.wrap "validateTransferDC error") (m.validateTransDC tx attr authProof M)

/-- `executeTransferDCTx(tx, attr, authProof, exeCtx)`: the bill is emptied and given to the
dust collector, whose money supply grows by the order's value. -/
def executeTransferDCTx (tx : TxOrder MoneyTx) (attr : TransferDCAttributes)
    (M : UnitMap Bytes MoneyUnitData) :
    Except TxError (UnitMap Bytes MoneyUnitData × ServerMetadata) :=
  let unitID := tx.unitID
  let dc := m.dustCollectorMoneySupplyID
  runActions "transferDC: failed to update state"
    [.updateUnitData unitID (some (m.updateBill unitID fun bd =>
      { bd with value := 0, ownerPredicate := m.dustCollectorPredicate, counter := bd.counter + 1 })),
     .updateUnitData dc (some (m.updateBill dc fun bd => { bd with value := bd.value + attr.value }))]
    ⟨0, [unitID, dc], .successful⟩ M

/-! ### `split` -/

/-- The check of a target unit, with its index, in the loop of `validateSplit`: the sum so far
with its amount added. -/
def checkTargetUnit (sum : UInt64) : Option TargetUnit × Nat → Except TxError UInt64
  | (none, i) => .error (.message s!"target unit is nil at index {i}")
  | (some targetUnit, i) =>
    if targetUnit.amount = 0 then .error (.message s!"target unit amount is zero at index {i}")
    else if targetUnit.ownerPredicate.isEmpty then
      .error (.message s!"target unit owner predicate is empty at index {i}")
    else
      let (sum', ok) := safeAdd sum targetUnit.amount
      if !ok then .error (.message "overflow when summing target unit amounts") else .ok sum'

/-- `validateSplit(data, attr)`. -/
def validateSplit (data : Option MoneyUnitData) (attr : SplitAttributes) : Except TxError Unit :=
  match data.bind MoneyUnitData.toBill with
  | none => .error (.message "invalid data type, unit is not of BillData type")
  | some bd =>
    if bd.counter ≠ attr.counter then .error errInvalidCounter
    else if attr.targetUnits.isEmpty then .error (.message "target units are empty")
    else
      match attr.targetUnits.zipIdx.foldlM checkTargetUnit 0 with
      | .error e => .error e
      | .ok sum =>
        let billValue := bd.value
        if sum ≥ billValue then
          .error (.message s!"the sum of the values to be transferred must be less than the value of the bill; sum={sum} billValue={billValue}")
        else .ok ()

/-- `validateSplitTx(tx, attr, authProof, exeCtx)`. -/
def validateSplitTx (tx : TxOrder MoneyTx) (attr : SplitAttributes) (authProof : MoneyAuthProof)
    (M : UnitMap Bytes MoneyUnitData) : EStateM TxError TxExecutionContext Unit :=
  match M tx.unitID with
  | none => throw (.avl (.notFound tx.unitID))
  | some u =>
    let unitData := u.data
    match validateSplit unitData attr with
    | .error e => throw (e.wrap "split error")
    | .ok () =>
      m.execOwner "evaluating owner predicate" ((unitData.map MoneyUnitData.owner).getD []) tx
        authProof M

/-- The `i`-th new bill id of an order, as `executeSplitTx` and `splitTxTargetUnits` generate
it. -/
def newBillID (tx : TxOrder MoneyTx) (i : Nat) : Except TxError Bytes :=
  match m.composeUnitID tx i with
  | .error e => .error (.wrapped "failed to generate new bill id" (.message e))
  | .ok newUnitID => .ok newUnitID

/-- `splitTxTargetUnits(tx, attr, authProof, exeCtx)`: the unit of the order, then a new bill
id for each target unit. -/
def splitTxTargetUnits (tx : TxOrder MoneyTx) (attr : SplitAttributes) :
    Except TxError (List Bytes) :=
  attr.targetUnits.zipIdx.foldlM (fun targetUnits (_, i) => do
    let newUnitID ← m.newBillID tx i
    pure (targetUnits ++ [newUnitID])) [tx.unitID]

/-- The state of the loop of `executeSplitTx`: the target unit ids, the actions that add the
new bills, and the sum of their amounts. -/
structure SplitLoop where
  targetUnitIDs : List Bytes
  actions : List (Action Bytes MoneyUnitData String)
  sum : UInt64

/-- The body of the loop of `executeSplitTx`, on a target unit and its index. -/
def splitStep (tx : TxOrder MoneyTx) (acc : SplitLoop) :
    Option TargetUnit × Nat → Except TxError SplitLoop
  | (targetUnit, i) =>
    match m.newBillID tx i with
    | .error e => .error e
    | .ok newUnitID =>
      match targetUnit with
      -- `targetUnit.Amount` of a nil target unit
      | none => .error .panic
      | some targetUnit =>
        let newUnitData := newBillData targetUnit.amount targetUnit.ownerPredicate
        let (sum, ok) := safeAdd acc.sum targetUnit.amount
        if !ok then .error (.message "overflow when summing target unit amounts")
        else .ok ⟨acc.targetUnitIDs ++ [newUnitID],
          acc.actions ++ [.addOrPromoteUnit newUnitID (some (.bill newUnitData))], sum⟩

/-- `executeSplitTx(tx, attr, authProof, exeCtx)`: the new bills are added, and the sum of
their amounts taken off the bill. -/
def executeSplitTx (tx : TxOrder MoneyTx) (attr : SplitAttributes)
    (M : UnitMap Bytes MoneyUnitData) :
    Except TxError (UnitMap Bytes MoneyUnitData × ServerMetadata) :=
  let unitID := tx.unitID
  match attr.targetUnits.zipIdx.foldlM (m.splitStep tx) ⟨[unitID], [], 0⟩ with
  | .error e => .error e
  | .ok loop =>
    let sum := loop.sum
    runActions "state update failed"
      (loop.actions ++ [.updateUnitData unitID (some (m.updateBill unitID fun bd =>
        { bd with value := bd.value - sum, counter := bd.counter + 1 }))])
      ⟨0, loop.targetUnitIDs, .successful⟩ M

/-! ### `swapDC` -/

/-- The check of `verifyDustTransfer` that the dust transfers are listed in strictly increasing
order of bill ids, against the one before: `bytes.Compare(dcTxo.UnitID, txo.UnitID) != 1`,
bytes comparing lexicographically. -/
def checkPrevious (prev : Option DustTransferProof) (dcTxo : DustTransferOrder) :
    Except TxError Unit :=
  match prev with
  | none => .ok ()
  | some prevDustTransfer =>
    match prevDustTransfer.transactionOrder with
    | .error e => .error (.wrapped "failed to get previous dust transfer transaction order" (.message e))
    | .ok txo =>
      if ¬ txo.unitID < dcTxo.unitID then
        .error (.message "dust transfer orders are not listed in strictly increasing order of bill identifiers")
      else .ok ()

/-- `verifyDustTransfer(dcProof, prevDustTransfer, targetUnitID, targetUnitCounter)`: the value
of a dust transfer made out to the bill at its counter. -/
def verifyDustTransfer (dcProof : DustTransferProof) (prev : Option DustTransferProof)
    (targetUnitID : Bytes) (targetUnitCounter : UInt64) : Except TxError UInt64 :=
  match dcProof.isValid with
  | .error e => .error (.message e)
  | .ok () =>
  match dcProof.transactionOrder with
  | .error e => .error (.wrapped "failed to get transaction order" (.message e))
  | .ok dcTxo =>
  match dcTxo.attributes with
  | .error e => .error (.wrapped "invalid TransferDC attributes" (.message e))
  | .ok dcAttr =>
  let expectedNetworkID := m.networkID
  let expectedPartitionID := m.partitionID
  let providedPartitionID := dcTxo.partitionID
  -- the message of a wrong network names the partition of the dust transfer
  if dcTxo.networkID ≠ expectedNetworkID then
    .error (.message s!"dust transfer invalid network: expected {expectedNetworkID} vs provided {providedPartitionID}")
  else if providedPartitionID ≠ expectedPartitionID then
    .error (.message s!"dust transfer partition id is not money partition partition id: expected {expectedPartitionID} vs provided {providedPartitionID}")
  else if dcTxo.type ≠ m.transDCType then
    let dcType := dcTxo.type
    .error (.message s!"invalid transfer DC transaction type: {dcType}")
  else
  match checkPrevious prev dcTxo with
  | .error e => .error e
  | .ok () =>
  if dcAttr.targetUnitID ≠ targetUnitID then
    .error (.message "dust transfer order target unit id is not equal to swap transaction unit id")
  else if dcAttr.targetUnitCounter ≠ targetUnitCounter then
    let providedCounter := dcAttr.targetUnitCounter
    .error (.message s!"dust transfer target counter is not equal to target unit counter: expected {targetUnitCounter} vs provided {providedCounter}")
  else .ok dcAttr.value

/-- The body of the loop of `verifyDustTransfers`, on a dust transfer and its index; the state
of the loop is the dust transfer before and the sum so far. -/
def dustStep (targetUnitID : Bytes) (targetUnitCounter : UInt64)
    (acc : Option DustTransferProof × UInt64) :
    DustTransferProof × Nat → Except TxError (Option DustTransferProof × UInt64)
  | (dcProof, i) =>
    match m.verifyDustTransfer dcProof acc.1 targetUnitID targetUnitCounter with
    | .error e => .error (e.wrap s!"failed to verify dust transfer at index {i}")
    | .ok dcVal =>
      let (dcSum, ok) := safeAdd acc.2 dcVal
      if !ok then .error (.message "dust transfer transaction sum overflow")
      else .ok (some dcProof, dcSum)

/-- `verifyDustTransfers(dustTransferProofs, targetUnitID, targetUnitCounter)`: the sum of the
values of the dust transfers. -/
def verifyDustTransfers (dustTransferProofs : List DustTransferProof) (targetUnitID : Bytes)
    (targetUnitCounter : UInt64) : Except TxError UInt64 :=
  Prod.snd <$> dustTransferProofs.zipIdx.foldlM (m.dustStep targetUnitID targetUnitCounter) (none, 0)

/-- The loop of `validateSwapTx` that verifies the proofs of the dust transfers. -/
def verifyDustTransferProofs (dustTransferProofs : List DustTransferProof) : Except TxError Unit :=
  dustTransferProofs.zipIdx.forM fun (proof, i) =>
    match m.verifyTxProof proof with
    | .error e => .error (.wrapped s!"dust transfer proof is not valid at index {i}" (.message e))
    | .ok () => .ok ()

/-- `validateSwapTx(tx, attr, authProof, exeCtx)`: the sum of the dust transfers is left in
the context for the executor. -/
def validateSwapTx (tx : TxOrder MoneyTx) (attr : SwapDCAttributes) (authProof : MoneyAuthProof)
    (M : UnitMap Bytes MoneyUnitData) : EStateM TxError TxExecutionContext Unit :=
  if tx.hasStateLock then throw (.message "swapDC transaction cannot contain state lock")
  else
    withBill M tx.unitID (·.wrap "target unit error") (.message "target unit invalid data type")
      fun billData => do
        m.execOwner "swap transaction predicate validation failed" billData.ownerPredicate tx
          authProof M
        match m.verifyDustTransfers attr.dustTransferProofs tx.unitID billData.counter with
        | .error e => throw (e.wrap "dust transaction verification failed")
        | .ok dcSum =>
          withBill M m.dustCollectorMoneySupplyID (·.wrap "DC-money supply unit error")
            (.message "DC-money supply invalid data type") fun dcMoneySupplyBill =>
              if dcMoneySupplyBill.value < dcSum then throw (.message "insufficient DC-money supply")
              else
                match m.verifyDustTransferProofs attr.dustTransferProofs with
                | .error e => throw e
                | .ok () => modify fun exeCtx => { exeCtx with customData := uint64ToBytes dcSum }

/-- `executeSwapTx(tx, attr, authProof, exeCtx)`: the amount the validator left in the context
moves from the dust collector's bill to the bill of the order. -/
def executeSwapTx (tx : TxOrder MoneyTx) (exeCtx : TxExecutionContext)
    (M : UnitMap Bytes MoneyUnitData) :
    Except TxError (UnitMap Bytes MoneyUnitData × ServerMetadata) :=
  let swapAmount := bytesToUint64 exeCtx.customData
  let dc := m.dustCollectorMoneySupplyID
  runActions "unit update failed"
    [.updateUnitData dc (some (m.updateBill dc fun bd => { bd with value := bd.value - swapAmount })),
     .updateUnitData tx.unitID (some (m.updateBill tx.unitID fun bd =>
      { bd with value := bd.value + swapAmount, counter := bd.counter + 1 }))]
    ⟨0, [tx.unitID, dc], .successful⟩ M

/-! ### `transferFC` -/

/-- `validateTransferFCTx(tx, attr, authProof, exeCtx)`. -/
def validateTransferFCTx (tx : TxOrder MoneyTx) (attr : TransferFCAttributes)
    (authProof : MoneyAuthProof) (M : UnitMap Bytes MoneyUnitData) :
    EStateM TxError TxExecutionContext Unit :=
  let unitID := m.hex tx.unitID
  withBill M tx.unitID (fun _ => .message s!"unit not found {unitID}") (.message "invalid unit type")
    fun billData =>
      if attr.targetPartitionID = 0 then throw (.message "TargetPartitionID is empty")
      else if attr.targetRecordID.isEmpty then throw (.message "TargetRecordID is empty")
      else if attr.amount > billData.value then
        throw (.message "the amount to transfer cannot exceed the value of the bill")
      else if tx.payload.maxFee > attr.amount then
        throw (.message "the transaction max fee cannot exceed the transferred amount")
      else if billData.counter ≠ attr.counter then throw errInvalidCounter
      else if ¬ tx.payload.feeCreditRecordID.isEmpty then
        throw (.message "fee transaction cannot contain fee credit reference")
      else if tx.payload.attributes.feeProof.isSome then
        throw (.message "fee transaction cannot contain fee authorization proof")
      else m.execOwner "verify owner proof" billData.ownerPredicate tx authProof M

/-- `executeTransferFCTx(tx, attr, authProof, exeCtx)`: the amount is taken off the bill, and
the cost of the gas used is the fee. -/
def executeTransferFCTx (tx : TxOrder MoneyTx) (attr : TransferFCAttributes)
    (exeCtx : TxExecutionContext) (M : UnitMap Bytes MoneyUnitData) :
    Except TxError (UnitMap Bytes MoneyUnitData × ServerMetadata) :=
  let unitID := tx.unitID
  runActions "transferFC: failed to update state"
    [.updateUnitData unitID (some (m.updateBill unitID fun bd =>
      { bd with value := bd.value - attr.amount, counter := bd.counter + 1 }))]
    ⟨exeCtx.calculateCost, [unitID], .successful⟩ M

/-! ### `nop` -/

/-- `verifyCounter(unitData, attr)`: a dummy unit takes no counter, and another unit its
own. -/
def verifyCounter (unitData : Option MoneyUnitData) (attr : Tokens.NopAttributes) :
    Except TxError Unit :=
  match unitData with
  | none =>
    if attr.counter.isSome then
      .error (.message "the transaction counter must be nil for dummy unit data")
    else .ok ()
  | some data =>
    match attr.counter with
    | none => .error errInvalidCounter
    | some attrCounter =>
      let counter := match data with
        | .feeCreditRecord d => d.counter
        | .bill d => d.counter
      if attrCounter ≠ counter then .error errInvalidCounter else .ok ()

/-- `verifyOwner(unitData, tx, authProof, exeCtx)`: a dummy unit takes no owner proof. -/
def verifyOwner (unitData : Option MoneyUnitData) (tx : TxOrder MoneyTx)
    (authProof : MoneyAuthProof) (M : UnitMap Bytes MoneyUnitData) :
    EStateM TxError TxExecutionContext Unit :=
  match unitData with
  | none =>
    if authProof.ownerProof.isSome then
      throw (.message "nop transaction targeting dummy unit cannot contain owner proof")
    else pure ()
  | some data => m.execOwner "evaluating owner predicate" data.owner tx authProof M

/-- `validateNopTx(tx, attr, authProof, exeCtx)`. -/
def validateNopTx (tx : TxOrder MoneyTx) (attr : Tokens.NopAttributes) (authProof : MoneyAuthProof)
    (M : UnitMap Bytes MoneyUnitData) : EStateM TxError TxExecutionContext Unit :=
  match M tx.unitID with
  | none => throw ((StateError.avl (.notFound tx.unitID)).wrap "nop transaction: get unit error")
  | some u =>
    match verifyCounter u.data attr with
    | .error e => throw (e.wrap "nop transaction")
    | .ok () => adaptExcept (·.wrap "nop transaction: verify owner") (m.verifyOwner u.data tx authProof M)

end Module

/-- `incrementCounterFn()`: the counter of a bill or a fee credit record incremented; a dummy
unit is left as it is. -/
def incrementCounter : UpdateFunction MoneyUnitData String
  | none => .ok none
  | some (.bill d) => .ok (some (.bill { d with counter := d.counter + 1 }))
  | some (.feeCreditRecord d) => .ok (some (.feeCreditRecord { d with counter := d.counter + 1 }))

/-- `executeNopTx(tx, attr, authProof, exeCtx)`. -/
def executeNopTx (tx : TxOrder MoneyTx) (M : UnitMap Bytes MoneyUnitData) :
    Except TxError (UnitMap Bytes MoneyUnitData × ServerMetadata) :=
  runActions "nop transaction: failed to update state"
    [.updateUnitData tx.unitID (some incrementCounter)] ⟨0, [tx.unitID], .successful⟩ M

/-! ### The handlers -/

/-- `NewTxHandler[A, P](validate, execute, opts...)` for the module: the handler of the
attributes `attr` picks, with the target units `targetUnits` gives. -/
def newTxHandler {α : Type} (attr : MoneyAttributes → Option α)
    (validate : TxOrder MoneyTx → α → MoneyAuthProof → UnitMap Bytes MoneyUnitData →
      EStateM TxError TxExecutionContext Unit)
    (execute : TxOrder MoneyTx → α → TxExecutionContext → UnitMap Bytes MoneyUnitData →
      Except TxError (UnitMap Bytes MoneyUnitData × ServerMetadata))
    (targetUnits : TxOrder MoneyTx → α → Except TxError (List Bytes)) : MoneyHandler where
  unmarshalAttributes tx :=
    if (attr tx.payload.attributes.attributes).isSome then .ok tx.payload.attributes.attributes
    else .error Tokens.unmarshalError
  unmarshalAuthProof tx := .ok tx.payload.attributes.authProof
  targetUnits tx a _ :=
    match attr a with
    | some a => targetUnits tx a
    | none => .error Tokens.unmarshalError
  validate tx a p M :=
    match attr a with
    | some a => validate tx a p M
    | none => throw Tokens.unmarshalError
  execute tx a _ ec M :=
    match attr a with
    | some a => execute tx a ec M
    | none => .error Tokens.unmarshalError

/-- The target units of a handler without `WithTargetUnitsFn`: the unit of the order. -/
def defaultTargetUnits {α : Type} (tx : TxOrder MoneyTx) (_ : α) : Except TxError (List Bytes) :=
  .ok [tx.unitID]

namespace Module

variable (m : Module)

/-- The handler of `money.TransactionTypeTransfer`. -/
def transferHandler : MoneyHandler :=
  newTxHandler (fun | .transfer a => some a | _ => none) m.validateTransferTx
    (fun tx a _ M => m.executeTransferTx tx a M) defaultTargetUnits

/-- The handler of `money.TransactionTypeSplit`. -/
def splitHandler : MoneyHandler :=
  newTxHandler (fun | .split a => some a | _ => none) m.validateSplitTx
    (fun tx a _ M => m.executeSplitTx tx a M) m.splitTxTargetUnits

/-- The handler of `money.TransactionTypeTransDC`. -/
def transDCHandler : MoneyHandler :=
  newTxHandler (fun | .transDC a => some a | _ => none) m.validateTransferDCTx
    (fun tx a _ M => m.executeTransferDCTx tx a M) defaultTargetUnits

/-- The handler of `money.TransactionTypeSwapDC`. -/
def swapDCHandler : MoneyHandler :=
  newTxHandler (fun | .swapDC a => some a | _ => none) m.validateSwapTx
    (fun tx _ ec M => m.executeSwapTx tx ec M) defaultTargetUnits

/-- The handler of `fc.TransactionTypeTransferFeeCredit`. -/
def transferFCHandler : MoneyHandler :=
  newTxHandler (fun | .transferFC a => some a | _ => none) m.validateTransferFCTx
    (fun tx a ec M => m.executeTransferFCTx tx a ec M) defaultTargetUnits

/-- The handler of `nop.TransactionTypeNOP`. -/
def nopHandler : MoneyHandler :=
  newTxHandler (fun | .nop a => some a | _ => none) m.validateNopTx
    (fun tx _ _ M => executeNopTx tx M) defaultTargetUnits

/-- `TxHandlers()`, but for `reclaimFC`: the handlers by transaction type. -/
def txHandlers : TxExecutors MoneyUnitData MoneyTx MoneyAttributes MoneyAuthProof := fun type =>
  if type = m.transferType then some m.transferHandler
  else if type = m.splitType then some m.splitHandler
  else if type = m.transDCType then some m.transDCHandler
  else if type = m.swapDCType then some m.swapDCHandler
  else if type = m.transferFCType then some m.transferFCHandler
  else if type = m.nopType then some m.nopHandler
  else none

end Module

end BftCore.Txsystem.Money
