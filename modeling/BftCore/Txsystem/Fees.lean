import BftCore.Lib.Bytes
import BftCore.Lib.Wp
import BftCore.State.Actions

/-!
# `txsystem`: fees

A transaction pays for the gas it uses.  `NewExecutionContext` buys the gas the order's
`MaxFee` pays for (`BuyGas`, a multiplication that wraps for a large `MaxFee`), every step
spends from it (`SpendGas`, which leaves nothing when asked for more than remains), and
`CalculateCost` turns the gas used back into temas, rounded to the nearest and at least one.
The fee credit transactions move money between bills and fee credit records: `addFC` credits
a record with a transfer's amount less the fees, `reclaimFC` credits a bill with a closed
record's amount less the fees; their validators check the amounts and leave the net amount in
the context for the executor.

* `FeeCreditModule.calculateCost`, `FeeCreditModule.buyGas`, and `TxExecutionContext` with
  `new`, `spendGas` and `calculateCost`;
* `checkTransferFC`, `validateAddFC` and `executeAddFC`; `validateReclaimFCTx` and
  `executeReclaimFCTx`; `isCredible` and `decrCredit`, the fee debit of `doExecute`;
* `Funded`: a context bought with `maxFee`, kept by every `SpendGas`; its cost is at most
  `maxFee` (`Funded.calculateCost_le`), the net amounts the validators leave cover it, and
  `fees_within_max` puts these together.

What the validators ask of the rest of the system (the state, the trust base, the predicates,
the unit ids of fee credit records) is a parameter, `FeeCreditEnv` and `MoneyEnv`; the state
changes of the executors are actions given to a parameter `apply`.
-/

namespace BftCore.Txsystem

open BftCore.State (Bytes StateError)

/-! ### `util` of `bft-go-base` -/

/-- `util.SafeAdd(a, b)`: the sum, and whether it did not overflow. -/
def safeAdd (a b : UInt64) : UInt64 × Bool := (a + b, decide (a.toNat + b.toNat < 2 ^ 64))

/-- A sum `SafeAdd` accepts is the sum of the numbers. -/
theorem toNat_safeAdd {a b : UInt64} (h : (safeAdd a b).2 = true) :
    (safeAdd a b).1.toNat = a.toNat + b.toNat := by
  simp only [safeAdd, decide_eq_true_eq] at h ⊢
  rw [UInt64.toNat_add, Nat.mod_eq_of_lt h]

/-- `util.SafeSub(a, b)`: the difference, and whether it did not underflow. -/
def safeSub (a b : UInt64) : UInt64 × Bool := (a - b, decide (b ≤ a))

/-- `util.Uint64ToBytes(v)`: the eight bytes of `v`, most significant first. -/
def uint64ToBytes (v : UInt64) : Bytes := BigEndian.toBytes 8 v.toNat

/-- `util.BytesToUint64(b)`: the number of the first eight bytes of `b`, most significant
first. -/
def bytesToUint64 (b : Bytes) : UInt64 := (BigEndian.ofBytes (b.take 8)).toUInt64

/-- A number written by `Uint64ToBytes` reads back from the front of the bytes. -/
@[simp] theorem bytesToUint64_uint64ToBytes_append (v : UInt64) (rest : Bytes) :
    bytesToUint64 (uint64ToBytes v ++ rest) = v := by
  have hv : v.toNat % 256 ^ 8 = v.toNat := Nat.mod_eq_of_lt v.toNat_lt
  rw [bytesToUint64, uint64ToBytes, BigEndian.ofBytes_take_toBytes_append, hv]
  exact UInt64.ofNat_toNat

@[simp] theorem length_uint64ToBytes (v : UInt64) : (uint64ToBytes v).length = 8 :=
  BigEndian.length_toBytes 8 v.toNat

/-! ### Gas -/

/-- `GasUnitsPerTema`: the gas one tema buys. -/
def gasUnitsPerTema : UInt64 := 1000

/-- `txtypes.FeeCalculation`. -/
structure FeeCalculation where
  buyGas : UInt64 → UInt64
  calculateCost : UInt64 → UInt64

namespace FeeCreditModule

/-- `CalculateCost(gasUsed)`: the gas used in temas, rounded to the nearest. -/
def calculateCost (gasUsed : UInt64) : UInt64 :=
  let cost := (gasUsed + gasUnitsPerTema / 2) / gasUnitsPerTema
  -- all transactions cost at least 1 tema
  if cost = 0 then 1 else cost

/-- `BuyGas(maxTxCost)`. -/
def buyGas (maxTxCost : UInt64) : UInt64 := maxTxCost * gasUnitsPerTema

/-- The fee credit module as the `FeeCalculation` of an execution context. -/
def fees : FeeCalculation := ⟨buyGas, calculateCost⟩

/-- The cost of at most the gas `maxFee` buys is at most `maxFee`: rounding adds at most half a
tema to a product of `1000`, and when buying wraps the cost is below `2 ^ 64 / 1000`, which a
`maxFee` that wraps exceeds. -/
theorem calculateCost_le {maxFee gasUsed : UInt64} (hmax : 1 ≤ maxFee)
    (hgas : gasUsed ≤ buyGas maxFee) : calculateCost gasUsed ≤ maxFee := by
  have hgas' : gasUsed.toNat ≤ maxFee.toNat * 1000 % 2 ^ 64 := by
    have := UInt64.le_iff_toNat_le.mp hgas
    rwa [buyGas, UInt64.toNat_mul] at this
  unfold calculateCost
  dsimp only
  split
  · exact hmax
  · rw [UInt64.le_iff_toNat_le, UInt64.toNat_div, UInt64.toNat_add]
    show (gasUsed.toNat + 500) % 2 ^ 64 / 1000 ≤ maxFee.toNat
    by_cases hwrap : maxFee.toNat * 1000 < 2 ^ 64
    · -- no wrap: rounding adds at most half a tema to at most `1000 * maxFee`
      rw [Nat.mod_eq_of_lt hwrap] at hgas'
      rw [Nat.mod_eq_of_lt (by omega)]
      omega
    · -- a purchase that wraps: `maxFee` is beyond every cost
      have hlt := Nat.mod_lt (gasUsed.toNat + 500) (show 0 < 2 ^ 64 by norm_num)
      omega

end FeeCreditModule

/-- `types.ErrOutOfGas`. -/
inductive GasError where
  | errOutOfGas

/-- `TxExecutionContext`, with what the fee handling reads: the current round of the
transaction system, the fee calculation, the gas bought and remaining, and the data a
validator leaves for the executor. -/
structure TxExecutionContext where
  currentRound : UInt64
  fee : FeeCalculation
  initialGas : UInt64
  remainingGas : UInt64
  customData : Bytes

namespace TxExecutionContext

/-- `NewExecutionContext(txSys, f, maxCost)`: the gas `maxCost` buys. -/
def new (currentRound : UInt64) (f : FeeCalculation) (maxCost : UInt64) : TxExecutionContext :=
  let gasUnits := f.buyGas maxCost
  ⟨currentRound, f, gasUnits, gasUnits, []⟩

/-- `SpendGas(gas)`: asked for more than remains, it leaves none and fails. -/
def spendGas (gas : UInt64) : EStateM GasError TxExecutionContext Unit := fun ec =>
  if gas > ec.remainingGas then .error .errOutOfGas { ec with remainingGas := 0 }
  else .ok () { ec with remainingGas := ec.remainingGas - gas }

/-- `CalculateCost()`: the cost of the gas used. -/
def calculateCost (ec : TxExecutionContext) : UInt64 :=
  let gasUsed := ec.initialGas - ec.remainingGas
  ec.fee.calculateCost gasUsed

/-- `SpendGas` on each amount in turn, whatever each returns. -/
def spendGasRun : List UInt64 → TxExecutionContext → TxExecutionContext
  | [], ec => ec
  | gas :: gases, ec => spendGasRun gases (EStateM.final (spendGas gas) ec)

/-- What `SpendGas` leaves, whether it succeeds or not: the gas remaining lowered, or none. -/
theorem final_spendGas (gas : UInt64) (ec : TxExecutionContext) :
    EStateM.final (spendGas gas) ec =
      { ec with remainingGas := if gas > ec.remainingGas then 0 else ec.remainingGas - gas } := by
  unfold EStateM.final spendGas
  by_cases hgt : gas > ec.remainingGas
  · rw [if_pos hgt, if_pos hgt]
  · rw [if_neg hgt, if_neg hgt]

/-- `SpendGas` leaves the data of the context as it is. -/
theorem spendGasRun_customData (gases : List UInt64) (ec : TxExecutionContext) :
    (spendGasRun gases ec).customData = ec.customData := by
  -- induction on the amounts, from any context
  induction gases generalizing ec with
  | nil => rfl
  | cons gas gases ih => rw [spendGasRun, ih, final_spendGas]

end TxExecutionContext

open TxExecutionContext

/-- A context of the fee credit module bought with `maxFee`: no more gas remains than was
bought. -/
structure Funded (maxFee : UInt64) (ec : TxExecutionContext) : Prop where
  fee : ec.fee = FeeCreditModule.fees
  initialGas : ec.initialGas = FeeCreditModule.buyGas maxFee
  remaining_le : ec.remainingGas ≤ ec.initialGas

namespace Funded

variable {maxFee : UInt64} {ec : TxExecutionContext}

theorem new (currentRound maxFee : UInt64) :
    Funded maxFee (TxExecutionContext.new currentRound FeeCreditModule.fees maxFee) :=
  ⟨rfl, rfl, UInt64.le_refl _⟩

/-- `SpendGas` only lowers the gas remaining, whether it succeeds or not. -/
theorem spendGas (h : Funded maxFee ec) (gas : UInt64) :
    Funded maxFee (EStateM.final (spendGas gas) ec) := by
  rw [final_spendGas]
  by_cases hgt : gas > ec.remainingGas
  · rw [if_pos hgt]
    exact ⟨h.fee, h.initialGas, UInt64.zero_le⟩
  · rw [if_neg hgt]
    refine ⟨h.fee, h.initialGas, UInt64.le_trans ?_ h.remaining_le⟩
    have hle := UInt64.not_lt.mp hgt
    rw [UInt64.le_iff_toNat_le, UInt64.toNat_sub_of_le _ _ hle]
    exact Nat.sub_le _ _

theorem spendGasRun (h : Funded maxFee ec) (gases : List UInt64) :
    Funded maxFee (spendGasRun gases ec) := by
  -- induction on the amounts, from any context bought with `maxFee`
  induction gases generalizing ec with
  | nil => exact h
  | cons gas gases ih => exact ih (h.spendGas gas)

/-- The data a validator leaves does not touch the gas. -/
theorem setData (h : Funded maxFee ec) (data : Bytes) :
    Funded maxFee { ec with customData := data } :=
  ⟨h.fee, h.initialGas, h.remaining_le⟩

/-- The cost charged is at most `maxFee`. -/
theorem calculateCost_le (h : Funded maxFee ec) (hmax : 1 ≤ maxFee) :
    ec.calculateCost ≤ maxFee := by
  unfold TxExecutionContext.calculateCost
  rw [h.fee]
  refine FeeCreditModule.calculateCost_le hmax ?_
  rw [← h.initialGas, UInt64.le_iff_toNat_le, UInt64.toNat_sub_of_le _ _ h.remaining_le]
  exact Nat.sub_le _ _

end Funded

/-! ### The fee credit records and bills -/

/-- `fc.FeeCreditRecord`. -/
structure FeeCreditRecord where
  balance : UInt64
  ownerPredicate : Bytes
  minLifetime : UInt64
  counter : UInt64

/-- `fc.NewFeeCreditRecord(balance, ownerPredicate, minLifetime)`. -/
def FeeCreditRecord.new (balance : UInt64) (ownerPredicate : Bytes) (minLifetime : UInt64) :
    FeeCreditRecord :=
  ⟨balance, ownerPredicate, minLifetime, 0⟩

/-- `money.BillData`. -/
structure BillData where
  value : UInt64
  ownerPredicate : Bytes
  counter : UInt64

/-- `types.TxStatus`. -/
inductive TxStatus where
  | failed
  | successful
  deriving DecidableEq

/-- `types.ServerMetadata`, with what the fee executors set. -/
structure ServerMetadata where
  actualFee : UInt64
  targetUnits : List Bytes
  successIndicator : TxStatus

/-- The fields of `types.TransactionOrder` the fee code reads. -/
structure FeeOrder where
  unitID : Bytes
  maxFee : UInt64
  feeCreditRecordID : Option Bytes
  feeProof : Option Bytes

/-- The order a proof is for, as `GetTransactionOrderV1` gives it: its network, partition and
type, and its attributes as `UnmarshalAttributes` reads them. -/
structure ProofOrder (Attr : Type) where
  networkID : UInt16
  partitionID : UInt32
  type : UInt16
  attributes : Except String Attr

/-- `types.TxRecordProof`, as the fee code reads it: `IsValid()`, `GetTransactionOrderV1()` and
`ActualFee()`. -/
structure TxRecordProof (Attr : Type) where
  isValid : Except String Unit
  transactionOrder : Except String (ProofOrder Attr)
  actualFee : UInt64

/-- `fc.TransferFeeCreditAttributes`. -/
structure TransferFeeCreditAttributes where
  amount : UInt64
  targetPartitionID : UInt32
  targetRecordID : Bytes
  latestAdditionTime : UInt64
  targetUnitCounter : Option UInt64

/-- `fc.AddFeeCreditAttributes`. -/
structure AddFeeCreditAttributes where
  feeCreditOwnerPredicate : Bytes
  feeCreditTransferProof : TxRecordProof TransferFeeCreditAttributes

/-- `fc.CloseFeeCreditAttributes`, with the fields `validateReclaimFCTx` reads. -/
structure CloseFeeCreditAttributes where
  amount : UInt64
  targetUnitID : Bytes
  targetUnitCounter : UInt64

/-- `fc.ReclaimFeeCreditAttributes`. -/
structure ReclaimFeeCreditAttributes where
  closeFeeCreditProof : TxRecordProof CloseFeeCreditAttributes

/-! ### `addFC` -/

/-- What the fee credit module reads besides the order: its partition, the money partition, and
the state, trust base and predicates through functions. -/
structure FeeCreditEnv where
  networkID : UInt16
  partitionID : UInt32
  moneyPartitionID : UInt32
  /-- `fc.TransactionTypeTransferFeeCredit` -/
  transferFCType : UInt16
  /-- `parseFeeCreditRecord(&f.pdr, id, ...)`: the record, or an error that is `avl.ErrNotFound`
  (`none`) or another one (its text) -/
  parseFeeCreditRecord : Bytes → Except (Option String) FeeCreditRecord
  /-- `NewFeeCreditRecordID(ownerPredicate, timeout)` -/
  newFeeCreditRecordID : Bytes → UInt64 → Except String Bytes
  /-- `types.VerifyTxProof(proof, f.trustBase, f.hashAlgorithm)` -/
  verifyTxProof : TxRecordProof TransferFeeCreditAttributes → Except String Unit
  /-- `f.execPredicate(predicate, proof, tx, exeCtx)` -/
  execPredicate : Bytes → Bytes → Except String Unit
  /-- `%X` and `%s` of unit ids and predicates -/
  hex : Bytes → String

namespace FeeCreditEnv

variable (env : FeeCreditEnv)

/-- `ValidateGenericFeeCreditTx(tx)`: no fee credit reference and no fee proof. -/
def validateGenericFeeCreditTx (tx : FeeOrder) : Except String Unit :=
  if tx.feeCreditRecordID.isSome then .error "fee transaction cannot contain fee credit reference"
  else if tx.feeProof.isSome then .error "fee transaction cannot contain fee authorization proof"
  else .ok ()

/-- `getTransferFC(proof)`: the attributes of a transfer to fee credit. -/
def getTransferFC (proof : TxRecordProof TransferFeeCreditAttributes) :
    Except String TransferFeeCreditAttributes :=
  match proof.transactionOrder with
  | .error e => .error ("failed to get transaction order: " ++ e)
  | .ok txo =>
    let txType := txo.type
    if txType ≠ env.transferFCType then
      .error s!"invalid transfer fee credit transaction transaction type: {txType}"
    else
      match txo.attributes with
      | .error e => .error ("failed to unmarshal transfer payload: " ++ e)
      | .ok transferAttributes => .ok transferAttributes

/-- `checkTransferFC(tx, attr, exeCtx)`: the transfer is to this record in this partition, still
valid, and covers the fees; its net amount and latest addition time are left in the context. -/
def checkTransferFC (tx : FeeOrder) (attr : AddFeeCreditAttributes) :
    EStateM String TxExecutionContext TransferFeeCreditAttributes := fun ec =>
  let transProof := attr.feeCreditTransferProof
  match transProof.isValid with
  | .error e => .error ("invalid transferFC transaction record proof: " ++ e) ec
  | .ok () =>
  match env.getTransferFC transProof with
  | .error e => .error ("transfer transaction attributes error: " ++ e) ec
  | .ok transAttr =>
  match transProof.transactionOrder with
  | .error e => .error ("failed to get transaction order: " ++ e) ec
  | .ok txo =>
  let networkID := txo.networkID
  let expectedNetworkID := env.networkID
  if networkID ≠ expectedNetworkID then
    .error s!"invalid transferFC network identifier {networkID} (expected {expectedNetworkID})" ec
  else
  let partitionID := txo.partitionID
  let moneyPartitionID := env.moneyPartitionID
  if partitionID ≠ moneyPartitionID then
    .error s!"invalid transferFC money partition identifier {partitionID} (expected {moneyPartitionID})" ec
  else
  let targetPartitionID := transAttr.targetPartitionID
  let expectedPartitionID := env.partitionID
  if targetPartitionID ≠ expectedPartitionID then
    .error s!"invalid transferFC target partition identifier {targetPartitionID} (expected {expectedPartitionID})" ec
  else
  if transAttr.targetRecordID ≠ tx.unitID then
    let targetRecordID := env.hex transAttr.targetRecordID
    let unitID := env.hex tx.unitID
    .error s!"invalid transferFC target record id: transferFC.TargetRecordId={targetRecordID} tx.UnitId={unitID}" ec
  else
  let latestAdditionTime := transAttr.latestAdditionTime
  let currentRoundNumber := ec.currentRound
  if currentRoundNumber > latestAdditionTime then
    .error s!"invalid transferFC timeout: latestAdditionTime={latestAdditionTime} currentRoundNumber={currentRoundNumber}" ec
  else
  -- the transaction fees can't exceed the transferred value
  let (feeLimit, ok) := safeAdd tx.maxFee transProof.actualFee
  if !ok then .error "failed to add tx.maxFee and trans.ActualFee: overflow" ec
  else
  let amount := transAttr.amount
  if feeLimit > amount then
    .error s!"invalid transferFC fee: MaxFee+ActualFee={feeLimit} transferFC.Amount={amount}" ec
  else
  let addedFeeAmount := amount - transProof.actualFee
  .ok transAttr
    { ec with customData := uint64ToBytes addedFeeAmount ++ uint64ToBytes latestAdditionTime }

/-- The checks of the target record in `validateAddFC`: a new record must have the id of its
owner predicate and no counter in the transfer; an existing one the transfer's counter and the
same owner predicate. -/
def checkTarget (tx : FeeOrder) (attr : AddFeeCreditAttributes)
    (fcr : Except (Option String) FeeCreditRecord) (transAttr : TransferFeeCreditAttributes) :
    Except String Unit :=
  match fcr with
  | .error _ =>
    match env.newFeeCreditRecordID attr.feeCreditOwnerPredicate transAttr.latestAdditionTime with
    | .error e => .error ("failed to create fee credit record id: " ++ e)
    | .ok fcrID =>
      if fcrID ≠ tx.unitID then
        let unitID := env.hex tx.unitID
        let expected := env.hex fcrID
        .error s!"tx.unitID is not equal to expected fee credit record id (hash of owner predicate), tx.UnitID={unitID} expected.fcrID={expected}"
      else if transAttr.targetUnitCounter.isSome then
        .error "invalid transferFC target unit counter (target counter must be nil if creating fee credit record for the first time)"
      else .ok ()
  | .ok fcr =>
    match transAttr.targetUnitCounter with
    | none => .error "invalid transferFC target unit counter (target counter must not be nil if updating existing fee credit record)"
    | some targetUnitCounter =>
      let counter := fcr.counter
      if counter ≠ targetUnitCounter then
        .error s!"invalid transferFC target unit counter: transferFC.targetUnitCounter={targetUnitCounter} unit.counter={counter}"
      else if fcr.ownerPredicate ≠ attr.feeCreditOwnerPredicate then
        let expected := env.hex fcr.ownerPredicate
        let actual := env.hex attr.feeCreditOwnerPredicate
        .error s!"invalid owner predicate: expected={expected} actual={actual}"
      else .ok ()

/-- `validateAddFC(tx, attr, authProof, exeCtx)`. -/
def validateAddFC (tx : FeeOrder) (attr : AddFeeCreditAttributes) (ownerProof : Bytes) :
    EStateM String TxExecutionContext Unit := fun ec =>
  match validateGenericFeeCreditTx tx with
  | .error e => .error ("fee credit transaction validation error: " ++ e) ec
  | .ok () =>
  -- the target unit is a fee credit record, new (`avl.ErrNotFound`) or present
  let fcr := env.parseFeeCreditRecord tx.unitID
  match fcr with
  | .error (some e) => .error ("get fcr error: " ++ e) ec
  | _ =>
  match env.checkTransferFC tx attr ec with
  | .error e ec => .error ("add fee credit validation failed: " ++ e) ec
  | .ok transAttr ec =>
  match env.checkTarget tx attr fcr transAttr with
  | .error e => .error e ec
  | .ok () =>
  match env.verifyTxProof attr.feeCreditTransferProof with
  | .error e => .error ("transFC proof is not valid: " ++ e) ec
  | .ok () =>
  match env.execPredicate attr.feeCreditOwnerPredicate ownerProof with
  | .error e => .error ("executing fee credit predicate: " ++ e) ec
  | .ok () => .ok () ec

/-- An accepted transfer covers the order's `MaxFee` and the transfer's own fee without
overflow, and only the data of the context changes: to the net amount and the latest addition
time. -/
theorem checkTransferFC_eq_ok {tx : FeeOrder} {attr : AddFeeCreditAttributes}
    {ec ec' : TxExecutionContext} {transAttr : TransferFeeCreditAttributes}
    (h : env.checkTransferFC tx attr ec = .ok transAttr ec') :
    tx.maxFee.toNat + attr.feeCreditTransferProof.actualFee.toNat ≤ transAttr.amount.toNat ∧
    ec' = { ec with customData := (uint64ToBytes (transAttr.amount -
      attr.feeCreditTransferProof.actualFee) ++ uint64ToBytes transAttr.latestAdditionTime) } := by
  unfold checkTransferFC at h
  dsimp only at h
  -- every branch but the last fails
  repeat' split at h
  all_goals try cases h
  refine ⟨?_, rfl⟩
  have hsum : tx.maxFee.toNat + attr.feeCreditTransferProof.actualFee.toNat < 2 ^ 64 := by
    simpa [safeAdd] using ‹¬(!(safeAdd tx.maxFee attr.feeCreditTransferProof.actualFee).2) = true›
  have hle := UInt64.le_iff_toNat_le.mp
    (UInt64.not_lt.mp ‹¬(safeAdd tx.maxFee attr.feeCreditTransferProof.actualFee).1 > _›)
  rw [safeAdd, UInt64.toNat_add, Nat.mod_eq_of_lt hsum] at hle
  exact hle

/-- An accepted `addFC` passed `checkTransferFC`, which left the context as it is then. -/
theorem validateAddFC_eq_ok {tx : FeeOrder} {attr : AddFeeCreditAttributes} {ownerProof : Bytes}
    {ec ec' : TxExecutionContext} (h : env.validateAddFC tx attr ownerProof ec = .ok () ec') :
    ∃ transAttr, env.checkTransferFC tx attr ec = .ok transAttr ec' := by
  unfold validateAddFC at h
  dsimp only at h
  repeat' split at h
  all_goals try cases h
  exact ⟨_, by assumption⟩

end FeeCreditEnv

/-- The state changes of the fee credit transactions. -/
inductive FcAction where
  /-- `unit.IncrCredit(id, value, minLifetime)` -/
  | incrCredit (id : Bytes) (value minLifetime : UInt64)
  /-- `unit.AddCredit(id, fcr)` -/
  | addCredit (id : Bytes) (fcr : FeeCreditRecord)
  /-- `state.UpdateUnitData(id, f)` on a bill -/
  | updateBill (id : Bytes) (f : BillData → BillData)

/-- Whether an error of the state is `avl.ErrNotFound`, through the contexts wrapped around it
(`errors.Is`). -/
def isNotFound {K ε : Type} : StateError K ε → Bool
  | .avl (.notFound _) => true
  | .wrapped _ e => isNotFound e
  | _ => false

section Execute

variable {σ : Type} (apply : FcAction → EStateM (StateError Bytes String) σ Unit)

/-- `executeAddFC(tx, attr, authProof, exeCtx)`: the record is credited with the net amount the
validator left, less the fee, or created with it. -/
def executeAddFC (tx : FeeOrder) (attr : AddFeeCreditAttributes) (exeCtx : TxExecutionContext) :
    EStateM (StateError Bytes String) σ ServerMetadata := fun s =>
  let unitID := tx.unitID
  let data := exeCtx.customData
  let addedFeeCredit := bytesToUint64 (data.take 8)
  let latestAdditionTime := bytesToUint64 (data.drop 8)
  let fee := exeCtx.calculateCost
  let newBalance := addedFeeCredit - fee
  let result : ServerMetadata := ⟨fee, [unitID], .successful⟩
  match apply (.incrCredit unitID newBalance latestAdditionTime) s with
  | .ok () s => .ok result s
  | .error e s =>
    -- no record to credit: create one
    if isNotFound e then
      let fcr := FeeCreditRecord.new newBalance attr.feeCreditOwnerPredicate latestAdditionTime
      match apply (.addCredit unitID fcr) s with
      | .ok () s => .ok result s
      | .error e s => .error (e.wrap "addFC state update failed") s
    else .error (e.wrap "addFC state update failed") s

/-- `executeReclaimFCTx(tx, attr, authProof, exeCtx)`: the bill is credited with the net amount
the validator left, less the fee; `recordReclaimFC` records the reclaim for the block. -/
def executeReclaimFCTx (recordReclaimFC : UInt64 → UInt64 → Except String Unit) (tx : FeeOrder)
    (exeCtx : TxExecutionContext) : EStateM (StateError Bytes String) σ ServerMetadata := fun s =>
  let unitID := tx.unitID
  let fee := exeCtx.calculateCost
  -- add the reclaimed value to the bill
  let reclaimAmount := bytesToUint64 exeCtx.customData
  let v := reclaimAmount - fee
  let updateFunc := fun (newBillData : BillData) =>
    { newBillData with value := newBillData.value + v, counter := newBillData.counter + 1 }
  match apply (.updateBill unitID updateFunc) s with
  | .error e s => .error (e.wrap "reclaimFC: failed to update state") s
  | .ok () s =>
    match recordReclaimFC reclaimAmount fee with
    | .error e => .error (.message ("failed to record reclaim fee credit transaction: " ++ e)) s
    | .ok () => .ok ⟨fee, [unitID], .successful⟩ s

end Execute

/-! ### `reclaimFC` -/

/-- What the money module reads besides the order, for `validateReclaimFCTx`. -/
structure MoneyEnv where
  networkID : UInt16
  /-- `m.state.GetUnit(id, false)`: the bill, `none` for data of another type, or the error -/
  getBill : Bytes → Except String (Option BillData)
  /-- `types.VerifyTxProof(proof, m.trustBase, m.hashAlgorithm)` -/
  verifyTxProof : TxRecordProof CloseFeeCreditAttributes → Except String Unit
  /-- `m.execPredicate(predicate, proof, tx, exeCtx)` -/
  execPredicate : Bytes → Bytes → Except String Unit

/-- `validateReclaimFCTx(tx, attr, authProof, exeCtx)`: the closed record was for this bill at its
counter, and its amount covers the fees; the net amount is left in the context. -/
def MoneyEnv.validateReclaimFCTx (env : MoneyEnv) (tx : FeeOrder)
    (attr : ReclaimFeeCreditAttributes) (ownerProof : Bytes) :
    EStateM String TxExecutionContext Unit := fun ec =>
  match env.getBill tx.unitID with
  | .error e => .error ("get unit error: " ++ e) ec
  | .ok none => .error "invalid unit type" ec
  | .ok (some bd) =>
  if tx.feeCreditRecordID.isSome then .error "fee transaction cannot contain fee credit reference" ec
  else if tx.feeProof.isSome then .error "fee transaction cannot contain fee authorization proof" ec
  else
  let closeFcProof := attr.closeFeeCreditProof
  match closeFcProof.isValid with
  | .error e => .error ("close fee credit proof is invalid: " ++ e) ec
  | .ok () =>
  match closeFcProof.transactionOrder with
  | .error e => .error ("get transaction order error: " ++ e) ec
  | .ok txo =>
  match txo.attributes with
  | .error e => .error ("invalid close fee credit attributes: " ++ e) ec
  | .ok closeFCAttr =>
  let networkID := txo.networkID
  let expectedNetworkID := env.networkID
  if expectedNetworkID ≠ networkID then
    .error s!"invalid network id: {networkID} (expected {expectedNetworkID})" ec
  else if tx.unitID ≠ closeFCAttr.targetUnitID then .error "invalid target unit" ec
  else if bd.counter ≠ closeFCAttr.targetUnitCounter then .error "invalid target unit counter" ec
  else
  let (feeLimit, ok) := safeAdd tx.maxFee closeFcProof.actualFee
  if !ok then .error "failed to add Tx.MaxFee and CloseFC.ActualFee: overflow" ec
  else if closeFCAttr.amount < feeLimit then
    .error "the transaction fees cannot exceed the transferred value" ec
  else
  match env.execPredicate bd.ownerPredicate ownerProof with
  | .error e => .error e ec
  | .ok () =>
  match env.verifyTxProof closeFcProof with
  | .error e => .error ("invalid proof: " ++ e) ec
  | .ok () =>
  -- the reclaimed amount, for the executor
  let reclaimAmount := closeFCAttr.amount - closeFcProof.actualFee
  .ok () { ec with customData := uint64ToBytes reclaimAmount }

/-- An accepted `reclaimFC`: the closed amount covers the order's `MaxFee` and the close's own
fee without overflow, and only the data of the context changes, to the net amount. -/
theorem MoneyEnv.validateReclaimFCTx_eq_ok {env : MoneyEnv} {tx : FeeOrder}
    {attr : ReclaimFeeCreditAttributes} {ownerProof : Bytes} {ec ec' : TxExecutionContext}
    (h : env.validateReclaimFCTx tx attr ownerProof ec = .ok () ec') :
    ∃ amount, tx.maxFee.toNat + attr.closeFeeCreditProof.actualFee.toNat ≤ amount.toNat ∧
      ec' = { ec with customData := uint64ToBytes (amount - attr.closeFeeCreditProof.actualFee) } := by
  unfold validateReclaimFCTx at h
  dsimp only at h
  repeat' split at h
  all_goals try cases h
  refine ⟨_, ?_, rfl⟩
  have hsum : tx.maxFee.toNat + attr.closeFeeCreditProof.actualFee.toNat < 2 ^ 64 := by
    simpa [safeAdd] using ‹¬(!(safeAdd tx.maxFee attr.closeFeeCreditProof.actualFee).2) = true›
  have hle := UInt64.le_iff_toNat_le.mp
    (UInt64.not_lt.mp ‹¬_ < (safeAdd tx.maxFee attr.closeFeeCreditProof.actualFee).1›)
  rw [safeAdd, UInt64.toNat_add, Nat.mod_eq_of_lt hsum] at hle
  exact hle

/-! ### The fee debit of `doExecute` -/

/-- What `IsCredible` reads besides the order. -/
structure CredibleEnv where
  /-- `types.UnitID(fcrID).TypeMustBe(f.feeCreditRecordUnitType, &f.pdr)` -/
  typeMustBe : Bytes → Except String Unit
  /-- `f.state.GetUnit(fcrID, false)`: the record, `none` for data of another type, or no
  unit -/
  getFeeCreditRecord : Bytes → Option (Option FeeCreditRecord)
  /-- `f.execPredicate(fcr.OwnerPredicate, tx.FeeProof, tx, exeCtx)` -/
  execPredicate : Bytes → Option Bytes → Except String Unit

/-- `FeeBalanceValidator.IsCredible(exeCtx, tx)`: the order names a fee credit record whose
balance covers its `MaxFee`, and the fee proof satisfies the record's owner. -/
def CredibleEnv.isCredible (env : CredibleEnv) (tx : FeeOrder) : Except String Unit :=
  match tx.feeCreditRecordID with
  | none => .error "fee credit record missing"
  | some [] => .error "fee credit record missing"
  | some fcrID =>
  match env.typeMustBe fcrID with
  | .error e => .error ("invalid fee credit record id: " ++ e)
  | .ok () =>
  match env.getFeeCreditRecord fcrID with
  | none => .error "fee credit record unit is nil"
  | some none => .error "invalid fee credit record type"
  | some (some fcr) =>
  -- the maximum permitted transaction cost does not exceed the fee credit balance
  let balance := fcr.balance
  let maxFee := tx.maxFee
  if balance < maxFee then
    .error s!"the max fee cannot exceed fee credit balance. FC balance {balance} vs max fee {maxFee}"
  else
  match env.execPredicate fcr.ownerPredicate tx.feeProof with
  | .error e => .error ("evaluating fee proof: " ++ e)
  | .ok () => .ok ()

/-- `unit.DecrCredit(id, value)`, the update of the record's data. -/
def decrCredit (value : UInt64) (fcr : FeeCreditRecord) : Except String FeeCreditRecord :=
  let (balance, ok) := safeSub fcr.balance value
  if !ok then .error "failed to decrement balance: underflow"
  -- note that only the balance changes
  else .ok { fcr with balance := balance }

/-- A credible order names a fee credit record whose balance covers its `MaxFee`. -/
theorem CredibleEnv.isCredible_eq_ok {env : CredibleEnv} {tx : FeeOrder}
    (h : env.isCredible tx = .ok ()) :
    ∃ fcrID fcr, tx.feeCreditRecordID = some fcrID ∧ env.getFeeCreditRecord fcrID = some (some fcr) ∧
      tx.maxFee ≤ fcr.balance := by
  unfold isCredible at h
  dsimp only at h
  repeat' split at h
  all_goals try cases h
  exact ⟨_, _, by assumption, by assumption, UInt64.not_lt.mp ‹¬_ < tx.maxFee›⟩

/-- A debit the balance covers leaves the rest of the balance. -/
theorem decrCredit_eq_ok {value : UInt64} {fcr : FeeCreditRecord} (h : value ≤ fcr.balance) :
    decrCredit value fcr = .ok { fcr with balance := fcr.balance - value } := by
  unfold decrCredit safeSub
  simp [h]

/-! ### No fee wraps -/

section Bounds

variable {maxFee : UInt64} {ec : TxExecutionContext}

/-- A cost within `maxFee` fits in an amount that covers `maxFee` and a fee besides: what is left
after the fee. -/
theorem le_sub_of_cover {amount fee cost : UInt64}
    (hcover : maxFee.toNat + fee.toNat ≤ amount.toNat) (hcost : cost ≤ maxFee) :
    cost ≤ amount - fee := by
  have hcost' := UInt64.le_iff_toNat_le.mp hcost
  rw [UInt64.le_iff_toNat_le, UInt64.toNat_sub_of_le _ _ (UInt64.le_iff_toNat_le.mpr (by omega))]
  omega

/-- After an accepted `addFC`, at any later point of the order, the net amount the validator left
covers the cost. -/
theorem Funded.addedFeeCredit_ge {env : FeeCreditEnv} {tx : FeeOrder}
    {attr : AddFeeCreditAttributes} {ownerProof : Bytes} {ec' : TxExecutionContext}
    (hfunded : Funded tx.maxFee ec) (hmax : 1 ≤ tx.maxFee)
    (h : env.validateAddFC tx attr ownerProof ec = .ok () ec') (gases : List UInt64) :
    let exeCtx := TxExecutionContext.spendGasRun gases ec'
    exeCtx.calculateCost ≤ bytesToUint64 (exeCtx.customData.take 8) := by
  intro exeCtx
  obtain ⟨transAttr, hcheck⟩ := env.validateAddFC_eq_ok h
  obtain ⟨hcover, rfl⟩ := env.checkTransferFC_eq_ok hcheck
  -- the gas runs do not touch the data, which holds the net amount
  have hdata : exeCtx.customData = uint64ToBytes (transAttr.amount -
      attr.feeCreditTransferProof.actualFee) ++ uint64ToBytes transAttr.latestAdditionTime :=
    spendGasRun_customData gases _
  have hcost : exeCtx.calculateCost ≤ tx.maxFee :=
    ((hfunded.setData _).spendGasRun gases).calculateCost_le hmax
  rw [hdata, List.take_left' (length_uint64ToBytes _), ← List.append_nil (uint64ToBytes _),
    bytesToUint64_uint64ToBytes_append]
  exact le_sub_of_cover hcover hcost

/-- After an accepted `reclaimFC`, at any later point of the order, the net amount the validator
left covers the cost. -/
theorem Funded.reclaimAmount_ge {env : MoneyEnv} {tx : FeeOrder}
    {attr : ReclaimFeeCreditAttributes} {ownerProof : Bytes} {ec' : TxExecutionContext}
    (hfunded : Funded tx.maxFee ec) (hmax : 1 ≤ tx.maxFee)
    (h : env.validateReclaimFCTx tx attr ownerProof ec = .ok () ec') (gases : List UInt64) :
    let exeCtx := TxExecutionContext.spendGasRun gases ec'
    exeCtx.calculateCost ≤ bytesToUint64 exeCtx.customData := by
  intro exeCtx
  obtain ⟨amount, hcover, rfl⟩ := MoneyEnv.validateReclaimFCTx_eq_ok h
  have hdata : exeCtx.customData = uint64ToBytes (amount - attr.closeFeeCreditProof.actualFee) :=
    spendGasRun_customData gases _
  have hcost : exeCtx.calculateCost ≤ tx.maxFee :=
    ((hfunded.setData _).spendGasRun gases).calculateCost_le hmax
  rw [hdata, ← List.append_nil (uint64ToBytes _), bytesToUint64_uint64ToBytes_append]
  exact le_sub_of_cover hcover hcost

end Bounds

/-- Charged fees stay within the order's `MaxFee` and no fee arithmetic wraps: whatever gas is
spent, the cost of a context bought with `maxFee ≥ 1` is at most `maxFee`, also when buying
wraps; after an accepted `addFC` or `reclaimFC` the executor's net amount less the cost does
not underflow, at whatever point of the order it is computed; and the debit of the cost from
the record `IsCredible` accepted does not underflow. -/
theorem fees_within_max (currentRound maxFee : UInt64) (hmax : 1 ≤ maxFee)
    (gases₀ gases₁ : List UInt64) :
    (let ec₀ := TxExecutionContext.spendGasRun gases₀
      (TxExecutionContext.new currentRound FeeCreditModule.fees maxFee)
    ec₀.calculateCost ≤ maxFee ∧
    (∀ (env : FeeCreditEnv) (tx : FeeOrder) (attr : AddFeeCreditAttributes) (ownerProof : Bytes)
      (ec : TxExecutionContext), tx.maxFee = maxFee →
      env.validateAddFC tx attr ownerProof ec₀ = .ok () ec →
      let exeCtx := TxExecutionContext.spendGasRun gases₁ ec
      let addedFeeCredit := bytesToUint64 (exeCtx.customData.take 8)
      (addedFeeCredit - exeCtx.calculateCost).toNat =
        addedFeeCredit.toNat - exeCtx.calculateCost.toNat) ∧
    (∀ (env : MoneyEnv) (tx : FeeOrder) (attr : ReclaimFeeCreditAttributes) (ownerProof : Bytes)
      (ec : TxExecutionContext), tx.maxFee = maxFee →
      env.validateReclaimFCTx tx attr ownerProof ec₀ = .ok () ec →
      let exeCtx := TxExecutionContext.spendGasRun gases₁ ec
      let reclaimAmount := bytesToUint64 exeCtx.customData
      (reclaimAmount - exeCtx.calculateCost).toNat =
        reclaimAmount.toNat - exeCtx.calculateCost.toNat) ∧
    (∀ (env : CredibleEnv) (tx : FeeOrder), tx.maxFee = maxFee → env.isCredible tx = .ok () →
      ∃ fcrID fcr, tx.feeCreditRecordID = some fcrID ∧
        env.getFeeCreditRecord fcrID = some (some fcr) ∧
        decrCredit ec₀.calculateCost fcr = .ok { fcr with balance := fcr.balance - ec₀.calculateCost } ∧
        (fcr.balance - ec₀.calculateCost).toNat = fcr.balance.toNat - ec₀.calculateCost.toNat)) := by
  intro ec₀
  have hfunded : Funded maxFee ec₀ := (Funded.new currentRound maxFee).spendGasRun gases₀
  have hcost := hfunded.calculateCost_le hmax
  refine ⟨hcost, ?_, ?_, ?_⟩
  · intro env tx attr ownerProof ec htx h
    subst htx
    exact UInt64.toNat_sub_of_le _ _ (hfunded.addedFeeCredit_ge hmax h gases₁)
  · intro env tx attr ownerProof ec htx h
    subst htx
    exact UInt64.toNat_sub_of_le _ _ (hfunded.reclaimAmount_ge hmax h gases₁)
  · intro env tx htx h
    obtain ⟨fcrID, fcr, hid, hfcr, hbalance⟩ := CredibleEnv.isCredible_eq_ok h
    -- the balance covers `MaxFee`, which covers the cost
    have hle : ec₀.calculateCost ≤ fcr.balance := UInt64.le_trans hcost (htx ▸ hbalance)
    exact ⟨fcrID, fcr, hid, hfcr, decrCredit_eq_ok hle, UInt64.toNat_sub_of_le _ _ hle⟩

/-- A context bought with a maximum fee of 3 tema spends 1600 gas units before the checks, a cost
of 2, and then asks for more gas than remains, which brings the cost to the maximum. -/
theorem fees_within_max_three :
    (1 : UInt64) ≤ 3 ∧
    (TxExecutionContext.spendGasRun [1000, 600]
      (TxExecutionContext.new 0 FeeCreditModule.fees 3)).calculateCost = 2 ∧
    (TxExecutionContext.spendGasRun [5000] (TxExecutionContext.spendGasRun [1000, 600]
      (TxExecutionContext.new 0 FeeCreditModule.fees 3))).calculateCost = 3 ∧
    let ec₀ := TxExecutionContext.spendGasRun [1000, 600]
      (TxExecutionContext.new 0 FeeCreditModule.fees 3)
    ec₀.calculateCost ≤ 3 ∧
    (∀ (env : FeeCreditEnv) (tx : FeeOrder) (attr : AddFeeCreditAttributes) (ownerProof : Bytes)
      (ec : TxExecutionContext), tx.maxFee = 3 →
      env.validateAddFC tx attr ownerProof ec₀ = .ok () ec →
      let exeCtx := TxExecutionContext.spendGasRun [5000] ec
      let addedFeeCredit := bytesToUint64 (exeCtx.customData.take 8)
      (addedFeeCredit - exeCtx.calculateCost).toNat =
        addedFeeCredit.toNat - exeCtx.calculateCost.toNat) ∧
    (∀ (env : MoneyEnv) (tx : FeeOrder) (attr : ReclaimFeeCreditAttributes) (ownerProof : Bytes)
      (ec : TxExecutionContext), tx.maxFee = 3 →
      env.validateReclaimFCTx tx attr ownerProof ec₀ = .ok () ec →
      let exeCtx := TxExecutionContext.spendGasRun [5000] ec
      let reclaimAmount := bytesToUint64 exeCtx.customData
      (reclaimAmount - exeCtx.calculateCost).toNat =
        reclaimAmount.toNat - exeCtx.calculateCost.toNat) ∧
    (∀ (env : CredibleEnv) (tx : FeeOrder), tx.maxFee = 3 → env.isCredible tx = .ok () →
      ∃ fcrID fcr, tx.feeCreditRecordID = some fcrID ∧
        env.getFeeCreditRecord fcrID = some (some fcr) ∧
        decrCredit ec₀.calculateCost fcr = .ok { fcr with balance := fcr.balance - ec₀.calculateCost } ∧
        (fcr.balance - ec₀.calculateCost).toNat = fcr.balance.toNat - ec₀.calculateCost.toNat) := by
  refine ⟨?hmax, rfl, rfl, ?concl⟩
  case concl => exact fees_within_max 0 3 ?hmax [1000, 600] [5000]
  case hmax => decide

end BftCore.Txsystem
