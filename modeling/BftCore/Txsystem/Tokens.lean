import BftCore.Txsystem.ExecuteTargets

/-!
# `txsystem/tokens`: the unit data of the tokens partition and its NOP module

The units of the tokens partition hold fungible and non-fungible tokens, their types, and fee
credit records (`TokenUnitData`).  The NOP module (`nop_module.go`) has one handler: an order
that checks the counter and the owner of its unit and increments the counter.

* `newTxHandler`: `NewTxHandler[A, P]`, a handler from a validator and an executor of one type
  of attributes and proof;
* `validateNopTx`, `executeNopTx`, `nopHandler`;
* `executeNopTx_confined`, `nopSystem_confined`: the NOP executor changes only the unit it lists;
* `nop_logs_fee_credit_record_twice`: a NOP order on its own fee credit record logs it twice;
* `hash_failure_keeps_fee`: a failed order whose record cannot be hashed keeps its fee debited.

The orders of a partition carry their attributes and auth proof as the handlers decode them,
`TokenTx`; decoding them as another type fails.  The predicate runner is a parameter.
-/

namespace BftCore.Txsystem.Tokens

open BftCore.State EStateM

/-! ### The unit data -/

/-- `tokens.FungibleTokenData`, with the fields the modules read. -/
structure FungibleTokenData where
  typeID : Bytes
  value : UInt64
  ownerPredicate : Bytes
  counter : UInt64

/-- `tokens.NonFungibleTokenData`, with the fields the NOP module reads. -/
structure NonFungibleTokenData where
  ownerPredicate : Bytes
  counter : UInt64

/-- `tokens.FungibleTokenTypeData`, with the fields the fungible token module reads. -/
structure FungibleTokenTypeData where
  parentTypeID : Bytes
  decimalPlaces : UInt32
  subTypeCreationPredicate : Bytes
  tokenMintingPredicate : Bytes
  tokenTypeOwnerPredicate : Bytes

/-- The unit data of the tokens partition. -/
inductive TokenUnitData where
  | fungibleToken (d : FungibleTokenData)
  | nonFungibleToken (d : NonFungibleTokenData)
  | feeCreditRecord (d : FeeCreditRecord)
  | fungibleTokenType (d : FungibleTokenTypeData)
  | nonFungibleTokenType

/-- The fee credit record a unit holds. -/
def TokenUnitData.toFeeCreditRecord : TokenUnitData → Option FeeCreditRecord
  | .feeCreditRecord d => some d
  | _ => none

/-! ### The orders -/

/-- `nop.Attributes`. -/
structure NopAttributes where
  counter : Option UInt64

/-- `nop.AuthProof`. -/
structure NopAuthProof where
  ownerProof : Option Bytes

/-- The attributes of the orders of the partition, as the handlers decode them. -/
inductive TokenAttributes where
  | nop (a : NopAttributes)

/-- The auth proofs of the orders of the partition, as the handlers decode them. -/
inductive TokenAuthProof where
  | nop (p : NopAuthProof)

/-- The attributes and the auth proof of an order. -/
structure TokenTx where
  attributes : TokenAttributes
  authProof : TokenAuthProof

/-- The handlers of the partition. -/
abbrev TokenHandler := TxHandler TokenUnitData TokenTx TokenAttributes TokenAuthProof

/-- `PredicateRunner`: runs a predicate with its argument for an order, reading the latest unit
map and spending gas. -/
abbrev PredicateRunner :=
  Bytes → Bytes → TxOrder TokenTx → UnitMap Bytes TokenUnitData → EStateM TxError TxExecutionContext Unit

/-- `txo.UnmarshalAttributes` or `UnmarshalAuthProof` into a type the order's value is not of. -/
def unmarshalError : TxError := .message "cbor decoding error"

/-- The target units of a handler without `WithTargetUnitsFn`: the unit of the order. -/
def defaultTargetUnits {α : Type} (tx : TxOrder TokenTx) (_ : α) : List Bytes := [tx.unitID]

/-- `NewTxHandler[A, P](validate, execute, opts...)`: a handler of the attributes and proofs
`attr` and `proof` decode, with the target units `targetUnits` gives (`defaultTargetUnits`
unless the module gives its own). -/
def newTxHandler {α π : Type} (attr : TokenAttributes → Option α) (proof : TokenAuthProof → Option π)
    (validate : TxOrder TokenTx → α → π → UnitMap Bytes TokenUnitData →
      EStateM TxError TxExecutionContext Unit)
    (execute : TxOrder TokenTx → α → π → TxExecutionContext → UnitMap Bytes TokenUnitData →
      Except TxError (UnitMap Bytes TokenUnitData × ServerMetadata))
    (targetUnits : TxOrder TokenTx → α → List Bytes) : TokenHandler where
  unmarshalAttributes tx :=
    if (attr tx.payload.attributes.attributes).isSome then .ok tx.payload.attributes.attributes
    else .error unmarshalError
  unmarshalAuthProof tx :=
    if (proof tx.payload.attributes.authProof).isSome then .ok tx.payload.attributes.authProof
    else .error unmarshalError
  targetUnits tx a _ :=
    match attr a with
    | some a => .ok (targetUnits tx a)
    | none => .error unmarshalError
  validate tx a p M :=
    match attr a, proof p with
    | some a, some p => validate tx a p M
    | _, _ => throw unmarshalError
  execute tx a p ec M :=
    match attr a, proof p with
    | some a, some p => execute tx a p ec M
    | _, _ => .error unmarshalError

/-! ### The NOP module -/

section Nop

variable (pr : PredicateRunner)

/-- The check of a unit with a counter in `validateNopTx`: the order's counter is the unit's,
and the owner predicate of the unit accepts the owner proof. -/
def checkCounterAndOwner (kind : String) (counter : UInt64) (owner : Bytes) (tx : TxOrder TokenTx)
    (attr : NopAttributes) (authProof : NopAuthProof) (M : UnitMap Bytes TokenUnitData) :
    EStateM TxError TxExecutionContext Unit :=
  if attr.counter ≠ some counter then
    throw (.message s!"the transaction counter is not equal to the unit counter for {kind}")
  else
    EStateM.adaptExcept (·.wrap "evaluating owner predicate")
      (pr owner (authProof.ownerProof.getD []) tx M)

/-- `validateNopTx(tx, attr, authProof, exeCtx)`. -/
def validateNopTx (tx : TxOrder TokenTx) (attr : NopAttributes) (authProof : NopAuthProof)
    (M : UnitMap Bytes TokenUnitData) : EStateM TxError TxExecutionContext Unit :=
  match M tx.unitID with
  | none => throw ((StateError.avl (.notFound tx.unitID)).wrap "nop transaction: get unit error")
  | some u =>
    match u.data with
    | none =>
      if attr.counter.isSome then
        throw (.message "nop transaction targeting dummy unit cannot contain counter value")
      else if authProof.ownerProof.isSome then
        throw (.message "nop transaction targeting dummy unit cannot contain owner proof")
      else pure ()
    | some (.fungibleToken d) =>
      checkCounterAndOwner pr "FT data" d.counter d.ownerPredicate tx attr authProof M
    | some (.nonFungibleToken d) =>
      checkCounterAndOwner pr "NFT data" d.counter d.ownerPredicate tx attr authProof M
    | some (.feeCreditRecord d) =>
      checkCounterAndOwner pr "FCR" d.counter d.ownerPredicate tx attr authProof M
    | some (.fungibleTokenType _) => throw (.message "nop transaction cannot target token types")
    | some .nonFungibleTokenType => throw (.message "nop transaction cannot target token types")

/-- `incrementCounterFn()`: the counter of a token or a fee credit record incremented; a dummy
unit and a token type are left as they are. -/
def incrementCounter : UpdateFunction TokenUnitData String
  | none => .ok none
  | some (.fungibleToken d) => .ok (some (.fungibleToken { d with counter := d.counter + 1 }))
  | some (.nonFungibleToken d) => .ok (some (.nonFungibleToken { d with counter := d.counter + 1 }))
  | some (.feeCreditRecord d) => .ok (some (.feeCreditRecord { d with counter := d.counter + 1 }))
  | some (.fungibleTokenType d) => .ok (some (.fungibleTokenType d))
  | some .nonFungibleTokenType => .ok (some .nonFungibleTokenType)

/-- `executeNopTx(tx, ...)`: the counter of the unit incremented. -/
def executeNopTx (tx : TxOrder TokenTx) (M : UnitMap Bytes TokenUnitData) :
    Except TxError (UnitMap Bytes TokenUnitData × ServerMetadata) :=
  match Action.applyAll [.updateUnitData tx.unitID (some incrementCounter)] M with
  | .error e => .error (e.wrap "nop transaction: failed to update state")
  | .ok M' => .ok (M', ⟨0, [tx.unitID], .successful⟩)

/-- The handler of `nop.TransactionTypeNOP`. -/
def nopHandler : TokenHandler :=
  newTxHandler (fun | .nop a => some a) (fun | .nop p => some p) (validateNopTx pr)
    (fun tx _ _ _ M => executeNopTx tx M) defaultTargetUnits

/-- The NOP executor changes only the unit of the order, which it lists. -/
theorem executeNopTx_confined {tx : TxOrder TokenTx} {M M' : UnitMap Bytes TokenUnitData}
    {sm : ServerMetadata} (h : executeNopTx tx M = .ok (M', sm)) :
    ∀ u ∉ sm.targetUnits, M' u = M u := by
  unfold executeNopTx at h
  split at h
  · cases h
  · rename_i M₁ happ
    cases h
    exact fun u hu => Action.applyAll_of_not_mem happ u hu

theorem nopHandler_confined : (nopHandler pr).Confined := by
  intro tx a p ec M M' sm h
  simp only [nopHandler, newTxHandler] at h
  exact executeNopTx_confined h

end Nop

/-! ### A partition with the NOP module -/

/-- A tokens partition with the NOP module alone, at the type `22`: its predicate runner
accepts every predicate, its fees are those of the fee credit module, an order and a record
encode and hash to fixed bytes, and an order is credible (the record that pays for the orders
below exists and its balance covers their maximum fee). -/
def nopSystem : TxSystemEnv TokenUnitData TokenTx TokenAttributes TokenAuthProof where
  handlers type := if type = 22 then some (nopHandler fun _ _ _ _ => pure ()) else none
  pr _ _ _ _ := pure ()
  isFeeCreditTx _ := false
  isCredible _ _ := pure ()
  fees := FeeCreditModule.fees
  marshal _ := .ok [0]
  unmarshal _ := .error (.message "no order on hold")
  recordHash _ := .ok [1]
  stateLockIsValid _ := .ok ()
  logHash _ := [2]
  nopType := 22
  toFeeCreditRecord := TokenUnitData.toFeeCreditRecord
  ofFeeCreditRecord := .feeCreditRecord

/-- The NOP module changes only the unit its executor lists. -/
theorem nopSystem_confined : nopSystem.handlers.Confined := by
  intro type t ht
  simp only [nopSystem] at ht
  split_ifs at ht
  cases ht
  exact nopHandler_confined _

/-- The hooks of a tokens partition that hands its orders on to `nopSystem`; the id of an order
in the buffer is its unit id. -/
def nopHooks : Hooks Bytes (Payload TokenTx) (AbsState Bytes TokenUnitData) Bytes
    TransactionRecord Unit Unit TxError where
  txID tx := .ok tx.unitID
  process := process nopSystem
  beginBlockFunctions _ := pure ()
  endBlockFunctions _ := pure ()
  stateSummary := pure ()
  commitState _ := pure ()
  revertState st := st

/-- A state whose only unit, `[1]`, is a fee credit record with balance `10`. -/
def fcrState : AbsState Bytes TokenUnitData :=
  let M : UnitMap Bytes TokenUnitData :=
    Function.update (fun _ => none) [1] (some ⟨some (.feeCreditRecord ⟨10, [], 0, 0⟩), 0, none, []⟩)
  ⟨M, [M]⟩

/-- A NOP order on the fee credit record `[1]`, paid from that record. -/
def nopOnFeeCreditRecord : TxOrder TokenTx :=
  ⟨0, 0, [1], 10, ⟨22, ⟨.nop ⟨some 0⟩, .nop ⟨none⟩⟩, none, [], 5, [1]⟩⟩

/-- On the NOP partition, whose executor is confined, `Execute` of the NOP order on its fee
credit record returns a successful record. -/
theorem execute_all_or_nothing_nop :
    let m : GenericTxSystem Bytes (AbsState Bytes TokenUnitData) Bytes TxError :=
      GenericTxSystem.new ⟨0, 0⟩ (fun _ => .ok ()) fcrState fun _ => none
    let tx := nopOnFeeCreditRecord
    (∃ tr m', execute nopHooks tx m = .ok tr m' ∧
      tr.serverMetadata.successIndicator = .successful) ∧
    (∀ e m', execute nopHooks tx m = .error e m' →
      (m'.state = m.state ∨ DebitedUnlogged nopSystem tx m.state m'.state) ∧
      m'.etBuffer = m.etBuffer) ∧
    ∀ tr m', execute nopHooks tx m = .ok tr m' →
      (tr.serverMetadata.successIndicator = .failed → ChargedOnly nopSystem tx m.state tr m'.state) ∧
      (tr.serverMetadata.successIndicator = .successful →
        ChangedOnTargets m.state tr m'.state ∧
        (nopSystem.isFeeCreditTx tx = false → LoggedOnTargets nopSystem tx m.state tr m'.state) ∧
        (nopSystem.isFeeCreditTx tx = true → FcLoggedOnTargets nopSystem m.state tr m'.state)) :=
  ⟨⟨_, _, rfl, rfl⟩, execute_all_or_nothing nopSystem nopHooks rfl nopSystem_confined _ _
    (List.cons_ne_nil _ _)⟩

/-- A successful NOP order on its own fee credit record lists the record twice, once as its
target and once as the payer of its fee, and adds two logs to it. -/
theorem nop_logs_fee_credit_record_twice :
    ∃ txr st', process nopSystem 1 nopOnFeeCreditRecord fcrState = .ok txr st' ∧
      txr.serverMetadata.successIndicator = .successful ∧
      txr.serverMetadata.targetUnits = [[1], [1]] ∧
      (st'.savepoints.getLast?.bind (· [1])).map (·.logs.length) = some 2 :=
  ⟨_, _, rfl, rfl, rfl, rfl⟩

/-- `nopSystem` with a record hash that fails. -/
def nopSystemNoHash : TxSystemEnv TokenUnitData TokenTx TokenAttributes TokenAuthProof :=
  { nopSystem with recordHash _ := .error (.message "hashing failed") }

/-- A NOP order on the fee credit record `[1]` whose counter is not the record's. -/
def staleNopOrder : TxOrder TokenTx :=
  ⟨0, 0, [1], 10, ⟨22, ⟨.nop ⟨some 5⟩, .nop ⟨none⟩⟩, none, [], 5, [1]⟩⟩

/-- The recording-error exit is not all-or-nothing: the stale order fails its validation and
is rolled back, its fee of `1` is debited, its record fails to hash, and `Execute` fails with
the balance of the fee credit record down from `10` to `9`. -/
theorem hash_failure_keeps_fee :
    ∃ e st', process nopSystemNoHash 1 staleNopOrder fcrState = .error e st' ∧
      (((fcrState.savepoints.getLast?.bind (· [1])).bind (·.data)).bind
        TokenUnitData.toFeeCreditRecord).map FeeCreditRecord.balance = some 10 ∧
      (((st'.savepoints.getLast?.bind (· [1])).bind (·.data)).bind
        TokenUnitData.toFeeCreditRecord).map FeeCreditRecord.balance = some 9 :=
  ⟨_, _, rfl, rfl, rfl⟩

end BftCore.Txsystem.Tokens
