import BftCore.Txsystem.ETBuffer
import BftCore.Lib.Wp
import Mathlib

/-!
# `txsystem`: the generic transaction system

`generic_tx_system.go`: the methods of `GenericTxSystem` that a partition node calls once per
block, `BeginBlock`, `Execute`, `EndBlock` and `Commit` or `Revert`, with what they do to the
round number, the committed flag and the executed transactions buffer.

* `validateGenericTransaction`: network, partition and shard of the order, and its timeout,
  which must not be below the current round;
* `execute`: `Execute(tx)`, which refuses an order whose id the buffer holds, validates it,
  hands it on, and adds its id to the buffer when a record comes back;
* `beginBlock`, `endBlock`, `commit`, `revert`, and `Call`, `Call.run`, `runCalls`: the calls
  and runs of them;
* `InOrder`: the order in which the partition node makes the calls, each `BeginBlock` with a
  round number above the current one and `Execute` only between a `BeginBlock` and the next
  `EndBlock`, `Commit` or `Revert`.

What the system hands on to its state and modules is a parameter, `Hooks`: the transaction
hash, the rest of `Execute` after the generic validation (`snFees`, then `executeFc` or
`IsCredible` and `doExecute`), the begin- and end-block functions, and the state's
`CalculateRoot`, `Commit` and `Revert`.  The buffer's part of the state summary is left out.
-/

namespace BftCore.Txsystem

open EStateM

/-- The part of `types.PartitionDescriptionRecord` that `validateGenericTransaction` reads. -/
structure PartitionDescriptionRecord where
  networkID : UInt16
  partitionID : UInt32
  deriving DecidableEq

/-- `types.TransactionOrder`: the fields that the generic transaction system reads, over any
type `K` of unit ids, and the rest of the order (attributes, state lock, proofs and the other
client metadata) as `payload`. -/
structure TransactionOrder (K A : Type) where
  networkID : UInt16
  partitionID : UInt32
  unitID : K
  /-- `ClientMetadata.Timeout`: the last round in which the order may be executed. -/
  timeout : UInt64
  payload : A
  deriving DecidableEq

/-- The errors of `validateGenericTransaction`; `E` is the error of the unit id validator. -/
inductive ValidationError (E : Type) where
  | invalidNetworkID (got expected : UInt16)
  | invalidPartitionID
  | invalidUnitID (e : E)
  | transactionExpired

/-- The errors of the methods of `GenericTxSystem`; `E` is the error of what they hand on. -/
inductive TxSystemError (E : Type) where
  | hash (e : E)
  | alreadyExecuted
  | invalid (e : ValidationError E)
  | process (e : E)
  | beginBlock (e : E)
  | endBlock (e : E)
  | state (e : E)

/-- The texts of the errors, `msg` giving those of the errors handed on. -/
def ValidationError.message {E : Type} (msg : E → String) : ValidationError E → String
  | .invalidNetworkID got expected => s!"invalid network id: {got} (expected {expected})"
  | .invalidPartitionID => "error invalid partition identifier"
  | .invalidUnitID e => msg e
  | .transactionExpired =>
    "transaction timeout must be greater than or equal to the current round number"

/-- The texts of the errors; those of the rest of `Execute` and of the state have their own
wrapping, given by `msg`. -/
def TxSystemError.message {E : Type} (msg : E → String) : TxSystemError E → String
  | .hash e => "failed to hash transaction: " ++ msg e
  | .alreadyExecuted => "transaction already executed"
  | .invalid e => "invalid transaction: " ++ e.message msg
  | .process e => msg e
  | .beginBlock e => "begin block function call failed: " ++ msg e
  | .endBlock e => "end block function call failed: " ++ msg e
  | .state e => msg e

/-- `GenericTxSystem`: the fields its block methods read and write, over a state of type `S`
and transaction ids of type `I`. -/
structure GenericTxSystem (K S I E : Type) where
  pdr : PartitionDescriptionRecord
  unitIDValidator : K → Except E Unit
  state : S
  currentRoundNumber : UInt64
  roundCommitted : Bool
  etBuffer : ETBuffer I

/-- What the methods hand on: to the hash of the order, to the state and to the modules. -/
structure Hooks (K A S I R U Q E : Type) where
  /-- `tx.Hash(m.hashAlgorithm)`, hex-encoded: the id of the order in the buffer. -/
  txID : TransactionOrder K A → Except E I
  /-- The rest of `Execute` after the generic validation, at the current round: `snFees`, then
  `executeFc` for a fee credit order, `IsCredible` and `doExecute` for the others. -/
  process : UInt64 → TransactionOrder K A → EStateM E S R
  /-- The begin-block functions in order (`pruneState`, `rInit`, then the modules'). -/
  beginBlockFunctions : UInt64 → EStateM E S Unit
  /-- The end-block functions in order. -/
  endBlockFunctions : UInt64 → EStateM E S Unit
  /-- `state.CalculateRoot()`, the state's part of `getStateSummary`. -/
  stateSummary : EStateM E S Q
  /-- `state.Commit(uc)`. -/
  commitState : U → EStateM E S Unit
  /-- `state.Revert()`. -/
  revertState : S → S

variable {K A S I R U Q E : Type}

namespace GenericTxSystem

/-- `NewGenericTxSystem`: round `0`, not committed, and the executed transactions of a stored
state in the buffer. -/
def new (pdr : PartitionDescriptionRecord) (unitIDValidator : K → Except E Unit) (state : S)
    (executedTransactions : I → Option UInt64) : GenericTxSystem K S I E :=
  ⟨pdr, unitIDValidator, state, 0, false, ETBuffer.ofExecuted executedTransactions⟩

/-- `validateGenericTransaction(tx)`. -/
def validateGenericTransaction (m : GenericTxSystem K S I E) (tx : TransactionOrder K A) :
    Except (ValidationError E) Unit :=
  if m.pdr.networkID ≠ tx.networkID then .error (.invalidNetworkID tx.networkID m.pdr.networkID)
  else if m.pdr.partitionID ≠ tx.partitionID then .error .invalidPartitionID
  else
    match m.unitIDValidator tx.unitID with
    | .error e => .error (.invalidUnitID e)
    | .ok () => if m.currentRoundNumber > tx.timeout then .error .transactionExpired else .ok ()

/-- A valid order has not expired: its timeout is at least the current round. -/
theorem currentRoundNumber_le_of_valid {m : GenericTxSystem K S I E} {tx : TransactionOrder K A}
    (h : m.validateGenericTransaction tx = .ok ()) : m.currentRoundNumber ≤ tx.timeout := by
  unfold validateGenericTransaction at h
  split_ifs at h with hn hp ht
  · split at h <;> cases h
  · exact UInt64.not_lt.mp ht

end GenericTxSystem

section Methods

variable [DecidableEq I] (hooks : Hooks K A S I R U Q E)

open GenericTxSystem

/-- `Execute(tx)`: an order whose id the buffer holds is refused, and so is one that fails the
generic validation; the rest of the execution is handed on, and a record that comes back adds
the id with the order's timeout to the buffer (the deferred `etBuffer.Add`). -/
def execute (tx : TransactionOrder K A) :
    EStateM (TxSystemError E) (GenericTxSystem K S I E) R := fun m =>
  match hooks.txID tx with
  | .error e => .error (.hash e) m
  | .ok txID =>
    match m.etBuffer.get txID with
    | some _ => .error .alreadyExecuted m
    | none =>
      match m.validateGenericTransaction tx with
      | .error e => .error (.invalid e) m
      | .ok () =>
        match hooks.process m.currentRoundNumber tx m.state with
        | .ok tr s' => .ok tr { m with state := s', etBuffer := m.etBuffer.add txID tx.timeout }
        | .error e s' => .error (.process e) { m with state := s' }

/-- `BeginBlock(roundNo)`: the round number is set and the committed flag cleared before the
begin-block functions run. -/
def beginBlock (roundNo : UInt64) : EStateM (TxSystemError E) (GenericTxSystem K S I E) Unit :=
  fun m =>
    let m := { m with currentRoundNumber := roundNo, roundCommitted := false }
    match hooks.beginBlockFunctions roundNo m.state with
    | .ok () s' => .ok () { m with state := s' }
    | .error e s' => .error (.beginBlock e) { m with state := s' }

/-- `EndBlock()`: the buffer drops what expires by the current round, then the end-block
functions run and the state summary is computed. -/
def endBlock : EStateM (TxSystemError E) (GenericTxSystem K S I E) Q := fun m =>
  let m := { m with etBuffer := m.etBuffer.clearExpired m.currentRoundNumber }
  match hooks.endBlockFunctions m.currentRoundNumber m.state with
  | .error e s' => .error (.endBlock e) { m with state := s' }
  | .ok () s' =>
    match hooks.stateSummary s' with
    | .ok q s'' => .ok q { m with state := s'' }
    | .error e s'' => .error (.state e) { m with state := s'' }

/-- `Commit(uc)`: when the state commits, the round is marked committed and the buffer commits
its pending entries. -/
def commit (uc : U) : EStateM (TxSystemError E) (GenericTxSystem K S I E) Unit := fun m =>
  match hooks.commitState uc m.state with
  | .ok () s' => .ok () { m with state := s', roundCommitted := true, etBuffer := m.etBuffer.commit }
  | .error e s' => .error (.state e) { m with state := s' }

/-- `Revert()`: nothing once the round is committed; otherwise the state and the buffer drop
the changes of the round. -/
def revert (m : GenericTxSystem K S I E) : GenericTxSystem K S I E :=
  if m.roundCommitted then m
  else { m with state := hooks.revertState m.state, etBuffer := m.etBuffer.revert }

end Methods

/-- The calls a partition node makes on its transaction system. -/
inductive Call (K A U : Type) where
  | beginBlock (roundNo : UInt64)
  | execute (tx : TransactionOrder K A)
  | endBlock
  | commit (uc : U)
  | revert

namespace Call

variable [DecidableEq I] (hooks : Hooks K A S I R U Q E)

/-- The system a call leaves, its result or error dropped. -/
def run : Call K A U → GenericTxSystem K S I E → GenericTxSystem K S I E
  | .beginBlock roundNo => final (Txsystem.beginBlock hooks roundNo)
  | .execute tx => final (Txsystem.execute hooks tx)
  | .endBlock => final (Txsystem.endBlock hooks)
  | .commit uc => final (Txsystem.commit hooks uc)
  | .revert => Txsystem.revert hooks

/-- Whether a block is open after the call: `BeginBlock` opens one, `Execute` leaves it as it
was, and `EndBlock`, `Commit` and `Revert` close it. -/
def opens : Call K A U → Bool → Bool
  | .beginBlock _, _ => true
  | .execute _, o => o
  | _, _ => false

/-- The calls the partition node makes, at round `round` with the block open or not: a
`BeginBlock` for a later round, and an `Execute` in an open block. -/
def Allowed : Call K A U → Bool → UInt64 → Prop
  | .beginBlock roundNo, _, round => round < roundNo
  | .execute _, o, _ => o = true
  | _, _, _ => True

instance (c : Call K A U) (o : Bool) (round : UInt64) : Decidable (c.Allowed o round) :=
  match c with
  | .beginBlock roundNo => inferInstanceAs (Decidable (round < roundNo))
  | .execute _ => inferInstanceAs (Decidable (o = true))
  | .endBlock => inferInstanceAs (Decidable True)
  | .commit _ => inferInstanceAs (Decidable True)
  | .revert => inferInstanceAs (Decidable True)

end Call

/-! ### What each call does to the buffer and the round -/

section Specs

variable [DecidableEq I] (hooks : Hooks K A S I R U Q E)

/-- `Execute` returns a record only for an order whose id the buffer did not hold and that
passed the generic validation; the id is then in the buffer with the order's timeout. -/
theorem execute_eq_ok {tx : TransactionOrder K A} {m m' : GenericTxSystem K S I E} {tr : R}
    (h : execute hooks tx m = .ok tr m') :
    ∃ x, hooks.txID tx = .ok x ∧ m.etBuffer.get x = none ∧
      m.validateGenericTransaction tx = .ok () ∧
      m'.etBuffer = m.etBuffer.add x tx.timeout ∧ m'.currentRoundNumber = m.currentRoundNumber := by
  unfold execute at h
  split at h
  · cases h
  · rename_i x hx
    split at h
    · cases h
    · rename_i hget
      split at h
      · cases h
      · rename_i hv
        split at h
        · cases h
          exact ⟨x, hx, hget, hv, rfl, rfl⟩
        · cases h

/-- A failed `Execute` leaves the buffer and the round as they were. -/
theorem execute_eq_error {tx : TransactionOrder K A} {m m' : GenericTxSystem K S I E}
    {e : TxSystemError E} (h : execute hooks tx m = .error e m') :
    m'.etBuffer = m.etBuffer ∧ m'.currentRoundNumber = m.currentRoundNumber := by
  unfold execute at h
  split at h
  · cases h
    exact ⟨rfl, rfl⟩
  · split at h
    · cases h
      exact ⟨rfl, rfl⟩
    · split at h
      · cases h
        exact ⟨rfl, rfl⟩
      · split at h
        · cases h
        · cases h
          exact ⟨rfl, rfl⟩

theorem run_beginBlock (roundNo : UInt64) (m : GenericTxSystem K S I E) :
    ((Call.beginBlock roundNo : Call K A U).run hooks m).etBuffer = m.etBuffer ∧
      ((Call.beginBlock roundNo : Call K A U).run hooks m).currentRoundNumber = roundNo := by
  simp only [Call.run, final, beginBlock]
  split <;> rename_i h <;> split at h <;> cases h <;> exact ⟨rfl, rfl⟩

theorem run_endBlock (m : GenericTxSystem K S I E) :
    ((Call.endBlock : Call K A U).run hooks m).etBuffer =
        m.etBuffer.clearExpired m.currentRoundNumber ∧
      ((Call.endBlock : Call K A U).run hooks m).currentRoundNumber = m.currentRoundNumber := by
  simp only [Call.run, final, endBlock]
  split <;> rename_i h <;> split at h <;> (try split at h) <;> cases h <;> exact ⟨rfl, rfl⟩

omit [DecidableEq I] in
theorem commit_eq_ok {uc : U} {m m' : GenericTxSystem K S I E}
    (h : commit hooks uc m = .ok () m') :
    m'.etBuffer = m.etBuffer.commit ∧ m'.currentRoundNumber = m.currentRoundNumber := by
  unfold commit at h
  split at h <;> cases h
  exact ⟨rfl, rfl⟩

omit [DecidableEq I] in
theorem commit_eq_error {uc : U} {m m' : GenericTxSystem K S I E} {e : TxSystemError E}
    (h : commit hooks uc m = .error e m') :
    m'.etBuffer = m.etBuffer ∧ m'.currentRoundNumber = m.currentRoundNumber := by
  unfold commit at h
  split at h <;> cases h
  exact ⟨rfl, rfl⟩

theorem run_revert (m : GenericTxSystem K S I E) :
    ((Call.revert : Call K A U).run hooks m).etBuffer =
        (if m.roundCommitted then m.etBuffer else m.etBuffer.revert) ∧
      ((Call.revert : Call K A U).run hooks m).currentRoundNumber = m.currentRoundNumber := by
  simp only [Call.run, revert]
  split <;> exact ⟨rfl, rfl⟩

end Specs

section Runs

variable [DecidableEq I] (hooks : Hooks K A S I R U Q E)

/-- The system a sequence of calls leaves. -/
def runCalls : List (Call K A U) → GenericTxSystem K S I E → GenericTxSystem K S I E
  | [], m => m
  | c :: cs, m => runCalls cs (c.run hooks m)

@[simp] theorem runCalls_nil (m : GenericTxSystem K S I E) : runCalls hooks [] m = m := rfl

@[simp] theorem runCalls_cons (c : Call K A U) (cs : List (Call K A U))
    (m : GenericTxSystem K S I E) : runCalls hooks (c :: cs) m = runCalls hooks cs (c.run hooks m) :=
  rfl

theorem runCalls_append (cs cs' : List (Call K A U)) (m : GenericTxSystem K S I E) :
    runCalls hooks (cs ++ cs') m = runCalls hooks cs' (runCalls hooks cs m) := by
  induction cs generalizing m with
  | nil => rfl
  | cons c cs ih => exact ih _

/-- A sequence of calls in the partition node's order, from a system whose block is open
(`o`) or not. -/
def InOrder : Bool → GenericTxSystem K S I E → List (Call K A U) → Prop
  | _, _, [] => True
  | o, m, c :: cs => c.Allowed o m.currentRoundNumber ∧ InOrder (c.opens o) (c.run hooks m) cs

instance decInOrder : (o : Bool) → (m : GenericTxSystem K S I E) → (cs : List (Call K A U)) →
    Decidable (InOrder hooks o m cs)
  | _, _, [] => inferInstanceAs (Decidable True)
  | o, m, c :: cs =>
    haveI := decInOrder (c.opens o) (c.run hooks m) cs
    inferInstanceAs (Decidable (c.Allowed o m.currentRoundNumber ∧ _))

theorem InOrder.append_left {o : Bool} {m : GenericTxSystem K S I E} {cs cs' : List (Call K A U)}
    (h : InOrder hooks o m (cs ++ cs')) : InOrder hooks o m cs := by
  induction cs generalizing o m with
  | nil => trivial
  | cons c cs ih => exact ⟨h.1, ih h.2⟩

end Runs

end BftCore.Txsystem
