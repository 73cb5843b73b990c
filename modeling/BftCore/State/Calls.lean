import BftCore.State.Hasher
import BftCore.State.Savepoints

/-!
# `state`: hashing, committing and pruning the latest savepoint

The calls of `state.go` that change the state besides those of `Op`:

* `calculateRoot`: `CalculateRoot()`, the latest savepoint committed with the state hasher,
  and the summary cached at its root;
* `commit uc`: `Commit(uc)`, which checks that the latest savepoint is clean and that the
  certificate `uc` certifies the summary of its root, and then makes it the committed tree
  and the only savepoint;
* `prune`: `Prune()`, the `statePruner` traversing the latest savepoint, which replaces every
  unit with more than one log by a clone whose only log carries the head hash of the latest
  one;
* `Call`, `CallReachable`: the calls of the whole API, and the states that sequences of them
  reach from `NewEmptyState()`.

Of the unicity certificate only the two fields of its input record that `Commit` compares
are modelled; the certificate itself is stored by `Commit` and read by nothing modelled here.
-/

namespace BftCore.State

open BftCore.Avl BftCore.Avl.Heap EStateM

variable {A K D ε : Type}

/-- `types.UnicityCertificate`, with the two fields of its input record that `Commit` reads. -/
structure UnicityCertificate where
  /-- `InputRecord.Hash` -/
  hash : Option Bytes
  /-- `InputRecord.SummaryValue` -/
  summaryValue : Option Bytes
  deriving DecidableEq

/-- `bytes.Equal`: a nil slice equals an empty one. -/
def bytesEqual (a b : Option Bytes) : Bool := a.getD [] == b.getD []

/-- `util.Uint64ToBytes` of `bft-go-base`: the eight bytes of the value, big-endian. -/
def uint64ToBytes (n : UInt64) : Bytes :=
  ([56, 48, 40, 32, 24, 16, 8, 0] : List UInt64).map fun k => (n >>> k).toUInt8

namespace State

section Hash

variable [UnitData D] (H : A → List (HashItem K D) → Bytes) (alg : A)
  (logsRoot : A → List (Log D) → Option Bytes)

/-- `CalculateRoot()`: the latest savepoint is committed, its traverser being the state
hasher, and the summary value and hash cached at its root are returned, `(0, nil)` for an
empty tree. -/
def calculateRoot : StateM K D ε (UInt64 × Option Bytes) := fun σ =>
  match σ.savepoints.getLast? with
  | none => .error .panic σ
  | some sp =>
    match (do Tree.hashCommit H alg logsRoot sp; subTreeSummary sp.root) σ.store with
    | .ok summary s' => .ok summary { σ with store := s' }
    | .error e s' =>
      .error ((StateError.ofStore e).wrap "unable to commit savepoint") { σ with store := s' }

end Hash

/-- `Commit(uc)`: the latest savepoint must be clean, and `uc` must certify the summary
value and hash of its root; the savepoint then becomes the committed tree (a clone of it) and
the only savepoint.  The reads cannot fail on a tree of the store; a failed one would be a
nil pointer dereferenced. -/
def commit (uc : UnicityCertificate) : StateM K D ε PUnit := fun σ =>
  match σ.savepoints.getLast? with
  | none => .error .panic σ
  | some sp =>
    match (do
        let clean ← sp.isClean
        let summary ← subTreeSummary sp.root
        pure (clean, summary) : StoreM K (UnitV1 D) _) σ.store with
    | .error _ _ => .error .panic σ
    | .ok (clean, summaryValue, summaryHash) _ =>
      if !clean then .error (.message "call CalculateRoot method before committing a state") σ
      else if !bytesEqual uc.hash summaryHash then
        .error (.message "state summary hash is not equal to the summary hash in UC") σ
      else if !bytesEqual uc.summaryValue (some (uint64ToBytes summaryValue)) then
        .error (.message "state summary value is not equal to the summary value in UC") σ
      else .ok () { σ with committedTree := sp.clone, savepoints := [sp] }

end State

/-! ### The pruner -/

/-- The unit the pruner writes for a unit with more than one log: a clone whose only log has
no transaction record hash, the head hash of the latest log, and the unit's own data,
deletion round and lock (`NewUnitLog(nil, latestLog.UnitLedgerHeadHash, ...)`). -/
def UnitV1.pruned (u : UnitV1 D) (latestLog : Log D) : UnitV1 D :=
  { u.clone with
    logs := [⟨none, latestLog.unitLedgerHeadHash, u.data, u.deletionRound, u.stateLockTx⟩] }

/-- The pruner works on the store and on the pruned tree, whose root its `Update` calls
replace: the tree object is the latest savepoint. -/
abbrev PruneM (K D ε : Type) := EStateM (StateError K ε) (Store K (UnitV1 D) × Tree)

namespace PruneM

/-- The record at `n`, read through the node pointer the traverser holds. -/
def node (n : Nat) : PruneM K D ε (Cell K (UnitV1 D)) := fun st =>
  match deref (some n) st.1 with
  | .ok (_, c) s' => .ok c (s', st.2)
  | .error e s' => .error (StateError.ofStore e) (s', st.2)

/-- `prunedTree.Update(key, value)`: on success the tree takes the new root. -/
def update [Ord K] (key : K) (value : UnitV1 D) : PruneM K D ε Unit := fun st =>
  match (liftStore (st.2.update key value) : ActionM K D ε Tree) st.1 with
  | .ok t' s' => .ok () (s', t')
  | .error e s' => .error e (s', st.2)

end PruneM

/-- `statePruner.Traverse(n)`: the left subtree, then the right one, its pointer read from the
record after the left traversal, then the unit, replaced in the pruned tree by its pruned
clone if it has more than one log.  The first error is returned, the updates before it kept. -/
def pruneTraverse [Ord K] : Nat → Option Nat → PruneM K D ε Unit
  | 0, _ => throw (StateError.ofStore .exhausted)
  | _ + 1, none => pure ()
  | fuel + 1, some n => do
    pruneTraverse fuel (← PruneM.node n).left
    pruneTraverse fuel (← PruneM.node n).right
    let c ← PruneM.node n
    let logSize := c.value.logs.length
    if logSize ≤ 1 then pure ()
    else
      match c.value.logs[logSize - 1]? with
      -- the index is in range: there are at least two logs
      | none => pure ()
      | some latestLog => PruneM.update c.key (c.value.pruned latestLog)

/-- `Prune()`: the pruner traverses the latest savepoint from its root, and the savepoint is
the tree its updates leave, also after an error. -/
def State.prune [Ord K] : StateM K D ε PUnit := fun σ =>
  match σ.savepoints.getLast? with
  | none => .error .panic σ
  | some sp =>
    match pruneTraverse (σ.store.next + 1) sp.root (σ.store, sp) with
    | .ok () (s', sp') =>
      .ok () { σ with store := s', savepoints := SavepointStack.setTop sp' σ.savepoints }
    | .error e (s', sp') =>
      .error e { σ with store := s', savepoints := SavepointStack.setTop sp' σ.savepoints }

/-! ### The whole API -/

/-- The calls of the API that change the state. -/
inductive Call (K D ε : Type) where
  | op (o : Op K D ε)
  | calculateRoot
  | commit (uc : UnicityCertificate)
  | prune

section Runs

variable [Ord K] [UnitId K] [UnitData D] (H : A → List (HashItem K D) → Bytes) (alg : A)
  (logsRoot : A → List (Log D) → Option Bytes)

/-- A call, its result dropped. -/
def Call.run : Call K D ε → StateM K D ε PUnit
  | .op o => o.run H alg
  | .calculateRoot => EStateM.dropResult (State.calculateRoot H alg logsRoot)
  | .commit uc => State.commit uc
  | .prune => State.prune

/-- The states that a sequence of calls from `NewEmptyState()` reaches, none of them
panicking. -/
inductive CallReachable : State K D → Prop
  | empty : CallReachable State.empty
  | call {σ σ' : State K D} (c : Call K D ε) :
      CallReachable σ → Ends (c.run H alg logsRoot) σ σ' → CallReachable σ'

end Runs

end BftCore.State
