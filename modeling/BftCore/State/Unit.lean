import BftCore.Avl.Entries

/-!
# `state`: units and unit logs

The values of the state tree: `UnitV1` of `unit.go` and `Log` of `unit_log.go`.

* `Bytes`, with `Option Bytes` for a byte slice that may be nil: the code tells a nil
  state lock (`stateLockTx == nil`) from an empty one;
* `HashItem` and the hash function `H alg`: `abhash.HashValues(alg, ...)` and the writes to an
  `abhash` hasher, over the algorithm `alg : A` (`crypto.Hash`);
* `Log`, `UnitV1`, `UnitV1.clone` (the `avl.Value` instance of the state tree) and
  `addUnitLog` with the ledger head hash `unitLedgerHeadHash`;
* `UnitView`: the part of a unit that the actions and the ledger read (data, deletion round,
  state lock and logs).  `Clone` keeps it and drops the cached hashes, so the view of a unit
  is the same up to cloning (`CloneRel.view_eq`).

`types.UnitData` is a type `D` with the summary value `UnitData.summaryValueInput`; its
`Copy()` returns an equal value, so `copyData` is the identity here.
-/

namespace BftCore.State

open BftCore.Avl

/-- A byte slice. -/
abbrev Bytes := List UInt8

/-- `types.UnitData`: the value a unit adds to the summary of its subtree. -/
class UnitData (D : Type) where
  summaryValueInput : D → UInt64

/-- `types.UnitID`: a byte slice, which may be nil. -/
class UnitId (K : Type) where
  isNil : K → Bool

/-- A value written to an `abhash` hasher, which CBOR-encodes each one. -/
inductive HashItem (K D : Type) where
  | unitId (id : K)
  | bytes (b : Option Bytes)
  | uint64 (n : UInt64)
  /-- `types.UnitState{Data, DeletionRound, LockedTx}` of a log. -/
  | unitState (data : Option D) (deletionRound : UInt64) (lockedTx : Option Bytes)

/-- `state.Log`: one change of a unit in the current round. -/
structure Log (D : Type) where
  txRecordHash : Option Bytes
  unitLedgerHeadHash : Option Bytes
  newUnitData : Option D
  deletionRound : UInt64
  newStateLockTx : Option Bytes
  deriving DecidableEq

/-- `state.UnitV1`: the value of a node of the state tree. -/
structure UnitV1 (D : Type) where
  logs : List (Log D)
  logsHash : Option Bytes
  data : Option D
  deletionRound : UInt64
  stateLockTx : Option Bytes
  subTreeSummaryValue : UInt64
  subTreeSummaryHash : Option Bytes
  summaryCalculated : Bool
  deriving DecidableEq

/-- What the actions read and the ledger records of a unit. -/
structure UnitView (D : Type) where
  data : Option D
  deletionRound : UInt64
  stateLockTx : Option Bytes
  logs : List (Log D)
  deriving DecidableEq

namespace UnitV1

variable {A K D : Type}

/-- `Clone()`: the logs, the data, the lock, the deletion round and the subtree summary value
are copied; the logs hash and the subtree summary hash are dropped and `summaryCalculated`
is reset. -/
def clone (u : UnitV1 D) : UnitV1 D where
  logs := u.logs
  logsHash := none
  data := u.data
  deletionRound := u.deletionRound
  stateLockTx := u.stateLockTx
  subTreeSummaryValue := u.subTreeSummaryValue
  subTreeSummaryHash := none
  summaryCalculated := false

instance : Value (UnitV1 D) := ⟨clone⟩

/-- `IsDummy()`: the unit has no data. -/
def isDummy (u : UnitV1 D) : Bool := u.data.isNone

/-- `latestUnitLog()`: the last log, nil without logs. -/
def latestUnitLog (u : UnitV1 D) : Option (Log D) := u.logs.getLast?

def view (u : UnitV1 D) : UnitView D := ⟨u.data, u.deletionRound, u.stateLockTx, u.logs⟩

@[simp] theorem view_clone (u : UnitV1 D) : u.clone.view = u.view := rfl

@[simp] theorem value_clone (u : UnitV1 D) : Value.clone u = u.clone := rfl

section Log

variable (H : A → List (HashItem K D) → Bytes) (alg : A)

/-- `unitLedgerHeadHash(alg, txrHash)` of a unit with these logs: the transaction record hash
chained to the head of the unit ledger, nil for a unit without logs. -/
def unitLedgerHeadHash (logs : List (Log D)) (txrHash : Option Bytes) : Bytes :=
  match logs.getLast? with
  | none => H alg [.bytes none, .bytes txrHash]
  | some l => H alg [.bytes l.unitLedgerHeadHash, .bytes txrHash]

/-- `newUnitLog(alg, txrHash)`: the unit's current data, deletion round and lock, with the new
ledger head. -/
def newUnitLog (u : UnitV1 D) (txrHash : Option Bytes) : Log D where
  txRecordHash := txrHash
  unitLedgerHeadHash := some (unitLedgerHeadHash H alg u.logs txrHash)
  newUnitData := u.data
  deletionRound := u.deletionRound
  newStateLockTx := u.stateLockTx

/-- `AddUnitLog(alg, txrHash)`: appends the new log; the rest of the unit is unchanged. -/
def addUnitLog (u : UnitV1 D) (txrHash : Option Bytes) : UnitV1 D :=
  { u with logs := u.logs ++ [u.newUnitLog H alg txrHash] }

end Log

end UnitV1

/-- The view of a unit after `AddUnitLog(alg, txrHash)`: a log of its current state is
appended. -/
def UnitView.addUnitLog {A K D : Type} (H : A → List (HashItem K D) → Bytes) (alg : A)
    (w : UnitView D) (txrHash : Option Bytes) : UnitView D :=
  { w with logs := w.logs ++ [⟨txrHash, some (UnitV1.unitLedgerHeadHash H alg w.logs txrHash),
      w.data, w.deletionRound, w.stateLockTx⟩] }

@[simp] theorem UnitV1.view_addUnitLog {A K D : Type} (H : A → List (HashItem K D) → Bytes)
    (alg : A) (u : UnitV1 D) (txrHash : Option Bytes) :
    (u.addUnitLog H alg txrHash).view = u.view.addUnitLog H alg txrHash := rfl

/-- A unit and its clones have one view. -/
theorem CloneRel.view_eq {D : Type} {u w : UnitV1 D} (h : CloneRel u w) : u.view = w.view := by
  induction h with
  | refl => rfl
  | tail _ hstep ih =>
    rw [ih, hstep]
    rfl

end BftCore.State
