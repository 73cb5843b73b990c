import BftCore.Keyvaluedb.MemoryDB
import BftCore.Lib.Except
import BftCore.Lib.Wp
import BftCore.State.Calls
import BftCore.Lib.Bytes

/-!
# `partition`: the proof indexer

The `ProofIndexer` (`proof_indexer.go`) keeps an index of the blocks a partition node commits,
from which the node serves proofs: the round and position of each transaction, under the hash of
its order, and for each unit a transaction changed, the unit's state and its proof, under the
unit id followed by the order hash.  A history record of each round lists the unit proofs the
round added, so that `historyCleanup` deletes them `historySize` rounds later.

* `IndexRecord`, `TxRecordEnv`, `UnitAndProof`: the records of the index, what the indexer reads
  of a transaction record and of a log, and the state a block was committed in;
* `indexLog`, `indexUnit`, `indexTx`: the bodies of the three nested loops of `create`, each loop
  a `List.foldlM`; `create`, `latestIndexedBlockNumber`, `historyCleanup`, `indexBlock`, `loop`,
  `readTransactionIndex` and `readUnitProofIndex`;
* `Sound blocks`: every transaction index entry and every unit proof of the store stands for a
  transaction of one of `blocks` (`TxIndexed`, `ProofIndexed`); every call keeps it, so that
  over any run of `loop` what the two readers return is what the blocks had
  (`readTransactionIndex_sound`, `readUnitProofIndex_sound`);
* `create_ignores_proof_errors`: the error of a unit proof that cannot be made goes to a
  variable declared in the body of the loop over the units, which is dropped with it, so
  `create` commits the block without the proof and records its round.

The store is the `MemoryDB`; a transaction of `create` or `historyCleanup` is a copy of its map,
which the call returns to be committed, or drops.  `GetUnit(id, true)` is read as the unit
`state.ToUnitV1` makes of it; the failure of that conversion is left out.  Errors joined by
`errors.Join` are joined by a newline, as their messages are.
-/

namespace BftCore.Partition

open BftCore.State BftCore.Keyvaluedb

/-- The records of the index: `TxIndex`, `types.UnitStateWithProof`, the latest round number and
`historyIndex`. -/
inductive IndexRecord (S P : Type) where
  | txIndex (roundNumber : UInt64) (txOrderIndex : Nat)
  | unitStateWithProof (state : S) (proof : P)
  | roundNumber (n : UInt64)
  | historyIndex (unitProofIndexKeys : List Bytes)

/-- What the indexer reads of a transaction record of a block, and of a log of a unit. -/
structure TxRecordEnv (R O D S : Type) where
  /-- `tx.GetTransactionOrderV1()` -/
  getTransactionOrderV1 : R → Except String O
  /-- `txo.Hash(p.hashAlgorithm)` -/
  orderHash : O → Except String Bytes
  /-- `tx.Hash(p.hashAlgorithm)` -/
  recordHash : R → Except String Bytes
  /-- `tx.TargetUnits()` -/
  targetUnits : R → List Bytes
  /-- `unitLog.UnitState()` -/
  unitState : Log D → Except String S

/-- `UnitAndProof`: the state a block was committed in. -/
structure UnitAndProof (D P : Type) where
  /-- `GetUnit(id, true)` -/
  getUnit : Bytes → Except String (UnitV1 D)
  /-- `CreateUnitStateProof(id, logIndex)` -/
  createUnitStateProof : Bytes → Nat → Except String P

/-- `keyLatestRoundNumber`: the bytes of `latestRoundNumber`. -/
def keyLatestRoundNumber : Bytes := "latestRoundNumber".toList.map fun c => c.toNat.toUInt8

/-- The start of the decoder's message for a record read as another type than it was written
as; the rest of the message is left out. -/
def decodeMismatch : String := "cbor: cannot unmarshal"

namespace ProofIndexer

variable {R O D S P : Type} (E : TxRecordEnv R O D S)

/-! ### The calls -/

/-- The body of the loop over the logs of a unit, for the log `unitLog` at index `j`.  A log of
another transaction is skipped, and so is a log whose proof or state cannot be made. -/
def indexLog (rd : UnitAndProof D P) (unitID txoHash txrHash : Bytes)
    (acc : List Bytes × MemoryDB (IndexRecord S P)) (p : Log D × Nat) :
    Except String (List Bytes × MemoryDB (IndexRecord S P)) :=
  if !bytesEqual p.1.txRecordHash (some txrHash) then .ok acc
  else
    match rd.createUnitStateProof unitID p.2 with
    -- the error is joined to the `err` of the loop over the units, which nothing reads
    | .error _ => .ok acc
    | .ok unitStateProof =>
      match E.unitState p.1 with
      | .error _ => .ok acc
      | .ok unitState =>
        match acc.2.write (unitID ++ txoHash) (.unitStateWithProof unitState unitStateProof) with
        | .error e => .error ("unit proof write failed: " ++ e)
        | .ok dbTx => .ok (acc.1 ++ [unitID ++ txoHash], dbTx)

/-- The body of the loop over the target units of a transaction. -/
def indexUnit (rd : UnitAndProof D P) (txoHash txrHash : Bytes)
    (acc : List Bytes × MemoryDB (IndexRecord S P)) (unitID : Bytes) :
    Except String (List Bytes × MemoryDB (IndexRecord S P)) :=
  match rd.getUnit unitID with
  | .error e => .error ("unit load failed: " ++ e)
  | .ok u => u.logs.zipIdx.foldlM (indexLog E rd unitID txoHash txrHash) acc

/-- The body of the loop over the transactions of a block, for the transaction `tx` at index
`i`. -/
def indexTx (roundNumber : UInt64) (rd : UnitAndProof D P)
    (acc : List Bytes × MemoryDB (IndexRecord S P)) (p : R × Nat) :
    Except String (List Bytes × MemoryDB (IndexRecord S P)) :=
  match E.getTransactionOrderV1 p.1 with
  | .error e => .error ("unable to get transaction order: " ++ e)
  | .ok txo =>
    match E.orderHash txo with
    | .error e => .error ("unable to hash transaction order: " ++ e)
    | .ok txoHash =>
      match acc.2.write txoHash (.txIndex roundNumber p.2) with
      | .error e => .error e
      | .ok dbTx =>
        match E.recordHash p.1 with
        | .error e => .error ("unable to hash transaction record: " ++ e)
        | .ok txrHash => (E.targetUnits p.1).foldlM (indexUnit E rd txoHash txrHash) (acc.1, dbTx)

/-- `create(block, roundNumber, stateReader)`: the store to commit, or the error on which the
transaction is rolled back. -/
def create (block : List R) (roundNumber : UInt64) (rd : UnitAndProof D P)
    (storage : MemoryDB (IndexRecord S P)) : Except String (MemoryDB (IndexRecord S P)) :=
  match block.zipIdx.foldlM (indexTx E roundNumber rd) ([], storage) with
  | .error e => .error e
  | .ok (history, dbTx) =>
    match dbTx.write keyLatestRoundNumber (.roundNumber roundNumber) with
    | .error e => .error ("round number update failed: " ++ e)
    | .ok dbTx =>
      -- the history record is written only for a block with transactions
      if block.length > 0 then
        match dbTx.write (uint64ToBytes roundNumber) (.historyIndex history) with
        | .error e => .error ("history index write failed: " ++ e)
        | .ok dbTx => .ok dbTx
      else .ok dbTx

/-- `latestIndexedBlockNumber()`: 0 when the entry is missing or does not decode. -/
def latestIndexedBlockNumber (storage : MemoryDB (IndexRecord S P)) : UInt64 :=
  match storage.read keyLatestRoundNumber with
  | .ok (some (.roundNumber n)) => n
  | _ => 0

/-- The loop of `historyCleanup` over the keys of a history record: each key is deleted in turn,
and the error of a failed delete joined to those before it. -/
def deleteKeys : List Bytes → List String × MemoryDB (IndexRecord S P) →
    List String × MemoryDB (IndexRecord S P)
  | [], acc => acc
  | key :: keys, (errs, dbTx) =>
    match dbTx.delete key with
    | .error e => deleteKeys keys (errs ++ ["unable to delete unit poof index: " ++ e], dbTx)
    | .ok dbTx' => deleteKeys keys (errs, dbTx')

/-- `historyCleanup(round)`: the unit proofs of round `round - historySize` are deleted with its
history record, or nothing is when one of them cannot be. -/
def historyCleanup (historySize round : UInt64) (storage : MemoryDB (IndexRecord S P)) :
    Except String (MemoryDB (IndexRecord S P)) :=
  if historySize = 0 ∨ round < historySize ∨ round - historySize ≤ 0 then .ok storage
  else
    match storage.read (uint64ToBytes (round - historySize)) with
    | .error e => .error ("unable to read delete index: " ++ e)
    | .ok none => .ok storage
    | .ok (some (.historyIndex keys)) =>
      match deleteKeys keys ([], storage) with
      | ([], dbTx) =>
        match dbTx.delete (uint64ToBytes (round - historySize)) with
        | .error e => .error ("unable to delete history index: " ++ e)
        | .ok dbTx => .ok dbTx
      | (errs, _) => .error ("\n".intercalate errs)
    | .ok (some _) => .error ("unable to read delete index: " ++ decodeMismatch)

/-- `IndexBlock(block, roundNumber, state)`: a block of a round at most the latest one indexed is
skipped.  The clean-up runs in a transaction of its own after `create` has committed, so that a
clean-up error leaves the block indexed. -/
def indexBlock (historySize : UInt64) (block : List R) (roundNumber : UInt64)
    (rd : UnitAndProof D P) : EStateM String (MemoryDB (IndexRecord S P)) Unit := fun storage =>
  if roundNumber ≤ latestIndexedBlockNumber storage then .ok () storage
  else
    match create E block roundNumber rd storage with
    | .error e => .error ("creating index failed: " ++ e) storage
    | .ok storage' =>
      match historyCleanup historySize roundNumber storage' with
      | .error e => .error ("index clean-up failed: " ++ e) storage'
      | .ok storage'' => .ok () storage''

/-- `loop`: the blocks of the channel in turn, each with its round number and the state it was
committed in.  A block whose round number cannot be read is skipped, and an indexing error is
logged; the next block is indexed in the store the call left. -/
def loop (historySize : UInt64) :
    List (List R × Except String UInt64 × UnitAndProof D P) → MemoryDB (IndexRecord S P) →
      MemoryDB (IndexRecord S P)
  | [], storage => storage
  | (block, roundNumber, rd) :: bs, storage =>
    match roundNumber with
    | .error _ => loop historySize bs storage
    | .ok r => loop historySize bs (EStateM.final (indexBlock E historySize block r rd) storage)

/-- `ReadTransactionIndex(db, txOrderHash)`: the round and the position of the transaction. -/
def readTransactionIndex (storage : MemoryDB (IndexRecord S P)) (txOrderHash : Bytes) :
    Except String (UInt64 × Nat) :=
  match storage.read txOrderHash with
  | .error e => .error ("tx index query failed: " ++ e)
  | .ok none => .error "index not found"
  | .ok (some (.txIndex roundNumber txOrderIndex)) => .ok (roundNumber, txOrderIndex)
  | .ok (some _) => .error ("tx index query failed: " ++ decodeMismatch)

/-- `ReadUnitProofIndex(db, unitID, txOrderHash)`: the state of the unit after the transaction,
and its proof. -/
def readUnitProofIndex (storage : MemoryDB (IndexRecord S P)) (unitID txOrderHash : Bytes) :
    Except String (S × P) :=
  match storage.read (unitID ++ txOrderHash) with
  | .error e => .error ("tx index query failed: " ++ e)
  | .ok none => .error "index not found"
  | .ok (some (.unitStateWithProof st proof)) => .ok (st, proof)
  | .ok (some _) => .error ("tx index query failed: " ++ decodeMismatch)

/-! ### A sample block -/

/-- Transaction records that are numbers: the order of `n` is `n`, hashed to nine bytes `n`, its
record hashes to `n + 100`, and it targets the unit `[7]`; a log's state is its deletion round. -/
def sampleEnv : TxRecordEnv Nat Nat Nat UInt64 where
  getTransactionOrderV1 n := .ok n
  orderHash n := .ok (List.replicate 9 n.toUInt8)
  recordHash n := .ok [(n + 100).toUInt8]
  targetUnits _ := [[7]]
  unitState l := .ok l.deletionRound

/-- A state whose units have one log, of the transaction record `1`; the proof of a log is its
index. -/
def sampleState : UnitAndProof Nat Nat where
  getUnit _ := .ok ⟨[⟨some [101], none, none, 0, none⟩], none, none, 0, none, 0, none, false⟩
  createUnitStateProof _ j := .ok j

/-- The same state, in which no proof can be made. -/
def failingState : UnitAndProof Nat Nat :=
  { sampleState with createUnitStateProof := fun _ _ => .error "proof" }

@[simp] theorem length_keyLatestRoundNumber : keyLatestRoundNumber.length = 17 := by decide

@[simp] theorem length_uint64ToBytes (n : UInt64) : (uint64ToBytes n).length = 8 := by
  simp [uint64ToBytes]

/-! ### What the clean-up deletes -/

section Cleanup

variable {Q : Bytes → IndexRecord S P → Prop}

theorem deleteKeys_all (keys : List Bytes) {acc : List String × MemoryDB (IndexRecord S P)}
    (h : acc.2.All Q) : (deleteKeys keys acc).2.All Q := by
  induction keys generalizing acc with
  | nil => exact h
  | cons key keys ih =>
    obtain ⟨errs, dbTx⟩ := acc
    unfold deleteKeys
    split
    · exact ih h
    · exact ih (MemoryDB.All.delete h ‹_›)

/-- A key the history does not list is left as it was. -/
theorem deleteKeys_db_of_not_mem {key : Bytes} {keys : List Bytes} (hk : key ∉ keys)
    (acc : List String × MemoryDB (IndexRecord S P)) :
    (deleteKeys keys acc).2.db key = acc.2.db key := by
  induction keys generalizing acc with
  | nil => rfl
  | cons k keys ih =>
    obtain ⟨errs, dbTx⟩ := acc
    have hne : key ≠ k := fun h => hk (h ▸ List.mem_cons_self)
    have hk' : key ∉ keys := fun h => hk (List.mem_cons_of_mem _ h)
    unfold deleteKeys
    split
    · exact ih hk' _
    · rename_i dbTx' hdel
      rw [ih hk']
      obtain ⟨-, rfl⟩ := MemoryDB.delete_eq_ok_iff.1 hdel
      exact Function.update_of_ne hne _ _

/-- The keys a history lists are all deleted when none of them is empty. -/
theorem deleteKeys_of_ne_nil {keys : List Bytes} (hne : ∀ k ∈ keys, k ≠ [])
    (errs : List String) (dbTx : MemoryDB (IndexRecord S P)) :
    (deleteKeys keys (errs, dbTx)).1 = errs ∧ ∀ k ∈ keys, (deleteKeys keys (errs, dbTx)).2.db k = none := by
  induction keys generalizing dbTx with
  | nil =>
    refine ⟨rfl, fun _ hk => ?_⟩
    cases hk
  | cons key keys ih =>
    have hdel := dbTx.delete_of_ne_nil (hne key List.mem_cons_self)
    obtain ⟨herrs, hgone⟩ := ih (fun k hk => hne k (List.mem_cons_of_mem _ hk))
      ⟨Function.update dbTx.db key none⟩
    simp only [deleteKeys, hdel]
    refine ⟨herrs, fun k hk => ?_⟩
    by_cases hkeys : k ∈ keys
    · exact hgone k hkeys
    · -- a key met only at the head stays deleted
      have hk' : k = key := by simpa [hkeys] using hk
      subst hk'
      rw [deleteKeys_db_of_not_mem hkeys]
      simp

/-- The clean-up only deletes, so it keeps every invariant of the entries. -/
theorem historyCleanup_all {historySize round : UInt64}
    {storage storage' : MemoryDB (IndexRecord S P)} (h : storage.All Q)
    (hc : historyCleanup historySize round storage = .ok storage') : storage'.All Q := by
  unfold historyCleanup at hc
  split at hc
  · cases hc
    exact h
  · split at hc
    · cases hc
    · cases hc
      exact h
    · rename_i keys _
      split at hc
      · rename_i dbTx hdel
        have h' : dbTx.All Q := by
          have h0 : (([] : List String), storage).2.All Q := h
          have := deleteKeys_all keys h0
          rw [hdel] at this
          exact this
        split at hc
        · cases hc
        · cases hc
          exact MemoryDB.All.delete h' ‹_›
      · cases hc
    · cases hc

/-- The clean-up of round `round` changes no key but those the history record of round
`round - historySize` lists, and the record's own. -/
theorem historyCleanup_db {historySize round : UInt64}
    {storage storage' : MemoryDB (IndexRecord S P)}
    (hc : historyCleanup historySize round storage = .ok storage') {key : Bytes}
    (hkey : key ≠ uint64ToBytes (round - historySize))
    (hlist : ∀ keys, storage.db (uint64ToBytes (round - historySize)) =
      some (.historyIndex keys) → key ∉ keys) :
    storage'.db key = storage.db key := by
  unfold historyCleanup at hc
  split at hc
  · cases hc
    rfl
  · split at hc
    · cases hc
    · cases hc
      rfl
    · rename_i keys hread
      have hnot := hlist keys (MemoryDB.read_eq_ok_iff.1 hread).2.symm
      split at hc
      · rename_i dbTx hdel
        have hdb : dbTx.db key = storage.db key := by
          have := deleteKeys_db_of_not_mem hnot ([], storage)
          rw [hdel] at this
          exact this
        split at hc
        · cases hc
        · rename_i hd
          cases hc
          obtain ⟨-, rfl⟩ := MemoryDB.delete_eq_ok_iff.1 hd
          rw [← hdb]
          exact Function.update_of_ne hkey _ _
      · cases hc
    · cases hc

/-- **The clean-up of round `round` deletes the history of round `round - historySize`**: with a
history size that is not zero and below the round, the unit proofs that the history record lists
are deleted with it, when none of its keys is empty. -/
theorem historyCleanup_removes {historySize round : UInt64} (h0 : historySize ≠ 0)
    (hlt : historySize < round) {storage : MemoryDB (IndexRecord S P)} {keys : List Bytes}
    (hd : storage.db (uint64ToBytes (round - historySize)) = some (.historyIndex keys))
    (hne : ∀ k ∈ keys, k ≠ []) :
    ∃ storage', historyCleanup historySize round storage = .ok storage' ∧
      storage'.db (uint64ToBytes (round - historySize)) = none ∧
      ∀ k ∈ keys, storage'.db k = none := by
  have hpos : ¬ round - historySize ≤ 0 := by
    rw [UInt64.le_iff_toNat_le, UInt64.toNat_sub_of_le _ _ (UInt64.le_of_lt hlt)]
    have := UInt64.lt_iff_toNat_lt.1 hlt
    simp
    omega
  have hcond : ¬ (historySize = 0 ∨ round < historySize ∨ round - historySize ≤ 0) := by
    rintro (h | h | h)
    · exact h0 h
    · exact absurd (UInt64.lt_trans h hlt) (UInt64.lt_irrefl _)
    · exact hpos h
  have hkey : uint64ToBytes (round - historySize) ≠ [] := by
    intro h
    simpa using congrArg List.length h
  have hread := MemoryDB.read_eq_ok_iff.2 ⟨hkey, hd.symm⟩
  obtain ⟨herrs, hgone⟩ := deleteKeys_of_ne_nil hne [] storage
  set dbTx := (deleteKeys keys ([], storage)).2 with hdbTx
  have hsplit : deleteKeys keys ([], storage) = ([], dbTx) := Prod.ext herrs rfl
  refine ⟨⟨Function.update dbTx.db (uint64ToBytes (round - historySize)) none⟩, ?_, by simp, ?_⟩
  · simp only [historyCleanup, hcond, if_false, hread, hsplit, dbTx.delete_of_ne_nil hkey]
  · intro k hk
    by_cases hkd : k = uint64ToBytes (round - historySize)
    · subst hkd
      simp
    · exact (Function.update_of_ne hkd _ _).trans (hgone k hk)

theorem historyCleanup_removes_sample :
    ∃ storage', historyCleanup 2 5 (loop sampleEnv 0 [([1], .ok 3, sampleState)] MemoryDB.empty) =
        .ok storage' ∧ storage'.db (uint64ToBytes (5 - 2)) = none ∧
      ∀ k ∈ [[7] ++ List.replicate 9 1], storage'.db k = none :=
  historyCleanup_removes (by decide) (by decide)
    (show (loop sampleEnv 0 [([1], .ok 3, sampleState)] MemoryDB.empty).db (uint64ToBytes (5 - 2)) =
      some (.historyIndex [[7] ++ List.replicate 9 1]) from rfl)
    (by decide)

end Cleanup

/-! ### What the index stands for -/

section Sound

/-- The order of the transaction record `tx` hashes to `h`. -/
def OrderHash (tx : R) (h : Bytes) : Prop :=
  ∃ txo, E.getTransactionOrderV1 tx = .ok txo ∧ E.orderHash txo = .ok h

/-- `proof` and `st` were made in the state `rd` for a log of the unit `unitID` whose record hash
is `txrHash`. -/
def LogProof (rd : UnitAndProof D P) (unitID txrHash : Bytes) (st : S) (proof : P) : Prop :=
  ∃ u, rd.getUnit unitID = .ok u ∧ ∃ unitLog j, u.logs[j]? = some unitLog ∧
    bytesEqual unitLog.txRecordHash (some txrHash) = true ∧
    rd.createUnitStateProof unitID j = .ok proof ∧ E.unitState unitLog = .ok st

/-- A transaction index entry `key ↦ (roundNumber, i)` stands for the transaction at index `i`
of a block of that round, whose order hashes to `key`. -/
def TxIndexed (blocks : List (List R × UInt64 × UnitAndProof D P)) (key : Bytes)
    (roundNumber : UInt64) (i : Nat) : Prop :=
  ∃ block rd, (block, roundNumber, rd) ∈ blocks ∧ ∃ tx, block[i]? = some tx ∧ OrderHash E tx key

/-- A unit proof entry `key ↦ (st, proof)` stands for a unit that a transaction of a block
targets, under the unit id followed by the transaction's order hash, with the state and the
proof made for one of its logs of that transaction. -/
def ProofIndexed (blocks : List (List R × UInt64 × UnitAndProof D P)) (key : Bytes) (st : S)
    (proof : P) : Prop :=
  ∃ block roundNumber rd, (block, roundNumber, rd) ∈ blocks ∧ ∃ tx ∈ block, ∃ txoHash txrHash,
    OrderHash E tx txoHash ∧ E.recordHash tx = .ok txrHash ∧
    ∃ unitID ∈ E.targetUnits tx, key = unitID ++ txoHash ∧ LogProof E rd unitID txrHash st proof

/-- What an entry of the index stands for. -/
def Justified (blocks : List (List R × UInt64 × UnitAndProof D P)) (key : Bytes) :
    IndexRecord S P → Prop
  | .txIndex roundNumber i => TxIndexed E blocks key roundNumber i
  | .unitStateWithProof st proof => ProofIndexed E blocks key st proof
  | .roundNumber _ => True
  | .historyIndex _ => True

/-- Every entry of the store stands for what it should, in `blocks`. -/
def Sound (blocks : List (List R × UInt64 × UnitAndProof D P))
    (storage : MemoryDB (IndexRecord S P)) : Prop :=
  storage.All (Justified E blocks)

variable {E} {blocks : List (List R × UInt64 × UnitAndProof D P)}

theorem Sound.write {m m' : MemoryDB (IndexRecord S P)} (hs : Sound E blocks m) {key : Bytes}
    {rec : IndexRecord S P} (hw : m.write key rec = .ok m') (hj : Justified E blocks key rec) :
    Sound E blocks m' :=
  MemoryDB.All.write hs hw hj

theorem Sound.delete {m m' : MemoryDB (IndexRecord S P)} (hs : Sound E blocks m) {key : Bytes}
    (hw : m.delete key = .ok m') : Sound E blocks m' :=
  MemoryDB.All.delete hs hw

theorem Justified.mono {blocks' : List (List R × UInt64 × UnitAndProof D P)}
    (hsub : ∀ b ∈ blocks, b ∈ blocks') {key : Bytes} {rec : IndexRecord S P}
    (h : Justified E blocks key rec) : Justified E blocks' key rec := by
  cases rec with
  | txIndex roundNumber i =>
    obtain ⟨block, rd, hb, htx⟩ := h
    exact ⟨block, rd, hsub _ hb, htx⟩
  | unitStateWithProof st proof =>
    obtain ⟨block, roundNumber, rd, hb, htx⟩ := h
    exact ⟨block, roundNumber, rd, hsub _ hb, htx⟩
  | roundNumber n => trivial
  | historyIndex keys => trivial

theorem indexLog_sound {rd : UnitAndProof D P} {unitID txoHash txrHash : Bytes}
    {u : UnitV1 D} (hgu : rd.getUnit unitID = .ok u)
    (hctx : ∀ st proof, LogProof E rd unitID txrHash st proof →
      ProofIndexed E blocks (unitID ++ txoHash) st proof)
    {acc acc' : List Bytes × MemoryDB (IndexRecord S P)} {p : Log D × Nat}
    (hp : p ∈ u.logs.zipIdx) (hs : Sound E blocks acc.2)
    (h : indexLog E rd unitID txoHash txrHash acc p = .ok acc') : Sound E blocks acc'.2 := by
  unfold indexLog at h
  split at h
  · cases h
    exact hs
  · rename_i hmatch
    split at h
    · cases h
      exact hs
    · rename_i proof hproof
      split at h
      · cases h
        exact hs
      · rename_i st hst
        split at h
        · cases h
        · rename_i dbTx hw
          cases h
          -- the one entry written: a proof of this unit's log of this transaction
          have hlog : u.logs[p.2]? = some p.1 := List.mem_zipIdx_iff_getElem?.1 hp
          have heq : bytesEqual p.1.txRecordHash (some txrHash) = true := by simpa using hmatch
          exact hs.write hw (hctx st proof ⟨u, hgu, p.1, p.2, hlog, heq, hproof, hst⟩)

theorem indexUnit_sound {rd : UnitAndProof D P} {txoHash txrHash unitID : Bytes}
    (hctx : ∀ st proof, LogProof E rd unitID txrHash st proof →
      ProofIndexed E blocks (unitID ++ txoHash) st proof)
    {acc acc' : List Bytes × MemoryDB (IndexRecord S P)} (hs : Sound E blocks acc.2)
    (h : indexUnit E rd txoHash txrHash acc unitID = .ok acc') : Sound E blocks acc'.2 := by
  unfold indexUnit at h
  split at h
  · cases h
  · rename_i u hgu
    exact List.foldlM_except_inv (fun acc => Sound E blocks acc.2)
      (fun _ _ _ hb hp hstep => indexLog_sound hgu hctx hp hb hstep) hs h

theorem indexTx_sound {block : List R} {roundNumber : UInt64} {rd : UnitAndProof D P}
    (hb : (block, roundNumber, rd) ∈ blocks) {acc acc' : List Bytes × MemoryDB (IndexRecord S P)}
    {p : R × Nat} (hp : p ∈ block.zipIdx) (hs : Sound E blocks acc.2)
    (h : indexTx E roundNumber rd acc p = .ok acc') : Sound E blocks acc'.2 := by
  have htx : block[p.2]? = some p.1 := List.mem_zipIdx_iff_getElem?.1 hp
  unfold indexTx at h
  split at h
  · cases h
  · rename_i txo htxo
    split at h
    · cases h
    · rename_i txoHash hoh
      split at h
      · cases h
      · rename_i dbTx hw
        -- the transaction index entry stands for this transaction
        have hj : TxIndexed E blocks txoHash roundNumber p.2 :=
          ⟨block, rd, hb, p.1, htx, txo, htxo, hoh⟩
        have hs' : Sound E blocks dbTx := hs.write hw hj
        split at h
        · cases h
        · rename_i txrHash hrh
          refine List.foldlM_except_inv (fun acc => Sound E blocks acc.2)
            (fun _ unitID _ hacc hu hstep => indexUnit_sound ?_ hacc hstep) hs' h
          -- every proof of a target unit stands for this transaction
          intro st proof hlp
          exact ⟨block, roundNumber, rd, hb, p.1, List.mem_of_getElem? htx, txoHash, txrHash,
            ⟨txo, htxo, hoh⟩, hrh, unitID, hu, rfl, hlp⟩

theorem create_sound {block : List R} {roundNumber : UInt64} {rd : UnitAndProof D P}
    (hb : (block, roundNumber, rd) ∈ blocks) {storage storage' : MemoryDB (IndexRecord S P)}
    (hs : Sound E blocks storage) (h : create E block roundNumber rd storage = .ok storage') :
    Sound E blocks storage' := by
  unfold create at h
  split at h
  · cases h
  · rename_i history dbTx hloop
    have hs' : Sound E blocks dbTx :=
      List.foldlM_except_inv (fun acc => Sound E blocks acc.2)
        (fun _ _ _ hacc hp hstep => indexTx_sound hb hp hacc hstep) hs hloop
    split at h
    · cases h
    · rename_i dbTx' hw
      have hs'' : Sound E blocks dbTx' := hs'.write hw trivial
      split at h
      · split at h
        · cases h
        · rename_i hw'
          cases h
          exact hs''.write hw' trivial
      · cases h
        exact hs''

/-- `IndexBlock` keeps the index sound, with its block among those it stands for. -/
theorem indexBlock_sound {historySize roundNumber : UInt64} {block : List R}
    {rd : UnitAndProof D P} (hb : (block, roundNumber, rd) ∈ blocks)
    {storage : MemoryDB (IndexRecord S P)} (hs : Sound E blocks storage) :
    Sound E blocks (EStateM.final (indexBlock E historySize block roundNumber rd) storage) := by
  unfold EStateM.final indexBlock
  by_cases hr : roundNumber ≤ latestIndexedBlockNumber storage
  · simp only [hr, if_true]
    exact hs
  · simp only [hr, if_false]
    cases hc : create E block roundNumber rd storage with
    | error e => exact hs
    | ok storage' =>
      have hs' := create_sound hb hs hc
      dsimp only
      cases hcl : historyCleanup historySize roundNumber storage' with
      | error e => exact hs'
      | ok storage'' => exact historyCleanup_all (Q := Justified E blocks) hs' hcl

/-- The blocks of a run of `loop` that it indexes: those whose round number it can read. -/
def indexedBlocks (bs : List (List R × Except String UInt64 × UnitAndProof D P)) :
    List (List R × UInt64 × UnitAndProof D P) :=
  bs.filterMap fun b => b.2.1.toOption.map fun r => (b.1, r, b.2.2)

theorem mem_indexedBlocks {bs : List (List R × Except String UInt64 × UnitAndProof D P)}
    {block : List R} {roundNumber : UInt64} {rd : UnitAndProof D P} :
    (block, roundNumber, rd) ∈ indexedBlocks bs ↔ (block, .ok roundNumber, rd) ∈ bs := by
  simp only [indexedBlocks, List.mem_filterMap, Option.map_eq_some_iff, Prod.mk.injEq]
  constructor
  · rintro ⟨⟨block', r', rd'⟩, hmem, r, hr, rfl, rfl, rfl⟩
    cases r' with
    | error e => cases hr
    | ok r'' =>
      cases hr
      exact hmem
  · intro hmem
    exact ⟨(block, .ok roundNumber, rd), hmem, roundNumber, rfl, rfl, rfl, rfl⟩

theorem Sound.loop {historySize : UInt64} (bs : List (List R × Except String UInt64 × UnitAndProof D P))
    (hsub : ∀ b ∈ indexedBlocks bs, b ∈ blocks) {storage : MemoryDB (IndexRecord S P)}
    (hs : Sound E blocks storage) : Sound E blocks (loop E historySize bs storage) := by
  induction bs generalizing storage with
  | nil => exact hs
  | cons b bs ih =>
    obtain ⟨block, roundNumber, rd⟩ := b
    have hsub' : ∀ b ∈ indexedBlocks bs, b ∈ blocks := fun b hb =>
      hsub b (by simp only [indexedBlocks, List.filterMap_cons] at hb ⊢; split <;> simp_all)
    cases roundNumber with
    | error e => exact ih hsub' hs
    | ok r =>
      have hb : (block, r, rd) ∈ blocks := hsub _ (mem_indexedBlocks.2 List.mem_cons_self)
      exact ih hsub' (indexBlock_sound hb hs)

/-- Over a run of `loop` from an empty store, every entry stands for a block the run indexed. -/
theorem sound_loop (historySize : UInt64) (bs : List (List R × Except String UInt64 × UnitAndProof D P)) :
    Sound E (indexedBlocks bs) (loop E historySize bs MemoryDB.empty) :=
  Sound.loop bs (fun _ hb => hb) MemoryDB.All.empty

theorem readTransactionIndex_eq_ok {storage : MemoryDB (IndexRecord S P)} {txOrderHash : Bytes}
    {roundNumber : UInt64} {i : Nat}
    (h : readTransactionIndex storage txOrderHash = .ok (roundNumber, i)) :
    storage.db txOrderHash = some (.txIndex roundNumber i) := by
  unfold readTransactionIndex at h
  split at h
  · cases h
  · cases h
  · rename_i hread
    cases h
    exact (MemoryDB.read_eq_ok_iff.1 hread).2.symm
  · cases h

theorem readUnitProofIndex_eq_ok {storage : MemoryDB (IndexRecord S P)} {unitID txOrderHash : Bytes}
    {st : S} {proof : P} (h : readUnitProofIndex storage unitID txOrderHash = .ok (st, proof)) :
    storage.db (unitID ++ txOrderHash) = some (.unitStateWithProof st proof) := by
  unfold readUnitProofIndex at h
  split at h
  · cases h
  · cases h
  · rename_i hread
    cases h
    exact (MemoryDB.read_eq_ok_iff.1 hread).2.symm
  · cases h

/-- **The transaction index is sound**: over any run of `loop` from an empty store, the round and
the position that `ReadTransactionIndex` returns for an order hash are those of a transaction of
a block the run indexed, in that round and at that position, whose order hashes to it. -/
theorem readTransactionIndex_sound (historySize : UInt64)
    (bs : List (List R × Except String UInt64 × UnitAndProof D P)) (txOrderHash : Bytes)
    {roundNumber : UInt64} {i : Nat}
    (h : readTransactionIndex (loop E historySize bs MemoryDB.empty) txOrderHash =
      .ok (roundNumber, i)) :
    ∃ block rd, (block, .ok roundNumber, rd) ∈ bs ∧ ∃ tx, block[i]? = some tx ∧
      OrderHash E tx txOrderHash := by
  obtain ⟨block, rd, hb, htx⟩ :=
    sound_loop (E := E) historySize bs _ _ (readTransactionIndex_eq_ok h)
  exact ⟨block, rd, mem_indexedBlocks.1 hb, htx⟩

theorem readTransactionIndex_sound_sample :
    ∃ block rd, (block, .ok 5, rd) ∈ [([1], (.ok 5 : Except String UInt64), sampleState)] ∧
      ∃ tx, block[0]? = some tx ∧ OrderHash sampleEnv tx (List.replicate 9 1) :=
  readTransactionIndex_sound 0 [([1], .ok 5, sampleState)] (List.replicate 9 1)
    (show readTransactionIndex (loop sampleEnv 0 [([1], .ok 5, sampleState)] MemoryDB.empty)
      (List.replicate 9 1) =
      .ok (5, 0) from rfl)

/-- **The unit proof index is sound**: over any run of `loop` from an empty store, with order
hashes of one length, a state and a proof that `ReadUnitProofIndex` returns for a unit and an
order hash of that length were made, in the state of a block the run indexed, for a log of that
unit whose record hash is that of a transaction of the block that targets the unit and whose
order hashes to the one asked for. -/
theorem readUnitProofIndex_sound {n : Nat} (hlen : ∀ txo h, E.orderHash txo = .ok h → h.length = n)
    (historySize : UInt64) (bs : List (List R × Except String UInt64 × UnitAndProof D P))
    (unitID txOrderHash : Bytes) (hn : txOrderHash.length = n) {st : S} {proof : P}
    (h : readUnitProofIndex (loop E historySize bs MemoryDB.empty) unitID txOrderHash =
      .ok (st, proof)) :
    ∃ block roundNumber rd, (block, .ok roundNumber, rd) ∈ bs ∧ ∃ tx ∈ block,
      OrderHash E tx txOrderHash ∧ unitID ∈ E.targetUnits tx ∧
      ∃ txrHash, E.recordHash tx = .ok txrHash ∧ LogProof E rd unitID txrHash st proof := by
  obtain ⟨block, roundNumber, rd, hb, tx, htx, txoHash, txrHash, ⟨txo, htxo, hoh⟩, hrh, unitID',
    hu, hkey, hlp⟩ := sound_loop (E := E) historySize bs _ _ (readUnitProofIndex_eq_ok h)
  -- the order hash has the length of the one asked for, so the key splits the same way
  have hl : txOrderHash.length = txoHash.length := by rw [hlen txo txoHash hoh, hn]
  obtain ⟨rfl, rfl⟩ := List.append_inj' hkey hl
  exact ⟨block, roundNumber, rd, mem_indexedBlocks.1 hb, tx, htx, ⟨txo, htxo, hoh⟩, hu, txrHash,
    hrh, hlp⟩

theorem readUnitProofIndex_sound_sample :
    ∃ block roundNumber rd,
      (block, .ok roundNumber, rd) ∈ [([1], (.ok 5 : Except String UInt64), sampleState)] ∧
      ∃ tx ∈ block, OrderHash sampleEnv tx (List.replicate 9 1) ∧ [7] ∈ sampleEnv.targetUnits tx ∧
        ∃ txrHash, sampleEnv.recordHash tx = .ok txrHash ∧
          LogProof sampleEnv rd [7] txrHash (0 : UInt64) 0 :=
  readUnitProofIndex_sound
    (fun txo h hh => by
      simp only [sampleEnv, Except.ok.injEq] at hh
      subst hh
      rfl)
    0 [([1], .ok 5, sampleState)] [7] (List.replicate 9 1) rfl
    (show readUnitProofIndex (loop sampleEnv 0 [([1], .ok 5, sampleState)] MemoryDB.empty) [7]
      (List.replicate 9 1) =
      .ok (0, 0) from rfl)

end Sound

/-! ### Unit proofs that cannot be made -/

section ProofErrors

variable {E}

theorem latestIndexedBlockNumber_of_db {storage : MemoryDB (IndexRecord S P)} {n : UInt64}
    (h : storage.db keyLatestRoundNumber = some (.roundNumber n)) :
    latestIndexedBlockNumber storage = n := by
  have hread : storage.read keyLatestRoundNumber = .ok (some (.roundNumber n)) :=
    MemoryDB.read_eq_ok_iff.2 ⟨by decide, h.symm⟩
  simp only [latestIndexedBlockNumber, hread]

/-- The unit proofs of `m` were all in `storage`. -/
def NoNewProofs (storage : MemoryDB (IndexRecord S P)) (key : Bytes) : IndexRecord S P → Prop
  | .unitStateWithProof st proof => storage.db key = some (.unitStateWithProof st proof)
  | _ => True

variable {rd : UnitAndProof D P}
  (hproof : ∀ unitID j, ∃ e, rd.createUnitStateProof unitID j = .error e)
include hproof

theorem indexLog_of_proof_error (unitID txoHash txrHash : Bytes)
    (acc : List Bytes × MemoryDB (IndexRecord S P)) (p : Log D × Nat) :
    indexLog E rd unitID txoHash txrHash acc p = .ok acc := by
  obtain ⟨e, he⟩ := hproof unitID p.2
  unfold indexLog
  split
  · rfl
  · simp only [he]

theorem indexUnit_of_proof_error {txoHash txrHash unitID : Bytes} {u : UnitV1 D}
    (hgu : rd.getUnit unitID = .ok u) (acc : List Bytes × MemoryDB (IndexRecord S P)) :
    indexUnit E rd txoHash txrHash acc unitID = .ok acc := by
  -- every log leaves the accumulator as it was
  obtain ⟨r, hr, rfl⟩ := List.foldlM_except_ok (fun b => b = acc)
    (f := indexLog E rd unitID txoHash txrHash) (l := u.logs.zipIdx)
    (fun b p hb _ => ⟨b, indexLog_of_proof_error hproof _ _ _ b p, hb⟩) rfl
  simp only [indexUnit, hgu]
  exact hr

theorem indexTx_of_proof_error {roundNumber : UInt64} {storage : MemoryDB (IndexRecord S P)}
    {p : R × Nat}
    (htx : (∃ txoHash, OrderHash E p.1 txoHash ∧ txoHash ≠ []) ∧
      (∃ txrHash, E.recordHash p.1 = .ok txrHash) ∧
      ∀ unitID ∈ E.targetUnits p.1, ∃ u, rd.getUnit unitID = .ok u)
    {acc : List Bytes × MemoryDB (IndexRecord S P)} (hacc : acc.2.All (NoNewProofs storage)) :
    ∃ acc', indexTx E roundNumber rd acc p = .ok acc' ∧ acc'.2.All (NoNewProofs storage) := by
  obtain ⟨⟨txoHash, ⟨txo, htxo, hoh⟩, hne⟩, ⟨txrHash, hrh⟩, hunits⟩ := htx
  obtain ⟨dbTx, hw⟩ : ∃ dbTx, acc.2.write txoHash (.txIndex roundNumber p.2) = .ok dbTx :=
    ⟨_, acc.2.write_of_ne_nil hne _⟩
  have hacc' : dbTx.All (NoNewProofs storage) := MemoryDB.All.write hacc hw trivial
  -- the units' loop leaves the accumulator as the transaction index entry left it
  obtain ⟨r, hr, rfl⟩ := List.foldlM_except_ok (fun b => b = (acc.1, dbTx))
    (f := indexUnit E rd txoHash txrHash) (l := E.targetUnits p.1)
    (fun b unitID hb hu => by
      obtain ⟨u, hgu⟩ := hunits unitID hu
      exact ⟨b, indexUnit_of_proof_error hproof hgu b, hb⟩) rfl
  refine ⟨(acc.1, dbTx), ?_, hacc'⟩
  simp only [indexTx, htxo, hoh, hw, hrh]
  exact hr

/-- **`create` drops the errors of unit proofs**: when no unit proof can be made, but the order
and the record of every transaction hash, to a non-empty order hash, and every target unit loads,
`create` still returns the store to commit, with the block's round as the latest one indexed and
no unit proof that was not there before. -/
theorem create_ignores_proof_errors {block : List R} {roundNumber : UInt64}
    (htx : ∀ tx ∈ block, (∃ txoHash, OrderHash E tx txoHash ∧ txoHash ≠ []) ∧
      (∃ txrHash, E.recordHash tx = .ok txrHash) ∧
      ∀ unitID ∈ E.targetUnits tx, ∃ u, rd.getUnit unitID = .ok u)
    (storage : MemoryDB (IndexRecord S P)) :
    ∃ storage', create E block roundNumber rd storage = .ok storage' ∧
      latestIndexedBlockNumber storage' = roundNumber ∧
      ∀ key st proof, storage'.db key = some (.unitStateWithProof st proof) →
        storage.db key = some (.unitStateWithProof st proof) := by
  have h0 : storage.All (NoNewProofs storage) := by
    intro key rec hrec
    cases rec <;> first | exact hrec | trivial
  obtain ⟨⟨history, dbTx⟩, hloop, hdb⟩ : ∃ r, block.zipIdx.foldlM (indexTx E roundNumber rd)
      ([], storage) = .ok r ∧ r.2.All (NoNewProofs storage) :=
    List.foldlM_except_ok
      (fun (acc : List Bytes × MemoryDB (IndexRecord S P)) => acc.2.All (NoNewProofs storage))
      (fun acc p hacc hp => indexTx_of_proof_error hproof
        (htx p.1 (List.mem_of_getElem? (List.mem_zipIdx_iff_getElem?.1 hp))) hacc) h0
  have hw : dbTx.write keyLatestRoundNumber (.roundNumber roundNumber) =
      .ok ⟨Function.update dbTx.db keyLatestRoundNumber (some (.roundNumber roundNumber))⟩ :=
    dbTx.write_of_ne_nil (by decide) _
  have hdb' := MemoryDB.All.write hdb hw (Q := NoNewProofs storage) trivial
  have hkey : keyLatestRoundNumber ≠ uint64ToBytes roundNumber := by
    intro h
    have := congrArg List.length h
    simp at this
  have hne : uint64ToBytes roundNumber ≠ [] := by
    intro h
    have := congrArg List.length h
    simp at this
  by_cases hb : block.length > 0
  · -- the history record is written after the round number, under another key
    have hw' := MemoryDB.write_of_ne_nil ⟨Function.update dbTx.db keyLatestRoundNumber
      (some (.roundNumber roundNumber))⟩ hne (.historyIndex history)
    refine ⟨_, ?_, ?_, fun key st proof hk => MemoryDB.All.write hdb' hw' trivial key _ hk⟩
    · simp only [create, hloop, hw, hb, if_true, hw']
    · apply latestIndexedBlockNumber_of_db
      simp [Function.update_of_ne hkey]
  · refine ⟨_, ?_, ?_, fun key st proof hk => hdb' key _ hk⟩
    · simp only [create, hloop, hw, hb, if_false]
    · apply latestIndexedBlockNumber_of_db
      simp

end ProofErrors

/-- With no proof to be made, the sample block is indexed, its round recorded, and no proof of its
unit served. -/
theorem create_ignores_proof_errors_sample :
    (∃ storage', create sampleEnv [1] 5 failingState MemoryDB.empty = .ok storage' ∧
      latestIndexedBlockNumber storage' = 5 ∧
      ∀ key st proof, storage'.db key = some (.unitStateWithProof st proof) →
        (MemoryDB.empty : MemoryDB (IndexRecord UInt64 Nat)).db key =
          some (.unitStateWithProof st proof)) ∧
    readUnitProofIndex (loop sampleEnv 0 [([1], .ok 5, failingState)] MemoryDB.empty) [7]
      (List.replicate 9 1) =
      .error "index not found" :=
  ⟨create_ignores_proof_errors (fun _ _ => ⟨"proof", rfl⟩)
    (by
      intro tx htx
      rw [List.mem_singleton] at htx
      subst htx
      exact ⟨⟨List.replicate 9 1, ⟨1, rfl, rfl⟩, by simp⟩, ⟨[101], rfl⟩, fun _ _ => ⟨_, rfl⟩⟩)
    MemoryDB.empty, rfl⟩

/-! ### How long a round's history is kept -/

section Retention

theorem toUInt8_shiftRight (m k : UInt64) (hk : k < 64) :
    (m >>> k).toUInt8 = (m.toNat / 2 ^ k.toNat % 256).toUInt8 := by
  apply UInt8.toNat_inj.1
  have hk' : k.toNat % 64 = k.toNat := Nat.mod_eq_of_lt (UInt64.lt_iff_toNat_lt.1 hk)
  simp [UInt64.toNat_shiftRight, Nat.shiftRight_eq_div_pow, hk']

theorem uint64ToBytes_eq (m : UInt64) : uint64ToBytes m = BigEndian.toBytes 8 m.toNat := by
  simp (disch := decide) only [uint64ToBytes, BigEndian.toBytes, List.map_cons, List.map_nil,
    toUInt8_shiftRight]
  rfl

/-- The key of the history record of a round names the round. -/
theorem uint64ToBytes_injective : Function.Injective uint64ToBytes := by
  intro a b h
  have hab := congrArg BigEndian.ofBytes h
  have ha : a.toNat < 256 ^ 8 := lt_of_lt_of_eq a.toNat_lt (by norm_num)
  have hb : b.toNat < 256 ^ 8 := lt_of_lt_of_eq b.toNat_lt (by norm_num)
  rw [uint64ToBytes_eq, uint64ToBytes_eq, BigEndian.ofBytes_toBytes, BigEndian.ofBytes_toBytes,
    Nat.mod_eq_of_lt ha, Nat.mod_eq_of_lt hb] at hab
  exact UInt64.toNat_inj.1 hab

/-- Every history record lists keys of at least `n` bytes. -/
def HistoryKeysLong (n : Nat) (_ : Bytes) : IndexRecord S P → Prop
  | .historyIndex keys => ∀ k ∈ keys, n ≤ k.length
  | _ => True

/-- The store has a history record for the round `d`. -/
def HasHistory (d : UInt64) (storage : MemoryDB (IndexRecord S P)) : Prop :=
  ∃ keys, storage.db (uint64ToBytes d) = some (.historyIndex keys)

/-- What the loops of `create` keep, from the store it started in: the keys the history collects
are long, the entries under keys of eight bytes are those of the store, and every history record
lists long keys. -/
structure LoopKeeps (n : Nat) (storage : MemoryDB (IndexRecord S P))
    (acc : List Bytes × MemoryDB (IndexRecord S P)) : Prop where
  history : ∀ k ∈ acc.1, n ≤ k.length
  frame : ∀ key : Bytes, key.length = 8 → acc.2.db key = storage.db key
  long : acc.2.All (HistoryKeysLong n)

variable {E} {n : Nat} (hn : 8 < n)
include hn

/-- A write under a key longer than eight bytes leaves the entries of the eight-byte keys. -/
theorem db_write_of_long {m m' : MemoryDB (IndexRecord S P)} {key : Bytes} (hkey : n ≤ key.length)
    {rec : IndexRecord S P} (hw : m.write key rec = .ok m') {k : Bytes} (hk : k.length = 8) :
    m'.db k = m.db k := by
  obtain ⟨-, rfl⟩ := MemoryDB.write_eq_ok_iff.1 hw
  have hne : k ≠ key := by
    rintro rfl
    omega
  exact Function.update_of_ne hne _ _

theorem indexLog_keeps {rd : UnitAndProof D P} {unitID txoHash txrHash : Bytes}
    (htxo : n ≤ txoHash.length) {storage : MemoryDB (IndexRecord S P)}
    {acc acc' : List Bytes × MemoryDB (IndexRecord S P)} {p : Log D × Nat}
    (h : LoopKeeps n storage acc) (hstep : indexLog E rd unitID txoHash txrHash acc p = .ok acc') :
    LoopKeeps n storage acc' := by
  unfold indexLog at hstep
  split at hstep
  · cases hstep
    exact h
  · split at hstep
    · cases hstep
      exact h
    · split at hstep
      · cases hstep
        exact h
      · split at hstep
        · cases hstep
        · rename_i dbTx hw
          cases hstep
          -- the unit proof goes under the unit id followed by the order hash
          have hkey : n ≤ (unitID ++ txoHash).length := by simp only [List.length_append]; omega
          refine ⟨fun k hk => ?_, fun k hk => (db_write_of_long hn hkey hw hk).trans (h.frame k hk),
            MemoryDB.All.write h.long hw trivial⟩
          rcases List.mem_append.1 hk with hk | hk
          · exact h.history k hk
          · rw [List.mem_singleton.1 hk]
            exact hkey

theorem indexUnit_keeps {rd : UnitAndProof D P} {txoHash txrHash unitID : Bytes}
    (htxo : n ≤ txoHash.length) {storage : MemoryDB (IndexRecord S P)}
    {acc acc' : List Bytes × MemoryDB (IndexRecord S P)} (h : LoopKeeps n storage acc)
    (hstep : indexUnit E rd txoHash txrHash acc unitID = .ok acc') : LoopKeeps n storage acc' := by
  unfold indexUnit at hstep
  split at hstep
  · cases hstep
  · exact List.foldlM_except_inv (LoopKeeps n storage)
      (fun _ _ _ hb _ hs => indexLog_keeps hn htxo hb hs) h hstep

theorem indexTx_keeps (hlen : ∀ txo h, E.orderHash txo = .ok h → n ≤ h.length)
    {roundNumber : UInt64} {rd : UnitAndProof D P} {storage : MemoryDB (IndexRecord S P)}
    {acc acc' : List Bytes × MemoryDB (IndexRecord S P)} {p : R × Nat}
    (h : LoopKeeps n storage acc) (hstep : indexTx E roundNumber rd acc p = .ok acc') :
    LoopKeeps n storage acc' := by
  unfold indexTx at hstep
  split at hstep
  · cases hstep
  · rename_i txo _
    split at hstep
    · cases hstep
    · rename_i txoHash hoh
      have htxo := hlen txo txoHash hoh
      split at hstep
      · cases hstep
      · rename_i dbTx hw
        -- the transaction index entry goes under the order hash
        have h' : LoopKeeps n storage (acc.1, dbTx) :=
          ⟨h.history, fun k hk => (db_write_of_long hn htxo hw hk).trans (h.frame k hk),
            MemoryDB.All.write h.long hw trivial⟩
        split at hstep
        · cases hstep
        · exact List.foldlM_except_inv (LoopKeeps n storage)
            (fun _ _ _ hb _ hs => indexUnit_keeps hn htxo hb hs) h' hstep

/-- `create` keeps every history record listing long keys, and the history record of every
round. -/
theorem create_keeps (hlen : ∀ txo h, E.orderHash txo = .ok h → n ≤ h.length)
    {block : List R} {roundNumber : UInt64} {rd : UnitAndProof D P}
    {storage storage' : MemoryDB (IndexRecord S P)} (hs : storage.All (HistoryKeysLong n))
    (hc : create E block roundNumber rd storage = .ok storage') :
    storage'.All (HistoryKeysLong n) ∧ ∀ d, HasHistory d storage → HasHistory d storage' := by
  unfold create at hc
  split at hc
  · cases hc
  · rename_i history dbTx hloop
    have h0 : LoopKeeps n storage ([], storage) := by
      refine ⟨fun _ hk => ?_, fun _ _ => rfl, hs⟩
      cases hk
    have hk : LoopKeeps n storage (history, dbTx) := List.foldlM_except_inv (LoopKeeps n storage)
      (fun _ _ _ hb _ hs => indexTx_keeps hn hlen hb hs) h0 hloop
    split at hc
    · cases hc
    · rename_i dbTx' hw
      -- the round number goes under a key of seventeen bytes
      have hframe : ∀ k : Bytes, k.length = 8 → dbTx'.db k = storage.db k := fun k hk8 =>
        (db_write_of_long (n := 17) (by omega) (by simp) hw hk8).trans (hk.frame k hk8)
      have hlong : dbTx'.All (HistoryKeysLong n) := MemoryDB.All.write hk.long hw trivial
      split at hc
      · split at hc
        · cases hc
        · rename_i dbTx'' hw'
          cases hc
          refine ⟨MemoryDB.All.write hlong hw' hk.history, fun d ⟨keys, hd⟩ => ?_⟩
          obtain ⟨-, rfl⟩ := MemoryDB.write_eq_ok_iff.1 hw'
          by_cases hdr : uint64ToBytes d = uint64ToBytes roundNumber
          · exact ⟨history, by simp [hdr]⟩
          · refine ⟨keys, ?_⟩
            rw [← hd, ← hframe _ (length_uint64ToBytes d)]
            exact Function.update_of_ne hdr _ _
      · cases hc
        exact ⟨hlong, fun d ⟨keys, hd⟩ => ⟨keys, (hframe _ (length_uint64ToBytes d)).trans hd⟩⟩

/-- The clean-up of another round than `d + historySize` keeps the history record of round
`d`. -/
theorem historyCleanup_keeps {historySize round d : UInt64} (hd : round - historySize ≠ d)
    {storage storage' : MemoryDB (IndexRecord S P)} (hs : storage.All (HistoryKeysLong n))
    (hc : historyCleanup historySize round storage = .ok storage') (hh : HasHistory d storage) :
    HasHistory d storage' := by
  obtain ⟨keys, hkeys⟩ := hh
  refine ⟨keys, (historyCleanup_db hc ?_ ?_).trans hkeys⟩
  · exact fun h => hd (uint64ToBytes_injective h).symm
  · -- the keys a history lists are longer than the eight bytes of a round
    intro ks hks hmem
    have := hs _ _ hks _ hmem
    simp at this
    omega

theorem indexBlock_long (hlen : ∀ txo h, E.orderHash txo = .ok h → n ≤ h.length)
    {historySize roundNumber : UInt64} {block : List R} {rd : UnitAndProof D P}
    {storage : MemoryDB (IndexRecord S P)} (hs : storage.All (HistoryKeysLong n)) :
    (EStateM.final (indexBlock E historySize block roundNumber rd) storage).All
      (HistoryKeysLong n) := by
  unfold EStateM.final indexBlock
  by_cases hr : roundNumber ≤ latestIndexedBlockNumber storage
  · simp only [hr, if_true]
    exact hs
  · simp only [hr, if_false]
    cases hc : create E block roundNumber rd storage with
    | error e => exact hs
    | ok storage' =>
      have hs' := (create_keeps hn hlen hs hc).1
      dsimp only
      cases hcl : historyCleanup historySize roundNumber storage' with
      | error e => exact hs'
      | ok storage'' => exact historyCleanup_all hs' hcl

theorem indexBlock_hasHistory (hlen : ∀ txo h, E.orderHash txo = .ok h → n ≤ h.length)
    {historySize roundNumber d : UInt64} (hd : roundNumber - historySize ≠ d) {block : List R}
    {rd : UnitAndProof D P} {storage : MemoryDB (IndexRecord S P)}
    (hs : storage.All (HistoryKeysLong n)) (hh : HasHistory d storage) :
    HasHistory d (EStateM.final (indexBlock E historySize block roundNumber rd) storage) := by
  unfold EStateM.final indexBlock
  by_cases hr : roundNumber ≤ latestIndexedBlockNumber storage
  · simp only [hr, if_true]
    exact hh
  · simp only [hr, if_false]
    cases hc : create E block roundNumber rd storage with
    | error e => exact hh
    | ok storage' =>
      obtain ⟨hs', hkeep⟩ := create_keeps hn hlen hs hc
      dsimp only
      cases hcl : historyCleanup historySize roundNumber storage' with
      | error e => exact hkeep d hh
      | ok storage'' => exact historyCleanup_keeps hn hd hs' hcl (hkeep d hh)

theorem loop_long (hlen : ∀ txo h, E.orderHash txo = .ok h → n ≤ h.length)
    (historySize : UInt64) (bs : List (List R × Except String UInt64 × UnitAndProof D P))
    {storage : MemoryDB (IndexRecord S P)} (hs : storage.All (HistoryKeysLong n)) :
    (loop E historySize bs storage).All (HistoryKeysLong n) := by
  induction bs generalizing storage with
  | nil => exact hs
  | cons b bs ih =>
    obtain ⟨block, roundNumber, rd⟩ := b
    cases roundNumber with
    | error e => exact ih hs
    | ok r => exact ih (indexBlock_long hn hlen hs)

theorem loop_hasHistory (hlen : ∀ txo h, E.orderHash txo = .ok h → n ≤ h.length)
    (historySize d : UInt64) (bs : List (List R × Except String UInt64 × UnitAndProof D P))
    (hround : ∀ block r rd, (block, .ok r, rd) ∈ bs → r - historySize ≠ d)
    {storage : MemoryDB (IndexRecord S P)} (hs : storage.All (HistoryKeysLong n))
    (hh : HasHistory d storage) : HasHistory d (loop E historySize bs storage) := by
  induction bs generalizing storage with
  | nil => exact hh
  | cons b bs ih =>
    obtain ⟨block, roundNumber, rd⟩ := b
    have hround' : ∀ block r rd, (block, .ok r, rd) ∈ bs → r - historySize ≠ d :=
      fun block r rd hb => hround block r rd (List.mem_cons_of_mem _ hb)
    cases roundNumber with
    | error e => exact ih hround' hs hh
    | ok r =>
      exact ih hround' (indexBlock_long hn hlen hs)
        (indexBlock_hasHistory hn hlen (hround block r rd List.mem_cons_self) hs hh)

end Retention

theorem loop_append (historySize : UInt64)
    (bs₀ bs : List (List R × Except String UInt64 × UnitAndProof D P))
    (storage : MemoryDB (IndexRecord S P)) :
    loop E historySize (bs₀ ++ bs) storage = loop E historySize bs (loop E historySize bs₀ storage) := by
  induction bs₀ generalizing storage with
  | nil => rfl
  | cons b bs₀ ih =>
    obtain ⟨block, roundNumber, rd⟩ := b
    cases roundNumber with
    | error e => exact ih storage
    | ok r => exact ih _

/-- **A round's history is kept until the block of round `d + historySize`**: with order hashes
longer than eight bytes, once the history record of round `d` is in the index, it stays through
any further blocks but one of a round `r` with `r - historySize = d`, the only clean-up that
deletes it; so when no block has that round, the unit proofs of round `d` are never cleaned
up. -/
theorem history_kept (hlen : ∀ txo h, E.orderHash txo = .ok h → 8 < h.length)
    (historySize d : UInt64) (bs₀ bs : List (List R × Except String UInt64 × UnitAndProof D P))
    (hd : HasHistory d (loop E historySize bs₀ MemoryDB.empty))
    (hround : ∀ block r rd, (block, .ok r, rd) ∈ bs → r - historySize ≠ d) :
    HasHistory d (loop E historySize (bs₀ ++ bs) MemoryDB.empty) := by
  -- the order hashes may differ in length; nine bytes bounds them all from below
  have h9 : 8 < 9 := by decide
  rw [loop_append]
  exact loop_hasHistory h9 hlen historySize d bs hround
    (loop_long h9 hlen historySize bs₀ MemoryDB.All.empty) hd

theorem history_kept_skipped_round :
    HasHistory 3 (loop sampleEnv 1 ([([1], .ok 3, sampleState)] ++ [([2], .ok 5, sampleState)])
      MemoryDB.empty) :=
  history_kept sampleEnv
    (fun txo h hh => by
      simp only [sampleEnv, Except.ok.injEq] at hh
      subst hh
      simp)
    1 3 [([1], .ok 3, sampleState)] [([2], .ok 5, sampleState)] ⟨_, rfl⟩
    (by
      intro block r rd hb
      rw [List.mem_singleton] at hb
      cases hb
      decide)

end ProofIndexer

end BftCore.Partition
