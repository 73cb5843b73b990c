import BftCore.Txsystem.Execute
import BftCore.Lib.List
import BftCore.State.Calls
import Mathlib

/-!
# `partition`: the owner index

`owner_indexer.go`: beside its state, a partition node keeps an index from owner ids to the
units they own, which `GetOwnerUnits` answers from.  `LoadState` builds it from the committed
tree (`CreateIndex` of `state_indexer.go`, a post-order traversal), and `IndexBlock` updates it
after each committed block from the logs of the units the block's transactions target: a unit
is listed under the owner of its last log and taken off the owner of its first.

* `OwnerEnv`: `UnitData.Owner()` and `extractOwnerIDFromPredicate`, which decodes a predicate
  and gives the public key hash of a P2PKH one and the empty string for any other; both are
  parameters;
* `getOwnerUnits` with `startIndex` and `endIndex`;
* `indexTraverse` and `loadState`; `addOwnerIndex`, `delOwnerIndex`, `indexUnit`, `indexUnits`
  and `indexBlock`;
* `UnitView.pruned`, `Op.absRunAll` and `runRound`: a round of the abstract state as the
  transaction system drives it, with the pruner of `BeginBlock`, the calls of the block's
  transactions and `Commit`;
* `Mirrors o f`: the index lists under each owner id exactly the units `f` gives that owner id,
  each once.  `loadState_mirrors`: `LoadState` on an ordered tree without dummy units gives a
  mirror of its units.  `indexBlock_mirrors`: `IndexBlock` keeps the index a mirror of the
  committed units when no unit is targeted twice in the block and each target's first log
  records the unit as the index last saw it, which the comments of `indexUnit` take for granted.

Owner ids are Go strings, here their bytes (`""` is `[]`); a map keyed by owner ids is an
`AList`.  A block is read as the target units of its transaction records, the only field
`IndexBlock` reads.
-/

/-! ### A round of the state -/

namespace BftCore.State

variable {A K D ε : Type}

/-- What the pruner of `BeginBlock` (`statePruner.Traverse`) leaves of a unit: one with more
than one log keeps a single one, with no transaction record hash, the ledger head of its last
log, and the unit's own data, deletion round and lock. -/
def UnitView.pruned (w : UnitView D) : UnitView D :=
  if w.logs.length ≤ 1 then w
  else
    match w.logs.getLast? with
    | none => w
    | some latestLog =>
      { w with
        logs := [⟨none, latestLog.unitLedgerHeadHash, w.data, w.deletionRound, w.stateLockTx⟩] }

/-- The unit the pruner writes has the pruned view. -/
theorem UnitV1.view_pruned (u : UnitV1 D) {latestLog : Log D} (hlen : 1 < u.logs.length)
    (hl : u.logs.getLast? = some latestLog) : (u.pruned latestLog).view = u.view.pruned := by
  simp [UnitV1.pruned, UnitView.pruned, UnitV1.view, UnitV1.clone, hl, Nat.not_le.2 hlen]

/-- `Prune()` on a unit map. -/
def UnitMap.prune (M : UnitMap K D) : UnitMap K D := fun id => (M id).map UnitView.pruned

variable [DecidableEq K] [UnitId K]

/-- The calls of the API in order; the first error ends them. -/
def Op.absRunAll (H : A → List (HashItem K D) → Bytes) (alg : A) :
    List (Op K D ε) → AbsM K D ε PUnit
  | [] => fun B => .ok () B
  | op :: ops => fun B =>
    match op.absRun H alg B with
    | .ok () B' => Op.absRunAll H alg ops B'
    | .error e B' => .error e B'

section Calls

variable (H : A → List (HashItem K D) → Bytes) (alg : A) {B : AbsState K D} {M : UnitMap K D}
  {u : K}

theorem absRunAll_cons_of_ok {op : Op K D ε} {B' : AbsState K D} (h : op.absRun H alg B = .ok () B')
    (ops : List (Op K D ε)) : Op.absRunAll H alg (op :: ops) B = Op.absRunAll H alg ops B' := by
  simp only [Op.absRunAll, h]

/-- `AddUnit(u, data)` on a latest map without the unit. -/
theorem absRun_addUnit (hl : B.savepoints.getLast? = some M) (hnil : UnitId.isNil u = false)
    (hu : M u = none) (d : D) :
    (Op.apply (ε := ε) [.addUnit u (some d)]).absRun H alg B =
      .ok () ⟨B.committed, SavepointStack.setTop
        (Function.update M u (some (.new (some d) none))) B.savepoints⟩ := by
  have happly : (Action.addUnit (ε := ε) u (some d)).apply M =
      .ok (Function.update M u (some (.new (some d) none))) := by
    simp [Action.apply, hnil, hu]
  exact AbsState.change_of_ok hl (Action.applyAll_cons_of_ok happly)

/-- `UpdateUnitData(u, f)`, with `f` giving the data `d`, on a latest map with the unit. -/
theorem absRun_updateUnitData (hl : B.savepoints.getLast? = some M) {w : UnitView D}
    (hu : M u = some w) (d : D) :
    (Op.apply (ε := ε) [.updateUnitData u (some fun _ => .ok (some d))]).absRun H alg B =
      .ok () ⟨B.committed, SavepointStack.setTop
        (Function.update M u (some { w with data := some d })) B.savepoints⟩ := by
  have happly : (Action.updateUnitData (ε := ε) u (some fun _ => .ok (some d))).apply M =
      .ok (Function.update M u (some { w with data := some d })) := by
    simp [Action.apply, hu]
  exact AbsState.change_of_ok hl (Action.applyAll_cons_of_ok happly)

/-- `AddUnitLog(u, txrHash)` on a latest map with the unit. -/
theorem absRun_addUnitLog (hl : B.savepoints.getLast? = some M) {w : UnitView D}
    (hu : M u = some w) (txrHash : Option Bytes) :
    (Op.addUnitLog (ε := ε) u txrHash).absRun H alg B =
      .ok () ⟨B.committed, SavepointStack.setTop
        (Function.update M u (some (w.addUnitLog H alg txrHash))) B.savepoints⟩ := by
  have hlog : UnitMap.addUnitLog (ε := ε) H alg u txrHash M =
      .ok (Function.update M u (some (w.addUnitLog H alg txrHash))) := by
    simp [UnitMap.addUnitLog, hu]
  exact AbsState.change_of_ok hl hlog

end Calls

/-- A round of the state as the generic transaction system drives it, from the committed map
`M`: `BeginBlock` prunes the latest map (the deletions of expired units by `rInit` are left
out), the calls of the block's transactions run on it, and `Commit` makes the latest map the
committed one; `none` when a call fails. -/
def runRound (H : A → List (HashItem K D) → Bytes) (alg : A) (ops : List (Op K D ε))
    (M : UnitMap K D) : Option (UnitMap K D) :=
  match Op.absRunAll H alg ops ⟨M, [UnitMap.prune M]⟩ with
  | .ok () B => B.savepoints.getLast?
  | .error _ _ => none

end BftCore.State

namespace BftCore.Partition

open BftCore.State BftCore.Avl

/-- What the indexer calls on the data of units. -/
structure OwnerEnv (D : Type) where
  /-- `UnitData.Owner()`: the owner predicate. -/
  owner : D → Bytes
  /-- `extractOwnerIDFromPredicate`: the public key hash of a P2PKH predicate, the empty string
  for any other bytes. -/
  extractOwnerIDFromPredicate : Bytes → Bytes

/-- The owner id of unit data, `extractOwnerIDFromPredicate(data.Owner())`. -/
def OwnerEnv.ownerID {D : Type} (E : OwnerEnv D) (d : D) : Bytes :=
  E.extractOwnerIDFromPredicate (E.owner d)

/-- The owner id the index lists a unit with this owner predicate under: none where it is
empty, for a predicate that is not P2PKH. -/
def OwnerEnv.listedUnder {D : Type} (E : OwnerEnv D) (ownerPredicate : Bytes) : Option Bytes :=
  if E.extractOwnerIDFromPredicate ownerPredicate = [] then none
  else some (E.extractOwnerIDFromPredicate ownerPredicate)

/-- The owner id the index lists a unit with this data under: none for a dummy unit. -/
def OwnerEnv.indexedOwner {D : Type} (E : OwnerEnv D) (data : Option D) : Option Bytes :=
  data.bind fun d => E.listedUnder (E.owner d)

/-- `state.Index[string]`: the unit ids listed under each owner id. -/
abbrev Index (K : Type) := AList fun _ : Bytes => List K

/-- `OwnerIndexer`: its `ownerUnits` (the logger and the lock are left out). -/
structure OwnerIndexer (K : Type) where
  ownerUnits : Index K

variable {A K D ε : Type}

/-- `index[ownerID]`: the ids listed under an owner id, nil for one that is not a key. -/
def Index.units (index : Index K) (ownerID : Bytes) : List K := (index.lookup ownerID).getD []

/-- `index[ownerID] = append(index[ownerID], unitID)`. -/
def Index.appendUnit (index : Index K) (ownerID : Bytes) (unitID : K) : Index K :=
  index.insert ownerID (Index.units index ownerID ++ [unitID])

namespace OwnerIndexer

/-- `NewOwnerIndexer`: no owner ids. -/
def new : OwnerIndexer K := ⟨∅⟩

variable [DecidableEq K]

/-! ### `GetOwnerUnits` -/

/-- `startIndex`: `0` without `sinceUnitID`, else one past the first id equal to it, which is
`0` again when there is none (`slices.IndexFunc` gives `-1`). -/
def startIndex (sinceUnitID : Option K) (ownerUnitIDs : List K) : Nat :=
  match sinceUnitID with
  | none => 0
  | some sinceUnitID =>
    match ownerUnitIDs.findIdx? fun n => n = sinceUnitID with
    | some index => index + 1
    | none => 0

/-- `endIndex`: the whole list for a limit of `0` or less, else at most `limit` ids on. -/
def endIndex (startIndex : Nat) (limit : Int) (ownerUnitIDs : List K) : Nat :=
  if limit ≤ 0 then ownerUnitIDs.length
  else min (startIndex + limit.toNat) ownerUnitIDs.length

/-- `GetOwnerUnits(ownerID, sinceUnitID, limit)`: a window of the owner's list (the error it
returns is always nil). -/
def getOwnerUnits (o : OwnerIndexer K) (ownerID : Bytes) (sinceUnitID : Option K) (limit : Int) :
    List K :=
  match o.ownerUnits.lookup ownerID with
  | none => []
  | some units =>
    let startIndex := startIndex sinceUnitID units
    if startIndex ≥ units.length then []
    else (units.take (endIndex startIndex limit units)).drop startIndex

/-! ### `IndexBlock` -/

/-- `addOwnerIndex(unitID, ownerPredicate)`: the unit appended under the owner id, unless that
is empty. -/
def addOwnerIndex (E : OwnerEnv D) (unitID : K) (ownerPredicate : Bytes) (o : OwnerIndexer K) :
    OwnerIndexer K :=
  let ownerID := E.extractOwnerIDFromPredicate ownerPredicate
  if ownerID ≠ [] then ⟨Index.appendUnit o.ownerUnits ownerID unitID⟩ else o

/-- `delOwnerIndex(unitID, ownerPredicate)`: the first occurrence of the unit taken off the
owner id's list, and the key deleted when the list is left empty. -/
def delOwnerIndex (E : OwnerEnv D) (unitID : K) (ownerPredicate : Bytes) (o : OwnerIndexer K) :
    OwnerIndexer K :=
  let ownerID := E.extractOwnerIDFromPredicate ownerPredicate
  if ownerID = [] then o
  else
    let unitIDs := (Index.units o.ownerUnits ownerID).erase unitID
    if unitIDs.length = 0 then ⟨o.ownerUnits.erase ownerID⟩
    else ⟨o.ownerUnits.insert ownerID unitIDs⟩

/-- `indexUnit(unitID, logs)`, on the logs of a unit, which `IndexBlock` never passes empty:
nothing for a dummy unit (no data in the last log); else the unit is added under the owner of
its last log and, when it has more than one log, deleted from the owner of its first. -/
def indexUnit (E : OwnerEnv D) (unitID : K) (logs : List (Log D)) (o : OwnerIndexer K) :
    OwnerIndexer K :=
  match logs.getLast?.bind Log.newUnitData with
  | none => o
  | some newUnitData =>
    let o := o.addOwnerIndex E unitID (E.owner newUnitData)
    if logs.length > 1 then
      match logs.head?.bind Log.newUnitData with
      | none => o
      | some prevUnitData => o.delOwnerIndex E unitID (E.owner prevUnitData)
    else o

/-- The loop of `IndexBlock` over unit ids: each unit is read from the committed units `M`, and
an id that is not there ends the call, with the units before it indexed; a unit without logs
is skipped (with an error logged). -/
def indexUnits (E : OwnerEnv D) (M : UnitMap K D) :
    List K → EStateM (StateError K String) (OwnerIndexer K) PUnit
  | [] => fun o => .ok () o
  | unitID :: rest => fun o =>
    match MapSpec.get M unitID with
    | .error e => .error (.wrapped "failed to load unit" (.avl e)) o
    | .ok u =>
      if u.logs.length = 0 then indexUnits E M rest o
      else indexUnits E M rest (o.indexUnit E unitID u.logs)

/-- `IndexBlock(b, s)`: the target units of the block's transaction records, one record after
the other, read from the committed units `M`. -/
def indexBlock (E : OwnerEnv D) (b : List (List K)) (M : UnitMap K D) :
    EStateM (StateError K String) (OwnerIndexer K) PUnit :=
  indexUnits E M b.flatten

/-! ### `LoadState` -/

/-- `extractOwnerID(unit)`: the owner id of the unit's data; `none` for a dummy unit, on whose
nil data `Owner()` is called (a panic). -/
def extractOwnerID (E : OwnerEnv D) (unit : UnitV1 D) : Option Bytes := unit.data.map E.ownerID

/-- `stateIndexer.Traverse` with `extractOwnerID`: the left subtree, the right subtree, then the
node, whose key is appended under its owner id unless that is empty. -/
def indexTraverse (E : OwnerEnv D) : Node K (UnitV1 D) → Index K → Option (Index K)
  | .nil, index => some index
  | .node k unit l r _ _, index => do
    let index ← indexTraverse E l index
    let index ← indexTraverse E r index
    let key ← extractOwnerID E unit
    pure (if key ≠ [] then Index.appendUnit index key k else index)

/-- `LoadState(s)`: the index `CreateIndex` builds from the committed tree replaces the old one. -/
def loadState (E : OwnerEnv D) (committedTree : Node K (UnitV1 D)) : Option (OwnerIndexer K) :=
  (indexTraverse E committedTree ∅).map OwnerIndexer.mk

/-! ### The lists after each operation -/

theorem indexUnits_cons_of_some (E : OwnerEnv D) {M : UnitMap K D} {unitID : K}
    {w : UnitView D} (hw : M unitID = some w) (hne : w.logs ≠ []) (rest : List K)
    (o : OwnerIndexer K) :
    indexUnits E M (unitID :: rest) o = indexUnits E M rest (o.indexUnit E unitID w.logs) := by
  have hlen : w.logs.length ≠ 0 := fun h0 => hne (List.eq_nil_of_length_eq_zero h0)
  simp only [indexUnits, MapSpec.get, hw, hlen, if_false]

/-- `indexUnit` on a unit with a single log with data lists it under that data's owner id. -/
theorem indexUnit_single (E : OwnerEnv D) (unitID : K) {l : Log D} {d : D}
    (hd : l.newUnitData = some d) (o : OwnerIndexer K) :
    o.indexUnit E unitID [l] = o.addOwnerIndex E unitID (E.owner d) := by
  simp [indexUnit, hd]

/-- `indexUnit` on a unit with more than one log, whose first and last logs have data, lists it
under the last's owner id and then deletes it from the first's. -/
theorem indexUnit_first_last (E : OwnerEnv D) (unitID : K) {logs : List (Log D)}
    {first last : Log D} {d₀ d : D} (hfirst : logs.head? = some first)
    (hd₀ : first.newUnitData = some d₀) (hlast : logs.getLast? = some last)
    (hd : last.newUnitData = some d) (hlen : 1 < logs.length) (o : OwnerIndexer K) :
    o.indexUnit E unitID logs =
      (o.addOwnerIndex E unitID (E.owner d)).delOwnerIndex E unitID (E.owner d₀) := by
  simp only [indexUnit, hlast, Option.bind_some, hd, hfirst, hd₀]
  rw [if_pos hlen]

/-- Without a start id and a limit, `GetOwnerUnits` returns the owner id's whole list. -/
theorem getOwnerUnits_none_zero (o : OwnerIndexer K) (ownerID : Bytes) :
    o.getOwnerUnits ownerID none 0 = Index.units o.ownerUnits ownerID := by
  unfold getOwnerUnits Index.units
  cases o.ownerUnits.lookup ownerID with
  | none => rfl
  | some units =>
    simp only [startIndex, endIndex, le_refl, if_true, Option.getD_some, List.take_length,
      List.drop_zero]
    split
    · rename_i hlen
      exact (List.eq_nil_of_length_eq_zero (Nat.le_zero.1 hlen)).symm
    · rfl

omit [DecidableEq K] in
@[simp] theorem units_empty (ownerID : Bytes) : Index.units (∅ : Index K) ownerID = [] := by
  rw [Index.units, AList.lookup_empty]
  rfl

omit [DecidableEq K] in
theorem units_appendUnit (index : Index K) (ownerID x : Bytes) (unitID : K) :
    Index.units (Index.appendUnit index ownerID unitID) x =
      if ownerID = x then Index.units index ownerID ++ [unitID] else Index.units index x := by
  unfold Index.appendUnit
  split
  · rename_i h
    subst h
    rw [Index.units, AList.lookup_insert]
    rfl
  · rename_i h
    rw [Index.units, AList.lookup_insert_ne (Ne.symm h)]
    rfl

omit [DecidableEq K] in
theorem units_addOwnerIndex (E : OwnerEnv D) (unitID : K) (p : Bytes) (o : OwnerIndexer K)
    (x : Bytes) :
    Index.units (o.addOwnerIndex E unitID p).ownerUnits x =
      if E.listedUnder p = some x then Index.units o.ownerUnits x ++ [unitID]
      else Index.units o.ownerUnits x := by
  unfold addOwnerIndex OwnerEnv.listedUnder
  by_cases hp : E.extractOwnerIDFromPredicate p = []
  · simp only [hp, ne_eq, not_true_eq_false, ↓reduceIte, reduceCtorEq]
  · simp only [hp, ne_eq, not_false_eq_true, if_true, if_false, Option.some.injEq]
    rw [units_appendUnit]
    split
    · rename_i h
      rw [h]
    · rfl

theorem units_delOwnerIndex (E : OwnerEnv D) (unitID : K) (p : Bytes) (o : OwnerIndexer K)
    (x : Bytes) :
    Index.units (o.delOwnerIndex E unitID p).ownerUnits x =
      if E.listedUnder p = some x then (Index.units o.ownerUnits x).erase unitID
      else Index.units o.ownerUnits x := by
  unfold delOwnerIndex OwnerEnv.listedUnder
  by_cases hp : E.extractOwnerIDFromPredicate p = []
  · simp only [hp, ↓reduceIte, reduceCtorEq]
  · simp only [hp, if_false, Option.some.injEq]
    by_cases hx : E.extractOwnerIDFromPredicate p = x
    · -- the owner's list loses the unit; an empty list loses its key, which reads the same
      subst hx
      rw [if_pos rfl]
      split
      · rename_i hlen
        rw [Index.units, AList.lookup_erase, Option.getD_none]
        exact (List.eq_nil_of_length_eq_zero hlen).symm
      · rw [Index.units, AList.lookup_insert]
        rfl
    · rw [if_neg hx]
      split
      · rw [Index.units, AList.lookup_erase_ne (Ne.symm hx)]
        rfl
      · rw [Index.units, AList.lookup_insert_ne (Ne.symm hx)]
        rfl

end OwnerIndexer

/-! ### What the index is for -/

open OwnerIndexer

/-- The owner id the index lists each unit of a unit map under. -/
def ownerOf (E : OwnerEnv D) (M : UnitMap K D) (unitID : K) : Option Bytes :=
  E.indexedOwner ((M unitID).bind UnitView.data)

/-- The index mirrors an assignment `f` of owner ids to units: the list of each owner id holds
every unit `f` gives it, once, and no other. -/
structure Mirrors (o : OwnerIndexer K) (f : K → Option Bytes) : Prop where
  nodup : ∀ ownerID, (Index.units o.ownerUnits ownerID).Nodup
  mem_iff : ∀ ownerID unitID, unitID ∈ Index.units o.ownerUnits ownerID ↔ f unitID = some ownerID

/-- The owner id `indexUnit` lists a unit under: that of the data of its last log. -/
def addedOwner (E : OwnerEnv D) (logs : List (Log D)) : Option Bytes :=
  E.indexedOwner (logs.getLast?.bind Log.newUnitData)

/-- The owner id `indexUnit` takes a unit off: that of the data of its first log, for a unit
with more than one log whose last log has data. -/
def removedOwner (E : OwnerEnv D) (logs : List (Log D)) : Option Bytes :=
  if (logs.getLast?.bind Log.newUnitData).isSome ∧ 1 < logs.length then
    E.indexedOwner (logs.head?.bind Log.newUnitData)
  else none

namespace Mirrors

variable {o : OwnerIndexer K} {f : K → Option Bytes}

theorem new : Mirrors (OwnerIndexer.new : OwnerIndexer K) fun _ => none :=
  ⟨fun x => by simp [OwnerIndexer.new], fun x unitID => by simp [OwnerIndexer.new]⟩

theorem not_mem (h : Mirrors o f) {unitID : K} {x : Bytes} (hx : f unitID ≠ some x) :
    unitID ∉ Index.units o.ownerUnits x :=
  fun hmem => hx ((h.mem_iff x unitID).1 hmem)

variable [DecidableEq K]

/-- The step every update of the index makes: an index whose lists are those of a mirror of `f`
with a unit taken off, and appended to the list of `y`, mirrors `f` with the unit moved to
`y`. -/
theorem relist (h : Mirrors o f) {o' : OwnerIndexer K} {unitID : K} {y : Option Bytes}
    (hunits : ∀ x, Index.units o'.ownerUnits x =
      if y = some x then (Index.units o.ownerUnits x).erase unitID ++ [unitID]
      else (Index.units o.ownerUnits x).erase unitID) :
    Mirrors o' (Function.update f unitID y) := by
  constructor
  · intro x
    have herase := (h.nodup x).erase unitID
    rw [hunits]
    split
    · rw [← List.concat_eq_append]
      exact herase.concat ((h.nodup x).not_mem_erase)
    · exact herase
  · intro x id
    rw [hunits]
    by_cases hid : id = unitID
    · -- the moved unit is in the list of `y` only
      subst hid
      rw [Function.update_self]
      split
      · exact iff_of_true (List.mem_append_right _ (List.mem_singleton_self _)) ‹_›
      · exact iff_of_false (h.nodup x).not_mem_erase ‹_›
    · -- any other unit is where it was
      have hmem : id ∈ (Index.units o.ownerUnits x).erase unitID ↔ f id = some x := by
        rw [(h.nodup x).mem_erase_iff, h.mem_iff]
        exact and_iff_right hid
      rw [Function.update_of_ne hid]
      split
      · rw [List.mem_append, List.mem_singleton, or_iff_left hid]
        exact hmem
      · exact hmem

/-- `addOwnerIndex` lists a unit the index does not hold under its owner id. -/
theorem addOwnerIndex (h : Mirrors o f) (E : OwnerEnv D) {unitID : K} (hu : f unitID = none)
    (p : Bytes) : Mirrors (o.addOwnerIndex E unitID p) (Function.update f unitID (E.listedUnder p)) := by
  refine h.relist fun x => ?_
  have hnot : unitID ∉ Index.units o.ownerUnits x := h.not_mem (by simp [hu])
  rw [units_addOwnerIndex, List.erase_of_not_mem hnot]

/-- `addOwnerIndex` then `delOwnerIndex` move a unit from the owner id the index holds for it,
which `p₀` gives, to the owner id of `p`. -/
theorem moveOwnerIndex (h : Mirrors o f) (E : OwnerEnv D) {unitID : K} {p₀ : Bytes}
    (hu : f unitID = E.listedUnder p₀) (p : Bytes) :
    Mirrors ((o.addOwnerIndex E unitID p).delOwnerIndex E unitID p₀)
      (Function.update f unitID (E.listedUnder p)) := by
  refine h.relist fun x => ?_
  rw [units_delOwnerIndex, units_addOwnerIndex]
  by_cases hx : E.listedUnder p₀ = some x
  · -- the unit leaves the list it is in, which is the one it may be appended to again
    have hmem : unitID ∈ Index.units o.ownerUnits x := (h.mem_iff x unitID).2 (hu.trans hx)
    rw [if_pos hx]
    split
    · exact List.erase_append_left _ hmem
    · rfl
  · -- a list the unit is not in only gains it
    have hnot : unitID ∉ Index.units o.ownerUnits x := h.not_mem (by rw [hu]; exact hx)
    rw [if_neg hx, List.erase_of_not_mem hnot]

/-- **`indexUnit` moves a unit to the owner id of its last log**, when the index holds for it
the owner id its logs say to take it off. -/
theorem indexUnit (h : Mirrors o f) (E : OwnerEnv D) {unitID : K} {logs : List (Log D)}
    (hu : f unitID = removedOwner E logs) :
    Mirrors (o.indexUnit E unitID logs) (Function.update f unitID (addedOwner E logs)) := by
  unfold OwnerIndexer.indexUnit addedOwner
  unfold removedOwner at hu
  cases hlast : logs.getLast?.bind Log.newUnitData with
  | none =>
    -- a dummy unit: nothing is listed or taken off
    simp only [hlast, Option.isSome_none, Bool.false_eq_true, false_and, if_false] at hu
    rw [OwnerEnv.indexedOwner, Option.bind_none, ← hu, Function.update_eq_self]
    exact h
  | some d =>
    simp only [hlast, Option.isSome_some, true_and] at hu
    simp only [OwnerEnv.indexedOwner, Option.bind_some]
    by_cases hlen : 1 < logs.length
    · rw [if_pos hlen] at hu
      rw [if_pos hlen]
      cases hhead : logs.head?.bind Log.newUnitData with
      | none =>
        rw [hhead] at hu
        exact h.addOwnerIndex E hu _
      | some d₀ =>
        rw [hhead] at hu
        exact h.moveOwnerIndex E hu _
    · rw [if_neg hlen] at hu
      rw [if_neg hlen]
      exact h.addOwnerIndex E hu _

/-- **The loop of `IndexBlock` over distinct units** moves each to the owner id of its last
log, when the index holds for each the owner id its logs say to take it off. -/
theorem indexUnits (h : Mirrors o f) (E : OwnerEnv D) {M : UnitMap K D} {ts : List K}
    (hnd : ts.Nodup)
    (hts : ∀ unitID ∈ ts, ∃ w, M unitID = some w ∧ w.logs ≠ [] ∧
      f unitID = removedOwner E w.logs) :
    ∃ o', OwnerIndexer.indexUnits E M ts o = .ok () o' ∧
      Mirrors o' fun unitID =>
        if unitID ∈ ts then (M unitID).bind fun w => addedOwner E w.logs else f unitID := by
  induction ts generalizing o f with
  | nil =>
    refine ⟨o, rfl, ?_⟩
    simpa only [List.not_mem_nil, if_false] using h
  | cons u rest ih =>
    obtain ⟨w, hw, hne, hf⟩ := hts u List.mem_cons_self
    obtain ⟨hu, hnd⟩ := List.nodup_cons.1 hnd
    -- after `u`, the units of the rest still have what `f` gives them
    have hrest : ∀ unitID ∈ rest, ∃ w', M unitID = some w' ∧ w'.logs ≠ [] ∧
        Function.update f u (addedOwner E w.logs) unitID = removedOwner E w'.logs := by
      intro unitID hmem
      obtain ⟨w', hw', hne', hf'⟩ := hts unitID (List.mem_cons_of_mem _ hmem)
      have hne_u : unitID ≠ u := fun heq => hu (heq ▸ hmem)
      exact ⟨w', hw', hne', by rw [Function.update_of_ne hne_u]; exact hf'⟩
    obtain ⟨o', hrun, h'⟩ := ih (h.indexUnit E hf) hnd hrest
    refine ⟨o', ?_, ?_⟩
    · rw [indexUnits_cons_of_some E hw hne]
      exact hrun
    · -- the two assignments agree: `u` is not in the rest
      have hfun : (fun unitID => if unitID ∈ rest then (M unitID).bind (fun w => addedOwner E w.logs)
            else Function.update f u (addedOwner E w.logs) unitID) =
          fun unitID => if unitID ∈ u :: rest then (M unitID).bind (fun w => addedOwner E w.logs)
            else f unitID := by
        funext unitID
        by_cases hid : unitID = u
        · subst hid
          rw [if_neg hu, if_pos List.mem_cons_self, Function.update_self, hw, Option.bind_some]
        · simp only [List.mem_cons, hid, false_or, Function.update_of_ne hid]
      rw [← hfun]
      exact h'

/-- A mirror answers `GetOwnerUnits(ownerID, nil, 0)` with the units assigned to the owner id,
each once. -/
theorem getOwnerUnits (h : Mirrors o f) (ownerID : Bytes) :
    (o.getOwnerUnits ownerID none 0).Nodup ∧
      ∀ unitID, unitID ∈ o.getOwnerUnits ownerID none 0 ↔ f unitID = some ownerID := by
  rw [getOwnerUnits_none_zero]
  exact ⟨h.nodup ownerID, h.mem_iff ownerID⟩

end Mirrors

/-! ### `LoadState` on a committed tree -/

/-- The keys of a tree's units listed under an owner id, in order. -/
def listedKeys (E : OwnerEnv D) (t : Node K (UnitV1 D)) (x : Bytes) : List K :=
  (t.entries.filter fun e => E.indexedOwner e.2.data = some x).map Prod.fst

theorem listedKeys_node (E : OwnerEnv D) (k : K) (u : UnitV1 D) (l r : Node K (UnitV1 D)) (c : Bool)
    (d : Nat) (x : Bytes) :
    listedKeys E (.node k u l r c d) x =
      listedKeys E l x ++ ((if E.indexedOwner u.data = some x then [k] else []) ++
        listedKeys E r x) := by
  unfold listedKeys
  rw [Node.entries_node, List.filter_append, List.filter_cons]
  split <;> simp_all

/-- The node step of `stateIndexer.Traverse` is `addOwnerIndex` with the owner of its unit. -/
theorem traverseStep_eq (E : OwnerEnv D) (index : Index K) (d : D) (k : K) :
    (if E.ownerID d ≠ [] then Index.appendUnit index (E.ownerID d) k else index) =
      (OwnerIndexer.addOwnerIndex E k (E.owner d) ⟨index⟩).ownerUnits := by
  unfold OwnerIndexer.addOwnerIndex OwnerEnv.ownerID
  by_cases h : E.extractOwnerIDFromPredicate (E.owner d) = []
  · simp only [h, ne_eq, not_true_eq_false, ↓reduceIte]
  · simp only [h, ne_eq, not_false_eq_true, ↓reduceIte]

open List in
/-- `stateIndexer.Traverse` on a tree without dummy units appends to the list of each owner id
the keys of the tree's units listed under it, in some order. -/
theorem indexTraverse_eq_some (E : OwnerEnv D) :
    ∀ (t : Node K (UnitV1 D)) (index : Index K), (∀ e ∈ t.entries, e.2.data.isSome) →
      ∃ index', indexTraverse E t index = some index' ∧
        ∀ x, (Index.units index' x).Perm (Index.units index x ++ listedKeys E t x)
  | .nil, index, _ => ⟨index, rfl, fun x => by simp [listedKeys]⟩
  | .node k u l r c d, index, hd => by
    rw [Node.entries_node] at hd
    obtain ⟨il, hl, pl⟩ := indexTraverse_eq_some E l index fun e he =>
      hd e (List.mem_append_left _ he)
    obtain ⟨ir, hr, pr⟩ := indexTraverse_eq_some E r il fun e he =>
      hd e (List.mem_append_right _ (List.mem_cons_of_mem _ he))
    obtain ⟨dat, hdat⟩ : ∃ dat, u.data = some dat :=
      Option.isSome_iff_exists.1 (hd (k, u) (by simp))
    refine ⟨if E.ownerID dat ≠ [] then Index.appendUnit ir (E.ownerID dat) k else ir, ?_, ?_⟩
    · simp [indexTraverse, hl, hr, extractOwnerID, hdat]
    · intro x
      -- the node's key comes after both subtrees' keys, where the filter puts it between them
      have hnode : Index.units (if E.ownerID dat ≠ [] then Index.appendUnit ir (E.ownerID dat) k
          else ir) x = Index.units ir x ++
            (if E.indexedOwner u.data = some x then [k] else []) := by
        rw [traverseStep_eq, units_addOwnerIndex, hdat, OwnerEnv.indexedOwner, Option.bind_some]
        split <;> simp
      rw [hnode, listedKeys_node]
      calc Index.units ir x ++ (if E.indexedOwner u.data = some x then [k] else [])
          _ ~ (Index.units il x ++ listedKeys E r x) ++
              (if E.indexedOwner u.data = some x then [k] else []) := (pr x).append_right _
          _ ~ ((Index.units index x ++ listedKeys E l x) ++ listedKeys E r x) ++
              (if E.indexedOwner u.data = some x then [k] else []) :=
            ((pl x).append_right _).append_right _
          _ = (Index.units index x ++ listedKeys E l x) ++ (listedKeys E r x ++
              (if E.indexedOwner u.data = some x then [k] else [])) := by
            simp only [List.append_assoc]
          _ ~ (Index.units index x ++ listedKeys E l x) ++
              ((if E.indexedOwner u.data = some x then [k] else []) ++ listedKeys E r x) :=
            List.perm_append_comm.append_left _
          _ = Index.units index x ++ (listedKeys E l x ++
              ((if E.indexedOwner u.data = some x then [k] else []) ++ listedKeys E r x)) := by
            simp only [List.append_assoc]

/-- `stateIndexer.Traverse` on a tree with a dummy unit panics: `Owner()` is called on its
nil data. -/
theorem indexTraverse_eq_none (E : OwnerEnv D) :
    ∀ (t : Node K (UnitV1 D)) (index : Index K), (∃ e ∈ t.entries, e.2.data = none) →
      indexTraverse E t index = none
  | .nil, _, ⟨_, he, _⟩ => absurd he List.not_mem_nil
  | .node k u l r c d, index, ⟨e, he, hnone⟩ => by
    rw [Node.entries_node, List.mem_append, List.mem_cons] at he
    rcases he with hmem | rfl | hmem
    · simp [indexTraverse, indexTraverse_eq_none E l index ⟨e, hmem, hnone⟩]
    · -- the node's own unit is the dummy one
      have hu : u.data = none := hnone
      cases hl : indexTraverse E l index with
      | none => simp [indexTraverse, hl]
      | some il => simp [indexTraverse, hl, extractOwnerID, hu]
    · cases hl : indexTraverse E l index with
      | none => simp [indexTraverse, hl]
      | some il => simp [indexTraverse, hl, indexTraverse_eq_none E r il ⟨e, hmem, hnone⟩]

/-- `LoadState` on a committed tree with a dummy unit panics. -/
theorem loadState_eq_none (E : OwnerEnv D) {t : Node K (UnitV1 D)}
    (h : ∃ e ∈ t.entries, e.2.data = none) : loadState E t = none := by
  rw [loadState, indexTraverse_eq_none E t ∅ h]
  rfl

theorem ownerOf_viewMap (E : OwnerEnv D) (M : K → Option (UnitV1 D)) (unitID : K) :
    ownerOf E (viewMap M) unitID = E.indexedOwner ((M unitID).bind UnitV1.data) := by
  unfold ownerOf viewMap MapSpec.mapValues
  cases M unitID <;> rfl

/-- **`LoadState` on an ordered tree without dummy units mirrors its units.** -/
theorem loadState_mirrors [LinearOrder K] (E : OwnerEnv D) {t : Node K (UnitV1 D)}
    (ho : t.Ordered) (hd : ∀ e ∈ t.entries, e.2.data.isSome) :
    ∃ o, loadState E t = some o ∧ Mirrors o (ownerOf E (viewMap t.toMap)) := by
  obtain ⟨index, hidx, hperm⟩ := indexTraverse_eq_some E t ∅ hd
  -- the keys of an ordered tree are distinct
  have hkeys : (t.entries.map Prod.fst).Nodup :=
    ((Node.ordered_iff_pairwise t).1 ho).imp fun hlt => ne_of_lt hlt
  refine ⟨⟨index⟩, by rw [loadState, hidx]; rfl, fun x => ?_, fun x unitID => ?_⟩
  · rw [(hperm x).nodup_iff, units_empty, List.nil_append]
    exact hkeys.sublist (List.filter_sublist.map _)
  · rw [(hperm x).mem_iff, units_empty, List.nil_append, listedKeys, List.mem_map,
      ownerOf_viewMap]
    constructor
    · rintro ⟨e, he, rfl⟩
      obtain ⟨hmem, hown⟩ := List.mem_filter.1 he
      rw [Node.toMap, List.lookup_of_mem hkeys hmem, Option.bind_some]
      exact of_decide_eq_true hown
    · intro hown
      cases hu : t.toMap unitID with
      | none => rw [hu] at hown; cases hown
      | some u =>
        rw [hu, Option.bind_some] at hown
        exact ⟨(unitID, u), List.mem_filter.2 ⟨List.mem_of_lookup_eq_some hu,
          decide_eq_true hown⟩, rfl⟩

/-! ### `IndexBlock` on a committed block -/

/-- What `indexUnit` takes the logs of a unit `w` of the committed map to say, against the map
`M₀` of the commit before: the last log records the unit's data; the first records the data it
had at that commit, unless it is the only log and the unit was not indexed then; and a unit
that is now a dummy was not indexed then. -/
structure LogsRecord (E : OwnerEnv D) (M₀ : UnitMap K D) (unitID : K) (w : UnitView D) :
    Prop where
  last : ∃ l, w.logs.getLast? = some l ∧ l.newUnitData = w.data
  first : 1 < w.logs.length → w.logs.head?.bind Log.newUnitData = (M₀ unitID).bind UnitView.data
  single : w.logs.length ≤ 1 → ownerOf E M₀ unitID = none
  dummy : w.data = none → ownerOf E M₀ unitID = none

namespace LogsRecord

variable {E : OwnerEnv D} {M₀ : UnitMap K D} {unitID : K} {w : UnitView D}

theorem logs_ne_nil (h : LogsRecord E M₀ unitID w) : w.logs ≠ [] := by
  obtain ⟨l, hl, -⟩ := h.last
  intro h0
  rw [h0] at hl
  cases hl

theorem addedOwner_eq (h : LogsRecord E M₀ unitID w) : addedOwner E w.logs = E.indexedOwner w.data := by
  obtain ⟨l, hl, hd⟩ := h.last
  rw [addedOwner, hl, Option.bind_some, hd]

theorem removedOwner_eq (h : LogsRecord E M₀ unitID w) :
    removedOwner E w.logs = ownerOf E M₀ unitID := by
  obtain ⟨l, hl, hd⟩ := h.last
  unfold removedOwner
  rw [hl, Option.bind_some, hd]
  cases hw : w.data with
  | none =>
    rw [if_neg (fun hc => by simp at hc)]
    exact (h.dummy hw).symm
  | some d =>
    by_cases hlen : 1 < w.logs.length
    · rw [if_pos ⟨rfl, hlen⟩, h.first hlen]
      rfl
    · rw [if_neg (fun hc => hlen hc.2)]
      exact (h.single (Nat.le_of_not_lt hlen)).symm

end LogsRecord

/-- **`IndexBlock` keeps the index a mirror of the committed units**, from the commit before
the block (`M₀`) to the one after it (`M₁`), when no unit is targeted twice in the block, the
units it does not target keep their owner ids, and the logs of each target say what
`indexUnit` takes them to say. -/
theorem indexBlock_mirrors [DecidableEq K] (E : OwnerEnv D) {M₀ M₁ : UnitMap K D}
    {o : OwnerIndexer K} (h : Mirrors o (ownerOf E M₀)) (b : List (List K))
    (hnd : b.flatten.Nodup)
    (hsame : ∀ unitID ∉ b.flatten, ownerOf E M₁ unitID = ownerOf E M₀ unitID)
    (hlogs : ∀ unitID ∈ b.flatten, ∃ w, M₁ unitID = some w ∧ LogsRecord E M₀ unitID w) :
    ∃ o', indexBlock E b M₁ o = .ok () o' ∧ Mirrors o' (ownerOf E M₁) := by
  have hts : ∀ unitID ∈ b.flatten, ∃ w, M₁ unitID = some w ∧ w.logs ≠ [] ∧
      ownerOf E M₀ unitID = removedOwner E w.logs := by
    intro unitID hmem
    obtain ⟨w, hw, hrec⟩ := hlogs unitID hmem
    exact ⟨w, hw, hrec.logs_ne_nil, hrec.removedOwner_eq.symm⟩
  obtain ⟨o', hrun, h'⟩ := h.indexUnits E hnd hts
  refine ⟨o', hrun, ?_⟩
  -- a target is listed under the owner id of its last log, which is its owner id now
  have hfun : (fun unitID => if unitID ∈ b.flatten then
        (M₁ unitID).bind (fun w => addedOwner E w.logs) else ownerOf E M₀ unitID) =
      ownerOf E M₁ := by
    funext unitID
    split
    · rename_i hmem
      obtain ⟨w, hw, hrec⟩ := hlogs unitID hmem
      rw [hw, Option.bind_some, hrec.addedOwner_eq, ownerOf, hw, Option.bind_some]
    · rename_i hmem
      exact (hsame unitID hmem).symm
  rw [← hfun]
  exact h'

/-! ### Two transactions on one unit -/

/-- The calls of a transaction that creates unit `u` with data `d`: `AddUnit`, then the unit's
log (`doExecute` adds one to each target unit). -/
def createCalls (u : K) (d : D) (txrHash : Bytes) : List (Op K D ε) :=
  [.apply [.addUnit u (some d)], .addUnitLog u (some txrHash)]

/-- The calls of a transaction that replaces the data of unit `u` by `d`, as a transfer does:
`UpdateUnitData`, then the unit's log. -/
def updateCalls (u : K) (d : D) (txrHash : Bytes) : List (Op K D ε) :=
  [.apply [.updateUnitData u (some fun _ => .ok (some d))], .addUnitLog u (some txrHash)]

section Transactions

variable [DecidableEq K] [UnitId K] (H : A → List (HashItem K D) → Bytes) (alg : A)
  {B : AbsState K D} {M : UnitMap K D} {u : K}

/-- The calls of `createCalls` on a latest map without the unit leave it with the data and one
log. -/
theorem absRunAll_createCalls_append (hl : B.savepoints.getLast? = some M)
    (hnil : UnitId.isNil u = false) (hu : M u = none) (d : D) (txrHash : Bytes)
    (rest : List (Op K D ε)) :
    Op.absRunAll H alg (createCalls u d txrHash ++ rest) B =
      Op.absRunAll H alg rest ⟨B.committed, SavepointStack.setTop (Function.update M u
        (some ((UnitView.new (some d) none).addUnitLog H alg (some txrHash)))) B.savepoints⟩ := by
  rw [createCalls, List.cons_append, List.cons_append, List.nil_append,
    absRunAll_cons_of_ok H alg (absRun_addUnit H alg hl hnil hu d),
    absRunAll_cons_of_ok H alg (absRun_addUnitLog H alg (SavepointStack.getLast?_setTop _ _)
      (Function.update_self _ _ _) _),
    SavepointStack.setTop_setTop, Function.update_idem]

/-- The calls of `updateCalls` on a latest map with the unit leave it with the new data and one
more log. -/
theorem absRunAll_updateCalls_append (hl : B.savepoints.getLast? = some M) {w : UnitView D}
    (hu : M u = some w) (d : D) (txrHash : Bytes) (rest : List (Op K D ε)) :
    Op.absRunAll H alg (updateCalls u d txrHash ++ rest) B =
      Op.absRunAll H alg rest ⟨B.committed, SavepointStack.setTop (Function.update M u
        (some (({ w with data := some d } : UnitView D).addUnitLog H alg (some txrHash))))
        B.savepoints⟩ := by
  rw [updateCalls, List.cons_append, List.cons_append, List.nil_append,
    absRunAll_cons_of_ok H alg (absRun_updateUnitData H alg hl hu d),
    absRunAll_cons_of_ok H alg (absRun_addUnitLog H alg (SavepointStack.getLast?_setTop _ _)
      (Function.update_self _ _ _) _),
    SavepointStack.setTop_setTop, Function.update_idem]

end Transactions

/-- **`IndexBlock` lists a unit twice when two transactions of a block target it.**  From the
empty state and the index `LoadState` builds from it: a block whose transaction creates unit `u`
with data `dA`, then a block of two transfers of `u`, to `dB` and then to `dC`.  The unit's
logs then record `dA`, `dB` and `dC`, and each of the two targets adds `u` under the owner id of
`dC` again. -/
theorem index_block_lists_unit_twice (E : OwnerEnv D) (H : A → List (HashItem Bytes D) → Bytes)
    (alg : A) {u : Bytes} (hu : u ≠ []) (dA dB dC : D) (hC : E.ownerID dC ≠ [])
    (hAC : E.ownerID dA ≠ E.ownerID dC) :
    ∃ M₁ M₂ o₁ o₂,
      runRound H alg (createCalls (ε := String) u dA [1]) MapSpec.empty = some M₁ ∧
      runRound H alg (updateCalls (ε := String) u dB [2] ++ updateCalls u dC [3]) M₁ = some M₂ ∧
      loadState E (.nil : Node Bytes (UnitV1 D)) = some OwnerIndexer.new ∧
      indexBlock E [[u]] M₁ OwnerIndexer.new = .ok () o₁ ∧
      indexBlock E [[u], [u]] M₂ o₁ = .ok () o₂ ∧
      ownerOf E M₂ u = some (E.ownerID dC) ∧
      Index.units o₂.ownerUnits (E.ownerID dC) = [u, u] := by
  have hnil : UnitId.isNil u = false := by simpa [UnitId.isNil] using hu
  -- the first round creates `u` with one log
  let w₁ := (UnitView.new (some dA) none).addUnitLog H alg (some [1])
  let M₁ := Function.update (UnitMap.prune MapSpec.empty) u (some w₁)
  have hr₁ : runRound H alg (createCalls (ε := String) u dA [1]) MapSpec.empty = some M₁ := by
    rw [runRound, ← List.append_nil (createCalls u dA [1]),
      absRunAll_createCalls_append H alg (List.getLast?_singleton) hnil rfl]
    rfl
  -- the pruner leaves `u`, which has one log; the two transfers give it two more
  have hp₁ : UnitMap.prune M₁ u = some w₁ := by
    simp [M₁, UnitMap.prune, UnitView.pruned, w₁, UnitView.addUnitLog, UnitView.new]
  let w₂ := ({ w₁ with data := some dB } : UnitView D).addUnitLog H alg (some [2])
  let w₃ := ({ w₂ with data := some dC } : UnitView D).addUnitLog H alg (some [3])
  let M₂ := Function.update (UnitMap.prune M₁) u (some w₃)
  have hr₂ : runRound H alg (updateCalls (ε := String) u dB [2] ++ updateCalls u dC [3]) M₁ =
      some M₂ := by
    rw [runRound, absRunAll_updateCalls_append H alg (List.getLast?_singleton) hp₁,
      ← List.append_nil (updateCalls u dC [3]),
      absRunAll_updateCalls_append H alg (SavepointStack.getLast?_setTop _ _)
        (Function.update_self _ _ _), Function.update_idem, SavepointStack.setTop_setTop]
    rfl
  -- the owner ids of `dA` and `dC`
  have hlistedA : E.listedUnder (E.owner dA) ≠ some (E.ownerID dC) := by
    unfold OwnerEnv.listedUnder
    split
    · simp
    · exact fun h => hAC (Option.some.inj h)
  have hlistedC : E.listedUnder (E.owner dC) = some (E.ownerID dC) := by
    simp only [OwnerEnv.listedUnder, OwnerEnv.ownerID] at hC ⊢
    rw [if_neg hC]
  -- the first block lists `u` under the owner id of `dA`, the second moves it twice
  let o₁ := (OwnerIndexer.new : OwnerIndexer Bytes).addOwnerIndex E u (E.owner dA)
  let move := fun o : OwnerIndexer Bytes =>
    (o.addOwnerIndex E u (E.owner dC)).delOwnerIndex E u (E.owner dA)
  have hadd : (OwnerIndexer.new : OwnerIndexer Bytes).indexUnit E u w₁.logs = o₁ :=
    indexUnit_single E u rfl _
  have hi₁ : indexBlock E [[u]] M₁ OwnerIndexer.new = .ok () o₁ := by
    rw [indexBlock, List.flatten_singleton,
      indexUnits_cons_of_some E (Function.update_self _ _ _) (by simp [w₁, UnitView.addUnitLog]),
      hadd]
    rfl
  have hmove : ∀ o, o.indexUnit E u w₃.logs = move o := fun o =>
    indexUnit_first_last E u rfl rfl rfl rfl (by simp [w₃, w₂, w₁, UnitView.addUnitLog]) o
  have hw₃ : M₂ u = some w₃ := Function.update_self _ _ _
  have hne₃ : w₃.logs ≠ [] := by simp [w₃, UnitView.addUnitLog]
  have hi₂ : indexBlock E [[u], [u]] M₂ o₁ = .ok () (move (move o₁)) := by
    rw [indexBlock, List.flatten_cons, List.flatten_singleton, List.singleton_append,
      indexUnits_cons_of_some E hw₃ hne₃, indexUnits_cons_of_some E hw₃ hne₃, hmove, hmove]
    rfl
  refine ⟨M₁, M₂, o₁, move (move o₁), hr₁, hr₂, rfl, hi₁, hi₂, ?_, ?_⟩
  · simp [ownerOf, hw₃, w₃, UnitView.addUnitLog, OwnerEnv.indexedOwner, hlistedC]
  · simp [move, o₁, units_delOwnerIndex, units_addOwnerIndex, hlistedA, hlistedC,
      OwnerIndexer.new]

/-- Owner predicates that are their own owner ids. -/
def selfOwned : OwnerEnv Bytes := ⟨id, id⟩

theorem index_block_lists_unit_twice_transfers :
    ([7] : Bytes) ≠ [] ∧ selfOwned.ownerID [3] ≠ [] ∧ selfOwned.ownerID [1] ≠ selfOwned.ownerID [3] ∧
    ∃ M₁ M₂ o₁ o₂,
      runRound (fun (_ : Unit) (_ : List (HashItem Bytes Bytes)) => ([] : Bytes)) ()
        (createCalls (ε := String) [7] [1] [1]) MapSpec.empty = some M₁ ∧
      runRound (fun (_ : Unit) (_ : List (HashItem Bytes Bytes)) => ([] : Bytes)) ()
        (updateCalls (ε := String) [7] [2] [2] ++ updateCalls [7] [3] [3]) M₁ = some M₂ ∧
      loadState selfOwned (.nil : Node Bytes (UnitV1 Bytes)) = some OwnerIndexer.new ∧
      indexBlock selfOwned [[[7]]] M₁ OwnerIndexer.new = .ok () o₁ ∧
      indexBlock selfOwned [[[7]], [[7]]] M₂ o₁ = .ok () o₂ ∧
      ownerOf selfOwned M₂ [7] = some (selfOwned.ownerID [3]) ∧
      Index.units o₂.ownerUnits (selfOwned.ownerID [3]) = [[7], [7]] :=
  ⟨by decide, by decide, by decide,
    index_block_lists_unit_twice selfOwned _ () (by decide) [1] [2] [3] (by decide) (by decide)⟩

end BftCore.Partition
