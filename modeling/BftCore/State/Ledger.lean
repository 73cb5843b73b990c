import BftCore.State.ActionRefine
import BftCore.State.Abstract
import BftCore.State.Calls
import BftCore.Lib.List

/-!
# `state`: the unit ledger

Each log of a unit carries the head hash of the unit ledger: `newUnitLog` chains the
transaction record hash to the head of the log before it, or to nil for the first log of a
unit.  The pruner replaces the logs of a unit by one log with no transaction record hash,
which starts the chain anew.

* `Chained`, `LedgerChain`: every log with a transaction record hash has as head hash the
  hash of the previous head and that record hash; `LedgerChain.head_eq` reads it at an index;
* `ledgerChain_addUnitLog`, `ledgerChain_pruned`: `AddUnitLog` and the pruner keep it;
* `Action.apply_eq_update`: an action changes one unit of the map, and either keeps its logs
  or starts it without logs; so the actions keep the chain of every unit (`Action.apply_chained`),
  and so do `AddUnitLog` and the tree writes of the pruner (`UnitMap.Chained.addUnitLog`,
  `UnitMap.Chained.apply`);
* `Node.LedgerChained`: the chain at every entry of a tree, and `ledgerChained_iff`, the same
  read through the unit map an ordered tree denotes.
-/

namespace BftCore.State

open BftCore.Avl

variable {A K D ε : Type} (H : A → List (HashItem K D) → Bytes) (alg : A)

/-- The head hashes of the logs chain from the head `prev`: a log with a transaction record
hash has as head hash the hash of the head before it and that record hash. -/
def Chained : Option Bytes → List (Log D) → Prop
  | _, [] => True
  | prev, l :: ls =>
    (l.txRecordHash.isSome →
      l.unitLedgerHeadHash = some (H alg [.bytes prev, .bytes l.txRecordHash])) ∧
      Chained l.unitLedgerHeadHash ls

/-- The unit ledger of a unit is chained from its start, where there is no head. -/
def LedgerChain (logs : List (Log D)) : Prop := Chained H alg none logs

/-- The head the next log chains to: that of the last log, `prev` without logs. -/
def lastHead (prev : Option Bytes) (logs : List (Log D)) : Option Bytes :=
  (logs.getLast?.map Log.unitLedgerHeadHash).getD prev

theorem chained_append (prev : Option Bytes) (ls : List (Log D)) (l : Log D) :
    Chained H alg prev (ls ++ [l]) ↔ Chained H alg prev ls ∧
      (l.txRecordHash.isSome →
        l.unitLedgerHeadHash = some (H alg [.bytes (lastHead prev ls), .bytes l.txRecordHash])) := by
  induction ls generalizing prev with
  | nil => simp [Chained, lastHead]
  | cons l₀ ls ih =>
    rw [List.cons_append, Chained, Chained, ih, and_assoc]
    -- the last head of a longer list
    have hlast : lastHead l₀.unitLedgerHeadHash ls = lastHead prev (l₀ :: ls) := by
      cases ls with
      | nil => rfl
      | cons => simp [lastHead, List.getLast?_cons]
    rw [hlast]

/-- `unitLedgerHeadHash` chains to the last head. -/
theorem unitLedgerHeadHash_eq (logs : List (Log D)) (txrHash : Option Bytes) :
    UnitV1.unitLedgerHeadHash H alg logs txrHash = H alg [.bytes (lastHead none logs), .bytes txrHash] := by
  unfold UnitV1.unitLedgerHeadHash lastHead
  cases logs.getLast? <;> rfl

/-- **`AddUnitLog` keeps the ledger chained.** -/
theorem ledgerChain_addUnitLog {logs : List (Log D)} (h : LedgerChain H alg logs)
    (txrHash : Option Bytes) (data : Option D) (deletionRound : UInt64)
    (lock : Option Bytes) :
    LedgerChain H alg (logs ++ [⟨txrHash, some (UnitV1.unitLedgerHeadHash H alg logs txrHash),
      data, deletionRound, lock⟩]) := by
  unfold LedgerChain
  rw [chained_append, unitLedgerHeadHash_eq]
  exact ⟨h, fun _ => rfl⟩

/-- The one log the pruner leaves has no transaction record hash. -/
theorem ledgerChain_pruned (u : UnitV1 D) (latestLog : Log D) :
    LedgerChain H alg (u.pruned latestLog).logs :=
  ⟨fun h => absurd h (by simp [UnitV1.pruned]), trivial⟩

/-- The chain at the log of index `j`, with the head the log before it holds, or `prev` for the
first log. -/
theorem Chained.head_eq {prev : Option Bytes} {logs : List (Log D)} (h : Chained H alg prev logs)
    {j : Nat} (hj : j < logs.length) (htx : logs[j].txRecordHash.isSome) :
    logs[j].unitLedgerHeadHash =
      some (H alg [.bytes (if j = 0 then prev else (logs[j - 1]?.map Log.unitLedgerHeadHash).getD prev),
        .bytes logs[j].txRecordHash]) := by
  induction logs generalizing prev j with
  | nil => exact absurd hj (Nat.not_lt_zero _)
  | cons l ls ih =>
    obtain ⟨h₀, hs⟩ := h
    cases j with
    | zero => exact h₀ htx
    | succ j =>
      -- the log after `l`: the chain of the rest starts at the head of `l`
      have hj' : j < ls.length := Nat.lt_of_succ_lt_succ hj
      simp only [List.getElem_cons_succ] at htx ⊢
      rw [ih hs hj' htx]
      cases j with
      | zero => simp
      | succ j => simp [List.getElem?_eq_getElem (Nat.lt_of_succ_lt hj')]

/-! ### Unit maps -/

/-- Every unit of the map has a chained ledger. -/
def UnitMap.Chained (M : UnitMap K D) : Prop := ∀ id w, M id = some w → LedgerChain H alg w.logs

variable {H alg}

theorem UnitMap.Chained.update [DecidableEq K] {M : UnitMap K D} (hM : M.Chained H alg) (id : K)
    {o : Option (UnitView D)} (ho : ∀ w, o = some w → LedgerChain H alg w.logs) :
    UnitMap.Chained H alg (Function.update M id o) := by
  intro id' w hw
  by_cases hid : id' = id
  · subst hid
    rw [Function.update_self] at hw
    exact ho w hw
  · rw [Function.update_of_ne hid] at hw
    exact hM id' w hw

/-- **An action changes one unit of the map**, and either keeps its logs or gives it none. -/
theorem Action.apply_eq_update [DecidableEq K] [UnitId K] {a : Action K D ε} {M M' : UnitMap K D}
    (h : a.apply M = .ok M') :
    ∃ id o, M' = Function.update M id o ∧
      ∀ w, o = some w → w.logs = [] ∨ ∃ w₀, M id = some w₀ ∧ w.logs = w₀.logs := by
  cases a with
  | addUnit id data =>
    simp only [Action.apply] at h
    split_ifs at h
    cases h
    -- a new unit has no logs
    exact ⟨id, _, rfl, fun _ hw => by cases hw; exact .inl rfl⟩
  | addOrPromoteUnit id data =>
    simp only [Action.apply] at h
    split_ifs at h
    split at h
    · split_ifs at h
      cases h
      exact ⟨id, _, rfl, fun _ hw => by cases hw; exact .inl rfl⟩
    · cases h
      exact ⟨id, _, rfl, fun _ hw => by cases hw; exact .inl rfl⟩
  | addUnitWithLock id data l =>
    simp only [Action.apply] at h
    split_ifs at h
    cases h
    exact ⟨id, _, rfl, fun _ hw => by cases hw; exact .inl rfl⟩
  | addDummyUnit id =>
    simp only [Action.apply] at h
    split_ifs at h
    cases h
    exact ⟨id, _, rfl, fun _ hw => by cases hw; exact .inl rfl⟩
  | updateUnitData id f =>
    simp only [Action.apply] at h
    split at h
    · cases h
    · cases h
    · rename_i w hw
      split at h
      · cases h
      · cases h
        -- a field other than the logs changes
        exact ⟨id, _, rfl, fun _ hw' => by cases hw'; exact .inr ⟨w, hw, rfl⟩⟩
  | setStateLock id l =>
    simp only [Action.apply] at h
    split_ifs at h
    split at h
    · cases h
    · rename_i w hw
      split_ifs at h
      cases h
      exact ⟨id, _, rfl, fun _ hw' => by cases hw'; exact .inr ⟨w, hw, rfl⟩⟩
  | removeStateLock id =>
    simp only [Action.apply] at h
    split_ifs at h
    split at h
    · cases h
    · rename_i w hw
      split_ifs at h
      cases h
      exact ⟨id, _, rfl, fun _ hw' => by cases hw'; exact .inr ⟨w, hw, rfl⟩⟩
  | deleteUnit id =>
    simp only [Action.apply] at h
    split_ifs at h
    cases h
    exact ⟨id, none, rfl, fun _ hw => by cases hw⟩
  | markForDeletion id r =>
    simp only [Action.apply] at h
    split_ifs at h
    split at h
    · cases h
    · rename_i w hw
      cases h
      exact ⟨id, _, rfl, fun _ hw' => by cases hw'; exact .inr ⟨w, hw, rfl⟩⟩

/-- **The actions keep the ledger of every unit chained.** -/
theorem Action.apply_chained [DecidableEq K] [UnitId K] {a : Action K D ε} {M M' : UnitMap K D}
    (hM : M.Chained H alg) (h : a.apply M = .ok M') : M'.Chained H alg := by
  obtain ⟨id, o, rfl, ho⟩ := Action.apply_eq_update h
  refine hM.update id fun w hw => ?_
  rcases ho w hw with hnil | ⟨w₀, hw₀, hlogs⟩
  · rw [hnil]
    trivial
  · rw [hlogs]
    exact hM id w₀ hw₀

theorem UnitMap.Chained.addUnitLog [DecidableEq K] {M M' : UnitMap K D} (hM : M.Chained H alg)
    {id : K} {txrHash : Option Bytes} (h : UnitMap.addUnitLog (ε := ε) H alg id txrHash M = .ok M') :
    M'.Chained H alg := by
  unfold UnitMap.addUnitLog at h
  split at h
  · cases h
  · rename_i w hw
    cases h
    refine hM.update id fun w' hw' => ?_
    cases hw'
    exact ledgerChain_addUnitLog H alg (hM id w hw) _ _ _ _

/-- A tree call on the map of views, the value written having a chained ledger. -/
theorem UnitMap.Chained.apply [DecidableEq K] {M M' : UnitMap K D} (hM : M.Chained H alg)
    {op : Avl.Op K (UnitV1 D)} (hop : op.Writes fun u => LedgerChain H alg u.logs)
    {ε' : Type} {f : AvlError K → ε'}
    (h : (MapSpec.apply M (op.map UnitV1.view)).mapError f = .ok M') : M'.Chained H alg := by
  cases op with
  | add k v =>
    simp only [Op.map, MapSpec.apply, Except.mapError] at h
    split_ifs at h
    cases h
    exact hM.update k fun w hw => by cases hw; exact hop
  | update k v =>
    simp only [Op.map, MapSpec.apply, Except.mapError] at h
    split_ifs at h
    cases h
    exact hM.update k fun w hw => by cases hw; exact hop
  | delete k =>
    simp only [Op.map, MapSpec.apply, Except.mapError] at h
    split_ifs at h
    cases h
    exact hM.update k fun _ hw => by cases hw

end BftCore.State

/-! ### Trees -/

namespace BftCore.Avl.Node

open BftCore.State

variable {A K D : Type} (H : A → List (HashItem K D) → Bytes) (alg : A)

/-- Every unit of the tree has a chained ledger. -/
def LedgerChained (t : Node K (UnitV1 D)) : Prop :=
  ∀ e ∈ t.ledger, LedgerChain H alg e.2

variable {H alg}

/-- The chain is read off the keys and logs of the tree. -/
theorem LedgerChained.of_ledger_eq {t t' : Node K (UnitV1 D)} (h : t.LedgerChained H alg)
    (he : t'.ledger = t.ledger) : t'.LedgerChained H alg := by
  unfold LedgerChained
  rw [he]
  exact h

/-- In an ordered tree, every entry is what its key looks up. -/
theorem toMap_of_mem [LinearOrder K] {t : Node K (UnitV1 D)} (ho : t.Ordered)
    {e : K × UnitV1 D} (he : e ∈ t.entries) : t.toMap e.1 = some e.2 := by
  have hnd : (t.entries.map Prod.fst).Nodup :=
    ((Node.ordered_iff_pairwise t).1 ho).imp (fun h => ne_of_lt h)
  exact List.lookup_of_mem hnd he

/-- **The chain at every entry of an ordered tree is the chain of every unit of its map.** -/
theorem ledgerChained_iff [LinearOrder K] {t : Node K (UnitV1 D)} (ho : t.Ordered) :
    t.LedgerChained H alg ↔ (viewMap t.toMap).Chained H alg := by
  constructor
  · intro h id w hw
    obtain ⟨u, hu, rfl⟩ : ∃ u, t.toMap id = some u ∧ u.view = w := by
      simpa [viewMap, MapSpec.mapValues] using hw
    exact h (id, u.logs) (List.mem_map.2 ⟨(id, u), List.mem_of_lookup_eq_some hu, rfl⟩)
  · intro h e he
    obtain ⟨p, hp, rfl⟩ := List.mem_map.1 he
    have hw : viewMap t.toMap p.1 = some p.2.view := by
      simp [viewMap, MapSpec.mapValues, toMap_of_mem ho hp]
    exact h p.1 _ hw

end BftCore.Avl.Node
