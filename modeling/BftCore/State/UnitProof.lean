import BftCore.State.Hashing
import BftCore.Lib.Merkle

/-!
# `state`: unit state proofs

`CreateUnitStateProof(id, logIndex)` proves, against the committed tree, the state of unit
`id` after its log `logIndex`, in three parts:

* the unit ledger hash the log chains to: the head hash of the log before it, or for the
  first log the head it starts from;
* the unit tree certificate (`createUnitTreeCert`): the transaction record hash of the log,
  the hash of the unit state it records, and the audit path of the log in the hash tree
  `mt.New(alg, logs)` over the unit's logs;
* the state tree certificate (`createStateTreeCert`): the summaries of the unit's children,
  and, from the unit's parent up to the root, the key, logs hash and value of each node on
  the way with the summary of its other child.

A verifier folds each part back: `UnitTreeCert.eval` from the log's leaf up to the logs hash,
`StateTreeCert.eval` from the unit up to the summary of the root.

The hash tree of `bft-go-base/mt` is not part of the repository: `GetMerklePath` is a
parameter `mtPath`, the hash of two children a parameter `mtNode`, and `MerkleSpec` states
what the code relies on of them and of `GetRootHash` (`logsRoot`).
-/

namespace BftCore.State

open BftCore.Avl BftCore.Avl.Heap EStateM Merkle

variable {A K D ε : Type}

/-! ### The proofs -/

/-- `types.UnitTreeCert`: the path items are `mt.PathItem{Hash, DirectionLeft}`, the flag
first. -/
structure UnitTreeCert where
  transactionRecordHash : Option Bytes
  unitStateHash : Bytes
  path : List (Bool × Bytes)
  deriving DecidableEq

/-- `types.StateTreePathItem`: a node on the way from the unit up, and its other child's
summary. -/
structure StateTreePathItem (K : Type) where
  unitId : K
  logsHash : Option Bytes
  value : UInt64
  siblingSummaryHash : Option Bytes
  siblingSummaryValue : UInt64
  deriving DecidableEq

/-- `types.StateTreeCert`: the unit's children's summaries, and the path from its parent up. -/
structure StateTreeCert (K : Type) where
  leftSummaryHash : Option Bytes
  leftSummaryValue : UInt64
  rightSummaryHash : Option Bytes
  rightSummaryValue : UInt64
  path : List (StateTreePathItem K)
  deriving DecidableEq

/-- `types.UnitStateProof`, with the certificate its bytes are marshalled from. -/
structure UnitStateProof (K : Type) where
  unitId : K
  unitLedgerHash : Option Bytes
  unitTreeCert : UnitTreeCert
  unitValue : UInt64
  stateTreeCert : StateTreeCert K
  unicityCertificate : UnicityCertificate
  deriving DecidableEq

/-- The errors of `CreateUnitStateProof`. -/
inductive ProofError (K : Type) where
  /-- `missing unicity certificate` -/
  | missingUnicityCertificate
  /-- `unable to get unit %v: %w` -/
  | unableToGetUnit (id : K) (e : AvlError K)
  /-- `invalid unit %v log index: %d` -/
  | invalidLogIndex (id : K) (logIndex : Int)
  /-- an error of `GetMerklePath` -/
  | merkle (e : MerkleError)
  /-- `unable to extract unit tree cert for unit %v: %w` -/
  | unitTreeCert (id : K) (e : ProofError K)
  /-- a runtime panic: a nil pointer dereferenced, an index out of range -/
  | panic
  deriving DecidableEq

/-- `fmt.Errorf("unable to extract unit tree cert for unit %v: %w", id, err)`: a panic is not
an error value and is never wrapped. -/
def ProofError.wrapUnitTreeCert (id : K) : ProofError K → ProofError K
  | .panic => .panic
  | e => .unitTreeCert id e

/-- `logs[i]` at a Go index: `none` where Go panics, below zero or past the end. -/
def logAt (logs : List (Log D)) (i : Int) : Option (Log D) :=
  if 0 ≤ i then logs[i.toNat]? else none

section Create

variable [LinearOrder K] [UnitData D] (H : A → List (HashItem K D) → Bytes) (alg : A)
  (mtPath : A → List (Log D) → Int → Except MerkleError (List (Bool × Bytes)))

/-- `UnitState.Hash(algorithm)` of the state a log records. -/
def Log.unitStateHash (algorithm : A) (l : Log D) : Bytes :=
  H algorithm [.unitState l.newUnitData l.deletionRound l.newStateLockTx]

/-- `Log.Hash(algorithm)`, the leaf of the log in the hash tree over the logs: the head hash of
the log and the hash of its unit state, which is computed with SHA-256 whatever the
algorithm. -/
def Log.hash (sha256 algorithm : A) (l : Log D) : Bytes :=
  H algorithm [.bytes l.unitLedgerHeadHash, .bytes (some (Log.unitStateHash H sha256 l))]

/-- `createUnitTreeCert(unit, logIndex)`: the audit path of the log in the hash tree over the
unit's logs, and the log's transaction record hash and unit state hash, the latter with the
state's algorithm. -/
def createUnitTreeCert (unit : UnitV1 D) (logIndex : Int) : Except (ProofError K) UnitTreeCert :=
  match mtPath alg unit.logs logIndex with
  | .error e => .error (.merkle e)
  | .ok path =>
    match logAt unit.logs logIndex with
    | none => .error .panic
    | some l => .ok ⟨l.txRecordHash, Log.unitStateHash H alg l, path⟩

omit [LinearOrder K] in
/-- `getStateTreePathItem(n, child, summaryValueInput, nodeKey)`: the logs hash of the unit of
the record `c`, its value `v`, and the summary of the child off the way. -/
def getStateTreePathItem (c : Cell K (UnitV1 D)) (child : Option Nat) (v : UInt64) :
    StoreM K (UnitV1 D) (StateTreePathItem K) := do
  let (siblingSummaryValue, siblingSummaryHash) ← subTreeSummary child
  pure ⟨c.key, c.value.logsHash, v, siblingSummaryHash, siblingSummaryValue⟩

/-- The loop of `createStateTreeCert(id)`, from the record `n` down to that of `id`, each item
prepended to `path`; `fuel` bounds the depth.  The loop ends at nil only if `id` is not in the
tree, and then `n.Key()` dereferences nil. -/
def stateTreeCertLoop (id : K) :
    Nat → Option Nat → List (StateTreePathItem K) → StoreM K (UnitV1 D) (StateTreeCert K)
  | 0, _, _ => throw .exhausted
  | _ + 1, none, _ => throw .invalidPointer
  | fuel + 1, some n, path => do
    let (_, c) ← deref (some n)
    if id = c.key then
      let (lv, lh) ← subTreeSummary c.left
      let (rv, rh) ← subTreeSummary c.right
      pure ⟨lh, lv, rh, rv, path⟩
    else if compare id c.key = .lt then
      let item ← getStateTreePathItem c c.right c.value.summaryValueInput
      stateTreeCertLoop id fuel c.left (item :: path)
    else
      let item ← getStateTreePathItem c c.left c.value.summaryValueInput
      stateTreeCertLoop id fuel c.right (item :: path)

/-- `createStateTreeCert(id)` on the committed tree. -/
def createStateTreeCert (id : K) (t : Tree) : StoreM K (UnitV1 D) (StateTreeCert K) := do
  stateTreeCertLoop id (← fuel) t.root []

/-- The unit ledger hash of `CreateUnitStateProof`: for a log after the first, the head hash of
the log before it; for the first, its own head hash if it has no transaction record hash (the
state copied from the round before), else nil.  `none` where Go panics: `logs[0]` of a unit
without logs. -/
def unitLedgerHash (logs : List (Log D)) (logIndex : Int) : Option (Option Bytes) :=
  if 0 < logIndex then (logAt logs (logIndex - 1)).map Log.unitLedgerHeadHash
  else
    (logAt logs 0).map fun l => if l.txRecordHash.isNone then l.unitLedgerHeadHash else none

/-- `CreateUnitStateProof(id, logIndex)`, the committed tree having the unicity certificate
`committedTreeUC`.  It reads the state and changes nothing. -/
def createUnitStateProof (committedTreeUC : Option UnicityCertificate) (id : K) (logIndex : Int)
    (σ : State K D) : Except (ProofError K) (UnitStateProof K) :=
  match committedTreeUC with
  | none => .error .missingUnicityCertificate
  | some uc =>
    match σ.committedTree.get id σ.store with
    | .error (.avl e) _ => .error (.unableToGetUnit id e)
    | .error _ _ => .error .panic
    | .ok unit _ =>
      if (unit.logs.length : Int) < logIndex then .error (.invalidLogIndex id logIndex)
      else
        match unitLedgerHash unit.logs logIndex with
        | none => .error .panic
        | some ledgerHash =>
          match createUnitTreeCert H alg mtPath unit logIndex with
          | .error e => .error (e.wrapUnitTreeCert id)
          | .ok unitTreeCert =>
            match createStateTreeCert id σ.committedTree σ.store with
            | .error _ _ => .error .panic
            | .ok stateTreeCert _ =>
              .ok ⟨id, ledgerHash, unitTreeCert, unit.summaryValueInput, stateTreeCert, uc⟩

end Create

/-! ### What a verifier computes -/

section Verify

variable [LinearOrder K] (H : A → List (HashItem K D) → Bytes) (alg : A)

/-- The hash a unit tree certificate leads to from the log with head hash `head`: the leaf is
the hash of the head and of the certificate's unit state hash. -/
def UnitTreeCert.eval (mtNode : A → Bytes → Bytes → Bytes) (c : UnitTreeCert)
    (head : Option Bytes) : Bytes :=
  Merkle.eval (mtNode alg) c.path (H alg [.bytes head, .bytes (some c.unitStateHash)])

/-- The summary value and hash the state hasher gives the node with key `k`, logs hash
`logsHash` and value `value`, from the summaries `ls` and `rs` of its children. -/
def nodeSummary (k : K) (logsHash : Option Bytes) (value : UInt64)
    (ls rs : UInt64 × Option Bytes) : UInt64 × Option Bytes :=
  let v := value + ls.1 + rs.1
  (v, some (H alg [.unitId k, .bytes logsHash, .uint64 v, .bytes ls.2, .uint64 ls.1, .bytes rs.2,
    .uint64 rs.1]))

/-- One step up the state tree: the summary of the node of `item` from the summary `s` of its
child on the way, which is its left child if `id` is below the node's key. -/
def StateTreePathItem.up (id : K) (s : UInt64 × Option Bytes) (item : StateTreePathItem K) :
    UInt64 × Option Bytes :=
  let sibling := (item.siblingSummaryValue, item.siblingSummaryHash)
  if id < item.unitId then nodeSummary H alg item.unitId item.logsHash item.value s sibling
  else nodeSummary H alg item.unitId item.logsHash item.value sibling s

/-- The summary of the unit's own subtree, from its logs hash, its value and its children's
summaries. -/
def StateTreeCert.unitSummary (id : K) (logsHash : Option Bytes) (unitValue : UInt64)
    (c : StateTreeCert K) : UInt64 × Option Bytes :=
  nodeSummary H alg id logsHash unitValue (c.leftSummaryValue, c.leftSummaryHash)
    (c.rightSummaryValue, c.rightSummaryHash)

/-- The summary a state tree certificate leads to: the unit's, folded up the path. -/
def StateTreeCert.eval (id : K) (logsHash : Option Bytes) (unitValue : UInt64)
    (c : StateTreeCert K) : UInt64 × Option Bytes :=
  c.path.foldl (StateTreePathItem.up H alg id) (c.unitSummary H alg id logsHash unitValue)

end Verify

/-! ### The state tree certificate on the value model -/

section Walk

variable [LinearOrder K] [UnitData D]

/-- The loop of `createStateTreeCert(id)` on the tree the committed root denotes: the
certificate read at the node of `id`, `none` if the walk falls off the tree. -/
def stateTreeCertOf (id : K) :
    Node K (UnitV1 D) → List (StateTreePathItem K) → Option (StateTreeCert K)
  | .nil, _ => none
  | .node k u l r _ _, path =>
    if id = k then some ⟨l.cached.2, l.cached.1, r.cached.2, r.cached.1, path⟩
    else if compare id k = .lt then
      stateTreeCertOf id l (⟨k, u.logsHash, u.summaryValueInput, r.cached.2, r.cached.1⟩ :: path)
    else
      stateTreeCertOf id r (⟨k, u.logsHash, u.summaryValueInput, l.cached.2, l.cached.1⟩ :: path)

omit [LinearOrder K] [UnitData D] in
theorem getStateTreePathItem_spec {s : Store K (UnitV1 D)} {p : Option Nat}
    {t : Node K (UnitV1 D)} (h : Repr s p t) (c : Cell K (UnitV1 D)) (v : UInt64) :
    getStateTreePathItem c p v s = .ok ⟨c.key, c.value.logsHash, v, t.cached.2, t.cached.1⟩ s := by
  unfold getStateTreePathItem
  rw [bind_of_ok (subTreeSummary_spec h)]
  rfl

/-- **The loop on the store is the walk on the tree the pointer denotes**, by induction on the
tree: every record read is one of the tree, and the fuel exceeds its height. -/
theorem stateTreeCertLoop_spec (id : K) {s : Store K (UnitV1 D)} {p : Option Nat}
    {t : Node K (UnitV1 D)} (h : Repr s p t) :
    ∀ {fuel : Nat} (path : List (StateTreePathItem K)), t.height < fuel →
      stateTreeCertLoop id fuel p path s =
        match stateTreeCertOf id t path with
        | some c => .ok c s
        | none => .error .invalidPointer s := by
  induction h with
  | nil =>
    intro fuel path hf
    obtain ⟨f, rfl⟩ : ∃ f, fuel = f + 1 := ⟨fuel - 1, by omega⟩
    rfl
  | @node a c l r hc hl hr ihl ihr =>
    intro fuel path hf
    obtain ⟨f, rfl⟩ : ∃ f, fuel = f + 1 := ⟨fuel - 1, by omega⟩
    have hfl : l.height < f := by simp at hf; omega
    have hfr : r.height < f := by simp at hf; omega
    simp only [stateTreeCertLoop]
    rw [bind_of_ok (deref_of hc)]
    dsimp only
    by_cases hid : id = c.key
    · -- the record of `id`: the summaries of its children
      rw [if_pos hid, bind_of_ok (subTreeSummary_spec hl), bind_of_ok (subTreeSummary_spec hr)]
      simp only [stateTreeCertOf, hid, if_true]
      rfl
    · rw [if_neg hid]
      by_cases hlt : compare id c.key = .lt
      · -- down to the left child, the right one off the way
        rw [if_pos hlt, bind_of_ok (getStateTreePathItem_spec hr c _), ihl _ hfl]
        simp [stateTreeCertOf, hid, hlt]
      · rw [if_neg hlt, bind_of_ok (getStateTreePathItem_spec hl c _), ihr _ hfr]
        simp [stateTreeCertOf, hid, hlt]

variable (H : A → List (HashItem K D) → Bytes) (alg : A) (logsRoot : A → List (Log D) → Option Bytes)

omit [LinearOrder K] in
variable {H alg logsRoot} in
/-- The summary a hashed node caches is the one the hasher gives it. -/
theorem cached_of_locallyHashed {k : K} {u : UnitV1 D} {l r : Node K (UnitV1 D)} {c : Bool}
    {d : Nat} (h : (Node.node k u l r c d).LocallyHashed H alg logsRoot) :
    (Node.node k u l r c d).cached =
      nodeSummary H alg k u.logsHash u.summaryValueInput l.cached r.cached := by
  obtain ⟨-, hv, hh⟩ := h
  show (u.subTreeSummaryValue, u.subTreeSummaryHash) = _
  rw [hh, hv]
  rfl

/-- **A state tree certificate leads to the summary of the tree**, by induction on the tree
along the search for `id`: at the node of `id` the certificate gives the node's summary, and
each item on the way up gives the summary of its node from that of the child on the way. -/
theorem stateTreeCertOf_eval {id k : K} {u : UnitV1 D} {l₀ r₀ : Node K (UnitV1 D)} {c₀ : Bool}
    {d₀ : Nat} (t : Node K (UnitV1 D)) :
    ∀ (path : List (StateTreePathItem K)), t.Hashed H alg logsRoot →
      t.get id = .node k u l₀ r₀ c₀ d₀ →
      ∃ cert, stateTreeCertOf id t path = some cert ∧
        cert.path.foldl (StateTreePathItem.up H alg id)
            (cert.unitSummary H alg id u.logsHash u.summaryValueInput) =
          path.foldl (StateTreePathItem.up H alg id) t.cached := by
  induction t with
  | nil =>
    intro path _ hg
    exact absurd hg (by simp [Node.get])
  | node k' u' l r c' d' ihl ihr =>
    intro path ht hg
    obtain ⟨hloc, hl, hr⟩ := ht
    rcases compare_cases k' id with ⟨hc, hlt⟩ | ⟨hc, rfl⟩ | ⟨hc, hgt⟩
    · -- the key of the node is below `id`: the search goes right, the left child off the way
      have hg' : r.get id = .node k u l₀ r₀ c₀ d₀ := by simpa [Node.get, hc] using hg
      obtain ⟨cert, hcert, heval⟩ :=
        ihr (⟨k', u'.logsHash, u'.summaryValueInput, l.cached.2, l.cached.1⟩ :: path) hr hg'
      have hne : id ≠ k' := ne_of_gt hlt
      have hnlt : compare id k' ≠ .lt := by
        rw [compare_gt_iff_gt.2 hlt]
        decide
      refine ⟨cert, by simp [stateTreeCertOf, hne, hnlt, hcert], ?_⟩
      rw [heval, List.foldl_cons, cached_of_locallyHashed hloc]
      simp [StateTreePathItem.up, not_lt.2 hlt.le]
    · -- the node of `id`
      have hu : u' = u := by
        simp only [Node.get, hc, Node.node.injEq] at hg
        exact hg.2.1
      subst hu
      refine ⟨⟨l.cached.2, l.cached.1, r.cached.2, r.cached.1, path⟩, by simp [stateTreeCertOf], ?_⟩
      rw [cached_of_locallyHashed hloc]
      rfl
    · -- the key of the node is above `id`: the search goes left, the right child off the way
      have hg' : l.get id = .node k u l₀ r₀ c₀ d₀ := by simpa [Node.get, hc] using hg
      obtain ⟨cert, hcert, heval⟩ :=
        ihl (⟨k', u'.logsHash, u'.summaryValueInput, r.cached.2, r.cached.1⟩ :: path) hl hg'
      have hne : id ≠ k' := ne_of_lt hgt
      have hlt' : compare id k' = .lt := compare_lt_iff_lt.2 hgt
      refine ⟨cert, by simp [stateTreeCertOf, hne, hlt', hcert], ?_⟩
      rw [heval, List.foldl_cons, cached_of_locallyHashed hloc]
      simp [StateTreePathItem.up, hgt]

end Walk

/-! ### The hash tree over the logs -/

section Merkle

variable (logsRoot : A → List (Log D) → Option Bytes)
  (mtPath : A → List (Log D) → Int → Except MerkleError (List (Bool × Bytes)))
  (mtNode : A → Bytes → Bytes → Bytes)

/-- What the state relies on of `mt.New(alg, data)`, as the package documents it:
`GetMerklePath(i)` returns a path exactly for the index of a leaf, and the path of a leaf,
followed from the leaf's hash `data[i].Hash(alg)` with the hash `mtNode alg` of two children,
leads to `GetRootHash()`. -/
structure MerkleSpec (leaf : A → Log D → Bytes) : Prop where
  path_ok_iff : ∀ alg logs i, (∃ p, mtPath alg logs i = .ok p) ↔ 0 ≤ i ∧ i < (logs.length : Int)
  eval_path : ∀ alg logs i p, mtPath alg logs i = .ok p →
    ∃ l, logAt logs i = some l ∧ logsRoot alg logs = some (Merkle.eval (mtNode alg) p (leaf alg l))

/-- The canonical hash tree of `Merkle` over the leaves `leaf alg l` meets `MerkleSpec`. -/
theorem merkleSpec_merkle (leaf : A → Log D → Bytes) :
    MerkleSpec (fun alg logs => Merkle.root (mtNode alg) (logs.map (leaf alg)))
      (fun alg logs i => Merkle.getMerklePath (mtNode alg) (logs.map (leaf alg)) i) mtNode leaf := by
  constructor
  · intro alg logs i
    rw [Merkle.getMerklePath_isOk_iff, List.length_map]
  · intro alg logs i p h
    obtain ⟨hi, hroot⟩ := Merkle.eval_getMerklePath (mtNode alg) h
    have hi' : i.toNat < logs.length := by simpa using hi
    refine ⟨logs[i.toNat], ?_, ?_⟩
    · have h0 : 0 ≤ i := by
        unfold Merkle.getMerklePath at h
        split_ifs at h with hr
        exact hr.1
      simp [logAt, h0, hi']
    · rw [hroot, List.getElem_map]

end Merkle

theorem logAt_isSome_iff (logs : List (Log D)) (i : Int) :
    (logAt logs i).isSome ↔ 0 ≤ i ∧ i < (logs.length : Int) := by
  unfold logAt
  split_ifs with h
  · simp only [Option.isSome_iff_ne_none, ne_eq, List.getElem?_eq_none_iff, not_le]
    omega
  · simp [h]

/-- The ledger hash is missing, where Go panics, exactly for a unit without logs at an index
up to zero. -/
theorem unitLedgerHash_eq_none_iff {logs : List (Log D)} {j : Int} (hj : j ≤ logs.length) :
    unitLedgerHash logs j = none ↔ logs = [] ∧ j ≤ 0 := by
  unfold unitLedgerHash
  split_ifs with hpos
  · -- the log before index `j` exists
    have hs := (logAt_isSome_iff logs (j - 1)).2 (by omega)
    constructor
    · intro h
      rw [Option.map_eq_none_iff] at h
      simp [h] at hs
    · intro h
      omega
  · have hs := logAt_isSome_iff logs 0
    cases logs with
    | nil => simp [logAt]; omega
    | cons l ls =>
      simp only [List.length_cons] at hs
      have h0 : (logAt (l :: ls) 0).isSome := hs.2 (by omega)
      simpa [Option.isSome_iff_ne_none] using h0

/-- **The ledger hash is the head the log chains to**: in a chained ledger, a log with a
transaction record hash has as head hash the hash of the ledger hash of its index and of that
record hash. -/
theorem head_eq_of_unitLedgerHash {H : A → List (HashItem K D) → Bytes} {alg : A}
    {logs : List (Log D)} (h : LedgerChain H alg logs) {j : Int} {l : Log D} {lh : Option Bytes}
    (hl : logAt logs j = some l) (hlh : unitLedgerHash logs j = some lh)
    (htx : l.txRecordHash.isSome) :
    l.unitLedgerHeadHash = some (H alg [.bytes lh, .bytes l.txRecordHash]) := by
  unfold logAt at hl
  split_ifs at hl with h0
  obtain ⟨hj, hlj⟩ := List.getElem?_eq_some_iff.1 hl
  subst hlj
  rw [Chained.head_eq H alg h hj htx]
  unfold unitLedgerHash at hlh
  split_ifs at hlh with hpos
  · -- a later log: the ledger hash is the head of the log before it
    have hprev : logAt logs (j - 1) = some logs[j.toNat - 1] := by
      have h1 : 1 ≤ j := by omega
      have h2 : (j - 1).toNat = j.toNat - 1 := by omega
      simp [logAt, h1, h2]
    rw [hprev, Option.map_some, Option.some.injEq] at hlh
    have hne : j.toNat ≠ 0 := by omega
    simp [hne, List.getElem?_eq_getElem (show j.toNat - 1 < logs.length by omega), hlh]
  · -- the first log: with a record hash it starts from no head
    have hj0 : j.toNat = 0 := by omega
    simp only [logAt, le_refl, if_true, Int.toNat_zero, Option.map_eq_some_iff] at hlh
    obtain ⟨l₀, hl₀, rfl⟩ := hlh
    have hl₀' : logs[j.toNat] = l₀ := by
      simp only [hj0]
      exact (List.getElem?_eq_some_iff.1 hl₀).2
    have hnone : l₀.txRecordHash.isNone = false := by
      rw [← hl₀']
      simpa using htx
    simp [hj0, hnone]

/-! ### Committed states -/

section Committed

variable [LinearOrder K] [UnitData D] {H : A → List (HashItem K D) → Bytes} {alg : A}
  {logsRoot : A → List (Log D) → Option Bytes}

omit [LinearOrder K] [UnitData D] in
/-- `Commit` succeeds only by making the latest savepoint the committed tree and the only
savepoint. -/
theorem commit_eq_ok {uc : UnicityCertificate} {σ σ' : State K D}
    (h : (State.commit uc : StateM K D ε PUnit) σ = .ok () σ') :
    ∃ t, σ.savepoints.getLast? = some t ∧
      σ' = { σ with committedTree := t.clone, savepoints := [t] } := by
  unfold State.commit at h
  split at h
  · cases h
  · rename_i t ht
    split at h
    · cases h
    · split_ifs at h
      cases h
      exact ⟨t, ht, rfl⟩

variable (H alg logsRoot) in
/-- The committed tree of `σ` denotes `tc`, whose nodes satisfy the equations of a hashed node
and whose units have chained ledgers. -/
structure CommittedInv (σ : State K D) (tc : Node K (UnitV1 D)) : Prop where
  owns : ∃ Dc, Owns σ.store σ.committedTree.root tc Dc
  hashed : tc.Hashed H alg logsRoot
  chained : tc.LedgerChained H alg

/-- **`CalculateRoot` then `Commit` commit a hashed tree**, on every state the calls reach: its
root caches the summary `CalculateRoot` returned. -/
theorem committedInv_of_commit [UnitId K] {σ σ₁ σ₂ : State K D} {r : UInt64 × Option Bytes}
    {uc : UnicityCertificate} (hσ : CallReachable (ε := ε) H alg logsRoot σ)
    (h₁ : State.calculateRoot (ε := ε) H alg logsRoot σ = .ok r σ₁)
    (h₂ : (State.commit uc : StateM K D ε PUnit) σ₁ = .ok () σ₂) :
    ∃ tc, CommittedInv H alg logsRoot σ₂ tc ∧ tc.cached = r := by
  cases ht : σ.savepoints.getLast? with
  | none => simp [State.calculateRoot, ht] at h₁
  | some t =>
    obtain ⟨tv, s', -, hrun, hrep, hinv⟩ := calculateRoot_spec hσ.inv ht
    rw [hrun] at h₁
    cases h₁
    obtain ⟨t', ht', rfl⟩ := commit_eq_ok h₂
    -- the savepoints are those of `σ`, so the tree committed is the latest one, just hashed
    have htt : t' = t := by
      simp only at ht'
      rw [ht, Option.some.injEq] at ht'
      exact ht'.symm
    subst htt
    obtain ⟨Dt, tv', ho, -, -, hl⟩ := hinv.latest ht
    have htv : tv' = tv.fullHash H alg logsRoot := ho.repr.unique hrep
    subst htv
    exact ⟨_, ⟨⟨Dt, ho⟩, Node.hashed_fullHash H alg logsRoot tv, hl⟩,
      Node.cached_fullHash H alg logsRoot tv⟩

variable {σ : State K D} {tc : Node K (UnitV1 D)}

/-- `Get` on the committed tree returns the unit of the node its search ends at. -/
theorem get_of_committedInv (hc : CommittedInv H alg logsRoot σ tc) {id : K} {u : UnitV1 D}
    {s' : Store K (UnitV1 D)} (hu : σ.committedTree.get id σ.store = .ok u s') :
    s' = σ.store ∧ ∃ k l r c d, tc.get id = .node k u l r c d := by
  obtain ⟨Dc, ho⟩ := hc.owns
  rw [Heap.Tree.get_spec ho] at hu
  unfold Avl.Tree.get at hu
  cases hn : tc.get id with
  | nil => simp [Heap.ofExcept, hn] at hu
  | node k v l r c d =>
    simp only [hn, Heap.ofExcept, EStateM.Result.ok.injEq] at hu
    obtain ⟨rfl, rfl⟩ := hu
    exact ⟨rfl, k, l, r, c, d, rfl⟩

section Found

variable (hc : CommittedInv H alg logsRoot σ tc) {id k : K} {u : UnitV1 D}
  {l r : Node K (UnitV1 D)} {c : Bool} {d : Nat} (hg : tc.get id = .node k u l r c d)
include hc hg

/-- The unit found has the logs hash of its logs. -/
theorem logsHash_of_found : u.logsHash = logsRoot alg u.logs := by
  have hsub := Node.get_subtree tc id
  rw [hg] at hsub
  exact (Node.All.subtree hc.hashed hsub).1.1

/-- The unit found has a chained ledger. -/
theorem ledgerChain_of_found : LedgerChain H alg u.logs := by
  have hsub := Node.get_subtree tc id
  rw [hg] at hsub
  have hmem : (k, u) ∈ tc.entries := hsub.entries_subset _ (by simp)
  exact hc.chained (k, u.logs) (List.mem_map.2 ⟨(k, u), hmem, rfl⟩)

/-- The state tree certificate of the unit found leads to the summary of the committed root. -/
theorem createStateTreeCert_eval :
    ∃ cert, createStateTreeCert id σ.committedTree σ.store = .ok cert σ.store ∧
      cert.eval H alg id u.logsHash u.summaryValueInput = tc.cached := by
  obtain ⟨Dc, ho⟩ := hc.owns
  obtain ⟨cert, hcert, heval⟩ := stateTreeCertOf_eval H alg logsRoot tc [] hc.hashed hg
  refine ⟨cert, ?_, heval⟩
  unfold createStateTreeCert
  rw [bind_of_ok (fuel_eq _),
    stateTreeCertLoop_spec id ho.repr [] (Nat.lt_succ_of_le ho.repr.height_le_next), hcert]

/-- `Get` on the committed tree returns the unit found, and changes nothing. -/
theorem get_of_found : σ.committedTree.get id σ.store = .ok u σ.store := by
  obtain ⟨Dc, ho⟩ := hc.owns
  rw [Heap.Tree.get_spec ho]
  simp [Avl.Tree.get, hg, Heap.ofExcept]

variable (mtPath : A → List (Log D) → Int → Except MerkleError (List (Bool × Bytes)))

/-- **`CreateUnitStateProof` for a unit of the committed tree**: an index past the logs is
rejected; below that, the proof is made of the ledger hash (whose log may not exist), the
unit tree certificate (which may fail) and a state tree certificate leading to the root. -/
theorem createUnitStateProof_of_found (uc : UnicityCertificate) (j : Int) :
    ∃ cert : StateTreeCert K, cert.eval H alg id u.logsHash u.summaryValueInput = tc.cached ∧
      createUnitStateProof H alg mtPath (some uc) id j σ =
        if (u.logs.length : Int) < j then .error (.invalidLogIndex id j)
        else
          match unitLedgerHash u.logs j with
          | none => .error .panic
          | some lh =>
            match createUnitTreeCert H alg mtPath u j with
            | .error e => .error (e.wrapUnitTreeCert id)
            | .ok utc => .ok ⟨id, lh, utc, u.summaryValueInput, cert, uc⟩ := by
  obtain ⟨cert, hcert, heval⟩ := createStateTreeCert_eval hc hg
  refine ⟨cert, heval, ?_⟩
  simp only [createUnitStateProof, get_of_found hc hg, hcert]

end Found

/-! ### What a proof of a committed unit proves -/

variable (mtPath : A → List (Log D) → Int → Except MerkleError (List (Bool × Bytes)))
  (mtNode : A → Bytes → Bytes → Bytes) {leaf : A → Log D → Bytes}

omit [LinearOrder K] [UnitData D] in
variable (H alg) in
/-- Under `MerkleSpec`, a log of the unit has a unit tree certificate, whose path leads from
the log's leaf to the root over the logs. -/
theorem createUnitTreeCert_of_logAt (hM : MerkleSpec logsRoot mtPath mtNode leaf)
    {u : UnitV1 D} {j : Int} {l : Log D} (hl : logAt u.logs j = some l) :
    ∃ path, createUnitTreeCert H alg mtPath u j =
        .ok ⟨l.txRecordHash, Log.unitStateHash H alg l, path⟩ ∧
      logsRoot alg u.logs = some (Merkle.eval (mtNode alg) path (leaf alg l)) := by
  have hr := (logAt_isSome_iff u.logs j).1 (by simp [hl])
  obtain ⟨path, hpath⟩ := (hM.path_ok_iff alg u.logs j).2 hr
  obtain ⟨l', hl', hroot⟩ := hM.eval_path alg u.logs j path hpath
  rw [hl, Option.some.injEq] at hl'
  subst hl'
  exact ⟨path, by simp [createUnitTreeCert, hpath, hl], hroot⟩

omit [LinearOrder K] [UnitData D] in
variable (H alg) in
/-- Under `MerkleSpec`, an index of no log fails in `GetMerklePath`. -/
theorem createUnitTreeCert_of_logAt_none (hM : MerkleSpec logsRoot mtPath mtNode leaf)
    {u : UnitV1 D} {j : Int} (hl : logAt u.logs j = none) :
    ∃ e, createUnitTreeCert H alg mtPath u j = .error (.merkle e) := by
  cases hp : mtPath alg u.logs j with
  | ok path =>
    have hr := (logAt_isSome_iff u.logs j).2 ((hM.path_ok_iff alg u.logs j).1 ⟨path, hp⟩)
    simp [hl] at hr
  | error e => exact ⟨e, by simp [createUnitTreeCert, hp]⟩

section Found

variable (hc : CommittedInv H alg logsRoot σ tc) {id k : K} {u : UnitV1 D}
  {l r : Node K (UnitV1 D)} {c : Bool} {d : Nat} (hg : tc.get id = .node k u l r c d)
  (hM : MerkleSpec logsRoot mtPath mtNode leaf) (uc : UnicityCertificate) (j : Int)
include hc hg hM

/-- **`CreateUnitStateProof` panics exactly on a unit without logs at an index up to zero**:
there `logs[0]` is read, and nowhere else is a log read that does not exist. -/
theorem createUnitStateProof_eq_panic_iff :
    createUnitStateProof H alg mtPath (some uc) id j σ = .error .panic ↔ u.logs = [] ∧ j ≤ 0 := by
  obtain ⟨cert, -, heq⟩ := createUnitStateProof_of_found hc hg mtPath uc j
  rw [heq]
  split_ifs with hlen
  · -- past the logs: rejected; a unit without logs has no index past them up to zero
    have hnot : ¬ (u.logs = [] ∧ j ≤ 0) := by
      rintro ⟨hnil, hj⟩
      rw [hnil] at hlen
      simp at hlen
      omega
    simp [hnot]
  · have hj : j ≤ u.logs.length := not_lt.1 hlen
    cases hlh : unitLedgerHash u.logs j with
    | none => simpa using (unitLedgerHash_eq_none_iff hj).1 hlh
    | some lh =>
      have hnot : ¬ (u.logs = [] ∧ j ≤ 0) := fun h => by
        rw [(unitLedgerHash_eq_none_iff hj).2 h] at hlh
        cases hlh
      cases hl : logAt u.logs j with
      | none =>
        obtain ⟨e, he⟩ := createUnitTreeCert_of_logAt_none H alg mtPath mtNode hM hl
        simp [he, ProofError.wrapUnitTreeCert, hnot]
      | some l =>
        obtain ⟨path, he, -⟩ := createUnitTreeCert_of_logAt H alg mtPath mtNode hM hl
        simp [he, hnot]

/-- **`CreateUnitStateProof` succeeds exactly for the index of a log of the unit.** -/
theorem createUnitStateProof_isOk_iff :
    (∃ p, createUnitStateProof H alg mtPath (some uc) id j σ = .ok p) ↔
      0 ≤ j ∧ j < (u.logs.length : Int) := by
  obtain ⟨cert, -, heq⟩ := createUnitStateProof_of_found hc hg mtPath uc j
  rw [heq, ← logAt_isSome_iff]
  split_ifs with hlen
  · -- past the logs
    simp only [logAt_isSome_iff, exists_false, false_iff, not_and, not_lt]
    omega
  · have hj : j ≤ u.logs.length := not_lt.1 hlen
    cases hl : logAt u.logs j with
    | none =>
      obtain ⟨e, he⟩ := createUnitTreeCert_of_logAt_none H alg mtPath mtNode hM hl
      cases unitLedgerHash u.logs j <;> simp [he]
    | some l =>
      obtain ⟨path, he, -⟩ := createUnitTreeCert_of_logAt H alg mtPath mtNode hM hl
      -- a unit with a log at the index has a ledger hash there
      have hne : u.logs ≠ [] := by
        intro hnil
        simp [hnil, logAt] at hl
      cases hlh : unitLedgerHash u.logs j with
      | none => exact absurd ((unitLedgerHash_eq_none_iff hj).1 hlh).1 hne
      | some lh => simp [he]

/-- **What a proof of a committed unit proves**: it is made of the log `l` of the unit at the
index.  The path of its unit tree certificate leads from the leaf of `l` to the unit's logs
hash, and its unit state hash is that of `l` with the state's algorithm; if `l` has a
transaction record hash, its head hash is the hash of the proof's ledger hash and that record
hash; and its state tree certificate leads from the unit to the summary of the committed
root. -/
theorem createUnitStateProof_sound_of_found {p : UnitStateProof K}
    (hp : createUnitStateProof H alg mtPath (some uc) id j σ = .ok p) :
    ∃ l, logAt u.logs j = some l ∧ p.unitId = id ∧ p.unitValue = u.summaryValueInput ∧
      p.unitTreeCert.transactionRecordHash = l.txRecordHash ∧
      p.unitTreeCert.unitStateHash = Log.unitStateHash H alg l ∧
      u.logsHash = some (Merkle.eval (mtNode alg) p.unitTreeCert.path (leaf alg l)) ∧
      (l.txRecordHash.isSome →
        l.unitLedgerHeadHash = some (H alg [.bytes p.unitLedgerHash, .bytes l.txRecordHash])) ∧
      p.stateTreeCert.eval H alg id u.logsHash p.unitValue = tc.cached := by
  obtain ⟨cert, heval, heq⟩ := createUnitStateProof_of_found hc hg mtPath uc j
  rw [heq] at hp
  -- an index past the logs is rejected
  split_ifs at hp with hlen
  cases hlh : unitLedgerHash u.logs j with
  | none => simp [hlh] at hp
  | some lh =>
    cases hl : logAt u.logs j with
    | none =>
      obtain ⟨e, he⟩ := createUnitTreeCert_of_logAt_none H alg mtPath mtNode hM hl
      simp [hlh, he] at hp
    | some l =>
      obtain ⟨path, he, hroot⟩ := createUnitTreeCert_of_logAt H alg mtPath mtNode hM hl
      simp only [hlh, he, Except.ok.injEq] at hp
      subst hp
      refine ⟨l, rfl, rfl, rfl, rfl, rfl, ?_, ?_, heval⟩
      · rw [logsHash_of_found hc hg, hroot]
      · exact head_eq_of_unitLedgerHash (ledgerChain_of_found hc hg) hl hlh

end Found

end Committed

/-! ### Concrete runs -/

/-- A hash for concrete runs, over algorithms numbered as Go's `crypto.Hash` numbers them
(SHA-256 is 5, SHA-512 is 7): the algorithm's number, then the bytes of each value written. -/
def tagHash (algorithm : Nat) (items : List (HashItem Nat Nat)) : Bytes :=
  algorithm.toUInt8 :: items.flatMap fun
    | .unitId k => [k.toUInt8]
    | .bytes b => b.getD []
    | .uint64 n => [n.toUInt8]
    | .unitState _ _ _ => []

/-- The hash of two children in concrete runs. -/
def tagNode (algorithm : Nat) (a b : Bytes) : Bytes := algorithm.toUInt8 :: (a ++ b)

/-- `GetRootHash()` of the hash tree over the logs in concrete runs, its leaves `Log.Hash`. -/
def tagLogsRoot (algorithm : Nat) (logs : List (Log Nat)) : Option Bytes :=
  Merkle.root (tagNode algorithm) (logs.map (Log.hash tagHash 5 algorithm))

/-- `GetMerklePath(i)` of the hash tree over the logs in concrete runs. -/
def tagPath (algorithm : Nat) (logs : List (Log Nat)) (i : Int) :
    Except MerkleError (List (Bool × Bytes)) :=
  Merkle.getMerklePath (tagNode algorithm) (logs.map (Log.hash tagHash 5 algorithm)) i

/-! ### Proofs on the states `CalculateRoot` then `Commit` leave -/

section Reachable

variable [LinearOrder K] [UnitId K] [UnitData D] (H : A → List (HashItem K D) → Bytes)
  (alg sha256 : A) (logsRoot : A → List (Log D) → Option Bytes)
  (mtPath : A → List (Log D) → Int → Except MerkleError (List (Bool × Bytes)))
  (mtNode : A → Bytes → Bytes → Bytes)
  {σ σ₁ σ₂ : State K D} {r : UInt64 × Option Bytes} {uc : UnicityCertificate} {id : K}
  {u : UnitV1 D}

/-- **When `CreateUnitStateProof` fails, and when it panics**, on every state that calls reach
and `CalculateRoot` then `Commit` commit, for every unit of the committed tree and every index
`j`: it succeeds exactly when `0 ≤ j < m` for the unit's `m` logs, and it panics, rather than
returning an error, exactly when the unit has no logs and `j ≤ 0`. -/
theorem createUnitStateProof_outcome {leaf : A → Log D → Bytes}
    (hM : MerkleSpec logsRoot mtPath mtNode leaf)
    (hσ : CallReachable (ε := ε) H alg logsRoot σ)
    (h₁ : State.calculateRoot (ε := ε) H alg logsRoot σ = .ok r σ₁)
    (h₂ : (State.commit uc : StateM K D ε PUnit) σ₁ = .ok () σ₂)
    (hu : σ₂.committedTree.get id σ₂.store = .ok u σ₂.store) (j : Int) :
    ((∃ p, createUnitStateProof H alg mtPath (some uc) id j σ₂ = .ok p) ↔
        0 ≤ j ∧ j < (u.logs.length : Int)) ∧
      (createUnitStateProof H alg mtPath (some uc) id j σ₂ = .error .panic ↔
        u.logs = [] ∧ j ≤ 0) := by
  obtain ⟨tc, hc, -⟩ := committedInv_of_commit hσ h₁ h₂
  obtain ⟨-, k, l, r, c, d, hg⟩ := get_of_committedInv hc hu
  exact ⟨createUnitStateProof_isOk_iff mtPath mtNode hc hg hM uc j,
    createUnitStateProof_eq_panic_iff mtPath mtNode hc hg hM uc j⟩

/-- The outcome on a unit with one log: a proof of index `j` exists exactly for `j = 0`, and no
index panics. -/
theorem createUnitStateProof_outcome_addUnitLog :
    ∃ (σ σ₁ σ₂ : State Nat Nat) (r : UInt64 × Option Bytes) (u : UnitV1 Nat),
      CallReachable (ε := Unit) tagHash 5 tagLogsRoot σ ∧
      State.calculateRoot (ε := Unit) tagHash 5 tagLogsRoot σ = .ok r σ₁ ∧
      (State.commit ⟨r.2, some (uint64ToBytes r.1)⟩ : StateM Nat Nat Unit PUnit) σ₁ = .ok () σ₂ ∧
      σ₂.committedTree.get 5 σ₂.store = .ok u σ₂.store ∧ u.logs.length = 1 ∧
      ∀ j : Int,
        ((∃ p, createUnitStateProof tagHash 5 tagPath (some ⟨r.2, some (uint64ToBytes r.1)⟩) 5 j σ₂ =
          .ok p) ↔ 0 ≤ j ∧ j < (u.logs.length : Int)) ∧
        (createUnitStateProof tagHash 5 tagPath (some ⟨r.2, some (uint64ToBytes r.1)⟩) 5 j σ₂ =
          .error .panic ↔ u.logs = [] ∧ j ≤ 0) := by
  -- `Apply` adds unit 5, and `AddUnitLog` gives it a log
  have hσ : CallReachable (ε := Unit) tagHash 5 tagLogsRoot _ :=
    .call (.op (.addUnitLog 5 (some [1])))
      (.call (.op (.apply [.addUnit 5 (some 7)])) .empty rfl) rfl
  refine ⟨_, ?σ₁, ?σ₂, ?r, ?u, hσ, ?h₁, ?h₂, ?hu, ?len, fun j => ?outcome⟩
  case outcome =>
    exact createUnitStateProof_outcome tagHash 5 tagLogsRoot tagPath tagNode
      (merkleSpec_merkle tagNode (Log.hash tagHash 5)) hσ ?h₁ ?h₂ ?hu j
  case h₁ => rfl
  case h₂ => rfl
  case hu => rfl
  case len => rfl

/-- **A unit without logs makes `CreateUnitStateProof` panic.**  `Apply` adds unit 5 to the
empty state, and `CalculateRoot` then `Commit`, with the certificate of the summary returned,
commit it.  The unit has no logs; the proof of its log 0, and the proof of its last log index
`len(logs) - 1 = -1` that the state API asks for, read `logs[0]`, out of range. -/
theorem createUnitStateProof_panics_without_logs :
    ∃ (σ σ₁ σ₂ : State Nat Nat) (r : UInt64 × Option Bytes) (u : UnitV1 Nat),
      Ends (Call.run (ε := Unit) tagHash 5 tagLogsRoot (.op (.apply [.addUnit 5 (some 7)])))
        State.empty σ ∧
      State.calculateRoot (ε := Unit) tagHash 5 tagLogsRoot σ = .ok r σ₁ ∧
      (State.commit ⟨r.2, some (uint64ToBytes r.1)⟩ : StateM Nat Nat Unit PUnit) σ₁ = .ok () σ₂ ∧
      σ₂.committedTree.get 5 σ₂.store = .ok u σ₂.store ∧ u.logs = [] ∧
      createUnitStateProof tagHash 5 tagPath (some ⟨r.2, some (uint64ToBytes r.1)⟩) 5 0 σ₂ =
        .error .panic ∧
      createUnitStateProof tagHash 5 tagPath (some ⟨r.2, some (uint64ToBytes r.1)⟩) 5 (-1) σ₂ =
        .error .panic :=
  ⟨_, _, _, _, _, rfl, rfl, rfl, rfl, rfl, rfl, rfl⟩

/-- **Unit state proofs are sound when the state's algorithm is SHA-256**, on every state that
calls reach and `CalculateRoot` then `Commit` commit.  A proof of unit `id` at index `j` is
made of its log `l` at `j`, and: (a) with the algorithm SHA-256 of the unit state hashes, the
unit tree certificate leads from the leaf of `l`'s head hash and its unit state hash to the
unit's logs hash; (b) if `l` has a transaction record hash, `l`'s head hash is the hash of the
proof's ledger hash and that record hash; (c) the state tree certificate leads from the unit
to the summary `CalculateRoot` returned and the certificate certifies. -/
theorem createUnitStateProof_sound
    (hM : MerkleSpec logsRoot mtPath mtNode (Log.hash H sha256))
    (hσ : CallReachable (ε := ε) H alg logsRoot σ)
    (h₁ : State.calculateRoot (ε := ε) H alg logsRoot σ = .ok r σ₁)
    (h₂ : (State.commit uc : StateM K D ε PUnit) σ₁ = .ok () σ₂)
    (hu : σ₂.committedTree.get id σ₂.store = .ok u σ₂.store) {j : Int} {p : UnitStateProof K}
    (hp : createUnitStateProof H alg mtPath (some uc) id j σ₂ = .ok p) :
    ∃ l, logAt u.logs j = some l ∧ p.unitId = id ∧
      (alg = sha256 →
        some (p.unitTreeCert.eval H alg mtNode l.unitLedgerHeadHash) = u.logsHash) ∧
      (l.txRecordHash.isSome →
        some (H alg [.bytes p.unitLedgerHash, .bytes p.unitTreeCert.transactionRecordHash]) =
          l.unitLedgerHeadHash) ∧
      p.stateTreeCert.eval H alg id u.logsHash p.unitValue = r := by
  obtain ⟨tc, hc, hr⟩ := committedInv_of_commit hσ h₁ h₂
  obtain ⟨-, k, l, r, c, d, hg⟩ := get_of_committedInv hc hu
  obtain ⟨lj, hl, hid, -, htx, hush, hlogs, hhead, heval⟩ :=
    createUnitStateProof_sound_of_found mtPath mtNode hc hg hM uc j hp
  refine ⟨lj, hl, hid, fun hsha => ?_, fun h => ?_, heval.trans hr⟩
  · -- the leaf the verifier computes is the leaf of the log when both hash with SHA-256
    rw [hlogs, UnitTreeCert.eval, hush, ← hsha]
    rfl
  · rw [htx, hhead h]

/-- The soundness on a unit with one log, the algorithm being SHA-256. -/
theorem createUnitStateProof_sound_addUnitLog :
    ∃ (σ σ₁ σ₂ : State Nat Nat) (r : UInt64 × Option Bytes) (u : UnitV1 Nat)
      (p : UnitStateProof Nat),
      CallReachable (ε := Unit) tagHash 5 tagLogsRoot σ ∧
      State.calculateRoot (ε := Unit) tagHash 5 tagLogsRoot σ = .ok r σ₁ ∧
      (State.commit ⟨r.2, some (uint64ToBytes r.1)⟩ : StateM Nat Nat Unit PUnit) σ₁ = .ok () σ₂ ∧
      σ₂.committedTree.get 5 σ₂.store = .ok u σ₂.store ∧
      createUnitStateProof tagHash 5 tagPath (some ⟨r.2, some (uint64ToBytes r.1)⟩) 5 0 σ₂ =
        .ok p ∧
      ∃ l, logAt u.logs 0 = some l ∧ p.unitId = 5 ∧
        (5 = 5 → some (p.unitTreeCert.eval tagHash 5 tagNode l.unitLedgerHeadHash) = u.logsHash) ∧
        (l.txRecordHash.isSome →
          some (tagHash 5 [.bytes p.unitLedgerHash, .bytes p.unitTreeCert.transactionRecordHash]) =
            l.unitLedgerHeadHash) ∧
        p.stateTreeCert.eval tagHash 5 5 u.logsHash p.unitValue = r := by
  -- `Apply` adds unit 5, and `AddUnitLog` gives it a log
  have hσ : CallReachable (ε := Unit) tagHash 5 tagLogsRoot _ :=
    .call (.op (.addUnitLog 5 (some [1])))
      (.call (.op (.apply [.addUnit 5 (some 7)])) .empty rfl) rfl
  -- the runs of `CalculateRoot`, `Commit`, `Get` and the proof, computed
  refine ⟨_, ?σ₁, ?σ₂, ?r, ?u, ?p, hσ, ?h₁, ?h₂, ?hu, ?hp, ?sound⟩
  case sound =>
    exact createUnitStateProof_sound tagHash 5 5 tagLogsRoot tagPath tagNode
      (merkleSpec_merkle tagNode (Log.hash tagHash 5)) hσ ?h₁ ?h₂ ?hu ?hp
  case h₁ => rfl
  case h₂ => rfl
  case hu => rfl
  case hp => rfl

/-- **The certificate's path leads to the logs hash from the leaf with SHA-256, and the
verifier folds it from the leaf with the state's algorithm**, on every state that calls reach
and `CalculateRoot` then `Commit` commit, whatever that algorithm: the logs hash is the path
folded from the leaf `Log.Hash` puts in the hash tree, whose unit state hash is made with
SHA-256, while `UnitTreeCert.eval` folds the same path from the leaf with the certificate's
unit state hash, made with the state's algorithm. -/
theorem createUnitStateProof_path_leaves
    (hM : MerkleSpec logsRoot mtPath mtNode (Log.hash H sha256))
    (hσ : CallReachable (ε := ε) H alg logsRoot σ)
    (h₁ : State.calculateRoot (ε := ε) H alg logsRoot σ = .ok r σ₁)
    (h₂ : (State.commit uc : StateM K D ε PUnit) σ₁ = .ok () σ₂)
    (hu : σ₂.committedTree.get id σ₂.store = .ok u σ₂.store) {j : Int} {p : UnitStateProof K}
    (hp : createUnitStateProof H alg mtPath (some uc) id j σ₂ = .ok p) :
    ∃ l, logAt u.logs j = some l ∧
      u.logsHash = some (Merkle.eval (mtNode alg) p.unitTreeCert.path (Log.hash H sha256 alg l)) ∧
      p.unitTreeCert.eval H alg mtNode l.unitLedgerHeadHash =
        Merkle.eval (mtNode alg) p.unitTreeCert.path (Log.hash H alg alg l) := by
  obtain ⟨tc, hc, -⟩ := committedInv_of_commit hσ h₁ h₂
  obtain ⟨-, k, l, r, c, d, hg⟩ := get_of_committedInv hc hu
  obtain ⟨lj, hl, -, -, -, hush, hlogs, -, -⟩ :=
    createUnitStateProof_sound_of_found mtPath mtNode hc hg hM uc j hp
  refine ⟨lj, hl, hlogs, ?_⟩
  rw [UnitTreeCert.eval, hush]
  rfl

/-- **With SHA-512 as the state's algorithm, the unit tree certificate does not lead to the
logs hash**: the leaf `Log.Hash` puts in the hash tree hashes the unit state with SHA-256,
while the certificate's unit state hash is made with the state's algorithm.  `Apply` adds unit
5, `AddUnitLog` gives it one log, and `CalculateRoot` then `Commit` commit it; the proof of that
log leads to another hash than the unit's logs hash. -/
theorem unitTreeCert_eval_ne_logsHash_sha512 :
    ∃ (σ σ₁ σ₂ : State Nat Nat) (r : UInt64 × Option Bytes) (u : UnitV1 Nat)
      (p : UnitStateProof Nat),
      CallReachable (ε := Unit) tagHash 7 tagLogsRoot σ ∧
      State.calculateRoot (ε := Unit) tagHash 7 tagLogsRoot σ = .ok r σ₁ ∧
      (State.commit ⟨r.2, some (uint64ToBytes r.1)⟩ : StateM Nat Nat Unit PUnit) σ₁ = .ok () σ₂ ∧
      σ₂.committedTree.get 5 σ₂.store = .ok u σ₂.store ∧
      createUnitStateProof tagHash 7 tagPath (some ⟨r.2, some (uint64ToBytes r.1)⟩) 5 0 σ₂ =
        .ok p ∧
      (∃ l, logAt u.logs 0 = some l ∧
        u.logsHash = some (Merkle.eval (tagNode 7) p.unitTreeCert.path (Log.hash tagHash 5 7 l)) ∧
        p.unitTreeCert.eval tagHash 7 tagNode l.unitLedgerHeadHash =
          Merkle.eval (tagNode 7) p.unitTreeCert.path (Log.hash tagHash 7 7 l)) ∧
      ∀ l, logAt u.logs 0 = some l →
        some (p.unitTreeCert.eval tagHash 7 tagNode l.unitLedgerHeadHash) ≠ u.logsHash := by
  have hσ : CallReachable (ε := Unit) tagHash 7 tagLogsRoot _ :=
    .call (.op (.addUnitLog 5 (some [1])))
      (.call (.op (.apply [.addUnit 5 (some 7)])) .empty rfl) rfl
  refine ⟨_, ?σ₁, ?σ₂, ?r, ?u, ?p, hσ, ?h₁, ?h₂, ?hu, ?hp, ?leaves, ?ne⟩
  case leaves =>
    exact createUnitStateProof_path_leaves tagHash 7 5 tagLogsRoot tagPath tagNode
      (merkleSpec_merkle tagNode (Log.hash tagHash 5)) hσ ?h₁ ?h₂ ?hu ?hp
  case h₁ => rfl
  case h₂ => rfl
  case hu => rfl
  case hp => rfl
  case ne =>
    -- the leaves differ in the algorithm byte of the unit state hash
    intro l hl
    cases hl
    decide

end Reachable

end BftCore.State
