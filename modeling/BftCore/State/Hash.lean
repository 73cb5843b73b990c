import BftCore.Avl.Provenance
import BftCore.Avl.Methods
import BftCore.State.Unit

/-!
# `state`: the state hasher on the value model

`stateHasher.Traverse` (`state_hasher.go`) computes bottom-up the summary value and the
summary hash of every subtree of the latest savepoint, and caches them in the unit at the
subtree's root.  It skips a node that is clean and whose summary is calculated, taking the
cached summary for the whole subtree.

* `UnitV1.latest`: the unit with the data, lock and deletion round of its latest log, which
  the hasher copies into the unit before hashing it;
* `UnitV1.hashWith`, `UnitV1.hashed`: what the hasher writes into a unit; `hashed` computes
  the logs hash only when it is missing;
* `Node.hash`: the traverser on the value model, with its skip rule;
* `Node.fullHash`: the recomputation from scratch, every node hashed and every logs hash
  recomputed, and `Node.summary`, the summary it gives, read off keys, logs and data only;
* `HashInv`: a calculated node is its own recomputation and any other node has no logs hash.
  `hash_eq_fullHash`: under it the traverser computes the recomputation, so the skip rule is
  sound; the tree methods keep it (`HashInv.apply`), and so does the commit of a savepoint;
* `Hashed`: at every node, the equations between the cached summaries.

The logs hash is the root of the hash tree `mt.New(alg, logs)` of `bft-go-base`, whose code is
not part of the repository: it is a parameter `logsRoot`.
-/

namespace BftCore.State

open BftCore.Avl

variable {A K D : Type}

namespace UnitV1

/-- `getSummaryValueInput(n)`: the summary value of the unit's data, `0` without data. -/
def summaryValueInput [UnitData D] (u : UnitV1 D) : UInt64 :=
  match u.data with
  | none => 0
  | some d => UnitData.summaryValueInput d

/-- The unit with the data, state lock and deletion round of its latest log. -/
def latest (u : UnitV1 D) : UnitV1 D :=
  match u.latestUnitLog with
  | none => u
  | some l =>
    { u with stateLockTx := l.newStateLockTx, data := l.newUnitData, deletionRound := l.deletionRound }

/-- A unit that no hasher has written: its summary is not calculated and it has no logs
hash.  `Clone` returns one. -/
def Fresh (u : UnitV1 D) : Prop := u.summaryCalculated = false ∧ u.logsHash = none

theorem fresh_clone (u : UnitV1 D) : u.clone.Fresh := ⟨rfl, rfl⟩

@[simp] theorem logs_latest (u : UnitV1 D) : u.latest.logs = u.logs := by
  unfold latest
  split <;> rfl

@[simp] theorem latest_latest (u : UnitV1 D) : u.latest.latest = u.latest := by
  unfold latest latestUnitLog
  cases h : u.logs.getLast? <;> simp [h]

section Hash

variable [UnitData D] (H : A → List (HashItem K D) → Bytes) (alg : A)

/-- The unit of the node with key `k` once hashed, with the logs hash `logsHash`, its
children having the cached summaries `ls` and `rs`. -/
def hashWith (u : UnitV1 D) (k : K) (logsHash : Option Bytes) (ls rs : UInt64 × Option Bytes) :
    UnitV1 D :=
  let u := u.latest
  let v := u.summaryValueInput + ls.1 + rs.1
  { u with
    logsHash := logsHash
    subTreeSummaryValue := v
    subTreeSummaryHash := some (H alg [.unitId k, .bytes logsHash, .uint64 v, .bytes ls.2,
      .uint64 ls.1, .bytes rs.2, .uint64 rs.1])
    summaryCalculated := true }

@[simp] theorem logs_hashWith (u : UnitV1 D) (k : K) (lh : Option Bytes)
    (ls rs : UInt64 × Option Bytes) : (u.hashWith H alg k lh ls rs).logs = u.logs := by
  simp [hashWith]

@[simp] theorem summaryValueInput_hashWith (u : UnitV1 D) (k : K) (lh : Option Bytes)
    (ls rs : UInt64 × Option Bytes) :
    (u.hashWith H alg k lh ls rs).summaryValueInput = u.latest.summaryValueInput := rfl

/-- Hashing a hashed unit again with the same inputs changes nothing: its data is already
that of its latest log. -/
theorem hashWith_hashWith (u : UnitV1 D) (k : K) (lh : Option Bytes)
    (ls rs : UInt64 × Option Bytes) :
    (u.hashWith H alg k lh ls rs).hashWith H alg k lh ls rs = u.hashWith H alg k lh ls rs := by
  have hl : (u.hashWith H alg k lh ls rs).latest = u.hashWith H alg k lh ls rs := by
    unfold latest latestUnitLog
    rw [logs_hashWith]
    cases hlast : u.logs.getLast? with
    | none => rfl
    | some l =>
      simp only [hashWith, latest, latestUnitLog, hlast]
  simp only [hashWith] at hl ⊢
  rw [hl]
  rfl

variable (logsRoot : A → List (Log D) → Option Bytes)

/-- What `stateHasher.Traverse` writes into the unit of the node with key `k`: the logs hash
is computed from the logs only if it is nil. -/
def hashed (u : UnitV1 D) (k : K) (ls rs : UInt64 × Option Bytes) : UnitV1 D :=
  u.hashWith H alg k (if u.logsHash.isNone then logsRoot alg u.logs else u.logsHash) ls rs

end Hash

end UnitV1

end BftCore.State

namespace BftCore.Avl.Node

open BftCore.State

variable {A K D : Type} [UnitData D] (H : A → List (HashItem K D) → Bytes) (alg : A)
  (logsRoot : A → List (Log D) → Option Bytes)

/-- `getSubTreeSummary(n)`: the cached summary value and hash, `(0, nil)` for nil. -/
def cached : Node K (UnitV1 D) → UInt64 × Option Bytes
  | nil => (0, none)
  | node _ u _ _ _ _ => (u.subTreeSummaryValue, u.subTreeSummaryHash)

/-- `stateHasher.Traverse(n)` on the value model: a clean node with a calculated summary is
kept with all below it; any other node is hashed after its children and marked clean. -/
def hash : Node K (UnitV1 D) → Node K (UnitV1 D)
  | nil => nil
  | node k u l r c d =>
    if c && u.summaryCalculated then node k u l r c d
    else
      let l := hash l
      let r := hash r
      node k (u.hashed H alg logsRoot k l.cached r.cached) l r true d

/-- The recomputation from scratch: every node hashed, every logs hash recomputed. -/
def fullHash : Node K (UnitV1 D) → Node K (UnitV1 D)
  | nil => nil
  | node k u l r _ d =>
    let l := fullHash l
    let r := fullHash r
    node k (u.hashWith H alg k (logsRoot alg u.logs) l.cached r.cached) l r true d

/-- The summary value and hash of a tree, from its keys, logs and data alone. -/
def summary : Node K (UnitV1 D) → UInt64 × Option Bytes
  | nil => (0, none)
  | node k u l r _ _ =>
    let ls := summary l
    let rs := summary r
    let v := u.latest.summaryValueInput + ls.1 + rs.1
    (v, some (H alg [.unitId k, .bytes (logsRoot alg u.logs), .uint64 v, .bytes ls.2,
      .uint64 ls.1, .bytes rs.2, .uint64 rs.1]))

/-- The equations of a hashed node: its logs hash is the root over its logs, its summary
value that of its data plus those of its children, and its summary hash the hash of its key,
logs hash, summary value and the children's summaries. -/
def LocallyHashed : Node K (UnitV1 D) → Prop
  | nil => True
  | node k u l r _ _ =>
    u.logsHash = logsRoot alg u.logs ∧
      u.subTreeSummaryValue = u.summaryValueInput + l.cached.1 + r.cached.1 ∧
      u.subTreeSummaryHash = some (H alg [.unitId k, .bytes u.logsHash,
        .uint64 u.subTreeSummaryValue, .bytes l.cached.2, .uint64 l.cached.1, .bytes r.cached.2,
        .uint64 r.cached.1])

/-- Every node of the tree satisfies the equations of a hashed node. -/
def Hashed (t : Node K (UnitV1 D)) : Prop := t.All (LocallyHashed H alg logsRoot)

/-- The invariant the skip rule rests on, at one node: a node whose summary is calculated is
its own recomputation (so it is clean, and so is everything below it), and a node whose
summary is not has no logs hash. -/
def HashOk : Node K (UnitV1 D) → Prop
  | nil => True
  | node k u l r c d =>
    (u.summaryCalculated = true → (node k u l r c d).fullHash H alg logsRoot = node k u l r c d) ∧
      (u.summaryCalculated = false → u.logsHash = none)

/-- `HashOk` at every node. -/
def HashInv (t : Node K (UnitV1 D)) : Prop := t.All (HashOk H alg logsRoot)

omit [UnitData D] in
@[simp] theorem cached_nil : (nil : Node K (UnitV1 D)).cached = (0, none) := rfl

@[simp] theorem fullHash_nil : (nil : Node K (UnitV1 D)).fullHash H alg logsRoot = nil := rfl

@[simp] theorem fullHash_node (k : K) (u : UnitV1 D) (l r : Node K (UnitV1 D)) (c : Bool)
    (d : Nat) : (node k u l r c d).fullHash H alg logsRoot =
      node k (u.hashWith H alg k (logsRoot alg u.logs) (l.fullHash H alg logsRoot).cached
        (r.fullHash H alg logsRoot).cached) (l.fullHash H alg logsRoot)
        (r.fullHash H alg logsRoot) true d := rfl

/-! ### The recomputation -/

/-- The recomputation caches the summary computed from scratch. -/
theorem cached_fullHash (t : Node K (UnitV1 D)) :
    (t.fullHash H alg logsRoot).cached = t.summary H alg logsRoot := by
  induction t with
  | nil => rfl
  | node k u l r c d ihl ihr =>
    rw [fullHash_node, summary, ← ihl, ← ihr]
    rfl

theorem fullHash_fullHash (t : Node K (UnitV1 D)) :
    (t.fullHash H alg logsRoot).fullHash H alg logsRoot = t.fullHash H alg logsRoot := by
  induction t with
  | nil => rfl
  | node k u l r c d ihl ihr =>
    rw [fullHash_node, fullHash_node, ihl, ihr, UnitV1.logs_hashWith, UnitV1.hashWith_hashWith]

/-- **The recomputation satisfies the equations of a hashed node everywhere.** -/
theorem hashed_fullHash (t : Node K (UnitV1 D)) : (t.fullHash H alg logsRoot).Hashed H alg logsRoot := by
  induction t with
  | nil => trivial
  | node k u l r c d ihl ihr =>
    rw [fullHash_node]
    exact ⟨⟨by simp [UnitV1.hashWith], rfl, rfl⟩, ihl, ihr⟩

theorem allClean_fullHash (t : Node K (UnitV1 D)) : Heap.AllClean (t.fullHash H alg logsRoot) := by
  induction t with
  | nil => trivial
  | node k u l r c d ihl ihr => exact ⟨rfl, ihl, ihr⟩

@[simp] theorem keys_fullHash (t : Node K (UnitV1 D)) : (t.fullHash H alg logsRoot).keys = t.keys := by
  induction t with
  | nil => rfl
  | node k u l r c d ihl ihr => simp [ihl, ihr]

omit [UnitData D] in
/-- The keys of the tree with the logs of their units, in order: what the hasher never writes. -/
def ledger (t : Node K (UnitV1 D)) : List (K × List (Log D)) :=
  t.entries.map fun e => (e.1, e.2.logs)

omit [UnitData D] in
@[simp] theorem ledger_nil : (nil : Node K (UnitV1 D)).ledger = [] := rfl

omit [UnitData D] in
@[simp] theorem ledger_node (k : K) (u : UnitV1 D) (l r : Node K (UnitV1 D)) (c : Bool) (d : Nat) :
    (node k u l r c d).ledger = l.ledger ++ (k, u.logs) :: r.ledger := by
  simp [ledger]

omit [UnitData D] in
theorem keys_eq_ledger (t : Node K (UnitV1 D)) : t.keys = t.ledger.map Prod.fst := by
  simp [keys, ledger, Function.comp_def]

@[simp] theorem ledger_fullHash (t : Node K (UnitV1 D)) :
    (t.fullHash H alg logsRoot).ledger = t.ledger := by
  induction t with
  | nil => rfl
  | node k u l r c d ihl ihr => simp [ihl, ihr]

theorem fullHash_commit (t : Node K (UnitV1 D)) :
    t.commit.fullHash H alg logsRoot = t.fullHash H alg logsRoot := by
  induction t with
  | nil => rfl
  | node k u l r c d ihl ihr => rw [commit_node, fullHash_node, fullHash_node, ihl, ihr]

theorem commit_fullHash (t : Node K (UnitV1 D)) :
    (t.fullHash H alg logsRoot).commit = t.fullHash H alg logsRoot := by
  induction t with
  | nil => rfl
  | node k u l r c d ihl ihr => rw [fullHash_node, commit_node, ihl, ihr]

/-! ### The invariant of the skip rule -/

/-- A dirty node satisfies the invariant exactly when no hasher has written its unit. -/
theorem hashOk_dirty (k : K) (u : UnitV1 D) (l r : Node K (UnitV1 D)) (d : Nat) :
    (node k u l r false d).HashOk H alg logsRoot ↔ u.Fresh := by
  constructor
  · rintro ⟨hcalc, hnone⟩
    cases hc : u.summaryCalculated with
    | false => exact ⟨hc, hnone hc⟩
    | true =>
      -- a calculated node is its recomputation, which is clean
      have hfix := hcalc hc
      simp only [fullHash_node, node.injEq] at hfix
      cases hfix.2.2.2.2.1
  · rintro ⟨hc, hnone⟩
    exact ⟨fun h => absurd (hc.symm.trans h) Bool.false_ne_true, fun _ => hnone⟩

/-- **The skip rule is sound**: on a tree satisfying the invariant, the traverser computes
the recomputation from scratch. -/
theorem hash_eq_fullHash {t : Node K (UnitV1 D)} (h : t.HashInv H alg logsRoot) :
    t.hash H alg logsRoot = t.fullHash H alg logsRoot := by
  induction t with
  | nil => rfl
  | node k u l r c d ihl ihr =>
    obtain ⟨⟨hcalc, hnone⟩, hl, hr⟩ := h
    unfold hash
    by_cases hs : (c && u.summaryCalculated) = true
    · -- a skipped node is calculated, hence its own recomputation
      rw [if_pos hs]
      exact (hcalc (Bool.and_eq_true_iff.1 hs).2).symm
    · rw [if_neg hs, ihl hl, ihr hr, fullHash_node]
      -- a node the traverser enters has no logs hash: a calculated one would be clean
      have hlh : u.logsHash = none := by
        cases hc : u.summaryCalculated with
        | false => exact hnone hc
        | true =>
          have hfix := hcalc hc
          simp only [fullHash_node, node.injEq] at hfix
          simp [← hfix.2.2.2.2.1, hc] at hs
      simp [UnitV1.hashed, hlh]

theorem hashInv_fullHash (t : Node K (UnitV1 D)) : (t.fullHash H alg logsRoot).HashInv H alg logsRoot := by
  induction t with
  | nil => trivial
  | node k u l r c d ihl ihr =>
    rw [fullHash_node]
    refine ⟨⟨fun _ => ?_, fun h => ?_⟩, ihl, ihr⟩
    · rw [← fullHash_node H alg logsRoot k u l r c d, fullHash_fullHash]
    · simp [UnitV1.hashWith] at h

/-- Committing a savepoint keeps the invariant: it only sets clean flags, and a calculated
node is clean throughout already. -/
theorem HashInv.commit {t : Node K (UnitV1 D)} (h : t.HashInv H alg logsRoot) :
    t.commit.HashInv H alg logsRoot := by
  induction t with
  | nil => trivial
  | node k u l r c d ihl ihr =>
    obtain ⟨⟨hcalc, hnone⟩, hl, hr⟩ := h
    refine ⟨⟨fun hc => ?_, hnone⟩, ihl hl, ihr hr⟩
    have hfix := hcalc hc
    have hcommit : (node k u l r c d).commit = node k u l r c d := by
      rw [← hfix, commit_fullHash]
    rw [← commit_node, fullHash_commit, hcommit, hfix]

/-- **The tree methods keep the invariant**, when the value they write is fresh. -/
theorem HashInv.apply [LinearOrder K] {t t' : Avl.Tree K (UnitV1 D)} {op : Op K (UnitV1 D)}
    (ht : t.root.HashInv H alg logsRoot) (hop : op.Writes UnitV1.Fresh) (h : t.apply op = .ok t') :
    t'.root.HashInv H alg logsRoot :=
  Tree.all_apply (fun v => UnitV1.fresh_clone v) (hashOk_dirty H alg logsRoot) ht hop h

end BftCore.Avl.Node
