import BftCore.State.ActionHash
import BftCore.State.Calls
import BftCore.State.Discipline
import BftCore.State.Ledger

/-!
# `state`: the incremental hash is the recomputation, on every reachable state

`stateHasher.Traverse` skips a clean node whose summary is calculated.  That is sound on a
tree satisfying `HashInv` (`Node.hash_eq_fullHash`); here every call of the API is shown to
keep `HashInv` on every tree of the state, so that on every state the calls reach,
`CalculateRoot` returns the summary computed from scratch.

* `TreeInv s t Dt`: `t` owns the dirty records `Dt` and denotes an ordered tree satisfying
  `HashInv`, the ledger of each of whose units is chained; `StateInv`: every tree of the state
  satisfies it, and all but the latest savepoint own no record;
* `TStep`: what an action or a write of the pruner leaves on the latest savepoint, from
  `Step` (the tree stays ordered, and denotes the map the action computes, whose ledgers stay
  chained) and `HStep` (it keeps `HashInv`);
* one lemma per call, each a `wp` of `StateInv`: `createSavepoint_inv`, `onLatest_inv` (for
  the actions and `AddUnitLog`), `applyActions_inv`, `calculateRoot_spec`, `commit_inv`,
  `pruneTraverse_inv` and `prune_inv`, and `Call.run_inv` for all of them;
* `CallReachable.inv`: every reachable state satisfies `StateInv`;
* `calculateRoot_eq_summary`: the agreement of `CalculateRoot` with the recomputation;
* `StateInv.abstracts` and `savepoint_discipline`: every state the calls reach abstracts an
  abstract state, so the savepoint discipline holds in it; `calculateRoot_rewrites_saved_unit`:
  a `CalculateRoot` while a savepoint is open can change the map the savepoint saved.
-/

namespace BftCore.State

open BftCore.Avl BftCore.Avl.Heap EStateM

variable {A K D ε : Type} [LinearOrder K] [UnitData D] (H : A → List (HashItem K D) → Bytes)
  (alg : A) (logsRoot : A → List (Log D) → Option Bytes)

/-- A tree of the state: it owns the dirty records `Dt`, and denotes an ordered tree on which
the skip rule of the hasher is sound and whose units have chained ledgers. -/
def TreeInv (s : Store K (UnitV1 D)) (t : Tree) (Dt : List Nat) : Prop :=
  ∃ tv : Node K (UnitV1 D), Owns s t.root tv Dt ∧ tv.Ordered ∧ tv.HashInv H alg logsRoot ∧
    tv.LedgerChained H alg

/-- The invariant of the reachable states: the committed tree and the savepoints below the
latest own no record, and every tree satisfies `TreeInv`. -/
structure StateInv (σ : State K D) : Prop where
  committed : TreeInv H alg logsRoot σ.store σ.committedTree []
  savepoints : SavepointStack.Holds (fun t => TreeInv H alg logsRoot σ.store t [])
    (fun t => ∃ Dt, TreeInv H alg logsRoot σ.store t Dt) σ.savepoints

/-- A call on the latest savepoint, owning `Dt`, ends with a tree satisfying `TreeInv`,
having written records of `Dt` only, or fails having changed no allocated record. -/
def TStep (Dt : List Nat) (s : Store K (UnitV1 D)) :
    EStateM.Result (StateError K ε) (Store K (UnitV1 D)) Tree → Prop
  | .ok t' s' => ∃ Dt', TreeInv H alg logsRoot s' t' Dt' ∧ Within Dt s s'
  | .error _ s' => Within [] s s'

/-- The state the pruner has left so far, as a state of the API: its store, and its tree in
place of the latest savepoint. -/
def PruneInv (σ : State K D) (st : Store K (UnitV1 D) × Tree) : Prop :=
  StateInv H alg logsRoot
    { σ with store := st.1, savepoints := SavepointStack.setTop st.2 σ.savepoints }

/-! ### One tree -/

namespace TreeInv

variable {H alg logsRoot} {s s' : Store K (UnitV1 D)} {t : Tree} {Dt : List Nat}

theorem dirty (h : TreeInv H alg logsRoot s t Dt) : ∀ b ∈ Dt, Dirty s b := by
  obtain ⟨tv, ho, -, -, -⟩ := h
  exact fun b hb => ho.dirty_of_mem hb

theorem congr (h : TreeInv H alg logsRoot s t Dt) (ha : Agree Dt s s') :
    TreeInv H alg logsRoot s' t Dt := by
  obtain ⟨tv, ho, hord, hi, hc⟩ := h
  exact ⟨tv, ho.congr ha, hord, hi, hc⟩

/-- A call that changed no allocated record. -/
theorem of_within_nil (h : TreeInv H alg logsRoot s t Dt) (hW : Within [] s s') :
    TreeInv H alg logsRoot s' t Dt :=
  h.congr (hW.agree (fun _ hb => absurd hb List.not_mem_nil) (List.disjoint_nil_left _))

/-- A tree owning no record, under a call that wrote dirty records only. -/
theorem of_within_clean (h : TreeInv H alg logsRoot s t []) {D' : List Nat} (hW : Within D' s s')
    (hD : ∀ b ∈ D', Dirty s b) : TreeInv H alg logsRoot s' t [] :=
  h.congr (hW.agree hD (List.disjoint_nil_right _))

/-- A tree owning no record, when a tree satisfying `HashInv` is hashed: the records the
hasher rewrote denote recomputations, and the keys and logs are kept, so the order and the
ledgers are. -/
theorem of_hashFrame (h : TreeInv H alg logsRoot s t []) {tv : Node K (UnitV1 D)}
    (hF : HashFrame H alg logsRoot tv s s') (hi : tv.HashInv H alg logsRoot) :
    TreeInv H alg logsRoot s' t [] := by
  obtain ⟨t₂, ho, hord, hi₂, hc⟩ := h
  obtain ⟨t₂', ho', hk, hi', -⟩ := hF.owns_clean H alg logsRoot hi ho hi₂
  refine ⟨t₂', ho', ?_, hi', hc.of_ledger_eq hk⟩
  rw [Node.ordered_iff_pairwise, Node.keys_eq_ledger, hk, ← Node.keys_eq_ledger,
    ← Node.ordered_iff_pairwise]
  exact hord

/-- A tree satisfying the invariant denotes the map of the tree value it owns. -/
theorem denotes (h : TreeInv H alg logsRoot s t Dt) : ∃ M, Denotes s t M Dt := by
  obtain ⟨tv, ho, hord, -, -⟩ := h
  exact ⟨_, tv, ho, hord, rfl⟩

end TreeInv

section Steps

variable {H alg logsRoot} {s : Store K (UnitV1 D)} {t : Tree} {Dt : List Nat}

/-- The two descriptions of one call on the latest savepoint, put together: `Step` keeps the
tree ordered and denoting the map computed, here with chained ledgers, and `HStep` keeps
`HashInv`, of the one tree the result denotes. -/
theorem TStep.of_step {o : Except (StateError K ε) (UnitMap K D)}
    {r : EStateM.Result (StateError K ε) (Store K (UnitV1 D)) Tree} (hs : Step Dt s o r)
    (hh : HStep H alg logsRoot Dt s r) (hc : ∀ M', o = .ok M' → M'.Chained H alg) :
    TStep H alg logsRoot Dt s r := by
  cases r with
  | ok t' s' =>
    cases o with
    | error => exact hs.elim
    | ok M' =>
      obtain ⟨Dt', ⟨tv, ho, hord, hM⟩, hW, -⟩ := hs
      obtain ⟨tv', Dt'', ho', hi, -⟩ := hh
      rw [ho'.repr.unique ho.repr] at hi
      have hc' : tv.LedgerChained H alg := (Node.ledgerChained_iff hord).2 (hM ▸ hc M' rfl)
      exact ⟨Dt', ⟨tv, ho, hord, hi, hc'⟩, hW⟩
  | error e s' => exact hh

/-- A write of a tree method with a fresh unit whose ledger is chained. -/
theorem TreeInv.write (h : TreeInv H alg logsRoot s t Dt) (op : Avl.Op K (UnitV1 D))
    (hop : op.Writes UnitV1.Fresh) (hop' : op.Writes fun u => LedgerChain H alg u.logs) :
    TStep H alg logsRoot Dt s (liftStore (t.apply op) s : EStateM.Result (StateError K ε) _ _) := by
  obtain ⟨tv, ho, hord, hi, hc⟩ := h
  exact TStep.of_step (liftStore_apply ⟨tv, ho, hord, rfl⟩ op) (hstep_write ho hi op hop)
    fun _ hM => ((Node.ledgerChained_iff hord).1 hc).apply hop' hM

/-- An action on the latest savepoint. -/
theorem TreeInv.action [UnitId K] (h : TreeInv H alg logsRoot s t Dt) (a : Action K D ε) :
    TStep H alg logsRoot Dt s (a.run H alg t s) := by
  obtain ⟨tv, ho, hord, hi, hc⟩ := h
  exact TStep.of_step (Action.run_step H alg a ⟨tv, ho, hord, rfl⟩) (Action.run_hstep ho hi a)
    fun _ hM => Action.apply_chained ((Node.ledgerChained_iff hord).1 hc) hM

/-- The change `AddUnitLog` makes to the latest savepoint. -/
theorem TreeInv.addUnitLog (h : TreeInv H alg logsRoot s t Dt) (id : K)
    (txrHash : Option Bytes) :
    TStep H alg logsRoot Dt s ((do
      let u ← withContext "unable to find unit" (liftStore (t.get id))
      liftStore (t.update id (u.clone.addUnitLog H alg txrHash)) : ActionM K D ε Tree) s) := by
  obtain ⟨tv, ho, hord, hi, hc⟩ := h
  exact TStep.of_step (addUnitLog_step H alg ⟨tv, ho, hord, rfl⟩ id txrHash)
    (addUnitLog_hstep ho hi id txrHash) fun _ hM => ((Node.ledgerChained_iff hord).1 hc).addUnitLog hM

end Steps

/-! ### The state -/

namespace StateInv

variable {H alg logsRoot} {σ : State K D}

theorem latest (h : StateInv H alg logsRoot σ) {t : Tree} (ht : σ.savepoints.getLast? = some t) :
    ∃ Dt, TreeInv H alg logsRoot σ.store t Dt :=
  h.savepoints.top t ht

/-- A call that changed no allocated record. -/
theorem of_within_nil (h : StateInv H alg logsRoot σ) {s' : Store K (UnitV1 D)}
    (hW : Within [] σ.store s') : StateInv H alg logsRoot { σ with store := s' } :=
  ⟨h.committed.of_within_nil hW,
    h.savepoints.mono (fun _ hc => hc.of_within_nil hW) fun _ ⟨Dt, hd⟩ => ⟨Dt, hd.of_within_nil hW⟩⟩

/-- A call on the latest savepoint that wrote only records it owned, and left a tree
satisfying `TreeInv` in its place. -/
theorem setTop (h : StateInv H alg logsRoot σ) {t t' : Tree} {Dt Dt' : List Nat}
    {s' : Store K (UnitV1 D)} (hT : TreeInv H alg logsRoot σ.store t Dt) (hW : Within Dt σ.store s')
    (h' : TreeInv H alg logsRoot s' t' Dt') :
    StateInv H alg logsRoot
      { σ with store := s', savepoints := SavepointStack.setTop t' σ.savepoints } :=
  ⟨h.committed.of_within_clean hW hT.dirty,
    (h.savepoints.mono (fun _ hc => hc.of_within_clean hW hT.dirty) fun _ hq => hq).setTop
      ⟨Dt', h'⟩⟩

/-- A state satisfying the invariant abstracts an abstract state: each of its trees denotes
one map. -/
theorem abstracts (h : StateInv H alg logsRoot σ) : ∃ B, Abstracts σ B := by
  classical
  -- the map a tree denotes, whatever records it owns
  let f : Tree → UnitMap K D := fun t =>
    if ht : ∃ M Dt, Denotes σ.store t M Dt then ht.choose else fun _ => none
  have hf : ∀ t Dt, TreeInv H alg logsRoot σ.store t Dt → Denotes σ.store t (f t) Dt := by
    intro t Dt ht
    obtain ⟨M, hd⟩ := ht.denotes
    have hex : ∃ M Dt, Denotes σ.store t M Dt := ⟨M, Dt, hd⟩
    obtain ⟨Dt', hd'⟩ := hex.choose_spec
    have hfM : f t = hex.choose := dif_pos hex
    rwa [hfM, hd'.unique hd]
  exact ⟨⟨f σ.committedTree, σ.savepoints.map f⟩, hf _ _ h.committed,
    h.savepoints.rel_map f (fun t ht => hf t [] ht) fun t ⟨Dt, ht⟩ => ⟨Dt, hf t Dt ht⟩⟩

end StateInv

/-! ### The calls -/

section Calls

variable {H alg logsRoot} {σ : State K D}

omit [LinearOrder K] [UnitData D] in
theorem Ends.of_wp {α : Type} {x : StateM K D ε α} {P : State K D → Prop} {σ' : State K D}
    (hw : wp x (fun _ => P) (fun _ => P) σ) (he : Ends x σ σ') : P σ' := by
  unfold wp at hw
  unfold Ends at he
  cases hx : x σ with
  | ok a σ'' =>
    rw [hx] at hw he
    exact he ▸ hw
  | error e σ'' =>
    rw [hx] at hw he
    exact he.2 ▸ hw

theorem createSavepoint_inv (h : StateInv H alg logsRoot σ) :
    wp (State.createSavepoint : StateM K D ε Int) (fun _ => StateInv H alg logsRoot)
      (fun _ => StateInv H alg logsRoot) σ := by
  cases ht : σ.savepoints.getLast? with
  | none =>
    simp only [wp, State.createSavepoint, ht]
    exact h
  | some t =>
    obtain ⟨Dt, tv, ho, hord, hi, hl⟩ := h.latest ht
    -- the records of the clone are marked clean in place, and so is the savepoint below it
    obtain ⟨s', hrun, ho', hW⟩ := Tree.commit_spec (t := t.clone) ho
    have hD : ∀ b ∈ Dt, Dirty σ.store b := fun _ hb => ho.dirty_of_mem hb
    have hc : TreeInv H alg logsRoot s' t [] :=
      ⟨tv.commit, ho', (Node.ordered_commit tv).2 hord, Node.HashInv.commit H alg logsRoot hi,
        hl.of_ledger_eq (by simp [Node.ledger])⟩
    simp only [wp, State.createSavepoint, ht, hrun]
    exact ⟨h.committed.of_within_clean hW hD,
      (h.savepoints.mono (fun _ hc' => hc'.of_within_clean hW hD) fun _ _ => trivial).push ht hc
        ⟨[], hc⟩⟩

theorem rollbackToSavepoint_inv (h : StateInv H alg logsRoot σ) (id : Int) :
    wp (State.rollbackToSavepoint id : StateM K D ε PUnit) (fun _ => StateInv H alg logsRoot)
      (fun _ => StateInv H alg logsRoot) σ := by
  cases hk : SavepointStack.rollback id σ.savepoints with
  | none =>
    simp only [wp, State.rollbackToSavepoint, hk]
    exact h
  | some k =>
    simp only [wp, State.rollbackToSavepoint, hk]
    exact ⟨h.committed, h.savepoints.rollback (fun _ hc => ⟨[], hc⟩) hk⟩

theorem releaseToSavepoint_inv (h : StateInv H alg logsRoot σ) (id : Int) :
    wp (State.releaseToSavepoint id : StateM K D ε PUnit) (fun _ => StateInv H alg logsRoot)
      (fun _ => StateInv H alg logsRoot) σ := by
  cases hk : SavepointStack.release id σ.savepoints with
  | none =>
    simp only [wp, State.releaseToSavepoint, hk]
    exact h
  | some k =>
    simp only [wp, State.releaseToSavepoint, hk]
    exact ⟨h.committed, h.savepoints.release hk⟩

theorem revert_inv (h : StateInv H alg logsRoot σ) :
    wp (State.revert : StateM K D ε PUnit) (fun _ => StateInv H alg logsRoot)
      (fun _ => StateInv H alg logsRoot) σ :=
  ⟨h.committed, SavepointStack.Holds.singleton ⟨[], h.committed⟩⟩

/-- A call on the latest savepoint keeps the invariant if it ends as `TStep` says. -/
theorem onLatest_inv {x : Tree → ActionM K D ε Tree} (h : StateInv H alg logsRoot σ)
    (hx : ∀ t Dt, TreeInv H alg logsRoot σ.store t Dt → TStep H alg logsRoot Dt σ.store (x t σ.store)) :
    wp (State.onLatest x) (fun _ => StateInv H alg logsRoot) (fun _ => StateInv H alg logsRoot) σ := by
  cases ht : σ.savepoints.getLast? with
  | none =>
    simp only [wp, State.onLatest, ht]
    exact h
  | some t =>
    obtain ⟨Dt, hT⟩ := h.latest ht
    have hs := hx t Dt hT
    simp only [wp, State.onLatest, ht]
    generalize x t σ.store = r at hs ⊢
    cases r with
    | ok t' s' =>
      obtain ⟨Dt', h', hW⟩ := hs
      exact h.setTop hT hW h'
    | error e s' => exact h.of_within_nil hs

/-- **`CalculateRoot` on a state satisfying the invariant**: it returns the summary of the
latest savepoint computed from scratch, leaves the savepoint denoting the recomputation of its
tree, and keeps the invariant. -/
theorem calculateRoot_spec (h : StateInv H alg logsRoot σ) {t : Tree}
    (ht : σ.savepoints.getLast? = some t) :
    ∃ (tv : Node K (UnitV1 D)) (s' : Store K (UnitV1 D)), Repr σ.store t.root tv ∧
      State.calculateRoot (ε := ε) H alg logsRoot σ =
        .ok (tv.summary H alg logsRoot) { σ with store := s' } ∧
      Repr s' t.root (tv.fullHash H alg logsRoot) ∧ StateInv H alg logsRoot { σ with store := s' } := by
  obtain ⟨Dt, tv, ho, hord, hi, hl⟩ := h.latest ht
  obtain ⟨s', hrun, hrep, hF⟩ := hashTraverse_spec H alg logsRoot hord ho.repr
    (Nat.lt_succ_of_le ho.repr.height_le_next)
  -- the skip rule is sound on the latest savepoint
  rw [Node.hash_eq_fullHash H alg logsRoot hi] at hrep
  have hcommit : Tree.hashCommit H alg logsRoot t σ.store = .ok () s' := by
    unfold Tree.hashCommit
    rw [bind_of_ok (fuel_eq _)]
    exact hrun
  have htop : TreeInv H alg logsRoot s' t [] := by
    refine ⟨_, Owns.of_allClean hrep (Node.allClean_fullHash H alg logsRoot tv), ?_,
      Node.hashInv_fullHash H alg logsRoot tv, hl.of_ledger_eq (Node.ledger_fullHash _ _ _ _)⟩
    rw [Node.ordered_iff_pairwise, Node.keys_fullHash, ← Node.ordered_iff_pairwise]
    exact hord
  refine ⟨tv, s', ho.repr, ?_, hrep, h.committed.of_hashFrame hF hi, ?_⟩
  · simp only [State.calculateRoot, ht]
    rw [bind_of_ok hcommit, subTreeSummary_spec hrep, Node.cached_fullHash]
  · -- the trees below the latest one keep the invariant through the rewritten records
    have hs : SavepointStack.Holds (TreeInv H alg logsRoot s' · [])
        (fun t => ∃ Dt, TreeInv H alg logsRoot s' t Dt) (SavepointStack.setTop t σ.savepoints) :=
      (h.savepoints.mono (fun _ hc => hc.of_hashFrame hF hi) fun _ hq => hq).setTop ⟨[], htop⟩
    rwa [SavepointStack.setTop_getLast? ht] at hs

theorem calculateRoot_inv (h : StateInv H alg logsRoot σ) :
    wp (State.calculateRoot (ε := ε) H alg logsRoot) (fun _ => StateInv H alg logsRoot)
      (fun _ => StateInv H alg logsRoot) σ := by
  cases ht : σ.savepoints.getLast? with
  | none =>
    simp only [wp, State.calculateRoot, ht]
    exact h
  | some t =>
    obtain ⟨tv, s', -, hrun, -, hinv⟩ := calculateRoot_spec (ε := ε) h ht
    rw [wp_of_ok hrun]
    exact hinv

omit [LinearOrder K] [UnitData D] in
/-- `IsClean()`: a nil root, or the flag of the root. -/
theorem isClean_of {s : Store K (UnitV1 D)} {t : Tree} {tv : Node K (UnitV1 D)}
    (h : Repr s t.root tv) : t.isClean s = .ok (t.root.isNone || tv.clean) s := by
  obtain ⟨p⟩ := t
  cases h with
  | nil => rfl
  | node hc =>
    simp only [Heap.Tree.isClean]
    rw [bind_of_ok (deref_of hc)]
    rfl

omit [LinearOrder K] [UnitData D] in
/-- A clean tree owns no record: a dirty record is never below a clean one. -/
theorem owns_nil_of_isClean {s : Store K (UnitV1 D)} {p : Option Nat} {tv : Node K (UnitV1 D)}
    {Dt : List Nat} (h : Owns s p tv Dt) (hc : (p.isNone || tv.clean) = true) : Dt = [] := by
  cases h with
  | nil => rfl
  | clean => rfl
  | dirty => exact absurd hc (by simp)

theorem commit_inv (h : StateInv H alg logsRoot σ) (uc : UnicityCertificate) :
    wp (State.commit uc : StateM K D ε PUnit) (fun _ => StateInv H alg logsRoot)
      (fun _ => StateInv H alg logsRoot) σ := by
  cases ht : σ.savepoints.getLast? with
  | none =>
    simp only [wp, State.commit, ht]
    exact h
  | some sp =>
    obtain ⟨Dt, tv, ho, hord, hi, hl⟩ := h.latest ht
    have hread : (do
        let clean ← sp.isClean
        let summary ← subTreeSummary sp.root
        pure (clean, summary) : StoreM K (UnitV1 D) _) σ.store =
          .ok (sp.root.isNone || tv.clean, tv.cached) σ.store := by
      rw [bind_of_ok (isClean_of ho.repr), bind_of_ok (subTreeSummary_spec ho.repr)]
      rfl
    simp only [wp, State.commit, ht, hread]
    split_ifs with hc
    · exact h
    · exact h
    · exact h
    · -- the latest savepoint is clean, so it owns no record
      have hclean : (sp.root.isNone || tv.clean) = true := by
        revert hc
        cases (sp.root.isNone || tv.clean) <;> decide
      have hnil : Dt = [] := owns_nil_of_isClean ho hclean
      subst hnil
      exact ⟨⟨tv, ho, hord, hi, hl⟩, SavepointStack.Holds.singleton ⟨[], tv, ho, hord, hi, hl⟩⟩

/-! ### The pruner -/

omit [LinearOrder K] [UnitData D] in
/-- A read of the pruner changes nothing. -/
theorem node_wp {P : Store K (UnitV1 D) × Tree → Prop} {st : Store K (UnitV1 D) × Tree}
    (h : P st) (n : Nat) : wp (PruneM.node n : PruneM K D ε _) (fun _ => P) (fun _ => P) st := by
  obtain ⟨s, t⟩ := st
  cases hc : s.cells n with
  | none =>
    simp only [wp, PruneM.node, deref, hc]
    exact h
  | some c =>
    simp only [wp, PruneM.node, deref, hc]
    exact h

theorem update_inv {st : Store K (UnitV1 D) × Tree} (h : PruneInv H alg logsRoot σ st) (key : K)
    {value : UnitV1 D} (hv : value.Fresh) (hl : LedgerChain H alg value.logs) :
    wp (PruneM.update key value : PruneM K D ε Unit) (fun _ => PruneInv H alg logsRoot σ)
      (fun _ => PruneInv H alg logsRoot σ) st := by
  obtain ⟨s, t⟩ := st
  -- the pruned tree is the latest savepoint of the state the pruner has left so far
  obtain ⟨Dt, hT⟩ := StateInv.latest h (SavepointStack.getLast?_setTop t σ.savepoints)
  have hs := hT.write (ε := ε) (.update key value) hv hl
  simp only [Heap.Tree.apply] at hs
  simp only [wp, PruneM.update]
  generalize (liftStore (t.update key value) : ActionM K D ε Tree) s = r at hs ⊢
  cases r with
  | ok t' s' =>
    obtain ⟨Dt', h', hW⟩ := hs
    show StateInv H alg logsRoot
      { σ with store := s', savepoints := SavepointStack.setTop t' σ.savepoints }
    rw [← SavepointStack.setTop_setTop t t' σ.savepoints]
    exact StateInv.setTop h hT hW h'
  | error e s' => exact StateInv.of_within_nil h hs

/-- **The pruner keeps the invariant**, by induction on the fuel: its reads change nothing,
and each `Update` writes a pruned clone, which is fresh and starts its ledger anew. -/
theorem pruneTraverse_inv (σ : State K D) :
    ∀ (fuel : Nat) (p : Option Nat) (st : Store K (UnitV1 D) × Tree),
      PruneInv H alg logsRoot σ st →
      wp (pruneTraverse fuel p : PruneM K D ε Unit) (fun _ => PruneInv H alg logsRoot σ)
        (fun _ => PruneInv H alg logsRoot σ) st
  | 0, _, _, h => h
  | _ + 1, none, _, h => h
  | fuel + 1, some n, st, h => by
    simp only [pruneTraverse]
    refine wp_bind_of (node_wp h n) fun c₁ st₁ h₁ => ?_
    refine wp_bind_of (pruneTraverse_inv σ fuel c₁.left st₁ h₁) fun _ st₂ h₂ => ?_
    refine wp_bind_of (node_wp h₂ n) fun c₂ st₃ h₃ => ?_
    refine wp_bind_of (pruneTraverse_inv σ fuel c₂.right st₃ h₃) fun _ st₄ h₄ => ?_
    refine wp_bind_of (node_wp h₄ n) fun c st₅ h₅ => ?_
    split_ifs
    · exact h₅
    · split
      · exact h₅
      · exact update_inv h₅ c.key ⟨rfl, rfl⟩ (ledgerChain_pruned H alg _ _)

theorem prune_inv (h : StateInv H alg logsRoot σ) :
    wp (State.prune : StateM K D ε PUnit) (fun _ => StateInv H alg logsRoot)
      (fun _ => StateInv H alg logsRoot) σ := by
  cases ht : σ.savepoints.getLast? with
  | none =>
    simp only [wp, State.prune, ht]
    exact h
  | some sp =>
    -- the pruner starts on the state as it is: its tree is the latest savepoint
    have h₀ : PruneInv H alg logsRoot σ (σ.store, sp) := by
      unfold PruneInv
      rw [SavepointStack.setTop_getLast? ht]
      exact h
    have hw := pruneTraverse_inv (ε := ε) σ (σ.store.next + 1) sp.root _ h₀
    simp only [wp, State.prune, ht]
    simp only [wp] at hw
    generalize (pruneTraverse (σ.store.next + 1) sp.root : PruneM K D ε Unit) (σ.store, sp) = r
      at hw ⊢
    rcases r with ⟨_, s', sp'⟩ | ⟨e, s', sp'⟩
    · exact hw
    · exact hw

variable [UnitId K]

/-- The loop of `Apply`, by induction on the actions: each one keeps the invariant, and so do
the rollback after an error and the release after the last action. -/
theorem applyActions_inv (id : Int) :
    ∀ (actions : List (Action K D ε)) {σ : State K D}, StateInv H alg logsRoot σ →
      wp (State.applyActions H alg id actions) (fun _ => StateInv H alg logsRoot)
        (fun _ => StateInv H alg logsRoot) σ
  | [], _, h => releaseToSavepoint_inv h id
  | a :: actions, σ, h => by
    have hl := onLatest_inv (x := a.run H alg) h fun _ _ hT => hT.action a
    cases hr : State.onLatest (a.run H alg) σ with
    | ok _ σ' =>
      rw [wp_of_ok hr] at hl
      have heq : State.applyActions H alg id (a :: actions) σ =
          State.applyActions H alg id actions σ' := by
        simp only [State.applyActions, hr]
      rw [wp_of_eq heq]
      exact applyActions_inv id actions hl
    | error e σ' =>
      rw [wp_of_error hr] at hl
      by_cases hp : e.isPanic = true
      · -- a panic unwinds past the rollback
        have heq : State.applyActions H alg id (a :: actions) σ = .error e σ' := by
          simp only [State.applyActions, hr, hp, if_true]
        rw [wp_of_error heq]
        exact hl
      · -- the error: rolled back to the savepoint of `Apply`, and returned
        have heq : State.applyActions H alg id (a :: actions) σ =
            (do State.rollbackToSavepoint id; throw e : StateM K D ε PUnit) σ' := by
          simp only [State.applyActions, hr, hp, Bool.false_eq_true, if_false]
        rw [wp_of_eq heq]
        exact wp_bind_of (rollbackToSavepoint_inv hl id) fun _ _ h' => h'

theorem apply_inv (h : StateInv H alg logsRoot σ) (actions : List (Action K D ε)) :
    wp (State.apply H alg actions) (fun _ => StateInv H alg logsRoot)
      (fun _ => StateInv H alg logsRoot) σ := by
  have hc := createSavepoint_inv (ε := ε) h
  simp only [wp, State.apply] at hc ⊢
  generalize (State.createSavepoint : StateM K D ε Int) σ = r at hc ⊢
  cases r with
  | ok id σ' => exact applyActions_inv id actions hc
  | error e σ' => exact hc

theorem Op.run_inv (o : Op K D ε) (h : StateInv H alg logsRoot σ) :
    wp (o.run H alg) (fun _ => StateInv H alg logsRoot) (fun _ => StateInv H alg logsRoot) σ := by
  cases o with
  | apply actions => exact apply_inv h actions
  | addUnitLog id txrHash => exact onLatest_inv h fun _ _ hT => hT.addUnitLog id txrHash
  | savepoint =>
    simp only [Op.run, wp_dropResult]
    exact createSavepoint_inv h
  | rollbackToSavepoint id => exact rollbackToSavepoint_inv h id
  | releaseToSavepoint id => exact releaseToSavepoint_inv h id
  | revert => exact revert_inv h

/-- **Every call of the API keeps the invariant**, whether it returns or fails. -/
theorem Call.run_inv (c : Call K D ε) (h : StateInv H alg logsRoot σ) :
    wp (c.run H alg logsRoot) (fun _ => StateInv H alg logsRoot)
      (fun _ => StateInv H alg logsRoot) σ := by
  cases c with
  | op o => exact o.run_inv h
  | calculateRoot =>
    simp only [Call.run, wp_dropResult]
    exact calculateRoot_inv h
  | commit uc => exact commit_inv h uc
  | prune => exact prune_inv h

omit [UnitId K] in
theorem empty_inv : StateInv H alg logsRoot (State.empty : State K D) :=
  ⟨⟨.nil, .nil, trivial, trivial, fun _ he => nomatch he⟩,
    SavepointStack.Holds.singleton ⟨[], .nil, .nil, trivial, trivial, fun _ he => nomatch he⟩⟩

/-- Every state the calls reach satisfies the invariant. -/
theorem CallReachable.inv (hσ : CallReachable (ε := ε) H alg logsRoot σ) :
    StateInv H alg logsRoot σ := by
  induction hσ with
  | empty => exact empty_inv
  | call c _ he ih => exact Ends.of_wp (c.run_inv ih) he

/-- **The savepoint discipline holds in every state the calls reach**, `CalculateRoot`,
`Commit` and `Prune` among them. -/
theorem savepoint_discipline (hσ : CallReachable (ε := ε) H alg logsRoot σ) :
    SavepointDiscipline (ε := ε) H alg σ := by
  obtain ⟨B, hB⟩ := hσ.inv.abstracts
  exact hB.savepointDiscipline H alg

/-- A state with a committed tree: unit 5 added with data 7 and committed under the summary
`CalculateRoot` returns, then unit 6 added. -/
theorem savepoint_discipline_committed :
    ∃ σ : State Nat Nat, CallReachable (ε := Unit) zeroHash () (fun _ _ => none) σ ∧
      σ.committedTree.root.isSome ∧ σ.savepoints.length = 1 ∧
      SavepointDiscipline (ε := Unit) zeroHash () σ := by
  have hσ : CallReachable (ε := Unit) zeroHash () (fun _ _ => none) _ :=
    .call (.op (.apply [.addUnit 6 (some 1)]))
      (.call (.commit ⟨some [], some (uint64ToBytes 7)⟩)
        (.call .calculateRoot (.call (.op (.apply [.addUnit 5 (some 7)])) .empty rfl) rfl) rfl) rfl
  exact ⟨_, hσ, rfl, rfl, savepoint_discipline hσ⟩

/-- `CalculateRoot` between `Savepoint()` and `RollbackToSavepoint` changes the saved map: it
writes the data of each unit's latest log into the clean nodes it hashes, which the saved tree
shares.  Unit 5 is added with data 7, logged, and updated to 8 without a log; `Savepoint()`
returns 1, and after `CalculateRoot` and `RollbackToSavepoint(1)` the data of unit 5 is 7. -/
theorem calculateRoot_rewrites_saved_unit :
    ∃ (σ₀ σ₁ σ₂ σ₃ : State Nat Nat) (r : UInt64 × Option Bytes) (u₁ u₃ : UnitV1 Nat),
      Run (ε := Unit) zeroHash () (fun _ => True) State.empty
        [.apply [.addUnit 5 (some 7)], .addUnitLog 5 none,
          .apply [.updateUnitData 5 (some fun _ => .ok (some 8))]] σ₀ ∧
      (State.createSavepoint σ₀ : EStateM.Result (StateError Nat Unit) _ _) = .ok 1 σ₁ ∧
      (State.getUnit 5 false σ₁ : EStateM.Result (StateError Nat Unit) _ _) = .ok u₁ σ₁ ∧
      u₁.data = some 8 ∧
      State.calculateRoot (ε := Unit) zeroHash () (fun _ _ => none) σ₁ = .ok r σ₂ ∧
      (State.rollbackToSavepoint 1 σ₂ : EStateM.Result (StateError Nat Unit) _ _) = .ok () σ₃ ∧
      (State.getUnit 5 false σ₃ : EStateM.Result (StateError Nat Unit) _ _) = .ok u₃ σ₃ ∧
      u₃.data = some 7 :=
  ⟨_, _, _, _, _, _, _, .cons rfl trivial (.cons rfl trivial (.cons rfl trivial (.nil _))), rfl, rfl,
    rfl, rfl, rfl, rfl, rfl⟩

end Calls

/-! ### The agreement of the incremental hash with the recomputation -/

variable [UnitId K]

/-- **`CalculateRoot` computes the summary from scratch.**  On every state that calls of the
API reach, `CalculateRoot` returns the summary value and hash of the latest savepoint computed
from its keys, logs and data alone, although the hasher skips clean calculated nodes; after
it the savepoint denotes the recomputation of its tree, every node of which satisfies the
equations of a hashed node. -/
theorem calculateRoot_eq_summary {σ : State K D} (hσ : CallReachable (ε := ε) H alg logsRoot σ)
    {t : Tree} (ht : σ.savepoints.getLast? = some t) :
    ∃ (tv : Node K (UnitV1 D)) (σ' : State K D), Repr σ.store t.root tv ∧
      State.calculateRoot (ε := ε) H alg logsRoot σ = .ok (tv.summary H alg logsRoot) σ' ∧
      σ'.savepoints.getLast? = some t ∧ Repr σ'.store t.root (tv.fullHash H alg logsRoot) ∧
      (tv.fullHash H alg logsRoot).Hashed H alg logsRoot := by
  obtain ⟨tv, s', hrep, hrun, hrep', -⟩ := calculateRoot_spec hσ.inv ht
  exact ⟨tv, { σ with store := s' }, hrep, hrun, ht, hrep', Node.hashed_fullHash H alg logsRoot tv⟩

/-- The agreement on the state that `Apply` leaves after adding one unit to the empty state. -/
theorem calculateRoot_eq_summary_addUnit :
    ∃ (σ : State Nat Nat) (t : Tree),
      Ends (Call.run (ε := Unit) zeroHash () (fun _ _ => none) (.op (.apply [.addUnit 5 (some 7)])))
        State.empty σ ∧ σ.savepoints.getLast? = some t ∧
      ∃ (tv : Node Nat (UnitV1 Nat)) (σ' : State Nat Nat), Repr σ.store t.root tv ∧
        State.calculateRoot (ε := Unit) zeroHash () (fun _ _ => none) σ =
          .ok (tv.summary zeroHash () (fun _ _ => none)) σ' ∧
        σ'.savepoints.getLast? = some t ∧
        Repr σ'.store t.root (tv.fullHash zeroHash () (fun _ _ => none)) ∧
        (tv.fullHash zeroHash () (fun _ _ => none)).Hashed zeroHash () (fun _ _ => none) :=
  ⟨_, _, rfl, rfl, calculateRoot_eq_summary zeroHash () (fun _ _ => none)
    (.call (.op (.apply [.addUnit 5 (some 7)])) .empty rfl) rfl⟩

end BftCore.State
