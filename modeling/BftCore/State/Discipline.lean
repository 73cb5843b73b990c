import BftCore.State.Abstract

/-!
# `state`: the state refines the abstract state, and the savepoint discipline

`Abstracts σ B`: the committed tree and each savepoint tree of `σ` denote the unit maps of
`B`; the committed tree and every savepoint but the latest are clean, and the latest owns its
dirty records.  `createSavepoint` marks the records of the latest tree clean before the clone
is pushed, so the writes of later actions, which touch dirty records only, leave every saved
tree as it was.

* `Refines`: a call on the state ends as the abstract call, with the same value or the same
  error, in a state that abstracts the abstract result (for an error other than a panic);
* one lemma per call: `createSavepoint_refines`, `rollbackToSavepoint_refines`,
  `releaseToSavepoint_refines`, `onLatest_refines`, `apply_refines` (through
  `applyActions_refines` for the loop of `Apply`), `addUnitLog_refines`, `revert_refines`,
  and `Op.run_refines`;
* `Reachable.abstracts`: every reachable state abstracts an abstract state, and
  `Run.take_savepoints`: a run through states with more than `n` savepoints keeps the lowest
  `n` unit maps;
* `Abstracts.savepointDiscipline`: in a state that abstracts an abstract state, `Apply` is
  atomic, and rolling back to a savepoint that stays open restores the latest unit map it was
  taken on, while releasing it keeps the changes (`savepoint_discipline` in `Hashing` for every
  state the calls reach).
-/

namespace BftCore.State

open BftCore.Avl BftCore.Avl.Heap EStateM

variable {A K D ε : Type} [LinearOrder K]

/-! ### Trees that keep their maps -/

section Frame

variable {s s' : Store K (UnitV1 D)} {t : Tree} {M M' : UnitMap K D} {Dt Dt' : List Nat}

/-- A tree denotes one map. -/
theorem Denotes.unique (h : Denotes s t M Dt) (h' : Denotes s t M' Dt') : M = M' := by
  obtain ⟨tv, ho, -, rfl⟩ := h
  obtain ⟨tv', ho', -, rfl⟩ := h'
  rw [ho.repr.unique ho'.repr]

theorem Denotes.dirty (h : Denotes s t M Dt) : ∀ b ∈ Dt, Dirty s b := by
  obtain ⟨tv, ho, -, -⟩ := h
  exact fun b hb => ho.dirty_of_mem hb

theorem Denotes.congr (h : Denotes s t M Dt) (ha : Agree Dt s s') : Denotes s' t M Dt := by
  obtain ⟨tv, ho, hord, hv⟩ := h
  exact ⟨tv, ho.congr ha, hord, hv⟩

/-- A call that changed no allocated record. -/
theorem Denotes.of_within_nil (h : Denotes s t M Dt) (hW : Within [] s s') : Denotes s' t M Dt :=
  h.congr (hW.agree (fun _ hb => absurd hb List.not_mem_nil) (List.disjoint_nil_left _))

/-- A clean tree, under a call that wrote dirty records only. -/
theorem Denotes.of_within_clean (h : Denotes s t M []) {D' : List Nat} (hW : Within D' s s')
    (hD : ∀ b ∈ D', Dirty s b) : Denotes s' t M [] :=
  h.congr (hW.agree hD (List.disjoint_nil_right _))

end Frame

/-! ### The abstraction -/

/-- `σ` abstracts `B`: its trees denote the maps of `B`, all clean but the latest savepoint. -/
structure Abstracts (σ : State K D) (B : AbsState K D) : Prop where
  committed : Denotes σ.store σ.committedTree B.committed []
  savepoints : SavepointStack.Rel (fun t M => Denotes σ.store t M [])
    (fun t M => ∃ Dt, Denotes σ.store t M Dt) σ.savepoints B.savepoints

/-- The unit map of the latest savepoint. -/
def LatestMap (σ : State K D) (M : UnitMap K D) : Prop :=
  ∃ t Dt, σ.savepoints.getLast? = some t ∧ Denotes σ.store t M Dt

/-- A call on the state ends as the abstract call: with the same value in a state that
abstracts the abstract result, or with the same error, in a state that abstracts the abstract
state unless the error is a panic. -/
def Refines {α : Type} :
    EStateM.Result (StateError K ε) (AbsState K D) α →
      EStateM.Result (StateError K ε) (State K D) α → Prop
  | .ok a B', .ok b σ' => b = a ∧ Abstracts σ' B'
  | .error e B', .error e' σ' => e' = e ∧ (e.isPanic = false → Abstracts σ' B')
  | _, _ => False

section Refines

variable {α : Type} {σ : State K D} {B : AbsState K D}

theorem Refines.ok_inv {a : α} {B' : AbsState K D}
    {r : EStateM.Result (StateError K ε) (State K D) α} (h : Refines (.ok a B') r) :
    ∃ σ', r = .ok a σ' ∧ Abstracts σ' B' := by
  cases r with
  | ok b σ' =>
    obtain ⟨rfl, hσ⟩ := h
    exact ⟨σ', rfl, hσ⟩
  | error => exact h.elim

theorem Refines.error_inv {e : StateError K ε} {B' : AbsState K D}
    {r : EStateM.Result (StateError K ε) (State K D) α} (h : Refines (.error e B') r) :
    ∃ σ', r = .error e σ' ∧ (e.isPanic = false → Abstracts σ' B') := by
  cases r with
  | ok => exact h.elim
  | error e' σ' =>
    obtain ⟨rfl, hσ⟩ := h
    exact ⟨σ', rfl, hσ⟩

theorem refines_panic (σ' : State K D) (B' : AbsState K D) :
    Refines (.error .panic B' : EStateM.Result (StateError K ε) _ α) (.error .panic σ') :=
  ⟨rfl, fun hp => absurd hp (by simp [StateError.isPanic])⟩

theorem Refines.dropResult {x : AbsM K D ε α} {y : StateM K D ε α} (h : Refines (x B) (y σ)) :
    Refines (EStateM.dropResult x B) (EStateM.dropResult y σ) := by
  unfold EStateM.dropResult
  generalize x B = r at h ⊢
  generalize y σ = r' at h ⊢
  cases r <;> cases r' <;> simp_all [Refines]

end Refines

namespace Abstracts

variable {σ : State K D} {B : AbsState K D}

theorem latest (h : Abstracts σ B) {t : Tree} (ht : σ.savepoints.getLast? = some t) :
    ∃ M Dt, B.savepoints.getLast? = some M ∧ Denotes σ.store t M Dt := by
  obtain ⟨M, hM⟩ : ∃ M, B.savepoints.getLast? = some M := by
    have := h.savepoints.getLast?_isSome_iff
    rw [ht, Option.isSome_some, eq_comm, Option.isSome_iff_exists] at this
    exact this
  obtain ⟨Dt, hd⟩ := h.savepoints.top t M ht hM
  exact ⟨M, Dt, hM, hd⟩

theorem latest_none (h : Abstracts σ B) (ht : σ.savepoints.getLast? = none) :
    B.savepoints.getLast? = none := by
  have := h.savepoints.getLast?_isSome_iff
  cases hB : B.savepoints.getLast? with
  | none => rfl
  | some M => simp [ht, hB] at this

/-- The latest unit map is the top of the abstract stack. -/
theorem latestMap_iff (h : Abstracts σ B) (M : UnitMap K D) :
    LatestMap σ M ↔ B.savepoints.getLast? = some M := by
  constructor
  · rintro ⟨t, Dt, ht, hd⟩
    obtain ⟨M', Dt', hM', hd'⟩ := h.latest ht
    rw [hM', hd.unique hd']
  · intro hM
    cases ht : σ.savepoints.getLast? with
    | none =>
      rw [h.latest_none ht] at hM
      cases hM
    | some t =>
      obtain ⟨M', Dt', hM', hd'⟩ := h.latest ht
      rw [hM] at hM'
      cases hM'
      exact ⟨t, Dt', ht, hd'⟩

/-- A call that changed no allocated record. -/
theorem of_within_nil (h : Abstracts σ B) {s' : Store K (UnitV1 D)} (hW : Within [] σ.store s') :
    Abstracts { σ with store := s' } B :=
  ⟨h.committed.of_within_nil hW, h.savepoints.mono (fun _ _ hd => hd.of_within_nil hW)
    (fun _ _ ⟨Dt, hd⟩ => ⟨Dt, hd.of_within_nil hW⟩)⟩

/-- A call on the latest savepoint that wrote only the records it owns. -/
theorem setTop (h : Abstracts σ B) {t t' : Tree} {M M' : UnitMap K D} {Dt Dt' : List Nat}
    {s' : Store K (UnitV1 D)} (hd : Denotes σ.store t M Dt) (hW : Within Dt σ.store s')
    (hd' : Denotes s' t' M' Dt') :
    Abstracts { σ with store := s', savepoints := SavepointStack.setTop t' σ.savepoints }
      { B with savepoints := SavepointStack.setTop M' B.savepoints } := by
  have hD := hd.dirty
  refine ⟨h.committed.of_within_clean hW hD, ?_⟩
  exact (h.savepoints.mono_below fun _ _ hc => hc.of_within_clean hW hD).setTop ⟨Dt', hd'⟩

end Abstracts

/-! ### The calls -/

section Calls

variable {σ : State K D} {B : AbsState K D}

theorem createSavepoint_refines (h : Abstracts σ B) :
    Refines (AbsState.savepoint B) (State.createSavepoint σ : EStateM.Result (StateError K ε) _ _) := by
  unfold AbsState.savepoint State.createSavepoint SavepointStack.push
  cases ht : σ.savepoints.getLast? with
  | none =>
    rw [h.latest_none ht]
    exact refines_panic _ _
  | some t =>
    obtain ⟨M, Dt, hM, hd⟩ := h.latest ht
    obtain ⟨tv, ho, hord, hv⟩ := hd
    -- the clone shares the root; its records are marked clean in place
    obtain ⟨s', hrun, ho', hW⟩ := Tree.commit_spec (t := t.clone) ho
    have hD : ∀ b ∈ Dt, Dirty σ.store b := fun _ hb => ho.dirty_of_mem hb
    have hc : Denotes s' t M [] := ⟨tv.commit, ho', (Node.ordered_commit tv).2 hord, by
      rw [← hv, viewMap, viewMap, Node.toMap_commit]⟩
    rw [hM]
    simp only [Option.map_some]
    rw [hrun]
    refine ⟨by rw [h.savepoints.length_eq], h.committed.of_within_clean hW hD, ?_⟩
    -- the saved tree is now clean, below a clean copy of itself
    have hrel := (h.savepoints.mono_below fun _ _ hc' => hc'.of_within_clean hW hD).setTop
      (U := fun t M => ∃ Dt, Denotes s' t M Dt) ⟨[], hc⟩
    rw [SavepointStack.setTop_getLast? ht, SavepointStack.setTop_getLast? hM] at hrel
    exact hrel.push ht hM hc ⟨[], hc⟩

theorem rollbackToSavepoint_refines (h : Abstracts σ B) (id : Int) :
    Refines (AbsState.rollbackToSavepoint id B)
      (State.rollbackToSavepoint id σ : EStateM.Result (StateError K ε) _ _) := by
  unfold AbsState.rollbackToSavepoint State.rollbackToSavepoint
  cases hr : SavepointStack.rollback id σ.savepoints with
  | none =>
    have hr' : SavepointStack.rollback id B.savepoints = none := by
      rw [SavepointStack.rollback_eq_none_iff] at hr ⊢
      rwa [← h.savepoints.length_eq]
    rw [hr']
    exact refines_panic _ _
  | some l =>
    obtain ⟨l', hr', hrel⟩ := h.savepoints.rollback (fun _ _ hd => ⟨[], hd⟩) hr
    rw [hr']
    exact ⟨rfl, h.committed, hrel⟩

theorem releaseToSavepoint_refines (h : Abstracts σ B) (id : Int) :
    Refines (AbsState.releaseToSavepoint id B)
      (State.releaseToSavepoint id σ : EStateM.Result (StateError K ε) _ _) := by
  unfold AbsState.releaseToSavepoint State.releaseToSavepoint
  cases hr : SavepointStack.release id σ.savepoints with
  | none =>
    have hr' : SavepointStack.release id B.savepoints = none := by
      rw [SavepointStack.release_eq_none_iff] at hr ⊢
      rwa [← List.length_eq_zero_iff, ← h.savepoints.length_eq, List.length_eq_zero_iff]
    rw [hr']
    exact refines_panic _ _
  | some l =>
    obtain ⟨l', hr', hrel⟩ := h.savepoints.release hr
    rw [hr']
    exact ⟨rfl, h.committed, hrel⟩

theorem revert_refines (h : Abstracts σ B) :
    Refines (AbsState.revert B) (State.revert σ : EStateM.Result (StateError K ε) _ _) := by
  refine ⟨rfl, h.committed, rfl, fun i _ _ hi _ _ => ?_, fun t M ht hM => ?_⟩
  · simp at hi
  · simp only [List.getLast?_singleton, Option.some.injEq] at ht hM
    subst ht hM
    exact ⟨[], h.committed⟩

/-- A call on the latest savepoint that implements `f` on its map. -/
theorem onLatest_refines {x : Tree → ActionM K D ε Tree}
    {f : UnitMap K D → Except (StateError K ε) (UnitMap K D)}
    (hx : ∀ t M Dt, Denotes σ.store t M Dt → Step Dt σ.store (f M) (x t σ.store))
    (h : Abstracts σ B) : Refines (AbsState.change f B) (State.onLatest x σ) := by
  unfold AbsState.change State.onLatest
  cases ht : σ.savepoints.getLast? with
  | none =>
    rw [h.latest_none ht]
    exact refines_panic _ _
  | some t =>
    obtain ⟨M, Dt, hM, hd⟩ := h.latest ht
    have hs := hx t M Dt hd
    rw [hM]
    dsimp only
    generalize f M = o at hs ⊢
    generalize x t σ.store = r at hs ⊢
    cases o with
    | ok M' =>
      cases r with
      | error => exact hs.elim
      | ok t' s' =>
        obtain ⟨Dt', hd', hW, -⟩ := hs
        exact ⟨rfl, h.setTop hd hW hd'⟩
    | error e =>
      cases r with
      | ok => exact hs.elim
      | error e' s' =>
        obtain ⟨rfl, hW⟩ := hs
        exact ⟨rfl, fun _ => h.of_within_nil hW⟩

section Apply

variable [UnitId K] [UnitData D] (H : A → List (HashItem K D) → Bytes) (alg : A)

/-- The loop of `Apply` from the savepoint `base.length`: the first error rolls the stack back
to `base`, and after the last action the working copy replaces the top of `base`. -/
theorem applyActions_refines {c : UnitMap K D} {base : List (UnitMap K D)} (hb : base ≠ []) :
    ∀ (actions : List (Action K D ε)) (M : UnitMap K D) (σ : State K D),
      Abstracts σ ⟨c, base ++ [M]⟩ →
      Refines
        (match Action.applyAll actions M with
          | .ok M' => .ok () ⟨c, SavepointStack.setTop M' base⟩
          | .error e => .error e ⟨c, base⟩)
        (State.applyActions H alg base.length actions σ) := by
  have hpos := List.length_pos_of_ne_nil hb
  have hlast : ∀ M : UnitMap K D, (base ++ [M]).getLast? = some M := fun M => List.getLast?_concat
  have htake : ∀ M : UnitMap K D, (base ++ [M]).take base.length = base := fun M =>
    (SavepointStack.take_push M le_rfl).trans (List.take_length)
  intro actions
  -- the loop runs on the working copy above `base`
  induction actions with
  | nil =>
    intro M σ h
    have hrel := releaseToSavepoint_refines (ε := ε) h base.length
    unfold AbsState.releaseToSavepoint at hrel
    rw [SavepointStack.release_keeps (htake M) hb (by simp) (hlast M)] at hrel
    exact hrel
  | cons a rest ih =>
    intro M σ h
    have hs := onLatest_refines (fun t M Dt hd => a.run_step H alg hd) h
    simp only [State.applyActions]
    cases ha : a.apply M with
    | ok M₁ =>
      rw [AbsState.change_of_ok (hlast M) ha] at hs
      obtain ⟨σ', hr, hσ'⟩ := hs.ok_inv
      rw [hr, Action.applyAll_cons_of_ok ha]
      have hset : SavepointStack.setTop M₁ (base ++ [M]) = base ++ [M₁] := by
        simp [SavepointStack.setTop]
      rw [hset] at hσ'
      exact ih M₁ σ' hσ'
    | error e =>
      rw [AbsState.change_of_error (hlast M) ha] at hs
      obtain ⟨σ', hr, hσ'⟩ := hs.error_inv
      rw [hr, Action.applyAll_cons_of_error ha]
      dsimp only
      cases hp : e.isPanic
      · -- an error value: the savepoint is rolled back before the error is returned
        have hroll := rollbackToSavepoint_refines (ε := ε) (hσ' hp) base.length
        unfold AbsState.rollbackToSavepoint at hroll
        rw [SavepointStack.rollback_restores (htake M) (by simp)] at hroll
        obtain ⟨σ'', hr', hσ''⟩ := hroll.ok_inv
        rw [if_neg (by simp), bind_of_ok hr']
        exact ⟨rfl, fun _ => hσ''⟩
      · rw [if_pos rfl]
        exact ⟨rfl, fun hp' => absurd (hp.symm.trans hp') (by simp)⟩

/-- **`Apply` changes the latest unit map by the actions, or fails and changes nothing.** -/
theorem apply_refines (h : Abstracts σ B) (actions : List (Action K D ε)) :
    Refines (AbsState.change (Action.applyAll actions) B) (State.apply H alg actions σ) := by
  unfold State.apply
  have hs := createSavepoint_refines (ε := ε) h
  cases hl : B.savepoints.getLast? with
  | none =>
    unfold AbsState.savepoint SavepointStack.push at hs
    rw [hl] at hs
    obtain ⟨σ', hr, -⟩ := hs.error_inv
    rw [hr]
    unfold AbsState.change
    rw [hl]
    exact refines_panic _ _
  | some M =>
    have hb : B.savepoints ≠ [] := fun h0 => by simp [h0] at hl
    unfold AbsState.savepoint SavepointStack.push at hs
    rw [hl] at hs
    obtain ⟨σ₁, hr, hσ₁⟩ := hs.ok_inv
    rw [hr]
    dsimp only
    have hloop := applyActions_refines H alg hb actions M σ₁ hσ₁
    unfold AbsState.change
    rw [hl]
    dsimp only
    cases hf : Action.applyAll actions M with
    | ok M' =>
      rw [hf] at hloop
      exact hloop
    | error e =>
      rw [hf] at hloop
      exact hloop

omit [UnitId K] [UnitData D] in
/-- `AddUnitLog` on a tree that denotes a map. -/
theorem addUnitLog_step {s : Store K (UnitV1 D)} {t : Tree} {M : UnitMap K D} {Dt : List Nat}
    (h : Denotes s t M Dt) (id : K) (txrHash : Option Bytes) :
    Step Dt s (UnitMap.addUnitLog H alg id txrHash M)
      ((do
        let u ← withContext "unable to find unit" (liftStore (t.get id))
        liftStore (t.update id (u.clone.addUnitLog H alg txrHash)) : ActionM K D ε Tree) s) := by
  unfold UnitMap.addUnitLog
  cases hid : M id with
  | none =>
    rw [bind_of_error (withContext_of_error (liftStore_get_of_none h hid) _)]
    exact step_error _
  | some w =>
    obtain ⟨u, rfl, hget⟩ := liftStore_get_of_some (ε := ε) h hid
    rw [bind_of_ok (withContext_of_ok hget _)]
    have hs := liftStore_apply (ε := ε) h (.update id (u.clone.addUnitLog H alg txrHash))
    simp only [Heap.Tree.apply, MapSpec.apply, Op.map, hid, Option.isSome_some, if_true,
      UnitV1.view_addUnitLog, UnitV1.view_clone] at hs
    exact hs

omit [UnitId K] [UnitData D] in
theorem addUnitLog_refines (h : Abstracts σ B) (id : K) (txrHash : Option Bytes) :
    Refines (AbsState.change (UnitMap.addUnitLog H alg id txrHash) B)
      (State.addUnitLog H alg id txrHash σ : EStateM.Result (StateError K ε) _ _) :=
  onLatest_refines (fun _ _ _ hd => addUnitLog_step H alg hd id txrHash) h

/-- **Every call of the API refines the abstract call.** -/
theorem Op.run_refines (op : Op K D ε) (h : Abstracts σ B) :
    Refines (op.absRun H alg B) (op.run H alg σ) := by
  cases op with
  | apply actions => exact apply_refines H alg h actions
  | addUnitLog id txrHash => exact addUnitLog_refines H alg h id txrHash
  | savepoint => exact (createSavepoint_refines h).dropResult
  | rollbackToSavepoint id => exact rollbackToSavepoint_refines h id
  | releaseToSavepoint id => exact releaseToSavepoint_refines h id
  | revert => exact revert_refines h

end Apply

end Calls

/-! ### Runs -/

section Runs

variable [UnitId K] [UnitData D] (H : A → List (HashItem K D) → Bytes) (alg : A)

omit [UnitId K] [UnitData D] in
theorem empty_abstracts : Abstracts (State.empty : State K D) AbsState.empty := by
  have hd : Denotes (Store.empty : Store K (UnitV1 D)) ⟨none⟩ (fun _ => none) [] :=
    ⟨.nil, .nil, trivial, rfl⟩
  refine ⟨hd, rfl, fun i _ _ hi _ _ => ?_, fun t M ht hM => ?_⟩
  · simp [State.empty] at hi
  · simp only [State.empty, AbsState.empty, List.getLast?_singleton, Option.some.injEq] at ht hM
    subst ht hM
    exact ⟨[], hd⟩

/-- A call that ends without a panic ends as the abstract call. -/
theorem Op.ends_abstracts (op : Op K D ε) {σ σ' : State K D} {B : AbsState K D}
    (h : Abstracts σ B) (he : Ends (op.run H alg) σ σ') :
    ∃ B', AbsEnds (op.absRun H alg) B B' ∧ Abstracts σ' B' := by
  have hr := op.run_refines H alg h
  unfold Ends at he
  unfold AbsEnds
  generalize op.absRun H alg B = r at hr ⊢
  generalize op.run H alg σ = r' at hr he
  cases r with
  | ok a B' =>
    obtain ⟨σ'', rfl, hσ''⟩ := hr.ok_inv
    exact ⟨B', rfl, he ▸ hσ''⟩
  | error e B' =>
    obtain ⟨σ'', rfl, hσ''⟩ := hr.error_inv
    obtain ⟨hp, rfl⟩ := he
    exact ⟨B', ⟨hp, rfl⟩, hσ'' hp⟩

theorem Run.abstracts {P : State K D → Prop} {σ σ' : State K D} {ops : List (Op K D ε)}
    (hr : Run H alg P σ ops σ') {B : AbsState K D} (h : Abstracts σ B) :
    ∃ B', Abstracts σ' B' := by
  induction hr generalizing B with
  | nil => exact ⟨B, h⟩
  | cons he _ _ ih =>
    obtain ⟨B₁, -, h₁⟩ := Op.ends_abstracts H alg _ h he
    exact ih h₁

/-- **Every reachable state abstracts an abstract state.** -/
theorem Reachable.abstracts {σ : State K D} (hσ : Reachable (ε := ε) H alg σ) :
    ∃ B, Abstracts σ B := by
  obtain ⟨ops, hr⟩ := hσ
  exact hr.abstracts H alg empty_abstracts

/-- A run through states with more than `n` savepoints keeps the lowest `n` unit maps. -/
theorem Run.take_savepoints {P : State K D → Prop} {σ σ' : State K D} {ops : List (Op K D ε)}
    (hr : Run H alg P σ ops σ') {B : AbsState K D} (h : Abstracts σ B) {n : Nat}
    (hP : ∀ τ, P τ → n < τ.savepoints.length) (hn : n < B.savepoints.length) :
    ∃ B', Abstracts σ' B' ∧ n < B'.savepoints.length ∧
      B'.savepoints.take n = B.savepoints.take n := by
  induction hr generalizing B with
  | nil => exact ⟨B, h, hn, rfl⟩
  | cons he hp _ ih =>
    obtain ⟨B₁, hend, h₁⟩ := Op.ends_abstracts H alg _ h he
    have hn₁ : n < B₁.savepoints.length := by
      rw [← h₁.savepoints.length_eq]
      exact hP _ hp
    obtain ⟨B', h', hn', htake⟩ := ih h₁ hn₁
    exact ⟨B', h', hn', htake.trans (Op.take_absRun H alg _ hend hn₁)⟩

/-- The savepoint discipline of a state `σ`:

* `Apply(actions...)` that returns an error leaves the savepoint count and the latest unit
  map as they were;
* `Apply(actions...)` that succeeds keeps the savepoint count and leaves as latest unit map
  the result of the actions applied in sequence;
* after `Savepoint()` returns `id`, and a run of calls along which more than `id` savepoints
  are left, `RollbackToSavepoint(id)` restores the savepoint count and the latest unit map of
  `σ`, and `ReleaseToSavepoint(id)` restores the savepoint count and keeps the latest unit
  map. -/
def SavepointDiscipline (σ : State K D) : Prop :=
  (∀ (actions : List (Action K D ε)) (e : StateError K ε) (σ' : State K D),
      State.apply H alg actions σ = .error e σ' → e.isPanic = false →
      σ'.savepoints.length = σ.savepoints.length ∧ ∀ M, LatestMap σ' M ↔ LatestMap σ M) ∧
  (∀ (actions : List (Action K D ε)) (σ' : State K D),
      State.apply H alg actions σ = .ok () σ' →
      σ'.savepoints.length = σ.savepoints.length ∧
      ∀ M, LatestMap σ M → ∃ M', Action.applyAll actions M = .ok M' ∧ LatestMap σ' M') ∧
  (∀ (id : Int) (σ₁ : State K D) (ops : List (Op K D ε)) (σ₂ : State K D),
      (State.createSavepoint σ : EStateM.Result (StateError K ε) _ _) = .ok id σ₁ →
      Run H alg (fun τ => id < τ.savepoints.length) σ₁ ops σ₂ →
      (∃ σ₃, (State.rollbackToSavepoint id σ₂ : EStateM.Result (StateError K ε) _ _) = .ok () σ₃ ∧
        σ₃.savepoints.length = σ.savepoints.length ∧ ∀ M, LatestMap σ₃ M ↔ LatestMap σ M) ∧
      (∃ σ₃, (State.releaseToSavepoint id σ₂ : EStateM.Result (StateError K ε) _ _) = .ok () σ₃ ∧
        σ₃.savepoints.length = σ.savepoints.length ∧ ∀ M, LatestMap σ₃ M ↔ LatestMap σ₂ M))

/-- `Apply` that fails changes nothing. -/
theorem apply_error_abstracts {σ σ' : State K D} {B : AbsState K D} (hB : Abstracts σ B)
    {actions : List (Action K D ε)} {e : StateError K ε}
    (happ : State.apply H alg actions σ = .error e σ') (hp : e.isPanic = false) :
    Abstracts σ' B := by
  have hr := apply_refines H alg hB actions
  rw [happ] at hr
  unfold AbsState.change at hr
  cases hl : B.savepoints.getLast? with
  | none =>
    rw [hl] at hr
    obtain ⟨rfl, -⟩ := hr
    simp [StateError.isPanic] at hp
  | some M =>
    rw [hl] at hr
    dsimp only at hr
    cases hf : Action.applyAll actions M with
    | ok => rw [hf] at hr; exact hr.elim
    | error e' =>
      rw [hf] at hr
      exact hr.2 (hr.1 ▸ hp)

/-- `Apply` that succeeds replaces the latest map by the result of the actions. -/
theorem apply_ok_abstracts {σ σ' : State K D} {B : AbsState K D} (hB : Abstracts σ B)
    {actions : List (Action K D ε)} (happ : State.apply H alg actions σ = .ok () σ') :
    ∃ M M', B.savepoints.getLast? = some M ∧ Action.applyAll actions M = .ok M' ∧
      Abstracts σ' { B with savepoints := SavepointStack.setTop M' B.savepoints } := by
  have hr := apply_refines H alg hB actions
  rw [happ] at hr
  unfold AbsState.change at hr
  cases hl : B.savepoints.getLast? with
  | none =>
    rw [hl] at hr
    exact hr.elim
  | some M =>
    rw [hl] at hr
    dsimp only at hr
    cases hf : Action.applyAll actions M with
    | error => rw [hf] at hr; exact hr.elim
    | ok M' =>
      rw [hf] at hr
      exact ⟨M, M', rfl, hf, hr.2⟩

/-- **The savepoint discipline holds in every state that abstracts an abstract state.** -/
theorem Abstracts.savepointDiscipline {σ : State K D} {B : AbsState K D} (hB : Abstracts σ B) :
    SavepointDiscipline (ε := ε) H alg σ := by
  refine ⟨fun actions e σ' happ hp => ?_, fun actions σ' happ => ?_,
    fun id σ₁ ops σ₂ hsp hrun => ?_⟩
  · -- a failed `Apply`: the abstract state is the one before the call
    have h' := apply_error_abstracts H alg hB happ hp
    exact ⟨by rw [h'.savepoints.length_eq, hB.savepoints.length_eq],
      fun M => by rw [h'.latestMap_iff, hB.latestMap_iff]⟩
  · obtain ⟨M, M', hM, hf, h'⟩ := apply_ok_abstracts H alg hB happ
    have hne : B.savepoints ≠ [] := fun h0 => by simp [h0] at hM
    refine ⟨by rw [h'.savepoints.length_eq, hB.savepoints.length_eq,
      SavepointStack.length_setTop _ hne], fun M₀ hM₀ => ?_⟩
    rw [hB.latestMap_iff, hM] at hM₀
    cases hM₀
    exact ⟨M', hf, (h'.latestMap_iff M').2 (SavepointStack.getLast?_setTop _ _)⟩
  · -- `Savepoint()` pushed a copy of the latest map; its id is the old height
    have hs := createSavepoint_refines (ε := ε) hB
    rw [hsp] at hs
    unfold AbsState.savepoint SavepointStack.push at hs
    cases hM : B.savepoints.getLast? with
    | none =>
      rw [hM] at hs
      exact hs.elim
    | some M =>
      rw [hM] at hs
      obtain ⟨hid, hσ₁⟩ := hs
      subst hid
      have hne : B.savepoints ≠ [] := fun h0 => by simp [h0] at hM
      obtain ⟨B₂, hB₂, hn₂, htake⟩ := hrun.take_savepoints H alg hσ₁
        (n := B.savepoints.length) (fun τ hτ => by omega) (by simp)
      have htake' : B₂.savepoints.take B.savepoints.length = B.savepoints := by
        rw [htake]
        exact (SavepointStack.take_push M le_rfl).trans List.take_length
      have hlen : σ.savepoints.length = B.savepoints.length := hB.savepoints.length_eq
      refine ⟨?_, ?_⟩
      · -- the stack is cut back to the one `Savepoint()` was called on
        have hroll := rollbackToSavepoint_refines (ε := ε) hB₂ B.savepoints.length
        unfold AbsState.rollbackToSavepoint at hroll
        rw [SavepointStack.rollback_restores htake' (Nat.le_of_lt hn₂)] at hroll
        obtain ⟨σ₃, hr₃, hσ₃⟩ := hroll.ok_inv
        exact ⟨σ₃, hr₃, by rw [hσ₃.savepoints.length_eq, hlen],
          fun M' => by rw [hσ₃.latestMap_iff, hB.latestMap_iff]⟩
      · -- the working copy takes the place of the saved map
        obtain ⟨M₂, hM₂⟩ : ∃ M₂, B₂.savepoints.getLast? = some M₂ := by
          cases h2 : B₂.savepoints.getLast? with
          | none =>
            rw [List.getLast?_eq_none_iff.1 h2] at hn₂
            simp at hn₂
          | some M₂ => exact ⟨M₂, rfl⟩
        have hrel := releaseToSavepoint_refines (ε := ε) hB₂ B.savepoints.length
        unfold AbsState.releaseToSavepoint at hrel
        rw [SavepointStack.release_keeps htake' hne hn₂ hM₂] at hrel
        obtain ⟨σ₃, hr₃, hσ₃⟩ := hrel.ok_inv
        refine ⟨σ₃, hr₃, ?_, fun M' => ?_⟩
        · rw [hσ₃.savepoints.length_eq, hlen]
          exact SavepointStack.length_setTop _ hne
        · rw [hσ₃.latestMap_iff, hB₂.latestMap_iff, hM₂]
          exact ⟨fun h => by rw [SavepointStack.getLast?_setTop] at h; exact h,
            fun h => by rw [SavepointStack.getLast?_setTop]; exact h⟩

end Runs

/-! ### The new state, and a savepoint rolled back after its release -/

/-- Unit ids for the examples: numbers, none of them nil. -/
instance : UnitId Nat := ⟨fun _ => false⟩

/-- Unit data for the examples: a number, its own summary value. -/
instance : UnitData Nat := ⟨fun n => n.toUInt64⟩

/-- A hash function for the examples. -/
def zeroHash : Unit → List (HashItem Nat Nat) → Bytes := fun _ _ => []

/-- `RollbackToSavepoint(id)` restores the map of the `Savepoint()` that returned `id` only
while that savepoint is open: on the new state `Savepoint()` returns 1, and after
`ReleaseToSavepoint(1)` and an `Apply` that adds the unit 5, `RollbackToSavepoint(1)` returns
with the unit 5 still in the latest map, which had no unit when `Savepoint()` was called. -/
theorem rollback_after_release_keeps_changes :
    ∃ σ₁ σ₂ σ₃ σ₄ : State Nat Nat,
      (State.createSavepoint State.empty : EStateM.Result (StateError Nat Unit) _ _) = .ok 1 σ₁ ∧
      (State.releaseToSavepoint 1 σ₁ : EStateM.Result (StateError Nat Unit) _ _) = .ok () σ₂ ∧
      State.apply (ε := Unit) zeroHash () [.addDummyUnit 5] σ₂ = .ok () σ₃ ∧
      (State.rollbackToSavepoint 1 σ₃ : EStateM.Result (StateError Nat Unit) _ _) = .ok () σ₄ ∧
      LatestMap (State.empty : State Nat Nat) (fun _ => none) ∧ ¬ LatestMap σ₄ (fun _ => none) := by
  have h₀ := empty_abstracts (K := Nat) (D := Nat)
  -- each call refines the abstract call, which computes
  have hs₁ := createSavepoint_refines (ε := Unit) h₀
  rw [show (AbsState.savepoint AbsState.empty : EStateM.Result (StateError Nat Unit) _ _) =
    .ok 1 ⟨fun _ => none, [fun _ => none, fun _ => none]⟩ from rfl] at hs₁
  obtain ⟨σ₁, hr₁, h₁⟩ := hs₁.ok_inv
  have hs₂ := releaseToSavepoint_refines (ε := Unit) h₁ 1
  rw [show (AbsState.releaseToSavepoint 1 ⟨fun _ => none, [fun _ => none, fun _ => none]⟩ :
    EStateM.Result (StateError Nat Unit) (AbsState Nat Nat) PUnit) =
    .ok () ⟨fun _ => none, [fun _ => none]⟩ from rfl] at hs₂
  obtain ⟨σ₂, hr₂, h₂⟩ := hs₂.ok_inv
  let M₅ : UnitMap Nat Nat := Function.update (fun _ => none) 5 (some (.new none none))
  have hs₃ := apply_refines zeroHash () h₂ [(.addDummyUnit 5 : Action Nat Nat Unit)]
  rw [show AbsState.change (Action.applyAll [(.addDummyUnit 5 : Action Nat Nat Unit)])
    ⟨fun _ => none, [fun _ => none]⟩ = .ok () ⟨fun _ => none, [M₅]⟩ from rfl] at hs₃
  obtain ⟨σ₃, hr₃, h₃⟩ := hs₃.ok_inv
  have hs₄ := rollbackToSavepoint_refines (ε := Unit) h₃ 1
  rw [show (AbsState.rollbackToSavepoint 1 ⟨fun _ => none, [M₅]⟩ :
    EStateM.Result (StateError Nat Unit) (AbsState Nat Nat) PUnit) =
    .ok () ⟨fun _ => none, [M₅]⟩ from rfl] at hs₄
  obtain ⟨σ₄, hr₄, h₄⟩ := hs₄.ok_inv
  refine ⟨σ₁, σ₂, σ₃, σ₄, hr₁, hr₂, hr₃, hr₄, (h₀.latestMap_iff _).2 rfl, fun hl => ?_⟩
  -- the latest map of the last state has the unit 5
  have hM := (h₄.latestMap_iff _).1 hl
  simp only [List.getLast?_singleton, Option.some.injEq] at hM
  have h5 := congrFun hM 5
  simp [M₅] at h5

end BftCore.State
