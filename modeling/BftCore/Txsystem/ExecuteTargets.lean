import BftCore.Txsystem.ExecuteSpec

/-!
# `txsystem`: the units an order changes

An order that succeeds changes the latest unit map only on the units its record lists
(`TargetUnits`), provided every executor changes only the units its own server metadata lists
(`TxExecutors.Confined`).  The deferred function of `doExecute` then adds a log of the record
to each listed unit, once for each time the unit is listed.  The list the body of `doExecute`
builds has no duplicates (`appendServerMetadata` appends only new ids), but the fee credit
record is appended to it without that check: an order that targets its own fee credit record
lists it twice, and its unit gets two logs.

* `SameOutside M₀ L st`: the latest map of `st` agrees with `M₀` outside the ids `L`.  Each step
  keeps it, with the ids it names, or those of the metadata it returns, added to `L`;
* `withLogs` and `withLogs_apply`: the logs of the deferred function, one per listing;
* `wp_doExecute_successful`: what a successful ordinary order leaves (`LoggedOnTargets`);
* `wp_executeFc_logged`: what a successful fee credit order leaves (`FcLoggedOnTargets`): only
  the units its record lists change, and each unit its executor lists gets the logs;
* `execute_all_or_nothing`: what `Execute` leaves, for each way it ends.
-/

namespace BftCore.Txsystem

open BftCore.State EStateM
open BftCore.State.AbsState (KeepsBelow pushed rollback_pushed release_pushed savepoint_eq)

variable {D A Attr Proof α : Type}

/-! ### Target units without duplicates -/

theorem mem_appendUnique {seen new : List Bytes} {u : Bytes} :
    u ∈ appendUnique seen new ↔ u ∈ new ∧ u ∉ seen := by
  induction new generalizing seen with
  | nil => simp [appendUnique]
  | cons v vs ih =>
    unfold appendUnique
    by_cases huv : u = v
    · subst huv
      split <;> simp_all
    · split <;> simp_all

theorem nodup_appendUnique (seen new : List Bytes) : (appendUnique seen new).Nodup := by
  induction new generalizing seen with
  | nil => exact List.nodup_nil
  | cons v vs ih =>
    unfold appendUnique
    split
    · exact ih seen
    · exact List.nodup_cons.mpr ⟨fun h => (mem_appendUnique.mp h).2 List.mem_cons_self, ih _⟩

/-- The target units of the metadata an unlock returns: none for no metadata. -/
def optTargetUnits : Option ServerMetadata → List Bytes
  | none => []
  | some sm => sm.targetUnits

theorem mem_targetUnits_appendServerMetadata {sm : ServerMetadata} {smNew : Option ServerMetadata}
    {u : Bytes} :
    u ∈ (appendServerMetadata sm smNew).targetUnits ↔ u ∈ sm.targetUnits ∨ u ∈ optTargetUnits smNew := by
  cases smNew with
  | none => simp [appendServerMetadata, optTargetUnits]
  | some smNew =>
    simp only [appendServerMetadata, optTargetUnits, List.mem_append, mem_appendUnique]
    tauto

theorem nodup_targetUnits_appendServerMetadata {sm : ServerMetadata} (h : sm.targetUnits.Nodup)
    (smNew : Option ServerMetadata) : (appendServerMetadata sm smNew).targetUnits.Nodup := by
  cases smNew with
  | none => exact h
  | some smNew =>
    exact List.nodup_append.mpr ⟨h, nodup_appendUnique _ _,
      fun a ha b hb hab => (mem_appendUnique.mp hb).2 (hab ▸ ha)⟩

/-! ### Executors that change only their target units -/

/-- An executor changes only the units its server metadata lists. -/
def TxHandler.Confined (t : TxHandler D A Attr Proof) : Prop :=
  ∀ tx attr proof ec M M' sm, t.execute tx attr proof ec M = .ok (M', sm) →
    ∀ u ∉ sm.targetUnits, M' u = M u

/-- Every executor of the modules changes only the units its server metadata lists. -/
def TxExecutors.Confined (h : TxExecutors D A Attr Proof) : Prop :=
  ∀ type t, h type = some t → t.Confined

section Confined

variable {h : TxExecutors D A Attr Proof} (hc : h.Confined)
include hc

theorem TxExecutors.Confined.executeWithAttr (tx : TxOrder A) (attr : Attr) (proof : Proof)
    {ec : TxExecutionContext} {M M' : UnitMap Bytes D} {sm : ServerMetadata}
    (hx : h.executeWithAttr tx attr proof ec M = .ok (M', sm)) : ∀ u ∉ sm.targetUnits, M' u = M u := by
  unfold TxExecutors.executeWithAttr at hx
  split at hx
  · cases hx
  · rename_i t ht
    exact hc _ t ht tx attr proof ec M M' sm hx

theorem TxExecutors.Confined.execute (tx : TxOrder A) {ec : TxExecutionContext}
    {M M' : UnitMap Bytes D} {sm : ServerMetadata} (hx : h.execute tx ec M = .ok (M', sm)) :
    ∀ u ∉ sm.targetUnits, M' u = M u := by
  unfold TxExecutors.execute at hx
  split at hx
  · cases hx
  · rename_i t ht
    split at hx
    · cases hx
    · rename_i r hr
      cases hx
      -- `ExecuteTx` unmarshals the order and runs the handler's executor
      unfold TxHandler.executeTx at hr
      split at hr
      · cases hr
      · split at hr
        · cases hr
        · exact hc _ t ht _ _ _ ec M M' sm hr

end Confined

/-! ### The latest map outside a list of units -/

section SameOutside

variable (M₀ : UnitMap Bytes D)

/-- The latest map of the state agrees with `M₀` outside the ids `L`. -/
def SameOutside (L : List Bytes) (st : AbsState Bytes D) : Prop :=
  ∃ M, st.savepoints.getLast? = some M ∧ ∀ u ∉ L, M u = M₀ u

variable {M₀}

theorem SameOutside.mono {L L' : List Bytes} {st : AbsState Bytes D} (h : SameOutside M₀ L st)
    (hL : ∀ u ∈ L, u ∈ L') : SameOutside M₀ L' st := by
  obtain ⟨M, hM, hout⟩ := h
  exact ⟨M, hM, fun u hu => hout u fun h => hu (hL u h)⟩

theorem SameOutside.of_eq {L : List Bytes} {st st' : AbsState Bytes D} (h : SameOutside M₀ L st)
    (heq : st' = st) : SameOutside M₀ L st' :=
  heq ▸ h

/-- A step that reads keeps the latest map. -/
theorem Reads.wp_sameOutside {x : TxM D α} (hx : Reads x) {L : List Bytes} {s : ExecState D}
    (hs : SameOutside M₀ L s.state) :
    wp x (fun _ s' => SameOutside M₀ L s'.state) (fun _ _ => True) s :=
  wp_mono (hx s) (fun _ _ h => hs.of_eq h) (fun _ _ _ => trivial)

/-- A change of the latest map that keeps the units outside `L₁`; when it fails, it leaves the
state as it is. -/
theorem wp_change_sameOutside {f : UnitMap Bytes D → Except TxError (UnitMap Bytes D)}
    {L₁ : List Bytes} (hf : ∀ M M', f M = .ok M' → ∀ u ∉ L₁, M' u = M u) {L : List Bytes}
    {s : ExecState D} (hs : SameOutside M₀ L s.state) {E : TxError → ExecState D → Prop}
    (hE : ∀ e, E e s) :
    wp (onState (AbsState.change f)) (fun _ s' => SameOutside M₀ (L ++ L₁) s'.state) E s := by
  obtain ⟨M, hM, hout⟩ := hs
  simp only [wp_onState, wp_change, hM]
  split
  · rename_i M' hfM
    refine ⟨M', SavepointStack.getLast?_setTop _ _, fun u hu => ?_⟩
    rw [List.mem_append, not_or] at hu
    rw [hf M M' hfM u hu.2, hout u hu.1]
  · exact hE _

/-- `Apply(actions...)` changes only the units the actions name. -/
theorem wp_applyActions_sameOutside (actions : List (Action Bytes D String)) {L : List Bytes}
    {s : ExecState D} (hs : SameOutside M₀ L s.state) {E : TxError → ExecState D → Prop}
    (hE : ∀ e, E e s) :
    wp (applyActions actions)
      (fun _ s' => SameOutside M₀ (L ++ actions.map Action.unitID) s'.state) E s :=
  wp_change_sameOutside (fun _ _ h => Action.applyAll_of_not_mem h) hs hE

/-- `Apply(actions...)` with some of its errors passed over. -/
theorem wp_applyActions_or_sameOutside (actions : List (Action Bytes D String))
    (skip : TxError → Bool) (context : String) {L : List Bytes} {s : ExecState D}
    (hs : SameOutside M₀ L s.state) :
    wp (fun s => match applyActions actions s with
      | .ok () s' => .ok () s'
      | .error e s' => if skip e then .ok () s' else .error (e.wrap context) s')
      (fun _ s' => SameOutside M₀ (L ++ actions.map Action.unitID) s'.state) (fun _ _ => True) s := by
  -- a failed `Apply` leaves the state, which keeps the latest map outside `L`
  have hw := wp_applyActions_sameOutside actions hs (E := fun _ s' => s' = s) fun _ => rfl
  unfold wp at hw ⊢
  dsimp only
  cases happ : applyActions actions s with
  | ok u s' =>
    cases u
    rw [happ] at hw
    exact hw
  | error e s' =>
    rw [happ] at hw
    dsimp only at hw ⊢
    by_cases hk : skip e = true
    · rw [if_pos hk]
      exact (hs.mono fun u hu => List.mem_append_left _ hu).of_eq (congrArg ExecState.state hw)
    · rw [if_neg hk]
      trivial

/-- An executor that changes only its target units. -/
theorem wp_runExecutor_sameOutside
    {x : TxExecutionContext → UnitMap Bytes D → Except TxError (UnitMap Bytes D × ServerMetadata)}
    (hx : ∀ ec M M' sm, x ec M = .ok (M', sm) → ∀ u ∉ sm.targetUnits, M' u = M u)
    {L : List Bytes} {s : ExecState D} (hs : SameOutside M₀ L s.state) :
    wp (runExecutor x) (fun sm s' => SameOutside M₀ (L ++ sm.targetUnits) s'.state)
      (fun _ _ => True) s := by
  obtain ⟨M, hM, hout⟩ := hs
  unfold wp runExecutor
  simp only [hM]
  cases hxM : x s.exeCtx M with
  | error e => trivial
  | ok r =>
    obtain ⟨M', sm⟩ := r
    refine ⟨M', SavepointStack.getLast?_setTop _ _, fun u hu => ?_⟩
    rw [List.mem_append, not_or] at hu
    rw [hx _ M M' sm hxM u hu.2, hout u hu.1]

end SameOutside

/-! ### The steps of an order -/

section Steps

variable (env : TxSystemEnv D A Attr Proof) {M₀ : UnitMap Bytes D}

theorem wp_markDummyForDeletion_sameOutside (round : UInt64) (u : Bytes) {L : List Bytes}
    {s : ExecState D} (hs : SameOutside M₀ L s.state) :
    wp (markDummyForDeletion (D := D) round u) (fun _ s' => SameOutside M₀ (L ++ [u]) s'.state)
      (fun _ _ => True) s := by
  unfold markDummyForDeletion wp
  dsimp only
  cases s.state.savepoints.getLast? with
  | none => trivial
  | some M =>
    dsimp only
    cases M u with
    | none => trivial
    | some w =>
      dsimp only
      by_cases hd : w.data.isNone = true
      · rw [if_pos hd]
        exact (wp_adaptExcept ..).mpr (wp_applyActions_sameOutside _ hs fun _ => trivial)
      · rw [if_neg hd]
        exact hs.mono fun v hv => List.mem_append_left _ hv

theorem wp_markDummiesForDeletion_sameOutside (round : UInt64) :
    ∀ (l L : List Bytes) (s : ExecState D), SameOutside M₀ L s.state →
      wp (markDummiesForDeletion (D := D) round l) (fun _ s' => SameOutside M₀ (L ++ l) s'.state)
        (fun _ _ => True) s
  | [], L, s, hs => by rw [List.append_nil]; exact hs
  | u :: rest, L, s, hs => by
    rw [markDummiesForDeletion, wp_bind]
    refine wp_mono (wp_markDummyForDeletion_sameOutside round u hs) (fun _ s' hs' => ?_)
      (fun _ _ h => h)
    rw [List.append_cons]
    exact wp_markDummiesForDeletion_sameOutside round rest _ s' hs'

theorem wp_executeLockedTx_sameOutside (hc : env.handlers.Confined) (proof : StateUnlockProof)
    (txOnHold : TxOrder A) {L : List Bytes} {s : ExecState D} (hs : SameOutside M₀ L s.state) :
    wp (executeLockedTx env proof txOnHold)
      (fun sm s' => SameOutside M₀ (L ++ sm.targetUnits) s'.state) (fun _ _ => True) s := by
  unfold executeLockedTx
  split_ifs
  · -- the order on hold executed, by an executor that changes only its targets
    rw [wp_adaptExcept]
    exact wp_runExecutor_sameOutside (fun _ _ _ _ h => hc.execute txOnHold h) hs
  · -- rolled back: its dummy units marked for deletion
    split
    · trivial
    · simp only [wp_bind, wp_currentRoundNumber, wp_pure]
      exact wp_markDummiesForDeletion_sameOutside _ _ L s hs
  · trivial

theorem wp_removeStateLocks_sameOutside :
    ∀ (l L : List Bytes) (s : ExecState D), SameOutside M₀ L s.state →
      wp (removeStateLocks (D := D) l) (fun _ s' => SameOutside M₀ (L ++ l) s'.state)
        (fun _ _ => True) s
  | [], L, s, hs => by rw [List.append_nil]; exact hs
  | u :: rest, L, s, hs => by
    rw [removeStateLocks, wp_bind]
    refine wp_mono (wp_applyActions_or_sameOutside [.removeStateLock u] _ _ hs)
      (fun _ s' hs' => ?_) (fun _ _ h => h)
    rw [List.append_cons]
    exact wp_removeStateLocks_sameOutside rest _ s' hs'

theorem wp_handleTxOnHold_sameOutside (hc : env.handlers.Confined) (tx : TxOrder A) :
    ∀ (o : Option (TxOrder A)) {L : List Bytes} {s : ExecState D}, SameOutside M₀ L s.state →
      wp (handleTxOnHold env tx o) (fun o' s' => SameOutside M₀ (L ++ optTargetUnits o') s'.state)
        (fun _ _ => True) s
  | none, L, s, hs => by simpa [handleTxOnHold, optTargetUnits] using hs
  | some txOnHold, L, s, hs => by
    rw [handleTxOnHold, wp_bind]
    refine wp_mono ((reads_ofExcept _).wp_sameOutside hs) (fun proof s₁ h₁ => ?_) (fun _ _ h => h)
    rw [wp_bind]
    refine wp_mono ((reads_withLatest _).wp_sameOutside h₁) (fun _ s₂ h₂ => ?_) (fun _ _ h => h)
    rw [wp_bind]
    refine wp_mono (wp_executeLockedTx_sameOutside env hc proof txOnHold h₂)
      (fun sm s₃ h₃ => ?_) (fun _ _ h => h)
    split
    · trivial
    · -- unlocking the target units of the order on hold touches no other unit
      rw [wp_bind]
      refine wp_mono (wp_removeStateLocks_sameOutside _ _ s₃ h₃) (fun _ s₄ h₄ => ?_)
        (fun _ _ h => h)
      rw [wp_pure]
      exact h₄.mono fun v hv => by simpa [optTargetUnits, or_assoc] using hv

theorem wp_handleUnlockUnitState_sameOutside (hc : env.handlers.Confined) (tx : TxOrder A)
    (unitID : Bytes) {L : List Bytes} {s : ExecState D} (hs : SameOutside M₀ L s.state) :
    wp (handleUnlockUnitState env tx unitID)
      (fun o s' => SameOutside M₀ (L ++ optTargetUnits o) s'.state) (fun _ _ => True) s := by
  rw [handleUnlockUnitState, wp_bind]
  exact wp_mono (((reads_parseTxOnHold env unitID).adaptExcept _).wp_sameOutside hs)
    (fun o _ h => wp_handleTxOnHold_sameOutside env hc tx o h) (fun _ _ h => h)

/-- The unlocks of the target units change only the units the metadata they build lists, and
that list has no duplicates. -/
theorem wp_unlockTargetUnits_sameOutside (hc : env.handlers.Confined) (tx : TxOrder A) :
    ∀ (l : List Bytes) (sm : ServerMetadata) (s : ExecState D),
      SameOutside M₀ sm.targetUnits s.state → sm.targetUnits.Nodup →
      wp (unlockTargetUnits env tx l sm)
        (fun sm' s' => SameOutside M₀ sm'.targetUnits s'.state ∧ sm'.targetUnits.Nodup)
        (fun _ _ => True) s
  | [], _, _, hs, hn => ⟨hs, hn⟩
  | u :: rest, sm, s, hs, hn => by
    rw [unlockTargetUnits, wp_bind, wp_adaptExcept]
    refine wp_mono (wp_handleUnlockUnitState_sameOutside env hc tx u hs) (fun o s' h => ?_)
      (fun _ _ h => h)
    refine wp_unlockTargetUnits_sameOutside hc tx rest _ s' (h.mono fun v hv => ?_)
      (nodup_targetUnits_appendServerMetadata hn o)
    exact mem_targetUnits_appendServerMetadata.mpr (List.mem_append.mp hv)

theorem wp_lockUnits_sameOutside (txBytes : Bytes) :
    ∀ (l L : List Bytes) (s : ExecState D), SameOutside M₀ L s.state →
      wp (lockUnits (D := D) txBytes l) (fun _ s' => SameOutside M₀ (L ++ l) s'.state)
        (fun _ _ => True) s
  | [], L, s, hs => by rw [List.append_nil]; exact hs
  | u :: rest, L, s, hs => by
    rw [lockUnits, wp_bind]
    refine wp_mono (wp_applyActions_or_sameOutside [.addDummyUnit u] isAlreadyExists _ hs)
      (fun _ s₁ h₁ => ?_) (fun _ _ h => h)
    rw [wp_bind, wp_adaptExcept]
    refine wp_mono (wp_applyActions_sameOutside [.setStateLock u (some txBytes)] h₁ fun _ => trivial)
      (fun _ s₂ h₂ => ?_) (fun _ _ h => h)
    -- the unit is named twice, by the dummy unit and by the lock
    refine wp_mono (wp_lockUnits_sameOutside txBytes rest _ s₂ h₂)
      (fun _ _ h₃ => h₃.mono fun v hv => ?_) (fun _ _ h => h)
    simp only [List.map_cons, List.map_nil, Action.unitID, List.mem_append, List.mem_cons,
      List.not_mem_nil, or_false] at hv ⊢
    tauto

theorem wp_executeLockUnitState_sameOutside (tx : TxOrder A) (txBytes : Bytes)
    (targetUnits : List Bytes) {L : List Bytes} {s : ExecState D} (hs : SameOutside M₀ L s.state) :
    wp (executeLockUnitState env tx txBytes targetUnits)
      (fun sm s' => SameOutside M₀ (L ++ sm.targetUnits) s'.state) (fun _ _ => True) s := by
  rw [executeLockUnitState, wp_bind]
  refine wp_mono ((reads_ofExcept _).wp_sameOutside hs) (fun _ s₁ h₁ => ?_) (fun _ _ h => h)
  rw [wp_bind]
  exact wp_mono (wp_lockUnits_sameOutside txBytes targetUnits L s₁ h₁) (fun _ _ h => h)
    (fun _ _ h => h)

/-- The body of `doExecute` changes only the units the metadata it returns lists, and that list
has no duplicates. -/
theorem wp_doExecuteBody_sameOutside (hc : env.handlers.Confined) (tx : TxOrder A) (txBytes : Bytes)
    (s : ExecState D) (hs : SameOutside M₀ [] s.state) :
    wp (doExecuteBody env tx txBytes)
      (fun sm s' => SameOutside M₀ sm.targetUnits s'.state ∧ sm.targetUnits.Nodup)
      (fun _ _ => True) s := by
  unfold doExecuteBody
  split
  · trivial
  rw [wp_bind]
  refine wp_mono (wp_unlockTargetUnits_sameOutside env hc tx _ .initial s hs List.nodup_nil)
    (fun sm s₁ h₁ => ?_) (fun _ _ h => h)
  rw [wp_bind, wp_adaptExcept]
  refine wp_mono ((reads_withLatest _).wp_sameOutside h₁.1) (fun _ s₂ h₂ => ?_) (fun _ _ h => h)
  -- the lock or the executor adds its own targets to those of the unlocks
  have hend : ∀ (sm' : ServerMetadata) (s₃ : ExecState D),
      SameOutside M₀ (sm.targetUnits ++ sm'.targetUnits) s₃.state →
      SameOutside M₀ (appendServerMetadata sm (some sm')).targetUnits s₃.state ∧
        (appendServerMetadata sm (some sm')).targetUnits.Nodup := fun sm' _ h =>
    ⟨h.mono fun _ hv => mem_targetUnits_appendServerMetadata.mpr (List.mem_append.mp hv),
      nodup_targetUnits_appendServerMetadata h₁.2 _⟩
  split
  · rw [wp_bind, wp_adaptExcept]
    exact wp_mono (wp_executeLockUnitState_sameOutside env tx txBytes _ h₂) hend (fun _ _ h => h)
  · rw [wp_bind, wp_adaptExcept]
    exact wp_mono (wp_runExecutor_sameOutside (fun _ _ _ _ h => hc.executeWithAttr tx _ _ h) h₂)
      hend (fun _ _ h => h)

end Steps

/-! ### What a successful order leaves -/

section Kept

variable (env : TxSystemEnv D A Attr Proof) {s₀ : AbsState Bytes D} {M₀ : UnitMap Bytes D}

/-- The deferred function of an order whose changes are kept, when it returns: the fee credit
record may be appended to the target units, the latest map the fee left differs from the one at
the savepoint only on them, and that map with the logs of the record, under its hash unless no
unit is listed, is put on the state the savepoint was taken on. -/
theorem wp_doExecuteDefer_targets (tx : TxOrder A) (txBytes : Bytes) (sm : ServerMetadata)
    (hne : s₀.savepoints ≠ []) {s : ExecState D} (hs : KeepsBelow (pushed s₀ M₀) s.state)
    (hsm : SameOutside M₀ sm.targetUnits s.state) :
    wp (doExecuteDefer env tx txBytes s₀.savepoints.length sm)
      (fun txr s' => (txr.serverMetadata.targetUnits = sm.targetUnits ∨
          txr.serverMetadata.targetUnits = sm.targetUnits ++ [tx.payload.feeCreditRecordID]) ∧
        ∃ Mx h, (∀ u ∉ txr.serverMetadata.targetUnits, Mx u = M₀ u) ∧
          (txr.serverMetadata.targetUnits ≠ [] → env.recordHash txr = .ok h) ∧
          s'.state = { s₀ with
            savepoints := SavepointStack.setTop (withLogs env h txr.serverMetadata.targetUnits Mx)
              s₀.savepoints })
      (fun _ _ => True) s := by
  simp only [doExecuteDefer, wp_bind, wp_calculateCost]
  split
  · -- the fee debited from the fee credit record, which joins the target units
    rw [wp_bind]
    refine wp_mono (wp_and (rollsBack_orRollback (frames_applyActions _) _ s hs)
        (wp_orRollback_true _ _ (wp_applyActions_sameOutside _ hsm fun _ => trivial)))
      (fun _ s₁ h₁ => ?_) (fun _ _ _ => trivial)
    rw [wp_bind, wp_pure]
    obtain ⟨Mx, hMx, hout⟩ := h₁.2
    refine wp_mono (wp_deferTail_kept env ⟨txBytes, _⟩ hne h₁.1) (fun txr s' h => ?_)
      (fun _ _ _ => trivial)
    obtain ⟨rfl, M, h, hM, hh, hst⟩ := h
    rw [hMx, Option.some.injEq] at hM
    subst hM
    exact ⟨.inr rfl, Mx, h, hout, hh, hst⟩
  · rw [wp_bind, wp_pure]
    obtain ⟨Mx, hMx, hout⟩ := hsm
    refine wp_mono (wp_deferTail_kept env ⟨txBytes, _⟩ hne hs) (fun txr s' h => ?_)
      (fun _ _ _ => trivial)
    obtain ⟨rfl, M, h, hM, hh, hst⟩ := h
    rw [hMx, Option.some.injEq] at hM
    subst hM
    exact ⟨.inl rfl, Mx, h, hout, hh, hst⟩

/-- The deferred function leaves the status of the metadata it is given. -/
theorem wp_doExecuteDefer_status (tx : TxOrder A) (txBytes : Bytes) (savepointID : Int)
    (sm : ServerMetadata) (s : ExecState D) :
    wp (doExecuteDefer env tx txBytes savepointID sm)
      (fun txr _ => txr.serverMetadata.successIndicator = sm.successIndicator) (fun _ _ => True) s := by
  simp only [doExecuteDefer, wp_bind, wp_calculateCost]
  -- every step returns, or fails; what it returns is the metadata with its status
  split <;> simp only [wp_bind, wp_pure]
  · refine wp_mono (wp_true _ s) (fun _ s₁ _ => ?_) (fun _ _ h => h)
    refine wp_mono (wp_true _ s₁) (fun _ s₂ _ => ?_) (fun _ _ h => h)
    exact wp_true _ s₂
  · refine wp_mono (wp_true _ s) (fun _ s₂ _ => ?_) (fun _ _ h => h)
    exact wp_true _ s₂

end Kept

section Orders

variable (env : TxSystemEnv D A Attr Proof)

/-- What a successful order leaves of a state `st`: its latest map is replaced by one that
differs from it only on the target units of the record. -/
def ChangedOnTargets (st : AbsState Bytes D) (txr : TransactionRecord) (st' : AbsState Bytes D) :
    Prop :=
  ∃ M M' : UnitMap Bytes D, st.savepoints.getLast? = some M ∧
    st' = { st with savepoints := SavepointStack.setTop M' st.savepoints } ∧
    ∀ u ∉ txr.serverMetadata.targetUnits, M' u = M u

/-- What a successful ordinary order leaves of a state `st`: its latest map `M` is replaced by
`M'`, the map `Mx` that the execution and the fee left with a log of the record added to each
target unit once for each time it is listed, under the hash of the record, which was computed
unless no unit is listed; `Mx` differs from `M` only on the target units, which are those the
body of `doExecute` built, without duplicates, and the fee credit record when a fee is paid. -/
def LoggedOnTargets (tx : TxOrder A) (st : AbsState Bytes D) (txr : TransactionRecord)
    (st' : AbsState Bytes D) : Prop :=
  ∃ (M Mx M' : UnitMap Bytes D) (h : Bytes), st.savepoints.getLast? = some M ∧
    st' = { st with savepoints := SavepointStack.setTop M' st.savepoints } ∧
    (∀ u ∉ txr.serverMetadata.targetUnits, Mx u = M u) ∧
    (txr.serverMetadata.targetUnits ≠ [] → env.recordHash txr = .ok h) ∧
    (∀ u, M' u = (Mx u).map (logged env h)^[txr.serverMetadata.targetUnits.count u]) ∧
    ∃ body : List Bytes, body.Nodup ∧ (txr.serverMetadata.targetUnits = body ∨
      txr.serverMetadata.targetUnits = body ++ [tx.payload.feeCreditRecordID])

/-- What a successful fee credit order leaves of a state `st`: its record lists the units of
the order it released from hold (`sm₀`) and then those of its executor (`sm`) not listed yet;
its latest map `M` is replaced by `M'`, the map `Mx` that the two left with a log of the record,
under its hash, added to each unit the executor lists, once for each time it lists it; `Mx`
differs from `M` only on the units of the record. -/
def FcLoggedOnTargets (st : AbsState Bytes D) (txr : TransactionRecord) (st' : AbsState Bytes D) :
    Prop :=
  ∃ (sm₀ : Option ServerMetadata) (sm : ServerMetadata) (M Mx M' : UnitMap Bytes D) (h : Bytes),
    txr.serverMetadata = appendServerMetadata (appendServerMetadata .initial sm₀) (some sm) ∧
    st.savepoints.getLast? = some M ∧
    st' = { st with savepoints := SavepointStack.setTop M' st.savepoints } ∧
    (∀ u ∉ txr.serverMetadata.targetUnits, Mx u = M u) ∧
    env.recordHash txr = .ok h ∧
    ∀ u, M' u = (Mx u).map (logged env h)^[sm.targetUnits.count u]

/-- A unit off the list gets no log. -/
theorem LoggedOnTargets.changedOnTargets {tx : TxOrder A} {st st' : AbsState Bytes D}
    {txr : TransactionRecord} (h : LoggedOnTargets env tx st txr st') :
    ChangedOnTargets st txr st' := by
  obtain ⟨M, Mx, M', hash, hM, hst, hout, -, hlogs, -⟩ := h
  refine ⟨M, M', hM, hst, fun u hu => ?_⟩
  rw [hlogs u, List.count_eq_zero_of_not_mem hu, Function.iterate_zero, Option.map_id, id_eq,
    hout u hu]

/-- A unit off the record is off the executor's list too, and gets no log. -/
theorem FcLoggedOnTargets.changedOnTargets {st st' : AbsState Bytes D} {txr : TransactionRecord}
    (h : FcLoggedOnTargets env st txr st') : ChangedOnTargets st txr st' := by
  obtain ⟨sm₀, sm, M, Mx, M', hash, hsm, hM, hst, hout, -, hlogs⟩ := h
  refine ⟨M, M', hM, hst, fun u hu => ?_⟩
  have hu' : u ∉ sm.targetUnits := fun hmem => hu (by
    rw [hsm, mem_targetUnits_appendServerMetadata]
    exact .inr hmem)
  rw [hlogs u, List.count_eq_zero_of_not_mem hu', Function.iterate_zero, Option.map_id, id_eq,
    hout u hu]

/-- The latest map of the state a savepoint is taken on is the one it pushes. -/
theorem sameOutside_pushed {st : AbsState Bytes D} {M : UnitMap Bytes D} :
    SameOutside M [] (pushed st M) :=
  ⟨M, by simp [pushed], fun _ _ => rfl⟩

/-- A successful ordinary order changes only its target units, and logs each of them once per
listing. -/
theorem wp_doExecute_successful (hc : env.handlers.Confined) (tx : TxOrder A) (s : ExecState D)
    (hne : s.state.savepoints ≠ []) :
    wp (doExecute env tx)
      (fun txr s' => txr.serverMetadata.successIndicator = .successful →
        LoggedOnTargets env tx s.state txr s'.state)
      (fun _ _ => True) s := by
  obtain ⟨M, hM⟩ := Option.isSome_iff_exists.mp (List.getLast?_isSome.mpr hne)
  cases hm : env.marshal tx with
  | error e => simp only [doExecute, hm, wp_bind, wp_ofExcept]
  | ok txBytes =>
    simp only [doExecute, hm, wp_bind, wp_ofExcept, wp_adaptExcept, wp_onState,
      wp_of_ok (savepoint_eq hM), wp_recordingError]
    refine wp_mono (wp_and ((frames_doExecuteBody env tx txBytes) _)
      (wp_doExecuteBody_sameOutside env hc tx txBytes _ sameOutside_pushed))
      (fun sm s' h => ?_) (fun e s' h => ?_)
    · -- the body returned: its changes are kept, with the fee and the logs
      refine wp_mono (wp_doExecuteDefer_targets env tx txBytes sm hne h.1 h.2.1)
        (fun txr s'' h' _ => ?_) (fun _ _ _ => trivial)
      obtain ⟨htu, Mx, hash, hout, hh, hst⟩ := h'
      exact ⟨M, Mx, _, hash, hM, hst, hout, hh, withLogs_apply env hash _ Mx, sm.targetUnits, h.2.2,
        htu⟩
    · -- `txExecErr`: the record has the failed status
      rw [wp_of_ok (rollback_pushed h.1)]
      exact wp_mono (wp_doExecuteDefer_status env tx txBytes _ _ _)
        (fun _ _ hst hsucc => by rw [hst] at hsucc; cases hsucc) (fun _ _ _ => trivial)

/-- A successful fee credit order changes only the target units of its record, and logs each
unit its executor lists once per listing. -/
theorem wp_executeFc_logged (hc : env.handlers.Confined) (tx : TxOrder A) (s : ExecState D)
    (hne : s.state.savepoints ≠ []) :
    wp (executeFc env tx) (fun txr s' => FcLoggedOnTargets env s.state txr s'.state)
      (fun _ _ => True) s := by
  obtain ⟨M, hM⟩ := Option.isSome_iff_exists.mp (List.getLast?_isSome.mpr hne)
  -- the failures leave the state; this is what lets the checks before the savepoint be passed
  refine wp_mono (E := fun _ s' => s'.state = s.state) ?_ (fun _ _ h => h) (fun _ _ _ => trivial)
  unfold executeFc
  split
  · rfl
  refine Reads.wp_bind ((reads_parseTxOnHold env _).adaptExcept _) rfl fun txOnHold s₁ h₁ => ?_
  split
  · exact h₁
  split
  · exact h₁
  refine Reads.wp_bind ((reads_withLatest _).adaptExcept _) h₁ fun _ s₂ h₂ => ?_
  refine Reads.wp_bind (reads_ofExcept _) h₂ fun txBytes s₃ h₃ => ?_
  rw [wp_bind, wp_adaptExcept, wp_onState, h₃, wp_of_ok (savepoint_eq hM)]
  -- under the savepoint: each step keeps it and changes only the units it lists
  rw [wp_bind]
  refine wp_mono (wp_and (rollsBack_orRollback (frames_handleTxOnHold env tx _) _ _
      (KeepsBelow.refl _)) (wp_orRollback_true _ _ (wp_handleTxOnHold_sameOutside env hc tx _
        sameOutside_pushed))) (fun sm₀ s₄ h₄ => ?_) (fun _ _ h => h.1)
  rw [wp_bind]
  refine wp_mono (wp_and (rollsBack_orRollback (frames_runExecutor _) _ s₄ h₄.1)
      (wp_orRollback_true _ _ (wp_runExecutor_sameOutside
        (fun _ _ _ _ h => hc.executeWithAttr tx _ _ h) h₄.2))) (fun sm s₅ h₅ => ?_)
    (fun _ _ h => h.1)
  -- the hash of the record, which the logs carry
  rw [wp_bind]
  refine wp_mono (wp_and (rollsBack_orRollback (Frames.of_reads (reads_ofExcept _)) _ s₅ h₅.1)
      (wp_and (wp_orRollback_true _ _ ((reads_ofExcept _).wp_sameOutside h₅.2))
        (wp_orRollback_true _ _ (wp_ofExcept_eq _ _)))) (fun trHash s₆ h₆ => ?_)
    (fun _ _ h => h.1)
  obtain ⟨h₆, ⟨Mx, hMx, hout⟩, hh⟩ := h₆
  rw [wp_bind]
  refine wp_mono (wp_and (rollsBack_addFcUnitLogs env _ _ s₆ h₆)
      (wp_addFcUnitLogs env _ _ _ s₆ Mx hMx)) (fun _ s₇ h₇ => ?_) (fun _ _ h => h.1)
  have hM' : s₇.state.savepoints.getLast? = some (withLogs env trHash sm.targetUnits Mx) := by
    rw [h₇.2]
    exact SavepointStack.getLast?_setTop _ _
  rw [wp_bind]
  refine wp_release_pushed hne h₇.1 hM' ?_
  rw [wp_pure]
  refine ⟨sm₀, sm, M, Mx, _, trHash, rfl, hM, rfl, fun u hu => hout u fun hmem => hu ?_, hh,
    withLogs_apply env trHash _ Mx⟩
  -- the units the order on hold and the executor list are all in the record
  simp only [List.nil_append, List.mem_append] at hmem
  rw [mem_targetUnits_appendServerMetadata, mem_targetUnits_appendServerMetadata]
  rcases hmem with h | h
  · exact .inl (.inr h)
  · exact .inr h

/-- The steps of `Execute` after the generic validation, when they return a successful record,
changed only its target units; an ordinary order logged each of them once per listing, and a
fee credit order each unit its executor lists once per listing. -/
theorem wp_executeInContext_successful (hc : env.handlers.Confined) (tx : TxOrder A)
    (s : ExecState D) (hne : s.state.savepoints ≠ []) :
    wp (executeInContext env tx)
      (fun txr s' => txr.serverMetadata.successIndicator = .successful →
        ChangedOnTargets s.state txr s'.state ∧
        (env.isFeeCreditTx tx = false → LoggedOnTargets env tx s.state txr s'.state) ∧
        (env.isFeeCreditTx tx = true → FcLoggedOnTargets env s.state txr s'.state))
      (fun _ _ => True) s := by
  unfold executeInContext
  rw [wp_bind]
  refine wp_mono (((reads_onCtx _).adaptExcept _) s) (fun _ s₁ h₁ => ?_) (fun _ _ _ => trivial)
  split
  · -- a fee credit order
    rename_i hfc
    rw [wp_adaptExcept]
    refine wp_mono (wp_executeFc_logged env hc tx s₁ (h₁ ▸ hne)) (fun txr s' h _ => ?_)
      (fun _ _ _ => trivial)
    rw [h₁] at h
    exact ⟨h.changedOnTargets env, fun hf => absurd hfc (by rw [hf]; decide), fun _ => h⟩
  · rename_i hfc
    rw [wp_bind]
    refine wp_mono (((reads_withLatest _).adaptExcept _) s₁) (fun _ s₂ h₂ => ?_)
      (fun _ _ _ => trivial)
    rw [wp_adaptExcept]
    refine wp_mono (wp_doExecute_successful env hc tx s₂ (h₂.trans h₁ ▸ hne))
      (fun txr s' h hsucc => ?_) (fun _ _ _ => trivial)
    have hl := h hsucc
    rw [h₂, h₁] at hl
    exact ⟨hl.changedOnTargets env, fun _ => hl, fun ht => absurd ht hfc⟩

theorem wp_process_successful (hc : env.handlers.Confined) (currentRound : UInt64)
    (tx : TxOrder A) (st : AbsState Bytes D) (hne : st.savepoints ≠ []) :
    wp (process env currentRound tx)
      (fun txr st' => txr.serverMetadata.successIndicator = .successful →
        ChangedOnTargets st txr st' ∧
        (env.isFeeCreditTx tx = false → LoggedOnTargets env tx st txr st') ∧
        (env.isFeeCreditTx tx = true → FcLoggedOnTargets env st txr st'))
      (fun _ _ => True) st := by
  have hw := wp_executeInContext_successful env hc tx
    ⟨st, TxExecutionContext.new currentRound env.fees tx.payload.maxFee⟩ hne
  unfold wp process at *
  revert hw
  cases executeInContext env tx _ <;> exact id

end Orders

/-! ### `Execute` -/

section Execute

variable {I U Q : Type} [DecidableEq I] (env : TxSystemEnv D A Attr Proof)
  (hooks : Hooks Bytes (Payload A) (AbsState Bytes D) I TransactionRecord U Q TxError)

/-- `Execute` on the transaction system of the modules: a failure leaves the state as it was,
or the fee of a failed order debited when its record cannot be hashed, and the buffer as it
was; a record with the failed status charged the fee and nothing else; a successful record
changed only its target units and logged them: for an ordinary order each listed unit once for
each time it is listed, for a fee credit order each unit its executor lists. -/
theorem execute_all_or_nothing (hproc : hooks.process = process env) (hc : env.handlers.Confined)
    (tx : TxOrder A) (m : GenericTxSystem Bytes (AbsState Bytes D) I TxError)
    (hne : m.state.savepoints ≠ []) :
    (∀ e m', execute hooks tx m = .error e m' →
      (m'.state = m.state ∨ DebitedUnlogged env tx m.state m'.state) ∧
      m'.etBuffer = m.etBuffer) ∧
    ∀ tr m', execute hooks tx m = .ok tr m' →
      (tr.serverMetadata.successIndicator = .failed → ChargedOnly env tx m.state tr m'.state) ∧
      (tr.serverMetadata.successIndicator = .successful →
        ChangedOnTargets m.state tr m'.state ∧
        (env.isFeeCreditTx tx = false → LoggedOnTargets env tx m.state tr m'.state) ∧
        (env.isFeeCreditTx tx = true → FcLoggedOnTargets env m.state tr m'.state)) := by
  have hw := wp_and (wp_process env m.currentRoundNumber tx m.state hne)
    (wp_process_successful env hc m.currentRoundNumber tx m.state hne)
  rw [← hproc] at hw
  refine ⟨fun e m' h => ⟨?_, (execute_eq_error hooks h).1⟩, fun tr m' h => ?_⟩
  · -- the generic checks change nothing; a failure of the rest leaves the state or the fee
    unfold execute at h
    split at h
    · cases h; exact .inl rfl
    split at h
    · cases h; exact .inl rfl
    split at h
    · cases h; exact .inl rfl
    split at h
    · cases h
    · rename_i e' s' hp
      cases h
      rw [wp_of_error hp] at hw
      exact hw.1
  · unfold execute at h
    split at h
    · cases h
    split at h
    · cases h
    split at h
    · cases h
    split at h
    · rename_i tr' s' hp
      cases h
      rw [wp_of_ok hp] at hw
      exact hw
    · cases h

end Execute

end BftCore.Txsystem
