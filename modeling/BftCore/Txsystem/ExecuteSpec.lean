import BftCore.Txsystem.ExecuteFrame

/-!
# `txsystem`: what `Execute` does to the state when it fails

The rules that push `wp` through the steps of an execution, and with them what `process`, the
part of `Execute` after the generic validation, leaves:

* `wp_process`: a failed `Execute` leaves the state as it was, or, on the one exit below, the
  fee of a failed order debited (`DebitedUnlogged`);
* the same theorem: a record with the failed status leaves the state as it was but for the fee
  of the order, debited from its fee credit record, and one log on that record (`ChargedOnly`).

The exit that keeps a change is the recording error of a failed order: the order is rolled
back before the deferred function of `doExecute` debits its fee, which removes the savepoint;
when hashing the record then fails, the rollback goes to a savepoint that is gone, which does
nothing, and `Execute` fails with the fee debited and no log added.
-/

namespace BftCore.Txsystem

open BftCore.State EStateM
open BftCore.State.AbsState (KeepsBelow pushed rollback_pushed release_pushed savepoint_eq)

variable {D A Attr Proof α β : Type}

/-! ### `wp` through the steps -/

section Rules

@[simp] theorem wp_ofExcept (x : Except TxError α) (Q : α → ExecState D → Prop)
    (E : TxError → ExecState D → Prop) (s : ExecState D) :
    wp (ofExcept x) Q E s = match x with
      | .ok a => Q a s
      | .error e => E e s := by
  cases x <;> rfl

/-- `ofExcept x` returns only the value of `x`. -/
theorem wp_ofExcept_eq (x : Except TxError α) (s : ExecState D) :
    wp (ofExcept x) (fun a _ => x = .ok a) (fun _ _ => True) s := by
  cases x <;> simp

@[simp] theorem wp_calculateCost (Q : UInt64 → ExecState D → Prop)
    (E : TxError → ExecState D → Prop) (s : ExecState D) :
    wp calculateCost Q E s = Q s.exeCtx.calculateCost s := rfl

@[simp] theorem wp_currentRoundNumber (Q : UInt64 → ExecState D → Prop)
    (E : TxError → ExecState D → Prop) (s : ExecState D) :
    wp currentRoundNumber Q E s = Q s.exeCtx.currentRound s := rfl

@[simp] theorem wp_onState (x : AbsM Bytes D String α) (Q : α → ExecState D → Prop)
    (E : TxError → ExecState D → Prop) (s : ExecState D) :
    wp (onState x) Q E s =
      wp x (fun a st => Q a { s with state := st }) (fun e st => E e { s with state := st })
        s.state := by
  unfold wp onState
  cases x s.state <;> rfl

@[simp] theorem wp_onCtx (x : EStateM TxError TxExecutionContext α) (Q : α → ExecState D → Prop)
    (E : TxError → ExecState D → Prop) (s : ExecState D) :
    wp (onCtx x) Q E s =
      wp x (fun a ec => Q a { s with exeCtx := ec }) (fun e ec => E e { s with exeCtx := ec })
        s.exeCtx := by
  unfold wp onCtx
  cases x s.exeCtx <;> rfl

@[simp] theorem wp_adaptExcept (f : TxError → TxError) (x : TxM D α) (Q : α → ExecState D → Prop)
    (E : TxError → ExecState D → Prop) (s : ExecState D) :
    wp (EStateM.adaptExcept f x) Q E s = wp x Q (fun e s' => E (f e) s') s := by
  unfold wp EStateM.adaptExcept
  cases x s <;> rfl

@[simp] theorem wp_orRollback (savepointID : Int) (context : String) (x : TxM D α)
    (Q : α → ExecState D → Prop) (E : TxError → ExecState D → Prop) (s : ExecState D) :
    wp (orRollback savepointID context x) Q E s =
      wp x Q (fun e s' => wp (onState (AbsState.rollbackToSavepoint savepointID))
        (fun _ s'' => E (e.wrap context) s'') (fun e' s'' => E e' s'') s') s := by
  unfold wp orRollback
  cases x s with
  | ok a s' => rfl
  | error e s' =>
    dsimp only
    cases onState (AbsState.rollbackToSavepoint savepointID) s' <;> rfl

@[simp] theorem wp_recordingError (x : TxM D α) (k : α → TxM D β) (handler : TxError → TxM D β)
    (Q : β → ExecState D → Prop) (E : TxError → ExecState D → Prop) (s : ExecState D) :
    wp (recordingError x k handler) Q E s =
      wp x (fun a s' => wp (k a) Q E s') (fun e s' => wp (handler e) Q E s') s := by
  unfold wp recordingError
  cases x s <;> rfl

@[simp] theorem wp_change (f : UnitMap Bytes D → Except TxError (UnitMap Bytes D))
    (Q : PUnit → AbsState Bytes D → Prop) (E : TxError → AbsState Bytes D → Prop)
    (st : AbsState Bytes D) :
    wp (AbsState.change f) Q E st = match st.savepoints.getLast? with
      | none => E .panic st
      | some M => match f M with
        | .ok M' => Q () { st with savepoints := SavepointStack.setTop M' st.savepoints }
        | .error e => E e st := by
  unfold wp AbsState.change
  cases st.savepoints.getLast? with
  | none => rfl
  | some M =>
    dsimp only
    cases f M <;> rfl

@[simp] theorem wp_rollbackToSavepoint (id : Int) (Q : PUnit → AbsState Bytes D → Prop)
    (E : TxError → AbsState Bytes D → Prop) (st : AbsState Bytes D) :
    wp (AbsState.rollbackToSavepoint id) Q E st = match SavepointStack.rollback id st.savepoints with
      | none => E .panic st
      | some l => Q () { st with savepoints := l } := by
  unfold wp AbsState.rollbackToSavepoint
  cases SavepointStack.rollback id st.savepoints <;> rfl

@[simp] theorem wp_releaseToSavepoint (id : Int) (Q : PUnit → AbsState Bytes D → Prop)
    (E : TxError → AbsState Bytes D → Prop) (st : AbsState Bytes D) :
    wp (AbsState.releaseToSavepoint id) Q E st = match SavepointStack.release id st.savepoints with
      | none => E .panic st
      | some l => Q () { st with savepoints := l } := by
  unfold wp AbsState.releaseToSavepoint
  cases SavepointStack.release id st.savepoints <;> rfl

end Rules

/-! ### The savepoint stack at its height -/

/-- Rolling back to the height of the stack keeps it. -/
theorem rollback_length {γ : Type} {l : List γ} {n : Nat} (hn : l.length = n) :
    SavepointStack.rollback n l = some l := by
  rw [SavepointStack.rollback_natCast (Nat.le_of_eq hn.symm), ← hn, List.take_length]

/-- Releasing at the height of a stack keeps it. -/
theorem release_length {γ : Type} {l : List γ} {n : Nat} (hn : l.length = n) (hne : l ≠ []) :
    SavepointStack.release n l = some l := by
  subst hn
  obtain ⟨a, ha⟩ := Option.isSome_iff_exists.mp (List.getLast?_isSome.mpr hne)
  have hpos := List.length_pos_of_ne_nil hne
  have hset : l.set (l.length - 1) a = l := by
    have hlt : l.length - 1 < l.length := by omega
    have hget : l[l.length - 1] = a := by
      rw [List.getLast?_eq_getElem?, List.getElem?_eq_getElem hlt, Option.some.injEq] at ha
      exact ha
    rw [← hget, List.set_getElem_self]
  rw [SavepointStack.release_natCast ha hpos (Nat.le_refl _), hset, List.take_length]

section Env

variable (env : TxSystemEnv D A Attr Proof)

/-! ### The fee debit -/

/-- The unit of a fee credit record with `fee` debited from its balance. -/
def debitedUnit (w : UnitView D) (fcr : FeeCreditRecord) (fee : UInt64) : UnitView D :=
  { w with data := some (env.ofFeeCreditRecord { fcr with balance := fcr.balance - fee }) }

/-- `DecrCredit` succeeds on a fee credit record whose balance covers the fee, and debits it. -/
theorem applyAll_decrCreditAction_eq_ok {M M₁ : UnitMap Bytes D} {id : Bytes} {fee : UInt64}
    (h : Action.applyAll [decrCreditAction env id fee] M = .ok M₁) :
    ∃ w fcr, M id = some w ∧ w.data.bind env.toFeeCreditRecord = some fcr ∧ fee ≤ fcr.balance ∧
      M₁ = Function.update M id (some (debitedUnit env w fcr fee)) := by
  rcases hx : (decrCreditAction env id fee).apply M with e | M'
  · rw [Action.applyAll_cons_of_error hx] at h
    cases h
  rw [Action.applyAll_cons_of_ok hx] at h
  cases h
  simp only [decrCreditAction, Action.apply] at hx
  cases hw : M id with
  | none => simp [hw] at hx
  | some w =>
    cases hfcr : w.data.bind env.toFeeCreditRecord with
    | none => simp [hw, hfcr] at hx
    | some fcr =>
      by_cases hle : fee ≤ fcr.balance
      · simp only [hw, hfcr, decrCredit_eq_ok hle, Except.ok.injEq] at hx
        exact ⟨w, fcr, rfl, hfcr, hle, hx.symm⟩
      · have hlt : fcr.balance < fee := UInt64.not_le.mp hle
        simp [hw, hfcr, decrCredit, safeSub, hlt] at hx

/-- The latest map `M` with `fee` debited from the unit `w` of the fee credit record `fcrID` and
a log with the record hash `h` added on it. -/
def chargedMap (M : UnitMap Bytes D) (fcrID : Bytes) (w : UnitView D) (fcr : FeeCreditRecord)
    (fee : UInt64) (h : Bytes) : UnitMap Bytes D :=
  Function.update M fcrID
    (some ((debitedUnit env w fcr fee).addUnitLog (fun (_ : Unit) => env.logHash) () (some h)))

/-- What a failed order leaves of a state `st`: with no fee nothing; with a fee, the fee
debited from the order's fee credit record and one log, of the record, added on it. -/
def ChargedOnly (tx : TxOrder A) (st : AbsState Bytes D) (txr : TransactionRecord)
    (st' : AbsState Bytes D) : Prop :=
  let fee := txr.serverMetadata.actualFee
  let fcrID := tx.payload.feeCreditRecordID
  txr.serverMetadata.successIndicator = .failed ∧
  ((fee = 0 ∧ txr.serverMetadata.targetUnits = [] ∧ st' = st) ∨
   (0 < fee ∧ txr.serverMetadata.targetUnits = [fcrID] ∧
    ∃ M w fcr h, st.savepoints.getLast? = some M ∧ M fcrID = some w ∧
      w.data.bind env.toFeeCreditRecord = some fcr ∧ fee ≤ fcr.balance ∧
      env.recordHash txr = .ok h ∧
      st' = { st with
        savepoints := SavepointStack.setTop (chargedMap env M fcrID w fcr fee h) st.savepoints }))

/-- What the recording-error exit of a failed order leaves of a state `st`: the fee of the
order, debited from its fee credit record, and no log, for the hash of the record failed. -/
def DebitedUnlogged (tx : TxOrder A) (st st' : AbsState Bytes D) : Prop :=
  let fcrID := tx.payload.feeCreditRecordID
  ∃ txr e M w fcr, txr.serverMetadata.successIndicator = .failed ∧
    0 < txr.serverMetadata.actualFee ∧ txr.serverMetadata.targetUnits = [fcrID] ∧
    env.recordHash txr = .error e ∧
    st.savepoints.getLast? = some M ∧ M fcrID = some w ∧
    w.data.bind env.toFeeCreditRecord = some fcr ∧ txr.serverMetadata.actualFee ≤ fcr.balance ∧
    st' = { st with
      savepoints := SavepointStack.setTop
        (Function.update M fcrID (some (debitedUnit env w fcr txr.serverMetadata.actualFee)))
        st.savepoints }

/-- The deferred function of a failed order, run once the order is rolled back: it charges the
fee; it fails with the state as it was when the fee cannot be debited, and with the fee debited
when the record cannot be hashed. -/
theorem wp_doExecuteDefer_rolledBack (tx : TxOrder A) (txBytes : Bytes) (s : ExecState D)
    (hne : s.state.savepoints ≠ []) :
    wp (doExecuteDefer env tx txBytes s.state.savepoints.length ServerMetadata.initial.setError)
      (fun txr s' => ChargedOnly env tx s.state txr s'.state)
      (fun _ s' => s'.state = s.state ∨ DebitedUnlogged env tx s.state s'.state) s := by
  obtain ⟨M, hM⟩ := Option.isSome_iff_exists.mp (List.getLast?_isSome.mpr hne)
  have hlen : ∀ a, (SavepointStack.setTop a s.state.savepoints).length = s.state.savepoints.length :=
    fun a => SavepointStack.length_setTop a hne
  have hsetne : ∀ a, SavepointStack.setTop a s.state.savepoints ≠ [] := fun a h0 => by
    simp [SavepointStack.setTop] at h0
  simp only [doExecuteDefer, wp_bind, wp_calculateCost]
  by_cases hfee : 0 < s.exeCtx.calculateCost
  · simp only [hfee, if_true, wp_bind, wp_orRollback, applyActions, wp_onState, wp_change, hM]
    cases happ : Action.applyAll [decrCreditAction env tx.payload.feeCreditRecordID
        s.exeCtx.calculateCost] M with
    | error e =>
      -- the debit failed and changed nothing; the rollback to the gone savepoint does nothing
      simp only [wp_rollbackToSavepoint, rollback_length rfl, true_or]
    | ok M₁ =>
      obtain ⟨w, fcr, hw, hfcr, hle, rfl⟩ := applyAll_decrCreditAction_eq_ok env happ
      let txr : TransactionRecord := ⟨txBytes, ⟨s.exeCtx.calculateCost,
        [tx.payload.feeCreditRecordID], .failed⟩⟩
      have hM₁ : (Function.update M tx.payload.feeCreditRecordID
          (some (debitedUnit env w fcr s.exeCtx.calculateCost))) tx.payload.feeCreditRecordID =
          some (debitedUnit env w fcr s.exeCtx.calculateCost) := Function.update_self ..
      simp only [wp_pure, ServerMetadata.setError, ServerMetadata.initial, List.nil_append,
        addUnitLogs, wp_bind, wp_orRollback, wp_ofExcept]
      cases hh : env.recordHash txr with
      | error e =>
        -- the recording error: the rollback to the gone savepoint keeps the debit
        simp only [wp_onState, wp_rollbackToSavepoint, rollback_length (hlen _)]
        exact .inr ⟨txr, e, M, w, fcr, rfl, hfee, rfl, hh, hM, hw, hfcr, hle, rfl⟩
      | ok h =>
        simp only [addUnitLog, wp_onState, wp_change, SavepointStack.getLast?_setTop,
          UnitMap.addUnitLog, hM₁, wp_releaseToSavepoint, SavepointStack.setTop_setTop,
          release_length (hlen _) (hsetne _), Function.update_idem]
        exact ⟨rfl, .inr ⟨hfee, rfl, M, w, fcr, h, hM, hw, hfcr, hle, hh, rfl⟩⟩
  · -- no fee: no debit and no log
    have hzero : s.exeCtx.calculateCost = 0 := by
      rw [UInt64.lt_iff_toNat_lt, UInt64.toNat_zero] at hfee
      exact UInt64.toNat_inj.mp (by rw [UInt64.toNat_zero]; omega)
    simp only [hfee, if_false, wp_pure, ServerMetadata.setError, ServerMetadata.initial,
      addUnitLogs, wp_bind, wp_onState, wp_releaseToSavepoint, release_length rfl hne]
    exact ⟨rfl, .inl ⟨hzero, rfl, rfl⟩⟩

/-! ### Under the savepoint -/

section Kept

open BftCore.Txsystem (RollsBack rollsBack_orRollback)

variable {s₀ : AbsState Bytes D} {M₀ : UnitMap Bytes D}

theorem rollsBack_addUnitLogs (txr : TransactionRecord) :
    ∀ l, RollsBack s₀ M₀ (addUnitLogs env txr s₀.savepoints.length l)
  | [] => RollsBack.pure ()
  | u :: rest =>
    RollsBack.bind (rollsBack_orRollback (Frames.of_reads (reads_ofExcept _)) _) fun h =>
      RollsBack.bind (rollsBack_orRollback (frames_addUnitLog env u h) _) fun _ =>
        rollsBack_addUnitLogs txr rest

theorem rollsBack_addFcUnitLogs (trHash : Bytes) :
    ∀ l, RollsBack s₀ M₀ (addFcUnitLogs env s₀.savepoints.length trHash l)
  | [] => RollsBack.pure ()
  | u :: rest =>
    RollsBack.bind (rollsBack_orRollback (frames_addUnitLog env u trHash) _) fun _ =>
      rollsBack_addFcUnitLogs trHash rest

/-- Releasing the savepoint, which is still below the latest map, cannot fail: it puts the
latest map on the state the savepoint was taken on. -/
theorem wp_release_pushed (hne : s₀.savepoints ≠ []) {s : ExecState D}
    (hs : KeepsBelow (pushed s₀ M₀) s.state) {M' : UnitMap Bytes D}
    (hM' : s.state.savepoints.getLast? = some M') {Q : PUnit → ExecState D → Prop}
    {E : TxError → ExecState D → Prop}
    (hQ : Q () { s with state := { s₀ with savepoints := SavepointStack.setTop M' s₀.savepoints } }) :
    wp (onState (AbsState.releaseToSavepoint s₀.savepoints.length)) Q E s := by
  rw [wp_onState, wp_of_ok (release_pushed hne hs hM')]
  exact hQ

/-- A step that rolls back on failure, seen on its runs that return. -/
theorem wp_orRollback_true {x : TxM D α} {Q : α → ExecState D → Prop} {s : ExecState D}
    (savepointID : Int) (context : String) (h : wp x Q (fun _ _ => True) s) :
    wp (orRollback savepointID context x) Q (fun _ _ => True) s := by
  rw [wp_orRollback]
  exact wp_mono h (fun _ _ h => h) (fun _ s' _ => wp_true _ s')

/-- A log of the record hash `h` added to a unit. -/
def logged (h : Bytes) (w : UnitView D) : UnitView D :=
  w.addUnitLog (fun (_ : Unit) => env.logHash) () (some h)

/-- The latest map with a log of the record hash `h` added to each unit of `l` in turn, as the
loop of the deferred function adds them. -/
def withLogs (h : Bytes) : List Bytes → UnitMap Bytes D → UnitMap Bytes D
  | [], M => M
  | u :: rest, M => withLogs h rest (Function.update M u ((M u).map (logged env h)))

/-- A unit gets one log for each time the list names it. -/
theorem withLogs_apply (h : Bytes) :
    ∀ (l : List Bytes) (M : UnitMap Bytes D) (u : Bytes),
      withLogs env h l M u = (M u).map (logged env h)^[l.count u]
  | [], M, u => by simp [withLogs]
  | v :: rest, M, u => by
    rw [withLogs, withLogs_apply h rest, List.count_cons]
    by_cases huv : u = v
    · subst huv
      rw [Function.update_self, Option.map_map, ← Function.iterate_succ]
      simp
    · rw [Function.update_of_ne huv]
      simp [Ne.symm huv]

/-- One log of the record hash `h` added under `orRollback`, when it returns: the latest map
`M` gets the log on the unit. -/
theorem wp_orRollback_addUnitLog (savepointID : Int) (context : String) (u h : Bytes)
    {s : ExecState D} {M : UnitMap Bytes D} (hM : s.state.savepoints.getLast? = some M) :
    wp (orRollback savepointID context (addUnitLog env u h))
      (fun _ s' => s'.state = { s.state with
        savepoints := SavepointStack.setTop (Function.update M u ((M u).map (logged env h)))
          s.state.savepoints })
      (fun _ _ => True) s := by
  refine wp_orRollback_true _ _ ?_
  simp only [addUnitLog, wp_onState, wp_change, hM, UnitMap.addUnitLog]
  cases M u with
  | none => trivial
  | some w => rfl

/-- The loop of the deferred function, when it returns, has added one log of the record to each
listed unit, under a hash of the record, which it computed unless the list is empty. -/
theorem wp_addUnitLogs (txr : TransactionRecord) (savepointID : Int) :
    ∀ (l : List Bytes) (s : ExecState D) (M : UnitMap Bytes D),
      s.state.savepoints.getLast? = some M →
      wp (addUnitLogs env txr savepointID l)
        (fun _ s' => ∃ h, (l ≠ [] → env.recordHash txr = .ok h) ∧ s'.state = { s.state with
          savepoints := SavepointStack.setTop (withLogs env h l M) s.state.savepoints })
        (fun _ _ => True) s
  | [], s, M, hM => ⟨[], fun h => absurd rfl h, by rw [withLogs, SavepointStack.setTop_getLast? hM]⟩
  | u :: rest, s, M, hM => by
    rw [addUnitLogs, wp_bind]
    refine wp_orRollback_true _ _ ?_
    cases hr : env.recordHash txr with
    | error e => simp only [wp_ofExcept]
    | ok h₀ =>
      simp only [wp_ofExcept, wp_bind]
      refine wp_mono (wp_orRollback_addUnitLog env _ _ u h₀ hM) (fun _ s₁ hs₁ => ?_)
        (fun _ _ h => h)
      -- the rest of the loop runs on the map with the log added to `u`, and hashes the record again
      have hM₁ : s₁.state.savepoints.getLast? =
          some (Function.update M u ((M u).map (logged env h₀))) := by
        rw [hs₁]
        exact SavepointStack.getLast?_setTop _ _
      refine wp_mono (wp_addUnitLogs txr savepointID rest s₁ _ hM₁) (fun _ s' hs' => ?_)
        (fun _ _ h => h)
      obtain ⟨h, hh, hst⟩ := hs'
      have hlogs : withLogs env h rest (Function.update M u ((M u).map (logged env h₀))) =
          withLogs env h₀ rest (Function.update M u ((M u).map (logged env h₀))) := by
        by_cases hnil : rest = []
        · subst hnil
          rfl
        · rw [hr, Except.ok.injEq] at hh
          rw [hh hnil]
      refine ⟨h₀, fun _ => rfl, ?_⟩
      rw [hst, hlogs, hs₁, SavepointStack.setTop_setTop]
      rfl

/-- The loop of `executeFc`, when it returns, has added one log of its record hash to each
listed unit. -/
theorem wp_addFcUnitLogs (savepointID : Int) (trHash : Bytes) :
    ∀ (l : List Bytes) (s : ExecState D) (M : UnitMap Bytes D),
      s.state.savepoints.getLast? = some M →
      wp (addFcUnitLogs env savepointID trHash l)
        (fun _ s' => s'.state = { s.state with
          savepoints := SavepointStack.setTop (withLogs env trHash l M) s.state.savepoints })
        (fun _ _ => True) s
  | [], s, M, hM => by rw [withLogs, SavepointStack.setTop_getLast? hM]; rfl
  | u :: rest, s, M, hM => by
    rw [addFcUnitLogs, wp_bind]
    refine wp_mono (wp_orRollback_addUnitLog env _ _ u trHash hM) (fun _ s₁ hs₁ => ?_)
      (fun _ _ h => h)
    have hM₁ : s₁.state.savepoints.getLast? =
        some (Function.update M u ((M u).map (logged env trHash))) := by
      rw [hs₁]
      exact SavepointStack.getLast?_setTop _ _
    refine wp_mono (wp_addFcUnitLogs savepointID trHash rest s₁ _ hM₁) (fun _ s' hs' => ?_)
      (fun _ _ h => h)
    rw [hs', hs₁, SavepointStack.setTop_setTop]
    rfl

/-- The logs and the release that end the deferred function of an order whose changes are
kept: the latest map with the logs is put on the state the savepoint was taken on, or a failure
restores that state. -/
theorem wp_deferTail_kept (txr : TransactionRecord) (hne : s₀.savepoints ≠ []) {s : ExecState D}
    (hs : KeepsBelow (pushed s₀ M₀) s.state) :
    wp (do addUnitLogs env txr s₀.savepoints.length txr.serverMetadata.targetUnits
           onState (AbsState.releaseToSavepoint s₀.savepoints.length)
           pure txr)
      (fun txr' s' => txr' = txr ∧ ∃ M h, s.state.savepoints.getLast? = some M ∧
        (txr.serverMetadata.targetUnits ≠ [] → env.recordHash txr = .ok h) ∧
        s'.state = { s₀ with
          savepoints := SavepointStack.setTop (withLogs env h txr.serverMetadata.targetUnits M)
            s₀.savepoints })
      (fun _ s' => s'.state = s₀) s := by
  obtain ⟨M, hM⟩ := Option.isSome_iff_exists.mp
    (List.getLast?_isSome.mpr (hs.ne_nil (by simp [pushed])))
  rw [wp_bind]
  refine wp_mono (wp_and (rollsBack_addUnitLogs env txr _ s hs) (wp_addUnitLogs env txr _ _ s M hM))
    (fun _ s₁ h₁ => ?_) (fun _ _ h => h.1)
  obtain ⟨hk, h, hh, hs₁⟩ := h₁
  have hl : s₁.state.savepoints.getLast? =
      some (withLogs env h txr.serverMetadata.targetUnits M) := by
    rw [hs₁]
    exact SavepointStack.getLast?_setTop _ _
  rw [wp_bind]
  exact wp_release_pushed hne hk hl ⟨rfl, M, h, hM, hh, rfl⟩

/-- The deferred function of an order whose changes are kept: a failure rolls back to the
savepoint, which restores the state it was taken on; the record keeps the status of the order. -/
theorem wp_doExecuteDefer_kept (tx : TxOrder A) (txBytes : Bytes) (sm : ServerMetadata)
    (hne : s₀.savepoints ≠ []) {s : ExecState D} (hs : KeepsBelow (pushed s₀ M₀) s.state) :
    wp (doExecuteDefer env tx txBytes s₀.savepoints.length sm)
      (fun txr _ => txr.serverMetadata.successIndicator = sm.successIndicator)
      (fun _ s' => s'.state = s₀) s := by
  simp only [doExecuteDefer, wp_bind, wp_calculateCost]
  split
  · rw [wp_bind]
    refine wp_mono (rollsBack_orRollback (frames_applyActions _) _ s hs) (fun _ s' hs' => ?_)
      (fun _ _ h => h)
    rw [wp_bind, wp_pure]
    exact wp_mono (wp_deferTail_kept env ⟨txBytes, _⟩ hne hs') (fun _ _ h => h.1 ▸ rfl)
      (fun _ _ h => h)
  · rw [wp_bind, wp_pure]
    exact wp_mono (wp_deferTail_kept env ⟨txBytes, _⟩ hne hs) (fun _ _ h => h.1 ▸ rfl)
      (fun _ _ h => h)

/-! ### The status of the order -/

@[simp] theorem appendServerMetadata_successIndicator (sm : ServerMetadata)
    (smNew : Option ServerMetadata) :
    (appendServerMetadata sm smNew).successIndicator = sm.successIndicator := by
  cases smNew <;> rfl

/-- The unlocks of the target units keep the status of the metadata they add to. -/
theorem wp_unlockTargetUnits_status (tx : TxOrder A) :
    ∀ l sm s, wp (unlockTargetUnits env tx l sm)
      (fun sm' _ => sm'.successIndicator = sm.successIndicator) (fun _ _ => True) s
  | [], _, _ => rfl
  | _ :: rest, sm, s => by
    rw [unlockTargetUnits, wp_bind]
    refine wp_mono (wp_true _ s) (fun sm' s' _ => ?_) (fun _ _ h => h)
    simpa only [appendServerMetadata_successIndicator] using
      wp_unlockTargetUnits_status tx rest (appendServerMetadata sm sm') s'

/-- The body of `doExecute` builds metadata with the successful status. -/
theorem wp_doExecuteBody_status (tx : TxOrder A) (txBytes : Bytes) (s : ExecState D) :
    wp (doExecuteBody env tx txBytes) (fun sm _ => sm.successIndicator = .successful)
      (fun _ _ => True) s := by
  unfold doExecuteBody
  split
  · trivial
  · rw [wp_bind]
    refine wp_mono (wp_unlockTargetUnits_status env tx _ _ s) (fun sm s' hsm => ?_)
      (fun _ _ h => h)
    rw [wp_bind]
    refine wp_mono (wp_true _ s') (fun _ s'' _ => ?_) (fun _ _ h => h)
    -- both branches append to `sm`, whose status is the initial one
    split <;>
    · rw [wp_bind]
      exact wp_mono (wp_true _ s'') (fun _ _ _ => hsm) (fun _ _ h => h)

end Kept

/-! ### `doExecute` -/

/-- `doExecute` fails with the state it started from, or with the fee of a failed order
debited on its recording-error exit; a record it returns with the failed status charged the fee
and nothing else. -/
theorem wp_doExecute (tx : TxOrder A) (s : ExecState D) (hne : s.state.savepoints ≠ []) :
    wp (doExecute env tx)
      (fun txr s' => txr.serverMetadata.successIndicator = .failed →
        ChargedOnly env tx s.state txr s'.state)
      (fun _ s' => s'.state = s.state ∨ DebitedUnlogged env tx s.state s'.state) s := by
  obtain ⟨M, hM⟩ := Option.isSome_iff_exists.mp (List.getLast?_isSome.mpr hne)
  cases hm : env.marshal tx with
  | error e => simp only [doExecute, hm, wp_bind, wp_ofExcept, true_or]
  | ok txBytes =>
    simp only [doExecute, hm, wp_bind, wp_ofExcept, wp_adaptExcept, wp_onState,
      wp_of_ok (savepoint_eq hM), wp_recordingError]
    refine wp_mono (wp_and ((frames_doExecuteBody env tx txBytes) _)
      (wp_doExecuteBody_status env tx txBytes _)) (fun sm s' hsm => ?_) (fun e s' hs' => ?_)
    · -- the order returned: its changes are kept, and its status is the successful one
      refine wp_mono (wp_doExecuteDefer_kept env tx txBytes sm hne hsm.1)
        (fun txr _ h hf => ?_) (fun _ _ h => .inl h)
      rw [h, hsm.2] at hf
      cases hf
    · -- `txExecErr`: the order is rolled back before its fee is charged
      rw [wp_of_ok (rollback_pushed hs'.1)]
      exact wp_mono (wp_doExecuteDefer_rolledBack env tx txBytes { s' with state := s.state } hne)
        (fun _ _ h _ => h) (fun _ _ h => h)

/-! ### `executeFc` -/

/-- A fee credit order fails only with the state it started from, and the record it returns has
the successful status. -/
theorem wp_executeFc (tx : TxOrder A) (s : ExecState D) (hne : s.state.savepoints ≠ []) :
    wp (executeFc env tx) (fun txr _ => txr.serverMetadata.successIndicator = .successful)
      (fun _ s' => s'.state = s.state) s := by
  obtain ⟨M, hM⟩ := Option.isSome_iff_exists.mp (List.getLast?_isSome.mpr hne)
  unfold executeFc
  split
  · rfl
  refine Reads.wp_bind ((reads_parseTxOnHold env _).adaptExcept _) rfl fun txOnHold s₁ h₁ => ?_
  split
  · exact h₁
  split
  · exact h₁
  -- the checks before the savepoint read the state only
  refine Reads.wp_bind ((reads_withLatest _).adaptExcept _) h₁ fun _ s₂ h₂ => ?_
  refine Reads.wp_bind (reads_ofExcept _) h₂ fun txBytes s₃ h₃ => ?_
  rw [wp_bind, wp_adaptExcept, wp_onState, h₃, wp_of_ok (savepoint_eq hM)]
  -- under the savepoint every failure rolls back to it
  rw [wp_bind]
  refine wp_mono (rollsBack_orRollback (frames_handleTxOnHold env tx _) _ _ (KeepsBelow.refl _))
    (fun sm₀ s₄ h₄ => ?_) (fun _ _ h => h)
  rw [wp_bind]
  refine wp_mono (rollsBack_orRollback (frames_runExecutor _) _ s₄ h₄) (fun sm s₅ h₅ => ?_)
    (fun _ _ h => h)
  rw [wp_bind]
  refine wp_mono (rollsBack_orRollback (Frames.of_reads (reads_ofExcept _)) _ s₅ h₅)
    (fun trHash s₆ h₆ => ?_) (fun _ _ h => h)
  rw [wp_bind]
  refine wp_mono (rollsBack_addFcUnitLogs env _ _ s₆ h₆) (fun _ s₇ h₇ => ?_) (fun _ _ h => h)
  obtain ⟨M', hM'⟩ := Option.isSome_iff_exists.mp
    (List.getLast?_isSome.mpr (h₇.ne_nil (by simp [pushed])))
  rw [wp_bind]
  refine wp_release_pushed hne h₇ hM' ?_
  rw [wp_pure, appendServerMetadata_successIndicator, appendServerMetadata_successIndicator]
  rfl

/-! ### `process` -/

/-- The steps of `Execute` after the generic validation fail with the state they started
from, or with the fee of a failed order debited; a record with the failed status charged the fee
and nothing else. -/
theorem wp_executeInContext (tx : TxOrder A) (s : ExecState D) (hne : s.state.savepoints ≠ []) :
    wp (executeInContext env tx)
      (fun txr s' => txr.serverMetadata.successIndicator = .failed →
        ChargedOnly env tx s.state txr s'.state)
      (fun _ s' => s'.state = s.state ∨ DebitedUnlogged env tx s.state s'.state) s := by
  unfold executeInContext
  rw [wp_bind]
  refine wp_mono (((reads_onCtx _).adaptExcept _) s) (fun _ s₁ h₁ => ?_) (fun _ _ h => .inl h)
  split
  · -- a fee credit order returns the successful status
    rw [wp_adaptExcept]
    refine wp_mono (wp_executeFc env tx s₁ (h₁ ▸ hne)) (fun txr _ h hf => ?_)
      (fun _ _ h => .inl (h.trans h₁))
    rw [h] at hf
    cases hf
  · rw [wp_bind]
    refine wp_mono (((reads_withLatest _).adaptExcept _) s₁) (fun _ s₂ h₂ => ?_)
      (fun _ _ h => .inl (h.trans h₁))
    rw [wp_adaptExcept]
    have hs₂ : s₂.state = s.state := h₂.trans h₁
    refine wp_mono (wp_doExecute env tx s₂ (hs₂ ▸ hne)) (fun _ _ h hf => ?_) (fun _ _ h => ?_)
    · rw [← hs₂]
      exact h hf
    · rwa [← hs₂]

theorem wp_process (currentRound : UInt64) (tx : TxOrder A) (st : AbsState Bytes D)
    (hne : st.savepoints ≠ []) :
    wp (process env currentRound tx)
      (fun txr st' => txr.serverMetadata.successIndicator = .failed → ChargedOnly env tx st txr st')
      (fun _ st' => st' = st ∨ DebitedUnlogged env tx st st') st := by
  have hw := wp_executeInContext env tx
    ⟨st, TxExecutionContext.new currentRound env.fees tx.payload.maxFee⟩ hne
  unfold wp process at *
  revert hw
  cases executeInContext env tx _ <;> exact id

end Env

end BftCore.Txsystem
