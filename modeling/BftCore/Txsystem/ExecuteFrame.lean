import BftCore.Txsystem.Execute

/-!
# `txsystem`: what an execution keeps

Every step of an execution changes at most the latest unit map and the context, except
`Savepoint`, `RollbackToSavepoint` and `ReleaseToSavepoint`: `KeepsBelow` says that the
committed map and the savepoints below the latest one stay, and `Frames` that a step keeps
them whether it returns or fails.  So a savepoint taken before such steps is still the one
below the latest map, and rolling back to it restores the state it was taken on
(`orRollback_restores`).
-/

namespace BftCore.State.AbsState

variable {K D ε : Type}

/-- `s'` keeps the committed map of `s` and its savepoints below the latest one. -/
structure KeepsBelow (s s' : AbsState K D) : Prop where
  committed : s'.committed = s.committed
  dropLast : s'.savepoints.dropLast = s.savepoints.dropLast
  length : s'.savepoints.length = s.savepoints.length

namespace KeepsBelow

theorem refl (s : AbsState K D) : KeepsBelow s s := ⟨rfl, rfl, rfl⟩

theorem trans {s₁ s₂ s₃ : AbsState K D} (h₁ : KeepsBelow s₁ s₂) (h₂ : KeepsBelow s₂ s₃) :
    KeepsBelow s₁ s₃ :=
  ⟨h₂.committed.trans h₁.committed, h₂.dropLast.trans h₁.dropLast, h₂.length.trans h₁.length⟩

theorem of_eq {s s' : AbsState K D} (h : s' = s) : KeepsBelow s s' := h ▸ refl s

/-- Both states have a latest map or neither has. -/
theorem ne_nil {s s' : AbsState K D} (h : KeepsBelow s s') (hne : s.savepoints ≠ []) :
    s'.savepoints ≠ [] := by
  intro h0
  have hl := h.length
  rw [h0, List.length_nil] at hl
  exact hne (List.eq_nil_of_length_eq_zero hl.symm)

/-- A state keeping what lies below the latest map is the old one with a new latest map. -/
theorem eq_setTop {s s' : AbsState K D} (h : KeepsBelow s s') {M : UnitMap K D}
    (hM : s'.savepoints.getLast? = some M) :
    s' = { s with savepoints := SavepointStack.setTop M s.savepoints } := by
  obtain ⟨committed, savepoints⟩ := s'
  simp only at h hM ⊢
  rw [← h.committed, SavepointStack.setTop, ← h.dropLast]
  exact congrArg _ (List.dropLast_append_getLast? _ hM).symm

end KeepsBelow

theorem keepsBelow_setTop (s : AbsState K D) (M : UnitMap K D) (hne : s.savepoints ≠ []) :
    KeepsBelow s { s with savepoints := SavepointStack.setTop M s.savepoints } :=
  ⟨rfl, by simp [SavepointStack.setTop], SavepointStack.length_setTop M hne⟩

theorem change_keepsBelow (f : UnitMap K D → Except (StateError K ε) (UnitMap K D))
    (s : AbsState K D) :
    EStateM.wp (change f) (fun _ s' => KeepsBelow s s') (fun _ s' => KeepsBelow s s') s := by
  unfold EStateM.wp change
  cases hl : s.savepoints.getLast? with
  | none => exact KeepsBelow.refl s
  | some M =>
    have hne : s.savepoints ≠ [] := fun h0 => by simp [h0] at hl
    dsimp only
    cases f M with
    | ok M' => exact keepsBelow_setTop s M' hne
    | error e => exact KeepsBelow.refl s

/-- The state a savepoint is taken on, with the copy of its latest map pushed. -/
def pushed (s : AbsState K D) (M : UnitMap K D) : AbsState K D :=
  { s with savepoints := s.savepoints ++ [M] }

theorem savepoint_eq {s : AbsState K D} {M : UnitMap K D} (hM : s.savepoints.getLast? = some M) :
    (savepoint : AbsM K D ε Int) s = .ok s.savepoints.length (pushed s M) := by
  simp only [savepoint, SavepointStack.push, hM, Option.map_some]
  rfl

/-- Rolling back to a savepoint that is still the one below the latest map restores the state
it was taken on. -/
theorem rollback_pushed {s s' : AbsState K D} {M : UnitMap K D} (h : KeepsBelow (pushed s M) s') :
    (rollbackToSavepoint s.savepoints.length : AbsM K D ε PUnit) s' = .ok () s := by
  have hlen : s.savepoints.length + 1 = s'.savepoints.length := by
    rw [h.length, pushed, List.length_append, List.length_singleton]
  have htake : s'.savepoints.take s.savepoints.length = s.savepoints := by
    rw [List.take_eq_dropLast hlen, h.dropLast, pushed, List.dropLast_concat]
  have hc : s'.committed = s.committed := h.committed
  simp only [rollbackToSavepoint,
    SavepointStack.rollback_natCast (by omega : s.savepoints.length ≤ s'.savepoints.length),
    htake, hc]

/-- The stack left above a savepoint still below the latest map: the one it was taken on, with
the latest map on top. -/
theorem KeepsBelow.savepoints_pushed {s s' : AbsState K D} {M M' : UnitMap K D}
    (h : KeepsBelow (pushed s M) s') (hM' : s'.savepoints.getLast? = some M') :
    s'.savepoints = s.savepoints ++ [M'] := by
  rw [← List.dropLast_append_getLast? _ hM', h.dropLast, pushed, List.dropLast_concat]

/-- Setting the last entry of a stack is setting its top. -/
theorem set_length_sub_one {l : List (UnitMap K D)} (a : UnitMap K D) (hne : l ≠ []) :
    l.set (l.length - 1) a = SavepointStack.setTop a l := by
  conv_lhs => rw [← List.dropLast_append_getLast hne]
  rw [SavepointStack.setTop, List.length_append, List.length_dropLast, List.length_singleton]
  have hpos := List.length_pos_of_ne_nil hne
  rw [show l.length - 1 + 1 - 1 = l.dropLast.length + 0 by simp [List.length_dropLast],
    List.set_append_right _ _ (by simp), ]
  simp

/-- Releasing a savepoint that is still the one below the latest map keeps the latest map on the
state it was taken on. -/
theorem release_pushed {s s' : AbsState K D} {M M' : UnitMap K D} (hne : s.savepoints ≠ [])
    (h : KeepsBelow (pushed s M) s') (hM' : s'.savepoints.getLast? = some M') :
    (releaseToSavepoint s.savepoints.length : AbsM K D ε PUnit) s' =
      .ok () { s with savepoints := SavepointStack.setTop M' s.savepoints } := by
  have hpos : 0 < s.savepoints.length := List.length_pos_of_ne_nil hne
  have hs' := h.savepoints_pushed hM'
  have hlen : s'.savepoints.length = s.savepoints.length + 1 := by
    rw [hs', List.length_append, List.length_singleton]
  have hset : (s'.savepoints.set (s.savepoints.length - 1) M').take s.savepoints.length =
      SavepointStack.setTop M' s.savepoints := by
    rw [hs', List.set_append_left _ _ (by omega), List.take_left' (by simp),
      set_length_sub_one M' hne]
  have hc : s'.committed = s.committed := h.committed
  simp only [releaseToSavepoint, SavepointStack.release_natCast hM' (by omega : 1 ≤ s.savepoints.length)
    (by omega : s.savepoints.length ≤ s'.savepoints.length), hset, hc]

end BftCore.State.AbsState

namespace BftCore.Txsystem

open BftCore.State EStateM
open BftCore.State.AbsState (KeepsBelow keepsBelow_setTop change_keepsBelow)

variable {D A Attr Proof α β : Type}

/-- A step keeps the committed map and the savepoints below the latest one, whether it returns
or fails. -/
def Frames (x : TxM D α) : Prop :=
  ∀ s, wp x (fun _ s' => KeepsBelow s.state s'.state) (fun _ s' => KeepsBelow s.state s'.state) s

/-- A step that changes the context only, whether it returns or fails. -/
def Reads (x : TxM D α) : Prop :=
  ∀ s, wp x (fun _ s' => s'.state = s.state) (fun _ s' => s'.state = s.state) s

namespace Frames

theorem of_reads {x : TxM D α} (h : Reads x) : Frames x := fun s =>
  wp_mono (h s) (fun _ _ h => KeepsBelow.of_eq h) (fun _ _ h => KeepsBelow.of_eq h)

/-- A frame step run from a state that already keeps what lies below. -/
theorem from_keepsBelow {x : TxM D α} (hx : Frames x) {s₀ s : ExecState D}
    (h : KeepsBelow s₀.state s.state) :
    wp x (fun _ s' => KeepsBelow s₀.state s'.state) (fun _ s' => KeepsBelow s₀.state s'.state) s :=
  wp_mono (hx s) (fun _ _ h' => h.trans h') (fun _ _ h' => h.trans h')

theorem of_ok {x : TxM D α} (hx : Frames x) {s s' : ExecState D} {a : α} (h : x s = .ok a s') :
    KeepsBelow s.state s'.state := by
  have hw := hx s
  rwa [wp_of_ok h] at hw

theorem of_error {x : TxM D α} (hx : Frames x) {s s' : ExecState D} {e : TxError}
    (h : x s = .error e s') : KeepsBelow s.state s'.state := by
  have hw := hx s
  rwa [wp_of_error h] at hw

theorem bind {x : TxM D α} {f : α → TxM D β} (hx : Frames x) (hf : ∀ a, Frames (f a)) :
    Frames (x >>= f) := by
  intro s
  rw [wp_bind]
  exact wp_mono (hx s) (fun a _ h => (hf a).from_keepsBelow h) (fun _ _ h => h)

theorem pure (a : α) : Frames (Pure.pure a : TxM D α) := fun s => KeepsBelow.refl s.state

theorem throw (e : TxError) : Frames (MonadExcept.throw e : TxM D α) := fun s =>
  KeepsBelow.refl s.state

theorem adaptExcept {x : TxM D α} (hx : Frames x) (f : TxError → TxError) :
    Frames (EStateM.adaptExcept f x) := by
  intro s
  have hw := hx s
  unfold wp EStateM.adaptExcept at *
  revert hw
  cases x s <;> exact id

theorem ite {c : Prop} [Decidable c] {x y : TxM D α} (hx : Frames x) (hy : Frames y) :
    Frames (if c then x else y) := by
  split
  · exact hx
  · exact hy

end Frames

namespace Reads

theorem adaptExcept {x : TxM D α} (hx : Reads x) (f : TxError → TxError) :
    Reads (EStateM.adaptExcept f x) := by
  intro s
  have hw := hx s
  unfold wp EStateM.adaptExcept at *
  revert hw
  cases x s <;> exact id

/-- A step that reads, followed by one that fails only with the state `st`, which the first
started from. -/
theorem wp_bind {x : TxM D α} {f : α → TxM D β} (hx : Reads x) {Q : β → ExecState D → Prop}
    {st : AbsState Bytes D} {s : ExecState D} (hs : s.state = st)
    (hf : ∀ a s', s'.state = st → wp (f a) Q (fun _ s'' => s''.state = st) s') :
    wp (x >>= f) Q (fun _ s'' => s''.state = st) s := by
  rw [EStateM.wp_bind]
  exact wp_mono (hx s) (fun a s' h => hf a s' (h.trans hs)) (fun _ _ h => h.trans hs)

end Reads

theorem reads_ofExcept (x : Except TxError α) : Reads (ofExcept x : TxM D α) := by
  intro s
  unfold wp ofExcept
  cases x <;> rfl

theorem reads_onCtx (x : EStateM TxError TxExecutionContext α) : Reads (onCtx x : TxM D α) := by
  intro s
  unfold wp onCtx
  cases x s.exeCtx <;> rfl

theorem reads_withLatest (x : UnitMap Bytes D → EStateM TxError TxExecutionContext α) :
    Reads (withLatest x) := by
  intro s
  unfold wp withLatest
  dsimp only
  cases s.state.savepoints.getLast? with
  | none => rfl
  | some M => exact reads_onCtx (x M) s

theorem frames_runExecutor
    (x : TxExecutionContext → UnitMap Bytes D → Except TxError (UnitMap Bytes D × ServerMetadata)) :
    Frames (runExecutor x) := by
  intro s
  unfold wp runExecutor
  cases hl : s.state.savepoints.getLast? with
  | none => exact KeepsBelow.refl _
  | some M =>
    have hne : s.state.savepoints ≠ [] := fun h0 => by simp [h0] at hl
    dsimp only
    cases x s.exeCtx M with
    | error e => exact KeepsBelow.refl _
    | ok r => exact keepsBelow_setTop s.state r.1 hne

theorem frames_onState_change (f : UnitMap Bytes D → Except TxError (UnitMap Bytes D)) :
    Frames (onState (AbsState.change f)) := by
  intro s
  have hw := change_keepsBelow f s.state
  unfold wp onState at *
  revert hw
  cases AbsState.change f s.state <;> exact id

theorem frames_applyActions (actions : List (Action Bytes D String)) :
    Frames (applyActions actions) :=
  frames_onState_change _

section Env

variable (env : TxSystemEnv D A Attr Proof)

theorem frames_addUnitLog (id txrHash : Bytes) : Frames (addUnitLog env id txrHash) :=
  frames_onState_change _

theorem reads_parseTxOnHold (unitID : Bytes) : Reads (parseTxOnHold env unitID) := by
  intro s
  unfold wp parseTxOnHold
  cases s.state.savepoints.getLast? with
  | none => rfl
  | some M =>
    dsimp only
    cases M unitID with
    | none => rfl
    | some w =>
      dsimp only
      cases w.stateLockTx with
      | none => rfl
      | some lockTx =>
        cases lockTx with
        | nil => rfl
        | cons b bs =>
          dsimp only
          cases env.unmarshal (b :: bs) <;> rfl

theorem reads_currentRoundNumber : Reads (currentRoundNumber : TxM D UInt64) := fun _ => rfl

theorem frames_markDummyForDeletion (round : UInt64) (u : Bytes) :
    Frames (markDummyForDeletion (D := D) round u) := by
  intro s
  unfold markDummyForDeletion wp
  dsimp only
  cases s.state.savepoints.getLast? with
  | none => exact KeepsBelow.refl _
  | some M =>
    dsimp only
    cases M u with
    | none => exact KeepsBelow.refl _
    | some w =>
      dsimp only
      by_cases hd : w.data.isNone = true
      · rw [if_pos hd]
        exact ((frames_applyActions _).adaptExcept _) s
      · rw [if_neg hd]
        exact KeepsBelow.refl _

theorem frames_markDummiesForDeletion (round : UInt64) :
    ∀ l, Frames (markDummiesForDeletion (D := D) round l)
  | [] => Frames.pure ()
  | u :: rest => Frames.bind (frames_markDummyForDeletion round u) fun _ =>
      frames_markDummiesForDeletion round rest

theorem frames_executeLockedTx (proof : StateUnlockProof) (txOnHold : TxOrder A) :
    Frames (executeLockedTx env proof txOnHold) := by
  unfold executeLockedTx
  split_ifs
  · exact (frames_runExecutor _).adaptExcept _
  · split
    · exact Frames.throw _
    · exact Frames.bind (Frames.of_reads reads_currentRoundNumber) fun round =>
        Frames.bind (frames_markDummiesForDeletion (round + 1) _) fun _ => Frames.pure _
  · exact Frames.throw _

/-- A step that applies actions and passes over some of their errors keeps what lies below. -/
theorem frames_applyActions_or (actions : List (Action Bytes D String)) (skip : TxError → Bool)
    (context : String) :
    Frames (fun s => match applyActions actions s with
      | .ok () s' => .ok () s'
      | .error e s' => if skip e then .ok () s' else .error (e.wrap context) s') := by
  intro s
  unfold wp
  dsimp only
  cases happ : applyActions actions s with
  | ok u s' =>
    cases u
    exact (frames_applyActions _).of_ok happ
  | error e s' =>
    have hk := (frames_applyActions _).of_error happ
    dsimp only
    by_cases hskip : skip e = true
    · rw [if_pos hskip]
      exact hk
    · rw [if_neg hskip]
      exact hk

theorem frames_removeStateLocks : ∀ l, Frames (removeStateLocks (D := D) l)
  | [] => Frames.pure ()
  | _ :: rest =>
    Frames.bind (frames_applyActions_or _ (fun e => isNotFound e || isUnitAlreadyUnlocked e) _)
      fun _ => frames_removeStateLocks rest

theorem frames_handleTxOnHold (tx : TxOrder A) :
    ∀ txOnHold, Frames (handleTxOnHold env tx txOnHold)
  | none => Frames.pure none
  | some txOnHold => by
    refine Frames.bind (Frames.of_reads (reads_ofExcept _)) fun proof => ?_
    refine Frames.bind (Frames.of_reads (reads_withLatest _)) fun _ => ?_
    refine Frames.bind (frames_executeLockedTx env proof txOnHold) fun sm => ?_
    exact Frames.ite (Frames.throw _)
      (Frames.bind (frames_removeStateLocks _) fun _ => Frames.pure _)

theorem frames_handleUnlockUnitState (tx : TxOrder A) (unitID : Bytes) :
    Frames (handleUnlockUnitState env tx unitID) :=
  Frames.bind ((Frames.of_reads (reads_parseTxOnHold env unitID)).adaptExcept _)
    (frames_handleTxOnHold env tx)

theorem frames_lockUnits (txBytes : Bytes) : ∀ l, Frames (lockUnits (D := D) txBytes l)
  | [] => Frames.pure ()
  | _ :: rest =>
    Frames.bind (frames_applyActions_or _ isAlreadyExists _) fun _ =>
      Frames.bind ((frames_applyActions _).adaptExcept _) fun _ => frames_lockUnits txBytes rest

theorem frames_executeLockUnitState (tx : TxOrder A) (txBytes : Bytes) (targetUnits : List Bytes) :
    Frames (executeLockUnitState env tx txBytes targetUnits) :=
  Frames.bind (Frames.of_reads (reads_ofExcept _)) fun _ =>
    Frames.bind (frames_lockUnits txBytes targetUnits) fun _ => Frames.pure _

theorem frames_unlockTargetUnits (tx : TxOrder A) :
    ∀ l sm, Frames (unlockTargetUnits env tx l sm)
  | [], sm => Frames.pure sm
  | u :: rest, _ =>
    Frames.bind ((frames_handleUnlockUnitState env tx u).adaptExcept _) fun _ =>
      frames_unlockTargetUnits tx rest _

/-- The body of `doExecute` keeps what lies below the latest map. -/
theorem frames_doExecuteBody (tx : TxOrder A) (txBytes : Bytes) :
    Frames (doExecuteBody env tx txBytes) := by
  unfold doExecuteBody
  split
  · exact Frames.throw _
  · refine Frames.bind (frames_unlockTargetUnits env tx _ _) fun _ => ?_
    refine Frames.bind ((Frames.of_reads (reads_withLatest _)).adaptExcept _) fun _ => ?_
    refine Frames.ite ?_ ?_
    · exact Frames.bind ((frames_executeLockUnitState env tx txBytes _).adaptExcept _)
        fun _ => Frames.pure _
    · exact Frames.bind ((frames_runExecutor _).adaptExcept _) fun _ => Frames.pure _

end Env

/-! ### Under a savepoint -/

section RollsBack

open BftCore.State.AbsState (pushed rollback_pushed)

variable (s₀ : AbsState Bytes D) (M₀ : UnitMap Bytes D)

/-- A step under a savepoint taken on `s₀`, whose latest map was `M₀`: it keeps the savepoint
below the latest map when it returns, and restores `s₀` when it fails. -/
def RollsBack (x : TxM D α) : Prop :=
  ∀ s, KeepsBelow (pushed s₀ M₀) s.state →
    wp x (fun _ s' => KeepsBelow (pushed s₀ M₀) s'.state) (fun _ s' => s'.state = s₀) s

variable {s₀ M₀}

theorem RollsBack.bind {x : TxM D α} {f : α → TxM D β} (hx : RollsBack s₀ M₀ x)
    (hf : ∀ a, RollsBack s₀ M₀ (f a)) : RollsBack s₀ M₀ (x >>= f) := by
  intro s hs
  rw [wp_bind]
  exact wp_mono (hx s hs) (fun a s' h => hf a s' h) (fun _ _ h => h)

theorem RollsBack.pure (a : α) : RollsBack s₀ M₀ (Pure.pure a : TxM D α) := fun _ hs => hs

/-- A frame step whose failure rolls back to the savepoint restores the state the savepoint was
taken on. -/
theorem rollsBack_orRollback {x : TxM D α} (hx : Frames x) (context : String) :
    RollsBack s₀ M₀ (orRollback s₀.savepoints.length context x) := by
  intro s hs
  unfold wp orRollback
  cases hxs : x s with
  | ok a s' => exact hs.trans (hx.of_ok hxs)
  | error e s' =>
    have hk := hs.trans (hx.of_error hxs)
    dsimp only
    unfold onState
    rw [rollback_pushed hk]

end RollsBack

end BftCore.Txsystem
