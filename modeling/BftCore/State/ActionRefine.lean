import BftCore.State.Actions

/-!
# `state`: the actions implement their meaning on the unit map

A tree of the store denotes a unit map (`Denotes`): its root denotes an ordered tree, owning
some dirty records, whose units have the views of the map.  The tree calls of
`BftCore.Avl.Methods` and the `Represents` lemmas of `BftCore.Avl.Map` give the four
`ShardState` calls on such a tree as calls on the map (`get_of_none`, `get_of_some`,
`step_add`, `step_update`, `step_delete`); the values agree only up to cloning, and cloning
keeps the view.

* `Step`: an action ends as its meaning says, with the same error and no allocated record
  changed, or with a tree denoting the new map that owns only records of the old tree or
  new ones;
* `Action.run_step`: **every action on the store implements `Action.apply`**.
-/

namespace BftCore.State

open BftCore.Avl BftCore.Avl.Heap EStateM

variable {A K D ε : Type}

/-- The unit map of a map of units. -/
def viewMap (M : K → Option (UnitV1 D)) : UnitMap K D := MapSpec.mapValues UnitV1.view M

theorem withContext_of_ok {α : Type} {x : ActionM K D ε α} {a : α} {s s' : Store K (UnitV1 D)}
    (h : x s = .ok a s') (c : String) : withContext c x s = .ok a s' := by
  simp only [withContext, h]

theorem withContext_of_error {α : Type} {x : ActionM K D ε α} {e : StateError K ε}
    {s s' : Store K (UnitV1 D)} (h : x s = .error e s') (c : String) :
    withContext c x s = .error (e.wrap c) s' := by
  simp only [withContext, h]

variable [LinearOrder K]

/-- `t` denotes the unit map `M` in `s`, and owns the dirty records `Dt`. -/
def Denotes (s : Store K (UnitV1 D)) (t : Tree) (M : UnitMap K D) (Dt : List Nat) : Prop :=
  ∃ tv : Node K (UnitV1 D), Owns s t.root tv Dt ∧ tv.Ordered ∧ viewMap tv.toMap = M

/-- An action on a tree that owns `Dt` ends as the abstract outcome says: with the same
error and no allocated record changed, or with a tree that denotes the new map and owns
records of `Dt` or new ones. -/
def Step (Dt : List Nat) (s : Store K (UnitV1 D)) :
    Except (StateError K ε) (UnitMap K D) →
      EStateM.Result (StateError K ε) (Store K (UnitV1 D)) Tree → Prop
  | .ok M', .ok t' s' => ∃ Dt', Denotes s' t' M' Dt' ∧ Within Dt s s' ∧ FromOrFresh Dt s Dt'
  | .error e, .error e' s' => e' = e ∧ Within [] s s'
  | _, _ => False

section Calls

variable {s : Store K (UnitV1 D)} {t : Tree} {M : UnitMap K D} {Dt : List Nat}

/-- An action that fails before it calls the tree. -/
theorem step_error (e : StateError K ε) : Step Dt s (.error e) (.error e s) :=
  ⟨rfl, Within.refl _ _⟩

theorem Step.withContext {o : Except (StateError K ε) (UnitMap K D)} {x : ActionM K D ε Tree}
    (h : Step Dt s o (x s)) (c : String) :
    Step Dt s (o.mapError (StateError.wrap c)) (State.withContext c x s) := by
  unfold State.withContext
  generalize x s = r at h ⊢
  cases o <;> cases r <;> simp_all [Step, Except.mapError]

/-- `Get` of a key the map does not have. -/
theorem get_of_none (h : Denotes s t M Dt) {id : K} (hid : M id = none) :
    t.get id s = .error (.avl (.notFound id)) s := by
  obtain ⟨tv, ho, hord, rfl⟩ := h
  have hn : tv.toMap id = none := by
    simpa [viewMap, MapSpec.mapValues] using hid
  rw [Tree.get_spec ho, Avl.Tree.get_eq_toMap (t := ⟨tv⟩) hord]
  simp only [MapSpec.get, hn]
  rfl

/-- `Get` of a key the map has: a unit with the map's view. -/
theorem get_of_some (h : Denotes s t M Dt) {id : K} {w : UnitView D} (hid : M id = some w) :
    ∃ u : UnitV1 D, u.view = w ∧ t.get id s = .ok u s := by
  obtain ⟨tv, ho, hord, rfl⟩ := h
  obtain ⟨u, hu, rfl⟩ : ∃ u, tv.toMap id = some u ∧ u.view = w := by
    simpa [viewMap, MapSpec.mapValues] using hid
  refine ⟨u, rfl, ?_⟩
  rw [Tree.get_spec ho, Avl.Tree.get_eq_toMap (t := ⟨tv⟩) hord]
  simp only [MapSpec.get, hu]
  rfl

theorem liftStore_get_of_none (h : Denotes s t M Dt) {id : K} (hid : M id = none) :
    (liftStore (t.get id) : ActionM K D ε (UnitV1 D)) s = .error (.avl (.notFound id)) s := by
  simp only [liftStore, get_of_none h hid, StateError.ofStore_avl]

theorem liftStore_get_of_some (h : Denotes s t M Dt) {id : K} {w : UnitView D}
    (hid : M id = some w) :
    ∃ u : UnitV1 D, u.view = w ∧ (liftStore (t.get id) : ActionM K D ε (UnitV1 D)) s = .ok u s := by
  obtain ⟨u, hu, hget⟩ := get_of_some h hid
  exact ⟨u, hu, by simp only [liftStore, hget]⟩

/-- A tree write on a denoting tree is the map call on the views. -/
theorem liftStore_apply (h : Denotes s t M Dt) (op : Op K (UnitV1 D)) :
    Step Dt s ((MapSpec.apply M (op.map UnitV1.view)).mapError .avl)
      (liftStore (t.apply op) s : EStateM.Result (StateError K ε) _ _) := by
  obtain ⟨tv, ho, hord, rfl⟩ := h
  have hsim := Tree.apply_spec ho op
  have hrep := Avl.Tree.apply_represents (t := ⟨tv⟩) (Node.represents_toMap hord) op
  rw [viewMap, ← MapSpec.apply_mapValues]
  unfold liftStore
  generalize MapSpec.apply tv.toMap op = o at hrep ⊢
  generalize (⟨tv⟩ : Avl.Tree K (UnitV1 D)).apply op = o' at hsim hrep
  generalize t.apply op s = r at hsim ⊢
  -- the value call, the tree call and the store call end alike
  cases o with
  | error e =>
    cases o' with
    | ok => exact hrep.elim
    | error e' =>
      cases r with
      | ok => exact hsim.elim
      | error e'' s' =>
        obtain ⟨rfl, hW⟩ := hsim
        cases hrep
        exact ⟨rfl, hW⟩
  | ok M' =>
    cases o' with
    | error => exact hrep.elim
    | ok tv' =>
      cases r with
      | error => exact hsim.elim
      | ok t' s' =>
        obtain ⟨D', ho', hW, hF⟩ := hsim
        exact ⟨D', ⟨tv'.root, ho', hrep.ordered, hrep.mapValues_eq fun _ => rfl⟩, hW, hF⟩

/-- `Add` in an action: fails on a present key. -/
theorem step_add (h : Denotes s t M Dt) (id : K) (u : UnitV1 D) (c : String) :
    Step Dt s
      (if (M id).isSome then .error (.wrapped c (.avl (.alreadyExists id)))
        else .ok (Function.update M id (some u.view)))
      (State.withContext c (liftStore (t.add id u)) s : EStateM.Result (StateError K ε) _ _) := by
  have hs := (liftStore_apply (ε := ε) h (.add id u)).withContext c
  simp only [Heap.Tree.apply] at hs
  convert hs using 1
  simp only [MapSpec.apply, Op.map]
  split <;> rfl

/-- `Update` in an action, of a key the action has read. -/
theorem step_update (h : Denotes s t M Dt) {id : K} {w : UnitView D} (hid : M id = some w)
    (u : UnitV1 D) (c : String) :
    Step Dt s (.ok (Function.update M id (some u.view)))
      (State.withContext c (liftStore (t.update id u)) s : EStateM.Result (StateError K ε) _ _) := by
  have hs := (liftStore_apply (ε := ε) h (.update id u)).withContext c
  simp only [Heap.Tree.apply] at hs
  convert hs using 1
  simp only [MapSpec.apply, Op.map, hid, Option.isSome_some, if_true]
  rfl

/-- `Delete` in an action: fails on an absent key. -/
theorem step_delete (h : Denotes s t M Dt) (id : K) (c : String) :
    Step Dt s
      (if (M id).isSome then .ok (Function.update M id none)
        else .error (.wrapped c (.avl (.notFound id))))
      (State.withContext c (liftStore (t.delete id)) s : EStateM.Result (StateError K ε) _ _) := by
  have hs := (liftStore_apply (ε := ε) h (.delete id)).withContext c
  simp only [Heap.Tree.apply] at hs
  convert hs using 1
  simp only [MapSpec.apply, Op.map]
  split <;> rfl

/-- `Add` of a key the map does not have. -/
theorem step_add_of_none (h : Denotes s t M Dt) {id : K} (hid : M id = none) (u : UnitV1 D)
    (c : String) :
    Step Dt s (.ok (Function.update M id (some u.view)))
      (State.withContext c (liftStore (t.add id u)) s : EStateM.Result (StateError K ε) _ _) := by
  simpa [hid] using step_add (ε := ε) h id u c

end Calls

/-! ### The actions -/

section Actions

variable [UnitId K] {s : Store K (UnitV1 D)} {t : Tree} {M : UnitMap K D} {Dt : List Nat}

theorem updateUnitData_step (h : Denotes s t M Dt) (id : K) (f : Option (UpdateFunction D ε)) :
    Step Dt s ((Action.updateUnitData id f).apply M) (updateUnitData id f t s) := by
  unfold updateUnitData
  simp only [Action.apply]
  cases f with
  | none => exact step_error _
  | some f =>
    dsimp only
    cases hid : M id with
    | none =>
      rw [bind_of_error (withContext_of_error (liftStore_get_of_none h hid) _)]
      exact step_error _
    | some w =>
      obtain ⟨u, rfl, hget⟩ := liftStore_get_of_some h hid
      rw [bind_of_ok (withContext_of_ok hget _)]
      cases hf : f u.data with
      | error e =>
        simp only [UnitV1.view, UnitV1.clone, hf]
        exact step_error _
      | ok newData =>
        simp only [UnitV1.view, UnitV1.clone, hf]
        exact step_update h hid { u.clone with data := newData } "unable to update unit"

theorem addDummyUnit_step (h : Denotes s t M Dt) (id : K) :
    Step Dt s ((Action.addDummyUnit id : Action K D ε).apply M) (addDummyUnit id t s) := by
  unfold addDummyUnit
  simp only [Action.apply]
  by_cases hnil : UnitId.isNil id = true
  · simp only [hnil, ↓reduceIte, throw_bind, throw_apply]
    exact step_error _
  · simp only [hnil, Bool.false_eq_true, ↓reduceIte]
    exact step_add h id dummyUnit "failed to add unit"

theorem setStateLock_step (h : Denotes s t M Dt) (id : K) (l : Option Bytes) :
    Step Dt s ((Action.setStateLock id l : Action K D ε).apply M) (setStateLock id l t s) := by
  unfold setStateLock
  simp only [Action.apply]
  by_cases hnil : UnitId.isNil id = true
  · simp only [hnil, ↓reduceIte, throw_bind, throw_apply]
    exact step_error _
  · simp only [hnil, Bool.false_eq_true, ↓reduceIte]
    cases l with
    | none => exact step_error _
    | some lock =>
      simp only [Option.isNone_some, Bool.false_eq_true, ↓reduceIte]
      cases hid : M id with
      | none =>
        rw [bind_of_error (withContext_of_error (liftStore_get_of_none h hid) _)]
        exact step_error _
      | some w =>
        obtain ⟨u, rfl, hget⟩ := liftStore_get_of_some h hid
        rw [bind_of_ok (withContext_of_ok hget _)]
        -- a unit that has a lock, even an empty one, is not locked again
        by_cases hl : u.stateLockTx.isSome = true
        · simp only [UnitV1.view, hl, ↓reduceIte, throw_bind, throw_apply]
          exact step_error _
        · simp only [UnitV1.view, hl, Bool.false_eq_true, ↓reduceIte]
          exact step_update h hid { u.clone with stateLockTx := some lock } "unable to update unit"

theorem removeStateLock_step (h : Denotes s t M Dt) (id : K) :
    Step Dt s ((Action.removeStateLock id : Action K D ε).apply M) (removeStateLock id t s) := by
  unfold removeStateLock
  simp only [Action.apply]
  by_cases hnil : UnitId.isNil id = true
  · simp only [hnil, ↓reduceIte, throw_bind, throw_apply]
    exact step_error _
  · simp only [hnil, Bool.false_eq_true, ↓reduceIte]
    cases hid : M id with
    | none =>
      rw [bind_of_error (withContext_of_error (liftStore_get_of_none h hid) _)]
      exact step_error _
    | some w =>
      obtain ⟨u, rfl, hget⟩ := liftStore_get_of_some h hid
      rw [bind_of_ok (withContext_of_ok hget _)]
      by_cases hl : u.stateLockTx.isNone = true
      · simp only [UnitV1.view, hl, ↓reduceIte, throw_bind, throw_apply]
        exact step_error _
      · simp only [UnitV1.view, hl, Bool.false_eq_true, ↓reduceIte]
        exact step_update h hid { u.clone with stateLockTx := none } "failed to update unit"

theorem deleteUnit_step (h : Denotes s t M Dt) (id : K) :
    Step Dt s ((Action.deleteUnit id : Action K D ε).apply M) (deleteUnit id t s) := by
  unfold deleteUnit
  simp only [Action.apply]
  by_cases hnil : UnitId.isNil id = true
  · simp only [hnil, ↓reduceIte, throw_bind, throw_apply]
    exact step_error _
  · simp only [hnil, Bool.false_eq_true, ↓reduceIte]
    exact step_delete h id "unable to delete unit"

theorem markForDeletion_step (h : Denotes s t M Dt) (id : K) (r : UInt64) :
    Step Dt s ((Action.markForDeletion id r : Action K D ε).apply M) (markForDeletion id r t s) := by
  unfold markForDeletion
  simp only [Action.apply]
  by_cases hnil : UnitId.isNil id = true
  · simp only [hnil, ↓reduceIte, throw_bind, throw_apply]
    exact step_error _
  · simp only [hnil, Bool.false_eq_true, ↓reduceIte]
    cases hid : M id with
    | none =>
      rw [bind_of_error (withContext_of_error (liftStore_get_of_none h hid) _)]
      exact step_error _
    | some w =>
      obtain ⟨u, rfl, hget⟩ := liftStore_get_of_some h hid
      rw [bind_of_ok (withContext_of_ok hget _)]
      exact step_update h hid { u.clone with deletionRound := r } "failed to update unit"

section Add

variable [UnitData D] (H : A → List (HashItem K D) → Bytes) (alg : A)

theorem addUnit_step (h : Denotes s t M Dt) (id : K) (data : Option D) :
    Step Dt s ((Action.addUnit id data : Action K D ε).apply M) (addUnit H alg id data t s) := by
  unfold addUnit
  simp only [Action.apply]
  by_cases hnil : UnitId.isNil id = true
  · simp only [hnil, ↓reduceIte, throw_bind, throw_apply]
    exact step_error _
  · simp only [hnil, Bool.false_eq_true, ↓reduceIte]
    cases data with
    | none => exact step_error _
    | some d =>
      simp only [Option.isNone_some, Bool.false_eq_true, ↓reduceIte]
      exact step_add h id (newUnit H alg id (some d) none _) "unable to add unit"

theorem addOrPromoteUnit_step (h : Denotes s t M Dt) (id : K) (data : Option D) :
    Step Dt s ((Action.addOrPromoteUnit id data : Action K D ε).apply M)
      (addOrPromoteUnit H alg id data t s) := by
  unfold addOrPromoteUnit
  simp only [Action.apply]
  by_cases hnil : UnitId.isNil id = true
  · simp only [hnil, ↓reduceIte, throw_bind, throw_apply]
    exact step_error _
  · simp only [hnil, Bool.false_eq_true, ↓reduceIte]
    cases data with
    | none => exact step_error _
    | some d =>
      simp only [Option.isNone_some, Bool.false_eq_true, ↓reduceIte]
      cases hid : M id with
      | none =>
        -- `ErrNotFound`: the unit is added
        have hg : (getExistingUnit t id : ActionM K D ε _) s = .ok none s := by
          simp only [getExistingUnit, get_of_none h hid]
        rw [bind_of_ok hg]
        exact step_add_of_none h hid (newUnit H alg id (some d) none _) "unable to add unit"
      | some w =>
        -- an existing unit is replaced only if it is a dummy
        obtain ⟨u, rfl, hget⟩ := get_of_some h hid
        have hg : (getExistingUnit t id : ActionM K D ε _) s = .ok (some u) s := by
          simp only [getExistingUnit, hget]
        rw [bind_of_ok hg]
        by_cases hw : u.data.isSome = true
        · have hd : (!u.isDummy) = true := by simpa [UnitV1.isDummy] using hw
          simp only [UnitV1.view, hw, hd, ↓reduceIte, throw_bind, throw_apply]
          exact step_error _
        · have hd : (!u.isDummy) = false := by simpa [UnitV1.isDummy] using hw
          simp only [UnitV1.view, hw, hd, Bool.false_eq_true, ↓reduceIte]
          exact step_update h hid (newUnit H alg id (some d) none _) "unable to update dummy unit"

theorem addUnitWithLock_step (h : Denotes s t M Dt) (id : K) (data : Option D)
    (l : Option Bytes) :
    Step Dt s ((Action.addUnitWithLock id data l : Action K D ε).apply M)
      (addUnitWithLock H alg id data l t s) := by
  unfold addUnitWithLock
  simp only [Action.apply]
  by_cases hnil : UnitId.isNil id = true
  · simp only [hnil, ↓reduceIte, throw_bind, throw_apply]
    exact step_error _
  · simp only [hnil, Bool.false_eq_true, ↓reduceIte]
    exact step_add h id (newUnit H alg id data l _) "unable to add unit"

/-- **Every action on the store implements its meaning on the unit map**: it fails exactly
when `Action.apply` fails, with the same error and no allocated record changed, and
otherwise returns a tree that denotes the new map. -/
theorem Action.run_step (a : Action K D ε) (h : Denotes s t M Dt) :
    Step Dt s (a.apply M) (a.run H alg t s) := by
  cases a with
  | addUnit id data => exact addUnit_step H alg h id data
  | addOrPromoteUnit id data => exact addOrPromoteUnit_step H alg h id data
  | addUnitWithLock id data l => exact addUnitWithLock_step H alg h id data l
  | addDummyUnit id => exact addDummyUnit_step h id
  | updateUnitData id f => exact updateUnitData_step h id f
  | setStateLock id l => exact setStateLock_step h id l
  | removeStateLock id => exact removeStateLock_step h id
  | deleteUnit id => exact deleteUnit_step h id
  | markForDeletion id r => exact markForDeletion_step h id r

end Add

end Actions

end BftCore.State
