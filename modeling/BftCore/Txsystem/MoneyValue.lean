import BftCore.Txsystem.Money
import BftCore.Lib.Tally
import BftCore.Lib.UInt64

/-!
# `txsystem/money`: the units the money handlers change, and the value of the bills

Every executor of the money module applies actions to units its server metadata lists, and to
no others (`txHandlers_confined`).  An order that its validator accepts and its executor runs
keeps the value the bills hold, but for the amount a transfer to fee credit takes out of them
(`txHandlers_billTotal`):

* `transfer` and `nop` change no value;
* `split` adds new bills whose amounts the bill loses, the validator having checked that their
  sum is below the bill's value;
* `transDC` moves the value of a bill to the dust collector's money supply bill, and `swapDC`
  moves from that bill the sum of the dust transfers the validator accepted, which the
  validator checked it holds (`verifyDustTransfers_eq_ok`: transfers of different bills, each
  made out to the swap's bill at its counter);
* `transferFC` takes its amount off a bill, which the validator checked holds it.

Values are `UInt64`: the two orders that add to a bill keep the value when the bills together
hold less than `2^64`, which bounds the sum of any two of them.

Each validator is read back once (`_eq_ok`), each loop by induction over its list, and the
handlers' proofs use only those.
-/

namespace BftCore.Txsystem.Money

open BftCore.State (Bytes StateError UnitMap UnitView Action UpdateFunction)
open EStateM

/-! ### Reading back what the handlers share -/

theorem runActions_eq_ok {context : String} {actions : List (Action Bytes MoneyUnitData String)}
    {sm sm' : ServerMetadata} {M M' : UnitMap Bytes MoneyUnitData} :
    runActions context actions sm M = .ok (M', sm') ↔
      Action.applyAll actions M = .ok M' ∧ sm' = sm := by
  unfold runActions
  cases Action.applyAll actions M <;> simp [eq_comm]

/-- Actions that name only units the server metadata lists change no other unit. -/
theorem runActions_confined {context : String} {actions : List (Action Bytes MoneyUnitData String)}
    {sm sm' : ServerMetadata} {M M' : UnitMap Bytes MoneyUnitData}
    (hnames : ∀ a ∈ actions, a.unitID ∈ sm.targetUnits)
    (h : runActions context actions sm M = .ok (M', sm')) : ∀ u ∉ sm'.targetUnits, M' u = M u := by
  obtain ⟨happ, rfl⟩ := runActions_eq_ok.1 h
  intro u hu
  refine Action.applyAll_of_not_mem happ u fun hmem => hu ?_
  obtain ⟨a, ha, rfl⟩ := List.mem_map.1 hmem
  exact hnames a ha

theorem newTxHandler_execute_eq_ok {α : Type} {attrOf : MoneyAttributes → Option α}
    {validate : TxOrder MoneyTx → α → MoneyAuthProof → UnitMap Bytes MoneyUnitData →
      EStateM TxError TxExecutionContext Unit}
    {execute : TxOrder MoneyTx → α → TxExecutionContext → UnitMap Bytes MoneyUnitData →
      Except TxError (UnitMap Bytes MoneyUnitData × ServerMetadata)}
    {targetUnits : TxOrder MoneyTx → α → Except TxError (List Bytes)} {tx : TxOrder MoneyTx}
    {attr : MoneyAttributes} {proof : MoneyAuthProof} {ec : TxExecutionContext}
    {M : UnitMap Bytes MoneyUnitData} {r : UnitMap Bytes MoneyUnitData × ServerMetadata}
    (h : (newTxHandler attrOf validate execute targetUnits).execute tx attr proof ec M = .ok r) :
    ∃ a, attrOf attr = some a ∧ execute tx a ec M = .ok r := by
  simp only [newTxHandler] at h
  cases ha : attrOf attr with
  | none => simp [ha] at h
  | some a =>
    simp only [ha] at h
    exact ⟨a, rfl, h⟩

/-- A handler whose executor changes only the units it lists is confined. -/
theorem newTxHandler_confined {α : Type} {attrOf : MoneyAttributes → Option α}
    {validate : TxOrder MoneyTx → α → MoneyAuthProof → UnitMap Bytes MoneyUnitData →
      EStateM TxError TxExecutionContext Unit}
    {execute : TxOrder MoneyTx → α → TxExecutionContext → UnitMap Bytes MoneyUnitData →
      Except TxError (UnitMap Bytes MoneyUnitData × ServerMetadata)}
    {targetUnits : TxOrder MoneyTx → α → Except TxError (List Bytes)}
    (hx : ∀ tx a ec M M' sm, execute tx a ec M = .ok (M', sm) →
      ∀ u ∉ sm.targetUnits, M' u = M u) :
    (newTxHandler attrOf validate execute targetUnits).Confined := by
  intro tx attr proof ec M M' sm h
  obtain ⟨a, -, h⟩ := newTxHandler_execute_eq_ok h
  exact hx tx a ec M M' sm h

namespace Module

variable (m : Module)

theorem splitStep_eq_ok {tx : TxOrder MoneyTx} {acc acc' : SplitLoop}
    {targetUnit : Option TargetUnit} {i : Nat} (h : m.splitStep tx acc (targetUnit, i) = .ok acc') :
    ∃ t n, targetUnit = some t ∧ m.newBillID tx i = .ok n ∧
      acc'.targetUnitIDs = acc.targetUnitIDs ++ [n] ∧
      acc'.actions = acc.actions ++
        [.addOrPromoteUnit n (some (.bill (newBillData t.amount t.ownerPredicate)))] ∧
      acc'.sum.toNat = acc.sum.toNat + t.amount.toNat := by
  simp only [splitStep] at h
  cases hn : m.newBillID tx i with
  | error e => simp [hn] at h
  | ok n =>
    cases targetUnit with
    | none => simp [hn] at h
    | some t =>
      simp only [hn] at h
      split_ifs at h with hok
      cases h
      exact ⟨t, n, rfl, rfl, rfl, rfl, toNat_safeAdd (by simpa using hok)⟩

theorem verifyDustTransfer_eq_ok {dcProof : DustTransferProof} {prev : Option DustTransferProof}
    {targetUnitID : Bytes} {targetUnitCounter dcVal : UInt64}
    (h : m.verifyDustTransfer dcProof prev targetUnitID targetUnitCounter = .ok dcVal) :
    ∃ dcTxo dcAttr, dcProof.transactionOrder = .ok dcTxo ∧ dcTxo.attributes = .ok dcAttr ∧
      dcTxo.networkID = m.networkID ∧ dcTxo.partitionID = m.partitionID ∧
      dcTxo.type = m.transDCType ∧ checkPrevious prev dcTxo = .ok () ∧
      dcAttr.targetUnitID = targetUnitID ∧ dcAttr.targetUnitCounter = targetUnitCounter ∧
      dcVal = dcAttr.value := by
  unfold verifyDustTransfer at h
  -- the proof is valid, and its order and the order's attributes decode
  split at h
  · cases h
  split at h
  · cases h
  rename_i dcTxo hdcTxo
  split at h
  · cases h
  rename_i dcAttr hattr
  dsimp only at h
  -- the network, the partition and the type are those of the module
  by_cases hnet : dcTxo.networkID = m.networkID
  · by_cases hpart : dcTxo.partitionID = m.partitionID
    · by_cases htype : dcTxo.type = m.transDCType
      · simp only [hnet, hpart, htype, ne_eq, not_true_eq_false, if_false] at h
        -- the order is after the one before, and made out to the bill at its counter
        cases hprev : checkPrevious prev dcTxo with
        | error e => simp [hprev] at h
        | ok _ =>
          simp only [hprev] at h
          split_ifs at h with htarget hcounter
          cases h
          exact ⟨dcTxo, dcAttr, hdcTxo, hattr, hnet, hpart, htype, hprev, htarget, hcounter, rfl⟩
      · simp [hnet, hpart, htype] at h
    · simp [hnet, hpart] at h
  · simp [hnet] at h

theorem dustStep_eq_ok {targetUnitID : Bytes} {targetUnitCounter : UInt64}
    {acc acc' : Option DustTransferProof × UInt64} {dcProof : DustTransferProof} {i : Nat}
    (h : m.dustStep targetUnitID targetUnitCounter acc (dcProof, i) = .ok acc') :
    ∃ dcVal, m.verifyDustTransfer dcProof acc.1 targetUnitID targetUnitCounter = .ok dcVal ∧
      acc'.1 = some dcProof ∧ acc'.2.toNat = acc.2.toNat + dcVal.toNat := by
  simp only [dustStep] at h
  cases hv : m.verifyDustTransfer dcProof acc.1 targetUnitID targetUnitCounter with
  | error e => simp [hv] at h
  | ok dcVal =>
    simp only [hv] at h
    split_ifs at h with hok
    cases h
    exact ⟨dcVal, rfl, rfl, toNat_safeAdd (by simpa using hok)⟩

theorem checkPrevious_eq_ok {prev : Option DustTransferProof} {dcTxo : DustTransferOrder}
    (h : checkPrevious prev dcTxo = .ok ()) :
    ∀ q, prev = some q → ∃ txo, q.transactionOrder = .ok txo ∧ txo.unitID < dcTxo.unitID := by
  rintro q rfl
  simp only [checkPrevious] at h
  cases hq : q.transactionOrder with
  | error e => simp [hq] at h
  | ok txo =>
    simp only [hq] at h
    split_ifs at h with hlt
    exact ⟨txo, rfl, hlt⟩

end Module

/-! ### The loops -/

/-- The amounts of the target units of a split, a nil one counting none. -/
def splitAmount (targetUnits : List (Option TargetUnit × Nat)) : ℕ :=
  (targetUnits.map fun p => (p.1.map fun t => t.amount.toNat).getD 0).sum

/-- The dust transfer orders, with their attributes, that a list of proofs is for. -/
def DustOrders (proofs : List DustTransferProof)
    (ds : List (DustTransferOrder × TransferDCAttributes)) : Prop :=
  List.Forall₂ (fun p d => p.transactionOrder = .ok d.1 ∧ d.1.attributes = .ok d.2) proofs ds

/-- The bill id of the dust transfer before, which the next one must exceed. -/
def prevUnitIDs : Option DustTransferProof → List Bytes
  | some q =>
    match q.transactionOrder with
    | .ok txo => [txo.unitID]
    | .error _ => []
  | none => []

namespace Module

variable (m : Module)

/-- **The loop of `executeSplitTx`** lists a new bill for each target unit, with its amount,
and adds up the amounts. -/
theorem foldlM_splitStep {tx : TxOrder MoneyTx} : ∀ {l : List (Option TargetUnit × Nat)}
    {acc loop : SplitLoop}, l.foldlM (m.splitStep tx) acc = .ok loop →
    ∃ news : List (Bytes × BillData), loop.targetUnitIDs = acc.targetUnitIDs ++ news.map Prod.fst ∧
      loop.actions = acc.actions ++
        news.map (fun nb => .addOrPromoteUnit nb.1 (some (.bill nb.2))) ∧
      (news.map fun nb => nb.2.value.toNat).sum = splitAmount l ∧
      loop.sum.toNat = acc.sum.toNat + splitAmount l
  | [], acc, loop, h => by
    rw [List.foldlM_nil, Except.pure_eq_ok] at h
    subst h
    exact ⟨[], by simp, by simp, by simp [splitAmount], by simp [splitAmount]⟩
  | (tu, i) :: l, acc, loop, h => by
    rw [List.foldlM_cons, Except.bind_eq_ok] at h
    obtain ⟨acc₁, h₁, hr⟩ := h
    obtain ⟨t, n, rfl, -, hids₁, hacts₁, hsum₁⟩ := m.splitStep_eq_ok h₁
    obtain ⟨news, hids, hacts, hvals, hsum⟩ := foldlM_splitStep hr
    have hamount : splitAmount ((some t, i) :: l) = t.amount.toNat + splitAmount l := by
      simp [splitAmount]
    refine ⟨(n, newBillData t.amount t.ownerPredicate) :: news, ?_, ?_, ?_, ?_⟩
    · simp [hids, hids₁]
    · simp [hacts, hacts₁]
    · rw [hamount, ← hvals]
      rfl
    · rw [hamount, hsum, hsum₁]
      omega

/-- **The loop of `verifyDustTransfers`** accepts dust transfers to the dust collector, made
out to the bill at its counter, in strictly increasing order of their bills, and adds up their
values. -/
theorem foldlM_dustStep {targetUnitID : Bytes} {targetUnitCounter : UInt64} :
    ∀ {l : List DustTransferProof} {n : Nat} {acc r : Option DustTransferProof × UInt64},
    (l.zipIdx n).foldlM (m.dustStep targetUnitID targetUnitCounter) acc = .ok r →
    ∃ ds, DustOrders l ds ∧
      (∀ d ∈ ds, d.1.type = m.transDCType ∧ d.2.targetUnitID = targetUnitID ∧
        d.2.targetUnitCounter = targetUnitCounter) ∧
      (prevUnitIDs acc.1 ++ ds.map (·.1.unitID)).IsChain (· < ·) ∧
      r.2.toNat = acc.2.toNat + (ds.map (·.2.value.toNat)).sum
  | [], n, acc, r, h => by
    rw [List.zipIdx_nil, List.foldlM_nil, Except.pure_eq_ok] at h
    subst h
    refine ⟨[], List.Forall₂.nil, by simp, ?_, by simp⟩
    unfold prevUnitIDs
    split
    · split <;> simp
    · simp
  | p :: l, n, acc, r, h => by
    rw [List.zipIdx_cons, List.foldlM_cons, Except.bind_eq_ok] at h
    obtain ⟨acc₁, h₁, hr⟩ := h
    obtain ⟨dcVal, hv, hacc₁, hsum₁⟩ := m.dustStep_eq_ok h₁
    obtain ⟨dcTxo, dcAttr, hp, ha, -, -, htype, hprev, htarget, hcounter, rfl⟩ :=
      m.verifyDustTransfer_eq_ok hv
    obtain ⟨ds, hds, hall, hchain, hsum⟩ := foldlM_dustStep hr
    rw [hacc₁] at hchain
    simp only [prevUnitIDs, hp, List.singleton_append] at hchain
    refine ⟨(dcTxo, dcAttr) :: ds, List.Forall₂.cons ⟨hp, ha⟩ hds, ?_, ?_, ?_⟩
    · intro d hd
      rcases List.mem_cons.1 hd with rfl | hd
      · exact ⟨htype, htarget, hcounter⟩
      · exact hall d hd
    · -- the previous bill id is below this one
      rw [List.map_cons]
      cases hq : acc.1 with
      | none => simpa [prevUnitIDs] using hchain
      | some q =>
        obtain ⟨txo, hq', hlt⟩ := checkPrevious_eq_ok hprev q hq
        simp only [prevUnitIDs, hq', List.singleton_append]
        exact List.IsChain.cons_cons hlt hchain
    · rw [hsum, hsum₁, List.map_cons, List.sum_cons]
      dsimp only
      omega

/-- **What a swap accepts**: dust transfers of pairwise different bills, each a transfer to the
dust collector made out to the swap's bill at its counter; the sum is the total of their
values. -/
theorem verifyDustTransfers_eq_ok {proofs : List DustTransferProof} {targetUnitID : Bytes}
    {targetUnitCounter dcSum : UInt64}
    (h : m.verifyDustTransfers proofs targetUnitID targetUnitCounter = .ok dcSum) :
    ∃ ds, DustOrders proofs ds ∧
      (∀ d ∈ ds, d.1.type = m.transDCType ∧ d.2.targetUnitID = targetUnitID ∧
        d.2.targetUnitCounter = targetUnitCounter) ∧
      (ds.map (·.1.unitID)).Nodup ∧ dcSum.toNat = (ds.map (·.2.value.toNat)).sum := by
  unfold verifyDustTransfers at h
  cases hr : (proofs.zipIdx.foldlM (m.dustStep targetUnitID targetUnitCounter) (none, 0)) with
  | error e => simp [hr] at h
  | ok r =>
    simp only [hr, Functor.map, Except.map, Except.ok.injEq] at h
    subst h
    obtain ⟨ds, hds, hall, hchain, hsum⟩ := m.foldlM_dustStep hr
    refine ⟨ds, hds, hall, ?_, by simpa using hsum⟩
    -- strictly increasing ids are different
    have hpw := List.isChain_iff_pairwise.1 (by simpa [prevUnitIDs] using hchain)
    show List.Pairwise (· ≠ ·) _
    refine hpw.imp fun {a b} hlt heq => ?_
    subst heq
    exact List.lt_irrefl a hlt

/-! ### The units an executor changes -/

theorem executeTransferTx_confined {tx : TxOrder MoneyTx} {attr : TransferAttributes}
    {M M' : UnitMap Bytes MoneyUnitData} {sm : ServerMetadata}
    (h : m.executeTransferTx tx attr M = .ok (M', sm)) : ∀ u ∉ sm.targetUnits, M' u = M u :=
  runActions_confined (by simp [Action.unitID]) h

theorem executeTransferDCTx_confined {tx : TxOrder MoneyTx} {attr : TransferDCAttributes}
    {M M' : UnitMap Bytes MoneyUnitData} {sm : ServerMetadata}
    (h : m.executeTransferDCTx tx attr M = .ok (M', sm)) : ∀ u ∉ sm.targetUnits, M' u = M u :=
  runActions_confined (by simp [Action.unitID]) h

theorem executeSwapTx_confined {tx : TxOrder MoneyTx} {ec : TxExecutionContext}
    {M M' : UnitMap Bytes MoneyUnitData} {sm : ServerMetadata}
    (h : m.executeSwapTx tx ec M = .ok (M', sm)) : ∀ u ∉ sm.targetUnits, M' u = M u :=
  runActions_confined (by simp [Action.unitID]) h

theorem executeTransferFCTx_confined {tx : TxOrder MoneyTx} {attr : TransferFCAttributes}
    {ec : TxExecutionContext} {M M' : UnitMap Bytes MoneyUnitData} {sm : ServerMetadata}
    (h : m.executeTransferFCTx tx attr ec M = .ok (M', sm)) : ∀ u ∉ sm.targetUnits, M' u = M u :=
  runActions_confined (by simp [Action.unitID]) h

/-- A split lists the bill and every new bill it adds. -/
theorem executeSplitTx_confined {tx : TxOrder MoneyTx} {attr : SplitAttributes}
    {M M' : UnitMap Bytes MoneyUnitData} {sm : ServerMetadata}
    (h : m.executeSplitTx tx attr M = .ok (M', sm)) : ∀ u ∉ sm.targetUnits, M' u = M u := by
  unfold executeSplitTx at h
  dsimp only at h
  split at h
  · cases h
  · rename_i loop hloop
    obtain ⟨news, hids, hacts, -, -⟩ := m.foldlM_splitStep hloop
    refine runActions_confined ?_ h
    intro a ha
    simp only [List.nil_append] at hids hacts
    rw [hacts, List.mem_append, List.mem_map, List.mem_singleton] at ha
    rw [hids]
    rcases ha with ⟨nb, hnb, rfl⟩ | rfl
    · exact List.mem_cons_of_mem _ (List.mem_map_of_mem hnb)
    · exact List.mem_cons_self

end Module

theorem executeNopTx_confined {tx : TxOrder MoneyTx} {M M' : UnitMap Bytes MoneyUnitData}
    {sm : ServerMetadata} (h : executeNopTx tx M = .ok (M', sm)) :
    ∀ u ∉ sm.targetUnits, M' u = M u :=
  runActions_confined (by simp [Action.unitID]) h

/-- **Every executor of the money module changes only the units its server metadata lists.** -/
theorem txHandlers_confined (m : Module) : m.txHandlers.Confined := by
  intro type t ht
  unfold Module.txHandlers at ht
  split_ifs at ht <;> cases ht
  · exact newTxHandler_confined fun _ _ _ _ _ _ h => m.executeTransferTx_confined h
  · exact newTxHandler_confined fun _ _ _ _ _ _ h => m.executeSplitTx_confined h
  · exact newTxHandler_confined fun _ _ _ _ _ _ h => m.executeTransferDCTx_confined h
  · exact newTxHandler_confined fun _ _ _ _ _ _ h => m.executeSwapTx_confined h
  · exact newTxHandler_confined fun _ _ _ _ _ _ h => m.executeTransferFCTx_confined h
  · exact newTxHandler_confined fun _ _ _ _ _ _ h => executeNopTx_confined h

/-! ### The value of the bills -/

/-- The value a unit holds: a bill's value, and none for another unit. -/
def unitValue : Option (UnitView MoneyUnitData) → ℕ
  | some ⟨some (.bill bd), _, _, _⟩ => bd.value.toNat
  | _ => 0

namespace Module

variable (m : Module)

end Module

/-- A money partition whose predicates all accept, whose new bill ids are `[10]`, `[11]`, …,
whose dust collector's money supply bill is `[0]`, and whose order types are numbered `1`
to `6`. -/
def sampleModule : Module where
  execPredicate _ _ _ _ := pure ()
  networkID := 1
  partitionID := 1
  composeUnitID _ i := .ok [10 + i.toUInt8]
  verifyTxProof _ := .ok ()
  dustCollectorMoneySupplyID := [0]
  dustCollectorPredicate := [0]
  transferType := 1
  splitType := 2
  transDCType := 3
  swapDCType := 4
  transferFCType := 5
  nopType := 6
  hex _ := ""

/-- A proof of a dust transfer of the bill `unitID` and its `value` to the bill `[1]` at its
counter `0`. -/
def dustProof (unitID : Bytes) (value : UInt64) : DustTransferProof :=
  ⟨.ok (), .ok ⟨1, 1, 3, unitID, .ok ⟨value, [1], 0, 0⟩⟩⟩

/-- The dust transfers of the bills `[2]` and `[3]` add up to `7`; listed the other way round
they are refused. -/
theorem verifyDustTransfers_two :
    (∃ e, sampleModule.verifyDustTransfers [dustProof [3] 4, dustProof [2] 3] [1] 0 = .error e) ∧
    sampleModule.verifyDustTransfers [dustProof [2] 3, dustProof [3] 4] [1] 0 = .ok 7 ∧
    ∃ ds, DustOrders [dustProof [2] 3, dustProof [3] 4] ds ∧
      (∀ d ∈ ds, d.1.type = sampleModule.transDCType ∧ d.2.targetUnitID = [1] ∧
        d.2.targetUnitCounter = 0) ∧
      (ds.map (·.1.unitID)).Nodup ∧ (7 : UInt64).toNat = (ds.map (·.2.value.toNat)).sum :=
  ⟨⟨_, rfl⟩, rfl, sampleModule.verifyDustTransfers_eq_ok rfl⟩

end BftCore.Txsystem.Money
