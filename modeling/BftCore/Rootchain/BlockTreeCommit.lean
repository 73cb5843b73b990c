import BftCore.Rootchain.BlockTreeInv

/-!
# Commit, and the walks it makes

In a tree with the invariant `TreeInv`:

* `findPathToRoot r` returns the blocks from round `r` up to the root, the root's excluded
  (`PathUp`, `TreeInv.findPathToRoot_spec`): the walk up the parent rounds takes at most `r`
  steps;
* `findBlocksToPrune r` returns exactly the rounds of the tree outside the subtree of the node of
  round `r` (`TreeInv.findBlocksToPrune_spec`): the depth-first walk replaces a node by its
  children other than that node, and the part of the tree outside the subtree below the nodes on
  its stack shrinks by one node at each step (`Forest.sum_card_subtree_lt`);
* a `Commit` that returns leaves the subtree of the committed node, rooted there, with the
  invariant (`TreeInv.commit_spec`).

`Commit` prunes the index before it generates the certificates and stores the block; when either
fails the root stays while its round has left the index (`commit_failure_breaks_shape`).  So the
invariant holds along the runs in which no commit fails after finding its block
(`TreeCall.Admissible`, `Reachable`, `TreeInv.of_reachable`), and each tree of such a run meets
`TreeSpec` (`block_tree_shape`).
-/

namespace BftCore.Rootchain

namespace BlockTree

variable {SS D CR : Type}

/-! ### The path to the root -/

/-- `path` lists the blocks from the node `p` up to the root, the root's excluded: the block of
`p`, then those above its parent. -/
inductive PathUp (bt : BlockTree SS D) : Nat → List (ExecutedBlock SS) → Prop
  | root : PathUp bt bt.root []
  | step {p q : Nat} {path : List (ExecutedBlock SS)} : p ≠ bt.root → p ∈ bt.children q →
      PathUp bt q path → PathUp bt p ((bt.nodes p).data :: path)

section Path

variable {bt : BlockTree SS D} (hinv : TreeInv bt)
include hinv

/-- A node of the tree other than the root has a round above the root's. -/
theorem TreeInv.root_lt {p : Nat} (hp : p ∈ bt.indexed) (hne : p ≠ bt.root) :
    bt.roundOf bt.root < bt.roundOf p :=
  hinv.roundOf_lt_of_reach (hinv.reach_root_iff.mpr hp) hinv.root_mem_indexed (Ne.symm hne)

/-- The walk up from a node other than the root collects the path, given as much fuel as the
node's round: each step goes to an earlier round. -/
theorem TreeInv.pathToRoot_spec :
    ∀ (fuel p : Nat) (acc : List (ExecutedBlock SS)), p ∈ bt.indexed → p ≠ bt.root →
      (bt.roundOf p).toNat ≤ fuel →
      ∃ path, bt.pathToRoot fuel p acc = some (acc ++ path) ∧ PathUp bt p path := by
  intro fuel
  induction fuel with
  | zero =>
    -- no fuel: the node would be of round `0`, below the root's
    intro p acc hp hne hfuel
    have hlt := UInt64.lt_iff_toNat_lt.mp (hinv.root_lt hp hne)
    omega
  | succ fuel ih =>
    intro p acc hp hne hfuel
    obtain ⟨q, hq, hlookup, hpq, hlt⟩ := hinv.exists_parent hp hne
    have hstep : bt.pathToRoot (fuel + 1) p acc =
        if q = bt.root then some (acc ++ [(bt.nodes p).data])
        else bt.pathToRoot fuel q (acc ++ [(bt.nodes p).data]) := by
      have hlookup' : bt.roundToNode.lookup (bt.nodes p).data.getParentRound = some q := hlookup
      simp only [pathToRoot, hlookup']
    rw [hstep]
    by_cases hqr : q = bt.root
    · rw [if_pos hqr]
      exact ⟨[(bt.nodes p).data], rfl, .step hne hpq (hqr ▸ .root)⟩
    · rw [if_neg hqr]
      have hfuel' : (bt.roundOf q).toNat ≤ fuel := by
        have := UInt64.lt_iff_toNat_lt.mp hlt
        omega
      obtain ⟨path, hpath, hup⟩ := ih q (acc ++ [(bt.nodes p).data]) hq hqr hfuel'
      refine ⟨(bt.nodes p).data :: path, ?_, .step hne hpq hup⟩
      rw [hpath, List.append_assoc, List.singleton_append]

/-- `findPathToRoot r` returns the blocks from the node of round `r` up to the root, the root's
excluded. -/
theorem TreeInv.findPathToRoot_spec {r : UInt64} (hr : r ∈ bt.roundToNode) :
    ∃ p path, bt.roundToNode.lookup r = some p ∧ bt.findPathToRoot r = some path ∧
      PathUp bt p path := by
  obtain ⟨p, hp⟩ := Option.isSome_iff_exists.mp (AList.lookup_isSome.mpr hr)
  obtain ⟨hpi, rfl⟩ := hinv.lookup_iff.mp hp
  by_cases hroot : p = bt.root
  · subst hroot
    exact ⟨_, [], hp, by simp only [findPathToRoot, hp, if_true], .root⟩
  · obtain ⟨path, hpath, hup⟩ := hinv.pathToRoot_spec _ p [] hpi hroot le_rfl
    refine ⟨p, path, hp, ?_, hup⟩
    simp only [findPathToRoot, hp, if_neg hroot, hpath, List.nil_append]

end Path

/-! ### The blocks to prune -/

/-- The inner loop pushes the children of another round than the new root's, last first, and
notes whether one was of the new root's round. -/
theorem pushChildren_eq (bt : BlockTree SS D) (nr : UInt64) :
    ∀ (cs blocksToCheck : List Nat) (found : Bool),
      bt.pushChildren nr cs blocksToCheck found =
        ((cs.filter fun c => bt.roundOf c ≠ nr).reverse ++ blocksToCheck,
          found || cs.any fun c => bt.roundOf c = nr) := by
  intro cs
  induction cs with
  | nil => simp [pushChildren]
  | cons c cs ih =>
    intro blocksToCheck found
    by_cases hc : bt.roundOf c = nr
    · simp only [roundOf] at hc
      simp [pushChildren, hc, ih, roundOf]
    · simp only [roundOf] at hc
      simp [pushChildren, hc, ih, roundOf]

/-- A step of the outer loop: the popped node's children of other rounds than the new root's go
on the stack, its round is pruned, and a child of the new root's round is noted. -/
theorem pruneLoop_cons (bt : BlockTree SS D) (nr : UInt64) (fuel p : Nat) (rest : List Nat)
    (pruned : List UInt64) (found : Bool) :
    bt.pruneLoop nr (fuel + 1) (p :: rest) pruned found =
      bt.pruneLoop nr fuel (((bt.children p).filter fun c => bt.roundOf c ≠ nr).reverse ++ rest)
        (pruned ++ [bt.roundOf p]) (found || (bt.children p).any fun c => bt.roundOf c = nr) := by
  rw [pruneLoop, pushChildren_eq]
  rfl

/-- Trees of one shape prune alike. -/
theorem SameShape.pruneLoop_eq {bt bt' : BlockTree SS D} (h : SameShape bt bt') (nr : UInt64) :
    ∀ (fuel : Nat) (blocksToCheck : List Nat) (pruned : List UInt64) (found : Bool),
      bt'.pruneLoop nr fuel blocksToCheck pruned found =
        bt.pruneLoop nr fuel blocksToCheck pruned found := by
  intro fuel
  induction fuel with
  | zero => intro _ _ _; simp only [pruneLoop]
  | succ fuel ih =>
    intro blocksToCheck pruned found
    cases blocksToCheck with
    | nil => simp only [pruneLoop]
    | cons p rest => rw [pruneLoop_cons, pruneLoop_cons, ih, h.children, funext h.roundOf]

theorem SameShape.findBlocksToPrune_eq {bt bt' : BlockTree SS D} (h : SameShape bt bt')
    (nr : UInt64) : bt'.findBlocksToPrune nr = bt.findBlocksToPrune nr := by
  have hroot : (bt'.nodes bt.root).data.getRound = (bt.nodes bt.root).data.getRound :=
    h.roundOf bt.root
  simp only [findBlocksToPrune, h.root, hroot, h.pruneLoop_eq, h.roundToNode]

section Prune

variable {bt : BlockTree SS D} (hinv : TreeInv bt) {cN : Nat} (hcN : cN ∈ bt.indexed)
include hinv hcN

/-- The nodes of the tree below `p` and outside the subtree of `cN`. -/
noncomputable def outside (bt : BlockTree SS D) (cN p : Nat) : Finset Nat :=
  Forest.subtree bt.children bt.indexed (fun q => ¬ bt.Reach cN q) p

/-- Below a node outside the subtree of `cN`, a node outside it is the node itself or lies below a
child of another round than `cN`'s. -/
theorem TreeInv.exists_outside_iff {p : Nat} (hp : p ∈ bt.indexed) (hpc : ¬ bt.Reach cN p)
    (Φ : Nat → Prop) :
    (∃ q, bt.Reach p q ∧ ¬ bt.Reach cN q ∧ Φ q) ↔
      Φ p ∨ ∃ c ∈ (bt.children p).filter (fun c => bt.roundOf c ≠ bt.roundOf cN),
        ∃ q, bt.Reach c q ∧ ¬ bt.Reach cN q ∧ Φ q := by
  constructor
  · rintro ⟨q, hq, hqc, hΦ⟩
    by_cases hpq : p = q
    · subst hpq
      exact .inl hΦ
    · obtain ⟨c, hc, hcq⟩ := Forest.Reach.exists_child hq hpq
      -- the child is not `cN`, whose subtree holds no node outside it
      have hcN' : bt.roundOf c ≠ bt.roundOf cN := by
        intro h
        rw [hinv.eq_of_roundOf_eq (hinv.of_mem_children hp hc).1 hcN h] at hcq
        exact hqc hcq
      exact .inr ⟨c, List.mem_filter.mpr ⟨hc, decide_eq_true hcN'⟩, q, hcq, hqc, hΦ⟩
  · rintro (hΦ | ⟨c, hc, q, hcq, hqc, hΦ⟩)
    · exact ⟨p, Forest.Reach.rfl', hpc, hΦ⟩
    · exact ⟨q, Forest.Reach.head (List.mem_filter.mp hc).1 hcq, hqc, hΦ⟩

/-- A child of a node outside the subtree of `cN`, of another round than `cN`'s, is outside it
too. -/
theorem TreeInv.child_outside {p c : Nat} (hp : p ∈ bt.indexed) (hpc : ¬ bt.Reach cN p)
    (hc : c ∈ (bt.children p).filter (fun c => bt.roundOf c ≠ bt.roundOf cN)) :
    c ∈ bt.indexed ∧ ¬ bt.Reach cN c := by
  obtain ⟨hc, hcr⟩ := List.mem_filter.mp hc
  have hci := (hinv.of_mem_children hp hc).1
  refine ⟨hci, fun hreach => hpc ?_⟩
  have hne : cN ≠ c := fun h => (of_decide_eq_true hcr) (h ▸ rfl)
  exact Forest.Reach.of_child hinv.isForest hreach hc hcN hp hne

/-- The outer loop, given fuel for the nodes outside the subtree of `cN` below its stack, adds to
the pruned rounds those of these nodes, and notes whether one of them is the parent of `cN`. -/
theorem TreeInv.pruneLoop_spec :
    ∀ (fuel : Nat) (blocksToCheck : List Nat) (pruned : List UInt64) (found : Bool),
      (∀ p ∈ blocksToCheck, p ∈ bt.indexed ∧ ¬ bt.Reach cN p) →
      (blocksToCheck.map fun p => (outside bt cN p).card).sum ≤ fuel →
      (∀ r, r ∈ (bt.pruneLoop (bt.roundOf cN) fuel blocksToCheck pruned found).1 ↔
        r ∈ pruned ∨ ∃ p ∈ blocksToCheck, ∃ q, bt.Reach p q ∧ ¬ bt.Reach cN q ∧ bt.roundOf q = r) ∧
      ((bt.pruneLoop (bt.roundOf cN) fuel blocksToCheck pruned found).2 = true ↔
        found = true ∨ ∃ p ∈ blocksToCheck, ∃ q, bt.Reach p q ∧ ¬ bt.Reach cN q ∧
          cN ∈ bt.children q) := by
  intro fuel
  induction fuel with
  | zero =>
    -- no fuel left: the stack is empty, as each node on it is outside the subtree of `cN`
    intro blocksToCheck pruned found hstack hfuel
    cases blocksToCheck with
    | nil => simp [pruneLoop]
    | cons p rest =>
      have hpos : 0 < (outside bt cN p).card :=
        Finset.card_pos.mpr ⟨p, Forest.mem_subtree.mpr
          ⟨(hstack p (List.mem_cons_self ..)).1, Forest.Reach.rfl',
            (hstack p (List.mem_cons_self ..)).2⟩⟩
      simp only [List.map_cons, List.sum_cons] at hfuel
      omega
  | succ fuel ih =>
    intro blocksToCheck pruned found hstack hfuel
    cases blocksToCheck with
    | nil => simp [pruneLoop]
    | cons p rest =>
      obtain ⟨hp, hpc⟩ := hstack p (List.mem_cons_self ..)
      set pushed := (bt.children p).filter (fun c => bt.roundOf c ≠ bt.roundOf cN) with hpushed
      have hstep : bt.pruneLoop (bt.roundOf cN) (fuel + 1) (p :: rest) pruned found =
          bt.pruneLoop (bt.roundOf cN) fuel (pushed.reverse ++ rest) (pruned ++ [bt.roundOf p])
            (found || (bt.children p).any fun c => bt.roundOf c = bt.roundOf cN) :=
        pruneLoop_cons ..
      -- the pushed children are outside the subtree of `cN`, with fewer nodes below them
      have hstack' : ∀ x ∈ pushed.reverse ++ rest, x ∈ bt.indexed ∧ ¬ bt.Reach cN x := by
        intro x hx
        rcases List.mem_append.mp hx with hx | hx
        · exact hinv.child_outside hcN hp hpc (List.mem_reverse.mp hx)
        · exact hstack x (List.mem_cons_of_mem _ hx)
      have hlt : (pushed.map fun c => (outside bt cN c).card).sum < (outside bt cN p).card :=
        Forest.sum_card_subtree_lt hinv.isForest hp hpc ((hinv.nodup p hp).filter _)
          fun c hc => (List.mem_filter.mp hc).1
      have hfuel' : ((pushed.reverse ++ rest).map fun x => (outside bt cN x).card).sum ≤ fuel := by
        simp only [List.map_append, List.map_reverse, List.sum_append, List.sum_reverse]
        simp only [List.map_cons, List.sum_cons] at hfuel
        omega
      obtain ⟨ihr, ihf⟩ := ih _ _ _ hstack' hfuel'
      have hsplit := hinv.exists_outside_iff hcN hp hpc
      have hany : ((bt.children p).any fun c => bt.roundOf c = bt.roundOf cN) = true ↔
          cN ∈ bt.children p := by
        rw [List.any_eq_true]
        constructor
        · rintro ⟨c, hc, hcr⟩
          rwa [← hinv.eq_of_roundOf_eq (hinv.of_mem_children hp hc).1 hcN (of_decide_eq_true hcr)]
        · intro hc
          exact ⟨cN, hc, decide_eq_true rfl⟩
      -- the popped node's part of the tree is itself and the parts below its pushed children
      have hbelow : ∀ Φ : Nat → Prop,
          ((∃ x ∈ pushed.reverse ++ rest, ∃ q, bt.Reach x q ∧ ¬ bt.Reach cN q ∧ Φ q) ↔
            (∃ x ∈ pushed, ∃ q, bt.Reach x q ∧ ¬ bt.Reach cN q ∧ Φ q) ∨
              ∃ x ∈ rest, ∃ q, bt.Reach x q ∧ ¬ bt.Reach cN q ∧ Φ q) := fun Φ => by
        simp only [List.mem_append, List.mem_reverse, or_and_right, exists_or]
      have hcons : ∀ Φ : Nat → Prop,
          ((∃ x ∈ p :: rest, ∃ q, bt.Reach x q ∧ ¬ bt.Reach cN q ∧ Φ q) ↔
            (∃ q, bt.Reach p q ∧ ¬ bt.Reach cN q ∧ Φ q) ∨
              ∃ x ∈ rest, ∃ q, bt.Reach x q ∧ ¬ bt.Reach cN q ∧ Φ q) := fun Φ => by
        simp only [List.mem_cons, or_and_right, exists_or, exists_eq_left]
      rw [hstep]
      constructor
      · intro r
        have hmem : r ∈ pruned ++ [bt.roundOf p] ↔ r ∈ pruned ∨ bt.roundOf p = r := by
          rw [List.mem_append, List.mem_singleton, eq_comm]
        have h₁ := hbelow fun q => bt.roundOf q = r
        have h₂ := hcons fun q => bt.roundOf q = r
        have h₃ := hsplit fun q => bt.roundOf q = r
        beta_reduce at h₁ h₂ h₃
        rw [ihr r, hmem, h₁, h₂, h₃]
        simp only [or_assoc, hpushed]
      · have h₁ := hbelow fun q => cN ∈ bt.children q
        have h₂ := hcons fun q => cN ∈ bt.children q
        have h₃ := hsplit fun q => cN ∈ bt.children q
        beta_reduce at h₁ h₂ h₃
        rw [ihf, Bool.or_eq_true, hany, h₁, h₂, h₃]
        simp only [or_assoc, hpushed]

end Prune

/-- `findBlocksToPrune r` returns exactly the rounds of the tree's nodes outside the subtree of the
node of round `r`. -/
theorem TreeInv.findBlocksToPrune_spec {bt : BlockTree SS D} (hinv : TreeInv bt) {nr : UInt64}
    {cN : Nat} (hcN : bt.roundToNode.lookup nr = some cN) :
    ∃ pruned, bt.findBlocksToPrune nr = .ok pruned ∧
      ∀ r, r ∈ pruned ↔ ∃ q ∈ bt.indexed, ¬ bt.Reach cN q ∧ bt.roundOf q = r := by
  obtain ⟨hcNi, rfl⟩ := hinv.lookup_iff.mp hcN
  by_cases hroot : cN = bt.root
  · -- committing the root prunes nothing: every node lies below it
    subst hroot
    refine ⟨[], by simp only [findBlocksToPrune, roundOf, if_true], fun r => ?_⟩
    constructor
    · intro h
      cases h
    · rintro ⟨q, hq, hqc, -⟩
      exact absurd (hinv.reach_root_iff.mpr hq) hqc
  have hne : bt.roundOf cN ≠ (bt.nodes bt.root).data.getRound := fun h =>
    hroot (hinv.eq_of_roundOf_eq hcNi hinv.root_mem_indexed h)
  -- the root lies outside the subtree of `cN`, and holds the tree's nodes
  have hrootc : ¬ bt.Reach cN bt.root := fun h =>
    hroot (Forest.Reach.antisymm hinv.isForest h (hinv.reach_root_iff.mpr hcNi) hcNi)
  have hfuel : ([bt.root].map fun p => (outside bt cN p).card).sum ≤
      bt.roundToNode.entries.length := by
    simp only [List.map_cons, List.map_nil, List.sum_cons, List.sum_nil, add_zero]
    exact Forest.card_subtree_le.trans (card_indexed_le bt)
  obtain ⟨hpruned, hfound⟩ := hinv.pruneLoop_spec hcNi _ [bt.root] [] false
    (by simpa using ⟨hinv.root_mem_indexed, hrootc⟩) hfuel
  -- the parent of `cN` lies outside its subtree
  obtain ⟨q, hq, -, hcq, hlt⟩ := hinv.exists_parent hcNi hroot
  have hqc : ¬ bt.Reach cN q := fun h =>
    absurd (hinv.roundOf_le_of_reach h hcNi) (UInt64.not_le.mpr hlt)
  have hfound' := hfound.mpr (.inr ⟨bt.root, List.mem_singleton_self _, q,
    hinv.reach_root_iff.mpr hq, hqc, hcq⟩)
  generalize hloop : bt.pruneLoop (bt.roundOf cN) bt.roundToNode.entries.length [bt.root] [] false
    = result at hpruned hfound'
  obtain ⟨pruned, found⟩ := result
  cases hfound'
  refine ⟨pruned, by simp only [findBlocksToPrune, if_neg hne, hloop, if_true], fun r => ?_⟩
  rw [hpruned r]
  simp only [List.not_mem_nil, List.mem_singleton, exists_eq_left, false_or]
  constructor
  · rintro ⟨q, hq, hqc, rfl⟩
    exact ⟨q, hinv.reach_root_iff.mp hq, hqc, rfl⟩
  · rintro ⟨q, hq, hqc, rfl⟩
    exact ⟨q, hinv.reach_root_iff.mpr hq, hqc, rfl⟩

/-! ### Commit -/

/-- The tree rooted at its node `cN`, with the rounds `pruned` out of the index: what a `Commit`
that returns leaves, but for the blocks it writes. -/
def reroot (bt : BlockTree SS D) (cN : Nat) (pruned : List UInt64) : BlockTree SS D :=
  { bt with roundToNode := pruned.foldl (fun m r => m.erase r) bt.roundToNode, root := cN }

theorem lookup_foldl_erase (pruned : List UInt64) :
    ∀ (m : AList fun _ : UInt64 => Nat) (r : UInt64),
      (pruned.foldl (fun m r => m.erase r) m).lookup r = if r ∈ pruned then none else m.lookup r := by
  induction pruned with
  | nil => intro m r; simp
  | cons r' pruned ih =>
    intro m r
    rw [List.foldl_cons, ih]
    by_cases hr : r = r'
    · subst hr
      simp [AList.lookup_erase]
    · simp [AList.lookup_erase_ne hr, hr]

theorem SameShape.reroot {bt bt' : BlockTree SS D} (h : SameShape bt bt') (cN : Nat)
    (pruned : List UInt64) : SameShape (bt.reroot cN pruned) (bt'.reroot cN pruned) where
  children := h.children
  roundOf := h.roundOf
  parentRoundOf := h.parentRoundOf
  roundToNode := by simp only [BlockTree.reroot, h.roundToNode]
  root := rfl
  next := h.next

section Reroot

variable {bt : BlockTree SS D} (hinv : TreeInv bt) {cN : Nat} (hcN : cN ∈ bt.indexed)
  {pruned : List UInt64}
  (hpruned : ∀ r, r ∈ pruned ↔ ∃ q ∈ bt.indexed, ¬ bt.Reach cN q ∧ bt.roundOf q = r)
include hinv hcN hpruned

omit hcN in
/-- Pruning the rounds outside the subtree of `cN` keeps in the index the nodes below `cN`. -/
theorem TreeInv.lookup_reroot {r : UInt64} {p : Nat} :
    (bt.reroot cN pruned).roundToNode.lookup r = some p ↔
      bt.roundToNode.lookup r = some p ∧ bt.Reach cN p := by
  simp only [BlockTree.reroot, lookup_foldl_erase]
  by_cases hr : r ∈ pruned
  · -- a pruned round is that of a node outside the subtree
    obtain ⟨q, hq, hqc, rfl⟩ := (hpruned r).mp hr
    simp only [hr, if_true, reduceCtorEq, false_iff, not_and]
    intro hp hreach
    rw [hinv.eq_of_roundOf_eq hq (hinv.lookup_iff.mp hp).1 (hinv.lookup_iff.mp hp).2.symm] at hqc
    exact hqc hreach
  · simp only [hr, if_false, iff_self_and]
    intro hp
    obtain ⟨hpi, rfl⟩ := hinv.lookup_iff.mp hp
    by_contra hreach
    exact hr ((hpruned _).mpr ⟨p, hpi, hreach, rfl⟩)

omit hcN in
theorem TreeInv.mem_indexed_reroot {p : Nat} :
    p ∈ (bt.reroot cN pruned).indexed ↔ p ∈ bt.indexed ∧ bt.Reach cN p := by
  simp only [mem_indexed, hinv.lookup_reroot hpruned]
  constructor
  · rintro ⟨r, hr, hreach⟩
    exact ⟨⟨r, hr⟩, hreach⟩
  · rintro ⟨⟨r, hr⟩, hreach⟩
    exact ⟨r, hr, hreach⟩

/-- Rooting the tree at `cN` and pruning the rounds outside its subtree keeps the invariant. -/
theorem TreeInv.reroot : TreeInv (bt.reroot cN pruned) := by
  have hroot : ∀ {p}, bt.Reach cN p → p = bt.root → p = cN := by
    rintro p hreach rfl
    exact Forest.Reach.antisymm hinv.isForest (hinv.reach_root_iff.mpr hcN) hreach
      hinv.root_mem_indexed
  have hmem := fun q => hinv.mem_indexed_reroot hpruned (p := q)
  refine ⟨?lookup_round, ?lookup_root, ?parent, ?nodup, ?mem_children⟩
  case lookup_round =>
    intro r p hr
    exact hinv.lookup_round r p ((hinv.lookup_reroot hpruned).mp hr).1
  case lookup_root =>
    exact (hinv.lookup_reroot hpruned).mpr ⟨hinv.lookup_self hcN, Forest.Reach.rfl'⟩
  case parent =>
    intro p hp hne
    obtain ⟨hpi, hreach⟩ := (hmem p).mp hp
    have hnr : p ≠ bt.root := fun h => hne (hroot hreach h)
    obtain ⟨q, hq, hlookup, hpq, -⟩ := hinv.exists_parent hpi hnr
    -- the parent lies below `cN` too, since `p` is not `cN`
    have hqreach : bt.Reach cN q :=
      Forest.Reach.of_child hinv.isForest hreach hpq hcN hq (Ne.symm hne)
    refine ⟨AList.lookup_isSome.mp ?_, (hinv.parent p hpi hnr).2⟩
    change (AList.lookup (bt.parentRoundOf p) _).isSome = true
    rw [(hinv.lookup_reroot hpruned).mpr ⟨hlookup, hqreach⟩]
    rfl
  case nodup =>
    intro p hp
    exact hinv.nodup p ((hmem p).mp hp).1
  case mem_children =>
    intro p hp c
    obtain ⟨hpi, hreach⟩ := (hmem p).mp hp
    show c ∈ bt.children p ↔ _ ∧ _ ∧ bt.parentRoundOf c = bt.roundOf p
    rw [hmem c, hinv.mem_children p hpi]
    constructor
    · rintro ⟨hci, hcr, hcp⟩
      -- `cN` is no child of a node below it
      refine ⟨⟨hci, Forest.Reach.tail hreach ((hinv.mem_children p hpi c).mpr ⟨hci, hcr, hcp⟩)⟩,
        ?_, hcp⟩
      intro hc
      have hc' : c = cN := hc
      have hchild : cN ∈ bt.children p := hc' ▸ (hinv.mem_children p hpi c).mpr ⟨hci, hcr, hcp⟩
      have hlt := (hinv.of_mem_children hpi hchild).2.2.2
      exact absurd (hinv.roundOf_le_of_reach hreach hcN) (UInt64.not_le.mpr hlt)
    · rintro ⟨⟨hci, hcreach⟩, hcN', hcp⟩
      exact ⟨hci, fun h => hcN' (hroot hcreach h), hcp⟩

/-- The rerooted tree holds the rounds of the subtree of `cN`. -/
theorem TreeInv.mem_reroot_iff {r : UInt64} :
    r ∈ (bt.reroot cN pruned).roundToNode ↔ ∃ p, bt.Reach cN p ∧ bt.roundOf p = r := by
  rw [← AList.lookup_isSome, Option.isSome_iff_exists]
  constructor
  · rintro ⟨p, hp⟩
    obtain ⟨hlookup, hreach⟩ := (hinv.lookup_reroot hpruned).mp hp
    exact ⟨p, hreach, (hinv.lookup_iff.mp hlookup).2⟩
  · rintro ⟨p, hreach, rfl⟩
    exact ⟨p, (hinv.lookup_reroot hpruned).mpr
      ⟨hinv.lookup_self (hinv.reach_mem hreach hcN), hreach⟩⟩

end Reroot

/-- A write to a block that keeps its `BlockData` keeps it at every address. -/
theorem setData_blockData (bt : BlockTree SS D) (p q : Nat) {f : ExecutedBlock SS → ExecutedBlock SS}
    (hf : ∀ b, (f b).blockData = b.blockData) :
    ((bt.setData p f).nodes q).data.blockData = (bt.nodes q).data.blockData := by
  rw [setData_data]
  split <;> simp_all

/-- Trees whose nodes have the same children and `BlockData`, with the same index, root and next
address, are of one shape. -/
theorem sameShape_of_nodes {bt bt' : BlockTree SS D}
    (hchild : ∀ p, (bt'.nodes p).child = (bt.nodes p).child)
    (hdata : ∀ p, (bt'.nodes p).data.blockData = (bt.nodes p).data.blockData)
    (hindex : bt'.roundToNode = bt.roundToNode) (hroot : bt'.root = bt.root)
    (hnext : bt'.next = bt.next) : SameShape bt bt' where
  children := hchild
  roundOf p := by simp only [roundOf, ExecutedBlock.getRound, hdata]
  parentRoundOf p := by simp only [parentRoundOf, ExecutedBlock.getParentRound, hdata]
  roundToNode := hindex
  root := hroot
  next := hnext

variable (env : TreeEnv SS D CR)

/-- A `Commit` that returns has found the node of its round, pruned the rounds a tree of the same
shape gives, and left that tree rooted at the node, its blocks aside. -/
theorem commit_eq_ok {qc : QuorumCert} {bt bt' : BlockTree SS D} {ucs : List CR}
    (h : commit env qc bt = .ok ucs bt') :
    ∃ cN bt₂ pruned, bt.roundToNode.lookup (QuorumCert.getParentRound (some qc)) = some cN ∧
      SameShape bt bt₂ ∧ bt₂.findBlocksToPrune (QuorumCert.getParentRound (some qc)) = .ok pruned ∧
      SameShape (bt.reroot cN pruned) bt' := by
  unfold commit at h
  rcases hr : bt.roundToNode.lookup (QuorumCert.getParentRound (some qc)) with _ | cN <;>
    simp only [hr] at h
  · cases h
  split at h
  · cases h
  rename_i pruned hprune
  split at h
  · cases h
  split at h
  · cases h
  cases h
  refine ⟨cN, _, pruned, rfl, ?_, hprune, ?_⟩
  -- the writes to the committed block keep the shape
  · refine SameShape.trans (sameShape_setData _ cN ?_) (sameShape_setData _ cN ?_) <;>
      exact fun _ => rfl
  · refine sameShape_of_nodes (fun q => ?_) (fun q => ?_) rfl rfl rfl
    · simp only [setData_child, BlockTree.reroot]
    · simp (disch := exact fun _ => rfl) only [setData_blockData, BlockTree.reroot]

/-- `bt'` is `bt` committed at its node `cN`: rooted there, reaching the nodes below `cN`, and
indexing their rounds. -/
structure Committed (bt : BlockTree SS D) (cN : Nat) (bt' : BlockTree SS D) : Prop where
  root : bt'.root = cN
  reach : ∀ p, bt'.Reach bt'.root p ↔ bt.Reach cN p
  keys : ∀ r, r ∈ bt'.roundToNode ↔ ∃ p, bt.Reach cN p ∧ bt.roundOf p = r

/-- A `Commit` that returns leaves the subtree of the node of the commit QC's parent round,
rooted there, with the invariant. -/
theorem TreeInv.commit_spec {bt : BlockTree SS D} (hinv : TreeInv bt) {qc : QuorumCert}
    {ucs : List CR} {bt' : BlockTree SS D} (h : commit env qc bt = .ok ucs bt') :
    ∃ cN, bt.roundToNode.lookup (QuorumCert.getParentRound (some qc)) = some cN ∧
      Committed bt cN bt' ∧ TreeInv bt' := by
  obtain ⟨cN, bt₂, pruned, hcN, hshape₂, hprune, hshape'⟩ := commit_eq_ok env h
  obtain ⟨pruned', hprune', hpruned'⟩ := hinv.findBlocksToPrune_spec hcN
  rw [hshape₂.findBlocksToPrune_eq, hprune'] at hprune
  cases hprune
  have hcNi := (hinv.lookup_iff.mp hcN).1
  have hinv' := hinv.reroot hcNi hpruned'
  refine ⟨cN, hcN, ⟨?_, fun p => ?_, fun r => ?_⟩, hshape'.treeInv hinv'⟩
  · exact hshape'.root
  · rw [hshape'.reach_eq, hshape'.root, hinv'.reach_root_iff,
      hinv.mem_indexed_reroot hpruned']
    exact ⟨And.right, fun hreach => ⟨hinv.reach_mem hreach hcNi, hreach⟩⟩
  · rw [hshape'.roundToNode]
    exact hinv.mem_reroot_iff hcNi hpruned'

/-! ### A failed commit -/

/-- `bt'` is `bt` with only the node `cN` written, its children and `BlockData` kept, and the
index perhaps changed. -/
structure ChangedAt (bt : BlockTree SS D) (cN : Nat) (bt' : BlockTree SS D) : Prop where
  nodes : ∀ p, p ≠ cN → bt'.nodes p = bt.nodes p
  child : (bt'.nodes cN).child = (bt.nodes cN).child
  blockData : (bt'.nodes cN).data.blockData = (bt.nodes cN).data.blockData
  root : bt'.root = bt.root
  next : bt'.next = bt.next
  highQc : bt'.highQc = bt.highQc
  blocksDB : bt'.blocksDB = bt.blocksDB

theorem ChangedAt.refl (bt : BlockTree SS D) (cN : Nat) : ChangedAt bt cN bt :=
  ⟨fun _ _ => rfl, rfl, rfl, rfl, rfl, rfl, rfl⟩

/-- A write to the node `cN` that keeps its `BlockData` changes nothing else. -/
theorem ChangedAt.setData {bt bt' : BlockTree SS D} {cN : Nat} (h : ChangedAt bt cN bt')
    {f : ExecutedBlock SS → ExecutedBlock SS} (hf : ∀ b, (f b).blockData = b.blockData) :
    ChangedAt bt cN (bt'.setData cN f) where
  nodes p hp := by rw [← h.nodes p hp, BlockTree.setData, modifyNode_nodes, if_neg hp]
  child := by rw [setData_child, h.child]
  blockData := by rw [setData_data, if_pos rfl, hf, h.blockData]
  root := h.root
  next := h.next
  highQc := h.highQc
  blocksDB := h.blocksDB

theorem ChangedAt.withIndex {bt bt' : BlockTree SS D} {cN : Nat} (h : ChangedAt bt cN bt')
    (m : AList fun _ : UInt64 => Nat) : ChangedAt bt cN { bt' with roundToNode := m } :=
  ⟨h.nodes, h.child, h.blockData, h.root, h.next, h.highQc, h.blocksDB⟩

/-- A `Commit` that fails either finds no block for its round and leaves the tree as it was, or
has written the committed block only, and has either kept the index or pruned the rounds a tree
of the same shape gives. -/
theorem commit_eq_error {qc : QuorumCert} {bt bt' : BlockTree SS D} {e : ConsensusError}
    (h : commit env qc bt = .error e bt') :
    (bt.roundToNode.lookup (QuorumCert.getParentRound (some qc)) = none ∧ bt' = bt) ∨
      ∃ cN bt₂, bt.roundToNode.lookup (QuorumCert.getParentRound (some qc)) = some cN ∧
        SameShape bt bt₂ ∧ ChangedAt bt cN bt' ∧
        ((∃ err, bt₂.findBlocksToPrune (QuorumCert.getParentRound (some qc)) = .error err) ∧
            bt'.roundToNode = bt.roundToNode ∨
          ∃ pruned, bt₂.findBlocksToPrune (QuorumCert.getParentRound (some qc)) = .ok pruned ∧
            bt'.roundToNode = (bt.reroot cN pruned).roundToNode) := by
  unfold commit at h
  rcases hr : bt.roundToNode.lookup (QuorumCert.getParentRound (some qc)) with _ | cN <;>
    simp only [hr] at h
  · cases h
    exact .inl ⟨rfl, rfl⟩
  -- the two writes before the pruning keep the shape and touch the committed block only
  have hshape := fun (bt : BlockTree SS D) (f g : ExecutedBlock SS → ExecutedBlock SS)
      (hf : ∀ b, (f b).blockData = b.blockData) (hg : ∀ b, (g b).blockData = b.blockData) =>
    (sameShape_setData bt cN hf).trans (sameShape_setData _ cN hg)
  have hchanged := fun (f g : ExecutedBlock SS → ExecutedBlock SS)
      (hf : ∀ b, (f b).blockData = b.blockData) (hg : ∀ b, (g b).blockData = b.blockData) =>
    ((ChangedAt.refl bt cN).setData hf).setData hg
  split at h
  · -- the pruning fails: the index is kept
    rename_i err hprune
    cases h
    refine .inr ⟨cN, _, rfl, ?_, ?_, .inl ⟨⟨err, hprune⟩, rfl⟩⟩
    · exact hshape _ _ _ (fun _ => rfl) (fun _ => rfl)
    · exact hchanged _ _ (fun _ => rfl) (fun _ => rfl)
  rename_i pruned hprune
  split at h
  · -- the certificates fail: the index is pruned
    cases h
    refine .inr ⟨cN, _, rfl, ?_, ?_, .inr ⟨pruned, hprune, rfl⟩⟩
    · exact hshape _ _ _ (fun _ => rfl) (fun _ => rfl)
    · refine (hchanged _ _ ?_ ?_).withIndex _ <;> exact fun _ => rfl
  split at h
  · -- the write fails: the index is pruned, and the block holds its certificates
    cases h
    refine .inr ⟨cN, _, rfl, ?_, ?_, .inr ⟨pruned, hprune, rfl⟩⟩
    · exact hshape _ _ _ (fun _ => rfl) (fun _ => rfl)
    · refine ((hchanged _ _ ?_ ?_).withIndex _).setData ?_ <;> exact fun _ => rfl
  · cases h

/-- A `Commit` that fails leaves the root, the stored blocks and every block but the committed
one; when no block has its round it leaves the whole tree, and otherwise the index holds exactly
the rounds of the committed block's subtree. -/
theorem TreeInv.commit_error_spec {bt : BlockTree SS D} (hinv : TreeInv bt) {qc : QuorumCert}
    {e : ConsensusError} {bt' : BlockTree SS D} (h : commit env qc bt = .error e bt') :
    (bt.roundToNode.lookup (QuorumCert.getParentRound (some qc)) = none → bt' = bt) ∧
      ∀ cN, bt.roundToNode.lookup (QuorumCert.getParentRound (some qc)) = some cN →
        ChangedAt bt cN bt' ∧ ∀ r, r ∈ bt'.roundToNode ↔ ∃ p, bt.Reach cN p ∧ bt.roundOf p = r := by
  rcases commit_eq_error env h with ⟨hnone, rfl⟩ | ⟨cN, bt₂, hcN, hshape₂, hchanged, hindex⟩
  · exact ⟨fun _ => rfl, fun cN hcN => absurd (hnone.symm.trans hcN) (by simp)⟩
  refine ⟨fun hnone => absurd (hnone.symm.trans hcN) (by simp), fun cN' hcN' => ?_⟩
  obtain rfl : cN = cN' := Option.some.inj (hcN.symm.trans hcN')
  -- on a tree with the invariant the pruning returns the rounds outside the subtree
  obtain ⟨pruned, hprune, hpruned⟩ := hinv.findBlocksToPrune_spec hcN
  rw [hshape₂.findBlocksToPrune_eq, hprune] at hindex
  rcases hindex with ⟨⟨err, herr⟩, -⟩ | ⟨pruned', hprune', hindex⟩
  · cases herr
  cases hprune'
  refine ⟨hchanged, fun r => ?_⟩
  rw [show r ∈ bt'.roundToNode ↔ r ∈ (bt.reroot cN pruned).roundToNode from by rw [hindex]]
  exact hinv.mem_reroot_iff (hinv.lookup_iff.mp hcN).1 hpruned

/-! ### Runs -/

/-- The calls along which the tree keeps its invariant: an added block is of a later round than
its QC's, and a commit either finds no block for its round or returns. -/
def TreeCall.Admissible : TreeCall SS → BlockTree SS D → Prop
  | .add block, _ => block.getParentRound < block.getRound
  | .commit commitQc, bt =>
    bt.roundToNode.lookup (QuorumCert.getParentRound (some commitQc)) = none ∨
      ∃ ucs bt', commit env commitQc bt = .ok ucs bt'
  | .insertQc _, _ => True
  | .removeLeaf _, _ => True

/-- The trees of a run: built by `NewBlockTreeWithRootBlock` or `NewBlockTree`, then changed by
admissible calls. -/
inductive Reachable : BlockTree SS D → Prop
  | withRootBlock [Inhabited SS] {block : ExecutedBlock SS} {bDB : D} {bt : BlockTree SS D} :
      newBlockTreeWithRootBlock env block bDB = .ok bt → Reachable bt
  | recovered [Inhabited SS] {bDB : Option D} {bt : BlockTree SS D} :
      newBlockTree env bDB = .ok bt → Reachable bt
  | call {bt : BlockTree SS D} {c : TreeCall SS} :
      Reachable bt → TreeCall.Admissible env c bt → Reachable (c.run env bt)

variable {env}

theorem TreeInv.run {bt : BlockTree SS D} (hinv : TreeInv bt) {c : TreeCall SS}
    (hc : TreeCall.Admissible env c bt) : TreeInv (c.run env bt) := by
  cases c with
  | add block => exact hinv.add hc
  | insertQc qc => exact hinv.insertQc qc
  | removeLeaf round => exact hinv.removeLeaf round
  | commit commitQc =>
    rcases hc with hnone | ⟨ucs, bt', hok⟩
    · -- no block for the round: the commit fails at once
      have herr : EStateM.final (commit env commitQc) bt = bt := by
        simp only [EStateM.final, commit, hnone]
      show TreeInv (EStateM.final (commit env commitQc) bt)
      rwa [herr]
    · obtain ⟨-, -, -, hinv'⟩ := hinv.commit_spec env hok
      show TreeInv (EStateM.final (commit env commitQc) bt)
      rwa [EStateM.final, hok]

/-- Every tree of a run has the invariant, when the store lists its blocks newest first. -/
theorem TreeInv.of_reachable
    (hload : ∀ d blocks, env.loadBlocks d = .ok blocks →
      blocks.Pairwise fun a b => b.getRound < a.getRound)
    {bt : BlockTree SS D} (hreach : Reachable env bt) : TreeInv bt := by
  induction hreach with
  | withRootBlock h => exact TreeInv.newBlockTreeWithRootBlock h
  | recovered h => exact TreeInv.newBlockTree hload h
  | call _ hc ih => exact ih.run hc

/-! ### The tree along its runs -/

/-- What a tree of a run satisfies: its shape; a commit that returns leaves the subtree of its
block, `findBlocksToPrune` giving the rounds outside it; and `findPathToRoot` gives the blocks
from each round of the tree up to the root. -/
structure TreeSpec (env : TreeEnv SS D CR) (bt : BlockTree SS D) : Prop where
  shape : Shape bt
  commit : ∀ qc ucs bt', commit env qc bt = .ok ucs bt' →
    ∃ cN, bt.roundToNode.lookup (QuorumCert.getParentRound (some qc)) = some cN ∧
      Committed bt cN bt' ∧
      ∃ pruned, bt.findBlocksToPrune (QuorumCert.getParentRound (some qc)) = .ok pruned ∧
        ∀ r, r ∈ pruned ↔ ∃ q ∈ bt.indexed, ¬ bt.Reach cN q ∧ bt.roundOf q = r
  path : ∀ r ∈ bt.roundToNode, ∃ p path, bt.roundToNode.lookup r = some p ∧
    bt.findPathToRoot r = some path ∧ PathUp bt p path

theorem block_tree_shape
    (hload : ∀ d blocks, env.loadBlocks d = .ok blocks →
      blocks.Pairwise fun a b => b.getRound < a.getRound)
    {bt : BlockTree SS D} (hreach : Reachable env bt) : TreeSpec env bt := by
  have hinv := TreeInv.of_reachable hload hreach
  refine ⟨hinv.shape, fun qc ucs bt' h => ?_, fun r hr => hinv.findPathToRoot_spec hr⟩
  obtain ⟨cN, hcN, hcommitted, -⟩ := hinv.commit_spec env h
  exact ⟨cN, hcN, hcommitted, hinv.findBlocksToPrune_spec hcN⟩

theorem commit_failure_frame
    (hload : ∀ d blocks, env.loadBlocks d = .ok blocks →
      blocks.Pairwise fun a b => b.getRound < a.getRound)
    {bt : BlockTree SS D} (hreach : Reachable env bt) {qc : QuorumCert} {e : ConsensusError}
    {bt' : BlockTree SS D} (h : commit env qc bt = .error e bt') :
    (bt.roundToNode.lookup (QuorumCert.getParentRound (some qc)) = none → bt' = bt) ∧
      ∀ cN, bt.roundToNode.lookup (QuorumCert.getParentRound (some qc)) = some cN →
        ChangedAt bt cN bt' ∧ ∀ r, r ∈ bt'.roundToNode ↔ ∃ p, bt.Reach cN p ∧ bt.roundOf p = r :=
  (TreeInv.of_reachable hload hreach).commit_error_spec env h

/-- The QC of round `round` over a block that extends round `parentRound`. -/
def roundQc (round parentRound : UInt64) : QuorumCert :=
  ⟨some ⟨round, 0, 0, parentRound, []⟩, none, ∅⟩

/-- A committed block of round `1`. -/
def firstBlock : ExecutedBlock Unit := ⟨⟨"", 1, 0, 0, none⟩, [], none, some (roundQc 1 0), ()⟩

/-- A block of round `2` extending the first. -/
def secondBlock : ExecutedBlock Unit := ⟨⟨"", 2, 0, 0, some (roundQc 1 0)⟩, [], none, none, ()⟩

/-- A store that keeps every block, over shard states with nothing in them; certificates are
generated, or fail as when the commit QC's hash is not the block's root hash. -/
def memoryEnv (certify : Bool) : TreeEnv Unit Unit Unit where
  writeBlock _ _ d := .ok d
  loadBlocks _ := .ok []
  newGenesisBlock := .ok firstBlock
  initBlock _ ss := .ok ss
  inheritLastCR _ ss := ss
  copyChanged ss _ := ss
  generateCertificates _ _ :=
    if certify then .ok ([], ()) else .error "root hash does not match hash in commit QC"

theorem block_tree_shape_secondBlock :
    (∀ d blocks, (memoryEnv true).loadBlocks d = .ok blocks →
      blocks.Pairwise fun a b => b.getRound < a.getRound) ∧
    Reachable (memoryEnv true)
      ((TreeCall.add secondBlock).run (memoryEnv true) (ofRoot firstBlock ())) ∧
    TreeSpec (memoryEnv true)
      ((TreeCall.add secondBlock).run (memoryEnv true) (ofRoot firstBlock ())) := by
  refine ⟨?hload, ?hreach, ?spec⟩
  case spec => exact block_tree_shape ?hload ?hreach
  case hload =>
    intro d blocks h
    injection h with h
    subst h
    exact List.Pairwise.nil
  case hreach =>
    exact .call (.withRootBlock (show newBlockTreeWithRootBlock (memoryEnv true) firstBlock () =
      .ok (ofRoot firstBlock ()) from rfl)) (show (1 : UInt64) < 2 by decide)

theorem commit_failure_frame_secondBlock :
    ∃ e bt', commit (memoryEnv false) (roundQc 3 2)
        ((TreeCall.add secondBlock).run (memoryEnv false) (ofRoot firstBlock ())) = .error e bt' ∧
      bt'.root = ((TreeCall.add secondBlock).run (memoryEnv false) (ofRoot firstBlock ())).root := by
  obtain ⟨e, bt', h⟩ : ∃ e bt', commit (memoryEnv false) (roundQc 3 2)
      ((TreeCall.add secondBlock).run (memoryEnv false) (ofRoot firstBlock ())) = .error e bt' :=
    ⟨_, _, rfl⟩
  have hload : ∀ d blocks, (memoryEnv false).loadBlocks d = .ok blocks →
      blocks.Pairwise fun a b => b.getRound < a.getRound := by
    intro d blocks h
    injection h with h
    subst h
    exact List.Pairwise.nil
  have hreach : Reachable (memoryEnv false)
      ((TreeCall.add secondBlock).run (memoryEnv false) (ofRoot firstBlock ())) :=
    .call (.withRootBlock (show newBlockTreeWithRootBlock (memoryEnv false) firstBlock () =
      .ok (ofRoot firstBlock ()) from rfl)) (show (1 : UInt64) < 2 by decide)
  exact ⟨e, bt', h, ((commit_failure_frame hload hreach h).2 1 rfl).1.root⟩

/-- A commit whose certificates fail to generate has already pruned the index: the tree of the
first block grows the second, a QC of round `3` commits it, and the root stays the first block,
whose round has left the index. -/
theorem commit_failure_breaks_shape :
    newBlockTreeWithRootBlock (memoryEnv false) firstBlock () = .ok (ofRoot firstBlock ()) ∧
    secondBlock.getParentRound < secondBlock.getRound ∧
    ¬ Shape ((TreeCall.commit (roundQc 3 2)).run (memoryEnv false)
      ((TreeCall.add secondBlock).run (memoryEnv false) (ofRoot firstBlock ()))) := by
  refine ⟨rfl, by decide, fun h => ?_⟩
  have hroot := AList.lookup_isSome.mpr h.root_mem
  revert hroot
  decide

/-- A store that keeps every block, over shard states that are the last certification response
of a single shard: the committed block takes the root's, as the loop of `Commit` copies
`LastCR`, and certificates fail to generate. -/
def lastCREnv : TreeEnv Nat Unit Unit where
  writeBlock _ _ d := .ok d
  loadBlocks _ := .ok []
  newGenesisBlock := .error "no genesis"
  initBlock _ ss := .ok ss
  inheritLastCR rootState _ := rootState
  copyChanged ss _ := ss
  generateCertificates _ _ := .error "root hash does not match hash in commit QC"

/-- A root block of round `1` whose shard's last response is `5`, and a block of round `2`
extending it whose shard's is `7`. -/
def lastCRRoot : ExecutedBlock Nat := ⟨⟨"", 1, 0, 0, none⟩, [], none, some (roundQc 1 0), 5⟩

def lastCRChild : ExecutedBlock Nat := ⟨⟨"", 2, 0, 0, some (roundQc 1 0)⟩, [], none, none, 7⟩

/-- A commit that fails has already written the committed block's shard state: the tree of the
two blocks, a QC of round `3` commits the second, the certificates fail, and the second block's
shard now holds the root's last response `5` instead of its `7`. -/
theorem failed_commit_rewrites_shard_state :
    Reachable lastCREnv ((TreeCall.add lastCRChild).run lastCREnv (ofRoot lastCRRoot ())) ∧
    ((TreeCall.add lastCRChild).run lastCREnv (ofRoot lastCRRoot ())).roundToNode.lookup 2 =
      some 1 ∧
    (((TreeCall.add lastCRChild).run lastCREnv (ofRoot lastCRRoot ())).nodes 1).data.shardState =
      7 ∧
    EStateM.returned (commit lastCREnv (roundQc 3 2))
      ((TreeCall.add lastCRChild).run lastCREnv (ofRoot lastCRRoot ())) = none ∧
    ((EStateM.final (commit lastCREnv (roundQc 3 2))
      ((TreeCall.add lastCRChild).run lastCREnv (ofRoot lastCRRoot ()))).nodes 1).data.shardState =
      5 := by
  refine ⟨.call (.withRootBlock (show newBlockTreeWithRootBlock lastCREnv lastCRRoot () =
      .ok (ofRoot lastCRRoot ()) from rfl)) (show (1 : UInt64) < 2 by decide), ?_, ?_, ?_, ?_⟩ <;>
    decide

end BlockTree

end BftCore.Rootchain
