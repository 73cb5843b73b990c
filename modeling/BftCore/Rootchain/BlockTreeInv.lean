import BftCore.Rootchain.BlockTree
import BftCore.Lib.Forest

/-!
# The block tree's invariant

`TreeInv` says that the round index and the child links of a `BlockTree` describe one tree: the
index maps each round to an allocated node of that round, the root is indexed, every other
indexed node has its parent round indexed and below its own, and the children of an indexed node
are, once each, the indexed nodes other than the root whose parent round is its round.

From it follow the facts the code relies on (`TreeInv.shape`): the nodes reachable from the root
through child links are exactly the indexed ones (`TreeInv.reach_root_iff`), the root has the
least round, and rounds grow strictly from parent to child; with unique parents and growing
rounds, the indexed nodes form a forest in the sense of `Forest.IsForest` (`TreeInv.isForest`).

The methods that change the tree keep `TreeInv`:

* a write to a block that keeps its `BlockData`, such as `InsertQc`'s, keeps the tree's shape
  (`SameShape`);
* `Add` and the recovery loop of `NewBlockTree` hang a new leaf below its parent (`withLeaf`,
  `TreeInv.withLeaf`);
* `RemoveLeaf` takes a leaf off its parent and out of the index (`TreeInv.withoutLeaf`).
-/

namespace BftCore.Rootchain

namespace BlockTree

variable {SS D CR : Type}

section Shape

variable (bt : BlockTree SS D)

/-- The children of the node at `p`. -/
def children (p : Nat) : List Nat := (bt.nodes p).child

/-- The round of the block at `p`. -/
def roundOf (p : Nat) : UInt64 := (bt.nodes p).data.getRound

/-- The parent round of the block at `p`. -/
def parentRoundOf (p : Nat) : UInt64 := (bt.nodes p).data.getParentRound

/-- `q` is `p` or lies below it, following child links. -/
def Reach : Nat → Nat → Prop := Forest.Reach bt.children

/-- The nodes the index holds. -/
def indexed : Finset Nat := (bt.roundToNode.entries.map Sigma.snd).toFinset

end Shape

theorem mem_indexed {bt : BlockTree SS D} {p : Nat} :
    p ∈ bt.indexed ↔ ∃ r, bt.roundToNode.lookup r = some p := by
  simp only [indexed, List.mem_toFinset, List.mem_map]
  constructor
  · rintro ⟨⟨r, q⟩, hs, rfl⟩
    exact ⟨r, AList.mem_lookup_iff.mpr hs⟩
  · rintro ⟨r, hr⟩
    exact ⟨⟨r, p⟩, AList.mem_lookup_iff.mp hr, rfl⟩

theorem card_indexed_le (bt : BlockTree SS D) :
    bt.indexed.card ≤ bt.roundToNode.entries.length := by
  simpa only [indexed, List.length_map] using
    List.toFinset_card_le (bt.roundToNode.entries.map Sigma.snd)

/-- The block tree's invariant: the index and the child links describe one tree. -/
structure TreeInv (bt : BlockTree SS D) : Prop where
  /-- an indexed node was allocated, and holds a block of the round it is indexed under -/
  lookup_round : ∀ r p, bt.roundToNode.lookup r = some p → p < bt.next ∧ bt.roundOf p = r
  /-- the root is indexed -/
  lookup_root : bt.roundToNode.lookup (bt.roundOf bt.root) = some bt.root
  /-- an indexed node other than the root has its parent round indexed, below its own round -/
  parent : ∀ p ∈ bt.indexed, p ≠ bt.root →
    bt.parentRoundOf p ∈ bt.roundToNode ∧ bt.parentRoundOf p < bt.roundOf p
  /-- an indexed node lists each child once -/
  nodup : ∀ p ∈ bt.indexed, (bt.children p).Nodup
  /-- the children of an indexed node are the indexed nodes other than the root whose parent
  round is its round -/
  mem_children : ∀ p ∈ bt.indexed, ∀ c,
    c ∈ bt.children p ↔ c ∈ bt.indexed ∧ c ≠ bt.root ∧ bt.parentRoundOf c = bt.roundOf p

/-- What the tree's users rely on: the index holds exactly the rounds of the nodes reachable from
the root, the root's round is among them and the least, and a child's parent round is its
parent's round, which is below its own. -/
structure Shape (bt : BlockTree SS D) : Prop where
  keys : ∀ r, r ∈ bt.roundToNode ↔ ∃ p, bt.Reach bt.root p ∧ bt.roundOf p = r
  root_mem : bt.roundOf bt.root ∈ bt.roundToNode
  root_le : ∀ r ∈ bt.roundToNode, bt.roundOf bt.root ≤ r
  child : ∀ p c, bt.Reach bt.root p → c ∈ bt.children p →
    bt.parentRoundOf c = bt.roundOf p ∧ bt.roundOf p < bt.roundOf c

namespace TreeInv

variable {bt : BlockTree SS D} (hinv : TreeInv bt)
include hinv

theorem lt_next {p : Nat} (hp : p ∈ bt.indexed) : p < bt.next := by
  obtain ⟨r, hr⟩ := mem_indexed.mp hp
  exact (hinv.lookup_round r p hr).1

/-- An indexed node is indexed under its own round. -/
theorem lookup_self {p : Nat} (hp : p ∈ bt.indexed) :
    bt.roundToNode.lookup (bt.roundOf p) = some p := by
  obtain ⟨r, hr⟩ := mem_indexed.mp hp
  rwa [(hinv.lookup_round r p hr).2]

theorem lookup_iff {r : UInt64} {p : Nat} :
    bt.roundToNode.lookup r = some p ↔ p ∈ bt.indexed ∧ bt.roundOf p = r := by
  constructor
  · intro hr
    exact ⟨mem_indexed.mpr ⟨r, hr⟩, (hinv.lookup_round r p hr).2⟩
  · rintro ⟨hp, rfl⟩
    exact hinv.lookup_self hp

/-- Two indexed nodes of one round are one node. -/
theorem eq_of_roundOf_eq {p q : Nat} (hp : p ∈ bt.indexed) (hq : q ∈ bt.indexed)
    (h : bt.roundOf p = bt.roundOf q) : p = q := by
  have hp' := hinv.lookup_self hp
  rw [h, hinv.lookup_self hq] at hp'
  exact (Option.some.inj hp').symm

theorem root_mem_indexed : bt.root ∈ bt.indexed :=
  mem_indexed.mpr ⟨_, hinv.lookup_root⟩

/-- An indexed node other than the root is a child of the node of its parent round, of an
earlier round. -/
theorem exists_parent {p : Nat} (hp : p ∈ bt.indexed) (hne : p ≠ bt.root) :
    ∃ q ∈ bt.indexed, bt.roundToNode.lookup (bt.parentRoundOf p) = some q ∧
      p ∈ bt.children q ∧ bt.roundOf q < bt.roundOf p := by
  obtain ⟨hmem, hlt⟩ := hinv.parent p hp hne
  obtain ⟨q, hq⟩ := Option.isSome_iff_exists.mp (AList.lookup_isSome.mpr hmem)
  obtain ⟨hqi, hqr⟩ := (hinv.lookup_iff).mp hq
  refine ⟨q, hqi, hq, (hinv.mem_children q hqi p).mpr ⟨hp, hne, hqr.symm⟩, ?_⟩
  rwa [hqr]

/-- A child of an indexed node is indexed, not the root, and of a later round whose parent round
is its parent's. -/
theorem of_mem_children {p c : Nat} (hp : p ∈ bt.indexed) (hc : c ∈ bt.children p) :
    c ∈ bt.indexed ∧ c ≠ bt.root ∧ bt.parentRoundOf c = bt.roundOf p ∧
      bt.roundOf p < bt.roundOf c := by
  obtain ⟨hci, hcr, hpar⟩ := (hinv.mem_children p hp c).mp hc
  refine ⟨hci, hcr, hpar, ?_⟩
  rw [← hpar]
  exact (hinv.parent c hci hcr).2

/-- The indexed nodes form a forest ordered by round. -/
theorem isForest : Forest.IsForest bt.children bt.indexed fun p => (bt.roundOf p).toNat where
  child_mem p hp c hc := (hinv.of_mem_children hp hc).1
  parent_unique p hp q hq c hcp hcq := by
    apply hinv.eq_of_roundOf_eq hp hq
    rw [← (hinv.of_mem_children hp hcp).2.2.1, ← (hinv.of_mem_children hq hcq).2.2.1]
  nodup := hinv.nodup
  rank_lt p hp c hc := UInt64.lt_iff_toNat_lt.mp (hinv.of_mem_children hp hc).2.2.2

/-- The nodes reachable from the root are the indexed ones. -/
theorem reach_root_iff {p : Nat} : bt.Reach bt.root p ↔ p ∈ bt.indexed := by
  constructor
  · intro h
    exact Forest.Reach.mem hinv.isForest h hinv.root_mem_indexed
  · -- up the parent links, by induction on the round
    intro hp
    induction hk : (bt.roundOf p).toNat using Nat.strong_induction_on generalizing p with
    | _ k ih =>
      by_cases hroot : p = bt.root
      · subst hroot
        exact Forest.Reach.rfl'
      · obtain ⟨q, hq, -, hpq, hlt⟩ := hinv.exists_parent hp hroot
        have hq' : bt.Reach bt.root q := ih _ (hk ▸ UInt64.lt_iff_toNat_lt.mp hlt) hq rfl
        exact Forest.Reach.tail hq' hpq

theorem reach_mem {p q : Nat} (h : bt.Reach p q) (hp : p ∈ bt.indexed) : q ∈ bt.indexed :=
  Forest.Reach.mem hinv.isForest h hp

theorem roundOf_le_of_reach {p q : Nat} (h : bt.Reach p q) (hp : p ∈ bt.indexed) :
    bt.roundOf p ≤ bt.roundOf q := by
  have hle := Forest.Reach.rank_le hinv.isForest h hp
  exact UInt64.le_iff_toNat_le.mpr hle

theorem roundOf_lt_of_reach {p q : Nat} (h : bt.Reach p q) (hp : p ∈ bt.indexed) (hne : p ≠ q) :
    bt.roundOf p < bt.roundOf q := by
  have hlt := Forest.Reach.rank_lt hinv.isForest h hp hne
  exact UInt64.lt_iff_toNat_lt.mpr hlt

/-- The root has the least round of the tree. -/
theorem root_le {p : Nat} (hp : p ∈ bt.indexed) : bt.roundOf bt.root ≤ bt.roundOf p :=
  hinv.roundOf_le_of_reach (hinv.reach_root_iff.mpr hp) hinv.root_mem_indexed

theorem shape : Shape bt where
  keys r := by
    rw [← AList.lookup_isSome, Option.isSome_iff_exists]
    constructor
    · rintro ⟨p, hp⟩
      obtain ⟨hpi, hpr⟩ := hinv.lookup_iff.mp hp
      exact ⟨p, hinv.reach_root_iff.mpr hpi, hpr⟩
    · rintro ⟨p, hp, rfl⟩
      exact ⟨p, hinv.lookup_self (hinv.reach_root_iff.mp hp)⟩
  root_mem := AList.lookup_isSome.mp (by rw [hinv.lookup_root]; rfl)
  root_le r hr := by
    obtain ⟨p, hp⟩ := Option.isSome_iff_exists.mp (AList.lookup_isSome.mpr hr)
    obtain ⟨hpi, rfl⟩ := hinv.lookup_iff.mp hp
    exact hinv.root_le hpi
  child p c hp hc :=
    have hc' := hinv.of_mem_children (hinv.reach_root_iff.mp hp) hc
    ⟨hc'.2.2.1, hc'.2.2.2⟩

end TreeInv

/-! ### Writes that keep the shape -/

/-- Two trees of one shape: the same child links and block rounds at every address, and the same
index, root and next address. -/
structure SameShape (bt bt' : BlockTree SS D) : Prop where
  children : ∀ p, bt'.children p = bt.children p
  roundOf : ∀ p, bt'.roundOf p = bt.roundOf p
  parentRoundOf : ∀ p, bt'.parentRoundOf p = bt.parentRoundOf p
  roundToNode : bt'.roundToNode = bt.roundToNode
  root : bt'.root = bt.root
  next : bt'.next = bt.next

namespace SameShape

variable {bt bt' bt'' : BlockTree SS D}

theorem rfl' : SameShape bt bt := ⟨fun _ => rfl, fun _ => rfl, fun _ => rfl, rfl, rfl, rfl⟩

theorem trans (h : SameShape bt bt') (h' : SameShape bt' bt'') : SameShape bt bt'' where
  children p := (h'.children p).trans (h.children p)
  roundOf p := (h'.roundOf p).trans (h.roundOf p)
  parentRoundOf p := (h'.parentRoundOf p).trans (h.parentRoundOf p)
  roundToNode := h'.roundToNode.trans h.roundToNode
  root := h'.root.trans h.root
  next := h'.next.trans h.next

theorem indexed_eq (h : SameShape bt bt') : bt'.indexed = bt.indexed := by
  simp only [indexed, h.roundToNode]

theorem reach_eq (h : SameShape bt bt') : bt'.Reach = bt.Reach := by
  simp only [Reach, funext h.children]

theorem treeInv (h : SameShape bt bt') (hinv : TreeInv bt) : TreeInv bt' where
  lookup_round r p hr := by
    rw [h.roundToNode] at hr
    rw [h.next, h.roundOf]
    exact hinv.lookup_round r p hr
  lookup_root := by
    rw [h.roundToNode, h.root, h.roundOf]
    exact hinv.lookup_root
  parent p hp hne := by
    rw [h.indexed_eq] at hp
    rw [h.root] at hne
    rw [h.parentRoundOf, h.roundOf, h.roundToNode]
    exact hinv.parent p hp hne
  nodup p hp := by
    rw [h.indexed_eq] at hp
    rw [h.children]
    exact hinv.nodup p hp
  mem_children p hp c := by
    rw [h.indexed_eq] at hp ⊢
    rw [h.children, h.root, h.parentRoundOf, h.roundOf]
    exact hinv.mem_children p hp c

end SameShape

/-- A write to a block that keeps its `BlockData` keeps the shape. -/
theorem sameShape_setData (bt : BlockTree SS D) (p : Nat)
    {f : ExecutedBlock SS → ExecutedBlock SS} (hf : ∀ b, (f b).blockData = b.blockData) :
    SameShape bt (bt.setData p f) where
  children q := setData_child bt p q f
  roundOf q := by
    simp only [roundOf, ExecutedBlock.getRound, setData_data]
    split <;> simp_all
  parentRoundOf q := by
    simp only [parentRoundOf, ExecutedBlock.getParentRound, setData_data]
    split <;> simp_all
  roundToNode := rfl
  root := rfl
  next := rfl

theorem sameShape_update (bt : BlockTree SS D) (bDB : D) (highQc : Option QuorumCert) :
    SameShape bt { bt with blocksDB := bDB, highQc := highQc } where
  children _ := rfl
  roundOf _ := rfl
  parentRoundOf _ := rfl
  roundToNode := rfl
  root := rfl
  next := rfl

/-- `InsertQc` only writes a QC into a block, whether it returns or fails. -/
theorem sameShape_insertQc (env : TreeEnv SS D CR) (qc : QuorumCert) (bt : BlockTree SS D) :
    SameShape bt (EStateM.final (insertQc env qc) bt) := by
  have hqc : ∀ p, SameShape bt (bt.setData p fun b => { b with qc := some qc }) :=
    fun p => sameShape_setData bt p fun _ => rfl
  -- each way out of the call leaves the tree, or the tree with the QC written
  rcases EStateM.final_cases (insertQc env qc) bt with ⟨_, h⟩ | ⟨_, h⟩
  all_goals
    generalize EStateM.final (insertQc env qc) bt = bt' at h ⊢
    unfold insertQc at h
    rcases hr : bt.roundToNode.lookup (QuorumCert.getRound (some qc)) with _ | p <;>
      rcases hv : qc.voteInfo with _ | voteInfo <;> simp only [hr, hv] at h
    all_goals (try split at h) <;> (try split at h) <;> cases h
  all_goals first
    | exact SameShape.rfl'
    | exact hqc _
    | trace_state; exact (hqc _).trans (sameShape_update _ _ _)

/-! ### A new leaf -/

/-- The tree with a new node for `block` below the node `parent`, indexed under `round`: what
`Add` and the recovery loop of `NewBlockTree` do to the tree. -/
def withLeaf (bt : BlockTree SS D) (parent : Nat) (block : ExecutedBlock SS) (round : UInt64) :
    BlockTree SS D :=
  { (bt.newNode block).2.addChild parent bt.next with
    roundToNode := bt.roundToNode.insert round bt.next }

section WithLeaf

variable (bt : BlockTree SS D) {parent : Nat} (block : ExecutedBlock SS) (round : UInt64)

@[simp] theorem withLeaf_roundToNode :
    (bt.withLeaf parent block round).roundToNode = bt.roundToNode.insert round bt.next := rfl

@[simp] theorem withLeaf_root : (bt.withLeaf parent block round).root = bt.root := rfl

@[simp] theorem withLeaf_next : (bt.withLeaf parent block round).next = bt.next + 1 := rfl

variable {bt} (hpar : parent < bt.next)
include hpar

theorem withLeaf_children (q : Nat) :
    (bt.withLeaf parent block round).children q =
      if q = parent then bt.children parent ++ [bt.next]
      else if q = bt.next then [] else bt.children q := by
  have hne : parent ≠ bt.next := Nat.ne_of_lt hpar
  simp only [children, withLeaf, addChild_nodes, newNode, Function.update_apply, hne, if_false]
  split_ifs <;> rfl

theorem withLeaf_data (q : Nat) :
    ((bt.withLeaf parent block round).nodes q).data =
      if q = bt.next then block else (bt.nodes q).data := by
  have hne : parent ≠ bt.next := Nat.ne_of_lt hpar
  simp only [withLeaf, addChild_nodes, newNode, Function.update_apply, hne, if_false]
  split_ifs <;> simp_all

theorem withLeaf_roundOf (q : Nat) :
    (bt.withLeaf parent block round).roundOf q =
      if q = bt.next then block.getRound else bt.roundOf q := by
  simp only [roundOf, withLeaf_data block round hpar]
  split_ifs <;> rfl

theorem withLeaf_parentRoundOf (q : Nat) :
    (bt.withLeaf parent block round).parentRoundOf q =
      if q = bt.next then block.getParentRound else bt.parentRoundOf q := by
  simp only [parentRoundOf, withLeaf_data block round hpar]
  split_ifs <;> rfl

end WithLeaf

theorem mem_indexed_withLeaf {bt : BlockTree SS D} {parent : Nat} {block : ExecutedBlock SS}
    {round : UInt64} (hnone : round ∉ bt.roundToNode) {q : Nat} :
    q ∈ (bt.withLeaf parent block round).indexed ↔ q = bt.next ∨ q ∈ bt.indexed := by
  simp only [mem_indexed, withLeaf_roundToNode]
  constructor
  · rintro ⟨r, hr⟩
    by_cases hrr : r = round
    · subst hrr
      rw [AList.lookup_insert] at hr
      exact .inl (Option.some.inj hr).symm
    · rw [AList.lookup_insert_ne hrr] at hr
      exact .inr ⟨r, hr⟩
  · rintro (rfl | ⟨r, hr⟩)
    · exact ⟨round, AList.lookup_insert _⟩
    · -- the new round was not in the index, so `r` is another one
      have hrr : r ≠ round := by
        rintro rfl
        exact hnone (AList.lookup_isSome.mp (by rw [hr]; rfl))
      exact ⟨r, by rw [AList.lookup_insert_ne hrr, hr]⟩

/-- A new leaf below an indexed node, of a round not yet in the tree and later than its parent
round, keeps the invariant. -/
theorem TreeInv.withLeaf {bt : BlockTree SS D} (hinv : TreeInv bt) {parent : Nat}
    {block : ExecutedBlock SS} {round : UInt64} (hnone : round ∉ bt.roundToNode)
    (hparent : bt.roundToNode.lookup block.getParentRound = some parent)
    (hround : block.getRound = round) (hlt : block.getParentRound < round) :
    TreeInv (bt.withLeaf parent block round) := by
  obtain ⟨hpi, hpr⟩ := hinv.lookup_iff.mp hparent
  have hpn : parent < bt.next := hinv.lt_next hpi
  have hfresh : ∀ q ∈ bt.indexed, q ≠ bt.next := fun q hq => Nat.ne_of_lt (hinv.lt_next hq)
  have hnot_child : ∀ q ∈ bt.indexed, bt.next ∉ bt.children q := fun q hq hc =>
    hfresh _ (hinv.of_mem_children hq hc).1 rfl
  have hroot : bt.root ≠ bt.next := hfresh _ hinv.root_mem_indexed
  have hkeys : ∀ r ∈ bt.roundToNode, r ≠ round := fun r hr h => hnone (h ▸ hr)
  have hmem : ∀ q, q ∈ (bt.withLeaf parent block round).indexed ↔ q = bt.next ∨ q ∈ bt.indexed :=
    fun _ => mem_indexed_withLeaf hnone
  refine ⟨?lookup_round, ?lookup_root, ?parent, ?nodup, ?mem_children⟩
  case lookup_round =>
    intro r p hr
    rw [withLeaf_roundToNode] at hr
    rw [withLeaf_next, withLeaf_roundOf block round hpn]
    by_cases hrr : r = round
    · subst hrr
      rw [AList.lookup_insert] at hr
      cases hr
      exact ⟨Nat.lt_succ_self _, by rw [if_pos rfl, hround]⟩
    · rw [AList.lookup_insert_ne hrr] at hr
      obtain ⟨hlt', hpr'⟩ := hinv.lookup_round r p hr
      exact ⟨Nat.lt_succ_of_lt hlt', by rw [if_neg (Nat.ne_of_lt hlt'), hpr']⟩
  case lookup_root =>
    have hne := hkeys _ (AList.lookup_isSome.mp (by rw [hinv.lookup_root]; rfl))
    rw [withLeaf_roundToNode, withLeaf_root, withLeaf_roundOf block round hpn, if_neg hroot,
      AList.lookup_insert_ne hne, hinv.lookup_root]
  case parent =>
    intro p hp hne
    rw [withLeaf_root] at hne
    rw [withLeaf_roundToNode, withLeaf_parentRoundOf block round hpn,
      withLeaf_roundOf block round hpn, AList.mem_insert]
    rcases (hmem p).mp hp with rfl | hp
    · rw [if_pos rfl, if_pos rfl, hround]
      exact ⟨.inr (AList.lookup_isSome.mp (by rw [hparent]; rfl)), hlt⟩
    · rw [if_neg (hfresh p hp), if_neg (hfresh p hp)]
      obtain ⟨hin, hlt'⟩ := hinv.parent p hp hne
      exact ⟨.inr hin, hlt'⟩
  case nodup =>
    intro p hp
    rw [withLeaf_children block round hpn]
    split_ifs with h₁ h₂
    · subst h₁
      exact List.Nodup.append (hinv.nodup _ hpi) (List.nodup_singleton _)
        (List.disjoint_singleton.mpr (hnot_child _ hpi))
    · exact List.nodup_nil
    · exact hinv.nodup p (((hmem p).mp hp).resolve_left h₂)
  case mem_children =>
    intro p hp c
    rw [withLeaf_children block round hpn, withLeaf_root, withLeaf_parentRoundOf block round hpn,
      withLeaf_roundOf block round hpn, hmem c]
    by_cases hc : c = bt.next
    · -- the new node is a child of `parent` only
      subst hc
      simp only [if_true, true_or, true_and, ne_eq, hroot.symm, not_false_eq_true]
      by_cases h₁ : p = parent
      · subst h₁
        simp only [if_true, if_neg (hfresh _ hpi), List.mem_append, List.mem_singleton, or_true,
          hpr]
      · rw [if_neg h₁]
        by_cases h₂ : p = bt.next
        · subst h₂
          simp only [if_true, List.not_mem_nil, hround, false_iff]
          exact UInt64.ne_of_lt hlt
        · have hpi' := ((hmem p).mp hp).resolve_left h₂
          simp only [if_neg h₂, hnot_child p hpi', false_iff]
          intro h
          exact h₁ (hinv.eq_of_roundOf_eq hpi' hpi (h.symm.trans hpr.symm))
    · simp only [hc, false_or]
      by_cases h₁ : p = parent
      · subst h₁
        simp only [if_true, if_neg (hfresh _ hpi), List.mem_append, List.mem_singleton, hc,
          or_false]
        exact hinv.mem_children _ hpi c
      · rw [if_neg h₁]
        by_cases h₂ : p = bt.next
        · -- the new node has no children: a node of its round's children would have it indexed
          subst h₂
          simp only [if_true, List.not_mem_nil, false_iff, not_and]
          intro hci hcr h
          exact hkeys _ (hinv.parent c hci hcr).1 (h.trans hround)
        · simp only [if_neg h₂]
          exact hinv.mem_children p (((hmem p).mp hp).resolve_left h₂) c

/-! ### A leaf removed -/

/-- The tree without the leaf `n` of round `round`, taken off the children of `parent`: what
`RemoveLeaf` does to the tree. -/
def withoutLeaf (bt : BlockTree SS D) (parent n : Nat) (round : UInt64) : BlockTree SS D :=
  { bt.removeChild parent n with roundToNode := bt.roundToNode.erase round }

section WithoutLeaf

variable (bt : BlockTree SS D) (parent n : Nat) (round : UInt64)

@[simp] theorem withoutLeaf_roundToNode :
    (bt.withoutLeaf parent n round).roundToNode = bt.roundToNode.erase round := rfl

@[simp] theorem withoutLeaf_root : (bt.withoutLeaf parent n round).root = bt.root := rfl

@[simp] theorem withoutLeaf_next : (bt.withoutLeaf parent n round).next = bt.next := rfl

theorem withoutLeaf_children (q : Nat) :
    (bt.withoutLeaf parent n round).children q =
      if q = parent then (bt.children parent).erase n else bt.children q := by
  simp only [children, withoutLeaf, removeChild_nodes]
  split_ifs <;> rfl

@[simp] theorem withoutLeaf_roundOf (q : Nat) :
    (bt.withoutLeaf parent n round).roundOf q = bt.roundOf q := by
  simp only [roundOf, withoutLeaf, removeChild_nodes]
  split_ifs <;> simp_all

@[simp] theorem withoutLeaf_parentRoundOf (q : Nat) :
    (bt.withoutLeaf parent n round).parentRoundOf q = bt.parentRoundOf q := by
  simp only [parentRoundOf, withoutLeaf, removeChild_nodes]
  split_ifs <;> simp_all

end WithoutLeaf

theorem TreeInv.mem_indexed_withoutLeaf {bt : BlockTree SS D} (hinv : TreeInv bt) {parent n : Nat}
    {round : UInt64} (hn : bt.roundToNode.lookup round = some n) {q : Nat} :
    q ∈ (bt.withoutLeaf parent n round).indexed ↔ q ∈ bt.indexed ∧ q ≠ n := by
  obtain ⟨hni, hnr⟩ := hinv.lookup_iff.mp hn
  simp only [mem_indexed, withoutLeaf_roundToNode]
  constructor
  · rintro ⟨r, hr⟩
    have hrr : r ≠ round := by
      rintro rfl
      rw [AList.lookup_erase] at hr
      cases hr
    rw [AList.lookup_erase_ne hrr] at hr
    refine ⟨⟨r, hr⟩, ?_⟩
    rintro rfl
    exact hrr ((hinv.lookup_round r _ hr).2.symm.trans hnr)
  · rintro ⟨hq, hqn⟩
    have hqi : q ∈ bt.indexed := mem_indexed.mpr hq
    -- the node of the removed round is `n`, so `q` is indexed under another round
    have hrr : bt.roundOf q ≠ round := fun h =>
      hqn (hinv.eq_of_roundOf_eq hqi hni (h.trans hnr.symm))
    exact ⟨bt.roundOf q, by rw [AList.lookup_erase_ne hrr, hinv.lookup_self hqi]⟩

/-- Removing a leaf other than the root from its parent and from the index keeps the
invariant. -/
theorem TreeInv.withoutLeaf {bt : BlockTree SS D} (hinv : TreeInv bt) {parent n : Nat}
    {round : UInt64} (hn : bt.roundToNode.lookup round = some n)
    (hroot : bt.roundOf bt.root ≠ round) (hleaf : bt.children n = [])
    (hparent : bt.roundToNode.lookup (bt.parentRoundOf n) = some parent) :
    TreeInv (bt.withoutLeaf parent n round) := by
  obtain ⟨hni, hnr⟩ := hinv.lookup_iff.mp hn
  obtain ⟨hpi, hpr⟩ := hinv.lookup_iff.mp hparent
  have hmem : ∀ q, q ∈ (bt.withoutLeaf parent n round).indexed ↔ q ∈ bt.indexed ∧ q ≠ n :=
    fun _ => hinv.mem_indexed_withoutLeaf hn
  -- no indexed node has `round` as its parent round: it would be a child of the leaf
  have hno_child : ∀ p ∈ bt.indexed, p ≠ bt.root → bt.parentRoundOf p ≠ round := by
    intro p hp hne h
    have hc : p ∈ bt.children n := (hinv.mem_children n hni p).mpr ⟨hp, hne, h.trans hnr.symm⟩
    rw [hleaf] at hc
    cases hc
  refine ⟨?lookup_round, ?lookup_root, ?parent, ?nodup, ?mem_children⟩
  case lookup_round =>
    intro r p hr
    rw [withoutLeaf_roundToNode] at hr
    rw [withoutLeaf_next, withoutLeaf_roundOf]
    have hrr : r ≠ round := by
      rintro rfl
      rw [AList.lookup_erase] at hr
      cases hr
    exact hinv.lookup_round r p (by rwa [AList.lookup_erase_ne hrr] at hr)
  case lookup_root =>
    rw [withoutLeaf_roundToNode, withoutLeaf_root, withoutLeaf_roundOf,
      AList.lookup_erase_ne hroot, hinv.lookup_root]
  case parent =>
    intro p hp hne
    rw [withoutLeaf_root] at hne
    obtain ⟨hpi', -⟩ := (hmem p).mp hp
    rw [withoutLeaf_roundToNode, withoutLeaf_parentRoundOf, withoutLeaf_roundOf, AList.mem_erase]
    obtain ⟨hin, hlt⟩ := hinv.parent p hpi' hne
    exact ⟨⟨hno_child p hpi' hne, hin⟩, hlt⟩
  case nodup =>
    intro p hp
    obtain ⟨hpi', -⟩ := (hmem p).mp hp
    rw [withoutLeaf_children]
    split_ifs with h
    · subst h
      exact (hinv.nodup _ hpi').erase n
    · exact hinv.nodup p hpi'
  case mem_children =>
    intro p hp c
    obtain ⟨hpi', hpn⟩ := (hmem p).mp hp
    rw [withoutLeaf_children, withoutLeaf_root, withoutLeaf_parentRoundOf, withoutLeaf_roundOf,
      hmem c]
    split_ifs with h
    · subst h
      rw [(hinv.nodup _ hpi').mem_erase_iff, hinv.mem_children _ hpi']
      tauto
    · -- `n` was a child of `parent` only
      rw [hinv.mem_children p hpi']
      constructor
      · rintro ⟨hci, hcr, hcp⟩
        refine ⟨⟨hci, ?_⟩, hcr, hcp⟩
        rintro rfl
        exact h (hinv.eq_of_roundOf_eq hpi' hpi (hcp.symm.trans hpr.symm))
      · rintro ⟨⟨hci, -⟩, hcr, hcp⟩
        exact ⟨hci, hcr, hcp⟩

/-! ### The methods -/

section Methods

variable (env : TreeEnv SS D CR)

/-- `Add` leaves the tree as it was, or with the new leaf below the node of the block's parent
round, whether the block is then stored or not. -/
theorem add_final (block : ExecutedBlock SS) (bt : BlockTree SS D) :
    EStateM.final (add env block) bt = bt ∨
      ∃ parent, block.getRound ∉ bt.roundToNode ∧
        bt.roundToNode.lookup block.getParentRound = some parent ∧
        SameShape (bt.withLeaf parent block block.getRound) (EStateM.final (add env block) bt) := by
  rcases EStateM.final_cases (add env block) bt with ⟨_, h⟩ | ⟨_, h⟩
  all_goals
    generalize EStateM.final (add env block) bt = bt' at h ⊢
    unfold add at h
    rcases hr : bt.roundToNode.lookup block.getRound with _ | q <;>
      rcases hp : bt.roundToNode.lookup block.getParentRound with _ | parent <;>
      simp only [hr, hp] at h
    all_goals (try split at h) <;> cases h
  all_goals first
    | exact .inl rfl
    | exact .inr ⟨_, AList.lookup_eq_none.mp hr, rfl, SameShape.rfl'⟩
    | exact .inr ⟨_, AList.lookup_eq_none.mp hr, rfl, sameShape_update _ _ _⟩

/-- `RemoveLeaf` leaves the tree as it was, or without a leaf other than the root, taken off the
node of its parent round. -/
theorem removeLeaf_final (round : UInt64) (bt : BlockTree SS D) :
    EStateM.final (removeLeaf round) bt = bt ∨
      ∃ n parent, bt.roundOf bt.root ≠ round ∧ bt.roundToNode.lookup round = some n ∧
        bt.children n = [] ∧ bt.roundToNode.lookup (bt.parentRoundOf n) = some parent ∧
        EStateM.final (removeLeaf round) bt = bt.withoutLeaf parent n round := by
  rcases EStateM.final_cases (removeLeaf round) bt with ⟨_, h⟩ | ⟨_, h⟩
  all_goals
    generalize EStateM.final (removeLeaf round) bt = bt' at h ⊢
    unfold removeLeaf at h
    by_cases hroot : (bt.nodes bt.root).data.getRound = round
    · simp only [hroot, if_true] at h
      cases h <;> exact .inl rfl
    rw [if_neg hroot] at h
    rcases hn : bt.roundToNode.lookup round with _ | n <;> simp only [hn] at h
    · cases h <;> exact .inl rfl
    by_cases hleaf : 0 < (bt.nodes n).child.length
    · simp only [hleaf, if_true] at h
      cases h <;> exact .inl rfl
    rw [if_neg hleaf] at h
    rcases hp : bt.roundToNode.lookup (bt.parentRoundOf n) with _ | parent <;>
      simp only [parentRoundOf] at hp <;> simp only [hp] at h <;> cases h
  all_goals first
    | exact .inl rfl
    | exact .inr ⟨_, _, ‹_›, rfl, List.eq_nil_of_length_eq_zero (Nat.eq_zero_of_not_pos ‹_›), ‹_›,
        rfl⟩

variable {env} {bt : BlockTree SS D} (hinv : TreeInv bt)
include hinv

/-- `Add` of a block of a later round than its QC's keeps the invariant. -/
theorem TreeInv.add {block : ExecutedBlock SS} (hlt : block.getParentRound < block.getRound) :
    TreeInv (EStateM.final (add env block) bt) := by
  rcases add_final env block bt with h | ⟨parent, hnone, hp, hshape⟩
  · rw [h]
    exact hinv
  · exact hshape.treeInv (hinv.withLeaf hnone hp rfl hlt)

theorem TreeInv.removeLeaf (round : UInt64) : TreeInv (EStateM.final (removeLeaf round) bt) := by
  rcases removeLeaf_final round bt with h | ⟨n, parent, hroot, hn, hleaf, hp, h⟩
  · rw [h]
    exact hinv
  · rw [h]
    exact hinv.withoutLeaf hn hroot hleaf hp

theorem TreeInv.insertQc (qc : QuorumCert) : TreeInv (EStateM.final (insertQc env qc) bt) :=
  (sameShape_insertQc env qc bt).treeInv hinv

end Methods

/-! ### Building the tree -/

/-- The tree of one root node. -/
theorem treeInv_ofRoot [Inhabited SS] (block : ExecutedBlock SS) (bDB : D) :
    TreeInv (ofRoot block bDB) := by
  have hidx : ∀ q, q ∈ (ofRoot block bDB).indexed ↔ q = 0 := fun q => by
    simp only [mem_indexed, ofRoot]
    constructor
    · rintro ⟨r, hr⟩
      by_cases hrr : r = block.getRound
      · subst hrr
        rw [AList.lookup_insert] at hr
        exact (Option.some.inj hr).symm
      · rw [AList.lookup_insert_ne hrr, AList.lookup_empty] at hr
        cases hr
    · rintro rfl
      exact ⟨block.getRound, AList.lookup_insert _⟩
  have hroot : (ofRoot block bDB).roundOf 0 = block.getRound := rfl
  refine ⟨?lookup_round, ?lookup_root, ?parent, ?nodup, ?mem_children⟩
  case lookup_round =>
    intro r p hr
    obtain rfl := (hidx p).mp (mem_indexed.mpr ⟨r, hr⟩)
    refine ⟨Nat.one_pos, ?_⟩
    by_contra hne
    rw [hroot] at hne
    simp only [ofRoot, AList.lookup_insert_ne (Ne.symm hne), AList.lookup_empty] at hr
    cases hr
  case lookup_root => exact AList.lookup_insert _
  case parent =>
    intro p hp hne
    exact absurd ((hidx p).mp hp) hne
  case nodup =>
    intro p hp
    obtain rfl := (hidx p).mp hp
    exact List.nodup_nil
  case mem_children =>
    intro p hp c
    obtain rfl := (hidx p).mp hp
    simp only [hidx c]
    exact ⟨fun h => absurd h List.not_mem_nil, fun ⟨h, hne, _⟩ => absurd h hne⟩

theorem TreeInv.newBlockTreeWithRootBlock [Inhabited SS] {env : TreeEnv SS D CR}
    {block : ExecutedBlock SS} {bDB : D} {bt : BlockTree SS D}
    (h : newBlockTreeWithRootBlock env block bDB = .ok bt) : TreeInv bt := by
  unfold BlockTree.newBlockTreeWithRootBlock at h
  split at h
  · cases h
  · cases h
    exact treeInv_ofRoot _ _

/-- The recovery loop keeps the invariant when the blocks come in increasing rounds, each
later than every round already in the tree. -/
theorem TreeInv.recover {env : TreeEnv SS D CR} {blocks : List (ExecutedBlock SS)}
    {bt bt' : BlockTree SS D} (hinv : TreeInv bt)
    (hlater : ∀ b ∈ blocks, ∀ r ∈ bt.roundToNode, r < b.getRound)
    (hsorted : blocks.Pairwise fun a b => a.getRound < b.getRound)
    (h : recover env blocks bt = .ok bt') : TreeInv bt' := by
  induction blocks generalizing bt with
  | nil =>
    cases h
    exact hinv
  | cons block blocks ih =>
    unfold BlockTree.recover at h
    rcases hp : bt.roundToNode.lookup block.getParentRound with _ | parent <;>
      simp only [hp] at h
    · cases h
    split at h
    · cases h
    rename_i ss _
    have hnone : block.getRound ∉ bt.roundToNode := fun hmem =>
      (UInt64.lt_irrefl _) (hlater block (List.mem_cons_self ..) _ hmem)
    have hpar : block.getParentRound < block.getRound :=
      hlater block (List.mem_cons_self ..) _ (AList.lookup_isSome.mp (by rw [hp]; rfl))
    have hleaf : TreeInv (bt.withLeaf parent { block with shardState := ss } block.getRound) :=
      hinv.withLeaf hnone hp rfl hpar
    refine ih ((sameShape_update _ _ _).treeInv hleaf) ?_ (List.pairwise_cons.mp hsorted).2 h
    -- the rounds of the tree grew by the block's, below all later blocks'
    intro b hb r hr
    rcases (AList.mem_insert _).mp hr with rfl | hr
    · exact (List.pairwise_cons.mp hsorted).1 b hb
    · exact hlater b (List.mem_cons_of_mem _ hb) r hr

/-- `NewBlockTree` builds a tree with the invariant when the store lists its blocks in strictly
decreasing rounds, as `LoadBlocks` does. -/
theorem TreeInv.newBlockTree [Inhabited SS] {env : TreeEnv SS D CR} {bDB : Option D}
    {bt : BlockTree SS D}
    (hload : ∀ d blocks, env.loadBlocks d = .ok blocks →
      blocks.Pairwise fun a b => b.getRound < a.getRound)
    (h : newBlockTree env bDB = .ok bt) : TreeInv bt := by
  unfold BlockTree.newBlockTree at h
  rcases bDB with _ | bDB
  · cases h
  simp only at h
  rcases hl : env.loadBlocks bDB with e | _ | ⟨b, blocks⟩ <;> simp only [hl] at h
  · cases h
  · split at h
    · cases h
    · exact TreeInv.newBlockTreeWithRootBlock h
  · have hsorted := hload bDB _ hl
    rcases hspan : (b :: blocks).span fun b => b.commitQc.isNone with ⟨newer, _ | ⟨rootBlock, older⟩⟩ <;>
      simp only [hspan] at h
    · cases h
    split at h
    · cases h
    rename_i ss _
    -- the blocks newer than the root come before it, with greater rounds
    have hsplit : b :: blocks = newer ++ rootBlock :: older := by
      rw [List.span_eq_takeWhile_dropWhile, Prod.mk.injEq] at hspan
      rw [← hspan.1, ← hspan.2, List.takeWhile_append_dropWhile]
    rw [hsplit, List.pairwise_append] at hsorted
    refine TreeInv.recover (treeInv_ofRoot _ _) ?_ ?_ h
    · intro nb hnb r hr
      rcases (AList.mem_insert _).mp hr with rfl | hr
      · exact hsorted.2.2 nb (List.mem_reverse.mp hnb) rootBlock (List.mem_cons_self ..)
      · exact absurd (AList.mem_keys.mp hr) List.not_mem_nil
    · exact List.pairwise_reverse.mpr hsorted.1

end BlockTree

end BftCore.Rootchain
