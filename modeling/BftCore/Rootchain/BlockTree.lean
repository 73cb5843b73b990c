import BftCore.Rootchain.Types
import BftCore.Lib.Wp

/-!
# `rootchain/consensus/storage`: the block tree

The root chain keeps its uncommitted blocks in a tree whose root is the last committed block.
In Go the tree is a graph of `*node` records, each holding its block and its children as
pointers, and `BlockTree` holds the root pointer and an index `roundToNode` of the nodes by
round.  This file models that memory and translates the functions of `block_tree.go`.

* `ExecutedBlock`, with the shard states of a type `SS`, and its round getters;
* `Node`, `BlockTree`: the node records, addressed by `Nat` (`nodes`, with `next` the next
  address to allocate: Go memory is zero-initialised, and the tree never holds a pointer at or
  above `next`), the root pointer, the round index, the highest QC and the block store;
* `TreeEnv`: what the tree calls outside this file: the block store (`WriteBlock`,
  `LoadBlocks`), `NewGenesisBlock`, `initBlock`, and the shard-state updates of `Commit`
  (inheriting the last certification responses, copying the changed shards, and
  `GenerateCertificates`);
* `newBlockTreeWithRootBlock`, `newBlockTree` with its recovery loop `recover`, `insertQc`,
  `add`, `removeLeaf`, `findPathToRoot` with its loop `pathToRoot`, `findBlocksToPrune` with
  its loops `pushChildren` and `pruneLoop`, and `commit`;
* `TreeCall`: a call of a method that changes the tree, and the tree it leaves whether it
  returns or fails.

The loops that follow pointers take fuel.  `findPathToRoot` walks up from round `r` at most
`r` times, and `findBlocksToPrune` pops at most as many nodes as the index holds; in a tree
neither runs out (`BlockTree.TreeInv.findPathToRoot_spec`,
`BlockTree.TreeInv.findBlocksToPrune_spec`), while on a cyclic graph, where the Go loops would not
stop, the model gives up.
-/

namespace BftCore.Rootchain

open BftCore.State (Bytes)

variable {SS D CR : Type}

/-- `storage.ExecutedBlock`: a block, the root hash it computes, the QC that certifies it, the
QC that commits it, and the shard states after it. -/
structure ExecutedBlock (SS : Type) where
  blockData : BlockData
  rootHash : Bytes
  qc : Option QuorumCert
  commitQc : Option QuorumCert
  shardState : SS

/-- `(*ExecutedBlock).GetRound`. -/
def ExecutedBlock.getRound (x : ExecutedBlock SS) : UInt64 := x.blockData.round

/-- `(*ExecutedBlock).GetParentRound`: the round of the QC the block extends. -/
def ExecutedBlock.getParentRound (x : ExecutedBlock SS) : UInt64 :=
  QuorumCert.getRound x.blockData.qc

/-- The zero value of a block. -/
instance [Inhabited SS] : Inhabited (ExecutedBlock SS) :=
  ⟨⟨⟨"", 0, 0, 0, none⟩, [], none, none, default⟩⟩

/-- `storage.node`: a block and its children, as pointers. -/
structure Node (SS : Type) where
  data : ExecutedBlock SS
  child : List Nat

instance [Inhabited SS] : Inhabited (Node SS) := ⟨⟨default, []⟩⟩

/-- `storage.BlockTree`, with the memory of its nodes. -/
structure BlockTree (SS D : Type) where
  nodes : Nat → Node SS
  next : Nat
  root : Nat
  roundToNode : AList (fun _ : UInt64 => Nat)
  highQc : Option QuorumCert
  blocksDB : D

/-- What the block tree calls outside `block_tree.go`. -/
structure TreeEnv (SS D CR : Type) where
  /-- `PersistentStore.WriteBlock(block, root)` -/
  writeBlock : ExecutedBlock SS → Bool → D → Except String D
  /-- `PersistentStore.LoadBlocks`: the stored blocks, newest first -/
  loadBlocks : D → Except String (List (ExecutedBlock SS))
  /-- `NewGenesisBlock` -/
  newGenesisBlock : Except String (ExecutedBlock SS)
  /-- `initBlock`: the shard states of a block of a round, with their trust bases set -/
  initBlock : UInt64 → SS → Except String SS
  /-- the loop of `Commit` giving the committed block's shards the last certification
  responses of the root's -/
  inheritLastCR : SS → SS → SS
  /-- `maps.Copy` of the changed shards of a block into those of the committed block -/
  copyChanged : SS → SS → SS
  /-- `(*ExecutedBlock).GenerateCertificates`: the responses, and the shard states with them -/
  generateCertificates : ExecutedBlock SS → QuorumCert → Except String (List CR × SS)

/-- A method of the block tree: it returns or fails, leaving the tree either way. -/
abbrev BlockTreeM (SS D : Type) := EStateM ConsensusError (BlockTree SS D)

namespace BlockTree

/-! ### The memory -/

/-- Writes through the pointer `p`. -/
def modifyNode (bt : BlockTree SS D) (p : Nat) (f : Node SS → Node SS) : BlockTree SS D :=
  { bt with nodes := Function.update bt.nodes p (f (bt.nodes p)) }

/-- `newNode(b)`, at the next address. -/
def newNode (bt : BlockTree SS D) (b : ExecutedBlock SS) : Nat × BlockTree SS D :=
  (bt.next, { bt with nodes := Function.update bt.nodes bt.next ⟨b, []⟩, next := bt.next + 1 })

/-- `(*node).addChild`. -/
def addChild (bt : BlockTree SS D) (p child : Nat) : BlockTree SS D :=
  bt.modifyNode p fun n => { n with child := n.child ++ [child] }

/-- `(*node).removeChild`: the first occurrence of the child is deleted. -/
def removeChild (bt : BlockTree SS D) (p child : Nat) : BlockTree SS D :=
  bt.modifyNode p fun n => { n with child := n.child.erase child }

/-- A write to the block of the node at `p`. -/
def setData (bt : BlockTree SS D) (p : Nat) (f : ExecutedBlock SS → ExecutedBlock SS) :
    BlockTree SS D :=
  bt.modifyNode p fun n => { n with data := f n.data }

/-- The tree of one root node, the first one allocated. -/
def ofRoot [Inhabited SS] (block : ExecutedBlock SS) (bDB : D) : BlockTree SS D where
  nodes := Function.update (fun _ => default) 0 ⟨block, []⟩
  next := 1
  root := 0
  roundToNode := (∅ : AList (fun _ : UInt64 => Nat)).insert block.getRound 0
  highQc := block.commitQc
  blocksDB := bDB

section Memory

variable (bt : BlockTree SS D) (p q : Nat)

theorem modifyNode_nodes (f : Node SS → Node SS) :
    (bt.modifyNode p f).nodes q = if q = p then f (bt.nodes p) else bt.nodes q := by
  simp only [modifyNode, Function.update_apply]

@[simp] theorem modifyNode_roundToNode (f : Node SS → Node SS) :
    (bt.modifyNode p f).roundToNode = bt.roundToNode := rfl

@[simp] theorem modifyNode_root (f : Node SS → Node SS) : (bt.modifyNode p f).root = bt.root :=
  rfl

@[simp] theorem modifyNode_next (f : Node SS → Node SS) : (bt.modifyNode p f).next = bt.next :=
  rfl

@[simp] theorem setData_child (f : ExecutedBlock SS → ExecutedBlock SS) :
    ((bt.setData p f).nodes q).child = (bt.nodes q).child := by
  simp only [setData, modifyNode_nodes]
  split <;> simp_all

theorem setData_data (f : ExecutedBlock SS → ExecutedBlock SS) :
    ((bt.setData p f).nodes q).data = if q = p then f (bt.nodes p).data else (bt.nodes q).data := by
  simp only [setData, modifyNode_nodes]
  split <;> rfl

@[simp] theorem setData_roundToNode (f : ExecutedBlock SS → ExecutedBlock SS) :
    (bt.setData p f).roundToNode = bt.roundToNode := rfl

@[simp] theorem setData_root (f : ExecutedBlock SS → ExecutedBlock SS) :
    (bt.setData p f).root = bt.root := rfl

@[simp] theorem setData_next (f : ExecutedBlock SS → ExecutedBlock SS) :
    (bt.setData p f).next = bt.next := rfl

theorem addChild_nodes (c : Nat) :
    (bt.addChild p c).nodes q =
      if q = p then { bt.nodes p with child := (bt.nodes p).child ++ [c] } else bt.nodes q :=
  modifyNode_nodes _ _ _ _

theorem removeChild_nodes (c : Nat) :
    (bt.removeChild p c).nodes q =
      if q = p then { bt.nodes p with child := (bt.nodes p).child.erase c } else bt.nodes q :=
  modifyNode_nodes _ _ _ _

end Memory

/-! ### Building the tree -/

variable (env : TreeEnv SS D CR)

/-- `NewBlockTreeWithRootBlock`: the block is stored as the root, and is the tree. -/
def newBlockTreeWithRootBlock [Inhabited SS] (block : ExecutedBlock SS) (bDB : D) :
    Except String (BlockTree SS D) :=
  match env.writeBlock block true bDB with
  | .error e => .error ("block write failed: " ++ e)
  | .ok bDB => .ok (ofRoot block bDB)

/-- The loop of `NewBlockTree`: the blocks newer than the root, oldest first, each added below
its parent, which must already be in the tree. -/
def recover : List (ExecutedBlock SS) → BlockTree SS D → Except String (BlockTree SS D)
  | [], bt => .ok bt
  | block :: blocks, bt =>
    let round := block.getRound
    let parentRound := block.getParentRound
    match bt.roundToNode.lookup parentRound with
    | none => .error s!"cannot add block for round {round}, parent block {parentRound} not found"
    | some parent =>
      match env.initBlock round block.shardState with
      | .error e => .error ("init child block: " ++ e)
      | .ok ss =>
        let (n, bt) := bt.newNode { block with shardState := ss }
        let bt := { bt.addChild parent n with
          roundToNode := bt.roundToNode.insert block.blockData.round n }
        let highQc := if QuorumCert.getRound bt.highQc < QuorumCert.getRound block.blockData.qc
          then block.blockData.qc else bt.highQc
        recover blocks { bt with highQc := highQc }

/-- `NewBlockTree`: the tree of the stored blocks, rooted at the newest one with a commit QC,
or of the genesis block if there are none. -/
def newBlockTree [Inhabited SS] (bDB : Option D) : Except String (BlockTree SS D) :=
  match bDB with
  | none => .error "block tree init failed, database is nil"
  | some bDB =>
    match env.loadBlocks bDB with
    | .error e => .error ("root DB read error: " ++ e)
    | .ok [] =>
      match env.newGenesisBlock with
      | .error e => .error ("creating genesis block for empty DB: " ++ e)
      | .ok genesisBlock => newBlockTreeWithRootBlock env genesisBlock bDB
    | .ok blocks =>
      -- the blocks come newest first: the root is the first with a commit QC
      match blocks.span fun b => b.commitQc.isNone with
      | (_, []) => .error "root block not found"
      | (newer, rootBlock :: _) =>
        match env.initBlock rootBlock.getRound rootBlock.shardState with
        | .error e => .error ("init root block: " ++ e)
        | .ok ss => recover env newer.reverse (ofRoot { rootBlock with shardState := ss } bDB)

/-! ### The methods -/

/-- `(*BlockTree).InsertQc`: the QC is recorded in the block it certifies, which is stored
again, and becomes the highest QC. -/
def insertQc (qc : QuorumCert) : BlockTreeM SS D Unit := fun bt =>
  let round := QuorumCert.getRound (some qc)
  match bt.roundToNode.lookup round with
  | none => .error (.message ("find block: " ++ s!"block for round {round} not found")) bt
  | some p =>
    match qc.voteInfo with
    | none => .error .panic bt
    | some voteInfo =>
      if (bt.nodes p).data.rootHash ≠ voteInfo.currentRootHash then
        .error (.message "qc state hash is different from local computed state hash") bt
      else
        let bt := bt.setData p fun b => { b with qc := some qc }
        match env.writeBlock (bt.nodes p).data false bt.blocksDB with
        | .error e =>
          let r := (bt.nodes p).data.blockData.round
          .error (.message (s!"failed to persist block for round {r}: " ++ e)) bt
        | .ok bDB => .ok () { bt with blocksDB := bDB, highQc := some qc }

/-- `(*BlockTree).Add`: a new leaf below the block of its parent round; the block is stored
last, and a failure to store it leaves the leaf in the tree. -/
def add (block : ExecutedBlock SS) : BlockTreeM SS D Unit := fun bt =>
  let round := block.getRound
  let parentRound := block.getParentRound
  match bt.roundToNode.lookup round with
  | some _ =>
    let r := block.blockData.round
    .error (.message s!"block for round {r} already exists") bt
  | none =>
    match bt.roundToNode.lookup parentRound with
    | none =>
      .error (.message s!"cannot add block for round {round}, parent block {parentRound} not found") bt
    | some parent =>
      let (n, bt) := bt.newNode block
      let bt := { bt.addChild parent n with roundToNode := bt.roundToNode.insert round n }
      match env.writeBlock block false bt.blocksDB with
      | .error e => .error (.message e) bt
      | .ok bDB => .ok () { bt with blocksDB := bDB }

/-- `(*BlockTree).RemoveLeaf`: a leaf other than the root leaves the tree and the index; a
round not in the tree is no error. -/
def removeLeaf (round : UInt64) : BlockTreeM SS D Unit := fun bt =>
  if (bt.nodes bt.root).data.getRound = round then
    .error (.message "root block cannot be removed") bt
  else
    match bt.roundToNode.lookup round with
    | none => .ok () bt
    | some n =>
      if 0 < (bt.nodes n).child.length then
        .error (.message s!"error round {round} is not leaf node") bt
      else
        let parentRound := (bt.nodes n).data.getParentRound
        match bt.roundToNode.lookup parentRound with
        | none => .error (.message s!"error parent block {parentRound} not found") bt
        | some parent =>
          .ok () { bt.removeChild parent n with roundToNode := bt.roundToNode.erase round }

/-- The loop of `findPathToRoot` from the node `n`, with the blocks collected so far: each
node's block is added when its parent is found, until the parent is the root. -/
def pathToRoot (bt : BlockTree SS D) :
    Nat → Nat → List (ExecutedBlock SS) → Option (List (ExecutedBlock SS))
  | 0, _, _ => none
  | fuel + 1, n, path =>
    match bt.roundToNode.lookup (bt.nodes n).data.getParentRound with
    | none => none
    | some parent =>
      let path := path ++ [(bt.nodes n).data]
      if parent = bt.root then some path else pathToRoot bt fuel parent path

/-- `(*BlockTree).findPathToRoot`: the blocks from round `round` up to the root, the root's
excluded; nil (`none`) when a round is missing. -/
def findPathToRoot (bt : BlockTree SS D) (round : UInt64) : Option (List (ExecutedBlock SS)) :=
  match bt.roundToNode.lookup round with
  | none => none
  | some n => if n = bt.root then some [] else pathToRoot bt round.toNat n []

/-- The inner loop of `findBlocksToPrune`: the children of a node are pushed, except the new
root, whose sighting is noted.  Go pushes on the end of a slice and pops from it; here the top
of the stack is the head of a list. -/
def pushChildren (bt : BlockTree SS D) (newRootRound : UInt64) :
    List Nat → List Nat → Bool → List Nat × Bool
  | [], blocksToCheck, found => (blocksToCheck, found)
  | c :: cs, blocksToCheck, found =>
    if (bt.nodes c).data.getRound = newRootRound then pushChildren bt newRootRound cs blocksToCheck true
    else pushChildren bt newRootRound cs (c :: blocksToCheck) found

/-- The outer loop of `findBlocksToPrune`: pop a node, push its children, and prune its round. -/
def pruneLoop (bt : BlockTree SS D) (newRootRound : UInt64) :
    Nat → List Nat → List UInt64 → Bool → List UInt64 × Bool
  | 0, _, pruned, found => (pruned, found)
  | _ + 1, [], pruned, found => (pruned, found)
  | fuel + 1, n :: blocksToCheck, pruned, found =>
    let (blocksToCheck, found) :=
      pushChildren bt newRootRound (bt.nodes n).child blocksToCheck found
    pruneLoop bt newRootRound fuel blocksToCheck (pruned ++ [(bt.nodes n).data.getRound]) found

/-- `(*BlockTree).findBlocksToPrune`: the rounds of the tree outside the subtree of the new
root. -/
def findBlocksToPrune (bt : BlockTree SS D) (newRootRound : UInt64) : Except String (List UInt64) :=
  if newRootRound = (bt.nodes bt.root).data.getRound then .ok []
  else
    let (prunedBlocks, newRootFound) :=
      pruneLoop bt newRootRound bt.roundToNode.entries.length [bt.root] [] false
    if newRootFound then .ok prunedBlocks
    else .error s!"new root round {newRootRound} not found"

/-- `(*BlockTree).Commit`: the block of the commit QC's parent round becomes the root, the
rounds outside its subtree leave the index, and the certificates it generates are returned.
The index is pruned before the certificates are generated and the block stored; a failure of
either leaves the pruned index with the old root. -/
def commit (commitQc : QuorumCert) : BlockTreeM SS D (List CR) := fun bt =>
  let commitRound := QuorumCert.getParentRound (some commitQc)
  match bt.roundToNode.lookup commitRound with
  | none => .error (.message ("commit failed\n" ++ s!"block for round {commitRound} not found")) bt
  | some commitNode =>
    let rootState := (bt.nodes bt.root).data.shardState
    let bt := bt.setData commitNode fun b =>
      { b with shardState := env.inheritLastCR rootState b.shardState }
    -- the committed block also certifies the changes of the blocks up to the root
    let path := (bt.findPathToRoot commitRound).getD []
    let bt := bt.setData commitNode fun b =>
      { b with shardState := path.foldl (fun ss cb => env.copyChanged ss cb.shardState) b.shardState }
    match bt.findBlocksToPrune commitRound with
    | .error e => .error (.message (s!"finding blocks to prune on round {commitRound}: " ++ e)) bt
    | .ok blocksToPrune =>
      let bt := { bt with roundToNode := blocksToPrune.foldl (fun m r => m.erase r) bt.roundToNode }
      match env.generateCertificates (bt.nodes commitNode).data commitQc with
      | .error e =>
        let r := (bt.nodes commitNode).data.getRound
        .error (.message (s!"generating certificates for round {r}: " ++ e)) bt
      | .ok (ucs, ss) =>
        let bt := bt.setData commitNode fun b => { b with shardState := ss, commitQc := some commitQc }
        match env.writeBlock (bt.nodes commitNode).data true bt.blocksDB with
        | .error e => .error (.message e) bt
        | .ok bDB => .ok ucs { bt with blocksDB := bDB, root := commitNode }

end BlockTree

/-- A call of one of the tree's methods that change it. -/
inductive TreeCall (SS : Type) where
  | add (block : ExecutedBlock SS)
  | insertQc (qc : QuorumCert)
  | removeLeaf (round : UInt64)
  | commit (commitQc : QuorumCert)

/-- The tree a call leaves, whether it returns or fails. -/
def TreeCall.run (env : TreeEnv SS D CR) : TreeCall SS → BlockTree SS D → BlockTree SS D
  | .add block => EStateM.final (BlockTree.add env block)
  | .insertQc qc => EStateM.final (BlockTree.insertQc env qc)
  | .removeLeaf round => EStateM.final (BlockTree.removeLeaf round)
  | .commit commitQc => EStateM.final (BlockTree.commit env commitQc)

end BftCore.Rootchain
