import Mathlib

/-!
# `tree/avl`: nodes and the recursive operations

The AVL tree of `tree/avl` as a value.  A node is `nil` (Go's nil pointer) or a record with
the six fields of `avl.Node`: `key`, `value`, `left`, `right`, `clean` and `depth`.  This file
translates the recursive functions of `tree_add.go`, `tree_delete.go`, `tree_update.go` and
`tree_get.go`:

* `newLeaf`, `newBalancedNode`, `newDirtyNode`, `calculateDepth`, `rotateRight`, `rotateLeft`,
  `rotate`;
* `insert`, `update`, `remove` with its helper `replace`, and `get`;
* the `Tree` methods `add`, `update`, `delete` and `get`.

A write through a pointer (`p.left = l`) becomes a rebuilt record.  Copy-on-write is kept
as the code does it: a clean node is replaced by `newDirtyNode` (clean flag off, value
cloned by `Value.clone`) before it is written, so the clean flags, the stored depths and the
cloned values of a result are exactly those of the Go code.  The sharing of clean nodes
between trees, which this value view cannot see, is modelled by the node store of
`BftCore.Avl.Heap`.

Depths are `int64` in the code; they are at most the number of nodes, so `Nat` is used.
-/

namespace BftCore.Avl

/-- `avl.Value[V]`: a node value can be cloned; `newDirtyNode` stores a clone. -/
class Value (V : Type) where
  clone : V → V

/-- The errors of the tree, `ErrAlreadyExists` and `ErrNotFound`, with the key they name. -/
inductive AvlError (K : Type) where
  | alreadyExists (key : K)
  | notFound (key : K)
  deriving DecidableEq, Repr

/-- `*avl.Node[K, V]`: the nil pointer, or a node with its six fields. -/
inductive Node (K V : Type) where
  | nil
  | node (key : K) (value : V) (left right : Node K V) (clean : Bool) (depth : Nat)
  deriving DecidableEq, Repr

namespace Node

variable {K V : Type}

/-! ### Field access and field writes -/

/-- `Depth()`: the stored depth, `0` for nil. -/
def depth : Node K V → Nat
  | nil => 0
  | node _ _ _ _ _ d => d

/-- `Left()`: nil for nil. -/
def left : Node K V → Node K V
  | nil => nil
  | node _ _ l _ _ _ => l

/-- `Right()`: nil for nil. -/
def right : Node K V → Node K V
  | nil => nil
  | node _ _ _ r _ _ => r

/-- `Clean()` (the code reads it only on non-nil nodes). -/
def clean : Node K V → Bool
  | nil => false
  | node _ _ _ _ c _ => c

/-- `n == nil`. -/
def isNil : Node K V → Bool
  | nil => true
  | node _ _ _ _ _ _ => false

/-- `n.left = l`. -/
def setLeft : Node K V → Node K V → Node K V
  | nil, _ => nil
  | node k v _ r c d, l => node k v l r c d

/-- `n.right = r`. -/
def setRight : Node K V → Node K V → Node K V
  | nil, _ => nil
  | node k v l _ c d, r => node k v l r c d

/-- `n.depth = d`. -/
def setDepth : Node K V → Nat → Node K V
  | nil, _ => nil
  | node k v l r c _, d => node k v l r c d

/-- `n.value = v`. -/
def setValue : Node K V → V → Node K V
  | nil, _ => nil
  | node k _ l r c d, v => node k v l r c d

/-- `n.key = k; n.value = v`, the two writes of `remove` that move the predecessor up. -/
def setEntry : Node K V → K → V → Node K V
  | nil, _, _ => nil
  | node _ _ l r c d, k, v => node k v l r c d

@[simp] theorem depth_nil : (nil : Node K V).depth = 0 := rfl
@[simp] theorem depth_node (k : K) (v : V) (l r : Node K V) (c : Bool) (d : Nat) :
    (node k v l r c d).depth = d := rfl
@[simp] theorem left_nil : (nil : Node K V).left = nil := rfl
@[simp] theorem left_node (k : K) (v : V) (l r : Node K V) (c : Bool) (d : Nat) :
    (node k v l r c d).left = l := rfl
@[simp] theorem right_nil : (nil : Node K V).right = nil := rfl
@[simp] theorem right_node (k : K) (v : V) (l r : Node K V) (c : Bool) (d : Nat) :
    (node k v l r c d).right = r := rfl
@[simp] theorem clean_node (k : K) (v : V) (l r : Node K V) (c : Bool) (d : Nat) :
    (node k v l r c d).clean = c := rfl
@[simp] theorem setLeft_node (k : K) (v : V) (l r x : Node K V) (c : Bool) (d : Nat) :
    (node k v l r c d).setLeft x = node k v x r c d := rfl
@[simp] theorem setRight_node (k : K) (v : V) (l r x : Node K V) (c : Bool) (d : Nat) :
    (node k v l r c d).setRight x = node k v l x c d := rfl
@[simp] theorem setDepth_node (k : K) (v : V) (l r : Node K V) (c : Bool) (d e : Nat) :
    (node k v l r c d).setDepth e = node k v l r c e := rfl
@[simp] theorem setValue_node (k : K) (v w : V) (l r : Node K V) (c : Bool) (d : Nat) :
    (node k v l r c d).setValue w = node k w l r c d := rfl
@[simp] theorem setEntry_node (k j : K) (v w : V) (l r : Node K V) (c : Bool) (d : Nat) :
    (node k v l r c d).setEntry j w = node j w l r c d := rfl

theorem node_ne_nil {k : K} {v : V} {l r : Node K V} {c : Bool} {d : Nat} : node k v l r c d ≠ nil := by
  intro h
  cases h

theorem ne_nil_of_depth_pos {t : Node K V} (h : 0 < t.depth) : t ≠ nil := by
  intro ht
  rw [ht, depth_nil] at h
  exact Nat.lt_irrefl 0 h

/-- The number of nodes on a longest path from the root: it bounds the recursion of the
store functions, whatever the stored depths say. -/
def height : Node K V → Nat
  | nil => 0
  | node _ _ l r _ _ => max l.height r.height + 1

@[simp] theorem height_nil : (nil : Node K V).height = 0 := rfl
@[simp] theorem height_node (k : K) (v : V) (l r : Node K V) (c : Bool) (d : Nat) :
    (node k v l r c d).height = max l.height r.height + 1 := rfl

/-! ### Depths and copies -/

/-- `calculateDepth(n)`: one more than the larger stored depth of the two children. -/
def calculateDepth (n : Node K V) : Nat := max n.left.depth n.right.depth + 1

@[simp] theorem calculateDepth_node (k : K) (v : V) (l r : Node K V) (c : Bool) (d : Nat) :
    (node k v l r c d).calculateDepth = max l.depth r.depth + 1 := rfl

/-- `newLeaf(key, value)`: a dirty leaf of depth 1. -/
def newLeaf (key : K) (value : V) : Node K V := node key value nil nil false 1

/-- `NewBalancedNode(key, value, left, right)`: a dirty node over two subtrees, its depth
computed from theirs. -/
def newBalancedNode (key : K) (value : V) (left right : Node K V) : Node K V :=
  node key value left right false (calculateDepth (node key value left right false 0))

@[simp] theorem newBalancedNode_eq (key : K) (value : V) (left right : Node K V) :
    newBalancedNode key value left right =
      node key value left right false (max left.depth right.depth + 1) := rfl

/-- `newDirtyNode(n)`: a copy of `n` with a cloned value and the clean flag off. -/
def newDirtyNode [Value V] : Node K V → Node K V
  | nil => nil
  | node k v l r _ d => node k (Value.clone v) l r false d

/-- The node a function may write: `if n.clean { n = newDirtyNode(n) }`. -/
def writable [Value V] (n : Node K V) : Node K V := if n.clean then newDirtyNode n else n

@[simp] theorem writable_node [Value V] (k : K) (v : V) (l r : Node K V) (c : Bool) (d : Nat) :
    (node k v l r c d).writable = node k (if c then Value.clone v else v) l r false d := by
  cases c <;> rfl

@[simp] theorem writable_nil [Value V] : (nil : Node K V).writable = nil := rfl

/-! ### Rotations -/

/-- `rotateRight(node)`: the left child `tmp` becomes the root and `node` its right child.
Both are made writable; `node` takes `tmp.right` as its left child and a recomputed depth,
while `tmp` keeps the depth it had: its caller `rotate` recomputes the depth of the new
root. -/
def rotateRight [Value V] (n : Node K V) : Node K V :=
  let tmp := n.left.writable
  let n := n.writable.setLeft tmp.right
  let n := n.setDepth n.calculateDepth
  tmp.setRight n

/-- `rotateLeft(node)`, the mirror image of `rotateRight`. -/
def rotateLeft [Value V] (n : Node K V) : Node K V :=
  let tmp := n.right.writable
  let n := n.writable.setRight tmp.left
  let n := n.setDepth n.calculateDepth
  tmp.setLeft n

/-- `rotate(p)`: rebalances a node whose children differ in depth by more than one, with a
double rotation when the inner grandchild is the deeper one, and recomputes the depth of
the root.  Both tests use the depths `ld`, `rd` read before the first rotation, as the code
does. -/
def rotate [Value V] (p : Node K V) : Node K V :=
  let ld := p.left.depth
  let rd := p.right.depth
  let p :=
    if ld > rd + 1 then
      let p := if p.left.left.depth < p.left.right.depth then p.setLeft (rotateLeft p.left) else p
      rotateRight p
    else p
  let p :=
    if rd > ld + 1 then
      let p :=
        if p.right.left.depth > p.right.right.depth then p.setRight (rotateRight p.right) else p
      rotateLeft p
    else p
  p.setDepth p.calculateDepth

/-! ### Insertion, update, deletion and search -/

variable [Ord K] [Value V]

/-- `insert(p, key, value)` of `tree_add.go`. -/
def insert : Node K V → K → V → Except (AvlError K) (Node K V)
  | nil, key, value => .ok (newLeaf key value)
  | p@(node pk _ pl pr _ _), key, value =>
    match compare pk key with
    | .eq => .error (.alreadyExists key)
    | .gt => do
      let l ← insert pl key value
      return rotate (p.writable.setLeft l)
    | .lt => do
      let r ← insert pr key value
      return rotate (p.writable.setRight r)

/-- `update(node, key, value)` of `tree_update.go`: copies the search path, no rotation. -/
def update : Node K V → K → V → Except (AvlError K) (Node K V)
  | nil, key, _ => .error (.notFound key)
  | n@(node nk _ nl nr _ _), key, value =>
    match compare nk key with
    | .gt => do
      let l ← update nl key value
      return n.writable.setLeft l
    | .lt => do
      let r ← update nr key value
      return n.writable.setRight r
    | .eq => .ok (n.writable.setValue value)

/-- `replace(node, parent)` of `tree_delete.go`: `parent` is a writable node whose right
child is `node`.  It walks right to the in-order predecessor (the node with no right
child), splices it out by its left child, and rotates every node of the walk on the way
back.  Returns the new subtree in place of `parent` and the predecessor node. -/
def replace : Node K V → Node K V → Node K V × Node K V
  | nil, parent => (parent.left, parent)
  | n@(node _ _ _ nr _ _), parent =>
    -- `parent.right = node` after the copy is overwritten on both paths below
    let n := n.writable
    match nr with
    | nil =>
      let parent := parent.setRight n.left
      (rotate (parent.setDepth parent.calculateDepth), n)
    | node .. =>
      let (replacedNode, predecessor) := replace nr n
      let parent := parent.setRight replacedNode
      (rotate (parent.setDepth parent.calculateDepth), predecessor)

/-- `remove(node, key)` of `tree_delete.go`.  A node with two children takes the key and
value of its in-order predecessor, found by `replace` in a dirty copy of its left child. -/
def remove : Node K V → K → Except (AvlError K) (Node K V)
  | nil, key => .error (.notFound key)
  | n@(node nk _ nl nr _ _), key =>
    let node := n.writable
    match compare nk key with
    | .gt => do
      let left ← remove nl key
      let node := node.setLeft left
      return rotate (node.setDepth node.calculateDepth)
    | .lt => do
      let right ← remove nr key
      let node := node.setRight right
      return rotate (node.setDepth node.calculateDepth)
    | .eq =>
      match nl, nr with
      | nil, nil => .ok nil
      | nil, _ => .ok nr
      | _, nil => .ok nl
      | _, _ =>
        let dirtyLeftNode := nl.newDirtyNode
        match replace dirtyLeftNode.right dirtyLeftNode with
        | (newLeft, Node.node pk pv _ _ _ _) =>
          let node := (node.setEntry pk pv).setLeft newLeft
          .ok (rotate (node.setDepth node.calculateDepth))
        -- unreachable: `replace` of a node returns a node as predecessor
        | (_, nil) => .ok node

/-- `get(node, key)` of `tree_get.go`: the node holding `key`, or nil. -/
def get : Node K V → K → Node K V
  | nil, _ => nil
  | n@(node nk _ nl nr _ _), key =>
    match compare nk key with
    | .gt => get nl key
    | .lt => get nr key
    | .eq => n

end Node

/-- `avl.Tree`: the root pointer.  The traverser field is the commit procedure, modelled
where trees are committed (`BftCore.Avl.Store`, `BftCore.State`). -/
structure Tree (K V : Type) where
  root : Node K V
  deriving DecidableEq, Repr

namespace Tree

variable {K V : Type} [Ord K] [Value V]

/-- `New()`: the empty tree. -/
def empty : Tree K V := ⟨.nil⟩

/-- `Tree.Add`: on success the root is replaced, on error the tree is left as it was. -/
def add (t : Tree K V) (key : K) (value : V) : Except (AvlError K) (Tree K V) := do
  let node ← Node.insert t.root key value
  return ⟨node⟩

/-- `Tree.Update`. -/
def update (t : Tree K V) (key : K) (value : V) : Except (AvlError K) (Tree K V) := do
  let r ← Node.update t.root key value
  return ⟨r⟩

/-- `Tree.Delete`. -/
def delete (t : Tree K V) (key : K) : Except (AvlError K) (Tree K V) := do
  let node ← Node.remove t.root key
  return ⟨node⟩

/-- `Tree.Get`: the value stored under `key`, or `ErrNotFound`. -/
def get (t : Tree K V) (key : K) : Except (AvlError K) V :=
  match Node.get t.root key with
  | .node _ v _ _ _ _ => .ok v
  | .nil => .error (.notFound key)

end Tree

end BftCore.Avl
