import BftCore.Avl.Tree
import BftCore.Lib.Wp

/-!
# `tree/avl`: the node store

In Go a tree is a graph of `*Node` records, and trees share records: `Tree.Clone` copies the
root pointer only, and the savepoints of `state.State` are clones of one another.  This file
models that memory and translates the functions of `tree/avl` that read and write it.

* `Cell`, `Store`: a node record with its children as pointers (`none` is nil), and the
  allocated records, addressed by `Nat`; `Store.next` is the next address to allocate and no
  record lies at or above it;
* `StoreM`: a Go function on the store, returning a result or failing and keeping the store
  it leaves either way (`EStateM`);
* `newDirtyNode`, `writable`, `calculateDepth`, `rotateRight`, `rotateLeft`, `rotate`,
  `insert`, `update`, `replace`, `remove`, `get`, and `commitTraverse`, the
  `PostOrderCommitTraverser`: one definition per Go function, each write through a pointer
  one `modifyCell`;
* `Tree`: the root pointer, with `add`, `update`, `delete`, `clone`, `commit`, and `run` for a
  sequence of calls whose failures leave the tree as it was;
* `Repr`: the tree of `BftCore.Avl.Node` a pointer denotes.

The recursive functions follow pointers, so they take fuel; a tree method gives them one more
than the number of allocated records, which bounds every path of an acyclic store.
-/

namespace BftCore.Avl.Heap

open EStateM

variable {K V : Type}

/-- An `avl.Node` record; the children are pointers, `none` being nil. -/
structure Cell (K V : Type) where
  key : K
  value : V
  left : Option Nat
  right : Option Nat
  clean : Bool
  depth : Nat

/-- The memory: the record at each address and the next address to allocate. -/
structure Store (K V : Type) where
  cells : Nat → Option (Cell K V)
  next : Nat
  fresh : ∀ a, next ≤ a → cells a = none

/-- How a call on the store stops other than with its result. -/
inductive StoreError (K : Type) where
  /-- an error the Go function returns -/
  | avl (e : AvlError K)
  /-- a nil or dangling pointer dereferenced: Go panics on nil, and has no dangling pointers -/
  | invalidPointer
  /-- the fuel ran out -/
  | exhausted

/-- A Go function on the store. -/
abbrev StoreM (K V : Type) := EStateM (StoreError K) (Store K V)

namespace Store

/-- The store with no records. -/
def empty : Store K V := ⟨fun _ => none, 0, fun _ _ => rfl⟩

/-- An allocated record lies below `next`. -/
theorem lt_next_of_cells {s : Store K V} {a : Nat} {c : Cell K V} (h : s.cells a = some c) :
    a < s.next := by
  by_contra hn
  rw [s.fresh a (Nat.le_of_not_lt hn)] at h
  cases h

/-- Overwrites the record at an allocated address; anything else is left alone. -/
def set (s : Store K V) (a : Nat) (c : Cell K V) : Store K V where
  cells := fun b => if b = a ∧ (s.cells a).isSome then some c else s.cells b
  next := s.next
  fresh := fun b hb => by
    have hf := s.fresh b hb
    split_ifs with h
    · obtain ⟨rfl, hs⟩ := h
      rw [hf] at hs
      cases hs
    · exact hf

/-- Allocates a record at `next`. -/
def push (s : Store K V) (c : Cell K V) : Store K V where
  cells := Function.update s.cells s.next (some c)
  next := s.next + 1
  fresh := fun b hb => by
    rw [Function.update_of_ne (by omega)]
    exact s.fresh b (by omega)

@[simp] theorem set_next (s : Store K V) (a : Nat) (c : Cell K V) : (s.set a c).next = s.next :=
  rfl

theorem set_cells_self {s : Store K V} {a : Nat} (h : (s.cells a).isSome)
    (c' : Cell K V) : (s.set a c').cells a = some c' := by
  simp [set, h]

theorem set_cells_of_ne (s : Store K V) {a b : Nat} (c : Cell K V) (h : b ≠ a) :
    (s.set a c).cells b = s.cells b := by
  simp [set, h]

@[simp] theorem push_next (s : Store K V) (c : Cell K V) : (s.push c).next = s.next + 1 := rfl

@[simp] theorem push_cells_next (s : Store K V) (c : Cell K V) :
    (s.push c).cells s.next = some c := by
  simp [push]

theorem push_cells_of_ne (s : Store K V) {b : Nat} (c : Cell K V) (h : b ≠ s.next) :
    (s.push c).cells b = s.cells b := by
  simp [push, h]

end Store

/-! ### Memory access -/

/-- `*p`: the address and the record a pointer names. -/
def deref (p : Option Nat) : StoreM K V (Nat × Cell K V) := fun s =>
  match p with
  | none => .error .invalidPointer s
  | some a =>
    match s.cells a with
    | some c => .ok (a, c) s
    | none => .error .invalidPointer s

/-- A write through a pointer: the record at `a` becomes `f` of what it was. -/
def modifyCell (a : Nat) (f : Cell K V → Cell K V) : StoreM K V Unit := do
  let (a, c) ← deref (some a)
  modify fun s => s.set a (f c)

/-- `&Node{…}`: a new record. -/
def alloc (c : Cell K V) : StoreM K V Nat := fun s => .ok s.next (s.push c)

/-- `p.Depth()`: the stored depth, `0` for nil. -/
def depthOf : Option Nat → StoreM K V Nat
  | none => pure 0
  | some a => do
    let (_, c) ← deref (some a)
    pure c.depth

theorem deref_of {s : Store K V} {a : Nat} {c : Cell K V} (hc : s.cells a = some c) :
    deref (some a) s = .ok (a, c) s := by
  simp [deref, hc]

theorem modifyCell_of {s : Store K V} {a : Nat} {c : Cell K V} (hc : s.cells a = some c)
    (f : Cell K V → Cell K V) : modifyCell a f s = .ok () (s.set a (f c)) := by
  unfold modifyCell
  rw [bind_of_ok (deref_of hc)]
  rfl

theorem alloc_eq (c : Cell K V) (s : Store K V) : alloc c s = .ok s.next (s.push c) := rfl

theorem depthOf_none (s : Store K V) : depthOf none s = .ok 0 s := rfl

theorem depthOf_of {s : Store K V} {a : Nat} {c : Cell K V} (hc : s.cells a = some c) :
    depthOf (some a) s = .ok c.depth s := by
  simp only [depthOf]
  rw [bind_of_ok (deref_of hc)]
  rfl

/-! ### The functions of `node.go` and `tree_add.go` -/

/-- `newLeaf(key, value)`: a dirty record of depth 1 with no children. -/
def newLeaf (key : K) (value : V) : Cell K V := ⟨key, value, none, none, false, 1⟩

/-- `newDirtyNode(n)`: a new record with the fields of `n`, its value cloned, clean flag off. -/
def newDirtyNode [Value V] (c : Cell K V) : StoreM K V Nat :=
  alloc { c with value := Value.clone c.value, clean := false }

/-- `if n.clean { n = newDirtyNode(n) }`. -/
def writable [Value V] (a : Nat) : StoreM K V Nat := do
  let (a, c) ← deref (some a)
  if c.clean then newDirtyNode c else pure a

/-- The record `writable` leaves at the address it returns: the value cloned if the record was
clean, and the clean flag off. -/
def Cell.writable [Value V] (c : Cell K V) : Cell K V :=
  { c with value := if c.clean then Value.clone c.value else c.value, clean := false }

theorem writable_of [Value V] {s : Store K V} {a : Nat} {c : Cell K V} (hc : s.cells a = some c) :
    writable a s = if c.clean then .ok s.next (s.push c.writable) else .ok a s := by
  unfold writable
  rw [bind_of_ok (deref_of hc)]
  cases hcl : c.clean
  · simp only [hcl, Bool.false_eq_true, if_false]
    rfl
  · simp [hcl, Cell.writable, newDirtyNode, alloc]

/-- `calculateDepth(n)`. -/
def calculateDepth (a : Nat) : StoreM K V Nat := do
  let (_, c) ← deref (some a)
  let ld ← depthOf c.left
  let rd ← depthOf c.right
  pure (max ld rd + 1)

/-- `rotateRight(node)`. -/
def rotateRight [Value V] (n : Nat) : StoreM K V Nat := do
  let (_, nc) ← deref (some n)
  let node ← writable n
  let (tmp, _) ← deref nc.left
  let tmp ← writable tmp
  let (_, tc) ← deref (some tmp)
  modifyCell node fun c => { c with left := tc.right }
  let d ← calculateDepth node
  modifyCell node fun c => { c with depth := d }
  modifyCell tmp fun c => { c with right := some node }
  pure tmp

/-- `rotateLeft(node)`. -/
def rotateLeft [Value V] (n : Nat) : StoreM K V Nat := do
  let (_, nc) ← deref (some n)
  let node ← writable n
  let (tmp, _) ← deref nc.right
  let tmp ← writable tmp
  let (_, tc) ← deref (some tmp)
  modifyCell node fun c => { c with right := tc.left }
  let d ← calculateDepth node
  modifyCell node fun c => { c with depth := d }
  modifyCell tmp fun c => { c with left := some node }
  pure tmp

/-- `rotate(p)`.  The second test uses the depths read before the first rotation. -/
def rotate [Value V] (p : Nat) : StoreM K V Nat := do
  let (_, pc) ← deref (some p)
  let ld ← depthOf pc.left
  let rd ← depthOf pc.right
  let p ← if ld > rd + 1 then do
      let (l, lc) ← deref pc.left
      let lld ← depthOf lc.left
      let lrd ← depthOf lc.right
      if lld < lrd then do
        let l ← rotateLeft l
        modifyCell p fun c => { c with left := some l }
      rotateRight p
    else pure p
  let p ← if rd > ld + 1 then do
      let (_, pc) ← deref (some p)
      let (r, rc) ← deref pc.right
      let rld ← depthOf rc.left
      let rrd ← depthOf rc.right
      if rld > rrd then do
        let r ← rotateRight r
        modifyCell p fun c => { c with right := some r }
      rotateLeft p
    else pure p
  let d ← calculateDepth p
  modifyCell p fun c => { c with depth := d }
  pure p

variable [Ord K] [Value V]

/-- `insert(p, key, value)`. -/
def insert : Nat → Option Nat → K → V → StoreM K V (Option Nat)
  | 0, _, _, _ => throw .exhausted
  | _ + 1, none, key, value => do
    let a ← alloc (newLeaf key value)
    pure (some a)
  | fuel + 1, some p, key, value => do
    let (_, pc) ← deref (some p)
    match compare pc.key key with
    | .eq => throw (.avl (.alreadyExists key))
    | .gt =>
      let p ← writable p
      let (_, c) ← deref (some p)
      let l ← insert fuel c.left key value
      modifyCell p fun c => { c with left := l }
      let p ← rotate p
      pure (some p)
    | .lt =>
      let p ← writable p
      let (_, c) ← deref (some p)
      let r ← insert fuel c.right key value
      modifyCell p fun c => { c with right := r }
      let p ← rotate p
      pure (some p)

/-! ### `tree_update.go`, `tree_delete.go`, `tree_get.go` -/

/-- `update(node, key, value)`: the node is made writable before the comparison. -/
def update : Nat → Option Nat → K → V → StoreM K V (Option Nat)
  | 0, _, _, _ => throw .exhausted
  | _ + 1, none, key, _ => throw (.avl (.notFound key))
  | fuel + 1, some n, key, value => do
    let n ← writable n
    let (_, c) ← deref (some n)
    match compare c.key key with
    | .gt =>
      let l ← update fuel c.left key value
      modifyCell n fun c => { c with left := l }
      pure (some n)
    | .lt =>
      let r ← update fuel c.right key value
      modifyCell n fun c => { c with right := r }
      pure (some n)
    | .eq =>
      modifyCell n fun c => { c with value := value }
      pure (some n)

omit [Ord K] in
/-- `if node.clean { node = newDirtyNode(node); parent.right = node }` in `replace`. -/
def writableRight (parent node : Nat) : StoreM K V Nat := do
  let (_, nc) ← deref (some node)
  if nc.clean then
    let node ← newDirtyNode nc
    modifyCell parent fun c => { c with right := some node }
    pure node
  else pure node

omit [Ord K] in
/-- `replace(node, parent)`: `parent` is writable and `node` its right child.  Returns the
subtree that replaces `parent` and the in-order predecessor. -/
def replace : Nat → Option Nat → Nat → StoreM K V (Option Nat × Nat)
  | 0, _, _ => throw .exhausted
  | _ + 1, none, parent => do
    let (_, pc) ← deref (some parent)
    pure (pc.left, parent)
  | fuel + 1, some node, parent => do
    let node ← writableRight parent node
    let (_, nc) ← deref (some node)
    match nc.right with
    | some r =>
      let (replacedNode, predecessor) ← replace fuel (some r) node
      modifyCell parent fun c => { c with right := replacedNode }
      let d ← calculateDepth parent
      modifyCell parent fun c => { c with depth := d }
      let parent ← rotate parent
      pure (some parent, predecessor)
    | none =>
      modifyCell parent fun c => { c with right := nc.left }
      let d ← calculateDepth parent
      modifyCell parent fun c => { c with depth := d }
      let parent ← rotate parent
      pure (some parent, node)

omit [Ord K] in
/-- The tail of `remove`: `node.depth = calculateDepth(node); return rotate(node)`. -/
def fixDepthAndRotate (node : Nat) : StoreM K V (Option Nat) := do
  let d ← calculateDepth node
  modifyCell node fun c => { c with depth := d }
  let node ← rotate node
  pure (some node)

/-- `remove(node, key)`. -/
def remove : Nat → Option Nat → K → StoreM K V (Option Nat)
  | 0, _, _ => throw .exhausted
  | _ + 1, none, key => throw (.avl (.notFound key))
  | fuel + 1, some n, key => do
    let node ← writable n
    let (_, c) ← deref (some node)
    match compare c.key key with
    | .gt =>
      let left ← remove fuel c.left key
      modifyCell node fun c => { c with left := left }
      fixDepthAndRotate node
    | .lt =>
      let right ← remove fuel c.right key
      modifyCell node fun c => { c with right := right }
      fixDepthAndRotate node
    | .eq =>
      match c.left, c.right with
      | none, none => pure none
      | none, some _ => pure c.right
      | some _, none => pure c.left
      | some l, some _ => do
        let (_, lc) ← deref (some l)
        let dirtyLeftNode ← newDirtyNode lc
        let (_, dc) ← deref (some dirtyLeftNode)
        let (newLeft, predecessor) ← replace fuel dc.right dirtyLeftNode
        let (_, pc) ← deref (some predecessor)
        -- `node.key = predecessor.key; node.value = predecessor.value`
        modifyCell node fun c => { c with key := pc.key, value := pc.value }
        modifyCell node fun c => { c with left := newLeft }
        fixDepthAndRotate node

omit [Value V] in
/-- `get(node, key)`: the record holding `key`, or nil. -/
def get : Nat → Option Nat → K → StoreM K V (Option Nat)
  | 0, _, _ => throw .exhausted
  | _ + 1, none, _ => pure none
  | fuel + 1, some n, key => do
    let (_, c) ← deref (some n)
    match compare c.key key with
    | .gt => get fuel c.left key
    | .lt => get fuel c.right key
    | .eq => pure (some n)

/-! ### `tree.go`: commit and the tree methods -/

omit [Ord K] [Value V] in
/-- `PostOrderCommitTraverser.SetClean(n)`. -/
def setClean (n : Nat) : StoreM K V Unit := do
  let (_, c) ← deref (some n)
  if c.clean then pure () else modifyCell n fun c => { c with clean := true }

omit [Ord K] [Value V] in
/-- `PostOrderCommitTraverser.Traverse(n)`: marks every non-clean node clean, children first,
and does not descend below a clean node. -/
def commitTraverse : Nat → Option Nat → StoreM K V Unit
  | 0, _ => throw .exhausted
  | _ + 1, none => pure ()
  | fuel + 1, some n => do
    let (_, c) ← deref (some n)
    if c.clean then pure () else do
      commitTraverse fuel c.left
      commitTraverse fuel c.right
      setClean n

/-- `avl.Tree`: the root pointer. -/
structure Tree where
  root : Option Nat
  deriving DecidableEq, Repr

omit [Ord K] [Value V] in
/-- The fuel of a tree method: one more than the number of allocated records. -/
def fuel : StoreM K V Nat := do
  let s ← EStateM.get
  pure (s.next + 1)

namespace Tree

/-- `Clone()`: the same root. -/
def clone (t : Tree) : Tree := ⟨t.root⟩

/-- `Add(key, value)`. -/
def add (t : Tree) (key : K) (value : V) : StoreM K V Tree := do
  let n ← insert (← fuel) t.root key value
  pure ⟨n⟩

/-- `Update(key, value)`. -/
def update (t : Tree) (key : K) (value : V) : StoreM K V Tree := do
  let n ← Heap.update (← fuel) t.root key value
  pure ⟨n⟩

/-- `Delete(key)`. -/
def delete (t : Tree) (key : K) : StoreM K V Tree := do
  let n ← remove (← fuel) t.root key
  pure ⟨n⟩

omit [Ord K] [Value V] in
/-- `Commit()` with the `PostOrderCommitTraverser`. -/
def commit (t : Tree) : StoreM K V Unit := do
  commitTraverse (← fuel) t.root

omit [Ord K] [Value V] in
/-- `IsClean()`: a nil root is clean, any other root has its flag. -/
def isClean (t : Tree) : StoreM K V Bool :=
  match t.root with
  | none => pure true
  | some a => do
    let (_, c) ← deref (some a)
    pure c.clean

/-- The outcome of a call. -/
def apply (t : Tree) : Op K V → StoreM K V Tree
  | .add k v => t.add k v
  | .update k v => t.update k v
  | .delete k => t.delete k

/-- One call: on an error the tree keeps its root, and the store keeps what the call did. -/
def exec (t : Tree) (op : Op K V) : StoreM K V Tree := fun s =>
  match t.apply op s with
  | .ok t' s' => .ok t' s'
  | .error _ s' => .ok t s'

/-- A sequence of calls. -/
def run : Tree → List (Op K V) → StoreM K V Tree
  | t, [] => pure t
  | t, op :: ops => do
    let t ← t.exec op
    run t ops

end Tree

/-! ### What a pointer denotes -/

/-- The tree a pointer denotes: nil denotes `nil`, and a pointer to a record the node with the
record's fields and the trees its child pointers denote. -/
inductive Repr (s : Store K V) : Option Nat → Node K V → Prop
  | nil : Repr s none .nil
  | node {a : Nat} {c : Cell K V} {l r : Node K V} : s.cells a = some c → Repr s c.left l →
      Repr s c.right r → Repr s (some a) (.node c.key c.value l r c.clean c.depth)

end BftCore.Avl.Heap
