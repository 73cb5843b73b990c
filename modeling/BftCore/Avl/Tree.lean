import BftCore.Avl.Remove

/-!
# `tree/avl`: runs of tree calls and the representation invariant

A client of `avl.Tree` issues `Add`, `Update` and `Delete` calls; a failing call returns its
error and leaves the tree as it was, since the methods assign `t.root` only on success.

* `Op`, `Tree.exec`, `Tree.run`: the calls and their effect on a tree;
* `DepthOk`, `Balanced`, `WellFormed`: the representation invariant checked by
  `isNodeDepthCorrect` in `tree_delete_test.go`, with the search-tree order;
* `exec_invariant`: one call keeps the invariant; `run_wellFormed`: so does every run from
  the empty tree.
-/

namespace BftCore.Avl

variable {K V : Type}

/-- A call on the tree. -/
inductive Op (K V : Type) where
  | add (key : K) (value : V)
  | update (key : K) (value : V)
  | delete (key : K)
  deriving DecidableEq, Repr

/-- The call with its value mapped by `f`. -/
def Op.map {W : Type} (f : V → W) : Op K V → Op K W
  | .add k v => .add k (f v)
  | .update k v => .update k (f v)
  | .delete k => .delete k

namespace Node

/-- Every stored depth is one more than the larger stored depth of the children (nil has
depth 0). -/
def DepthOk : Node K V → Prop
  | nil => True
  | node _ _ l r _ d => d = max l.depth r.depth + 1 ∧ DepthOk l ∧ DepthOk r

/-- At every node the depths of the two children differ by at most one. -/
def Balanced : Node K V → Prop
  | nil => True
  | node _ _ l r _ _ => l.depth ≤ r.depth + 1 ∧ r.depth ≤ l.depth + 1 ∧ Balanced l ∧ Balanced r

/-- `IsAvl` is the conjunction of the two shape conditions. -/
theorem isAvl_iff (t : Node K V) : t.IsAvl ↔ t.DepthOk ∧ t.Balanced := by
  induction t with
  | nil => exact ⟨fun _ => ⟨trivial, trivial⟩, fun _ => trivial⟩
  | node k v l r c d ihl ihr =>
    rw [isAvl_node, ihl, ihr]
    simp only [DepthOk, Balanced]
    tauto

/-- The representation invariant: ordered keys, right depths, balanced children. -/
structure WellFormed [LT K] (t : Node K V) : Prop where
  ordered : t.Ordered
  depthOk : t.DepthOk
  balanced : t.Balanced

end Node

namespace Tree

variable [Ord K] [Value V]

/-- The outcome of a call. -/
def apply (t : Tree K V) : Op K V → Except (AvlError K) (Tree K V)
  | .add k v => t.add k v
  | .update k v => t.update k v
  | .delete k => t.delete k

/-- One call; a failing call leaves the tree as it was. -/
def exec (t : Tree K V) (op : Op K V) : Tree K V :=
  match t.apply op with
  | .ok t' => t'
  | .error _ => t

/-- A sequence of calls. -/
def run (t : Tree K V) (ops : List (Op K V)) : Tree K V := ops.foldl exec t

@[simp] theorem run_nil (t : Tree K V) : t.run [] = t := rfl

@[simp] theorem run_cons (t : Tree K V) (op : Op K V) (ops : List (Op K V)) :
    t.run (op :: ops) = (t.exec op).run ops := rfl

@[simp] theorem run_append (t : Tree K V) (ops ops' : List (Op K V)) :
    t.run (ops ++ ops') = (t.run ops).run ops' := by
  simp [run, List.foldl_append]

theorem exec_of_ok {t t' : Tree K V} {op : Op K V} (h : t.apply op = .ok t') :
    t.exec op = t' := by
  simp [exec, h]

theorem exec_of_error {t : Tree K V} {op : Op K V} {e : AvlError K}
    (h : t.apply op = .error e) : t.exec op = t := by
  simp [exec, h]

/-- The tree methods wrap the new root of the node operation. -/
theorem apply_add (t : Tree K V) (k : K) (v : V) :
    t.apply (.add k v) = Except.map Tree.mk (t.root.insert k v) := by
  simp only [apply, add]
  cases t.root.insert k v <;> rfl

theorem apply_update (t : Tree K V) (k : K) (v : V) :
    t.apply (.update k v) = Except.map Tree.mk (t.root.update k v) := by
  simp only [apply, update]
  cases t.root.update k v <;> rfl

theorem apply_delete (t : Tree K V) (k : K) :
    t.apply (.delete k) = Except.map Tree.mk (t.root.remove k) := by
  simp only [apply, delete]
  cases t.root.remove k <;> rfl

/-- A successful call stores the root its node operation returned. -/
theorem apply_eq_ok {t t' : Tree K V} {op : Op K V} (h : t.apply op = .ok t') :
    (∃ k v, op = .add k v ∧ t.root.insert k v = .ok t'.root) ∨
      (∃ k v, op = .update k v ∧ t.root.update k v = .ok t'.root) ∨
      (∃ k, op = .delete k ∧ t.root.remove k = .ok t'.root) := by
  cases op with
  | add k v =>
    rw [apply_add] at h
    cases hr : t.root.insert k v with
    | error e => simp [hr, Except.map] at h
    | ok r =>
      simp only [hr, Except.map, Except.ok.injEq] at h
      subst h
      exact Or.inl ⟨k, v, rfl, hr⟩
  | update k v =>
    rw [apply_update] at h
    cases hr : t.root.update k v with
    | error e => simp [hr, Except.map] at h
    | ok r =>
      simp only [hr, Except.map, Except.ok.injEq] at h
      subst h
      exact Or.inr (Or.inl ⟨k, v, rfl, hr⟩)
  | delete k =>
    rw [apply_delete] at h
    cases hr : t.root.remove k with
    | error e => simp [hr, Except.map] at h
    | ok r =>
      simp only [hr, Except.map, Except.ok.injEq] at h
      subst h
      exact Or.inr (Or.inr ⟨k, rfl, hr⟩)

end Tree

namespace Node

variable [LinearOrder K] [Value V]

/-- A node whose entries are related to a list with increasing keys is ordered. -/
theorem ordered_of_entriesRel {t : Node K V} {L : List (K × V)}
    (h : EntriesRel L t.entries) (hs : (L.map Prod.fst).Pairwise (· < ·)) : t.Ordered := by
  rw [ordered_iff_pairwise, keys, ← h.map_fst]
  exact hs

/-- The three node operations keep the search-tree order. -/
theorem insert_ordered {t t' : Node K V} {k : K} {v : V} (ho : t.Ordered)
    (h : t.insert k v = .ok t') : t'.Ordered := by
  obtain ⟨xs, ys, hxy, hxs, hys, hrel⟩ := insert_entries ho h
  refine ordered_of_entriesRel hrel ?_
  have hs := (ordered_iff_pairwise t).1 ho
  rw [keys, hxy, List.map_append, List.pairwise_append] at hs
  obtain ⟨hsx, hsy, hxy'⟩ := hs
  simp only [List.map_append, List.map_cons, List.pairwise_append, List.pairwise_cons,
    List.mem_map, List.mem_cons]
  refine ⟨hsx, ⟨?_, hsy⟩, ?_⟩
  · rintro _ ⟨y, hy, rfl⟩
    exact hys y hy
  · rintro _ ⟨x, hx, rfl⟩ _ (rfl | ⟨y, hy, rfl⟩)
    · exact hxs x hx
    · exact hxy' _ (List.mem_map_of_mem hx) _ (List.mem_map_of_mem hy)

theorem update_ordered {t t' : Node K V} {k : K} {v : V} (ho : t.Ordered)
    (h : t.update k v = .ok t') : t'.Ordered := by
  obtain ⟨xs, w, ys, hxy, hrel⟩ := update_entries h
  refine ordered_of_entriesRel hrel ?_
  have hs := (ordered_iff_pairwise t).1 ho
  rw [keys, hxy] at hs
  simpa using hs

theorem remove_ordered {t t' : Node K V} {k : K} (ho : t.Ordered)
    (h : t.remove k = .ok t') : t'.Ordered := by
  obtain ⟨xs, w, ys, hxy, hrel⟩ := remove_entries h
  refine ordered_of_entriesRel hrel ?_
  have hs := (ordered_iff_pairwise t).1 ho
  rw [keys, hxy] at hs
  refine hs.sublist ?_
  simp

end Node

namespace Tree

variable [LinearOrder K] [Value V]

/-- **One call keeps the representation invariant**, whether it succeeds or fails. -/
theorem exec_invariant {t : Tree K V} (op : Op K V) (ho : t.root.Ordered) (ha : t.root.IsAvl) :
    (t.exec op).root.Ordered ∧ (t.exec op).root.IsAvl := by
  cases happ : t.apply op with
  | error e =>
    rw [exec_of_error happ]
    exact ⟨ho, ha⟩
  | ok t' =>
    rw [exec_of_ok happ]
    rcases apply_eq_ok happ with ⟨k, v, -, h⟩ | ⟨k, v, -, h⟩ | ⟨k, -, h⟩
    · exact ⟨Node.insert_ordered ho h, (Node.insert_avl ha h).1⟩
    · exact ⟨Node.update_ordered ho h, (Node.update_avl ha h).1⟩
    · exact ⟨Node.remove_ordered ho h, (Node.remove_avl ha h).1⟩

/-- Every run keeps the representation invariant. -/
theorem run_invariant {t : Tree K V} (ops : List (Op K V)) (ho : t.root.Ordered)
    (ha : t.root.IsAvl) : (t.run ops).root.Ordered ∧ (t.run ops).root.IsAvl := by
  induction ops generalizing t with
  | nil => exact ⟨ho, ha⟩
  | cons op ops ih =>
    obtain ⟨ho', ha'⟩ := exec_invariant op ho ha
    exact ih ho' ha'

/-- **The representation invariant holds after every sequence of calls on the empty tree.** -/
theorem run_wellFormed (ops : List (Op K V)) : (empty.run ops).root.WellFormed := by
  obtain ⟨ho, ha⟩ := run_invariant (t := empty) ops trivial trivial
  obtain ⟨hd, hb⟩ := (Node.isAvl_iff _).1 ha
  exact ⟨ho, hd, hb⟩

end Tree

end BftCore.Avl
