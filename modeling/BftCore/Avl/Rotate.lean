import BftCore.Avl.Entries
import Mathlib

/-!
# `tree/avl`: what a rotation does

`rotate` reads the stored depths of the children and grandchildren of a node and makes one of
five moves.  `rotate_cases` lists them with the exact node each produces; every later fact
about `rotate` (its shape, its depth, its in-order entries) is read off that list, so the
body of `rotate` is unfolded here and nowhere else.

* `IsAvl`: the shape half of the representation invariant (stored depths are right and the
  children of every node differ in depth by at most one);
* `rotate_entries`: the in-order entries are kept, up to the clones of the copies;
* `rotate_avl`, `rotate_depth_bounds`: a node whose children are AVL trees
  differing in depth by at most two is rebalanced into an AVL tree, whose depth is at least
  the larger child depth and at most one more.
-/

namespace BftCore.Avl.Node

variable {K V : Type}

section Rotations

variable [Value V]

/-! ### The two rotations on the shapes they are used on -/

@[simp] theorem rotateRight_node (k lk : K) (v lv : V) (ll lr r : Node K V) (c lc : Bool)
    (d ld : Nat) :
    rotateRight (node k v (node lk lv ll lr lc ld) r c d) =
      node lk (if lc then Value.clone lv else lv) ll
        (node k (if c then Value.clone v else v) lr r false (max lr.depth r.depth + 1)) false ld := by
  simp [rotateRight]

@[simp] theorem rotateLeft_node (k rk : K) (v rv : V) (l rl rr : Node K V) (c rc : Bool)
    (d rd : Nat) :
    rotateLeft (node k v l (node rk rv rl rr rc rd) c d) =
      node rk (if rc then Value.clone rv else rv)
        (node k (if c then Value.clone v else v) l rl false (max l.depth rl.depth + 1)) rr false rd := by
  simp [rotateLeft]

/-! ### The five moves of `rotate` -/

/-- What `rotate` does to a node: nothing but the depth when the children are balanced, else
a single or a double rotation towards the lighter side.  `ci c v` abbreviates the value a
writable copy of a node with clean flag `c` holds. -/
theorem rotate_cases (k : K) (v : V) (l r : Node K V) (c : Bool) (d : Nat) :
    let ci := fun (c : Bool) (v : V) => if c then Value.clone v else v
    -- balanced: only the depth is recomputed
    (l.depth ≤ r.depth + 1 ∧ r.depth ≤ l.depth + 1 ∧
      rotate (node k v l r c d) = node k v l r c (max l.depth r.depth + 1)) ∨
    -- left heavy, single right rotation
    (∃ lk lv ll lr lc ld, l = node lk lv ll lr lc ld ∧ ld > r.depth + 1 ∧
      lr.depth ≤ ll.depth ∧
      rotate (node k v l r c d) =
        node lk (ci lc lv) ll (node k (ci c v) lr r false (max lr.depth r.depth + 1)) false
          (max ll.depth (max lr.depth r.depth + 1) + 1)) ∨
    -- left heavy, double rotation around the left child's right child
    (∃ lk lv ll lc ld mk mv ml mr mc md, l = node lk lv ll (node mk mv ml mr mc md) lc ld ∧
      ld > r.depth + 1 ∧ ll.depth < md ∧
      rotate (node k v l r c d) =
        node mk (ci mc mv) (node lk (ci lc lv) ll ml false (max ll.depth ml.depth + 1))
          (node k (ci c v) mr r false (max mr.depth r.depth + 1)) false
          (max (max ll.depth ml.depth + 1) (max mr.depth r.depth + 1) + 1)) ∨
    -- right heavy, single left rotation
    (∃ rk rv rl rr rc rd, r = node rk rv rl rr rc rd ∧ rd > l.depth + 1 ∧
      rl.depth ≤ rr.depth ∧
      rotate (node k v l r c d) =
        node rk (ci rc rv) (node k (ci c v) l rl false (max l.depth rl.depth + 1)) rr false
          (max (max l.depth rl.depth + 1) rr.depth + 1)) ∨
    -- right heavy, double rotation around the right child's left child
    (∃ rk rv rr rc rd mk mv ml mr mc md, r = node rk rv (node mk mv ml mr mc md) rr rc rd ∧
      rd > l.depth + 1 ∧ rr.depth < md ∧
      rotate (node k v l r c d) =
        node mk (ci mc mv) (node k (ci c v) l ml false (max l.depth ml.depth + 1))
          (node rk (ci rc rv) mr rr false (max mr.depth rr.depth + 1)) false
          (max (max l.depth ml.depth + 1) (max mr.depth rr.depth + 1) + 1)) := by
  intro ci
  by_cases hl : l.depth > r.depth + 1
  · -- the left child is deep, hence a node
    obtain _ | ⟨lk, lv, ll, lr, lc, ld⟩ := l
    · simp at hl
    simp only [depth_node] at hl
    by_cases hd : ll.depth < lr.depth
    · obtain _ | ⟨mk, mv, ml, mr, mc, md⟩ := lr
      · simp at hd
      refine Or.inr (Or.inr (Or.inl ⟨lk, lv, ll, lc, ld, mk, mv, ml, mr, mc, md, rfl, hl, hd, ?_⟩))
      simp only [depth_node] at hd
      simp [rotate, hl, hd, ci, show ¬ r.depth > ld + 1 by omega]
    · refine Or.inr (Or.inl ⟨lk, lv, ll, lr, lc, ld, rfl, hl, by omega, ?_⟩)
      simp [rotate, hl, hd, ci, show ¬ r.depth > ld + 1 by omega]
  · by_cases hr : r.depth > l.depth + 1
    · obtain _ | ⟨rk, rv, rl, rr, rc, rd⟩ := r
      · simp at hr
      simp only [depth_node] at hr hl
      by_cases hd : rl.depth > rr.depth
      · obtain _ | ⟨mk, mv, ml, mr, mc, md⟩ := rl
        · simp at hd
        refine Or.inr (Or.inr (Or.inr (Or.inr
          ⟨rk, rv, rr, rc, rd, mk, mv, ml, mr, mc, md, rfl, hr, hd, ?_⟩)))
        simp only [depth_node] at hd
        simp [rotate, hl, hr, hd, ci]
      · refine Or.inr (Or.inr (Or.inr (Or.inl ⟨rk, rv, rl, rr, rc, rd, rfl, hr, by omega, ?_⟩)))
        simp [rotate, hl, hr, hd, ci]
    · exact Or.inl ⟨by omega, by omega, by simp [rotate, hl, hr]⟩

/-- **`rotate` keeps the in-order entries**, up to the clones held by the copies it makes. -/
theorem rotate_entries (k : K) (v : V) (l r : Node K V) (c : Bool) (d : Nat) :
    EntriesRel (node k v l r c d).entries (rotate (node k v l r c d)).entries := by
  have e := EntriesRel.refl (K := K) (V := V)
  have ci := CloneRel.ite (V := V)
  rcases rotate_cases k v l r c d with
    ⟨-, -, he⟩ | ⟨lk, lv, ll, lr, lc, ld, rfl, -, -, he⟩ |
    ⟨lk, lv, ll, lc, ld, mk, mv, ml, mr, mc, md, rfl, -, -, he⟩ |
    ⟨rk, rv, rl, rr, rc, rd, rfl, -, -, he⟩ |
    ⟨rk, rv, rr, rc, rd, mk, mv, ml, mr, mc, md, rfl, -, -, he⟩ <;> rw [he] <;>
    simp only [entries_node, List.append_assoc, List.cons_append]
  · exact e _
  · exact (e _).append (.cons (ci _ _) ((e _).append (.cons (ci _ _) (e _))))
  · exact (e _).append (.cons (ci _ _) ((e _).append (.cons (ci _ _)
      ((e _).append (.cons (ci _ _) (e _))))))
  · exact (e _).append (.cons (ci _ _) ((e _).append (.cons (ci _ _) (e _))))
  · exact (e _).append (.cons (ci _ _) ((e _).append (.cons (ci _ _)
      ((e _).append (.cons (ci _ _) (e _))))))

/-- `rotate` keeps the in-order keys. -/
theorem keys_rotate (k : K) (v : V) (l r : Node K V) (c : Bool) (d : Nat) :
    (rotate (node k v l r c d)).keys = (node k v l r c d).keys :=
  (rotate_entries k v l r c d).map_fst.symm

end Rotations

/-! ### The shape invariant -/

/-- The shape half of the representation invariant: at every node the stored depth is one
more than the larger stored depth of the children, and these differ by at most one. -/
def IsAvl : Node K V → Prop
  | nil => True
  | node _ _ l r _ d =>
    IsAvl l ∧ IsAvl r ∧ d = max l.depth r.depth + 1 ∧ l.depth ≤ r.depth + 1 ∧ r.depth ≤ l.depth + 1

@[simp] theorem isAvl_nil : IsAvl (nil : Node K V) := trivial

@[simp] theorem isAvl_node (k : K) (v : V) (l r : Node K V) (c : Bool) (d : Nat) :
    IsAvl (node k v l r c d) ↔
      IsAvl l ∧ IsAvl r ∧ d = max l.depth r.depth + 1 ∧ l.depth ≤ r.depth + 1 ∧
        r.depth ≤ l.depth + 1 := Iff.rfl

/-- A node of an AVL tree has a positive depth. -/
theorem IsAvl.depth_pos {k : K} {v : V} {l r : Node K V} {c : Bool} {d : Nat}
    (h : IsAvl (node k v l r c d)) : 0 < d := by
  rw [h.2.2.1]; omega

variable [Value V] {k : K} {v : V} {l r : Node K V} {c : Bool} {d : Nat}

/-- **`rotate` rebalances**: children that are AVL trees and differ in depth by at most two
become an AVL tree. -/
theorem rotate_avl (hl : IsAvl l) (hr : IsAvl r) (h1 : l.depth ≤ r.depth + 2)
    (h2 : r.depth ≤ l.depth + 2) : IsAvl (rotate (node k v l r c d)) := by
  rcases rotate_cases k v l r c d with
    ⟨hb1, hb2, he⟩ | ⟨lk, lv, ll, lr, lc, ld, rfl, hh, hs, he⟩ |
    ⟨lk, lv, ll, lc, ld, mk, mv, ml, mr, mc, md, rfl, hh, hs, he⟩ |
    ⟨rk, rv, rl, rr, rc, rd, rfl, hh, hs, he⟩ |
    ⟨rk, rv, rr, rc, rd, mk, mv, ml, mr, mc, md, rfl, hh, hs, he⟩ <;> rw [he]
  · exact ⟨hl, hr, rfl, hb1, hb2⟩
  · obtain ⟨hll, hlr, hd, hb1, hb2⟩ := hl
    simp only [depth_node] at h1
    refine ⟨hll, ⟨hlr, hr, rfl, ?_, ?_⟩, rfl, ?_, ?_⟩ <;> (try simp only [depth_node]) <;> omega
  · obtain ⟨hll, ⟨hml, hmr, hmd, hm1, hm2⟩, hd, hb1, hb2⟩ := hl
    simp only [depth_node] at h1 hd hb1 hb2
    refine ⟨⟨hll, hml, rfl, ?_, ?_⟩, ⟨hmr, hr, rfl, ?_, ?_⟩, rfl, ?_, ?_⟩ <;>
      (try simp only [depth_node]) <;> omega
  · obtain ⟨hrl, hrr, hd, hb1, hb2⟩ := hr
    simp only [depth_node] at h2
    refine ⟨⟨hl, hrl, rfl, ?_, ?_⟩, hrr, rfl, ?_, ?_⟩ <;> (try simp only [depth_node]) <;> omega
  · obtain ⟨⟨hml, hmr, hmd, hm1, hm2⟩, hrr, hd, hb1, hb2⟩ := hr
    simp only [depth_node] at h2 hd hb1 hb2
    refine ⟨⟨hl, hml, rfl, ?_, ?_⟩, ⟨hmr, hrr, rfl, ?_, ?_⟩, rfl, ?_, ?_⟩ <;>
      (try simp only [depth_node]) <;> omega

/-- The depth after `rotate` is at least the larger child depth and at most one more. -/
theorem rotate_depth_bounds (hl : IsAvl l) (hr : IsAvl r) :
    max l.depth r.depth ≤ (rotate (node k v l r c d)).depth ∧
      (rotate (node k v l r c d)).depth ≤ max l.depth r.depth + 1 := by
  rcases rotate_cases k v l r c d with
    ⟨-, -, he⟩ | ⟨lk, lv, ll, lr, lc, ld, rfl, hh, hs, he⟩ |
    ⟨lk, lv, ll, lc, ld, mk, mv, ml, mr, mc, md, rfl, hh, hs, he⟩ |
    ⟨rk, rv, rl, rr, rc, rd, rfl, hh, hs, he⟩ |
    ⟨rk, rv, rr, rc, rd, mk, mv, ml, mr, mc, md, rfl, hh, hs, he⟩ <;> rw [he]
  · simp only [depth_node]; omega
  · have hd : ld = max ll.depth lr.depth + 1 := hl.2.2.1
    simp only [depth_node]; omega
  · have hd : ld = max ll.depth md + 1 := hl.2.2.1
    have hmd : md = max ml.depth mr.depth + 1 := hl.2.1.2.2.1
    have hb : ll.depth ≤ md + 1 ∧ md ≤ ll.depth + 1 := hl.2.2.2
    simp only [depth_node]; omega
  · have hd : rd = max rl.depth rr.depth + 1 := hr.2.2.1
    simp only [depth_node]; omega
  · have hd : rd = max md rr.depth + 1 := hr.2.2.1
    have hmd : md = max ml.depth mr.depth + 1 := hr.1.2.2.1
    have hb : md ≤ rr.depth + 1 ∧ rr.depth ≤ md + 1 := hr.2.2.2
    simp only [depth_node]; omega

/-- Balanced children are left in place: `rotate` only recomputes the depth. -/
theorem rotate_of_balanced (h1 : l.depth ≤ r.depth + 1) (h2 : r.depth ≤ l.depth + 1) :
    rotate (node k v l r c d) = node k v l r c (max l.depth r.depth + 1) := by
  simp [rotate, show ¬ l.depth > r.depth + 1 by omega, show ¬ r.depth > l.depth + 1 by omega]

/-- A left-heavy node takes a left turn of its left child when that child leans right, then a
right turn; the store functions follow these two phases. -/
theorem rotate_of_left_heavy (h : l.depth > r.depth + 1) :
    rotate (node k v l r c d) =
      let t := (if l.left.depth < l.right.depth then node k v l.rotateLeft r c d
        else node k v l r c d).rotateRight
      t.setDepth t.calculateDepth := by
  have h' : ¬ r.depth > l.depth + 1 := by omega
  simp only [rotate, left_node, right_node, h, h', if_true, if_false, setLeft_node]
  rfl

/-- The mirror image: a right-heavy node. -/
theorem rotate_of_right_heavy (h₁ : ¬ l.depth > r.depth + 1) (h : r.depth > l.depth + 1) :
    rotate (node k v l r c d) =
      let t := (if r.left.depth > r.right.depth then node k v l r.rotateRight c d
        else node k v l r c d).rotateLeft
      t.setDepth t.calculateDepth := by
  simp only [rotate, left_node, right_node, h, h₁, if_true, if_false, setRight_node]

/-- The bounds `rotate` gives on the depth of the node it rebalances, in the form the
insertion and deletion proofs feed to `omega`. -/
theorem rotate_depth_spec (hl : IsAvl l) (hr : IsAvl r) (h1 : l.depth ≤ r.depth + 2) (h2 : r.depth ≤ l.depth + 2) :
    IsAvl (rotate (node k v l r c d)) ∧
      max l.depth r.depth ≤ (rotate (node k v l r c d)).depth ∧
      (rotate (node k v l r c d)).depth ≤ max l.depth r.depth + 1 ∧
      (l.depth ≤ r.depth + 1 → r.depth ≤ l.depth + 1 →
        (rotate (node k v l r c d)).depth = max l.depth r.depth + 1) := by
  obtain ⟨hlo, hhi⟩ := rotate_depth_bounds (k := k) (v := v) (c := c) (d := d) hl hr
  refine ⟨rotate_avl hl hr h1 h2, hlo, hhi, fun hb1 hb2 => ?_⟩
  rw [rotate_of_balanced hb1 hb2, depth_node]

end BftCore.Avl.Node
