import BftCore.Avl.Node
import Mathlib

/-!
# `tree/avl`: the in-order view of a tree

What a tree stores, read left to right:

* `entries`, `keys`: the in-order key–value pairs and keys of a node;
* `Ordered`: the search-tree order of the code's invariant (every key of a left subtree
  compares less than the node's key, every key of a right subtree greater), and
  `ordered_iff_pairwise`: it says exactly that the in-order keys are strictly increasing;
* `CloneRel`, `EntriesRel`: values up to `Value.clone`.  A copy made by `newDirtyNode`
  holds a clone of the value, and `remove` copies the left child of the node it deletes
  whatever its clean flag, so the code keeps values only up to cloning.
-/

namespace BftCore.Avl

variable {K V : Type}

/-- `w` is `v` cloned some number of times. -/
def CloneRel [Value V] (v w : V) : Prop := Relation.ReflTransGen (fun a b => b = Value.clone a) v w

/-- Two entry lists with the same keys in the same order and values related by cloning. -/
def EntriesRel [Value V] (xs ys : List (K × V)) : Prop :=
  List.Forall₂ (fun a b => a.1 = b.1 ∧ CloneRel a.2 b.2) xs ys

section CloneRel

variable [Value V]

@[refl] theorem CloneRel.refl (v : V) : CloneRel v v := Relation.ReflTransGen.refl

theorem CloneRel.trans {u v w : V} (h₁ : CloneRel u v) (h₂ : CloneRel v w) : CloneRel u w :=
  Relation.ReflTransGen.trans h₁ h₂

theorem CloneRel.clone (v : V) : CloneRel v (Value.clone v) := Relation.ReflTransGen.single rfl

/-- The value a writable copy of a node holds is a clone of the node's value. -/
theorem CloneRel.ite (c : Bool) (v : V) : CloneRel v (if c then Value.clone v else v) := by
  cases c
  · exact CloneRel.refl v
  · exact CloneRel.clone v

@[refl] theorem EntriesRel.refl (xs : List (K × V)) : EntriesRel xs xs :=
  List.forall₂_same.2 fun _ _ => ⟨rfl, CloneRel.refl _⟩

theorem EntriesRel.trans {xs ys zs : List (K × V)} (h₁ : EntriesRel xs ys)
    (h₂ : EntriesRel ys zs) : EntriesRel xs zs := by
  induction h₁ generalizing zs with
  | nil => exact h₂
  | cons hab _ ih =>
    cases h₂ with
    | cons hbc hs => exact .cons ⟨hab.1.trans hbc.1, hab.2.trans hbc.2⟩ (ih hs)

theorem EntriesRel.append {xs ys xs' ys' : List (K × V)} (h : EntriesRel xs ys)
    (h' : EntriesRel xs' ys') : EntriesRel (xs ++ xs') (ys ++ ys') :=
  List.rel_append h h'

theorem EntriesRel.cons {k : K} {v w : V} {xs ys : List (K × V)} (hv : CloneRel v w)
    (h : EntriesRel xs ys) : EntriesRel ((k, v) :: xs) ((k, w) :: ys) :=
  List.Forall₂.cons ⟨rfl, hv⟩ h

theorem EntriesRel.map_fst {xs ys : List (K × V)} (h : EntriesRel xs ys) :
    xs.map Prod.fst = ys.map Prod.fst := by
  induction h with
  | nil => rfl
  | cons hab _ ih => simp [hab.1, ih]

end CloneRel

/-- The three outcomes of `Key.Compare` on a linear order. -/
theorem compare_cases [LinearOrder K] (a b : K) :
    (compare a b = .lt ∧ a < b) ∨ (compare a b = .eq ∧ a = b) ∨ (compare a b = .gt ∧ b < a) := by
  rcases lt_trichotomy a b with h | h | h
  · exact Or.inl ⟨compare_lt_iff_lt.2 h, h⟩
  · exact Or.inr (Or.inl ⟨compare_eq_iff_eq.2 h, h⟩)
  · exact Or.inr (Or.inr ⟨compare_gt_iff_gt.2 h, h⟩)

namespace Node

/-- The in-order key–value pairs. -/
def entries : Node K V → List (K × V)
  | nil => []
  | node k v l r _ _ => entries l ++ (k, v) :: entries r

/-- The in-order keys. -/
def keys (t : Node K V) : List K := t.entries.map Prod.fst

@[simp] theorem entries_nil : (nil : Node K V).entries = [] := rfl
@[simp] theorem entries_node (k : K) (v : V) (l r : Node K V) (c : Bool) (d : Nat) :
    (node k v l r c d).entries = l.entries ++ (k, v) :: r.entries := rfl
@[simp] theorem keys_nil : (nil : Node K V).keys = [] := rfl
@[simp] theorem keys_node (k : K) (v : V) (l r : Node K V) (c : Bool) (d : Nat) :
    (node k v l r c d).keys = l.keys ++ k :: r.keys := by
  simp [keys]

/-- The search-tree order at every node, as the code's invariant states it. -/
def Ordered [LT K] : Node K V → Prop
  | nil => True
  | node k _ l r _ _ => (∀ x ∈ l.keys, x < k) ∧ (∀ x ∈ r.keys, k < x) ∧ Ordered l ∧ Ordered r

@[simp] theorem ordered_nil [LT K] : Ordered (nil : Node K V) := trivial

@[simp] theorem ordered_node [LT K] (k : K) (v : V) (l r : Node K V) (c : Bool) (d : Nat) :
    Ordered (node k v l r c d) ↔
      (∀ x ∈ l.keys, x < k) ∧ (∀ x ∈ r.keys, k < x) ∧ Ordered l ∧ Ordered r := Iff.rfl

/-- The search-tree order says that the in-order keys are strictly increasing. -/
theorem ordered_iff_pairwise [Preorder K] (t : Node K V) :
    t.Ordered ↔ t.keys.Pairwise (· < ·) := by
  induction t with
  | nil => simp
  | node k v l r c d ihl ihr =>
    simp only [ordered_node, keys_node, ihl, ihr, List.pairwise_append, List.pairwise_cons,
      List.mem_cons]
    constructor
    · rintro ⟨hl, hr, pl, pr⟩
      refine ⟨pl, ⟨hr, pr⟩, fun a ha b hb => ?_⟩
      rcases hb with rfl | hb
      · exact hl a ha
      · exact (hl a ha).trans (hr b hb)
    · rintro ⟨pl, ⟨hr, pr⟩, hlr⟩
      exact ⟨fun a ha => hlr a ha k (Or.inl rfl), hr, pl, pr⟩

/-- Two trees with related entries are ordered together. -/
theorem ordered_congr [Preorder K] [Value V] {s t : Node K V}
    (h : EntriesRel s.entries t.entries) : s.Ordered ↔ t.Ordered := by
  rw [ordered_iff_pairwise, ordered_iff_pairwise, keys, keys, h.map_fst]

end Node

end BftCore.Avl
