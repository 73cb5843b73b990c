import BftCore.Avl.Insert
import BftCore.Avl.Remove
import BftCore.Avl.Tree
import BftCore.Avl.Owns

/-!
# `tree/avl`: what a result is made of

A call of `insert`, `update` or `remove` builds its result from subtrees of the tree it was
called on and from dirty nodes: the copies `writable` makes (holding a clone of a clean
node's value, or the value of a node that was already dirty), the new leaf, and the node that
takes the new value or the value of the predecessor.  So a property `P` of nodes holds at
every node of the result when it holds at every node of the tree, provided that a dirty node
has it exactly when its value satisfies a predicate `Q` that clones and the new value
satisfy: `all_insert`, `all_update`, `all_remove`, and `all_apply` for the tree methods.

On the store, `Repr.congr_keys` is the frame lemma for writes that keep the records holding
the keys of a tree, and `Owns.of_allClean` reads an all-clean tree as owning nothing.
-/

namespace BftCore.Avl

variable {K V : Type}

namespace Node

/-- `P` holds at every node, of the subtree that node roots. -/
def All (P : Node K V → Prop) : Node K V → Prop
  | nil => True
  | node k v l r c d => P (node k v l r c d) ∧ All P l ∧ All P r

@[simp] theorem all_nil (P : Node K V → Prop) : All P nil := trivial

@[simp] theorem all_node {P : Node K V → Prop} {k : K} {v : V} {l r : Node K V} {c : Bool}
    {d : Nat} : All P (node k v l r c d) ↔ P (node k v l r c d) ∧ All P l ∧ All P r := Iff.rfl

/-- `n` is the subtree of one of the nodes of `t`. -/
inductive Subtree : Node K V → Node K V → Prop
  | refl (t : Node K V) : Subtree t t
  | left {n l : Node K V} (k : K) (v : V) (r : Node K V) (c : Bool) (d : Nat) :
      Subtree n l → Subtree n (node k v l r c d)
  | right {n r : Node K V} (k : K) (v : V) (l : Node K V) (c : Bool) (d : Nat) :
      Subtree n r → Subtree n (node k v l r c d)

theorem All.subtree {P : Node K V → Prop} {n t : Node K V} (h : All P t) (hn : Subtree n t) :
    All P n := by
  induction hn with
  | refl => exact h
  | left _ _ _ _ _ _ ih => exact ih h.2.1
  | right _ _ _ _ _ _ ih => exact ih h.2.2

theorem Subtree.keys_subset {n t : Node K V} (h : Subtree n t) : ∀ x ∈ n.keys, x ∈ t.keys := by
  induction h with
  | refl => exact fun _ hx => hx
  | left _ _ _ _ _ _ ih => exact fun x hx => by simp [ih x hx]
  | right _ _ _ _ _ _ ih => exact fun x hx => by simp [ih x hx]

theorem Subtree.entries_subset {n t : Node K V} (h : Subtree n t) :
    ∀ e ∈ n.entries, e ∈ t.entries := by
  induction h with
  | refl => exact fun _ he => he
  | left _ _ _ _ _ _ ih => exact fun e he => by simp [ih e he]
  | right _ _ _ _ _ _ ih => exact fun e he => by simp [ih e he]

/-- `get` returns a subtree, the one its search ends at. -/
theorem get_subtree [Ord K] (t : Node K V) (key : K) : Subtree (t.get key) t := by
  induction t with
  | nil => exact .refl _
  | node k v l r c d ihl ihr =>
    unfold get
    split
    · exact .left k v r c d ihl
    · exact .right k v l c d ihr
    · exact .refl _

/-! ### Results built of subtrees and admissible dirty nodes -/

section Provenance

variable [Value V] {P : Node K V → Prop} {Q : V → Prop}
  (hclone : ∀ v, Q (Value.clone v)) (hdirty : ∀ k v l r d, P (node k v l r false d) ↔ Q v)
include hclone hdirty

/-- The value of a writable copy of a node satisfies `Q`. -/
theorem q_writable {k : K} {v : V} {l r : Node K V} {c : Bool} {d : Nat}
    (h : P (node k v l r c d)) : Q (if c then Value.clone v else v) := by
  cases c with
  | true => exact hclone v
  | false => exact (hdirty k v l r d).1 h

omit hclone [Value V] in
theorem all_dirty {k : K} {v : V} {l r : Node K V} {d : Nat} (hv : Q v) (hl : All P l)
    (hr : All P r) : All P (node k v l r false d) :=
  ⟨(hdirty k v l r d).2 hv, hl, hr⟩

/-- `rotate` of a dirty node with an admissible value and children. -/
theorem all_rotate {k : K} {v : V} {l r : Node K V} {d : Nat} (hv : Q v) (hl : All P l)
    (hr : All P r) : All P (rotate (node k v l r false d)) := by
  rcases rotate_cases k v l r false d with
    ⟨-, -, he⟩ | ⟨lk, lv, ll, lr, lc, ld, rfl, -, -, he⟩ |
    ⟨lk, lv, ll, lc, ld, mk, mv, ml, mr, mc, md, rfl, -, -, he⟩ |
    ⟨rk, rv, rl, rr, rc, rd, rfl, -, -, he⟩ |
    ⟨rk, rv, rr, rc, rd, mk, mv, ml, mr, mc, md, rfl, -, -, he⟩ <;> rw [he]
  · exact all_dirty hdirty hv hl hr
  · obtain ⟨hlp, hll, hlr⟩ := hl
    exact all_dirty hdirty (q_writable hclone hdirty hlp) hll
      (all_dirty hdirty (by simpa using hv) hlr hr)
  · obtain ⟨hlp, hll, hmp, hml, hmr⟩ := hl
    exact all_dirty hdirty (q_writable hclone hdirty hmp)
      (all_dirty hdirty (q_writable hclone hdirty hlp) hll hml)
      (all_dirty hdirty (by simpa using hv) hmr hr)
  · obtain ⟨hrp, hrl, hrr⟩ := hr
    exact all_dirty hdirty (q_writable hclone hdirty hrp)
      (all_dirty hdirty (by simpa using hv) hl hrl) hrr
  · obtain ⟨hrp, ⟨hmp, hml, hmr⟩, hrr⟩ := hr
    exact all_dirty hdirty (q_writable hclone hdirty hmp)
      (all_dirty hdirty (by simpa using hv) hl hml)
      (all_dirty hdirty (q_writable hclone hdirty hrp) hmr hrr)

/-- `replace` under a dirty parent: the subtree it returns keeps the property, and the
predecessor it splits off holds an admissible value. -/
theorem all_replace (n : Node K V) {pk : K} {pv : V} {pl : Node K V} {pd : Nat} (hv : Q pv)
    (hl : All P pl) (hn : All P n) :
    All P (replace n (node pk pv pl n false pd)).1 ∧
      ∀ k' w' l' r' c' d', (replace n (node pk pv pl n false pd)).2 = node k' w' l' r' c' d' →
        Q w' := by
  induction n generalizing pk pv pl pd with
  | nil =>
    refine ⟨hl, ?_⟩
    intro k' w' l' r' c' d' he
    simp only [replace_nil, node.injEq] at he
    rw [← he.2.1]
    exact hv
  | node nk nv nl nr nc nd _ ihr =>
    have hw := q_writable hclone hdirty hn.1
    cases nr with
    | nil =>
      rw [replace_node_nil]
      refine ⟨all_rotate hclone hdirty hv hl hn.2.1, ?_⟩
      intro k' w' l' r' c' d' he
      simp only [node.injEq] at he
      rw [← he.2.1]
      exact hw
    | node =>
      rw [replace_node_node _ _ _ _ _ _ _ (by simp)]
      obtain ⟨hres, hpred⟩ := ihr hw hn.2.1 hn.2.2
      exact ⟨all_rotate hclone hdirty hv hl hres, hpred⟩

variable [LinearOrder K]

/-- **`insert` keeps a property of every node**, the new value being admissible. -/
theorem all_insert {t t' : Node K V} {k : K} {v : V} (ht : All P t) (hv : Q v)
    (h : t.insert k v = .ok t') : All P t' := by
  induction t generalizing t' with
  | nil =>
    rcases insert_eq_ok h with ⟨-, rfl⟩ | ⟨_, _, _, _, _, _, _, he, -⟩ | ⟨_, _, _, _, _, _, _, he, -⟩
    · exact all_dirty hdirty hv trivial trivial
    · cases he
    · cases he
  | node pk pv pl pr pc pd ihl ihr =>
    rcases insert_eq_ok h with ⟨he, -⟩ | ⟨_, _, _, _, _, _, l', he, -, hl, rfl⟩ |
      ⟨_, _, _, _, _, _, r', he, -, hr, rfl⟩
    · cases he
    · cases he
      exact all_rotate hclone hdirty (q_writable hclone hdirty ht.1) (ihl ht.2.1 hl) ht.2.2
    · cases he
      exact all_rotate hclone hdirty (q_writable hclone hdirty ht.1) ht.2.1 (ihr ht.2.2 hr)

/-- `update` keeps a property of every node, the new value being admissible. -/
theorem all_update {t t' : Node K V} {k : K} {v : V} (ht : All P t) (hv : Q v)
    (h : t.update k v = .ok t') : All P t' := by
  induction t generalizing t' with
  | nil => cases h
  | node nk nv nl nr nc nd ihl ihr =>
    obtain ⟨_, _, _, _, _, _, he, hcases⟩ := update_eq_ok h
    cases he
    have hw := q_writable hclone hdirty ht.1
    rcases hcases with ⟨-, l', hl, rfl⟩ | ⟨-, r', hr, rfl⟩ | ⟨-, rfl⟩
    · exact all_dirty hdirty hw (ihl ht.2.1 hl) ht.2.2
    · exact all_dirty hdirty hw ht.2.1 (ihr ht.2.2 hr)
    · exact all_dirty hdirty hv ht.2.1 ht.2.2

/-- **`remove` keeps a property of every node.** -/
theorem all_remove {t t' : Node K V} {k : K} (ht : All P t) (h : t.remove k = .ok t') :
    All P t' := by
  induction t generalizing t' with
  | nil => cases h
  | node nk nv nl nr nc nd ihl ihr =>
    obtain ⟨_, _, _, _, _, _, he, hcases⟩ := remove_eq_ok h
    cases he
    have hw := q_writable hclone hdirty ht.1
    rcases hcases with ⟨-, l', hl, rfl⟩ | ⟨-, r', hr, rfl⟩ | ⟨-, -, rfl⟩ | ⟨-, -, rfl⟩ |
      ⟨-, lk, lv, ll, lr, lc, ld, rfl, -, pk, pv, pl', pr', pc', pd', hpred, rfl⟩
    · exact all_rotate hclone hdirty hw (ihl ht.2.1 hl) ht.2.2
    · exact all_rotate hclone hdirty hw ht.2.1 (ihr ht.2.2 hr)
    · exact ht.2.2
    · exact ht.2.1
    · -- the predecessor comes from a dirty copy of the left child
      obtain ⟨-, hll, hlr⟩ := ht.2.1
      obtain ⟨hres, hq⟩ := all_replace hclone hdirty lr (hclone lv) hll hlr
      exact all_rotate hclone hdirty (hq _ _ _ _ _ _ hpred) hres ht.2.2

end Provenance

end Node

/-- The value a call writes satisfies `Q`. -/
def Op.Writes (Q : V → Prop) : Op K V → Prop
  | .add _ v => Q v
  | .update _ v => Q v
  | .delete _ => True

/-- **The tree methods keep a property of every node**, the value written being admissible. -/
theorem Tree.all_apply [Value V] [LinearOrder K] {P : Node K V → Prop} {Q : V → Prop}
    (hclone : ∀ v, Q (Value.clone v)) (hdirty : ∀ k v l r d, P (.node k v l r false d) ↔ Q v)
    {t t' : Tree K V} {op : Op K V} (ht : t.root.All P) (hop : op.Writes Q)
    (h : t.apply op = .ok t') : t'.root.All P := by
  rcases Tree.apply_eq_ok h with ⟨k, v, rfl, hr⟩ | ⟨k, v, rfl, hr⟩ | ⟨k, rfl, hr⟩
  · exact Node.all_insert hclone hdirty ht hop hr
  · exact Node.all_update hclone hdirty ht hop hr
  · exact Node.all_remove hclone hdirty ht hr

/-! ### Frames on the store -/

namespace Heap

variable {s s' : Store K V}

/-- A pointer keeps its tree in a store that keeps every record holding one of its keys. -/
theorem Repr.congr_keys {p : Option Nat} {t : Node K V} (h : Repr s p t)
    (hs : ∀ a c, s.cells a = some c → c.key ∈ t.keys → s'.cells a = some c) : Repr s' p t := by
  induction h with
  | nil => exact .nil
  | node hc _ _ ihl ihr =>
    refine .node (hs _ _ hc (by simp)) (ihl fun a c ha hk => hs a c ha ?_)
      (ihr fun a c ha hk => hs a c ha ?_) <;> simp [hk]

/-- The key of a record is a key of the tree it denotes. -/
theorem Repr.key_mem {a : Nat} {t : Node K V} {c : Cell K V} (h : Repr s (some a) t)
    (hc : s.cells a = some c) : c.key ∈ t.keys := by
  cases h with
  | node hc' =>
    rw [hc] at hc'
    cases hc'
    simp

/-- Writing a record that holds a key outside the tree keeps the tree. -/
theorem Repr.set_of_not_mem {p : Option Nat} {t : Node K V} (h : Repr s p t) {a : Nat}
    {c : Cell K V} (hc : s.cells a = some c) (hk : c.key ∉ t.keys) (c' : Cell K V) :
    Repr (s.set a c') p t := by
  refine h.congr_keys fun b cb hb hkb => ?_
  have hne : b ≠ a := by
    rintro rfl
    rw [hc] at hb
    cases hb
    exact hk hkb
  rw [Store.set_cells_of_ne s c' hne]
  exact hb

/-- Writing a record with the cell it holds changes nothing. -/
theorem Store.set_eq_self {a : Nat} {c : Cell K V} (hc : s.cells a = some c) : s.set a c = s := by
  obtain ⟨cells, next, fresh⟩ := s
  simp only [Store.set, Store.mk.injEq, and_true]
  funext b
  simp only at hc
  split_ifs with hb
  · rw [hb.1, hc]
  · rfl

/-- A pointer to an all-clean tree owns no record. -/
theorem Owns.of_allClean {p : Option Nat} {t : Node K V} (h : Repr s p t) (hc : AllClean t) :
    Owns s p t [] := by
  induction h with
  | nil => exact .nil
  | @node a c l r hcell _ _ ihl ihr =>
    obtain ⟨hcc, hcl, hcr⟩ := hc
    rw [hcc]
    exact Owns.clean hcell hcc (ihl hcl) (ihr hcr)

end Heap

end BftCore.Avl
