import BftCore.Avl.Refine

/-!
# `tree/avl`: the tree methods on the store

The methods of `avl.Tree` call the recursive functions with the fuel `s.next + 1`, which
`Repr.height_le_next` shows to be enough: on a tree it owns, each method ends as the method of
the value model does.

* `Node.commit`: the tree `PostOrderCommitTraverser` leaves, every node clean;
* `commitTraverse_spec`: the traverser marks the owned records clean and nothing else;
* `get_spec`, `Tree.get`: the search, and `Tree.Get` on the store;
* `SimulatesTree`, `Tree.apply_spec`: `Add`, `Update` and `Delete` on the store end as
  `Avl.Tree.apply` does, a failure having changed no allocated record.
-/

namespace BftCore.Avl

namespace Node

variable {K V : Type}

/-- The tree `PostOrderCommitTraverser.Traverse` leaves: every node clean.  The traverser
stops at a clean node, below which the store functions leave only clean nodes. -/
def commit : Node K V → Node K V
  | nil => nil
  | node k v l r _ d => node k v l.commit r.commit true d

@[simp] theorem commit_nil : (nil : Node K V).commit = nil := rfl

@[simp] theorem commit_node (k : K) (v : V) (l r : Node K V) (c : Bool) (d : Nat) :
    (node k v l r c d).commit = node k v l.commit r.commit true d := rfl

/-- Committing keeps the entries: the units of a savepoint are those of the tree it cloned. -/
@[simp] theorem entries_commit (t : Node K V) : t.commit.entries = t.entries := by
  induction t with
  | nil => rfl
  | node k v l r c d ihl ihr => simp [ihl, ihr]

@[simp] theorem toMap_commit [LinearOrder K] (t : Node K V) : t.commit.toMap = t.toMap := by
  funext k
  simp [toMap]

@[simp] theorem ordered_commit [Preorder K] (t : Node K V) : t.commit.Ordered ↔ t.Ordered := by
  rw [ordered_iff_pairwise, ordered_iff_pairwise, keys, keys, entries_commit]

@[simp] theorem height_commit (t : Node K V) : t.commit.height = t.height := by
  induction t with
  | nil => rfl
  | node k v l r c d ihl ihr => simp [ihl, ihr]

end Node

namespace Heap

open EStateM

variable {K V : Type}

/-! ### Commit -/

/-- A tree that owns no record is clean throughout, and committing leaves it as it is. -/
theorem Owns.commit_eq {s : Store K V} {q : Option Nat} {t : Node K V} (h : Owns s q t []) :
    t.commit = t := by
  generalize hD : ([] : List Nat) = D at h
  induction h with
  | nil => rfl
  | clean _ _ _ _ ihl ihr =>
    rw [Node.commit_node, ihl rfl, ihr rfl]
  | dirty => exact absurd hD (List.cons_ne_nil _ _).symm

/-- **The commit traverser marks the owned records clean**: afterwards the pointer denotes the
committed tree and owns nothing, and only the records the tree owned were written. -/
theorem commitTraverse_spec {t : Node K V} :
    ∀ {fuel : Nat} {s : Store K V} {q : Option Nat} {D : List Nat}, Owns s q t D →
      t.height < fuel →
      ∃ s', commitTraverse fuel q s = .ok () s' ∧ Owns s' q t.commit [] ∧ Within D s s' := by
  induction t with
  | nil =>
    intro fuel s q D h hf
    obtain ⟨rfl, rfl⟩ := Owns.inv_nil h
    obtain ⟨f, rfl⟩ : ∃ f, fuel = f + 1 := ⟨fuel - 1, by simp at hf; omega⟩
    exact ⟨s, rfl, .nil, Within.refl _ _⟩
  | node k v l r cl d ihl ihr =>
    intro fuel s q D h hf
    obtain ⟨f, rfl⟩ : ∃ f, fuel = f + 1 := ⟨fuel - 1, by simp at hf; omega⟩
    simp only [Node.height_node] at hf
    cases h with
    | @clean a c _ _ hc hcl hl hr =>
      -- a clean node: the traverser stops, and the tree is committed already
      refine ⟨s, ?_, ?_, Within.refl _ _⟩
      · simp only [commitTraverse]
        rw [bind_of_ok (deref_of hc)]
        dsimp only
        rw [if_pos hcl]
        rfl
      · rw [(Owns.clean hc hcl hl hr).commit_eq]
        exact .clean hc hcl hl hr
    | @dirty a c _ _ Dl Dr hc hcl hl hr hal har hd =>
      -- a dirty node: both subtrees first, then the node itself
      obtain ⟨s₁, hrun₁, hl₁, hW₁⟩ := @ihl f _ _ _ hl (by omega)
      have hr₁ : Owns s₁ c.right r Dr :=
        hr.congr (hW₁.agree (fun _ hb => hl.dirty_of_mem hb) hd)
      obtain ⟨s₂, hrun₂, hr₂, hW₂⟩ := @ihr f _ _ _ hr₁ (by omega)
      have hc₂ : s₂.cells a = some c :=
        hW₂.cell_of_not_mem (hW₁.cell_of_not_mem hc hal) har
      have hdirty : Dirty s₂ a := ⟨c, hc₂, hcl⟩
      have hl₂ : Owns s₂ c.left l.commit [] := hl₁.congr (hW₂.agree (fun _ hb => hr₁.dirty_of_mem hb)
        (List.disjoint_nil_right _))
      refine ⟨s₂.set a { c with clean := true }, ?_, ?_, ?_⟩
      · simp only [commitTraverse]
        rw [bind_of_ok (deref_of hc)]
        simp only [hcl, Bool.false_eq_true, if_false]
        rw [bind_of_ok hrun₁, bind_of_ok hrun₂]
        simp only [setClean]
        rw [bind_of_ok (deref_of hc₂)]
        simp only [hcl, Bool.false_eq_true, if_false]
        exact modifyCell_of hc₂ _
      · refine .clean (c := { c with clean := true }) (Store.set_cells_self (by simp [hc₂]) _) rfl ?_ ?_
        · exact hl₂.congr (Agree.set hdirty List.not_mem_nil _)
        · exact hr₂.congr (Agree.set hdirty List.not_mem_nil _)
      · have hW₁' : Within (a :: (Dl ++ Dr)) s s₁ :=
          hW₁.mono fun _ hx => List.mem_cons_of_mem _ (List.mem_append_left _ hx)
        have hW₂' : Within (a :: (Dl ++ Dr)) s₁ s₂ :=
          hW₂.mono fun _ hx => List.mem_cons_of_mem _ (List.mem_append_right _ hx)
        exact (hW₁'.trans hW₂' fun _ hx => Or.inl hx).set_of (Or.inl List.mem_cons_self) _

/-! ### Search -/

/-- A call of the value model run on the store, which it leaves as it is. -/
def ofExcept {α : Type} (x : Except (AvlError K) α) : StoreM K V α := fun s =>
  match x with
  | .ok a => .ok a s
  | .error e => .error (.avl e) s

theorem fuel_eq (s : Store K V) : (fuel : StoreM K V Nat) s = .ok (s.next + 1) s := rfl

section Search

variable [Ord K]

/-- `get` follows the path `Node.get` takes and returns a pointer to the subtree it finds. -/
theorem get_spec (key : K) {t : Node K V} :
    ∀ {fuel : Nat} {s : Store K V} {q : Option Nat} {D : List Nat}, Owns s q t D →
      t.height < fuel → ∃ q' D', get fuel q key s = .ok q' s ∧ Owns s q' (t.get key) D' := by
  induction t with
  | nil =>
    intro fuel s q D h hf
    obtain ⟨rfl, rfl⟩ := Owns.inv_nil h
    obtain ⟨f, rfl⟩ : ∃ f, fuel = f + 1 := ⟨fuel - 1, by simp at hf; omega⟩
    exact ⟨none, [], rfl, .nil⟩
  | node k v l r cl d ihl ihr =>
    intro fuel s q D h hf
    obtain ⟨f, rfl⟩ : ∃ f, fuel = f + 1 := ⟨fuel - 1, by simp at hf; omega⟩
    simp only [Node.height_node] at hf
    obtain ⟨a, rfl⟩ := h.some_of_ne_nil nofun
    obtain ⟨c, l', r', Dl, Dr, hc, ht, hl, hr, -, -⟩ := h.inv_some
    simp only [Node.node.injEq] at ht
    obtain ⟨rfl, rfl, rfl, rfl, rfl, rfl⟩ := ht
    simp only [get]
    rw [bind_of_ok (deref_of hc)]
    dsimp only
    rcases hcmp : compare c.key key
    · -- the key is on the right
      obtain ⟨q', D', hrun, ho⟩ := @ihr f _ _ _ hr (by omega)
      exact ⟨q', D', hrun, by simpa [Node.get, hcmp] using ho⟩
    · exact ⟨some a, D, rfl, by simpa [Node.get, hcmp] using h⟩
    · obtain ⟨q', D', hrun, ho⟩ := @ihl f _ _ _ hl (by omega)
      exact ⟨q', D', hrun, by simpa [Node.get, hcmp] using ho⟩

/-- `Tree.Get(key)`: the value stored under `key`, or `ErrNotFound`; a nil root is searched as
any other. -/
def Tree.get (t : Tree) (key : K) : StoreM K V V := do
  let n ← Heap.get (← fuel) t.root key
  match n with
  | none => throw (.avl (.notFound key))
  | some a => do
    let (_, c) ← deref (some a)
    pure c.value

/-- **`Tree.Get` on the store is `Avl.Tree.Get`** of the tree the root denotes. -/
theorem Tree.get_spec {s : Store K V} {t : Tree} {tv : Node K V} {D : List Nat}
    (h : Owns s t.root tv D) (key : K) : t.get key s = ofExcept (Avl.Tree.get ⟨tv⟩ key) s := by
  obtain ⟨q', D', hrun, ho⟩ := Heap.get_spec key h (Nat.lt_succ_of_le h.repr.height_le_next)
  unfold Tree.get
  rw [bind_of_ok (fuel_eq s), bind_of_ok hrun]
  simp only [Avl.Tree.get]
  -- the pointer found is nil exactly when the subtree found is
  generalize tv.get key = g at ho ⊢
  cases ho with
  | nil => rfl
  | clean hc =>
    dsimp only
    rw [bind_of_ok (deref_of hc)]
    rfl
  | dirty hc =>
    dsimp only
    rw [bind_of_ok (deref_of hc)]
    rfl

end Search

/-! ### `Add`, `Update`, `Delete` -/

/-- A tree method ends as the value method: on success with the root of the tree it returns,
on failure with its error and no allocated record changed. -/
def SimulatesTree (D : List Nat) (s : Store K V) :
    Except (AvlError K) (Avl.Tree K V) → EStateM.Result (StoreError K) (Store K V) Tree → Prop
  | .ok t', .ok t s' => Result D s t'.root t.root s'
  | .error e, .error e' s' => e' = .avl e ∧ Within [] s s'
  | _, _ => False

/-- A method that calls one recursive function with the tree fuel and wraps its result. -/
theorem simulatesTree_of {s : Store K V} {D : List Nat} {x : Nat → StoreM K V (Option Nat)}
    {r : Except (AvlError K) (Node K V)} (hx : Simulates D s r (x (s.next + 1) s)) :
    SimulatesTree D s (r >>= fun n => pure ⟨n⟩) ((do let n ← x (← fuel); pure (Tree.mk n)) s) := by
  rw [bind_of_ok (fuel_eq s)]
  cases r with
  | error e =>
    obtain ⟨s', hh, hW⟩ := hx.error_inv
    rw [bind_of_error hh]
    exact ⟨rfl, hW⟩
  | ok t' =>
    obtain ⟨q, s', hh, hres⟩ := hx.ok_inv
    rw [bind_of_ok hh]
    exact hres

variable [Ord K] [Value V]

/-- **`Add`, `Update` and `Delete` on the store end as `Avl.Tree.apply`** on the tree the root
denotes. -/
theorem Tree.apply_spec {s : Store K V} {t : Tree} {tv : Node K V} {D : List Nat}
    (h : Owns s t.root tv D) (op : Op K V) :
    SimulatesTree D s ((⟨tv⟩ : Avl.Tree K V).apply op) (t.apply op s) := by
  have hf : tv.height < s.next + 1 := Nat.lt_succ_of_le h.repr.height_le_next
  cases op with
  | add k v => exact simulatesTree_of (insert_spec k v h hf)
  | update k v => exact simulatesTree_of (update_spec k v h hf)
  | delete k => exact simulatesTree_of (remove_spec k h hf)

omit [Ord K] [Value V] in
/-- `Commit()` on an owned tree: the committed tree, owning nothing. -/
theorem Tree.commit_spec {s : Store K V} {t : Tree} {tv : Node K V} {D : List Nat}
    (h : Owns s t.root tv D) :
    ∃ s', t.commit s = .ok () s' ∧ Owns s' t.root tv.commit [] ∧ Within D s s' := by
  obtain ⟨s', hrun, ho, hW⟩ := commitTraverse_spec h (Nat.lt_succ_of_le h.repr.height_le_next)
  refine ⟨s', ?_, ho, hW⟩
  unfold Tree.commit
  rw [bind_of_ok (fuel_eq s)]
  exact hrun

end Heap

end BftCore.Avl
