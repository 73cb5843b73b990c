import BftCore.Avl.Insert

/-!
# `tree/avl`: deletion

`remove` deletes a node with at most one child by splicing, and a node with two children by
moving up its in-order predecessor, which `replace` extracts from a dirty copy of the left
child, rebalancing every node of its walk.

* `replace_entries`, `replace_avl`: `replace` splits off the last entry of the subtree it
  walks (the predecessor) and leaves an AVL tree at most one level lower;
* `remove_error_iff`, `remove_entries`, `remove_avl`: on an ordered tree `remove` fails
  exactly when the key is absent, and otherwise drops exactly that entry and keeps an AVL
  tree AVL, at most one level lower.
-/

namespace BftCore.Avl.Node

variable {K V : Type} [Value V]

/-! ### `replace` -/

section Replace

@[simp] theorem replace_nil (parent : Node K V) : replace nil parent = (parent.left, parent) := by
  rw [replace]

/-- `replace` at a node without a right child: the node is the predecessor. -/
theorem replace_node_nil (nk : K) (nv : V) (nl : Node K V) (nc : Bool) (nd : Nat)
    (parent : Node K V) :
    replace (node nk nv nl nil nc nd) parent =
      (rotate ((parent.setRight nl).setDepth (parent.setRight nl).calculateDepth),
        node nk (if nc then Value.clone nv else nv) nl nil false nd) := by
  rw [replace]; simp

/-- `replace` at a node with a right child walks on, with the writable node as parent. -/
theorem replace_node_node (nk : K) (nv : V) (nl nr : Node K V) (nc : Bool) (nd : Nat)
    (parent : Node K V) (hr : nr ≠ nil) :
    replace (node nk nv nl nr nc nd) parent =
      let res := replace nr (node nk (if nc then Value.clone nv else nv) nl nr false nd)
      (rotate ((parent.setRight res.1).setDepth (parent.setRight res.1).calculateDepth), res.2) := by
  cases nr with
  | nil => exact absurd rfl hr
  | node => rw [replace]; simp

/-- **`replace` splits off the predecessor**: the entries of the subtree `parent` are those of
the result followed by the entry of the predecessor node, up to cloning. -/
theorem replace_entries (n : Node K V) (pk : K) (pv : V) (pl : Node K V) (pc : Bool) (pd : Nat) :
    ∃ k' w' l r c d, (replace n (node pk pv pl n pc pd)).2 = node k' w' l r c d ∧
      EntriesRel (node pk pv pl n pc pd).entries
        ((replace n (node pk pv pl n pc pd)).1.entries ++ [(k', w')]) := by
  induction n generalizing pk pv pl pc pd with
  | nil => exact ⟨pk, pv, pl, nil, pc, pd, rfl, by simpa using EntriesRel.refl _⟩
  | node nk nv nl nr nc nd _ ihr =>
    cases nr with
    | nil =>
      rw [replace_node_nil]
      refine ⟨nk, _, nl, nil, false, nd, rfl, ?_⟩
      simp only [setRight_node, calculateDepth_node, setDepth_node, entries_node, entries_nil]
      rw [← List.cons_append, ← List.append_assoc]
      exact (rotate_entries _ _ _ _ _ _).append (.cons (CloneRel.ite _ _) (EntriesRel.refl _))
    | node rk rv rl rr rc rd =>
      rw [replace_node_node _ _ _ _ _ _ _ (by simp)]
      obtain ⟨k', w', l, r, c, d, hpred, hrel⟩ := ihr nk (if nc then Value.clone nv else nv) nl false nd
      refine ⟨k', w', l, r, c, d, hpred, ?_⟩
      simp only [setRight_node, calculateDepth_node, setDepth_node, entries_node] at hrel ⊢
      refine EntriesRel.trans ((EntriesRel.refl _).append
        (.cons (CloneRel.refl _) (EntriesRel.trans ?_ hrel))) ?_
      · exact (EntriesRel.refl _).append (.cons (CloneRel.ite _ _) (EntriesRel.refl _))
      · rw [← List.cons_append, ← List.append_assoc]
        exact (rotate_entries _ _ _ _ _ _).append (EntriesRel.refl _)

/-- **`replace` rebalances**: from an AVL subtree it leaves an AVL tree at most one level
lower. -/
theorem replace_avl (n : Node K V) (pk : K) (pv : V) (pl : Node K V) (pc : Bool) (pd : Nat)
    (ha : IsAvl (node pk pv pl n pc pd)) :
    (replace n (node pk pv pl n pc pd)).1.IsAvl ∧
      (replace n (node pk pv pl n pc pd)).1.depth ≤ pd ∧
      pd ≤ (replace n (node pk pv pl n pc pd)).1.depth + 1 := by
  induction n generalizing pk pv pl pc pd with
  | nil =>
    obtain ⟨al, -, hd, -, -⟩ := ha
    simp only [replace_nil, left_node, depth_nil] at hd ⊢
    exact ⟨al, by omega, by omega⟩
  | node nk nv nl nr nc nd _ ihr =>
    obtain ⟨al, ⟨anl, anr, hnd, hn1, hn2⟩, hd, hb1, hb2⟩ := ha
    simp only [depth_node] at hd hb1 hb2
    cases nr with
    | nil =>
      rw [replace_node_nil]
      simp only [setRight_node, calculateDepth_node, setDepth_node, depth_nil] at hnd hn1 ⊢
      obtain ⟨hav, hlo, hhi, hbal⟩ :=
        rotate_depth_spec (k := pk) (v := pv) (c := pc) (d := max pl.depth nl.depth + 1)
          al anl (by omega) (by omega)
      refine ⟨hav, by omega, ?_⟩
      by_cases hb : pl.depth ≤ nl.depth + 1
      · rw [hbal hb (by omega)]; omega
      · omega
    | node rk rv rl rr rc rd =>
      rw [replace_node_node _ _ _ _ _ _ _ (by simp)]
      obtain ⟨arep, hlo', hhi'⟩ := ihr nk (if nc then Value.clone nv else nv) nl false nd
        ⟨anl, anr, hnd, hn1, hn2⟩
      simp only [setRight_node, calculateDepth_node, setDepth_node]
      obtain ⟨hav, hlo, hhi, hbal⟩ := rotate_depth_spec (k := pk) (v := pv) (c := pc)
        (d := max pl.depth (replace (node rk rv rl rr rc rd)
          (node nk (if nc then Value.clone nv else nv) nl (node rk rv rl rr rc rd) false nd)).1.depth + 1)
        al arep (by omega) (by omega)
      refine ⟨hav, by omega, ?_⟩
      by_cases hb : pl.depth ≤ (replace (node rk rv rl rr rc rd)
          (node nk (if nc then Value.clone nv else nv) nl (node rk rv rl rr rc rd) false nd)).1.depth + 1
      · rw [hbal hb (by omega)]; omega
      · omega

end Replace

/-! ### `remove` -/

section Remove

variable [LinearOrder K] {k : K}

/-- What a successful `remove` did at the root: went left or right, spliced out a node with
at most one child, or moved up the predecessor that `replace` split off the left child. -/
theorem remove_eq_ok {t t' : Node K V} (h : t.remove k = .ok t') :
    ∃ nk nv nl nr nc nd, t = node nk nv nl nr nc nd ∧
      ((k < nk ∧ ∃ l', nl.remove k = .ok l' ∧
          t' = rotate (node nk (if nc then Value.clone nv else nv) l' nr false
            (max l'.depth nr.depth + 1))) ∨
        (nk < k ∧ ∃ r', nr.remove k = .ok r' ∧
          t' = rotate (node nk (if nc then Value.clone nv else nv) nl r' false
            (max nl.depth r'.depth + 1))) ∨
        (nk = k ∧ nl = nil ∧ t' = nr) ∨
        (nk = k ∧ nr = nil ∧ t' = nl) ∨
        (nk = k ∧ ∃ lk lv ll lr lc ld, nl = node lk lv ll lr lc ld ∧ nr ≠ nil ∧
          ∃ pk pv pl' pr' pc' pd', (replace lr (node lk (Value.clone lv) ll lr false ld)).2 =
              node pk pv pl' pr' pc' pd' ∧
            t' = rotate (node pk pv (replace lr (node lk (Value.clone lv) ll lr false ld)).1 nr
              false (max (replace lr (node lk (Value.clone lv) ll lr false ld)).1.depth nr.depth + 1)))) := by
  cases t with
  | nil => rw [Node.remove] at h; cases h
  | node nk nv nl nr nc nd =>
    refine ⟨nk, nv, nl, nr, nc, nd, rfl, ?_⟩
    unfold Node.remove at h
    rcases compare_cases nk k with ⟨hc, hlt⟩ | ⟨hc, rfl⟩ | ⟨hc, hlt⟩ <;> simp only [hc] at h
    · cases hr : nr.remove k with
      | error e => simp [hr] at h
      | ok r' =>
        simp only [hr, bind, Except.bind, pure, Except.pure, Except.ok.injEq] at h
        refine Or.inr (Or.inl ⟨hlt, r', rfl, ?_⟩)
        rw [← h, writable_node, setRight_node, calculateDepth_node, setDepth_node]
    · cases nl with
      | nil => exact Or.inr (Or.inr (Or.inl ⟨rfl, rfl, (Except.ok.inj (by cases nr <;> exact h)).symm⟩))
      | node lk lv ll lr lc ld =>
        cases nr with
        | nil => exact Or.inr (Or.inr (Or.inr (Or.inl ⟨rfl, rfl, (Except.ok.inj h).symm⟩)))
        | node rk rv rl rr rc rd =>
          refine Or.inr (Or.inr (Or.inr (Or.inr ⟨rfl, lk, lv, ll, lr, lc, ld, rfl, by simp, ?_⟩)))
          obtain ⟨pk, pv, pl', pr', pc', pd', hpred, -⟩ := replace_entries lr lk (Value.clone lv) ll false ld
          refine ⟨pk, pv, pl', pr', pc', pd', hpred, ?_⟩
          have hpair : replace lr (node lk (Value.clone lv) ll lr false ld) =
              ((replace lr (node lk (Value.clone lv) ll lr false ld)).1, node pk pv pl' pr' pc' pd') := by
            rw [← hpred]
          simp only [newDirtyNode, right_node] at h
          rw [hpair] at h
          simp only [writable_node, setEntry_node, setLeft_node, calculateDepth_node,
            setDepth_node, Except.ok.injEq] at h
          exact h.symm
    · cases hl : nl.remove k with
      | error e => simp [hl] at h
      | ok l' =>
        simp only [hl, bind, Except.bind, pure, Except.pure, Except.ok.injEq] at h
        refine Or.inl ⟨hlt, l', rfl, ?_⟩
        rw [← h, writable_node, setLeft_node, calculateDepth_node, setDepth_node]

/-- At the node holding the key, `remove` always succeeds. -/
theorem remove_node_self_ne_error (nv : V) (nl nr : Node K V) (nc : Bool) (nd : Nat)
    (e : AvlError K) : (node k nv nl nr nc nd).remove k ≠ .error e := by
  unfold Node.remove
  simp only [compare_eq_iff_eq.2 rfl]
  cases nl with
  | nil => cases nr <;> simp
  | node lk lv ll lr lc ld =>
    cases nr with
    | nil => simp
    | node rk rv rl rr rc rd =>
      simp only [newDirtyNode, right_node]
      obtain ⟨pk, pv, pl', pr', pc', pd', hpred, -⟩ := replace_entries lr lk (Value.clone lv) ll false ld
      have hpair : replace lr (node lk (Value.clone lv) ll lr false ld) =
          ((replace lr (node lk (Value.clone lv) ll lr false ld)).1, node pk pv pl' pr' pc' pd') := by
        rw [← hpred]
      rw [hpair]
      simp

/-- On an ordered tree, `remove` fails exactly when the key is absent, with `ErrNotFound`. -/
theorem remove_error_iff {t : Node K V} (ho : t.Ordered) {e : AvlError K} :
    t.remove k = .error e ↔ k ∉ t.keys ∧ e = .notFound k := by
  induction t generalizing e with
  | nil => simp [Node.remove, eq_comm]
  | node nk nv nl nr nc nd ihl ihr =>
    obtain ⟨hol, hor, okl, okr⟩ := ho
    rw [keys_node, List.mem_append, List.mem_cons]
    rcases compare_cases nk k with ⟨hc, hlt⟩ | ⟨hc, rfl⟩ | ⟨hc, hlt⟩
    · have hnl : k ∉ nl.keys := fun hk => absurd (hol k hk) (not_lt.2 hlt.le)
      unfold Node.remove
      simp only [hc]
      cases hr : nr.remove k with
      | error e' =>
        obtain ⟨hk, rfl⟩ := (ihr okr).1 hr
        simp [hk, hnl, hlt.ne', eq_comm, bind, Except.bind]
      | ok r' =>
        have hk : k ∈ nr.keys := by
          by_contra hk
          simpa [hr] using (ihr okr).2 ⟨hk, rfl⟩
        simp [hk, bind, Except.bind, pure, Except.pure]
    · simpa using remove_node_self_ne_error nv nl nr nc nd e
    · have hnr : k ∉ nr.keys := fun hk => absurd (hor k hk) (not_lt.2 hlt.le)
      unfold Node.remove
      simp only [hc]
      cases hl : nl.remove k with
      | error e' =>
        obtain ⟨hk, rfl⟩ := (ihl okl).1 hl
        simp [hk, hnr, hlt.ne, eq_comm, bind, Except.bind]
      | ok l' =>
        have hk : k ∈ nl.keys := by
          by_contra hk
          simpa [hl] using (ihl okl).2 ⟨hk, rfl⟩
        simp [hk, bind, Except.bind, pure, Except.pure]

/-- **Deletion drops exactly the entry of the key**, keeping the others up to cloning. -/
theorem remove_entries {t t' : Node K V} (h : t.remove k = .ok t') :
    ∃ xs w ys, t.entries = xs ++ (k, w) :: ys ∧ EntriesRel (xs ++ ys) t'.entries := by
  induction t generalizing t' with
  | nil => obtain ⟨_, _, _, _, _, _, he, -⟩ := remove_eq_ok h; cases he
  | node nk nv nl nr nc nd ihl ihr =>
    obtain ⟨_, _, _, _, _, _, he, hcase⟩ := remove_eq_ok h
    cases he
    rcases hcase with ⟨-, l', hl, rfl⟩ | ⟨-, r', hr, rfl⟩ | ⟨rfl, rfl, ht⟩ | ⟨rfl, rfl, ht⟩ |
      ⟨rfl, lk, lv, ll, lr, lc, ld, rfl, -, pk, pv, pl', pr', pc', pd', hpred, rfl⟩
    · obtain ⟨xs, w, ys, hxy, hrel⟩ := ihl hl
      refine ⟨xs, w, ys ++ (nk, nv) :: nr.entries, by simp [hxy], ?_⟩
      refine EntriesRel.trans ?_ (rotate_entries _ _ _ _ _ _)
      rw [entries_node, ← List.append_assoc]
      exact hrel.append (.cons (CloneRel.ite _ _) (EntriesRel.refl _))
    · obtain ⟨xs, w, ys, hxy, hrel⟩ := ihr hr
      refine ⟨nl.entries ++ (nk, nv) :: xs, w, ys, by simp [hxy], ?_⟩
      refine EntriesRel.trans ?_ (rotate_entries _ _ _ _ _ _)
      rw [entries_node, List.append_assoc, List.cons_append]
      exact (EntriesRel.refl _).append (.cons (CloneRel.ite _ _) hrel)
    · rw [ht]
      exact ⟨[], nv, nr.entries, rfl, EntriesRel.refl _⟩
    · rw [ht]
      exact ⟨nl.entries, nv, [], by simp, by simpa using EntriesRel.refl _⟩
    · refine ⟨(node lk lv ll lr lc ld).entries, nv, nr.entries, rfl, ?_⟩
      obtain ⟨k', w', l, r, c, d, hpred', hrel⟩ := replace_entries lr lk (Value.clone lv) ll false ld
      rw [hpred] at hpred'
      cases hpred'
      refine EntriesRel.trans ?_ (rotate_entries _ _ _ _ _ _)
      have hdirty : EntriesRel (node lk lv ll lr lc ld).entries
          (node lk (Value.clone lv) ll lr false ld).entries := by
        rw [entries_node, entries_node]
        exact (EntriesRel.refl _).append (.cons (CloneRel.clone _) (EntriesRel.refl _))
      have hsplit : (node pk pv (replace lr (node lk (Value.clone lv) ll lr false ld)).1 nr false
          (max (replace lr (node lk (Value.clone lv) ll lr false ld)).1.depth nr.depth + 1)).entries =
          ((replace lr (node lk (Value.clone lv) ll lr false ld)).1.entries ++ [(pk, pv)]) ++
            nr.entries := by simp
      rw [hsplit]
      exact (hdirty.trans hrel).append (EntriesRel.refl _)

/-- **Deletion keeps an AVL tree AVL** and lowers it by at most one level. -/
theorem remove_avl {t t' : Node K V} (ha : t.IsAvl) (h : t.remove k = .ok t') :
    t'.IsAvl ∧ t'.depth ≤ t.depth ∧ t.depth ≤ t'.depth + 1 := by
  induction t generalizing t' with
  | nil => obtain ⟨_, _, _, _, _, _, he, -⟩ := remove_eq_ok h; cases he
  | node nk nv nl nr nc nd ihl ihr =>
    obtain ⟨al, ar, hd, hb1, hb2⟩ := ha
    obtain ⟨_, _, _, _, _, _, he, hcase⟩ := remove_eq_ok h
    cases he
    rcases hcase with ⟨-, l', hl, rfl⟩ | ⟨-, r', hr, rfl⟩ | ⟨rfl, rfl, ht⟩ | ⟨rfl, rfl, ht⟩ |
      ⟨rfl, lk, lv, ll, lr, lc, ld, rfl, -, pk, pv, pl', pr', pc', pd', -, rfl⟩
    · obtain ⟨al', hlo, hhi⟩ := ihl al hl
      obtain ⟨hav, hdlo, hdhi, hbal⟩ := rotate_depth_spec (k := nk) (c := false)
        (v := if nc then Value.clone nv else nv) (d := max l'.depth nr.depth + 1) al' ar
        (by omega) (by omega)
      refine ⟨hav, ?_, ?_⟩ <;> rw [depth_node]
      · omega
      · by_cases hb : nr.depth ≤ l'.depth + 1
        · rw [hbal (by omega) hb]; omega
        · omega
    · obtain ⟨ar', hlo, hhi⟩ := ihr ar hr
      obtain ⟨hav, hdlo, hdhi, hbal⟩ := rotate_depth_spec (k := nk) (c := false)
        (v := if nc then Value.clone nv else nv) (d := max nl.depth r'.depth + 1) al ar'
        (by omega) (by omega)
      refine ⟨hav, ?_, ?_⟩ <;> rw [depth_node]
      · omega
      · by_cases hb : nl.depth ≤ r'.depth + 1
        · rw [hbal hb (by omega)]; omega
        · omega
    · rw [ht]
      simp only [depth_nil, depth_node] at hd hb2 ⊢
      exact ⟨ar, by omega, by omega⟩
    · rw [ht]
      simp only [depth_nil, depth_node] at hd hb1 ⊢
      exact ⟨al, by omega, by omega⟩
    · obtain ⟨arep, hlo, hhi⟩ := replace_avl lr lk (Value.clone lv) ll false ld al
      simp only [depth_node] at hd hb1 hb2
      obtain ⟨hav, hdlo, hdhi, hbal⟩ := rotate_depth_spec (k := pk) (v := pv) (c := false)
        (d := max (replace lr (node lk (Value.clone lv) ll lr false ld)).1.depth nr.depth + 1)
        arep ar (by omega) (by omega)
      refine ⟨hav, ?_, ?_⟩ <;> rw [depth_node]
      · omega
      · by_cases hb : nr.depth ≤ (replace lr (node lk (Value.clone lv) ll lr false ld)).1.depth + 1
        · rw [hbal (by omega) hb]; omega
        · omega

end Remove

end BftCore.Avl.Node
