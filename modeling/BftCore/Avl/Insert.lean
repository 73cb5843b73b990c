import BftCore.Avl.Rotate

/-!
# `tree/avl`: insertion and update

For each of `insert` and `update`, an inversion lemma says what a successful call did at
the root, and the facts every later proof uses are read off it:

* `insert_error_iff`, `insert_entries`, `insert_avl`: on an ordered tree `insert` fails
  exactly when the key is present; otherwise the new entry lands between the smaller and the
  larger keys, and an AVL tree stays AVL and grows by at most one;
* `update_error_iff`, `update_entries`, `update_avl`: `update` replaces the value of a
  present key and keeps the shape.
-/

namespace BftCore.Avl.Node

variable {K V : Type} [LinearOrder K] [Value V]

/-! ### Insertion -/

section Insert

variable {k : K} {v : V}

/-- What a successful `insert` did at the root. -/
theorem insert_eq_ok {t t' : Node K V} (h : t.insert k v = .ok t') :
    (t = nil ∧ t' = newLeaf k v) ∨
    (∃ pk pv pl pr pc pd l', t = node pk pv pl pr pc pd ∧ k < pk ∧ pl.insert k v = .ok l' ∧
      t' = rotate (node pk (if pc then Value.clone pv else pv) l' pr false pd)) ∨
    (∃ pk pv pl pr pc pd r', t = node pk pv pl pr pc pd ∧ pk < k ∧ pr.insert k v = .ok r' ∧
      t' = rotate (node pk (if pc then Value.clone pv else pv) pl r' false pd)) := by
  cases t with
  | nil =>
    rw [Node.insert] at h
    exact Or.inl ⟨rfl, (Except.ok.inj h).symm⟩
  | node pk pv pl pr pc pd =>
    rcases compare_cases pk k with ⟨hc, hlt⟩ | ⟨hc, rfl⟩ | ⟨hc, hlt⟩ <;>
      rw [Node.insert, hc] at h
    · cases hr : pr.insert k v with
      | error e => simp [hr] at h
      | ok r' =>
        simp only [hr, bind, Except.bind, pure, Except.pure, Except.ok.injEq] at h
        exact Or.inr (Or.inr ⟨pk, pv, pl, pr, pc, pd, r', rfl, hlt, hr, by rw [← h, writable_node,
          setRight_node]⟩)
    · cases h
    · cases hl : pl.insert k v with
      | error e => simp [hl] at h
      | ok l' =>
        simp only [hl, bind, Except.bind, pure, Except.pure, Except.ok.injEq] at h
        exact Or.inr (Or.inl ⟨pk, pv, pl, pr, pc, pd, l', rfl, hlt, hl, by rw [← h, writable_node,
          setLeft_node]⟩)

/-- On an ordered tree, `insert` fails exactly when the key is present, and then with
`ErrAlreadyExists`. -/
theorem insert_error_iff {t : Node K V} (ho : t.Ordered) {e : AvlError K} :
    t.insert k v = .error e ↔ k ∈ t.keys ∧ e = .alreadyExists k := by
  induction t generalizing e with
  | nil => simp [Node.insert]
  | node pk pv pl pr pc pd ihl ihr =>
    obtain ⟨hol, hor, okl, okr⟩ := ho
    rw [keys_node, List.mem_append, List.mem_cons]
    rcases compare_cases pk k with ⟨hc, hlt⟩ | ⟨hc, rfl⟩ | ⟨hc, hlt⟩ <;> rw [Node.insert, hc]
    · have hnl : k ∉ pl.keys := fun hk => absurd (hol k hk) (not_lt.2 hlt.le)
      cases hr : pr.insert k v with
      | error e' =>
        obtain ⟨hk, rfl⟩ := (ihr okr).1 hr
        simp [hk, eq_comm]
      | ok r' =>
        have hk : k ∉ pr.keys := fun hk => by simpa [hr] using (ihr okr).2 ⟨hk, rfl⟩
        simp [hnl, hk, hlt.ne', bind, Except.bind, pure, Except.pure]
    · simp [eq_comm]
    · have hnr : k ∉ pr.keys := fun hk => absurd (hor k hk) (not_lt.2 hlt.le)
      cases hl : pl.insert k v with
      | error e' =>
        obtain ⟨hk, rfl⟩ := (ihl okl).1 hl
        simp [hk, eq_comm]
      | ok l' =>
        have hk : k ∉ pl.keys := fun hk => by simpa [hl] using (ihl okl).2 ⟨hk, rfl⟩
        simp [hnr, hk, hlt.ne, bind, Except.bind, pure, Except.pure]

/-- **Insertion puts the new entry in its place**: the entries of the result are those of
the tree with `(k, v)` between the smaller and the larger keys, values up to cloning. -/
theorem insert_entries {t t' : Node K V} (ho : t.Ordered) (h : t.insert k v = .ok t') :
    ∃ xs ys, t.entries = xs ++ ys ∧ (∀ x ∈ xs, x.1 < k) ∧ (∀ y ∈ ys, k < y.1) ∧
      EntriesRel (xs ++ (k, v) :: ys) t'.entries := by
  induction t generalizing t' with
  | nil =>
    rcases insert_eq_ok h with ⟨-, rfl⟩ | ⟨_, _, _, _, _, _, _, he, -⟩ | ⟨_, _, _, _, _, _, _, he, -⟩
    · exact ⟨[], [], rfl, by simp, by simp, EntriesRel.refl _⟩
    · cases he
    · cases he
  | node pk pv pl pr pc pd ihl ihr =>
    obtain ⟨hol, hor, okl, okr⟩ := ho
    rcases insert_eq_ok h with ⟨he, -⟩ | ⟨_, _, _, _, _, _, l', he, hlt, hl, rfl⟩ |
      ⟨_, _, _, _, _, _, r', he, hlt, hr, rfl⟩
    · cases he
    · cases he
      obtain ⟨xs, ys, hxy, hxs, hys, hrel⟩ := ihl okl hl
      refine ⟨xs, ys ++ (pk, pv) :: pr.entries, by simp [hxy], hxs, ?_, ?_⟩
      · intro y hy
        simp only [List.mem_append, List.mem_cons] at hy
        rcases hy with hy | rfl | hy
        · exact hys y hy
        · exact hlt
        · exact hlt.trans (hor y.1 (List.mem_map_of_mem hy))
      · refine EntriesRel.trans ?_ (rotate_entries _ _ _ _ _ _)
        rw [entries_node, ← List.cons_append, ← List.append_assoc]
        exact hrel.append (.cons (CloneRel.ite _ _) (EntriesRel.refl _))
    · cases he
      obtain ⟨xs, ys, hxy, hxs, hys, hrel⟩ := ihr okr hr
      refine ⟨pl.entries ++ (pk, pv) :: xs, ys, by simp [hxy], ?_, hys, ?_⟩
      · intro x hx
        simp only [List.mem_append, List.mem_cons] at hx
        rcases hx with hx | rfl | hx
        · exact (hol x.1 (List.mem_map_of_mem hx)).trans hlt
        · exact hlt
        · exact hxs x hx
      · refine EntriesRel.trans ?_ (rotate_entries _ _ _ _ _ _)
        rw [entries_node, List.append_assoc, List.cons_append]
        exact (EntriesRel.refl _).append (.cons (CloneRel.ite _ _) hrel)

/-- **Insertion keeps an AVL tree AVL** and grows it by at most one level. -/
theorem insert_avl {t t' : Node K V} (ha : t.IsAvl) (h : t.insert k v = .ok t') :
    t'.IsAvl ∧ t.depth ≤ t'.depth ∧ t'.depth ≤ t.depth + 1 := by
  induction t generalizing t' with
  | nil =>
    rcases insert_eq_ok h with ⟨-, rfl⟩ | ⟨_, _, _, _, _, _, _, he, -⟩ | ⟨_, _, _, _, _, _, _, he, -⟩
    · exact ⟨⟨trivial, trivial, rfl, by simp, by simp⟩, by simp [newLeaf], by simp [newLeaf]⟩
    · cases he
    · cases he
  | node pk pv pl pr pc pd ihl ihr =>
    obtain ⟨al, ar, hd, hb1, hb2⟩ := ha
    rcases insert_eq_ok h with ⟨he, -⟩ | ⟨_, _, _, _, _, _, l', he, -, hl, rfl⟩ |
      ⟨_, _, _, _, _, _, r', he, -, hr, rfl⟩
    · cases he
    · cases he
      obtain ⟨al', hlo, hhi⟩ := ihl al hl
      obtain ⟨hav, hdlo, hdhi, hbal⟩ :=
        rotate_depth_spec (k := pk) (c := false) (d := pd)
          (v := if pc then Value.clone pv else pv) al' ar (by omega) (by omega)
      refine ⟨hav, ?_, ?_⟩ <;> rw [depth_node]
      · by_cases hb : l'.depth ≤ pr.depth + 1
        · rw [hbal hb (by omega)]; omega
        · omega
      · omega
    · cases he
      obtain ⟨ar', hlo, hhi⟩ := ihr ar hr
      obtain ⟨hav, hdlo, hdhi, hbal⟩ :=
        rotate_depth_spec (k := pk) (c := false) (d := pd)
          (v := if pc then Value.clone pv else pv) al ar' (by omega) (by omega)
      refine ⟨hav, ?_, ?_⟩ <;> rw [depth_node]
      · by_cases hb : r'.depth ≤ pl.depth + 1
        · rw [hbal (by omega) hb]; omega
        · omega
      · omega

end Insert

/-! ### Update -/

section Update

variable {k : K} {v : V}

/-- What a successful `update` did at the root. -/
theorem update_eq_ok {t t' : Node K V} (h : t.update k v = .ok t') :
    ∃ nk nv nl nr nc nd, t = node nk nv nl nr nc nd ∧
      ((k < nk ∧ ∃ l', nl.update k v = .ok l' ∧
          t' = node nk (if nc then Value.clone nv else nv) l' nr false nd) ∨
        (nk < k ∧ ∃ r', nr.update k v = .ok r' ∧
          t' = node nk (if nc then Value.clone nv else nv) nl r' false nd) ∨
        (nk = k ∧ t' = node nk v nl nr false nd)) := by
  cases t with
  | nil => rw [Node.update] at h; cases h
  | node nk nv nl nr nc nd =>
    refine ⟨nk, nv, nl, nr, nc, nd, rfl, ?_⟩
    rcases compare_cases nk k with ⟨hc, hlt⟩ | ⟨hc, rfl⟩ | ⟨hc, hlt⟩ <;>
      rw [Node.update, hc] at h
    · cases hr : nr.update k v with
      | error e => simp [hr] at h
      | ok r' =>
        simp only [hr, bind, Except.bind, pure, Except.pure, Except.ok.injEq] at h
        exact Or.inr (Or.inl ⟨hlt, r', rfl, by rw [← h, writable_node, setRight_node]⟩)
    · simp only [Except.ok.injEq] at h
      exact Or.inr (Or.inr ⟨rfl, by rw [← h, writable_node, setValue_node]⟩)
    · cases hl : nl.update k v with
      | error e => simp [hl] at h
      | ok l' =>
        simp only [hl, bind, Except.bind, pure, Except.pure, Except.ok.injEq] at h
        exact Or.inl ⟨hlt, l', rfl, by rw [← h, writable_node, setLeft_node]⟩

/-- On an ordered tree, `update` fails exactly when the key is absent, with `ErrNotFound`. -/
theorem update_error_iff {t : Node K V} (ho : t.Ordered) {e : AvlError K} :
    t.update k v = .error e ↔ k ∉ t.keys ∧ e = .notFound k := by
  induction t generalizing e with
  | nil => simp [Node.update, eq_comm]
  | node nk nv nl nr nc nd ihl ihr =>
    obtain ⟨hol, hor, okl, okr⟩ := ho
    rw [keys_node, List.mem_append, List.mem_cons]
    rcases compare_cases nk k with ⟨hc, hlt⟩ | ⟨hc, rfl⟩ | ⟨hc, hlt⟩ <;> rw [Node.update, hc]
    · have hnl : k ∉ nl.keys := fun hk => absurd (hol k hk) (not_lt.2 hlt.le)
      cases hr : nr.update k v with
      | error e' =>
        obtain ⟨hk, rfl⟩ := (ihr okr).1 hr
        simp [hk, hnl, hlt.ne', eq_comm]
      | ok r' =>
        have hk : k ∈ nr.keys := by
          by_contra hk
          simpa [hr] using (ihr okr).2 ⟨hk, rfl⟩
        simp [hk, bind, Except.bind, pure, Except.pure]
    · simp
    · have hnr : k ∉ nr.keys := fun hk => absurd (hor k hk) (not_lt.2 hlt.le)
      cases hl : nl.update k v with
      | error e' =>
        obtain ⟨hk, rfl⟩ := (ihl okl).1 hl
        simp [hk, hnr, hlt.ne, eq_comm]
      | ok l' =>
        have hk : k ∈ nl.keys := by
          by_contra hk
          simpa [hl] using (ihl okl).2 ⟨hk, rfl⟩
        simp [hk, bind, Except.bind, pure, Except.pure]

/-- `update` replaces the value stored under `k`, keeping the other entries up to cloning. -/
theorem update_entries {t t' : Node K V} (h : t.update k v = .ok t') :
    ∃ xs w ys, t.entries = xs ++ (k, w) :: ys ∧ EntriesRel (xs ++ (k, v) :: ys) t'.entries := by
  induction t generalizing t' with
  | nil => obtain ⟨_, _, _, _, _, _, he, -⟩ := update_eq_ok h; cases he
  | node nk nv nl nr nc nd ihl ihr =>
    obtain ⟨_, _, _, _, _, _, he, ⟨-, l', hl, rfl⟩ | ⟨-, r', hr, rfl⟩ | ⟨rfl, rfl⟩⟩ :=
      update_eq_ok h <;> cases he
    · obtain ⟨xs, w, ys, hxy, hrel⟩ := ihl hl
      refine ⟨xs, w, ys ++ (nk, nv) :: nr.entries, by simp [hxy], ?_⟩
      rw [entries_node, ← List.cons_append, ← List.append_assoc]
      exact hrel.append (.cons (CloneRel.ite _ _) (EntriesRel.refl _))
    · obtain ⟨xs, w, ys, hxy, hrel⟩ := ihr hr
      refine ⟨nl.entries ++ (nk, nv) :: xs, w, ys, by simp [hxy], ?_⟩
      rw [entries_node, List.append_assoc, List.cons_append]
      exact (EntriesRel.refl _).append (.cons (CloneRel.ite _ _) hrel)
    · exact ⟨nl.entries, nv, nr.entries, rfl, EntriesRel.refl _⟩

/-- `update` keeps the shape: the depths, hence an AVL tree stays AVL. -/
theorem update_avl {t t' : Node K V} (ha : t.IsAvl) (h : t.update k v = .ok t') :
    t'.IsAvl ∧ t'.depth = t.depth := by
  induction t generalizing t' with
  | nil => obtain ⟨_, _, _, _, _, _, he, -⟩ := update_eq_ok h; cases he
  | node nk nv nl nr nc nd ihl ihr =>
    obtain ⟨al, ar, hd, hb1, hb2⟩ := ha
    obtain ⟨_, _, _, _, _, _, he, ⟨-, l', hl, rfl⟩ | ⟨-, r', hr, rfl⟩ | ⟨rfl, rfl⟩⟩ :=
      update_eq_ok h <;> cases he
    · obtain ⟨al', hdl⟩ := ihl al hl
      exact ⟨⟨al', ar, by rw [hdl]; exact hd, by omega, by omega⟩, rfl⟩
    · obtain ⟨ar', hdr⟩ := ihr ar hr
      exact ⟨⟨al, ar', by rw [hdr]; exact hd, by omega, by omega⟩, rfl⟩
    · exact ⟨⟨al, ar, hd, hb1, hb2⟩, rfl⟩

end Update

end BftCore.Avl.Node
