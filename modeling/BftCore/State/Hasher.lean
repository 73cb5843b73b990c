import BftCore.State.Hash

/-!
# `state`: the state hasher on the store

`stateHasher.Traverse` writes the units of the records it visits in place, and the records it
visits may be shared: a clean record whose summary is not calculated yet (a savepoint marks
records clean without hashing them) is also a record of the savepoints below.

* `subTreeSummary`, `hashTraverse`, `Tree.hashCommit`: `getSubTreeSummary`,
  `stateHasher.Traverse` and `Tree.Commit()` of a tree whose traverser is the state hasher;
* `HashFrame t s s'`: what hashing the tree `t` leaves: no record allocated, and every record
  either kept or the root of a subtree of `t` that the traverser entered, which now denotes
  the hash of that subtree;
* `hashTraverse_spec`: on an ordered tree the traverser ends, the pointer denotes `t.hash`,
  and the store is so framed.  Distinct keys are distinct records, which is why the writes in
  one subtree do not reach the other;
* `HashFrame.owns_clean`: a tree that owns no record (a savepoint below the latest one, the
  committed tree) keeps its keys with their logs, and the invariant of the skip rule.
-/

namespace BftCore.State

open BftCore.Avl BftCore.Avl.Heap EStateM

variable {A K D : Type} [UnitData D] (H : A → List (HashItem K D) → Bytes) (alg : A)
  (logsRoot : A → List (Log D) → Option Bytes)

/-- `getSubTreeSummary(n)`: the cached summary value and hash of a record, `(0, nil)` for
nil. -/
def subTreeSummary : Option Nat → StoreM K (UnitV1 D) (UInt64 × Option Bytes)
  | none => pure (0, none)
  | some a => do
    let (_, c) ← deref (some a)
    pure (c.value.subTreeSummaryValue, c.value.subTreeSummaryHash)

/-- `stateHasher.Traverse(n)`.  The unit is written in place, after the two children: its
logs hash if missing, the data of its latest log, and the summaries; then the record is
marked clean.  `getSubTreeSummary` and `getSummaryValueInput` cannot fail on a `UnitV1`, nor
can the hash functions here, so the error returns are left out. -/
def hashTraverse : Nat → Option Nat → StoreM K (UnitV1 D) Unit
  | 0, _ => throw .exhausted
  | _ + 1, none => pure ()
  | fuel + 1, some n => do
    let (_, c) ← deref (some n)
    if c.clean && c.value.summaryCalculated then pure () else do
      hashTraverse fuel c.left
      hashTraverse fuel c.right
      let ls ← subTreeSummary c.left
      let rs ← subTreeSummary c.right
      modifyCell n fun c' => { c' with value := c.value.hashed H alg logsRoot c.key ls rs }
      setClean n

/-- `Commit()` of a state tree: its traverser is the state hasher. -/
def Tree.hashCommit (t : Heap.Tree) : StoreM K (UnitV1 D) Unit := do
  hashTraverse H alg logsRoot (← fuel) t.root

/-- What hashing the tree `t` does to the store: no record is allocated, and each record
keeps its cell or is the root of a subtree of `t` that the traverser did not skip, and then
denotes the hash of that subtree. -/
structure HashFrame (t : Node K (UnitV1 D)) (s s' : Store K (UnitV1 D)) : Prop where
  next_eq : s'.next = s.next
  none_eq : ∀ a, s.cells a = none → s'.cells a = none
  cell : ∀ a c, s.cells a = some c → s'.cells a = some c ∨
    ((c.clean && c.value.summaryCalculated) = false ∧
      ∃ ta, ta.Subtree t ∧ Repr s (some a) ta ∧ Repr s' (some a) (ta.hash H alg logsRoot))

theorem keys_hash (t : Node K (UnitV1 D)) : (t.hash H alg logsRoot).keys = t.keys := by
  induction t with
  | nil => rfl
  | node k u l r c d ihl ihr =>
    unfold Node.hash
    split_ifs <;> simp [ihl, ihr]

namespace HashFrame

variable {H alg logsRoot} {t : Node K (UnitV1 D)} {s s' : Store K (UnitV1 D)}

theorem refl (t : Node K (UnitV1 D)) (s : Store K (UnitV1 D)) : HashFrame H alg logsRoot t s s :=
  ⟨rfl, fun _ h => h, fun _ _ h => Or.inl h⟩

/-- A record holding a key outside the tree keeps its cell. -/
theorem cell_of_not_mem (h : HashFrame H alg logsRoot t s s') {a : Nat} {c : Cell K (UnitV1 D)}
    (hc : s.cells a = some c) (hk : c.key ∉ t.keys) : s'.cells a = some c := by
  rcases h.cell a c hc with h' | ⟨-, ta, hsub, hta, -⟩
  · exact h'
  · exact absurd (hsub.keys_subset _ (hta.key_mem hc)) hk

/-- A tree with keys apart from those of `t` keeps its records. -/
theorem repr_of_disjoint (h : HashFrame H alg logsRoot t s s') {p : Option Nat}
    {t₂ : Node K (UnitV1 D)} (h₂ : Repr s p t₂) (hd : ∀ x ∈ t₂.keys, x ∉ t.keys) :
    Repr s' p t₂ :=
  h₂.congr_keys fun _ _ hb hk => h.cell_of_not_mem hb (hd _ hk)

/-- The same read backwards: a tree of the new store with keys apart from those of `t` is
one of the old store. -/
theorem repr_back (h : HashFrame H alg logsRoot t s s') {p : Option Nat} {t₂ : Node K (UnitV1 D)}
    (h₂ : Repr s' p t₂) (hd : ∀ x ∈ t₂.keys, x ∉ t.keys) : Repr s p t₂ := by
  induction h₂ with
  | nil => exact .nil
  | @node a c' l r hc' _ _ ihl ihr =>
    have hk : c'.key ∉ t.keys := hd _ (by simp)
    -- the record was allocated, and a rewritten one would hold a key of `t`
    obtain ⟨c, hc⟩ : ∃ c, s.cells a = some c := by
      cases hs : s.cells a with
      | none => rw [h.none_eq a hs] at hc'; cases hc'
      | some c => exact ⟨c, rfl⟩
    have hcc : c = c' := by
      rcases h.cell a c hc with h' | ⟨-, ta, hsub, -, hta'⟩
      · rw [h'] at hc'
        exact Option.some.inj hc'
      · exact absurd (hsub.keys_subset _ (by simpa [keys_hash] using hta'.key_mem hc')) hk
    subst hcc
    exact .node hc (ihl fun x hx => hd x (by simp [hx])) (ihr fun x hx => hd x (by simp [hx]))

end HashFrame

omit [UnitData D] in
theorem subTreeSummary_spec {s : Store K (UnitV1 D)} {p : Option Nat} {t : Node K (UnitV1 D)}
    (h : Repr s p t) : subTreeSummary p s = .ok t.cached s := by
  cases h with
  | nil => rfl
  | node hc =>
    simp only [subTreeSummary]
    rw [bind_of_ok (deref_of hc)]
    rfl

omit [UnitData D] in
theorem setClean_of {s : Store K (UnitV1 D)} {a : Nat} {c : Cell K (UnitV1 D)}
    (hc : s.cells a = some c) : setClean a s = .ok () (s.set a { c with clean := true }) := by
  unfold setClean
  rw [bind_of_ok (deref_of hc)]
  dsimp only
  cases hcl : c.clean with
  | false =>
    simp only [Bool.false_eq_true, if_false]
    exact modifyCell_of hc _
  | true =>
    -- the record is clean already: writing it again changes nothing
    have hc' : { c with clean := true } = c := by
      cases c
      simp only at hcl
      rw [hcl]
    rw [hc', Store.set_eq_self hc]
    rfl

variable [LinearOrder K]

/-- **The state hasher on the store.**  On an ordered tree, `stateHasher.Traverse` ends; the
pointer then denotes the hash of the tree, and the records written are the roots of the
subtrees the traverser entered. -/
theorem hashTraverse_spec {t : Node K (UnitV1 D)} (ho : t.Ordered) :
    ∀ {fuel : Nat} {s : Store K (UnitV1 D)} {p : Option Nat}, Repr s p t → t.height < fuel →
      ∃ s', hashTraverse H alg logsRoot fuel p s = .ok () s' ∧
        Repr s' p (t.hash H alg logsRoot) ∧ HashFrame H alg logsRoot t s s' := by
  induction t with
  | nil =>
    intro fuel s p h hf
    cases h
    obtain ⟨f, rfl⟩ : ∃ f, fuel = f + 1 := ⟨fuel - 1, by simp at hf; omega⟩
    exact ⟨s, rfl, .nil, HashFrame.refl _ _⟩
  | node k u l r cl d ihl ihr =>
    intro fuel s p h hf
    obtain ⟨f, rfl⟩ : ∃ f, fuel = f + 1 := ⟨fuel - 1, by simp at hf; omega⟩
    simp only [Node.height_node] at hf
    obtain ⟨hlk, hrk, hol, hor⟩ := ho
    have h₀ := h
    cases h with
    | @node a c _ _ hc hl hr =>
    by_cases hs : (c.clean && c.value.summaryCalculated) = true
    · -- a clean record with a calculated summary: the traverser returns at once
      refine ⟨s, ?_, ?_, HashFrame.refl _ _⟩
      · simp only [hashTraverse]
        rw [bind_of_ok (deref_of hc)]
        dsimp only
        rw [if_pos hs]
        rfl
      · rw [Node.hash, if_pos hs]
        exact h₀
    · -- the two subtrees first: their keys, hence their records, are apart
      have hkl : c.key ∉ l.keys := fun hx => lt_irrefl _ (hlk _ hx)
      have hkr : c.key ∉ r.keys := fun hx => lt_irrefl _ (hrk _ hx)
      have hlr : ∀ x ∈ r.keys, x ∉ l.keys := fun x hx hx' => lt_asymm (hlk x hx') (hrk x hx)
      obtain ⟨s₁, hrun₁, hl₁, hF₁⟩ := @ihl hol f s c.left hl (by omega)
      obtain ⟨s₂, hrun₂, hr₂, hF₂⟩ := @ihr hor f s₁ c.right (hF₁.repr_of_disjoint hr hlr) (by omega)
      have hl₂ : Repr s₂ c.left (l.hash H alg logsRoot) :=
        hF₂.repr_of_disjoint hl₁ fun x hx hx' => hlr x hx' (by rwa [keys_hash] at hx)
      have hc₂ : s₂.cells a = some c := hF₂.cell_of_not_mem (hF₁.cell_of_not_mem hc hkl) hkr
      -- then the record itself, written and marked clean
      let v' := c.value.hashed H alg logsRoot c.key (l.hash H alg logsRoot).cached
        (r.hash H alg logsRoot).cached
      let c' : Cell K (UnitV1 D) := { c with value := v' }
      have hsome : (s₂.cells a).isSome := by simp [hc₂]
      have hc₃ : (s₂.set a c').cells a = some c' := Store.set_cells_self hsome c'
      let s₄ := (s₂.set a c').set a { c' with clean := true }
      have hc₄ : s₄.cells a = some { c' with clean := true } :=
        Store.set_cells_self (by simp [hc₃]) _
      have hkl' : c'.key ∉ (l.hash H alg logsRoot).keys := by rwa [keys_hash]
      have hkr' : c'.key ∉ (r.hash H alg logsRoot).keys := by rwa [keys_hash]
      have hl₄ : Repr s₄ c.left (l.hash H alg logsRoot) :=
        ((hl₂.set_of_not_mem hc₂ hkl' c').set_of_not_mem hc₃ hkl' _)
      have hr₄ : Repr s₄ c.right (r.hash H alg logsRoot) :=
        ((hr₂.set_of_not_mem hc₂ hkr' c').set_of_not_mem hc₃ hkr' _)
      have hrepr : Repr s₄ (some a) ((Node.node c.key c.value l r c.clean c.depth).hash H alg logsRoot) := by
        rw [Node.hash, if_neg hs]
        exact .node hc₄ hl₄ hr₄
      refine ⟨s₄, ?_, hrepr, ⟨?_, ?_, ?_⟩⟩
      · simp only [hashTraverse]
        rw [bind_of_ok (deref_of hc)]
        dsimp only
        rw [if_neg hs, bind_of_ok hrun₁, bind_of_ok hrun₂, bind_of_ok (subTreeSummary_spec hl₂),
          bind_of_ok (subTreeSummary_spec hr₂), bind_of_ok (modifyCell_of hc₂ _)]
        exact setClean_of hc₃
      · simp only [s₄, Store.set_next, hF₂.next_eq, hF₁.next_eq]
      · intro b hb
        have hb₂ := hF₂.none_eq b (hF₁.none_eq b hb)
        have hne : b ≠ a := by
          rintro rfl
          rw [hc] at hb
          cases hb
        simp only [s₄, Store.set_cells_of_ne _ _ hne, hb₂]
      · intro b cb hb
        by_cases hba : b = a
        · -- the record of the root was rewritten
          subst hba
          rw [hc] at hb
          cases hb
          exact Or.inr ⟨Bool.not_eq_true _ ▸ hs, _, .refl _, h₀, hrepr⟩
        · have hs₄ : s₄.cells b = s₂.cells b := by
            simp only [s₄, Store.set_cells_of_ne _ _ hba]
          rcases hF₁.cell b cb hb with hb₁ | ⟨hcl, ta, hsub, hta, hta₁⟩
          · rcases hF₂.cell b cb hb₁ with hb₂ | ⟨hcl, ta, hsub, hta, hta₂⟩
            · exact Or.inl (hs₄ ▸ hb₂)
            · -- rewritten in the right subtree
              have hd : ∀ x ∈ ta.keys, x ∉ l.keys := fun x hx => hlr x (hsub.keys_subset x hx)
              have hdk : c.key ∉ (ta.hash H alg logsRoot).keys := by
                rw [keys_hash]
                exact fun hx => hkr (hsub.keys_subset _ hx)
              refine Or.inr ⟨hcl, ta, .right _ _ _ _ _ hsub, hF₁.repr_back hta hd, ?_⟩
              exact (hta₂.set_of_not_mem hc₂ hdk c').set_of_not_mem hc₃ hdk _
          · -- rewritten in the left subtree
            have hd : ∀ x ∈ (ta.hash H alg logsRoot).keys, x ∉ r.keys := by
              rw [keys_hash]
              exact fun x hx hx' => hlr x hx' (hsub.keys_subset x hx)
            have hdk : c.key ∉ (ta.hash H alg logsRoot).keys := by
              rw [keys_hash]
              exact fun hx => hkl (hsub.keys_subset _ hx)
            refine Or.inr ⟨hcl, ta, .left _ _ _ _ _ hsub, hta, ?_⟩
            exact ((hF₂.repr_of_disjoint hta₁ hd).set_of_not_mem hc₂ hdk c').set_of_not_mem hc₃ hdk _

/-- **A tree owning no record keeps the invariant of the skip rule** when another tree is
hashed: its records are either kept, or roots of subtrees that the hash recomputed, and a
calculated subtree is kept whole. -/
theorem HashFrame.owns_clean {t : Node K (UnitV1 D)} {s s' : Store K (UnitV1 D)}
    (hF : HashFrame H alg logsRoot t s s') (ht : t.HashInv H alg logsRoot) {p : Option Nat}
    {t₂ : Node K (UnitV1 D)} (h₂ : Owns s p t₂ []) (hi : t₂.HashInv H alg logsRoot) :
    ∃ t₂', Owns s' p t₂' [] ∧ t₂'.ledger = t₂.ledger ∧ t₂'.HashInv H alg logsRoot ∧
      (t₂.fullHash H alg logsRoot = t₂ → t₂' = t₂) := by
  generalize hD : ([] : List Nat) = D at h₂
  induction h₂ with
  | nil => exact ⟨.nil, .nil, rfl, trivial, fun _ => rfl⟩
  | dirty => exact absurd hD (List.cons_ne_nil _ _).symm
  | @clean a c l r hc hcl hl hr ihl ihr =>
    obtain ⟨hok, hil, hir⟩ := hi
    obtain ⟨l', hl', hkl, hil', hfl⟩ := ihl hil hD
    obtain ⟨r', hr', hkr, hir', hfr⟩ := ihr hir hD
    rcases hF.cell a c hc with hc' | ⟨-, ta, hsub, hta, hta'⟩
    · -- the record is kept; below a calculated record nothing was written
      have hfix : (Node.node c.key c.value l r true c.depth).fullHash H alg logsRoot =
          .node c.key c.value l r true c.depth → l' = l ∧ r' = r := by
        intro hf
        have hf' := hf
        simp only [Node.fullHash_node, Node.node.injEq] at hf'
        exact ⟨hfl hf'.2.2.1, hfr hf'.2.2.2.1⟩
      refine ⟨.node c.key c.value l' r' true c.depth, ?_, by simp [hkl, hkr], ⟨⟨fun hcalc => ?_,
        hok.2⟩, hil', hir'⟩, fun hf => by rw [(hfix hf).1, (hfix hf).2]⟩
      · exact Owns.clean hc' hcl hl' hr'
      · obtain ⟨rfl, rfl⟩ := hfix (hok.1 hcalc)
        exact hok.1 hcalc
    · -- the record was rewritten: it denotes the recomputation of its subtree
      have hta₀ : ta = .node c.key c.value l r true c.depth := by
        exact hta.unique (Owns.clean hc hcl hl hr).repr
      have hhash : ta.hash H alg logsRoot = ta.fullHash H alg logsRoot :=
        Node.hash_eq_fullHash H alg logsRoot (ht.subtree hsub)
      rw [hhash] at hta'
      refine ⟨ta.fullHash H alg logsRoot, Owns.of_allClean hta' (Node.allClean_fullHash _ _ _ _),
        by rw [Node.ledger_fullHash, hta₀], Node.hashInv_fullHash _ _ _ _, fun hf => ?_⟩
      rw [hta₀, hf]

end BftCore.State
