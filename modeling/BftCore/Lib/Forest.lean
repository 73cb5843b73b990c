import Mathlib

/-!
# Forests of nodes with child lists

A store gives every node a list of children, and `Reach ch p q` says that `q` is `p` or lies
below it.  `IsForest ch S rank` says that the nodes of a finite set `S` form a forest: the
children of a node of `S` are in `S`, a child has one parent in `S` and is listed there once, and
the rank grows strictly from a node to each of its children.  In a forest

* reaching is antisymmetric (`Reach.antisymm`), a path into a child passes through its parent
  (`Reach.of_child`), and the nodes above a node form a chain (`Reach.total`);
* the part of the subtree of `p` that satisfies a predicate `P` (`subtree`) has more nodes than
  the parts below distinct children of `p` together (`sum_card_subtree_lt`): the measure that a
  depth-first walk, replacing a node by its children, brings down by one at each step.
-/

namespace Forest

variable {α : Type} (ch : α → List α)

/-- `q` is `p` or lies below it, following the child lists. -/
def Reach : α → α → Prop := Relation.ReflTransGen fun p c => c ∈ ch p

/-- The nodes of `S` form a forest ordered by `rank`. -/
structure IsForest (S : Finset α) (rank : α → ℕ) : Prop where
  child_mem : ∀ p ∈ S, ∀ c ∈ ch p, c ∈ S
  parent_unique : ∀ p ∈ S, ∀ q ∈ S, ∀ c ∈ ch p, c ∈ ch q → p = q
  nodup : ∀ p ∈ S, (ch p).Nodup
  rank_lt : ∀ p ∈ S, ∀ c ∈ ch p, rank p < rank c

variable {ch}

namespace Reach

variable {p q a b c : α}

theorem rfl' : Reach ch p p := Relation.ReflTransGen.refl

theorem single (h : c ∈ ch p) : Reach ch p c := Relation.ReflTransGen.single h

theorem tail (h : Reach ch p a) (hc : c ∈ ch a) : Reach ch p c := Relation.ReflTransGen.tail h hc

theorem head (hc : c ∈ ch p) (h : Reach ch c q) : Reach ch p q := Relation.ReflTransGen.head hc h

theorem trans (h : Reach ch p a) (h' : Reach ch a q) : Reach ch p q :=
  Relation.ReflTransGen.trans h h'

/-- The last step into `q` comes from a parent of `q`. -/
theorem exists_parent (h : Reach ch p q) (hne : p ≠ q) : ∃ a, Reach ch p a ∧ q ∈ ch a := by
  rcases Relation.ReflTransGen.cases_tail h with rfl | hlast
  · exact absurd rfl hne
  · exact hlast

/-- The first step from `p` goes into a child of `p`. -/
theorem exists_child (h : Reach ch p q) (hne : p ≠ q) : ∃ c ∈ ch p, Reach ch c q := by
  rcases Relation.ReflTransGen.cases_head h with rfl | ⟨c, hc, hrest⟩
  · exact absurd rfl hne
  · exact ⟨c, hc, hrest⟩

section Forest

variable {S : Finset α} {rank : α → ℕ} (hF : IsForest ch S rank)
include hF

theorem mem (h : Reach ch p q) (hp : p ∈ S) : q ∈ S := by
  induction h with
  | refl => exact hp
  | tail _ hc ih => exact hF.child_mem _ ih _ hc

theorem rank_le (h : Reach ch p q) (hp : p ∈ S) : rank p ≤ rank q := by
  induction h with
  | refl => exact le_rfl
  | tail ha hc ih => exact ih.trans (hF.rank_lt _ (mem hF ha hp) _ hc).le

theorem rank_lt (h : Reach ch p q) (hp : p ∈ S) (hne : p ≠ q) : rank p < rank q := by
  obtain ⟨a, ha, hq⟩ := exists_parent h hne
  exact (rank_le hF ha hp).trans_lt (hF.rank_lt _ (mem hF ha hp) _ hq)

theorem antisymm (h : Reach ch p q) (h' : Reach ch q p) (hp : p ∈ S) : p = q := by
  by_contra hne
  exact absurd (rank_le hF h' (mem hF h hp)) (not_le.mpr (rank_lt hF h hp hne))

/-- A path from `a` into a child of `p` other than `a` itself passes through `p`. -/
theorem of_child (h : Reach ch a c) (hc : c ∈ ch p) (ha : a ∈ S) (hp : p ∈ S) (hne : a ≠ c) :
    Reach ch a p := by
  obtain ⟨a', ha', hca'⟩ := exists_parent h hne
  rwa [hF.parent_unique _ hp _ (mem hF ha' ha) _ hc hca']

/-- The nodes above `q` form a chain. -/
theorem total (ha : Reach ch a q) (hb : Reach ch b q) (haS : a ∈ S) (hbS : b ∈ S) :
    Reach ch a b ∨ Reach ch b a := by
  induction ha generalizing b with
  | refl => exact .inr hb
  | @tail q' q ha' hq ih =>
    by_cases hbq : b = q
    · subst hbq
      exact .inl (ha'.tail hq)
    · -- `b` reaches `q` through its parent, which is `q'`
      have hb' : Reach ch b q' := of_child hF hb hq hbS (mem hF ha' haS) hbq
      exact ih hb' hbS

/-- Two distinct children of `p` do not reach a common node. -/
theorem sibling_disjoint (hc₁ : c ∈ ch p) (hc₂ : b ∈ ch p) (hne : c ≠ b) (hp : p ∈ S)
    (h₁ : Reach ch c q) (h₂ : Reach ch b q) : False := by
  have hcS := hF.child_mem _ hp _ hc₁
  have hbS := hF.child_mem _ hp _ hc₂
  -- one of the two lies below the other, hence below its parent `p`, which is above both
  have below_parent : ∀ {x y : α}, x ∈ ch p → y ∈ ch p → x ≠ y → x ∈ S → Reach ch x y → False :=
    fun {x y} hx hy hxy hxS hr =>
      absurd (rank_le hF (of_child hF hr hy hxS hp hxy) hxS) (not_le.mpr (hF.rank_lt _ hp _ hx))
  rcases total hF h₁ h₂ hcS hbS with hcb | hbc
  · exact below_parent hc₁ hc₂ hne hcS hcb
  · exact below_parent hc₂ hc₁ (Ne.symm hne) hbS hbc

end Forest

end Reach

variable (ch) in
open Classical in
/-- The nodes of `S` at or below `p` that satisfy `P`. -/
noncomputable def subtree (S : Finset α) (P : α → Prop) (p : α) : Finset α :=
  S.filter fun q => Reach ch p q ∧ P q

theorem mem_subtree {S : Finset α} {P : α → Prop} {p q : α} :
    q ∈ subtree ch S P p ↔ q ∈ S ∧ Reach ch p q ∧ P q := by
  classical
  simp only [subtree, Finset.mem_filter]

variable {S : Finset α} {rank : α → ℕ} {P : α → Prop} {p : α}

theorem card_subtree_le : (subtree ch S P p).card ≤ S.card := by
  classical
  exact Finset.card_filter_le _ _

/-- Distinct children of `p` have disjoint parts of their subtrees, all inside the part of
`p`'s subtree without `p`. -/
theorem sum_card_subtree_lt (hF : IsForest ch S rank) (hp : p ∈ S) (hP : P p) {l : List α}
    (hl : l.Nodup) (hsub : ∀ c ∈ l, c ∈ ch p) :
    (l.map fun c => (subtree ch S P c).card).sum < (subtree ch S P p).card := by
  classical
  have hdisj : (l.toFinset : Set α).PairwiseDisjoint (subtree ch S P) := by
    intro c hc b hb hne
    refine Finset.disjoint_left.mpr fun q hqc hqb => ?_
    rw [mem_subtree] at hqc hqb
    exact Reach.sibling_disjoint hF (hsub c (List.mem_toFinset.mp hc))
      (hsub b (List.mem_toFinset.mp hb)) hne hp hqc.2.1 hqb.2.1
  have hunion : l.toFinset.biUnion (subtree ch S P) ⊆ (subtree ch S P p).erase p := by
    intro q hq
    obtain ⟨c, hc, hqc⟩ := Finset.mem_biUnion.mp hq
    have hcp := hsub c (List.mem_toFinset.mp hc)
    rw [mem_subtree] at hqc
    refine Finset.mem_erase.mpr
      ⟨fun hqp => ?_, mem_subtree.mpr ⟨hqc.1, Reach.head hcp hqc.2.1, hqc.2.2⟩⟩
    -- `p` below its own child would have a rank above its own
    subst hqp
    have hcS := hF.child_mem _ hp _ hcp
    exact absurd (Reach.rank_le hF hqc.2.1 hcS) (not_le.mpr (hF.rank_lt _ hp _ hcp))
  have hpmem : p ∈ subtree ch S P p := mem_subtree.mpr ⟨hp, Reach.rfl', hP⟩
  calc (l.map fun c => (subtree ch S P c).card).sum
      = (l.toFinset.biUnion (subtree ch S P)).card := by
        rw [Finset.card_biUnion hdisj, List.sum_toFinset _ hl]
    _ ≤ ((subtree ch S P p).erase p).card := Finset.card_le_card hunion
    _ < (subtree ch S P p).card := Finset.card_erase_lt_of_mem hpmem

end Forest
