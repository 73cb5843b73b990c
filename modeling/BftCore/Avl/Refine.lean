import BftCore.Avl.Owns

/-!
# `tree/avl`: the store functions compute the value functions

On a tree it owns, each function of `BftCore.Avl.Heap` returns a pointer to the tree the
function of the same name in `BftCore.Avl.Node` returns, with the same clean flags, cloned
values and stored depths.  It writes only the records the tree owns, and the records it
owns afterwards are those it owned or new ones.

* `Root`: a dirty record with owned children, the shape a function writes;
* `RootResult`, `Result`: what a call returns, as a dirty root or as any pointer;
* `writable_spec`, `rotateRight_spec`, `rotate_spec`, `insert_spec`, `update_spec`,
  `replace_spec`, `remove_spec`, `get_spec`: one simulation lemma per function.
-/

namespace BftCore.Avl.Heap

open EStateM

variable {K V : Type}

/-- A dirty record `a` holding `c`, whose children own `Dl` and `Dr` apart from `a` and from
each other. -/
structure Root (s : Store K V) (a : Nat) (c : Cell K V) (l r : Node K V) (Dl Dr : List Nat) :
    Prop where
  cell : s.cells a = some c
  dirty : c.clean = false
  left : Owns s c.left l Dl
  right : Owns s c.right r Dr
  not_mem_left : a ∉ Dl
  not_mem_right : a ∉ Dr
  disjoint : Dl.Disjoint Dr

namespace Root

variable {s s' : Store K V} {a : Nat} {c : Cell K V} {l r : Node K V} {Dl Dr : List Nat}

theorem owns (h : Root s a c l r Dl Dr) :
    Owns s (some a) (.node c.key c.value l r false c.depth) (a :: (Dl ++ Dr)) := by
  have := Owns.dirty h.cell h.dirty h.left h.right h.not_mem_left h.not_mem_right h.disjoint
  exact this

theorem congr (h : Root s a c l r Dl Dr) (ha : Agree (a :: (Dl ++ Dr)) s s') :
    Root s' a c l r Dl Dr := by
  refine ⟨ha _ _ h.cell (Or.inl List.mem_cons_self), h.dirty, h.left.congr ?_,
    h.right.congr ?_, h.not_mem_left, h.not_mem_right, h.disjoint⟩
  · exact ha.mono fun b hb => List.mem_cons_of_mem _ (List.mem_append_left _ hb)
  · exact ha.mono fun b hb => List.mem_cons_of_mem _ (List.mem_append_right _ hb)

/-- A root seen through an owning pointer. -/
theorem of_owns {t : Node K V} {D : List Nat} (h : Owns s (some a) t D) (hcl : t.clean = false) :
    ∃ c l r Dl Dr, Root s a c l r Dl Dr ∧ t = .node c.key c.value l r false c.depth ∧
      D = a :: (Dl ++ Dr) := by
  cases h with
  | clean => cases hcl
  | dirty hc hcl' hl hr hal har hd => exact ⟨_, _, _, _, _, ⟨hc, hcl', hl, hr, hal, har, hd⟩, rfl, rfl⟩

/-- Writing the root with new children owned apart. -/
theorem set (h : s.cells a = some c) (hcl : c.clean = false) {c' : Cell K V}
    (hcl' : c'.clean = false) (hl : Owns s c'.left l Dl) (hr : Owns s c'.right r Dr)
    (hal : a ∉ Dl) (har : a ∉ Dr) (hd : Dl.Disjoint Dr) : Root (s.set a c') a c' l r Dl Dr := by
  have hsome : (s.cells a).isSome := by simp [h]
  have hdirty : Dirty s a := ⟨c, h, hcl⟩
  exact ⟨Store.set_cells_self hsome c', hcl', hl.congr (Agree.set hdirty hal c'),
    hr.congr (Agree.set hdirty har c'), hal, har, hd⟩

theorem setDepth (h : Root s a c l r Dl Dr) (d : Nat) :
    Root (s.set a { c with depth := d }) a { c with depth := d } l r Dl Dr :=
  set h.cell h.dirty h.dirty h.left h.right h.not_mem_left h.not_mem_right h.disjoint

end Root

/-! ### Reading depths -/

theorem depthOf_spec {s : Store K V} {q : Option Nat} {t : Node K V} {D : List Nat}
    (h : Owns s q t D) : depthOf q s = .ok t.depth s := by
  cases h with
  | nil => rfl
  | clean hc => exact depthOf_of hc
  | dirty hc => exact depthOf_of hc

theorem calculateDepth_spec {s : Store K V} {a : Nat} {c : Cell K V} {l r : Node K V}
    {Dl Dr : List Nat} (hc : s.cells a = some c) (hl : Owns s c.left l Dl)
    (hr : Owns s c.right r Dr) : calculateDepth a s = .ok (max l.depth r.depth + 1) s := by
  unfold calculateDepth
  rw [bind_of_ok (deref_of hc)]
  dsimp only
  rw [bind_of_ok (depthOf_spec hl), bind_of_ok (depthOf_spec hr)]
  rfl

/-! ### Where the records of a result come from -/

/-- The records of a result come from `D` or are new. -/
def FromOrFresh (D : List Nat) (s : Store K V) (D' : List Nat) : Prop :=
  ∀ x ∈ D', x ∈ D ∨ s.next ≤ x

namespace FromOrFresh

variable {D D' E : List Nat} {s s₁ : Store K V}

/-- Records from `D` or new are apart from records of the store outside `D`. -/
theorem disjoint (h : FromOrFresh D s D') (hE : ∀ y ∈ E, y < s.next) (hd : D.Disjoint E) :
    D'.Disjoint E := by
  intro x hx hxE
  rcases h x hx with h | h
  · exact hd h hxE
  · exact absurd (hE x hxE) (Nat.not_lt.2 h)

/-- A record of the store outside `D` is not among records from `D` or new ones. -/
theorem not_mem (h : FromOrFresh D s D') {x : Nat} (hx : x ∉ D) (hlt : x < s.next) : x ∉ D' :=
  fun hx' => (h x hx').elim hx (fun h => absurd hlt (Nat.not_lt.2 h))

/-- A call on part of a result made by an earlier call. -/
theorem trans (h : FromOrFresh D s E) {E' : List Nat} (h₁ : FromOrFresh E' s₁ D')
    (hE : ∀ x ∈ E', x ∈ E) (hle : s.next ≤ s₁.next) : FromOrFresh D s D' := by
  intro x hx
  rcases h₁ x hx with h' | h'
  · exact h x (hE x h')
  · exact Or.inr (hle.trans h')

end FromOrFresh

theorem Within.set_of {D : List Nat} {s s' : Store K V} (h : Within D s s') {b : Nat}
    (hb : b ∈ D ∨ s.next ≤ b) (c : Cell K V) : Within D s (s'.set b c) := by
  refine ⟨h.next_le, fun x hx hxD => ?_⟩
  have hne : x ≠ b := by
    rintro rfl
    rcases hb with hb | hb
    · exact hxD hb
    · exact absurd hx (Nat.not_lt.2 hb)
  rw [Store.set_cells_of_ne _ _ hne]
  exact h.eq_of_not_mem x hx hxD

theorem Owns.some_of_ne_nil {s : Store K V} {q : Option Nat} {t : Node K V} {D : List Nat}
    (h : Owns s q t D) (ht : t ≠ .nil) : ∃ a, q = some a := by
  cases h with
  | nil => exact absurd rfl ht
  | clean => exact ⟨_, rfl⟩
  | dirty => exact ⟨_, rfl⟩

/-- What a call that returns a dirty root `b` for the tree `t'` leaves. -/
def RootResult (D : List Nat) (s : Store K V) (t' : Node K V) (b : Nat) (s' : Store K V) :
    Prop :=
  ∃ c l r Dl Dr, Root s' b c l r Dl Dr ∧ t' = .node c.key c.value l r false c.depth ∧
    Within D s s' ∧ FromOrFresh D s (b :: (Dl ++ Dr))

/-- What a call that returns the pointer `q` for the tree `t'` leaves. -/
def Result (D : List Nat) (s : Store K V) (t' : Node K V) (q : Option Nat) (s' : Store K V) :
    Prop :=
  ∃ D', Owns s' q t' D' ∧ Within D s s' ∧ FromOrFresh D s D'

theorem Owns.inv_nil {s : Store K V} {q : Option Nat} {D : List Nat} (h : Owns s q .nil D) :
    q = none ∧ D = [] := by
  cases h
  exact ⟨rfl, rfl⟩

theorem Owns.inv_some {s : Store K V} {a : Nat} {t : Node K V} {D : List Nat}
    (h : Owns s (some a) t D) :
    ∃ c l r Dl Dr, s.cells a = some c ∧ t = .node c.key c.value l r c.clean c.depth ∧
      Owns s c.left l Dl ∧ Owns s c.right r Dr ∧ (∀ x ∈ Dl ++ Dr, x ∈ D) ∧ Dl.Disjoint Dr := by
  cases h with
  | @clean _ c l r hc hcl hl hr =>
    exact ⟨c, l, r, [], [], hc, by rw [hcl], hl, hr, nofun, List.disjoint_nil_left _⟩
  | @dirty _ c l r Dl Dr hc hcl hl hr _ _ hd =>
    exact ⟨c, l, r, Dl, Dr, hc, by rw [hcl], hl, hr, fun _ hx => List.mem_cons_of_mem _ hx, hd⟩

section Results

variable {D E : List Nat} {s s₁ s₂ : Store K V} {t : Node K V}

theorem Within.cell_of_not_mem {p : Nat} {c : Cell K V} (hW : Within D s s₁)
    (hc : s.cells p = some c) (hp : p ∉ D) : s₁.cells p = some c := by
  rw [hW.eq_of_not_mem p (Store.lt_next_of_cells hc) hp]
  exact hc

theorem RootResult.within {b : Nat} (h : RootResult D s t b s₁) : Within D s s₁ := by
  obtain ⟨_, _, _, _, _, _, _, hW, _⟩ := h
  exact hW

/-- A subtree returned as it is. -/
theorem Result.of_owns {q : Option Nat} (h : Owns s q t D) : Result D s t q s :=
  ⟨D, h, Within.refl _ _, fun _ hx => Or.inl hx⟩

theorem Result.within {q : Option Nat} (h : Result D s t q s₁) : Within D s s₁ := by
  obtain ⟨_, _, hW, _⟩ := h
  exact hW

theorem RootResult.result {b : Nat} (h : RootResult D s t b s₁) : Result D s t (some b) s₁ := by
  obtain ⟨c, l, r, Dl, Dr, hR, rfl, hW, hF⟩ := h
  exact ⟨_, hR.owns, hW, hF⟩

/-- A call on what an earlier call left. -/
theorem RootResult.trans {b : Nat} (hW : Within D s s₁) (hF : FromOrFresh D s E)
    (h : RootResult E s₁ t b s₂) : RootResult D s t b s₂ := by
  obtain ⟨c, l, r, Dl, Dr, hR, rfl, hW₂, hF₂⟩ := h
  exact ⟨c, l, r, Dl, Dr, hR, rfl, hW.trans hW₂ hF, hF.trans hF₂ (fun _ hx => hx) hW.next_le⟩

theorem Result.trans {q : Option Nat} (hW : Within D s s₁) (hF : FromOrFresh D s E)
    (h : Result E s₁ t q s₂) : Result D s t q s₂ := by
  obtain ⟨D', ho, hW₂, hF₂⟩ := h
  exact ⟨D', ho, hW.trans hW₂ hF, hF.trans hF₂ (fun _ hx => hx) hW.next_le⟩

/-- `p.depth = calculateDepth(p)` on a returned root. -/
theorem RootResult.setDepth {b : Nat} (h : RootResult D s t b s₁) :
    ∃ c, s₁.cells b = some c ∧ calculateDepth b s₁ = .ok t.calculateDepth s₁ ∧
      RootResult D s (t.setDepth t.calculateDepth) b
        (s₁.set b { c with depth := t.calculateDepth }) := by
  obtain ⟨c, l, r, Dl, Dr, hR, rfl, hW, hF⟩ := h
  refine ⟨c, hR.cell, calculateDepth_spec hR.cell hR.left hR.right, _, l, r, Dl, Dr,
    Root.set hR.cell hR.dirty hR.dirty hR.left hR.right hR.not_mem_left hR.not_mem_right
      hR.disjoint, rfl, hW.set_of (hF b List.mem_cons_self) _, hF⟩

end Results

/-- The write of a new left child, returned by a call on the old one. -/
theorem Root.setLeft {s s₁ : Store K V} {p : Nat} {c : Cell K V} {l r l' : Node K V}
    {Dl Dr Dl' : List Nat} {q : Option Nat} (h : Root s p c l r Dl Dr) (ho : Owns s₁ q l' Dl')
    (hW : Within Dl s s₁) (hF : FromOrFresh Dl s Dl') :
    Root (s₁.set p { c with left := q }) p { c with left := q } l' r Dl' Dr ∧
      Within (p :: (Dl ++ Dr)) s (s₁.set p { c with left := q }) ∧
      FromOrFresh (p :: (Dl ++ Dr)) s (p :: (Dl' ++ Dr)) := by
  have hp : s₁.cells p = some c := hW.cell_of_not_mem h.cell h.not_mem_left
  have hr : Owns s₁ c.right r Dr :=
    h.right.congr (hW.agree (fun _ hb => h.left.dirty_of_mem hb) h.disjoint)
  have hpl : p ∉ Dl' := fun hpD =>
    hF.disjoint (E := [p]) (by simpa using Store.lt_next_of_cells h.cell)
      (by simpa using h.not_mem_left) hpD List.mem_cons_self
  have hd : Dl'.Disjoint Dr := hF.disjoint (fun _ hy => h.right.lt_next_of_mem hy) h.disjoint
  refine ⟨Root.set hp h.dirty h.dirty ho hr hpl h.not_mem_right hd, ?_, ?_⟩
  · exact (hW.mono fun _ hx => List.mem_cons_of_mem _ (List.mem_append_left _ hx)).set_of
      (Or.inl List.mem_cons_self) _
  · intro x hx
    simp only [List.mem_cons, List.mem_append] at hx
    rcases hx with rfl | hx | hx
    · exact Or.inl List.mem_cons_self
    · exact (hF x hx).imp (fun h => by simp [h]) id
    · exact Or.inl (by simp [hx])

/-- The write of a new right child, returned by a call on the old one. -/
theorem Root.setRight {s s₁ : Store K V} {p : Nat} {c : Cell K V} {l r r' : Node K V}
    {Dl Dr Dr' : List Nat} {q : Option Nat} (h : Root s p c l r Dl Dr) (ho : Owns s₁ q r' Dr')
    (hW : Within Dr s s₁) (hF : FromOrFresh Dr s Dr') :
    Root (s₁.set p { c with right := q }) p { c with right := q } l r' Dl Dr' ∧
      Within (p :: (Dl ++ Dr)) s (s₁.set p { c with right := q }) ∧
      FromOrFresh (p :: (Dl ++ Dr)) s (p :: (Dl ++ Dr')) := by
  have hp : s₁.cells p = some c := hW.cell_of_not_mem h.cell h.not_mem_right
  have hl : Owns s₁ c.left l Dl :=
    h.left.congr (hW.agree (fun _ hb => h.right.dirty_of_mem hb) (List.disjoint_symm h.disjoint))
  have hpr : p ∉ Dr' := fun hpD =>
    hF.disjoint (E := [p]) (by simpa using Store.lt_next_of_cells h.cell)
      (by simpa using h.not_mem_right) hpD List.mem_cons_self
  have hd : Dl.Disjoint Dr' := List.disjoint_symm
    (hF.disjoint (fun _ hy => h.left.lt_next_of_mem hy) (List.disjoint_symm h.disjoint))
  refine ⟨Root.set hp h.dirty h.dirty hl ho h.not_mem_left hpr hd, ?_, ?_⟩
  · exact (hW.mono fun _ hx => List.mem_cons_of_mem _ (List.mem_append_right _ hx)).set_of
      (Or.inl List.mem_cons_self) _
  · intro x hx
    simp only [List.mem_cons, List.mem_append] at hx
    rcases hx with rfl | hx | hx
    · exact Or.inl List.mem_cons_self
    · exact Or.inl (by simp [hx])
    · exact (hF x hx).imp (fun h => by simp [h]) id

section Writable

variable [Value V]

@[simp] theorem Cell.writable_key (c : Cell K V) : c.writable.key = c.key := rfl
@[simp] theorem Cell.writable_left (c : Cell K V) : c.writable.left = c.left := rfl
@[simp] theorem Cell.writable_right (c : Cell K V) : c.writable.right = c.right := rfl
@[simp] theorem Cell.writable_clean (c : Cell K V) : c.writable.clean = false := rfl
@[simp] theorem Cell.writable_depth (c : Cell K V) : c.writable.depth = c.depth := rfl

/-- `writable` returns a dirty root holding `c.writable`, changing no allocated record. -/
theorem writable_spec {s : Store K V} {a : Nat} {t : Node K V} {D : List Nat}
    (h : Owns s (some a) t D) :
    ∃ c l r Dl Dr b s₁, s.cells a = some c ∧ t = .node c.key c.value l r c.clean c.depth ∧
      writable a s = .ok b s₁ ∧ Root s₁ b c.writable l r Dl Dr ∧ Within [] s s₁ ∧
      FromOrFresh D s (b :: (Dl ++ Dr)) := by
  cases h with
  | @clean _ c l r hc hcl hl hr =>
    refine ⟨c, l, r, [], [], s.next, s.push c.writable, hc, by rw [hcl], ?_, ?_, Within.push _ _ _,
      ?_⟩
    · rw [writable_of hc, if_pos hcl]
    · exact ⟨Store.push_cells_next s _, rfl, hl.congr (Agree.push _ _ _),
        hr.congr (Agree.push _ _ _), nofun, nofun, List.disjoint_nil_left _⟩
    · intro x hx
      simp only [List.append_nil, List.mem_singleton] at hx
      exact Or.inr hx.ge
  | @dirty _ c l r Dl Dr hc hcl hl hr hal har hd =>
    have hcw : c.writable = c := by
      cases c
      simp_all [Cell.writable]
    refine ⟨c, l, r, Dl, Dr, a, s, hc, by rw [hcl], ?_, ?_, Within.refl _ _, fun x hx => Or.inl hx⟩
    · rw [writable_of hc, if_neg (by simp [hcl])]
    · rw [hcw]
      exact ⟨hc, hcl, hl, hr, hal, har, hd⟩

/-! ### Rotations -/

/-- `rotateRight` of an owned node with a left child: the copy of the left child is the new
root, with the copy of the node as its right child. -/
theorem rotateRight_spec {s : Store K V} {n : Nat} {t : Node K V} {D : List Nat}
    (h : Owns s (some n) t D) (hl : t.left ≠ .nil) :
    ∃ b s', rotateRight n s = .ok b s' ∧ RootResult D s t.rotateRight b s' := by
  -- the copy of the node, then the copy of its left child
  obtain ⟨c, l, r, Dl, Dr, b₁, s₁, hc, rfl, hw₁, hR₁, hW₁, hF₁⟩ := writable_spec h
  obtain ⟨lp, hlp⟩ : ∃ lp, c.left = some lp := hR₁.left.some_of_ne_nil hl
  have hlo : Owns s₁ (some lp) l Dl := hlp ▸ hR₁.left
  obtain ⟨lc, ll, lr, Dll, Dlr, b₂, s₂, hlc, rfl, hw₂, hR₂, hW₂, hF₂⟩ := writable_spec hlo
  -- the second copy is made from records of the left subtree or new ones
  have hsep : (b₂ :: (Dll ++ Dlr)).Disjoint (b₁ :: Dr) := by
    refine hF₂.disjoint (fun y hy => ?_) ?_
    · rcases List.mem_cons.1 hy with rfl | hy
      · exact Store.lt_next_of_cells hR₁.cell
      · exact hR₁.right.lt_next_of_mem hy
    · simp [hR₁.not_mem_left, hR₁.disjoint]
  simp only [List.disjoint_cons_left, List.disjoint_cons_right, List.mem_cons, List.mem_append,
    List.disjoint_append_left, not_or] at hsep
  obtain ⟨⟨hb₁b₂, hb₁ll, hb₁lr⟩, hb₂r, hllr, hlrr⟩ := hsep
  have hb₂b₁ : b₂ ≠ b₁ := Ne.symm hb₁b₂
  have hb₁ : s₂.cells b₁ = some c.writable := by
    rw [hW₂.eq_of_not_mem b₁ (Store.lt_next_of_cells hR₁.cell) List.not_mem_nil]
    exact hR₁.cell
  have hd₁ : Dirty s₂ b₁ := ⟨_, hb₁, rfl⟩
  have hr₂ : Owns s₂ c.right r Dr := hR₁.right.congr (hW₂.agree nofun (List.disjoint_nil_left _))
  -- the node takes the right child of the copy of its left child, then its depth
  set c₃ : Cell K V := { c.writable with left := lc.writable.right } with hc₃
  have hR₃ : Root (s₂.set b₁ c₃) b₁ c₃ lr r Dlr Dr :=
    Root.set hb₁ rfl rfl hR₂.right hr₂ hb₁lr hR₁.not_mem_right hlrr
  set c₄ : Cell K V := { c₃ with depth := max lr.depth r.depth + 1 } with hc₄
  have hR₄ : Root ((s₂.set b₁ c₃).set b₁ c₄) b₁ c₄ lr r Dlr Dr :=
    Root.set hR₃.cell rfl rfl hR₃.left hR₃.right hb₁lr hR₁.not_mem_right hlrr
  -- the copy of the left child takes the node as its right child
  have hb₂ : ((s₂.set b₁ c₃).set b₁ c₄).cells b₂ = some lc.writable := by
    rw [Store.set_cells_of_ne _ _ hb₂b₁, Store.set_cells_of_ne _ _ hb₂b₁]
    exact hR₂.cell
  have hll : Owns ((s₂.set b₁ c₃).set b₁ c₄) lc.writable.left ll Dll :=
    (hR₂.left.congr (Agree.set hd₁ hb₁ll c₃)).congr (Agree.set ⟨_, hR₃.cell, rfl⟩ hb₁ll c₄)
  set c₅ : Cell K V := { lc.writable with right := some b₁ } with hc₅
  have hR₅ : Root (((s₂.set b₁ c₃).set b₁ c₄).set b₂ c₅) b₂ c₅ ll _ Dll _ :=
    Root.set hb₂ rfl rfl hll hR₄.owns hR₂.not_mem_left
    (by simp [hb₂b₁, hR₂.not_mem_right, hb₂r]) (by simp [hb₁ll, hR₂.disjoint, hllr])
  refine ⟨b₂, ((s₂.set b₁ c₃).set b₁ c₄).set b₂ c₅, ?_, c₅, _, _, _, _, hR₅, ?_, ?_, ?_⟩
  · -- the program runs through
    unfold rotateRight
    rw [bind_of_ok (deref_of hc)]
    dsimp only
    rw [bind_of_ok hw₁, hlp, bind_of_ok (deref_of hlc)]
    dsimp only
    rw [bind_of_ok hw₂, bind_of_ok (deref_of hR₂.cell)]
    dsimp only
    rw [bind_of_ok (modifyCell_of hb₁ _),
      bind_of_ok (calculateDepth_spec hR₃.cell hR₃.left hR₃.right),
      bind_of_ok (modifyCell_of hR₃.cell _), bind_of_ok (modifyCell_of hb₂ _)]
    rfl
  · simp [Cell.writable, hc₃, hc₄, hc₅]
  · have hF₁' := hF₁ b₁ List.mem_cons_self
    have hF₂' := hF₁.trans hF₂ (fun x hx => List.mem_cons_of_mem _ (List.mem_append_left _ hx))
      hW₁.next_le b₂ List.mem_cons_self
    exact ((((hW₁.mono nofun).trans hW₂ nofun).set_of hF₁' c₃).set_of hF₁' c₄).set_of hF₂' c₅
  · have hF₂' := hF₁.trans hF₂ (fun x hx => List.mem_cons_of_mem _ (List.mem_append_left _ hx))
      hW₁.next_le
    intro x hx
    simp only [List.mem_cons, List.mem_append] at hx
    rcases hx with rfl | hx | rfl | hx | hx
    · exact hF₂' _ List.mem_cons_self
    · exact hF₂' _ (by simp [hx])
    · exact hF₁ _ List.mem_cons_self
    · exact hF₂' _ (by simp [hx])
    · exact hF₁ _ (by simp [hx])

/-- `rotateLeft`, the mirror image: the copy of the right child is the new root, with the copy
of the node as its left child. -/
theorem rotateLeft_spec {s : Store K V} {n : Nat} {t : Node K V} {D : List Nat}
    (h : Owns s (some n) t D) (hr : t.right ≠ .nil) :
    ∃ b s', rotateLeft n s = .ok b s' ∧ RootResult D s t.rotateLeft b s' := by
  obtain ⟨c, l, r, Dl, Dr, b₁, s₁, hc, rfl, hw₁, hR₁, hW₁, hF₁⟩ := writable_spec h
  obtain ⟨rp, hrp⟩ : ∃ rp, c.right = some rp := hR₁.right.some_of_ne_nil hr
  have hro : Owns s₁ (some rp) r Dr := hrp ▸ hR₁.right
  obtain ⟨rc, rl, rr, Drl, Drr, b₂, s₂, hrc, rfl, hw₂, hR₂, hW₂, hF₂⟩ := writable_spec hro
  have hsep : (b₂ :: (Drl ++ Drr)).Disjoint (b₁ :: Dl) := by
    refine hF₂.disjoint (fun y hy => ?_) ?_
    · rcases List.mem_cons.1 hy with rfl | hy
      · exact Store.lt_next_of_cells hR₁.cell
      · exact hR₁.left.lt_next_of_mem hy
    · simp [hR₁.not_mem_right, List.disjoint_symm hR₁.disjoint]
  simp only [List.disjoint_cons_left, List.disjoint_cons_right, List.mem_cons, List.mem_append,
    List.disjoint_append_left, not_or] at hsep
  obtain ⟨⟨hb₁b₂, hb₁rl, hb₁rr⟩, hb₂l, hrll, hrrl⟩ := hsep
  have hb₂b₁ : b₂ ≠ b₁ := Ne.symm hb₁b₂
  have hb₁ : s₂.cells b₁ = some c.writable := by
    rw [hW₂.eq_of_not_mem b₁ (Store.lt_next_of_cells hR₁.cell) List.not_mem_nil]
    exact hR₁.cell
  have hd₁ : Dirty s₂ b₁ := ⟨_, hb₁, rfl⟩
  have hl₂ : Owns s₂ c.left l Dl := hR₁.left.congr (hW₂.agree nofun (List.disjoint_nil_left _))
  set c₃ : Cell K V := { c.writable with right := rc.writable.left } with hc₃
  have hR₃ : Root (s₂.set b₁ c₃) b₁ c₃ l rl Dl Drl :=
    Root.set hb₁ rfl rfl hl₂ hR₂.left hR₁.not_mem_left hb₁rl (List.disjoint_symm hrll)
  set c₄ : Cell K V := { c₃ with depth := max l.depth rl.depth + 1 } with hc₄
  have hR₄ : Root ((s₂.set b₁ c₃).set b₁ c₄) b₁ c₄ l rl Dl Drl :=
    Root.set hR₃.cell rfl rfl hR₃.left hR₃.right hR₁.not_mem_left hb₁rl (List.disjoint_symm hrll)
  have hb₂ : ((s₂.set b₁ c₃).set b₁ c₄).cells b₂ = some rc.writable := by
    rw [Store.set_cells_of_ne _ _ hb₂b₁, Store.set_cells_of_ne _ _ hb₂b₁]
    exact hR₂.cell
  have hrr : Owns ((s₂.set b₁ c₃).set b₁ c₄) rc.writable.right rr Drr :=
    (hR₂.right.congr (Agree.set hd₁ hb₁rr c₃)).congr (Agree.set ⟨_, hR₃.cell, rfl⟩ hb₁rr c₄)
  set c₅ : Cell K V := { rc.writable with left := some b₁ } with hc₅
  have hR₅ : Root (((s₂.set b₁ c₃).set b₁ c₄).set b₂ c₅) b₂ c₅ _ rr _ Drr :=
    Root.set hb₂ rfl rfl hR₄.owns hrr
    (by simp [hb₂b₁, hb₂l, hR₂.not_mem_left]) hR₂.not_mem_right
    (by simp [hb₁rr, List.disjoint_symm hrrl, hR₂.disjoint])
  refine ⟨b₂, ((s₂.set b₁ c₃).set b₁ c₄).set b₂ c₅, ?_, c₅, _, _, _, _, hR₅, ?_, ?_, ?_⟩
  · unfold rotateLeft
    rw [bind_of_ok (deref_of hc)]
    dsimp only
    rw [bind_of_ok hw₁, hrp, bind_of_ok (deref_of hrc)]
    dsimp only
    rw [bind_of_ok hw₂, bind_of_ok (deref_of hR₂.cell)]
    dsimp only
    rw [bind_of_ok (modifyCell_of hb₁ _),
      bind_of_ok (calculateDepth_spec hR₃.cell hR₃.left hR₃.right),
      bind_of_ok (modifyCell_of hR₃.cell _), bind_of_ok (modifyCell_of hb₂ _)]
    rfl
  · simp [Cell.writable, hc₃, hc₄, hc₅]
  · have hF₁' := hF₁ b₁ List.mem_cons_self
    have hF₂' := hF₁.trans hF₂ (fun x hx => List.mem_cons_of_mem _ (List.mem_append_right _ hx))
      hW₁.next_le b₂ List.mem_cons_self
    exact ((((hW₁.mono nofun).trans hW₂ nofun).set_of hF₁' c₃).set_of hF₁' c₄).set_of hF₂' c₅
  · have hF₂' := hF₁.trans hF₂ (fun x hx => List.mem_cons_of_mem _ (List.mem_append_right _ hx))
      hW₁.next_le
    intro x hx
    simp only [List.mem_cons, List.mem_append] at hx
    rcases hx with rfl | (rfl | hx | hx) | hx
    · exact hF₂' _ List.mem_cons_self
    · exact hF₁ _ List.mem_cons_self
    · exact hF₁ _ (by simp [hx])
    · exact hF₂' _ (by simp [hx])
    · exact hF₂' _ (by simp [hx])

omit [Value V] in
/-- A dirty root as the result of a call that did nothing. -/
theorem Root.rootResult {s : Store K V} {p : Nat} {c : Cell K V} {l r : Node K V}
    {Dl Dr : List Nat} (h : Root s p c l r Dl Dr) :
    RootResult (p :: (Dl ++ Dr)) s (.node c.key c.value l r false c.depth) p s :=
  ⟨c, l, r, Dl, Dr, h, rfl, Within.refl _ _, fun _ hx => Or.inl hx⟩

/-- `rotate` of a dirty root: the moves of `Node.rotate`, each through `rotateLeft` and
`rotateRight`, then the depth of the new root. -/
theorem rotate_spec {s : Store K V} {p : Nat} {c : Cell K V} {l r : Node K V} {Dl Dr : List Nat}
    (h : Root s p c l r Dl Dr) :
    ∃ b s', rotate p s = .ok b s' ∧
      RootResult (p :: (Dl ++ Dr)) s (Node.rotate (.node c.key c.value l r false c.depth)) b s' := by
  by_cases h₁ : l.depth > r.depth + 1
  · -- left heavy: the left child is a node
    have h₂ : ¬ r.depth > l.depth + 1 := by omega
    obtain ⟨la, hla⟩ := h.left.some_of_ne_nil (Node.ne_nil_of_depth_pos (by omega))
    have hlo : Owns s (some la) l Dl := hla ▸ h.left
    obtain ⟨lc, ll, lr, Dll, Dlr, hlc, hl, hll, hlr, -, -⟩ := hlo.inv_some
    rw [Node.rotate_of_left_heavy h₁]
    by_cases h₃ : ll.depth < lr.depth
    · -- a left turn of the left child, written back, then a right turn of the root
      obtain ⟨b₁, s₁, hrun₁, hres₁⟩ := rotateLeft_spec hlo (by
        rw [hl]
        exact Node.ne_nil_of_depth_pos (show 0 < lr.depth by omega))
      obtain ⟨Dl₂, ho₁, hW₁, hF₁⟩ := hres₁.result
      obtain ⟨hR₂, hW₂, hF₂⟩ := h.setLeft ho₁ hW₁ hF₁
      obtain ⟨b₃, s₃, hrun₃, hres₃⟩ := rotateRight_spec hR₂.owns (by
        obtain ⟨c₁, _, _, _, _, _, ht₁, _⟩ := hres₁
        simp [ht₁])
      obtain ⟨c₄, hc₄, hcd, hres₄⟩ := (RootResult.trans hW₂ hF₂ hres₃).setDepth
      have h₃' : l.left.depth < l.right.depth := by simpa [hl] using h₃
      refine ⟨b₃, _, ?_, by simpa only [h₃', if_true] using hres₄⟩
      unfold rotate
      rw [bind_of_ok (deref_of h.cell)]
      dsimp only
      rw [bind_of_ok (depthOf_spec h.left), bind_of_ok (depthOf_spec h.right), if_pos h₁, hla,
        bind_of_ok (deref_of hlc)]
      dsimp only
      rw [bind_of_ok (depthOf_spec hll), bind_of_ok (depthOf_spec hlr), if_pos h₃,
        bind_of_ok hrun₁,
        bind_of_ok (modifyCell_of (hW₁.cell_of_not_mem h.cell h.not_mem_left) _),
        bind_of_ok hrun₃, if_neg h₂,
        pure_bind, bind_of_ok hcd, bind_of_ok (modifyCell_of hc₄ _)]
      rfl
    · -- a right turn of the root
      obtain ⟨b₃, s₃, hrun₃, hres₃⟩ := rotateRight_spec h.owns (by
        simpa using Node.ne_nil_of_depth_pos (show 0 < l.depth by omega))
      obtain ⟨c₄, hc₄, hcd, hres₄⟩ := hres₃.setDepth
      have h₃' : ¬ l.left.depth < l.right.depth := by simpa [hl] using h₃
      refine ⟨b₃, _, ?_, by simpa only [h₃', if_false] using hres₄⟩
      unfold rotate
      rw [bind_of_ok (deref_of h.cell)]
      dsimp only
      rw [bind_of_ok (depthOf_spec h.left), bind_of_ok (depthOf_spec h.right), if_pos h₁, hla,
        bind_of_ok (deref_of hlc)]
      dsimp only
      rw [bind_of_ok (depthOf_spec hll), bind_of_ok (depthOf_spec hlr), if_neg h₃,
        bind_of_ok hrun₃, if_neg h₂, pure_bind, bind_of_ok hcd, bind_of_ok (modifyCell_of hc₄ _)]
      rfl
  · by_cases h₂ : r.depth > l.depth + 1
    · -- right heavy: the mirror image
      obtain ⟨ra, hra⟩ := h.right.some_of_ne_nil (Node.ne_nil_of_depth_pos (by omega))
      have hro : Owns s (some ra) r Dr := hra ▸ h.right
      obtain ⟨rc, rl, rr, Drl, Drr, hrc, hr, hrl, hrr, -, -⟩ := hro.inv_some
      rw [Node.rotate_of_right_heavy h₁ h₂]
      by_cases h₃ : rl.depth > rr.depth
      · obtain ⟨b₁, s₁, hrun₁, hres₁⟩ := rotateRight_spec hro (by
          rw [hr]
          exact Node.ne_nil_of_depth_pos (show 0 < rl.depth by omega))
        obtain ⟨Dr₂, ho₁, hW₁, hF₁⟩ := hres₁.result
        obtain ⟨hR₂, hW₂, hF₂⟩ := h.setRight ho₁ hW₁ hF₁
        obtain ⟨b₃, s₃, hrun₃, hres₃⟩ := rotateLeft_spec hR₂.owns (by
          obtain ⟨c₁, _, _, _, _, _, ht₁, _⟩ := hres₁
          simp [ht₁])
        obtain ⟨c₄, hc₄, hcd, hres₄⟩ := (RootResult.trans hW₂ hF₂ hres₃).setDepth
        have h₃' : r.left.depth > r.right.depth := by simpa [hr] using h₃
        refine ⟨b₃, _, ?_, by simpa only [h₃', if_true] using hres₄⟩
        unfold rotate
        rw [bind_of_ok (deref_of h.cell)]
        dsimp only
        rw [bind_of_ok (depthOf_spec h.left), bind_of_ok (depthOf_spec h.right), if_neg h₁,
          pure_bind, if_pos h₂, bind_of_ok (deref_of h.cell)]
        dsimp only
        rw [hra, bind_of_ok (deref_of hrc)]
        dsimp only
        rw [bind_of_ok (depthOf_spec hrl), bind_of_ok (depthOf_spec hrr), if_pos h₃,
          bind_of_ok hrun₁,
          bind_of_ok (modifyCell_of (hW₁.cell_of_not_mem h.cell h.not_mem_right) _),
          bind_of_ok hrun₃,
          bind_of_ok hcd, bind_of_ok (modifyCell_of hc₄ _)]
        rfl
      · obtain ⟨b₃, s₃, hrun₃, hres₃⟩ := rotateLeft_spec h.owns (by
          simpa using Node.ne_nil_of_depth_pos (show 0 < r.depth by omega))
        obtain ⟨c₄, hc₄, hcd, hres₄⟩ := hres₃.setDepth
        have h₃' : ¬ r.left.depth > r.right.depth := by simpa [hr] using h₃
        refine ⟨b₃, _, ?_, by simpa only [h₃', if_false] using hres₄⟩
        unfold rotate
        rw [bind_of_ok (deref_of h.cell)]
        dsimp only
        rw [bind_of_ok (depthOf_spec h.left), bind_of_ok (depthOf_spec h.right), if_neg h₁,
          pure_bind, if_pos h₂, bind_of_ok (deref_of h.cell)]
        dsimp only
        rw [hra, bind_of_ok (deref_of hrc)]
        dsimp only
        rw [bind_of_ok (depthOf_spec hrl), bind_of_ok (depthOf_spec hrr), if_neg h₃,
          bind_of_ok hrun₃, bind_of_ok hcd, bind_of_ok (modifyCell_of hc₄ _)]
        rfl
    · -- balanced: only the depth
      obtain ⟨c₄, hc₄, hcd, hres₄⟩ := h.rootResult.setDepth
      rw [Node.rotate_of_balanced (by omega) (by omega)]
      refine ⟨p, _, ?_, by simpa using hres₄⟩
      unfold rotate
      rw [bind_of_ok (deref_of h.cell)]
      dsimp only
      rw [bind_of_ok (depthOf_spec h.left), bind_of_ok (depthOf_spec h.right), if_neg h₁,
        pure_bind, if_neg h₂, pure_bind, bind_of_ok hcd, bind_of_ok (modifyCell_of hc₄ _)]
      rfl

end Writable

/-! ### Insertion, update and deletion -/

/-- A store call ends as the value call: on success with a pointer to the tree the value call
returns, on failure with its error and no allocated record changed. -/
def Simulates (D : List Nat) (s : Store K V) :
    Except (AvlError K) (Node K V) → EStateM.Result (StoreError K) (Store K V) (Option Nat) → Prop
  | .ok t', .ok q s' => Result D s t' q s'
  | .error e, .error e' s' => e' = .avl e ∧ Within [] s s'
  | _, _ => False

section Tails

variable [Value V]

/-- `node.depth = calculateDepth(node)` and then `rotate(node)`, on a dirty root: the tail of
`replace` and of `remove`. -/
theorem fixDepth_rotate_spec {s : Store K V} {p : Nat} {c : Cell K V} {l r : Node K V}
    {Dl Dr : List Nat} (h : Root s p c l r Dl Dr) :
    ∃ b s', calculateDepth p s = .ok (max l.depth r.depth + 1) s ∧
      rotate p (s.set p { c with depth := max l.depth r.depth + 1 }) = .ok b s' ∧
      RootResult (p :: (Dl ++ Dr)) s
        (Node.rotate (.node c.key c.value l r false (max l.depth r.depth + 1))) b s' := by
  have hR := h.setDepth (max l.depth r.depth + 1)
  obtain ⟨b, s', hrun, hres⟩ := rotate_spec hR
  refine ⟨b, s', calculateDepth_spec h.cell h.left h.right, hrun, ?_⟩
  exact RootResult.trans (Within.set_of (Within.refl _ _) (Or.inl List.mem_cons_self) _)
    (fun _ hx => Or.inl hx) hres

/-- `fixDepthAndRotate` of a dirty root. -/
theorem fixDepthAndRotate_spec {s : Store K V} {p : Nat} {c : Cell K V} {l r : Node K V}
    {Dl Dr : List Nat} (h : Root s p c l r Dl Dr) :
    ∃ b s', fixDepthAndRotate p s = .ok (some b) s' ∧
      RootResult (p :: (Dl ++ Dr)) s
        (Node.rotate (.node c.key c.value l r false (max l.depth r.depth + 1))) b s' := by
  obtain ⟨b, s', hcd, hrun, hres⟩ := fixDepth_rotate_spec h
  refine ⟨b, s', ?_, hres⟩
  unfold fixDepthAndRotate
  rw [bind_of_ok hcd, bind_of_ok (modifyCell_of h.cell _), bind_of_ok hrun]
  rfl

/-- `writableRight`: the right child of a dirty root made writable, the root pointing to the
copy. -/
theorem writableRight_spec {s : Store K V} {parent a : Nat} {pc : Cell K V} {pl n : Node K V}
    {Dpl Dn : List Nat} (h : Root s parent pc pl n Dpl Dn) (ha : pc.right = some a) :
    ∃ b s₁ Dn', writableRight parent a s = .ok b s₁ ∧
      Root s₁ parent { pc with right := some b } pl n.writable Dpl Dn' ∧
      Within (parent :: (Dpl ++ Dn)) s s₁ ∧
      FromOrFresh (parent :: (Dpl ++ Dn)) s (parent :: (Dpl ++ Dn')) := by
  have hn : Owns s (some a) n Dn := ha ▸ h.right
  obtain ⟨c, l, r, Dl, Dr, b, s₁, hc, rfl, hw, hRb, hWb, hFb⟩ := writable_spec hn
  rw [writable_of hc] at hw
  cases hcl : c.clean
  · -- a dirty child is its own copy
    rw [hcl, if_neg (by simp)] at hw
    obtain ⟨rfl, rfl⟩ : a = b ∧ s = s₁ := by simpa using hw
    have hpc : { pc with right := some a } = pc := by
      rw [← ha]
    refine ⟨a, s, Dn, ?_, ?_, Within.refl _ _, fun _ hx => Or.inl hx⟩
    · unfold writableRight
      rw [bind_of_ok (deref_of hc)]
      dsimp only
      rw [hcl, if_neg (by simp)]
      rfl
    · rw [hpc]
      simpa [Node.writable_node, hcl] using h
  · -- a clean child is copied, and the root written to point to the copy
    rw [hcl, if_pos rfl] at hw
    obtain ⟨rfl, rfl⟩ : s.next = b ∧ s.push c.writable = s₁ := by simpa using hw
    have hp₁ : (s.push c.writable).cells parent = some pc :=
      hWb.cell_of_not_mem h.cell List.not_mem_nil
    have hpb : parent ≠ s.next := Nat.ne_of_lt (Store.lt_next_of_cells h.cell)
    have hsep : (s.next :: (Dl ++ Dr)).Disjoint (parent :: Dpl) := by
      refine hFb.disjoint (fun y hy => ?_) ?_
      · rcases List.mem_cons.1 hy with rfl | hy
        · exact Store.lt_next_of_cells h.cell
        · exact h.left.lt_next_of_mem hy
      · simp [h.not_mem_right, List.disjoint_symm h.disjoint]
    simp only [List.disjoint_cons_left, List.disjoint_cons_right, List.mem_cons, List.mem_append,
      List.disjoint_append_left, not_or] at hsep
    obtain ⟨⟨-, hpDl, hpDr⟩, hbl, hDl, hDr⟩ := hsep
    have hl₁ : Owns (s.push c.writable) pc.left pl Dpl := h.left.congr (Agree.push _ _ _)
    refine ⟨s.next, (s.push c.writable).set parent { pc with right := some s.next },
      s.next :: (Dl ++ Dr), ?_, ?_, ?_, ?_⟩
    · unfold writableRight
      rw [bind_of_ok (deref_of hc)]
      dsimp only
      rw [hcl, if_pos rfl]
      have hnew : newDirtyNode c s = .ok s.next (s.push c.writable) := by
        simp [newDirtyNode, alloc, Cell.writable, hcl]
      rw [bind_of_ok hnew, bind_of_ok (modifyCell_of hp₁ _)]
      rfl
    · refine Root.set hp₁ h.dirty h.dirty hl₁ ?_ h.not_mem_left ?_ ?_
      · simpa [Node.writable_node, Cell.writable, hcl] using hRb.owns
      · simp [hpb, hpDl, hpDr]
      · simp [List.disjoint_symm hDl, List.disjoint_symm hDr, hbl]
    · exact (hWb.mono (List.forall_mem_nil _)).set_of (Or.inl List.mem_cons_self) _
    · intro x hx
      simp only [List.mem_cons, List.mem_append] at hx
      rcases hx with rfl | hx | rfl | hx
      · exact Or.inl List.mem_cons_self
      · exact Or.inl (by simp [hx])
      · exact Or.inr le_rfl
      · exact (hFb x (by simp [hx])).imp (fun h => by simp [h]) id

/-- **`replace` computes `Node.replace`**: from a dirty `parent` whose right child holds `n`, it
returns a pointer to the subtree that replaces `parent`, and a record outside that subtree
holding the key and value of the predecessor. -/
theorem replace_spec {n : Node K V} :
    ∀ {fuel : Nat} {s : Store K V} {parent : Nat} {pc : Cell K V} {pl : Node K V}
      {Dpl Dn : List Nat}, Root s parent pc pl n Dpl Dn → n.height < fuel →
      ∃ q pa s' D' pcell, replace fuel pc.right parent s = .ok (q, pa) s' ∧
        Owns s' q (Node.replace n (.node pc.key pc.value pl n false pc.depth)).1 D' ∧
        Within (parent :: (Dpl ++ Dn)) s s' ∧ FromOrFresh (parent :: (Dpl ++ Dn)) s D' ∧
        s'.cells pa = some pcell ∧ pa ∉ D' ∧ FromOrFresh (parent :: (Dpl ++ Dn)) s [pa] ∧
        ∃ l r d, (Node.replace n (.node pc.key pc.value pl n false pc.depth)).2 =
          .node pcell.key pcell.value l r false d := by
  induction n with
  | nil =>
    -- no right child: `parent` is the predecessor, replaced by its left child
    intro fuel s parent pc pl Dpl Dn h hf
    obtain ⟨f, rfl⟩ : ∃ f, fuel = f + 1 := ⟨fuel - 1, by simp at hf; omega⟩
    obtain ⟨hnone, rfl⟩ := Owns.inv_nil h.right
    refine ⟨pc.left, parent, s, Dpl, pc, ?_, by simpa using h.left, Within.refl _ _, ?_, h.cell,
      h.not_mem_left, ?_, pl, .nil, pc.depth, by simp⟩
    · rw [hnone, replace, bind_of_ok (deref_of h.cell)]
      rfl
    · exact fun _ hx => Or.inl (by simp [hx])
    · exact fun _ hx => Or.inl (by simp at hx; simp [hx])
  | node nk nv nl nr ncl nd _ ihr =>
    intro fuel s parent pc pl Dpl Dn h hf
    obtain ⟨f, rfl⟩ : ∃ f, fuel = f + 1 := ⟨fuel - 1, by simp at hf; omega⟩
    simp only [Node.height_node] at hf
    obtain ⟨a, ha⟩ := h.right.some_of_ne_nil nofun
    -- the right child made writable, with `parent` pointing to the copy `b`
    obtain ⟨b, s₁, Dn', hrun₁, hR₁, hW₁, hF₁⟩ := writableRight_spec h ha
    obtain ⟨c', nl', nr', Dnl, Dnr, hRb, ht, rfl⟩ :=
      Root.of_owns hR₁.right (by simp [Node.writable_node])
    simp only [Node.writable_node, Node.node.injEq] at ht
    obtain ⟨rfl, hv, rfl, rfl, -, rfl⟩ := ht
    have hbp : b ≠ parent := fun hb => hR₁.not_mem_right (hb ▸ List.mem_cons_self)
    have hbl : b ∉ Dpl := fun hb => hR₁.disjoint hb List.mem_cons_self
    have hF₁' : FromOrFresh (parent :: (Dpl ++ Dn)) s (b :: (Dnl ++ Dnr)) :=
      fun x hx => hF₁ x (List.mem_cons_of_mem _ (List.mem_append_right _ hx))
    rw [ha, replace, bind_of_ok hrun₁, bind_of_ok (deref_of hRb.cell)]
    dsimp only
    cases nr with
    | nil =>
      -- `b` is the predecessor: `parent` takes its left child
      rw [(Owns.inv_nil hRb.right).1]
      dsimp only
      obtain ⟨hR₂, hW₂, hF₂⟩ := hR₁.setRight hRb.left (Within.refl _ _)
        (fun _ hx => Or.inl (by simp [hx]))
      obtain ⟨b₃, s₃, hcd, hrot, c₃, l₃, r₃, D₃l, D₃r, hR₃, ht₃, hW₃, hF₃⟩ :=
        fixDepth_rotate_spec hR₂
      have hb₂ : (s₁.set parent { { pc with right := some b } with right := c'.left }).cells b = some c' := by
        rw [Store.set_cells_of_ne _ _ hbp]
        exact hRb.cell
      have hbD : b ∉ parent :: (Dpl ++ Dnl) := by simp [hbp, hbl, hRb.not_mem_left]
      refine ⟨some b₃, b, s₃, b₃ :: (D₃l ++ D₃r), c', ?_, ?_, ?_, ?_, ?_, ?_, ?_, ?_⟩
      · rw [bind_of_ok (modifyCell_of hR₁.cell _), bind_of_ok hcd,
          bind_of_ok (modifyCell_of hR₂.cell _), bind_of_ok hrot]
        rfl
      · rw [Node.replace_node_nil]
        simpa [ht₃] using hR₃.owns
      · exact (hW₁.trans hW₂ hF₁).trans hW₃ (hF₁.trans hF₂ (fun _ hx => hx) hW₁.next_le)
      · exact (hF₁.trans hF₂ (fun _ hx => hx) hW₁.next_le).trans hF₃ (fun _ hx => hx)
          (hW₁.next_le.trans hW₂.next_le)
      · exact hW₃.cell_of_not_mem hb₂ hbD
      · exact hF₃.not_mem hbD (Store.lt_next_of_cells hb₂)
      · exact fun _ hx => hF₁' _ (by simp at hx; simp [hx])
      · exact ⟨nl, .nil, c'.depth, by rw [Node.replace_node_nil, hv]⟩
    | node rk rv rl rr rc rd =>
      -- the walk goes on right from `b`
      obtain ⟨r, hcr⟩ := hRb.right.some_of_ne_nil nofun
      obtain ⟨q₂, pa, s₂, D₂, pcell, hrun₂, ho₂, hW₂, hF₂, hpa, hpaD, hFpa, hpred⟩ :=
        @ihr f _ _ _ _ _ _ hRb (by omega)
      rw [hcr] at hrun₂ ⊢
      dsimp only
      rw [bind_of_ok hrun₂]
      dsimp only
      obtain ⟨hR₃, hW₃, hF₃⟩ := hR₁.setRight ho₂ hW₂ hF₂
      obtain ⟨b₄, s₄, hcd, hrot, c₄, l₄, r₄, D₄l, D₄r, hR₄, ht₄, hW₄, hF₄⟩ :=
        fixDepth_rotate_spec hR₃
      -- the predecessor record comes from below `b` or is new, so later writes miss it
      have hpap : pa ≠ parent := fun hp =>
        hFpa.not_mem (hp ▸ hR₁.not_mem_right) (hp ▸ Store.lt_next_of_cells hR₁.cell)
          List.mem_cons_self
      have hpal : pa ∉ Dpl := fun hp => by
        rcases hFpa pa List.mem_cons_self with h' | h'
        · exact hR₁.disjoint hp h'
        · exact absurd (hR₁.left.lt_next_of_mem hp) (Nat.not_lt.2 h')
      have hpa₃ : (s₂.set parent { { pc with right := some b } with right := q₂ }).cells pa = some pcell := by
        rw [Store.set_cells_of_ne _ _ hpap]
        exact hpa
      have hpaD' : pa ∉ parent :: (Dpl ++ D₂) := by simp [hpap, hpal, hpaD]
      refine ⟨some b₄, pa, s₄, b₄ :: (D₄l ++ D₄r), pcell, ?_, ?_, ?_, ?_, ?_, ?_, ?_, ?_⟩
      · rw [bind_of_ok (modifyCell_of (hW₂.cell_of_not_mem hR₁.cell hR₁.not_mem_right) _),
          bind_of_ok hcd, bind_of_ok (modifyCell_of hR₃.cell _), bind_of_ok hrot]
        rfl
      · rw [Node.replace_node_node _ _ _ (.node rk rv rl rr rc rd) _ _ _ nofun]
        simpa [ht₄, hv] using hR₄.owns
      · exact (hW₁.trans hW₃ hF₁).trans hW₄ (hF₁.trans hF₃ (fun _ hx => hx) hW₁.next_le)
      · exact (hF₁.trans hF₃ (fun _ hx => hx) hW₁.next_le).trans hF₄ (fun _ hx => hx)
          (hW₁.next_le.trans hW₃.next_le)
      · exact hW₄.cell_of_not_mem hpa₃ hpaD'
      · exact hF₄.not_mem hpaD' (Store.lt_next_of_cells hpa₃)
      · exact hF₁'.trans hFpa (fun _ hx => hx) hW₁.next_le
      · obtain ⟨l, r, d, hd⟩ := hpred
        exact ⟨l, r, d, by rw [Node.replace_node_node _ _ _ (.node rk rv rl rr rc rd) _ _ _ nofun, hv]; exact hd⟩

end Tails

theorem Simulates.ok_inv {D : List Nat} {s : Store K V} {t' : Node K V}
    {r : EStateM.Result (StoreError K) (Store K V) (Option Nat)} (h : Simulates D s (.ok t') r) :
    ∃ q s', r = .ok q s' ∧ Result D s t' q s' := by
  cases r with
  | ok q s' => exact ⟨q, s', rfl, h⟩
  | error => exact h.elim

theorem Simulates.error_inv {D : List Nat} {s : Store K V} {e : AvlError K}
    {r : EStateM.Result (StoreError K) (Store K V) (Option Nat)} (h : Simulates D s (.error e) r) :
    ∃ s', r = .error (.avl e) s' ∧ Within [] s s' := by
  cases r with
  | ok => exact h.elim
  | error e' s' =>
    obtain ⟨rfl, hW⟩ := h
    exact ⟨s', rfl, hW⟩

section Calls

variable [Ord K] [Value V]

omit [Ord K] [Value V] in
/-- A new leaf, owned alone. -/
theorem alloc_newLeaf_result (s : Store K V) (D : List Nat) (key : K) (value : V) :
    Result D s (Node.newLeaf key value) (some s.next) (s.push (newLeaf key value)) := by
  refine ⟨[s.next], ?_, Within.push _ _ _, ?_⟩
  · exact .dirty (Store.push_cells_next s _) rfl .nil .nil List.not_mem_nil List.not_mem_nil
      (List.disjoint_nil_left _)
  · intro x hx
    rw [List.mem_singleton] at hx
    exact Or.inr hx.ge

/-- **`insert` computes `Node.insert`** on an owned tree, given fuel above its height. -/
theorem insert_spec (key : K) (value : V) {t : Node K V} :
    ∀ {fuel : Nat} {s : Store K V} {q : Option Nat} {D : List Nat}, Owns s q t D →
      t.height < fuel → Simulates D s (t.insert key value) (insert fuel q key value s) := by
  induction t with
  | nil =>
    intro fuel s q D h hf
    cases h
    obtain ⟨f, rfl⟩ : ∃ f, fuel = f + 1 := ⟨fuel - 1, by simp at hf; omega⟩
    exact alloc_newLeaf_result s [] key value
  | node k v l r cl d ihl ihr =>
    intro fuel s q D h hf
    obtain ⟨f, rfl⟩ : ∃ f, fuel = f + 1 := ⟨fuel - 1, by simp at hf; omega⟩
    simp only [Node.height_node] at hf
    obtain ⟨p, rfl⟩ := h.some_of_ne_nil Node.node_ne_nil
    obtain ⟨c, l', r', Dl, Dr, b, s₁, hc, ht, hw, hR, hW, hF⟩ := writable_spec h
    simp only [Node.node.injEq] at ht
    obtain ⟨rfl, rfl, rfl, rfl, rfl, rfl⟩ := ht
    rw [insert, bind_of_ok (deref_of hc)]
    dsimp only
    rcases hcmp : compare c.key key
    · -- the key is on the right: insert there, write the new child back, rotate
      dsimp only
      have ih := @ihr f _ _ _ hR.right (by omega)
      rw [bind_of_ok hw, bind_of_ok (deref_of hR.cell)]
      dsimp only
      cases hins : r.insert key value with
      | error e =>
        rw [hins] at ih
        cases hh : insert f c.writable.right key value s₁ with
        | ok => rw [hh] at ih; exact ih.elim
        | error e' s₂ =>
          rw [hh] at ih
          obtain ⟨rfl, hW₂⟩ := ih
          rw [bind_of_error hh]
          have hpure : (Node.node c.key c.value l r c.clean c.depth).insert key value = .error e := by
            simp [Node.insert, hcmp, hins]
          rw [hpure]
          exact ⟨rfl, hW.trans hW₂ (List.forall_mem_nil _)⟩
      | ok r₁ =>
        rw [hins] at ih
        cases hh : insert f c.writable.right key value s₁ with
        | error => rw [hh] at ih; exact ih.elim
        | ok q₁ s₂ =>
          rw [hh] at ih
          obtain ⟨Dr', ho₂, hW₂, hF₂⟩ := ih
          obtain ⟨hR₃, hW₃, hF₃⟩ := hR.setRight ho₂ hW₂ hF₂
          obtain ⟨b₄, s₄, hrun₄, hres₄⟩ := rotate_spec hR₃
          rw [bind_of_ok hh, bind_of_ok (modifyCell_of (hW₂.cell_of_not_mem hR.cell
            hR.not_mem_right) _), bind_of_ok hrun₄]
          have hpure : (Node.node c.key c.value l r c.clean c.depth).insert key value =
              .ok (Node.rotate (.node c.key c.writable.value l r₁ false c.depth)) := by
            simp [Node.insert, hcmp, hins, Cell.writable]
          rw [hpure]
          exact (RootResult.trans (hW.mono (List.forall_mem_nil _)) hF (RootResult.trans hW₃ hF₃ hres₄)).result
    · -- the key is present
      have hpure : (Node.node c.key c.value l r c.clean c.depth).insert key value =
          .error (.alreadyExists key) := by
        simp [Node.insert, hcmp]
      rw [hpure]
      exact ⟨rfl, Within.refl _ _⟩
    · -- the key is on the left
      dsimp only
      have ih := @ihl f _ _ _ hR.left (by omega)
      rw [bind_of_ok hw, bind_of_ok (deref_of hR.cell)]
      dsimp only
      cases hins : l.insert key value with
      | error e =>
        rw [hins] at ih
        cases hh : insert f c.writable.left key value s₁ with
        | ok => rw [hh] at ih; exact ih.elim
        | error e' s₂ =>
          rw [hh] at ih
          obtain ⟨rfl, hW₂⟩ := ih
          rw [bind_of_error hh]
          have hpure : (Node.node c.key c.value l r c.clean c.depth).insert key value = .error e := by
            simp [Node.insert, hcmp, hins]
          rw [hpure]
          exact ⟨rfl, hW.trans hW₂ (List.forall_mem_nil _)⟩
      | ok l₁ =>
        rw [hins] at ih
        cases hh : insert f c.writable.left key value s₁ with
        | error => rw [hh] at ih; exact ih.elim
        | ok q₁ s₂ =>
          rw [hh] at ih
          obtain ⟨Dl', ho₂, hW₂, hF₂⟩ := ih
          obtain ⟨hR₃, hW₃, hF₃⟩ := hR.setLeft ho₂ hW₂ hF₂
          obtain ⟨b₄, s₄, hrun₄, hres₄⟩ := rotate_spec hR₃
          rw [bind_of_ok hh, bind_of_ok (modifyCell_of (hW₂.cell_of_not_mem hR.cell
            hR.not_mem_left) _), bind_of_ok hrun₄]
          have hpure : (Node.node c.key c.value l r c.clean c.depth).insert key value =
              .ok (Node.rotate (.node c.key c.writable.value l₁ r false c.depth)) := by
            simp [Node.insert, hcmp, hins, Cell.writable]
          rw [hpure]
          exact (RootResult.trans (hW.mono (List.forall_mem_nil _)) hF (RootResult.trans hW₃ hF₃ hres₄)).result

omit [Ord K] [Value V] in
/-- The node returned after a write of one of its children. -/
theorem Root.rootResult_of {s s₁ : Store K V} {p : Nat} {c : Cell K V} {l r : Node K V}
    {D Dl Dr : List Nat} (h : Root s₁ p c l r Dl Dr) (hW : Within D s s₁)
    (hF : FromOrFresh D s (p :: (Dl ++ Dr))) :
    RootResult D s (.node c.key c.value l r false c.depth) p s₁ :=
  ⟨c, l, r, Dl, Dr, h, rfl, hW, hF⟩

/-- **`update` computes `Node.update`** on an owned tree, given fuel above its height. -/
theorem update_spec (key : K) (value : V) {t : Node K V} :
    ∀ {fuel : Nat} {s : Store K V} {q : Option Nat} {D : List Nat}, Owns s q t D →
      t.height < fuel → Simulates D s (t.update key value) (update fuel q key value s) := by
  induction t with
  | nil =>
    intro fuel s q D h hf
    cases h
    obtain ⟨f, rfl⟩ : ∃ f, fuel = f + 1 := ⟨fuel - 1, by simp at hf; omega⟩
    exact ⟨rfl, Within.refl _ _⟩
  | node k v l r cl d ihl ihr =>
    intro fuel s q D h hf
    obtain ⟨f, rfl⟩ : ∃ f, fuel = f + 1 := ⟨fuel - 1, by simp at hf; omega⟩
    simp only [Node.height_node] at hf
    obtain ⟨p, rfl⟩ := h.some_of_ne_nil Node.node_ne_nil
    -- the node is made writable before the comparison
    obtain ⟨c, l', r', Dl, Dr, b, s₁, hc, ht, hw, hR, hW, hF⟩ := writable_spec h
    simp only [Node.node.injEq] at ht
    obtain ⟨rfl, rfl, rfl, rfl, rfl, rfl⟩ := ht
    rw [update, bind_of_ok hw, bind_of_ok (deref_of hR.cell)]
    dsimp only
    rw [Cell.writable_key]
    rcases hcmp : compare c.key key
    · -- the key is on the right
      dsimp only
      have ih := @ihr f _ _ _ hR.right (by omega)
      cases hupd : r.update key value with
      | error e =>
        rw [hupd] at ih
        cases hh : update f c.writable.right key value s₁ with
        | ok => rw [hh] at ih; exact ih.elim
        | error e' s₂ =>
          rw [hh] at ih
          obtain ⟨rfl, hW₂⟩ := ih
          rw [bind_of_error hh]
          have hpure : (Node.node c.key c.value l r c.clean c.depth).update key value = .error e := by
            simp [Node.update, hcmp, hupd]
          rw [hpure]
          exact ⟨rfl, hW.trans hW₂ (List.forall_mem_nil _)⟩
      | ok r₁ =>
        rw [hupd] at ih
        cases hh : update f c.writable.right key value s₁ with
        | error => rw [hh] at ih; exact ih.elim
        | ok q₁ s₂ =>
          rw [hh] at ih
          obtain ⟨Dr', ho₂, hW₂, hF₂⟩ := ih
          obtain ⟨hR₃, hW₃, hF₃⟩ := hR.setRight ho₂ hW₂ hF₂
          rw [bind_of_ok hh, bind_of_ok (modifyCell_of (hW₂.cell_of_not_mem hR.cell
            hR.not_mem_right) _)]
          have hpure : (Node.node c.key c.value l r c.clean c.depth).update key value =
              .ok (.node c.key c.writable.value l r₁ false c.depth) := by
            simp [Node.update, hcmp, hupd, Cell.writable]
          rw [hpure]
          exact (RootResult.trans (hW.mono (List.forall_mem_nil _)) hF (hR₃.rootResult_of hW₃ hF₃)).result
    · -- the key is here: the copy takes the new value
      dsimp only
      rw [bind_of_ok (modifyCell_of hR.cell _)]
      have hpure : (Node.node c.key c.value l r c.clean c.depth).update key value =
          .ok (.node c.key value l r false c.depth) := by
        simp [Node.update, hcmp]
      rw [hpure]
      have hR₂ : Root (s₁.set b { c.writable with value := value }) b
          { c.writable with value := value } l r Dl Dr :=
        Root.set hR.cell rfl rfl hR.left hR.right hR.not_mem_left hR.not_mem_right hR.disjoint
      exact (hR₂.rootResult_of ((hW.mono (List.forall_mem_nil _)).set_of (hF b List.mem_cons_self) _) hF).result
    · -- the key is on the left
      dsimp only
      have ih := @ihl f _ _ _ hR.left (by omega)
      cases hupd : l.update key value with
      | error e =>
        rw [hupd] at ih
        cases hh : update f c.writable.left key value s₁ with
        | ok => rw [hh] at ih; exact ih.elim
        | error e' s₂ =>
          rw [hh] at ih
          obtain ⟨rfl, hW₂⟩ := ih
          rw [bind_of_error hh]
          have hpure : (Node.node c.key c.value l r c.clean c.depth).update key value = .error e := by
            simp [Node.update, hcmp, hupd]
          rw [hpure]
          exact ⟨rfl, hW.trans hW₂ (List.forall_mem_nil _)⟩
      | ok l₁ =>
        rw [hupd] at ih
        cases hh : update f c.writable.left key value s₁ with
        | error => rw [hh] at ih; exact ih.elim
        | ok q₁ s₂ =>
          rw [hh] at ih
          obtain ⟨Dl', ho₂, hW₂, hF₂⟩ := ih
          obtain ⟨hR₃, hW₃, hF₃⟩ := hR.setLeft ho₂ hW₂ hF₂
          rw [bind_of_ok hh, bind_of_ok (modifyCell_of (hW₂.cell_of_not_mem hR.cell
            hR.not_mem_left) _)]
          have hpure : (Node.node c.key c.value l r c.clean c.depth).update key value =
              .ok (.node c.key c.writable.value l₁ r false c.depth) := by
            simp [Node.update, hcmp, hupd, Cell.writable]
          rw [hpure]
          exact (RootResult.trans (hW.mono (List.forall_mem_nil _)) hF (hR₃.rootResult_of hW₃ hF₃)).result

/-- The case of `remove` that finds the key at a node with two children: the node takes the
key and value of its predecessor, found by `replace` in a new copy of its left child. -/
theorem remove_children_spec {s : Store K V} {p : Nat} {key k : K} {v : V} {l r : Node K V}
    {cl : Bool} {d f : Nat} {D : List Nat} (h : Owns s (some p) (.node k v l r cl d) D)
    (hcmp : compare k key = .eq) (hl : l ≠ .nil) (hr : r ≠ .nil) (hf : l.height < f) :
    Simulates D s ((Node.node k v l r cl d).remove key) (remove (f + 1) (some p) key s) := by
  obtain ⟨c, l', r', Dl, Dr, b, s₁, hc, ht, hw, hR, hW, hF⟩ := writable_spec h
  simp only [Node.node.injEq] at ht
  obtain ⟨rfl, rfl, rfl, rfl, rfl, rfl⟩ := ht
  obtain ⟨la, hla⟩ : ∃ la, c.left = some la := hR.left.some_of_ne_nil hl
  obtain ⟨ra, hra⟩ : ∃ ra, c.right = some ra := hR.right.some_of_ne_nil hr
  obtain ⟨rk, rv, rl, rr, rc, rd, rfl⟩ : ∃ rk rv rl rr rc rd, r = .node rk rv rl rr rc rd := by
    cases r with
    | nil => exact absurd rfl hr
    | node rk rv rl rr rc rd => exact ⟨rk, rv, rl, rr, rc, rd, rfl⟩
  have hlo : Owns s₁ (some la) l Dl := hla ▸ hR.left
  obtain ⟨lc, ll, lr, Dll, Dlr, hlc, rfl, hll, hlr, hsub, hdisj⟩ := hlo.inv_some
  -- the new copy of the left child, a dirty root owning the grandchildren
  set dc : Cell K V := { lc with value := Value.clone lc.value, clean := false } with hdc
  have hDll : ∀ x ∈ Dll, x < s₁.next := fun _ hx => hll.lt_next_of_mem hx
  have hDlr : ∀ x ∈ Dlr, x < s₁.next := fun _ hx => hlr.lt_next_of_mem hx
  have hR₂ : Root (s₁.push dc) s₁.next dc ll lr Dll Dlr :=
    ⟨Store.push_cells_next _ _, rfl, hll.congr (Agree.push _ _ _), hlr.congr (Agree.push _ _ _),
      fun hx => Nat.lt_irrefl _ (hDll _ hx), fun hx => Nat.lt_irrefl _ (hDlr _ hx), hdisj⟩
  obtain ⟨q', pa, s₃, D', pcell, hrun₃, ho₃, hW₃, hF₃, hpa, -, -, pl₀, pr₀, pd₀, hpred⟩ :=
    replace_spec hR₂ (show lr.height < f by simp at hf; omega)
  -- the records `replace` may write lie outside `b` and the right subtree
  have hsep : (s₁.next :: (Dll ++ Dlr)).Disjoint (b :: Dr) := by
    intro x hx hx'
    rcases List.mem_cons.1 hx with rfl | hx
    · rcases List.mem_cons.1 hx' with h' | h'
      · exact Nat.lt_irrefl _ (h' ▸ Store.lt_next_of_cells hR.cell)
      · exact Nat.lt_irrefl _ (hR.right.lt_next_of_mem h')
    · rcases List.mem_cons.1 hx' with rfl | h'
      · exact hR.not_mem_left (hsub _ hx)
      · exact hR.disjoint (hsub _ hx) h'
  simp only [List.disjoint_cons_left, List.disjoint_cons_right, List.mem_cons, List.mem_append,
    List.disjoint_append_left, not_or] at hsep
  obtain ⟨⟨hnb, hbll, hblr⟩, hnr, hllr, hlrr⟩ := hsep
  have hbD : b ∉ s₁.next :: (Dll ++ Dlr) := by simp [hnb, hbll, hblr]
  have hb₃ : s₃.cells b = some c.writable := by
    refine hW₃.cell_of_not_mem ?_ hbD
    rw [Store.push_cells_of_ne _ _ hnb]
    exact hR.cell
  have hlt : ∀ x, x < s₁.next → x < (s₁.push dc).next := fun _ hx => by
    rw [Store.push_next]
    omega
  have hbD' : b ∉ D' := hF₃.not_mem hbD (hlt _ (Store.lt_next_of_cells hR.cell))
  have hr₃ : Owns s₃ c.right (.node rk rv rl rr rc rd) Dr := by
    refine (hR.right.congr (Agree.push _ _ _)).congr (hW₃.agree ?_ ?_)
    · intro x hx
      rcases List.mem_cons.1 hx with rfl | hx
      · exact ⟨dc, Store.push_cells_next _ _, rfl⟩
      · rcases List.mem_append.1 hx with hx | hx
        · exact hR₂.left.dirty_of_mem hx
        · exact hR₂.right.dirty_of_mem hx
    · simp [hnr, hllr, hlrr]
  have hD'r : D'.Disjoint Dr :=
    hF₃.disjoint (fun _ hy => hlt _ (hR.right.lt_next_of_mem hy)) (by simp [hnr, hllr, hlrr])
  -- the node takes the predecessor's entry, then the new left subtree
  set c₄ : Cell K V := { c.writable with key := pcell.key, value := pcell.value } with hc₄
  have hd₃ : Dirty s₃ b := ⟨_, hb₃, rfl⟩
  have hR₅ : Root ((s₃.set b c₄).set b { c₄ with left := q' }) b { c₄ with left := q' }
      (Node.replace lr (.node dc.key dc.value ll lr false dc.depth)).1
      (.node rk rv rl rr rc rd) D' Dr :=
    Root.set (Store.set_cells_self (by simp [hb₃]) c₄) rfl rfl
      (ho₃.congr (Agree.set hd₃ hbD' c₄)) (hr₃.congr (Agree.set hd₃ hR.not_mem_right c₄))
      hbD' hR.not_mem_right hD'r
  obtain ⟨b₆, s₆, hrun₆, hres₆⟩ := fixDepthAndRotate_spec hR₅
  have hF₂ : FromOrFresh D s (s₁.next :: (Dll ++ Dlr)) := by
    intro x hx
    rcases List.mem_cons.1 hx with rfl | hx
    · exact Or.inr hW.next_le
    · exact hF x (List.mem_cons_of_mem _ (List.mem_append_left _ (hsub _ hx)))
  have hWs₃ : Within D s s₃ :=
    (((hW.mono nofun).trans (Within.push [] s₁ dc) nofun).trans hW₃ hF₂)
  have hFb := hF b List.mem_cons_self
  have hF₅ : FromOrFresh D s (b :: (D' ++ Dr)) := by
    intro x hx
    rcases List.mem_cons.1 hx with rfl | hx
    · exact hFb
    · rcases List.mem_append.1 hx with hx | hx
      · exact hF₂.trans hF₃ (fun _ hx => hx) (hW.next_le.trans (Nat.le_succ _)) x hx
      · exact hF x (List.mem_cons_of_mem _ (List.mem_append_right _ hx))
  have hres := (RootResult.trans ((hWs₃.set_of hFb c₄).set_of hFb _) hF₅ hres₆).result
  -- the program runs through to `fixDepthAndRotate`
  rw [remove, bind_of_ok hw, bind_of_ok (deref_of hR.cell)]
  dsimp only
  rw [Cell.writable_key, hcmp]
  dsimp only
  simp only [Cell.writable_left, Cell.writable_right, hla, hra]
  rw [bind_of_ok (deref_of hlc)]
  dsimp only
  rw [bind_of_ok (show newDirtyNode lc s₁ = .ok s₁.next (s₁.push dc) from rfl),
    bind_of_ok (deref_of hR₂.cell)]
  dsimp only
  rw [bind_of_ok hrun₃]
  dsimp only
  rw [bind_of_ok (deref_of hpa)]
  dsimp only
  rw [bind_of_ok (modifyCell_of hb₃ _), bind_of_ok (modifyCell_of (Store.set_cells_self
    (by simp [hb₃]) c₄) _), hrun₆]
  -- the value call takes the same predecessor
  have hrep : Node.replace lr (.node lc.key (Value.clone lc.value) ll lr false lc.depth) =
      ((Node.replace lr (.node lc.key (Value.clone lc.value) ll lr false lc.depth)).1,
        .node pcell.key pcell.value pl₀ pr₀ false pd₀) := Prod.ext rfl hpred
  have hpure : (Node.node c.key c.value (.node lc.key lc.value ll lr lc.clean lc.depth)
      (.node rk rv rl rr rc rd) c.clean c.depth).remove key =
      .ok (Node.rotate (.node pcell.key pcell.value
        (Node.replace lr (.node lc.key (Value.clone lc.value) ll lr false lc.depth)).1
        (.node rk rv rl rr rc rd) false
        (max (Node.replace lr (.node lc.key (Value.clone lc.value) ll lr false lc.depth)).1.depth
          rd + 1))) := by
    simp only [Node.remove, hcmp, Node.newDirtyNode, Node.right_node]
    rw [hrep]
    simp
  rw [hpure]
  exact hres

/-- **`remove` computes `Node.remove`** on an owned tree, given fuel above its height. -/
theorem remove_spec (key : K) {t : Node K V} :
    ∀ {fuel : Nat} {s : Store K V} {q : Option Nat} {D : List Nat}, Owns s q t D →
      t.height < fuel → Simulates D s (t.remove key) (remove fuel q key s) := by
  induction t with
  | nil =>
    intro fuel s q D h hf
    cases h
    obtain ⟨f, rfl⟩ : ∃ f, fuel = f + 1 := ⟨fuel - 1, by simp at hf; omega⟩
    exact ⟨rfl, Within.refl _ _⟩
  | node k v l r cl d ihl ihr =>
    intro fuel s q D h hf
    obtain ⟨f, rfl⟩ : ∃ f, fuel = f + 1 := ⟨fuel - 1, by simp at hf; omega⟩
    simp only [Node.height_node] at hf
    obtain ⟨p, rfl⟩ := h.some_of_ne_nil Node.node_ne_nil
    -- the key found at a node with two children is the case of its own
    by_cases htwo : compare k key = .eq ∧ l ≠ .nil ∧ r ≠ .nil
    · exact remove_children_spec h htwo.1 htwo.2.1 htwo.2.2 (by omega)
    obtain ⟨c, l', r', Dl, Dr, b, s₁, hc, ht, hw, hR, hW, hF⟩ := writable_spec h
    simp only [Node.node.injEq] at ht
    obtain ⟨rfl, rfl, rfl, rfl, rfl, rfl⟩ := ht
    rw [remove, bind_of_ok hw, bind_of_ok (deref_of hR.cell)]
    dsimp only
    rw [Cell.writable_key]
    rcases hcmp : compare c.key key
    · -- the key is on the right: remove there, write back, fix the depth and rotate
      dsimp only
      have ih := @ihr f _ _ _ hR.right (by omega)
      cases hrem : r.remove key with
      | error e =>
        rw [hrem] at ih
        obtain ⟨s₂, hh, hW₂⟩ := ih.error_inv
        rw [bind_of_error hh]
        have hpure : (Node.node c.key c.value l r c.clean c.depth).remove key = .error e := by
          simp [Node.remove, hcmp, hrem]
        rw [hpure]
        exact ⟨rfl, hW.trans hW₂ (List.forall_mem_nil _)⟩
      | ok r₁ =>
        rw [hrem] at ih
        obtain ⟨q₁, s₂, hh, Dr', ho₂, hW₂, hF₂⟩ := ih.ok_inv
        obtain ⟨hR₃, hW₃, hF₃⟩ := hR.setRight ho₂ hW₂ hF₂
        obtain ⟨b₄, s₄, hrun₄, hres₄⟩ := fixDepthAndRotate_spec hR₃
        rw [bind_of_ok hh, bind_of_ok (modifyCell_of (hW₂.cell_of_not_mem hR.cell
          hR.not_mem_right) _), hrun₄]
        have hpure : (Node.node c.key c.value l r c.clean c.depth).remove key =
            .ok (Node.rotate (.node c.key c.writable.value l r₁ false (max l.depth r₁.depth + 1))) := by
          simp [Node.remove, hcmp, hrem, Cell.writable]
        rw [hpure]
        exact (RootResult.trans (hW.mono (List.forall_mem_nil _)) hF (RootResult.trans hW₃ hF₃ hres₄)).result
    · -- the key is here, at a node with at most one child: that child replaces it
      dsimp only
      have hone : l = .nil ∨ r = .nil := by
        by_cases hl : l = .nil
        · exact Or.inl hl
        · by_cases hr : r = .nil
          · exact Or.inr hr
          · exact absurd ⟨hcmp, hl, hr⟩ htwo
      have hDl : FromOrFresh D s Dl := fun x hx => hF x (by simp [hx])
      have hDr : FromOrFresh D s Dr := fun x hx => hF x (by simp [hx])
      rcases hone with rfl | rfl
      · obtain ⟨hln, rfl⟩ := Owns.inv_nil hR.left
        simp only [Cell.writable_left, Cell.writable_right] at hln ⊢
        rw [hln]
        cases r with
        | nil =>
          obtain ⟨hrn, rfl⟩ := Owns.inv_nil hR.right
          rw [show c.right = none from hrn]
          have hpure : (Node.node c.key c.value .nil .nil c.clean c.depth).remove key = .ok .nil := by
            simp [Node.remove, hcmp]
          rw [hpure]
          exact ⟨[], .nil, hW.mono (List.forall_mem_nil _), (List.forall_mem_nil _)⟩
        | node rk rv rl rr rc rd =>
          obtain ⟨ra, hra⟩ := hR.right.some_of_ne_nil Node.node_ne_nil
          have hra' : c.right = some ra := hra
          rw [hra']
          have hpure : (Node.node c.key c.value .nil (.node rk rv rl rr rc rd) c.clean c.depth).remove
              key = .ok (.node rk rv rl rr rc rd) := by
            simp [Node.remove, hcmp]
          rw [hpure]
          exact ⟨Dr, hra' ▸ hR.right, hW.mono (List.forall_mem_nil _), hDr⟩
      · obtain ⟨hrn, rfl⟩ := Owns.inv_nil hR.right
        simp only [Cell.writable_left, Cell.writable_right] at hrn ⊢
        rw [hrn]
        cases l with
        | nil =>
          obtain ⟨hln, rfl⟩ := Owns.inv_nil hR.left
          rw [show c.left = none from hln]
          have hpure : (Node.node c.key c.value .nil .nil c.clean c.depth).remove key = .ok .nil := by
            simp [Node.remove, hcmp]
          rw [hpure]
          exact ⟨[], .nil, hW.mono (List.forall_mem_nil _), (List.forall_mem_nil _)⟩
        | node lk lv ll lr lc ld =>
          obtain ⟨la, hla⟩ := hR.left.some_of_ne_nil Node.node_ne_nil
          have hla' : c.left = some la := hla
          rw [hla']
          have hpure : (Node.node c.key c.value (.node lk lv ll lr lc ld) .nil c.clean c.depth).remove
              key = .ok (.node lk lv ll lr lc ld) := by
            simp [Node.remove, hcmp]
          rw [hpure]
          exact ⟨Dl, hla' ▸ hR.left, hW.mono (List.forall_mem_nil _), hDl⟩
    · -- the key is on the left
      dsimp only
      have ih := @ihl f _ _ _ hR.left (by omega)
      cases hrem : l.remove key with
      | error e =>
        rw [hrem] at ih
        obtain ⟨s₂, hh, hW₂⟩ := ih.error_inv
        rw [bind_of_error hh]
        have hpure : (Node.node c.key c.value l r c.clean c.depth).remove key = .error e := by
          simp [Node.remove, hcmp, hrem]
        rw [hpure]
        exact ⟨rfl, hW.trans hW₂ (List.forall_mem_nil _)⟩
      | ok l₁ =>
        rw [hrem] at ih
        obtain ⟨q₁, s₂, hh, Dl', ho₂, hW₂, hF₂⟩ := ih.ok_inv
        obtain ⟨hR₃, hW₃, hF₃⟩ := hR.setLeft ho₂ hW₂ hF₂
        obtain ⟨b₄, s₄, hrun₄, hres₄⟩ := fixDepthAndRotate_spec hR₃
        rw [bind_of_ok hh, bind_of_ok (modifyCell_of (hW₂.cell_of_not_mem hR.cell
          hR.not_mem_left) _), hrun₄]
        have hpure : (Node.node c.key c.value l r c.clean c.depth).remove key =
            .ok (Node.rotate (.node c.key c.writable.value l₁ r false (max l₁.depth r.depth + 1))) := by
          simp [Node.remove, hcmp, hrem, Cell.writable]
        rw [hpure]
        exact (RootResult.trans (hW.mono (List.forall_mem_nil _)) hF (RootResult.trans hW₃ hF₃ hres₄)).result

end Calls

end BftCore.Avl.Heap
