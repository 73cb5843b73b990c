import BftCore.Avl.Heap
import BftCore.Avl.Map

/-!
# `tree/avl`: copy-on-write leaves clean records alone

Every write of the tree functions goes to a record whose clean flag is off: a function copies
a clean record with `newDirtyNode` before it writes it.  `Frame s s'` states what this gives
between two stores: every clean record keeps all its fields, and every dirty record stays
allocated and dirty.  It is a preorder, and each function of `BftCore.Avl.Heap` ends, returning
or failing, in a store framed by the one it started in (`keeps_insert`, `keeps_remove`, …).

* `Keeps x s Q`: `x` run from `s` ends in a store framed by `s`, and `Q` holds on a return;
  `Keeps.bind` composes it along a program;
* `Repr.of_frame`: a pointer whose tree is all clean denotes the same tree in a framed store;
* `run_clone_frame`: a sequence of calls on the clone of a committed tree changes no clean
  record, so the tree keeps its shape and its entries.
-/

namespace BftCore.Avl.Heap

open EStateM

variable {K V α β : Type}

/-- The record at `a` is allocated and dirty. -/
def Dirty (s : Store K V) (a : Nat) : Prop := ∃ c, s.cells a = some c ∧ c.clean = false

/-- What a tree call may do to the store: clean records keep every field, dirty records stay
allocated and dirty. -/
structure Frame (s s' : Store K V) : Prop where
  clean_eq : ∀ a c, s.cells a = some c → c.clean = true → s'.cells a = some c
  dirty : ∀ a, Dirty s a → Dirty s' a

namespace Frame

@[refl] theorem refl (s : Store K V) : Frame s s := ⟨fun _ _ h _ => h, fun _ h => h⟩

theorem trans {s₁ s₂ s₃ : Store K V} (h₁ : Frame s₁ s₂) (h₂ : Frame s₂ s₃) : Frame s₁ s₃ :=
  ⟨fun a c hc hcl => h₂.clean_eq a c (h₁.clean_eq a c hc hcl) hcl,
    fun a ha => h₂.dirty a (h₁.dirty a ha)⟩

/-- Writing a dirty record with a dirty one. -/
theorem set {s : Store K V} {a : Nat} (ha : Dirty s a) {c' : Cell K V} (hc' : c'.clean = false) :
    Frame s (s.set a c') := by
  obtain ⟨c, hc, hcl⟩ := ha
  have hsome : (s.cells a).isSome := by simp [hc]
  constructor
  · intro b cb hb hbcl
    have hne : b ≠ a := by
      rintro rfl
      rw [hc] at hb
      cases hb
      simp_all
    rw [Store.set_cells_of_ne s c' hne]
    exact hb
  · rintro b ⟨cb, hb, hbcl⟩
    by_cases hba : b = a
    · subst hba
      exact ⟨c', Store.set_cells_self hsome c', hc'⟩
    · exact ⟨cb, by rw [Store.set_cells_of_ne s c' hba]; exact hb, hbcl⟩

/-- Allocation touches no allocated record. -/
theorem push (s : Store K V) (c : Cell K V) : Frame s (s.push c) := by
  have hne : ∀ b (cb : Cell K V), s.cells b = some cb → b ≠ s.next := fun b cb hb h =>
    (Nat.lt_irrefl _ (h ▸ Store.lt_next_of_cells hb))
  constructor
  · intro b cb hb _
    rw [Store.push_cells_of_ne s c (hne b cb hb)]
    exact hb
  · rintro b ⟨cb, hb, hbcl⟩
    exact ⟨cb, by rw [Store.push_cells_of_ne s c (hne b cb hb)]; exact hb, hbcl⟩

end Frame

/-- `x` run from `s` ends, returning or failing, in a store framed by `s`, and on a return
`Q` holds. -/
def Keeps (x : StoreM K V α) (s : Store K V) (Q : α → Store K V → Prop) : Prop :=
  wp x (fun a s' => Frame s s' ∧ Q a s') (fun _ s' => Frame s s') s

namespace Keeps

theorem pure {a : α} {s : Store K V} {Q : α → Store K V → Prop} (h : Q a s) :
    Keeps (Pure.pure a) s Q :=
  ⟨Frame.refl s, h⟩

theorem throw {e : StoreError K} {s : Store K V} {Q : α → Store K V → Prop} :
    Keeps (MonadExcept.throw e) s Q :=
  Frame.refl s

/-- Sequencing: the frame composes, and the second program starts where the first returned. -/
theorem bind {x : StoreM K V α} {f : α → StoreM K V β} {s : Store K V}
    {Q : α → Store K V → Prop} {R : β → Store K V → Prop} (hx : Keeps x s Q)
    (hf : ∀ a s', Frame s s' → Q a s' → Keeps (f a) s' R) : Keeps (x >>= f) s R := by
  unfold Keeps at hx ⊢
  rw [wp_bind]
  refine wp_mono hx ?_ (fun _ _ h => h)
  rintro a s' ⟨hfr, hq⟩
  exact wp_mono (hf a s' hfr hq) (fun _ _ h => ⟨hfr.trans h.1, h.2⟩) (fun _ _ h => hfr.trans h)

theorem mono {x : StoreM K V α} {s : Store K V} {Q Q' : α → Store K V → Prop}
    (h : Keeps x s Q) (hQ : ∀ a s', Q a s' → Q' a s') : Keeps x s Q' :=
  wp_mono h (fun a s' h => ⟨h.1, hQ a s' h.2⟩) (fun _ _ h => h)

end Keeps

/-! ### The primitives -/

theorem keeps_deref (p : Option Nat) (s : Store K V) :
    Keeps (deref p) s (fun r s' => s' = s ∧ p = some r.1 ∧ s.cells r.1 = some r.2) := by
  unfold Keeps wp deref
  rcases p with _ | a
  · exact Frame.refl s
  · dsimp only
    cases hc : s.cells a with
    | none => exact Frame.refl s
    | some c => exact ⟨Frame.refl s, rfl, rfl, hc⟩

/-- A write to a dirty record that keeps its clean flag. -/
theorem keeps_modifyCell {a : Nat} {f : Cell K V → Cell K V} {s : Store K V} (ha : Dirty s a)
    (hf : ∀ c, (f c).clean = c.clean) : Keeps (modifyCell a f) s (fun _ _ => True) := by
  unfold modifyCell
  refine Keeps.bind (keeps_deref _ s) ?_
  rintro ⟨a', c⟩ s' _ ⟨rfl, ha', hc⟩
  cases ha'
  obtain ⟨c₀, hc₀, hcl⟩ := ha
  rw [hc] at hc₀
  cases hc₀
  exact ⟨Frame.set ⟨c, hc, hcl⟩ (by rw [hf]; exact hcl), trivial⟩

theorem keeps_alloc {c : Cell K V} (hc : c.clean = false) (s : Store K V) :
    Keeps (alloc c) s (fun a s' => Dirty s' a) :=
  ⟨Frame.push s c, c, Store.push_cells_next s c, hc⟩

theorem keeps_depthOf (p : Option Nat) (s : Store K V) :
    Keeps (depthOf p) s (fun _ s' => s' = s) := by
  rcases p with _ | a
  · exact Keeps.pure rfl
  · refine Keeps.bind (keeps_deref _ s) ?_
    rintro ⟨_, c⟩ s' _ ⟨rfl, -, -⟩
    exact Keeps.pure rfl

theorem keeps_calculateDepth (a : Nat) (s : Store K V) :
    Keeps (calculateDepth a) s (fun _ s' => s' = s) := by
  refine Keeps.bind (keeps_deref _ s) ?_
  rintro ⟨_, c⟩ s' _ ⟨rfl, -, -⟩
  refine Keeps.bind (keeps_depthOf _ s') ?_
  rintro _ s'' _ rfl
  refine Keeps.bind (keeps_depthOf _ s'') ?_
  rintro _ s''' _ rfl
  exact Keeps.pure rfl

/-- The common tail of `rotate`: the depth of the new root is recomputed. -/
theorem keeps_fixDepth {p : Nat} {s : Store K V} (hp : Dirty s p) :
    Keeps (do
        let d ← calculateDepth p
        modifyCell p fun c => { c with depth := d }
        pure p) s (fun b s' => Dirty s' b) := by
  refine Keeps.bind (keeps_calculateDepth _ _) ?_
  rintro d s₁ _ rfl
  refine Keeps.bind (keeps_modifyCell hp (fun _ => rfl)) ?_
  rintro _ s₂ h₂ -
  exact Keeps.pure (h₂.dirty _ hp)

section Writable

variable [Value V]

theorem keeps_newDirtyNode (c : Cell K V) (s : Store K V) :
    Keeps (newDirtyNode c) s (fun a s' => Dirty s' a) :=
  keeps_alloc rfl s

/-- `writable` returns a dirty record. -/
theorem keeps_writable (a : Nat) (s : Store K V) :
    Keeps (writable a) s (fun b s' => Dirty s' b) := by
  refine Keeps.bind (keeps_deref _ s) ?_
  rintro ⟨a', c⟩ s' _ ⟨rfl, ha, hc⟩
  cases ha
  dsimp only
  cases hcl : c.clean
  · exact Keeps.pure ⟨c, hc, hcl⟩
  · exact keeps_newDirtyNode c _

/-- `rotateRight` writes the copies it makes and returns a dirty record. -/
theorem keeps_rotateRight (n : Nat) (s : Store K V) :
    Keeps (rotateRight n) s (fun b s' => Dirty s' b) := by
  refine Keeps.bind (keeps_deref _ s) ?_
  rintro ⟨_, nc⟩ s₁ _ ⟨rfl, -, -⟩
  refine Keeps.bind (keeps_writable n _) ?_
  rintro node s₂ _ hnode
  refine Keeps.bind (keeps_deref _ _) ?_
  rintro ⟨tmp, _⟩ s₃ _ ⟨rfl, -, -⟩
  refine Keeps.bind (keeps_writable tmp _) ?_
  rintro tmp s₄ h₄ htmp
  refine Keeps.bind (keeps_deref _ _) ?_
  rintro ⟨_, tc⟩ s₅ _ ⟨rfl, -, -⟩
  refine Keeps.bind (keeps_modifyCell (h₄.dirty _ hnode) (fun _ => rfl)) ?_
  rintro _ s₆ h₆ -
  refine Keeps.bind (keeps_calculateDepth _ _) ?_
  rintro d s₇ _ rfl
  refine Keeps.bind (keeps_modifyCell (h₆.dirty _ (h₄.dirty _ hnode)) (fun _ => rfl)) ?_
  rintro _ s₈ h₈ -
  refine Keeps.bind (keeps_modifyCell ((h₆.trans h₈).dirty _ htmp) (fun _ => rfl)) ?_
  rintro _ s₉ h₉ -
  exact Keeps.pure ((h₆.trans (h₈.trans h₉)).dirty _ htmp)

/-- `rotateLeft` writes the copies it makes and returns a dirty record. -/
theorem keeps_rotateLeft (n : Nat) (s : Store K V) :
    Keeps (rotateLeft n) s (fun b s' => Dirty s' b) := by
  refine Keeps.bind (keeps_deref _ s) ?_
  rintro ⟨_, nc⟩ s₁ _ ⟨rfl, -, -⟩
  refine Keeps.bind (keeps_writable n _) ?_
  rintro node s₂ _ hnode
  refine Keeps.bind (keeps_deref _ _) ?_
  rintro ⟨tmp, _⟩ s₃ _ ⟨rfl, -, -⟩
  refine Keeps.bind (keeps_writable tmp _) ?_
  rintro tmp s₄ h₄ htmp
  refine Keeps.bind (keeps_deref _ _) ?_
  rintro ⟨_, tc⟩ s₅ _ ⟨rfl, -, -⟩
  refine Keeps.bind (keeps_modifyCell (h₄.dirty _ hnode) (fun _ => rfl)) ?_
  rintro _ s₆ h₆ -
  refine Keeps.bind (keeps_calculateDepth _ _) ?_
  rintro d s₇ _ rfl
  refine Keeps.bind (keeps_modifyCell (h₆.dirty _ (h₄.dirty _ hnode)) (fun _ => rfl)) ?_
  rintro _ s₈ h₈ -
  refine Keeps.bind (keeps_modifyCell ((h₆.trans h₈).dirty _ htmp) (fun _ => rfl)) ?_
  rintro _ s₉ h₉ -
  exact Keeps.pure ((h₆.trans (h₈.trans h₉)).dirty _ htmp)

/-- `rotate` of a dirty record writes dirty records only and returns a dirty record. -/
theorem keeps_rotate {p : Nat} {s : Store K V} (hp : Dirty s p) :
    Keeps (rotate p) s (fun b s' => Dirty s' b) := by
  refine Keeps.bind (keeps_deref _ s) ?_
  rintro ⟨_, pc⟩ s₁ _ ⟨rfl, -, -⟩
  refine Keeps.bind (keeps_depthOf _ _) ?_
  rintro ld s₂ _ rfl
  refine Keeps.bind (keeps_depthOf _ _) ?_
  rintro rd s₃ _ rfl
  dsimp only
  by_cases h₁ : ld > rd + 1
  · -- left-heavy: a left turn of the child if it leans right, then a right turn
    have h₂ : ¬ rd > ld + 1 := by omega
    simp only [h₁, h₂, if_true, if_false]
    refine Keeps.bind (keeps_deref _ _) ?_
    rintro ⟨l, lc⟩ s₄ _ ⟨rfl, -, -⟩
    refine Keeps.bind (keeps_depthOf _ _) ?_
    rintro lld s₅ _ rfl
    refine Keeps.bind (keeps_depthOf _ _) ?_
    rintro lrd s₆ _ rfl
    have hturn : ∀ s' : Store K V, Keeps (do
        let p ← rotateRight p
        let d ← calculateDepth p
        modifyCell p fun c => { c with depth := d }
        pure p) s' (fun b s' => Dirty s' b) := fun s' => by
      refine Keeps.bind (keeps_rotateRight p _) ?_
      rintro q s₇ _ hq
      exact keeps_fixDepth hq
    by_cases h₃ : lld < lrd
    · simp only [h₃, if_true]
      refine Keeps.bind (keeps_rotateLeft l _) ?_
      rintro l' s₇ h₇ -
      refine Keeps.bind (keeps_modifyCell (h₇.dirty _ hp) (fun _ => rfl)) ?_
      rintro _ s₈ _ -
      exact hturn s₈
    · simp only [h₃, if_false]
      exact hturn _
  · by_cases h₂ : rd > ld + 1
    · -- right-heavy: the mirror image
      simp only [h₁, h₂, if_true, if_false, pure_bind]
      refine Keeps.bind (keeps_deref _ _) ?_
      rintro ⟨_, pc'⟩ s₄ _ ⟨rfl, -, -⟩
      refine Keeps.bind (keeps_deref _ _) ?_
      rintro ⟨r, rc⟩ s₅ _ ⟨rfl, -, -⟩
      refine Keeps.bind (keeps_depthOf _ _) ?_
      rintro rld s₆ _ rfl
      refine Keeps.bind (keeps_depthOf _ _) ?_
      rintro rrd s₇ _ rfl
      have hturn : ∀ s' : Store K V, Keeps (do
          let p ← rotateLeft p
          let d ← calculateDepth p
          modifyCell p fun c => { c with depth := d }
          pure p) s' (fun b s' => Dirty s' b) := fun s' => by
        refine Keeps.bind (keeps_rotateLeft p _) ?_
        rintro q s₈ _ hq
        exact keeps_fixDepth hq
      by_cases h₃ : rld > rrd
      · simp only [h₃, if_true]
        refine Keeps.bind (keeps_rotateRight r _) ?_
        rintro r' s₈ h₈ -
        refine Keeps.bind (keeps_modifyCell (h₈.dirty _ hp) (fun _ => rfl)) ?_
        rintro _ s₉ _ -
        exact hturn s₉
      · simp only [h₃, if_false]
        exact hturn _
    · simp only [h₁, h₂, if_false, pure_bind]
      exact keeps_fixDepth hp

end Writable

section Calls

variable [Ord K] [Value V]

omit [Ord K] in
/-- The recursive step of `insert` on one side: a writable copy, the call on the child, the
write of the new child, and `rotate`. -/
theorem keeps_insert_step (child : Cell K V → Option Nat)
    (setChild : Option Nat → Cell K V → Cell K V) (hset : ∀ l c, (setChild l c).clean = c.clean)
    (call : Option Nat → StoreM K V (Option Nat))
    (hcall : ∀ q (s : Store K V), Keeps (call q) s (fun _ _ => True)) (p : Nat) (s : Store K V) :
    Keeps (do
        let p ← writable p
        let (_, c) ← deref (some p)
        let l ← call (child c)
        modifyCell p (setChild l)
        let p ← rotate p
        pure (some p)) s (fun _ _ => True) := by
  refine Keeps.bind (keeps_writable p s) ?_
  rintro q s₁ _ hq
  refine Keeps.bind (keeps_deref _ _) ?_
  rintro ⟨_, c⟩ s₂ _ ⟨rfl, -, -⟩
  refine Keeps.bind (hcall _ _) ?_
  rintro l s₃ h₃ -
  refine Keeps.bind (keeps_modifyCell (h₃.dirty _ hq) (hset l)) ?_
  rintro _ s₄ h₄ -
  refine Keeps.bind (keeps_rotate (h₄.dirty _ (h₃.dirty _ hq))) ?_
  rintro _ _ _ _
  exact Keeps.pure trivial

theorem keeps_insert (fuel : Nat) (p : Option Nat) (key : K) (value : V) (s : Store K V) :
    Keeps (insert fuel p key value) s (fun _ _ => True) := by
  induction fuel generalizing p s with
  | zero => exact Keeps.throw
  | succ fuel ih =>
    rcases p with _ | p
    · exact Keeps.bind (keeps_alloc rfl s) (fun _ _ _ _ => Keeps.pure trivial)
    · refine Keeps.bind (keeps_deref _ s) ?_
      rintro ⟨_, pc⟩ s₁ _ ⟨rfl, -, -⟩
      dsimp only
      split
      · exact Keeps.throw
      · exact keeps_insert_step (·.left) (fun l c => { c with left := l }) (fun _ _ => rfl)
          (fun q => insert fuel q key value) (fun q s => ih q s) p _
      · exact keeps_insert_step (·.right) (fun r c => { c with right := r }) (fun _ _ => rfl)
          (fun q => insert fuel q key value) (fun q s => ih q s) p _

omit [Ord K] [Value V] in
/-- The recursive step of `update` on one side. -/
theorem keeps_update_step (n : Nat)
    (setChild : Option Nat → Cell K V → Cell K V) (hset : ∀ l c, (setChild l c).clean = c.clean)
    (call : StoreM K V (Option Nat)) (s : Store K V) (hn : Dirty s n)
    (hcall : Keeps call s (fun _ _ => True)) :
    Keeps (do
        let l ← call
        modifyCell n (setChild l)
        pure (some n)) s (fun _ _ => True) := by
  refine Keeps.bind hcall ?_
  rintro l s₁ h₁ -
  refine Keeps.bind (keeps_modifyCell (h₁.dirty _ hn) (hset l)) ?_
  rintro _ _ _ _
  exact Keeps.pure trivial

theorem keeps_update (fuel : Nat) (p : Option Nat) (key : K) (value : V) (s : Store K V) :
    Keeps (Heap.update fuel p key value) s (fun _ _ => True) := by
  induction fuel generalizing p s with
  | zero => exact Keeps.throw
  | succ fuel ih =>
    rcases p with _ | n
    · exact Keeps.throw
    · refine Keeps.bind (keeps_writable n s) ?_
      rintro n s₁ _ hn
      refine Keeps.bind (keeps_deref _ _) ?_
      rintro ⟨_, c⟩ s₂ _ ⟨rfl, -, -⟩
      dsimp only
      split
      · exact keeps_update_step n (fun l c => { c with left := l }) (fun _ _ => rfl) _ _ hn
          (ih _ _)
      · exact keeps_update_step n (fun r c => { c with right := r }) (fun _ _ => rfl) _ _ hn
          (ih _ _)
      · refine Keeps.bind (keeps_modifyCell hn (fun _ => rfl)) ?_
        rintro _ _ _ _
        exact Keeps.pure trivial

omit [Ord K] in
/-- The tail of `replace`: `parent.right = child; parent.depth = calculateDepth(parent)` and
`rotate(parent)`. -/
theorem keeps_replace_tail {parent : Nat} {s : Store K V} (hp : Dirty s parent)
    (child : Option Nat) (pred : Nat) :
    Keeps (do
        modifyCell parent fun c => { c with right := child }
        let d ← calculateDepth parent
        modifyCell parent fun c => { c with depth := d }
        let parent ← rotate parent
        pure (some parent, pred)) s (fun _ _ => True) := by
  refine Keeps.bind (keeps_modifyCell hp (fun _ => rfl)) ?_
  rintro _ s₁ h₁ -
  refine Keeps.bind (keeps_calculateDepth _ _) ?_
  rintro d s₂ _ rfl
  refine Keeps.bind (keeps_modifyCell (h₁.dirty _ hp) (fun _ => rfl)) ?_
  rintro _ s₃ h₃ -
  refine Keeps.bind (keeps_rotate (h₃.dirty _ (h₁.dirty _ hp))) ?_
  rintro _ _ _ _
  exact Keeps.pure trivial

omit [Ord K] in
/-- The copy `replace` makes of its `node` is dirty, and so stays `parent`. -/
theorem keeps_writableRight {parent : Nat} (node : Nat) {s : Store K V} (hp : Dirty s parent) :
    Keeps (writableRight parent node) s (fun b s' => Dirty s' parent ∧ Dirty s' b) := by
  refine Keeps.bind (keeps_deref _ s) ?_
  rintro ⟨_, nc⟩ s₁ _ ⟨rfl, ha, hc⟩
  cases ha
  dsimp only at hc ⊢
  by_cases hcl : nc.clean = true
  · rw [if_pos hcl]
    refine Keeps.bind (keeps_newDirtyNode nc _) ?_
    rintro b s₂ h₂ hb
    refine Keeps.bind (keeps_modifyCell (h₂.dirty _ hp) (fun _ => rfl)) ?_
    rintro _ s₃ h₃ -
    exact Keeps.pure ⟨h₃.dirty _ (h₂.dirty _ hp), h₃.dirty _ hb⟩
  · rw [if_neg hcl]
    exact Keeps.pure ⟨hp, nc, hc, by simpa using hcl⟩

omit [Ord K] in
/-- `replace` writes its dirty `parent` and the copies it makes. -/
theorem keeps_replace (fuel : Nat) (node : Option Nat) {parent : Nat} {s : Store K V}
    (hp : Dirty s parent) : Keeps (replace fuel node parent) s (fun _ _ => True) := by
  induction fuel generalizing node parent s with
  | zero => exact Keeps.throw
  | succ fuel ih =>
    rcases node with _ | node
    · refine Keeps.bind (keeps_deref _ s) ?_
      rintro ⟨_, pc⟩ _ _ ⟨rfl, -, -⟩
      exact Keeps.pure trivial
    · refine Keeps.bind (keeps_writableRight node hp) ?_
      rintro b s₁ _ ⟨hp₁, hb⟩
      refine Keeps.bind (keeps_deref _ _) ?_
      rintro ⟨_, bc⟩ s₂ _ ⟨rfl, -, -⟩
      dsimp only
      split
      · refine Keeps.bind (ih _ hb) ?_
        rintro ⟨rn, pred⟩ s₃ h₃ -
        exact keeps_replace_tail (h₃.dirty _ hp₁) rn pred
      · exact keeps_replace_tail hp₁ _ b

omit [Ord K] in
theorem keeps_fixDepthAndRotate {node : Nat} {s : Store K V} (hn : Dirty s node) :
    Keeps (fixDepthAndRotate node) s (fun _ _ => True) := by
  refine Keeps.bind (keeps_calculateDepth _ _) ?_
  rintro d s₁ _ rfl
  refine Keeps.bind (keeps_modifyCell hn (fun _ => rfl)) ?_
  rintro _ s₂ h₂ -
  refine Keeps.bind (keeps_rotate (h₂.dirty _ hn)) ?_
  rintro _ _ _ _
  exact Keeps.pure trivial

omit [Ord K] in
/-- The recursive step of `remove` on one side. -/
theorem keeps_remove_step (node : Nat) (setChild : Option Nat → Cell K V → Cell K V)
    (hset : ∀ l c, (setChild l c).clean = c.clean) (call : StoreM K V (Option Nat))
    (s : Store K V) (hn : Dirty s node) (hcall : Keeps call s (fun _ _ => True)) :
    Keeps (do
        let l ← call
        modifyCell node (setChild l)
        fixDepthAndRotate node) s (fun _ _ => True) := by
  refine Keeps.bind hcall ?_
  rintro l s₁ h₁ -
  refine Keeps.bind (keeps_modifyCell (h₁.dirty _ hn) (hset l)) ?_
  rintro _ s₂ h₂ -
  exact keeps_fixDepthAndRotate (h₂.dirty _ (h₁.dirty _ hn))

omit [Ord K] in
/-- A node with two children takes the entry of its predecessor, found by `replace` in a dirty
copy of its left child. -/
theorem keeps_remove_inner (fuel : Nat) {node : Nat} (l : Nat) {s : Store K V}
    (hn : Dirty s node) :
    Keeps (do
        let (_, lc) ← deref (some l)
        let dirtyLeftNode ← newDirtyNode lc
        let (_, dc) ← deref (some dirtyLeftNode)
        let (newLeft, predecessor) ← replace fuel dc.right dirtyLeftNode
        let (_, pc) ← deref (some predecessor)
        modifyCell node fun c => { c with key := pc.key, value := pc.value }
        modifyCell node fun c => { c with left := newLeft }
        fixDepthAndRotate node) s (fun _ _ => True) := by
  refine Keeps.bind (keeps_deref _ s) ?_
  rintro ⟨_, lc⟩ s₁ _ ⟨rfl, -, -⟩
  refine Keeps.bind (keeps_newDirtyNode lc _) ?_
  rintro d s₂ h₂ hd
  refine Keeps.bind (keeps_deref _ _) ?_
  rintro ⟨_, dc⟩ s₃ _ ⟨rfl, -, -⟩
  refine Keeps.bind (keeps_replace fuel _ hd) ?_
  rintro ⟨newLeft, pred⟩ s₄ h₄ -
  refine Keeps.bind (keeps_deref _ _) ?_
  rintro ⟨_, pc⟩ s₅ _ ⟨rfl, -, -⟩
  have hn₅ : Dirty s₅ node := h₄.dirty _ (h₂.dirty _ hn)
  refine Keeps.bind (keeps_modifyCell hn₅ (fun _ => rfl)) ?_
  rintro _ s₆ h₆ -
  refine Keeps.bind (keeps_modifyCell (h₆.dirty _ hn₅) (fun _ => rfl)) ?_
  rintro _ s₇ h₇ -
  exact keeps_fixDepthAndRotate (h₇.dirty _ (h₆.dirty _ hn₅))

theorem keeps_remove (fuel : Nat) (p : Option Nat) (key : K) (s : Store K V) :
    Keeps (remove fuel p key) s (fun _ _ => True) := by
  induction fuel generalizing p s with
  | zero => exact Keeps.throw
  | succ fuel ih =>
    rcases p with _ | n
    · exact Keeps.throw
    · refine Keeps.bind (keeps_writable n s) ?_
      rintro node s₁ _ hn
      refine Keeps.bind (keeps_deref _ _) ?_
      rintro ⟨_, c⟩ s₂ _ ⟨rfl, -, -⟩
      dsimp only
      split
      · exact keeps_remove_step node (fun l c => { c with left := l }) (fun _ _ => rfl) _ _ hn
          (ih _ _)
      · exact keeps_remove_step node (fun r c => { c with right := r }) (fun _ _ => rfl) _ _ hn
          (ih _ _)
      · split
        · exact Keeps.pure trivial
        · exact Keeps.pure trivial
        · exact Keeps.pure trivial
        · exact keeps_remove_inner fuel _ hn

end Calls

/-! ### The tree methods -/

theorem keeps_fuel (s : Store K V) : Keeps (fuel : StoreM K V Nat) s (fun _ s' => s' = s) :=
  ⟨Frame.refl s, rfl⟩

section Methods

variable [Ord K] [Value V]

theorem keeps_apply (t : Tree) (op : Op K V) (s : Store K V) :
    Keeps (t.apply op) s (fun _ _ => True) := by
  cases op with
  | add k v =>
    refine Keeps.bind (keeps_fuel s) ?_
    rintro f _ _ rfl
    exact Keeps.bind (keeps_insert f _ k v _) (fun _ _ _ _ => Keeps.pure trivial)
  | update k v =>
    refine Keeps.bind (keeps_fuel s) ?_
    rintro f _ _ rfl
    exact Keeps.bind (keeps_update f _ k v _) (fun _ _ _ _ => Keeps.pure trivial)
  | delete k =>
    refine Keeps.bind (keeps_fuel s) ?_
    rintro f _ _ rfl
    exact Keeps.bind (keeps_remove f _ k _) (fun _ _ _ _ => Keeps.pure trivial)

/-- A call that fails keeps its tree, and the store it leaves is framed either way. -/
theorem keeps_exec (t : Tree) (op : Op K V) (s : Store K V) :
    Keeps (t.exec op) s (fun _ _ => True) := by
  have h := keeps_apply t op s
  unfold Keeps wp at h ⊢
  unfold Tree.exec
  cases hr : t.apply op s with
  | ok t' s' =>
    rw [hr] at h
    exact h
  | error e s' =>
    rw [hr] at h
    exact ⟨h, trivial⟩

theorem keeps_run (t : Tree) (ops : List (Op K V)) (s : Store K V) :
    Keeps (t.run ops) s (fun _ _ => True) := by
  induction ops generalizing t s with
  | nil => exact Keeps.pure trivial
  | cons op ops ih => exact Keeps.bind (keeps_exec t op s) (fun t' s' _ _ => ih t' s')

end Methods

/-! ### Committed trees survive -/

/-- Every record of the tree is clean, as after `Commit`. -/
def AllClean : Node K V → Prop
  | .nil => True
  | .node _ _ l r c _ => c = true ∧ AllClean l ∧ AllClean r

/-- A pointer to an all-clean tree denotes the same tree in every framed store. -/
theorem Repr.of_frame {s s' : Store K V} {p : Option Nat} {t : Node K V} (h : Repr s p t)
    (hc : AllClean t) (hf : Frame s s') : Repr s' p t := by
  induction h with
  | nil => exact .nil
  | node hcell _ _ ihl ihr =>
    obtain ⟨hcc, hcl, hcr⟩ := hc
    exact .node (hf.clean_eq _ _ hcell hcc) (ihl hcl) (ihr hcr)

variable [Ord K] [Value V]

/-- **Copy-on-write persistence.**  Run any sequence of `Add`, `Update` and `Delete` calls on
the clone of a tree whose records are all clean: every record that was clean keeps all its
fields, so the tree keeps its shape, its entries and its depths. -/
theorem run_clone_frame {s : Store K V} {t : Tree} {tv : Node K V} (hr : Repr s t.root tv)
    (hc : AllClean tv) (ops : List (Op K V)) :
    wp (t.clone.run ops)
      (fun _ s' => (∀ a c, s.cells a = some c → c.clean = true → s'.cells a = some c) ∧
        Repr s' t.root tv)
      (fun _ s' => (∀ a c, s.cells a = some c → c.clean = true → s'.cells a = some c) ∧
        Repr s' t.root tv) s :=
  wp_mono (keeps_run t.clone ops s) (fun _ _ h => ⟨h.1.clean_eq, hr.of_frame hc h.1⟩)
    (fun _ _ h => ⟨h.clean_eq, hr.of_frame hc h⟩)

/-- A store holding one committed record: key `1` at address `0`. -/
def committedLeaf : Store Nat CachedValue where
  cells := fun a => if a = 0 then some ⟨1, ⟨10, true⟩, none, none, true, 1⟩ else none
  next := 1
  fresh := fun a ha => by
    have : a ≠ 0 := by omega
    simp [this]

theorem run_clone_frame_committedLeaf :
    wp ((⟨some 0⟩ : Tree).clone.run [.add 2 ⟨20, true⟩, .update 1 ⟨11, true⟩, .delete 1])
      (fun _ s' => (∀ a c, committedLeaf.cells a = some c → c.clean = true → s'.cells a = some c) ∧
        Repr s' (some 0) (.node 1 ⟨10, true⟩ .nil .nil true 1))
      (fun _ s' => (∀ a c, committedLeaf.cells a = some c → c.clean = true → s'.cells a = some c) ∧
        Repr s' (some 0) (.node 1 ⟨10, true⟩ .nil .nil true 1)) committedLeaf :=
  run_clone_frame
    (@Repr.node _ _ committedLeaf 0 ⟨1, ⟨10, true⟩, none, none, true, 1⟩ _ _ rfl .nil .nil)
    ⟨rfl, trivial, trivial⟩ _

end BftCore.Avl.Heap
