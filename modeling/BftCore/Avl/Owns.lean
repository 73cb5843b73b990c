import BftCore.Avl.Frame
import Mathlib

/-!
# `tree/avl`: the records a tree owns

The store functions write the dirty records of the tree they are called on, and only those:
`Owns s p t D` says that `p` denotes the tree `t` and that `D` lists its dirty records, each
once, a dirty record being reached through one pointer only.  Clean records may be shared by
any number of trees (the savepoints of a state share most of theirs); a clean record has only
clean records below it, as `Commit` leaves them.

* `Owns`, with `Owns.nodup`, `Owns.repr` and the frame lemma `Owns.congr`;
* `Within D s s'`: the records outside `D` allocated before keep every field;
* `Owns.set_root`: writing the root of an owned tree with new children owned apart;
* `height_le_next`: a denoted tree is no higher than the store has records, so the fuel of a
  tree method suffices.
-/

namespace BftCore.Avl.Heap

variable {K V : Type}

/-- `p` denotes `t` in `s`, and `D` lists the dirty records of `t`: each once, none reachable
twice, and no dirty record below a clean one. -/
inductive Owns (s : Store K V) : Option Nat → Node K V → List Nat → Prop
  | nil : Owns s none .nil []
  | clean {a : Nat} {c : Cell K V} {l r : Node K V} : s.cells a = some c → c.clean = true →
      Owns s c.left l [] → Owns s c.right r [] →
      Owns s (some a) (.node c.key c.value l r true c.depth) []
  | dirty {a : Nat} {c : Cell K V} {l r : Node K V} {Dl Dr : List Nat} : s.cells a = some c →
      c.clean = false → Owns s c.left l Dl → Owns s c.right r Dr → a ∉ Dl → a ∉ Dr →
      Dl.Disjoint Dr → Owns s (some a) (.node c.key c.value l r false c.depth) (a :: (Dl ++ Dr))

/-- The records outside `D` that were allocated keep every field, and the store only grows. -/
structure Within (D : List Nat) (s s' : Store K V) : Prop where
  next_le : s.next ≤ s'.next
  eq_of_not_mem : ∀ b, b < s.next → b ∉ D → s'.cells b = s.cells b

/-- The records in `D` and the clean records are the same in `s'`. -/
def Agree (D : List Nat) (s s' : Store K V) : Prop :=
  ∀ b c, s.cells b = some c → (b ∈ D ∨ c.clean = true) → s'.cells b = some c

namespace Owns

theorem repr {s : Store K V} {p : Option Nat} {t : Node K V} {D : List Nat} (h : Owns s p t D) :
    Repr s p t := by
  induction h with
  | nil => exact .nil
  | clean hc hcl _ _ ihl ihr =>
    have := Repr.node hc ihl ihr
    rwa [hcl] at this
  | dirty hc hcl _ _ _ _ _ ihl ihr =>
    have := Repr.node hc ihl ihr
    rwa [hcl] at this

theorem nodup {s : Store K V} {p : Option Nat} {t : Node K V} {D : List Nat} (h : Owns s p t D) :
    D.Nodup := by
  induction h with
  | nil => exact List.nodup_nil
  | clean => exact List.nodup_nil
  | dirty _ _ _ _ hal har hd ihl ihr =>
    refine List.nodup_cons.2 ⟨?_, List.nodup_append.2 ⟨ihl, ihr, ?_⟩⟩
    · simp [hal, har]
    · exact fun x hx y hy hxy => hd hx (hxy ▸ hy)

/-- Every record a tree owns is dirty. -/
theorem dirty_of_mem {s : Store K V} {p : Option Nat} {t : Node K V} {D : List Nat}
    (h : Owns s p t D) {b : Nat} (hb : b ∈ D) : Dirty s b := by
  induction h with
  | nil => cases hb
  | clean => cases hb
  | @dirty a c _ _ _ _ hc hcl _ _ _ _ _ ihl ihr =>
    rcases List.mem_cons.1 hb with rfl | hb
    · exact ⟨c, hc, hcl⟩
    · rcases List.mem_append.1 hb with hb | hb
      · exact ihl hb
      · exact ihr hb

theorem lt_next_of_mem {s : Store K V} {p : Option Nat} {t : Node K V} {D : List Nat}
    (h : Owns s p t D) {b : Nat} (hb : b ∈ D) : b < s.next := by
  obtain ⟨c, hc, -⟩ := h.dirty_of_mem hb
  exact Store.lt_next_of_cells hc

/-- The frame lemma: an owned tree is the same in a store that agrees on its records and on
the clean ones. -/
theorem congr {s s' : Store K V} {p : Option Nat} {t : Node K V} {D : List Nat}
    (h : Owns s p t D) (ha : Agree D s s') : Owns s' p t D := by
  induction h with
  | nil => exact .nil
  | clean hc hcl _ _ ihl ihr =>
    exact .clean (ha _ _ hc (Or.inr hcl)) hcl (ihl fun b c hb h => ha b c hb (h.elim nofun Or.inr))
      (ihr fun b c hb h => ha b c hb (h.elim nofun Or.inr))
  | dirty hc hcl _ _ hal har hd ihl ihr =>
    refine .dirty (ha _ _ hc (Or.inl List.mem_cons_self)) hcl ?_ ?_ hal har hd
    · exact ihl fun b c hb h => ha b c hb (h.imp (fun h => List.mem_cons_of_mem _
        (List.mem_append_left _ h)) id)
    · exact ihr fun b c hb h => ha b c hb (h.imp (fun h => List.mem_cons_of_mem _
        (List.mem_append_right _ h)) id)

end Owns

namespace Agree

theorem mono {D D' : List Nat} {s s' : Store K V} (h : Agree D s s') (hD : ∀ b ∈ D', b ∈ D) :
    Agree D' s s' :=
  fun b c hb h' => h b c hb (h'.imp (hD b) id)

/-- A write to a dirty record outside `D`. -/
theorem set {D : List Nat} {s : Store K V} {a : Nat} (ha : Dirty s a) (had : a ∉ D)
    (c' : Cell K V) : Agree D s (s.set a c') := by
  intro b c hb h
  have hne : b ≠ a := by
    rintro rfl
    obtain ⟨c₀, hc₀, hcl⟩ := ha
    rw [hc₀] at hb
    cases hb
    rcases h with h | h
    · exact had h
    · simp_all
  rw [Store.set_cells_of_ne s c' hne]
  exact hb

theorem push (D : List Nat) (s : Store K V) (c' : Cell K V) : Agree D s (s.push c') := by
  intro b c hb _
  have hne : b ≠ s.next := fun h => Nat.lt_irrefl _ (h ▸ Store.lt_next_of_cells hb)
  rw [Store.push_cells_of_ne s c' hne]
  exact hb

end Agree

namespace Within

@[refl] theorem refl (D : List Nat) (s : Store K V) : Within D s s := ⟨le_rfl, fun _ _ _ => rfl⟩

/-- Two calls, the second on records owned before or allocated by the first. -/
theorem trans {D D' : List Nat} {s₁ s₂ s₃ : Store K V} (h₁ : Within D s₁ s₂)
    (h₂ : Within D' s₂ s₃) (hD : ∀ b ∈ D', b ∈ D ∨ s₁.next ≤ b) : Within D s₁ s₃ := by
  refine ⟨h₁.next_le.trans h₂.next_le, fun b hb hbD => ?_⟩
  have hbD' : b ∉ D' := fun h => (hD b h).elim hbD (fun h => absurd hb (Nat.not_lt.2 h))
  rw [h₂.eq_of_not_mem b (lt_of_lt_of_le hb h₁.next_le) hbD', h₁.eq_of_not_mem b hb hbD]

theorem mono {D D' : List Nat} {s s' : Store K V} (h : Within D s s') (hD : ∀ b ∈ D, b ∈ D') :
    Within D' s s' :=
  ⟨h.next_le, fun b hb hbD => h.eq_of_not_mem b hb (fun h' => hbD (hD b h'))⟩

/-- The records a call does not own agree after it: those of a disjoint tree, and the clean
ones. -/
theorem agree {D D' : List Nat} {s s' : Store K V} (h : Within D s s')
    (hD : ∀ b ∈ D, Dirty s b) (hdisj : D.Disjoint D') : Agree D' s s' := by
  intro b c hb hb'
  rw [h.eq_of_not_mem b (Store.lt_next_of_cells hb) ?_]
  · exact hb
  · intro hbD
    rcases hb' with hb' | hb'
    · exact hdisj hbD hb'
    · obtain ⟨c₀, hc₀, hcl⟩ := hD b hbD
      rw [hb] at hc₀
      cases hc₀
      simp_all

theorem set {D : List Nat} {s : Store K V} {a : Nat} (ha : a ∈ D) (c' : Cell K V) :
    Within D s (s.set a c') := by
  refine ⟨le_rfl, fun b _ hb => ?_⟩
  exact Store.set_cells_of_ne s c' (fun h => hb (h ▸ ha))

theorem push (D : List Nat) (s : Store K V) (c' : Cell K V) : Within D s (s.push c') := by
  refine ⟨by simp, fun b hb _ => ?_⟩
  exact Store.push_cells_of_ne s c' (Nat.ne_of_lt hb)

end Within

/-- Writing the root of an owned tree: the new children are owned apart from each other and
from the root. -/
theorem Owns.set_root {s : Store K V} {a : Nat} {c c' : Cell K V} (hc : s.cells a = some c)
    (hcl : c.clean = false) (hcl' : c'.clean = false) {l r : Node K V} {Dl Dr : List Nat}
    (hl : Owns s c'.left l Dl) (hr : Owns s c'.right r Dr) (hal : a ∉ Dl) (har : a ∉ Dr)
    (hd : Dl.Disjoint Dr) :
    Owns (s.set a c') (some a) (.node c'.key c'.value l r false c'.depth) (a :: (Dl ++ Dr)) := by
  have hsome : (s.cells a).isSome := by simp [hc]
  have hdirty : Dirty s a := ⟨c, hc, hcl⟩
  refine .dirty (Store.set_cells_self hsome c') hcl' ?_ ?_ hal har hd
  · exact hl.congr (Agree.set hdirty hal c')
  · exact hr.congr (Agree.set hdirty har c')

/-! ### Fuel -/

/-- A pointer denotes one tree. -/
theorem Repr.unique {s : Store K V} {p : Option Nat} {t t' : Node K V} (h : Repr s p t)
    (h' : Repr s p t') : t = t' := by
  induction h generalizing t' with
  | nil =>
    cases h'
    rfl
  | node hc _ _ ihl ihr =>
    cases h' with
    | node hc' hl' hr' =>
      rw [hc] at hc'
      cases hc'
      rw [ihl hl', ihr hr']

/-- The records along a longest path, each denoting a higher tree than the next. -/
theorem Repr.exists_path {s : Store K V} {p : Option Nat} {t : Node K V} (h : Repr s p t) :
    ∃ L : List Nat, L.length = t.height ∧ (∀ a ∈ L, ∃ ta, Repr s (some a) ta) ∧
      (∀ a ∈ L, ∀ ta, Repr s (some a) ta → ta.height ≤ t.height) ∧
      L.Pairwise fun a b => ∀ ta tb, Repr s (some a) ta → Repr s (some b) tb →
        tb.height < ta.height := by
  induction h with
  | nil => exact ⟨[], rfl, nofun, nofun, List.Pairwise.nil⟩
  | @node a c l r hc hl hr ihl ihr =>
    have ha : Repr s (some a) (.node c.key c.value l r c.clean c.depth) := .node hc hl hr
    -- the path goes on into the higher child
    obtain ⟨L, hlen, hex, hle, hpw⟩ : ∃ L : List Nat, L.length = max l.height r.height ∧
        (∀ a ∈ L, ∃ ta, Repr s (some a) ta) ∧
        (∀ a ∈ L, ∀ ta, Repr s (some a) ta → ta.height ≤ max l.height r.height) ∧
        L.Pairwise fun a b => ∀ ta tb, Repr s (some a) ta → Repr s (some b) tb →
          tb.height < ta.height := by
      rcases le_total r.height l.height with hlr | hlr
      · obtain ⟨L, hlen, hex, hle, hpw⟩ := ihl
        exact ⟨L, by omega, hex, fun b hb tb htb => (hle b hb tb htb).trans (le_max_left _ _), hpw⟩
      · obtain ⟨L, hlen, hex, hle, hpw⟩ := ihr
        exact ⟨L, by omega, hex, fun b hb tb htb => (hle b hb tb htb).trans (le_max_right _ _), hpw⟩
    refine ⟨a :: L, by simp [hlen], ?_, ?_, ?_⟩
    · intro b hb
      rcases List.mem_cons.1 hb with rfl | hb
      · exact ⟨_, ha⟩
      · exact hex b hb
    · intro b hb tb htb
      rcases List.mem_cons.1 hb with rfl | hb
      · rw [htb.unique ha]
      · have := hle b hb tb htb
        simp only [Node.height_node]
        omega
    · refine List.Pairwise.cons (fun b hb ta tb hta htb => ?_) hpw
      rw [hta.unique ha]
      have := hle b hb tb htb
      simp only [Node.height_node]
      omega

/-- A denoted tree is no higher than the store has records, since the records along a path
are distinct: the fuel `s.next + 1` of a tree method suffices. -/
theorem Repr.height_le_next {s : Store K V} {p : Option Nat} {t : Node K V} (h : Repr s p t) :
    t.height ≤ s.next := by
  obtain ⟨L, hlen, hex, -, hpw⟩ := h.exists_path
  have hnd : L.Nodup := by
    refine hpw.imp_of_mem fun {a b} ha _ hab => ?_
    rintro rfl
    obtain ⟨ta, hta⟩ := hex a ha
    exact Nat.lt_irrefl _ (hab ta ta hta hta)
  have hsub : L ⊆ List.range s.next := by
    intro a ha
    obtain ⟨ta, hta⟩ := hex a ha
    cases hta with
    | node hc => exact List.mem_range.2 (Store.lt_next_of_cells hc)
  rw [← hlen, ← List.length_range (n := s.next)]
  exact (hnd.subperm hsub).length_le

end BftCore.Avl.Heap
