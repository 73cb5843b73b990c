import BftCore.Avl.Tree
import BftCore.Lib.List

/-!
# `tree/avl`: the tree implements a finite map

The specification is a map `K → Option V` with the outcome of each call (`MapSpec`); a node
represents a map when its keys are ordered and its in-order entries give every key the
map's value (`Represents`).  Values agree only up to `Value.clone`: a writable copy of a
clean node holds a clone, and so does the copy of the left child that `remove` makes when
it deletes a node with two children (`newDirtyNode(node.left)` in `tree_delete.go`).

* `get_eq_toMap`: on an ordered tree `Get` reads the in-order entries;
* `apply_represents`: a call fails exactly when the map call fails, with the same error, and
  otherwise yields a tree that represents the new map;
* `run_represents`, `refines_map`: so along every run from the empty tree;
* `delete_clones_predecessor_value`: the values agree only up to cloning.
-/

namespace BftCore.Avl

variable {K V : Type}

/-- Two outcomes agree: the same error, or results related by `R`. -/
def OutcomeRel {ε α β : Type} (R : α → β → Prop) : Except ε α → Except ε β → Prop
  | .error e, .error e' => e = e'
  | .ok a, .ok b => R a b
  | _, _ => False

/-! ### The finite map a tree implements, with the outcome of each call -/

namespace MapSpec

variable [DecidableEq K]

/-- The map with no keys. -/
def empty : K → Option V := fun _ => none

/-- `Get`: the key's value, or `ErrNotFound`. -/
def get (M : K → Option V) (k : K) : Except (AvlError K) V :=
  match M k with
  | some v => .ok v
  | none => .error (.notFound k)

/-- `Add` needs an absent key, `Update` and `Delete` a present one. -/
def apply (M : K → Option V) : Op K V → Except (AvlError K) (K → Option V)
  | .add k v =>
    if (M k).isSome then .error (.alreadyExists k) else .ok (Function.update M k (some v))
  | .update k v =>
    if (M k).isSome then .ok (Function.update M k (some v)) else .error (.notFound k)
  | .delete k =>
    if (M k).isSome then .ok (Function.update M k none) else .error (.notFound k)

def exec (M : K → Option V) (op : Op K V) : K → Option V :=
  match apply M op with
  | .ok M' => M'
  | .error _ => M

def run (M : K → Option V) (ops : List (Op K V)) : K → Option V := ops.foldl exec M

theorem exec_of_ok {M M' : K → Option V} {op : Op K V} (h : apply M op = .ok M') :
    exec M op = M' := by
  simp [exec, h]

theorem exec_of_error {M : K → Option V} {op : Op K V} {e : AvlError K}
    (h : apply M op = .error e) : exec M op = M := by
  simp [exec, h]

/-- The map seen through `f` on its values. -/
def mapValues {W : Type} (f : V → W) (M : K → Option V) : K → Option W := fun k => (M k).map f

theorem mapValues_update {W : Type} (f : V → W) (M : K → Option V) (k : K) (o : Option V) :
    mapValues f (Function.update M k o) = Function.update (mapValues f M) k (o.map f) := by
  funext k'
  by_cases hk : k' = k
  · subst hk
    simp [mapValues]
  · simp [mapValues, hk]

/-- A call on a map commutes with mapping its values: the map seen through `f` answers the
call with the value seen through `f`. -/
theorem apply_mapValues {W : Type} (f : V → W) (M : K → Option V) (op : Op K V) :
    (apply M op).map (mapValues f) = apply (mapValues f M) (op.map f) := by
  have hs : ∀ k, (mapValues f M k).isSome = (M k).isSome := fun k => by simp [mapValues]
  cases op with
  | add k v =>
    simp only [apply, Op.map, hs]
    split <;> simp [Except.map, mapValues_update]
  | update k v =>
    simp only [apply, Op.map, hs]
    split <;> simp [Except.map, mapValues_update]
  | delete k =>
    simp only [apply, Op.map, hs]
    split <;> simp [Except.map, mapValues_update]

end MapSpec

section CloneRel

variable [Value V]

theorem optionRel_cloneRel_refl (o : Option V) : Option.Rel CloneRel o o := by
  cases o with
  | none => exact .none
  | some v => exact .some (CloneRel.refl v)

theorem optionRel_cloneRel_trans {a b c : Option V} (h₁ : Option.Rel CloneRel a b)
    (h₂ : Option.Rel CloneRel b c) : Option.Rel CloneRel a c := by
  cases h₁ with
  | none => exact h₂
  | some h => cases h₂ with
    | some h' => exact .some (h.trans h')

theorem optionRel_isSome {a b : Option V} (h : Option.Rel CloneRel a b) : a.isSome = b.isSome := by
  cases h <;> rfl

/-- Entry lists related by cloning look every key up to related values. -/
theorem EntriesRel.lookup [DecidableEq K] {xs ys : List (K × V)} (h : EntriesRel xs ys) (k : K) :
    Option.Rel CloneRel (xs.lookup k) (ys.lookup k) := by
  induction h with
  | nil => exact .none
  | @cons a b xs ys hab _ ih =>
    obtain ⟨a1, a2⟩ := a
    obtain ⟨b1, b2⟩ := b
    obtain ⟨h1, h2⟩ := hab
    dsimp only at h1 h2
    subst h1
    by_cases hk : k = a1
    · subst hk
      rw [List.lookup_cons_self, List.lookup_cons_self]
      exact .some h2
    · rw [List.lookup_cons_of_ne a2 hk, List.lookup_cons_of_ne b2 hk]
      exact ih

end CloneRel

namespace Node

variable [LinearOrder K] [Value V]

/-- The key-to-value map of a node: the value of the key's entry. -/
def toMap (t : Node K V) (k : K) : Option V := t.entries.lookup k

omit [Value V] in
theorem mem_keys_iff_isSome (t : Node K V) (k : K) : k ∈ t.keys ↔ (t.toMap k).isSome := by
  simp only [keys, toMap, List.lookup_isSome_iff, List.mem_map, beq_iff_eq]
  constructor
  · rintro ⟨p, hp, he⟩
    exact ⟨p, hp, he.symm⟩
  · rintro ⟨p, hp, he⟩
    exact ⟨p, hp, he.symm⟩

/-- A node represents a map: its keys are ordered and it maps every key to the map's value,
up to cloning. -/
structure Represents (M : K → Option V) (t : Node K V) : Prop where
  ordered : t.Ordered
  toMap : ∀ k, Option.Rel CloneRel (M k) (t.toMap k)

/-- Seen through a function that a clone does not change, a node and the map it represents
are the same map. -/
theorem Represents.mapValues_eq {W : Type} {f : V → W} (hf : ∀ v, f (Value.clone v) = f v)
    {M : K → Option V} {t : Node K V} (h : Represents M t) :
    MapSpec.mapValues f t.toMap = MapSpec.mapValues f M := by
  have hrel : ∀ {v w : V}, CloneRel v w → f w = f v := by
    intro v w hvw
    induction hvw with
    | refl => rfl
    | tail _ hstep ih => rw [hstep, hf, ih]
  funext k
  simp only [MapSpec.mapValues]
  have hk := h.toMap k
  generalize M k = a at hk
  generalize t.toMap k = b at hk
  cases hk with
  | none => rfl
  | some hvw => exact congrArg some (hrel hvw)

/-- An ordered node represents its own map. -/
theorem represents_toMap {t : Node K V} (ho : t.Ordered) : Represents t.toMap t :=
  ⟨ho, fun _ => optionRel_cloneRel_refl _⟩

theorem Represents.isSome_iff {M : K → Option V} {t : Node K V} (h : Represents M t) (k : K) :
    (M k).isSome ↔ k ∈ t.keys := by
  rw [mem_keys_iff_isSome, optionRel_isSome (h.toMap k)]

theorem Represents.isSome_eq_false {M : K → Option V} {t : Node K V} (h : Represents M t)
    {k : K} (hk : k ∉ t.keys) : (M k).isSome = false := by
  cases hm : (M k).isSome
  · rfl
  · exact absurd ((h.isSome_iff k).1 hm) hk

/-- A tree whose entries are those of a list up to cloning represents what the list does. -/
theorem Represents.of_entriesRel {M : K → Option V} {L : List (K × V)} {t : Node K V}
    (ho : t.Ordered) (hM : ∀ k, Option.Rel CloneRel (M k) (L.lookup k))
    (h : EntriesRel L t.entries) : Represents M t :=
  ⟨ho, fun k => optionRel_cloneRel_trans (hM k) (h.lookup k)⟩

/-- A list that changes the value of `k` only represents the map updated at `k`. -/
theorem lookupRel_update {M : K → Option V} {t : Node K V} {L : List (K × V)} {k : K}
    {o : Option V} (hM : ∀ k, Option.Rel CloneRel (M k) (t.toMap k))
    (hL : ∀ k', L.lookup k' = if k' = k then o else t.toMap k') (k' : K) :
    Option.Rel CloneRel (Function.update M k o k') (L.lookup k') := by
  rw [hL k']
  by_cases hk : k' = k
  · subst hk
    simpa using optionRel_cloneRel_refl o
  · simpa [hk] using hM k'

omit [Value V] in
/-- The key of an entry of an ordered tree occurs in no other entry. -/
theorem not_mem_of_ordered {t : Node K V} {xs ys : List (K × V)} {k : K} {w : V}
    (ho : t.Ordered) (h : t.entries = xs ++ (k, w) :: ys) :
    k ∉ xs.map Prod.fst ∧ k ∉ ys.map Prod.fst := by
  have hs := (ordered_iff_pairwise t).1 ho
  rw [keys, h, List.map_append, List.map_cons] at hs
  exact List.not_mem_of_pairwise_lt_middle hs

theorem Represents.insert {M : K → Option V} {t t' : Node K V} {k : K} {v : V}
    (h : Represents M t) (hi : t.insert k v = .ok t') :
    Represents (Function.update M k (some v)) t' := by
  obtain ⟨xs, ys, hxy, hxs, -, hrel⟩ := insert_entries h.ordered hi
  have hk : k ∉ xs.map Prod.fst := fun hm => by
    obtain ⟨x, hx, rfl⟩ := List.mem_map.1 hm
    exact lt_irrefl _ (hxs x hx)
  refine .of_entriesRel (insert_ordered h.ordered hi) (lookupRel_update h.toMap ?_) hrel
  intro k'
  rw [List.lookup_middle v hk, Node.toMap, hxy]

theorem Represents.update {M : K → Option V} {t t' : Node K V} {k : K} {v : V}
    (h : Represents M t) (hu : t.update k v = .ok t') :
    Represents (Function.update M k (some v)) t' := by
  obtain ⟨xs, w, ys, hxy, hrel⟩ := update_entries hu
  have hk := (not_mem_of_ordered h.ordered hxy).1
  refine .of_entriesRel (update_ordered h.ordered hu) (lookupRel_update h.toMap ?_) hrel
  intro k'
  rw [List.lookup_middle v hk, Node.toMap, hxy, List.lookup_middle w hk]
  split_ifs <;> rfl

theorem Represents.remove {M : K → Option V} {t t' : Node K V} {k : K}
    (h : Represents M t) (hr : t.remove k = .ok t') :
    Represents (Function.update M k none) t' := by
  obtain ⟨xs, w, ys, hxy, hrel⟩ := remove_entries hr
  obtain ⟨hkx, hky⟩ := not_mem_of_ordered h.ordered hxy
  refine .of_entriesRel (remove_ordered h.ordered hr) (lookupRel_update h.toMap ?_) hrel
  intro k'
  rw [Node.toMap, hxy, List.lookup_middle w hkx]
  split_ifs with hk
  · subst hk
    rw [List.lookup_append_of_not_mem_left hkx, List.lookup_eq_none_of_not_mem hky]
  · rfl

end Node

namespace Tree

variable [LinearOrder K] [Value V]

omit [Value V] in
open Node in
/-- **`Get` on an ordered tree reads the key-to-value map of its entries.** -/
theorem get_eq_toMap {t : Tree K V} (ho : t.root.Ordered) (k : K) :
    t.get k = MapSpec.get t.root.toMap k := by
  obtain ⟨t⟩ := t
  induction t with
  | nil => rfl
  | node nk nv l r c d ihl ihr =>
    obtain ⟨hl, hr, ol, or'⟩ := ho
    rcases compare_cases nk k with ⟨hc, hlt⟩ | ⟨hc, rfl⟩ | ⟨hc, hgt⟩
    · -- the key can only be in the right subtree
      have hm : (node nk nv l r c d).toMap k = r.toMap k := by
        rw [toMap, entries_node, List.lookup_append_of_not_mem_left (fun hk => lt_asymm hlt (hl k hk)),
          List.lookup_cons_of_ne nv (ne_of_gt hlt)]
        rfl
      have hg : get ⟨node nk nv l r c d⟩ k = get ⟨r⟩ k := by simp [get, Node.get, hc]
      rw [hg, ihr or']
      simp only [MapSpec.get, hm]
    · have hm : (node nk nv l r c d).toMap nk = some nv := by
        rw [toMap, entries_node, List.lookup_append_of_not_mem_left (fun hk => lt_irrefl _ (hl nk hk)),
          List.lookup_cons_self]
      simp [get, Node.get, MapSpec.get, hm]
    · -- the key can only be in the left subtree
      have hk : k ∉ ((nk, nv) :: r.entries).map Prod.fst := by
        rw [List.map_cons, List.mem_cons, not_or]
        exact ⟨ne_of_lt hgt, fun hk => lt_asymm hgt (hr k hk)⟩
      have hm : (node nk nv l r c d).toMap k = l.toMap k := by
        rw [toMap, entries_node, List.lookup_append_of_not_mem_right hk]
        rfl
      have hg : get ⟨node nk nv l r c d⟩ k = get ⟨l⟩ k := by simp [get, Node.get, hc]
      rw [hg, ihl ol]
      simp only [MapSpec.get, hm]

/-- `Get` on a tree that represents a map returns the map's value up to cloning, or
`ErrNotFound`. -/
theorem get_represents {M : K → Option V} {t : Tree K V} (h : t.root.Represents M) (k : K) :
    OutcomeRel CloneRel (MapSpec.get M k) (t.get k) := by
  rw [get_eq_toMap h.ordered]
  have hk := h.toMap k
  unfold MapSpec.get
  generalize M k = a at hk ⊢
  generalize t.root.toMap k = b at hk ⊢
  cases hk with
  | none => rfl
  | some hv => exact hv

open Node in
/-- **Every call on a tree that represents a map agrees with the call on the map.** -/
theorem apply_represents {M : K → Option V} {t : Tree K V} (h : t.root.Represents M)
    (op : Op K V) :
    OutcomeRel (fun M' (t' : Tree K V) => t'.root.Represents M') (MapSpec.apply M op)
      (t.apply op) := by
  cases op with
  | add k v =>
    rw [apply_add]
    by_cases hk : k ∈ t.root.keys
    · have hs : (M k).isSome = true := (h.isSome_iff k).2 hk
      have he : t.root.insert k v = .error (.alreadyExists k) :=
        (insert_error_iff h.ordered).2 ⟨hk, rfl⟩
      simp [MapSpec.apply, hs, he, Except.map, OutcomeRel]
    · have hs : (M k).isSome = false := h.isSome_eq_false hk
      cases hi : t.root.insert k v with
      | error e => exact absurd ((insert_error_iff h.ordered).1 hi).1 hk
      | ok t' =>
        simp only [MapSpec.apply, hs, Except.map, OutcomeRel]
        exact h.insert hi
  | update k v =>
    rw [apply_update]
    by_cases hk : k ∈ t.root.keys
    · have hs : (M k).isSome = true := (h.isSome_iff k).2 hk
      cases hu : t.root.update k v with
      | error e => exact absurd hk ((update_error_iff h.ordered).1 hu).1
      | ok t' =>
        simp only [MapSpec.apply, hs, Except.map, OutcomeRel]
        exact h.update hu
    · have hs : (M k).isSome = false := h.isSome_eq_false hk
      have he : t.root.update k v = .error (.notFound k) :=
        (update_error_iff h.ordered).2 ⟨hk, rfl⟩
      simp [MapSpec.apply, hs, he, Except.map, OutcomeRel]
  | delete k =>
    rw [apply_delete]
    by_cases hk : k ∈ t.root.keys
    · have hs : (M k).isSome = true := (h.isSome_iff k).2 hk
      cases hr : t.root.remove k with
      | error e => exact absurd hk ((remove_error_iff h.ordered).1 hr).1
      | ok t' =>
        simp only [MapSpec.apply, hs, Except.map, OutcomeRel]
        exact h.remove hr
    · have hs : (M k).isSome = false := h.isSome_eq_false hk
      have he : t.root.remove k = .error (.notFound k) :=
        (remove_error_iff h.ordered).2 ⟨hk, rfl⟩
      simp [MapSpec.apply, hs, he, Except.map, OutcomeRel]

/-- One call keeps the tree and the map in step, whether it succeeds or fails. -/
theorem exec_represents {M : K → Option V} {t : Tree K V} (h : t.root.Represents M)
    (op : Op K V) : (t.exec op).root.Represents (MapSpec.exec M op) := by
  have hr := apply_represents h op
  cases hm : MapSpec.apply M op with
  | error e =>
    cases ht : t.apply op with
    | error e' => rw [MapSpec.exec_of_error hm, exec_of_error ht]; exact h
    | ok t' => rw [hm, ht] at hr; exact hr.elim
  | ok M' =>
    cases ht : t.apply op with
    | error e' => rw [hm, ht] at hr; exact hr.elim
    | ok t' =>
      rw [hm, ht] at hr
      rw [MapSpec.exec_of_ok hm, exec_of_ok ht]
      exact hr

theorem run_represents {M : K → Option V} {t : Tree K V} (h : t.root.Represents M)
    (ops : List (Op K V)) : (t.run ops).root.Represents (MapSpec.run M ops) := by
  induction ops generalizing M t with
  | nil => exact h
  | cons op ops ih => exact ih (exec_represents h op)

/-- The empty tree represents the empty map. -/
theorem empty_represents : (empty : Tree K V).root.Represents MapSpec.empty :=
  ⟨trivial, fun _ => .none⟩

/-- **The tree refines a finite map, up to cloning of values.**  After every run from the
empty tree: `Get` returns the map's value (or a clone of it) or `ErrNotFound`; the next call
fails exactly when the map call fails, with the same error, and otherwise yields a tree
whose `Get` agrees with the map after the call; and a failing call leaves the tree as it
was. -/
theorem refines_map (ops : List (Op K V)) (op : Op K V) (k : K) :
    OutcomeRel CloneRel (MapSpec.get (MapSpec.run MapSpec.empty ops) k)
        ((empty.run ops).get k) ∧
      OutcomeRel (fun M' (t' : Tree K V) => ∀ k', OutcomeRel CloneRel (MapSpec.get M' k') (t'.get k'))
        (MapSpec.apply (MapSpec.run MapSpec.empty ops) op) ((empty.run ops).apply op) ∧
      ∀ e, (empty.run ops).apply op = .error e → (empty.run ops).exec op = empty.run ops := by
  have h := run_represents empty_represents ops
  refine ⟨get_represents h k, ?_, fun e he => exec_of_error he⟩
  have hr := apply_represents h op
  revert hr
  cases MapSpec.apply (MapSpec.run MapSpec.empty ops) op <;>
    cases (empty.run ops).apply op <;> simp only [OutcomeRel, imp_self]
  exact fun hr k' => get_represents hr k'

end Tree

/-- A value whose clone forgets a cached flag, as `UnitV1.Clone` forgets the cached summary. -/
structure CachedValue where
  value : Nat
  cached : Bool
  deriving DecidableEq, Repr

instance : Value CachedValue := ⟨fun u => ⟨u.value, false⟩⟩

/-- Deleting a node with two children moves a clone of its predecessor into its place: after
`Delete(2)` the key 1 maps to the clone `⟨10, false⟩`, while the map keeps the value added. -/
theorem delete_clones_predecessor_value :
    (Tree.empty.run [.add 2 ⟨20, true⟩, .add 1 ⟨10, true⟩, .add 3 ⟨30, true⟩, .delete 2]).get 1 =
        .ok (⟨10, false⟩ : CachedValue) ∧
      MapSpec.get (MapSpec.run MapSpec.empty
        [.add 2 ⟨20, true⟩, .add 1 ⟨10, true⟩, .add 3 ⟨30, true⟩, .delete (2 : Nat)]) 1 =
        .ok (⟨10, true⟩ : CachedValue) := by
  constructor <;> rfl

end BftCore.Avl
