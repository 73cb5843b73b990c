import Mathlib

/-!
# Association lists with strictly increasing keys

Facts about `List.lookup` on a list of pairs and about lists whose elements strictly
increase, for reading a search structure through its in-order list of entries; two counting
facts, for bounding the votes of a quorum; and the images of the elements a filtering loop
keeps.
-/

namespace List

variable {α β : Type} [DecidableEq α]

/-- A key no entry has is not found. -/
theorem lookup_eq_none_of_not_mem {xs : List (α × β)} {k : α} (h : k ∉ xs.map Prod.fst) :
    xs.lookup k = none := by
  rw [lookup_eq_none_iff]
  intro p hp
  simpa using fun he : k = p.1 => h (he ▸ mem_map_of_mem hp)

theorem lookup_cons_of_ne {xs : List (α × β)} {k a : α} (b : β) (h : k ≠ a) :
    ((a, b) :: xs).lookup k = xs.lookup k := by
  have hk : (k == a) = false := by simpa using h
  rw [lookup_cons, hk]

/-- Entries whose keys differ from `k` after the ones searched do not change the lookup. -/
theorem lookup_append_of_not_mem_right {xs ys : List (α × β)} {k : α}
    (h : k ∉ ys.map Prod.fst) : (xs ++ ys).lookup k = xs.lookup k := by
  rw [lookup_append, lookup_eq_none_of_not_mem h, Option.or_none]

/-- Entries whose keys differ from `k` before the ones searched do not change the lookup. -/
theorem lookup_append_of_not_mem_left {xs ys : List (α × β)} {k : α}
    (h : k ∉ xs.map Prod.fst) : (xs ++ ys).lookup k = ys.lookup k := by
  rw [lookup_append, lookup_eq_none_of_not_mem h, Option.none_or]

/-- Inserting an entry for a key that no earlier entry has. -/
theorem lookup_middle {xs ys : List (α × β)} {k : α} (v : β) (h : k ∉ xs.map Prod.fst)
    (k' : α) :
    (xs ++ (k, v) :: ys).lookup k' = if k' = k then some v else (xs ++ ys).lookup k' := by
  split
  · subst k'
    rw [lookup_append_of_not_mem_left h, lookup_cons_self]
  · rename_i hne
    rw [lookup_append, lookup_append, lookup_cons_of_ne v hne]

/-- With keys that occur once, every entry is what its key looks up. -/
theorem lookup_of_mem {xs : List (α × β)} (h : (xs.map Prod.fst).Nodup) {e : α × β}
    (he : e ∈ xs) : xs.lookup e.1 = some e.2 := by
  induction xs with
  | nil => exact absurd he not_mem_nil
  | cons p xs ih =>
    rw [map_cons, nodup_cons] at h
    rcases mem_cons.1 he with rfl | he'
    · exact lookup_cons_self
    · -- a later entry: its key is not the first one
      have hne : e.1 ≠ p.1 := fun heq => h.1 (heq ▸ mem_map_of_mem he')
      rw [lookup_cons_of_ne p.2 hne]
      exact ih h.2 he'

/-- An entry that its key looks up is in the list. -/
theorem mem_of_lookup_eq_some {xs : List (α × β)} {k : α} {v : β} (h : xs.lookup k = some v) :
    (k, v) ∈ xs := by
  induction xs with
  | nil => exact absurd h (by simp)
  | cons p xs ih =>
    obtain ⟨a, b⟩ := p
    by_cases hk : k = a
    · -- the first entry has the key
      subst hk
      rw [lookup_cons_self, Option.some.injEq] at h
      rw [h]
      exact mem_cons_self
    · rw [lookup_cons_of_ne b hk] at h
      exact mem_cons_of_mem _ (ih h)

/-- In a strictly increasing list, an element occurs at one place only. -/
theorem not_mem_of_pairwise_lt_middle {γ : Type} [Preorder γ] {xs ys : List γ} {a : γ}
    (h : (xs ++ a :: ys).Pairwise (· < ·)) : a ∉ xs ∧ a ∉ ys := by
  rw [pairwise_append, pairwise_cons] at h
  obtain ⟨-, ⟨hy, -⟩, hxy⟩ := h
  exact ⟨fun ha => lt_irrefl a (hxy a ha a mem_cons_self), fun ha => lt_irrefl a (hy a ha)⟩

omit [DecidableEq α] in
/-- Two tests that no element passes together count at most the length of the list. -/
theorem countP_add_countP_le {p q : α → Bool} (l : List α) (h : ∀ a ∈ l, p a → ¬ q a) :
    l.countP p + l.countP q ≤ l.length := by
  have hq : l.countP q ≤ l.countP (fun a => ¬ p a) :=
    countP_mono_left fun a ha hqa => by simpa using fun hpa => h a ha hpa hqa
  rw [length_eq_countP_add_countP p]
  exact Nat.add_le_add_left hq _

/-- A list whose elements have distinct images, all among the images of `m`, is no longer than
the number of distinct images of `m`. -/
theorem length_le_dedup_of_subset {γ : Type} {f : γ → α} {l m : List γ} (hl : (l.map f).Nodup)
    (hm : l ⊆ m) : l.length ≤ (m.map f).dedup.length := by
  have hsub : l.map f <+~ (m.map f).dedup :=
    subperm_of_subset hl fun x hx => mem_dedup.mpr (map_subset f hm hx)
  simpa using hsub.length_le

/-- The images of the elements a loop keeps (the others skipped by `continue`) are among the
images of all. -/
theorem filterMap_ite_sublist {γ δ : Type} (p : γ → Bool) (f : γ → δ) (l : List γ) :
    (l.filterMap fun a => if p a then none else some (f a)) <+ l.map f := by
  induction l with
  | nil => exact Sublist.slnil
  | cons a l ih =>
    by_cases h : p a
    · simpa [h] using ih.cons (f a)
    · simpa [h] using ih.cons_cons (f a)

/-- A loop that appends the lists of the elements in turn builds their concatenation. -/
theorem foldl_append_eq_flatten {γ δ : Type} (f : γ → List δ) (l : List γ) (init : List δ) :
    l.foldl (fun acc x => acc ++ f x) init = init ++ (l.map f).flatten := by
  induction l generalizing init with
  | nil => simp
  | cons x l ih => simp [ih]

end List

namespace AList

variable {α γ : Type} [DecidableEq α]

/-- Appending `x` to the list at key `a` of a map of lists adds `x` to the concatenation of its
lists, whatever the order of the entries. -/
theorem flatten_insert_append (s : AList (fun _ : α => List γ)) (a : α) (x : γ) :
    ((s.insert a ((s.lookup a).getD [] ++ [x])).entries.map (·.2)).flatten.Perm
      ((s.entries.map (·.2)).flatten ++ [x]) := by
  rw [entries_insert]
  by_cases ha : a ∈ s.entries.keys
  · -- the entry of `a` moves to the front with `x` after its list
    obtain ⟨b, l₁, l₂, -, heq, hker⟩ := List.exists_of_kerase ha
    have hlookup : s.lookup a = some b :=
      mem_lookup_iff.mpr (heq ▸ List.mem_append_right _ List.mem_cons_self)
    classical
    rw [hker, hlookup, Option.getD_some, heq, List.perm_iff_count]
    intro y
    simp only [List.map_cons, List.map_append, List.flatten_cons, List.flatten_append,
      List.count_append]
    omega
  · rw [List.kerase_of_notMem_keys ha, lookup_eq_none.mpr (mem_keys.not.mpr ha)]
    simpa using @List.perm_append_comm _ [x] _

end AList
