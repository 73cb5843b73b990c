import Mathlib

/-!
# Quorum intersection

Two sets of members of one universe overlap in at least as many members as their sizes together
exceed the universe's, so two majorities share a member.  Stated over finite sets, with the
count of the members of a list without duplicates that lie in a set, the way a tally keeps its
voters.
-/

namespace Finset

variable {α : Type} [DecidableEq α]

/-- Two subsets of `u` overlap in at least `#s + #t - #u` members. -/
theorem card_add_card_le_card_inter {s t u : Finset α} (hs : s ⊆ u) (ht : t ⊆ u) :
    #s + #t ≤ #u + #(s ∩ t) := by
  have hunion : #(s ∪ t) ≤ #u := card_le_card (union_subset hs ht)
  have hsum := card_union_add_card_inter s t
  omega

end Finset

namespace List

variable {α : Type} [DecidableEq α]

/-- The members of a list without duplicates that lie in `s` are those of `s` it has. -/
theorem countP_mem_eq_card_inter {l : List α} (hl : l.Nodup) (s : Finset α) :
    l.countP (· ∈ s) = (l.toFinset ∩ s).card := by
  rw [countP_eq_length_filter, ← toFinset_card_of_nodup (hl.filter _), toFinset_filter]
  simp [Finset.filter_mem_eq_inter]

end List
