import Mathlib

/-!
# Canonical Merkle trees

The hash tree over a list of leaf hashes that splits `n ≥ 2` leaves after the largest power
of two below `n`, its root and its audit paths, over any type of hashes and any function
`node` that hashes two children:

* `split`, `hashAux`, `treeHash`, `root`: the hash of the tree, `none` for no leaves;
* `pathAux`, `getMerklePath`: the audit path of a leaf, from the leaf up: for each level
  whether the node on the way is a left child, and the hash of its sibling; an index out of
  range is an error;
* `eval`: the hash a path leads to from a leaf hash;
* `eval_getMerklePath`: the path of a leaf leads from it to the root, and
  `getMerklePath_isOk_iff`: there is a path exactly for the indices in range.

The recursion on a list of leaves carries a fuel bound, the number of leaves, so that the
definitions compute by `decide` and `rfl`.
-/

namespace Merkle

variable {α : Type} [Inhabited α] (node : α → α → α)

/-- `hibit(n - 1)`: the number of leaves of the left subtree of a tree of `n ≥ 2` leaves, the
largest power of two below `n`. -/
def split (n : Nat) : Nat := 2 ^ Nat.log2 (n - 1)

theorem split_pos (n : Nat) : 0 < split n := Nat.two_pow_pos _

theorem split_lt {n : Nat} (hn : 2 ≤ n) : split n < n :=
  Nat.lt_of_le_of_lt (Nat.log2_self_le (by omega)) (by omega)

/-- The hash of the tree over a nonempty list of leaves; `fuel` bounds its depth. -/
def hashAux : Nat → List α → α
  | _, [] => default
  | _, [a] => a
  | 0, _ => default
  | fuel + 1, xs =>
    let k := split xs.length
    node (hashAux fuel (xs.take k)) (hashAux fuel (xs.drop k))

/-- The hash of the tree over the leaves: a tree of `n` leaves is less than `n` deep. -/
def treeHash (xs : List α) : α := hashAux node xs.length xs

/-- `GetRootHash()`: the hash of the tree, nil for no leaves. -/
def root (xs : List α) : Option α := if xs.isEmpty then none else some (treeHash node xs)

/-- The audit path of leaf `i`, from the leaf up: whether the node on the way is a left
child, and its sibling's hash. -/
def pathAux : Nat → List α → Nat → List (Bool × α)
  | _, [], _ => []
  | _, [_], _ => []
  | 0, _, _ => []
  | fuel + 1, xs, i =>
    let k := split xs.length
    if i < k then pathAux fuel (xs.take k) i ++ [(true, hashAux node fuel (xs.drop k))]
    else pathAux fuel (xs.drop k) (i - k) ++ [(false, hashAux node fuel (xs.take k))]

/-- The error of `GetMerklePath`. -/
inductive MerkleError where
  | indexOutOfBounds
  deriving DecidableEq, Repr

/-- `GetMerklePath(dataIndex)`: the audit path of a leaf, an error for an index out of range. -/
def getMerklePath (xs : List α) (dataIndex : Int) : Except MerkleError (List (Bool × α)) :=
  if 0 ≤ dataIndex ∧ dataIndex < xs.length then .ok (pathAux node xs.length xs dataIndex.toNat)
  else .error .indexOutOfBounds

/-- `EvalMerklePath`: the hash a path leads to from a leaf hash. -/
def eval (p : List (Bool × α)) (leaf : α) : α :=
  p.foldl (fun h item => if item.1 then node h item.2 else node item.2 h) leaf

omit [Inhabited α] in
@[simp] theorem eval_nil (leaf : α) : eval node [] leaf = leaf := rfl

omit [Inhabited α] in
@[simp] theorem eval_append_left (p : List (Bool × α)) (s leaf : α) :
    eval node (p ++ [(true, s)]) leaf = node (eval node p leaf) s := by
  simp [eval]

omit [Inhabited α] in
@[simp] theorem eval_append_right (p : List (Bool × α)) (s leaf : α) :
    eval node (p ++ [(false, s)]) leaf = node s (eval node p leaf) := by
  simp [eval]

/-- **The audit path of a leaf leads from it to the hash of the tree**, by induction on the
fuel: the leaf lies in the left part or in the right part of the split, and the path of the
part is followed by the sibling at the top. -/
theorem eval_pathAux :
    ∀ (fuel : Nat) (xs : List α) (i : Nat) (hi : i < xs.length), xs.length ≤ fuel + 1 →
      eval node (pathAux node fuel xs i) xs[i] = hashAux node fuel xs := by
  intro fuel
  induction fuel with
  | zero =>
    intro xs i hi hn
    match xs, hi with
    | [_], hi =>
      obtain rfl := Nat.lt_one_iff.mp hi
      rfl
    | _ :: _ :: rest, _ =>
      have : rest.length + 2 ≤ 1 := hn
      omega
  | succ fuel ih =>
    intro xs i hi hn
    match xs, hi with
    | [_], hi =>
      obtain rfl := Nat.lt_one_iff.mp hi
      rfl
    | a :: b :: rest, hi =>
      have hlen : (a :: b :: rest).length = rest.length + 2 := rfl
      have hk := split_lt (n := (a :: b :: rest).length) (by omega)
      have hk0 := split_pos (a :: b :: rest).length
      simp only [pathAux, hashAux]
      generalize split (a :: b :: rest).length = k at hk hk0 ⊢
      have hi₀ : i < rest.length + 2 := hi
      rw [hlen] at hk hn
      by_cases hik : i < k
      · -- the leaf is in the left part
        rw [if_pos hik, eval_append_left]
        have hi' : i < ((a :: b :: rest).take k).length := by
          rw [List.length_take, hlen]
          omega
        have hget : (a :: b :: rest)[i] = ((a :: b :: rest).take k)[i] := by
          rw [List.getElem_take]
        rw [hget, ih _ i hi' (by rw [List.length_take, hlen]; omega)]
      · -- the leaf is in the right part
        rw [if_neg hik, eval_append_right]
        have hi' : i - k < ((a :: b :: rest).drop k).length := by
          rw [List.length_drop, hlen]
          omega
        have hget : (a :: b :: rest)[i] = ((a :: b :: rest).drop k)[i - k] := by
          rw [List.getElem_drop]
          congr 1
          omega
        rw [hget, ih _ _ hi' (by rw [List.length_drop, hlen]; omega)]

/-- There is a path exactly for the indices in range. -/
theorem getMerklePath_isOk_iff (xs : List α) (dataIndex : Int) :
    (∃ p, getMerklePath node xs dataIndex = .ok p) ↔ 0 ≤ dataIndex ∧ dataIndex < xs.length := by
  unfold getMerklePath
  split_ifs with h
  · exact ⟨fun _ => h, fun _ => ⟨_, rfl⟩⟩
  · exact ⟨fun ⟨_, hp⟩ => hp.elim, fun h' => absurd h' h⟩

/-- **A path `GetMerklePath` returns leads from its leaf to the root.** -/
theorem eval_getMerklePath {xs : List α} {dataIndex : Int} {p : List (Bool × α)}
    (h : getMerklePath node xs dataIndex = .ok p) :
    ∃ hi : dataIndex.toNat < xs.length, root node xs = some (eval node p xs[dataIndex.toNat]) := by
  unfold getMerklePath at h
  split_ifs at h with hr
  cases h
  have hi : dataIndex.toNat < xs.length := by omega
  refine ⟨hi, ?_⟩
  have hne : xs.isEmpty = false := by
    cases xs with
    | nil => simp at hi
    | cons => rfl
  rw [root, hne, if_neg Bool.false_ne_true, treeHash,
    eval_pathAux node _ xs _ hi (by omega)]

end Merkle
