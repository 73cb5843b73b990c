import Mathlib
import BftCore.State.Unit

/-!
# `keyvaluedb/memorydb`: the in-memory key-value store

A `MemoryDB` (`memorydb.go`) keeps a map from keys to encoded values; a transaction (`tx.go`)
works on a copy of the map, which `Commit` puts in place of the store's and `Rollback` drops.
Every call checks its key first (`keyvaluedb.CheckKey`): an empty key is `invalid key`.

* `MemoryDB V`, with `read`, `write` and `delete`: the same calls for the store and for a
  transaction on it, a transaction being the map it works on, committed by taking it as the
  store's;
* `MemoryDB.All Q`: every entry satisfies `Q`; `write` of an entry that satisfies `Q` keeps it,
  and `delete` keeps it (`All.write`, `All.delete`);
* what each call returns and leaves (`write_eq_ok_iff`, `delete_eq_ok_iff`, `read_eq_ok_iff`).

A value is kept as itself, not as its encoding: a reader that asks for another type than the
entry was written as gets a decode error where it needs one.  The mock write error of the tests,
and the iterators, are left out.
-/

namespace BftCore.Keyvaluedb

open BftCore.State (Bytes)

/-- The map of a `MemoryDB`, or of a `Tx` on it. -/
structure MemoryDB (V : Type) where
  db : Bytes → Option V

namespace MemoryDB

variable {V : Type}

/-- `New()`. -/
def empty : MemoryDB V := ⟨fun _ => none⟩

/-- `keyvaluedb.CheckKey`. -/
def checkKey (key : Bytes) : Except String Unit :=
  if key.isEmpty then .error "invalid key" else .ok ()

/-- `Read(key, value)`: the entry of the key, if there is one. -/
def read (m : MemoryDB V) (key : Bytes) : Except String (Option V) := do
  checkKey key
  pure (m.db key)

/-- `Write(key, value)`. -/
def write (m : MemoryDB V) (key : Bytes) (value : V) : Except String (MemoryDB V) := do
  checkKey key
  pure ⟨Function.update m.db key (some value)⟩

/-- `Delete(key)`: deleting a key that is not there changes nothing. -/
def delete (m : MemoryDB V) (key : Bytes) : Except String (MemoryDB V) := do
  checkKey key
  pure ⟨Function.update m.db key none⟩

theorem checkKey_eq_ok {key : Bytes} (h : key ≠ []) : checkKey key = .ok () := by
  simp [checkKey, List.isEmpty_iff, h]

theorem write_eq_ok_iff {m m' : MemoryDB V} {key : Bytes} {value : V} :
    m.write key value = .ok m' ↔ key ≠ [] ∧ m' = ⟨Function.update m.db key (some value)⟩ := by
  by_cases h : key = []
  · subst h
    simp [write, checkKey, bind, Except.bind]
  · simp [write, checkKey_eq_ok h, bind, Except.bind, pure, Except.pure, h, eq_comm]

theorem write_of_ne_nil (m : MemoryDB V) {key : Bytes} (h : key ≠ []) (value : V) :
    m.write key value = .ok ⟨Function.update m.db key (some value)⟩ :=
  write_eq_ok_iff.2 ⟨h, rfl⟩

theorem delete_eq_ok_iff {m m' : MemoryDB V} {key : Bytes} :
    m.delete key = .ok m' ↔ key ≠ [] ∧ m' = ⟨Function.update m.db key none⟩ := by
  by_cases h : key = []
  · subst h
    simp [delete, checkKey, bind, Except.bind]
  · simp [delete, checkKey_eq_ok h, bind, Except.bind, pure, Except.pure, h, eq_comm]

theorem delete_of_ne_nil (m : MemoryDB V) {key : Bytes} (h : key ≠ []) :
    m.delete key = .ok ⟨Function.update m.db key none⟩ :=
  delete_eq_ok_iff.2 ⟨h, rfl⟩

theorem read_eq_ok_iff {m : MemoryDB V} {key : Bytes} {r : Option V} :
    m.read key = .ok r ↔ key ≠ [] ∧ r = m.db key := by
  by_cases h : key = []
  · subst h
    simp [read, checkKey, bind, Except.bind]
  · simp [read, checkKey_eq_ok h, bind, Except.bind, pure, Except.pure, h, eq_comm]

/-! ### Invariants of the entries -/

/-- Every entry satisfies `Q`. -/
def All (Q : Bytes → V → Prop) (m : MemoryDB V) : Prop :=
  ∀ key v, m.db key = some v → Q key v

variable {Q Q' : Bytes → V → Prop}

theorem All.empty : (empty : MemoryDB V).All Q := by
  intro _ _ h
  cases h

theorem All.mono {m : MemoryDB V} (h : m.All Q) (hQ : ∀ key v, Q key v → Q' key v) : m.All Q' :=
  fun key v hv => hQ key v (h key v hv)

theorem All.write {m m' : MemoryDB V} (h : m.All Q) {key : Bytes} {value : V}
    (hw : m.write key value = .ok m') (hq : Q key value) : m'.All Q := by
  obtain ⟨-, rfl⟩ := write_eq_ok_iff.1 hw
  intro k v hv
  dsimp only at hv
  by_cases hk : k = key
  · subst hk
    simp only [Function.update_self, Option.some.injEq] at hv
    exact hv ▸ hq
  · rw [Function.update_of_ne hk] at hv
    exact h k v hv

theorem All.delete {m m' : MemoryDB V} (h : m.All Q) {key : Bytes} (hw : m.delete key = .ok m') :
    m'.All Q := by
  obtain ⟨-, rfl⟩ := delete_eq_ok_iff.1 hw
  intro k v hv
  dsimp only at hv
  by_cases hk : k = key
  · subst hk
    simp at hv
  · rw [Function.update_of_ne hk] at hv
    exact h k v hv

end MemoryDB

end BftCore.Keyvaluedb
