import Mathlib

/-!
# Fixed-width byte strings, big- and little-endian

A number written in `n` bytes, most significant first, and read back by folding the bytes from
the left.  Reading gives back the number modulo `256 ^ n` (`ofBytes_toBytes`), so a number
below `256 ^ n` survives the round trip, also at the front of longer bytes
(`ofBytes_take_toBytes_append`).  The same for the least significant byte first
(`LittleEndian`).
-/

namespace BigEndian

/-- The `n` bytes of `v`, most significant first. -/
def toBytes : Nat → Nat → List UInt8
  | 0, _ => []
  | n + 1, v => (v / 256 ^ n % 256).toUInt8 :: toBytes n v

/-- The number whose bytes, most significant first, are `bs`. -/
def ofBytes (bs : List UInt8) : Nat := bs.foldl (fun acc b => acc * 256 + b.toNat) 0

@[simp] theorem length_toBytes (n v : Nat) : (toBytes n v).length = n := by
  induction n with
  | zero => rfl
  | succ n ih => simp [toBytes, ih]

/-- Reading the bytes of `v` after a prefix worth `acc`: the prefix shifted by the `n` bytes,
plus `v` cut to them. -/
theorem foldl_toBytes (n v acc : Nat) :
    (toBytes n v).foldl (fun acc b => acc * 256 + b.toNat) acc = acc * 256 ^ n + v % 256 ^ n := by
  induction n generalizing acc with
  | zero => simp [toBytes, Nat.mod_one]
  | succ n ih =>
    have hdigit : (v / 256 ^ n % 256).toUInt8.toNat = v / 256 ^ n % 256 :=
      Nat.mod_eq_of_lt (Nat.mod_lt _ (by norm_num))
    rw [toBytes, List.foldl_cons, ih, hdigit, Nat.mod_pow_succ]
    ring

theorem ofBytes_toBytes (n v : Nat) : ofBytes (toBytes n v) = v % 256 ^ n := by
  rw [ofBytes, foldl_toBytes, zero_mul, zero_add]

/-- A number written at the front of longer bytes reads back from their first `n`. -/
theorem ofBytes_take_toBytes_append (n v : Nat) (rest : List UInt8) :
    ofBytes ((toBytes n v ++ rest).take n) = v % 256 ^ n := by
  rw [List.take_left' (length_toBytes n v), ofBytes_toBytes]

end BigEndian

namespace LittleEndian

/-- The `n` bytes of `v`, least significant first. -/
def toBytes : Nat → Nat → List UInt8
  | 0, _ => []
  | n + 1, v => (v % 256).toUInt8 :: toBytes n (v / 256)

/-- The number whose bytes, least significant first, are `bs`. -/
def ofBytes : List UInt8 → Nat
  | [] => 0
  | b :: bs => b.toNat + 256 * ofBytes bs

@[simp] theorem length_toBytes (n v : Nat) : (toBytes n v).length = n := by
  induction n generalizing v with
  | zero => rfl
  | succ n ih => simp [toBytes, ih]

theorem ofBytes_toBytes (n v : Nat) : ofBytes (toBytes n v) = v % 256 ^ n := by
  induction n generalizing v with
  | zero => simp [toBytes, ofBytes, Nat.mod_one]
  | succ n ih =>
    have hdigit : (v % 256).toUInt8.toNat = v % 256 :=
      Nat.mod_eq_of_lt (Nat.mod_lt _ (by norm_num))
    rw [toBytes, ofBytes, ih, hdigit, Nat.pow_succ', Nat.mod_mul]

/-- A number written at the front of longer bytes reads back from their first `n`. -/
theorem ofBytes_take_toBytes_append (n v : Nat) (rest : List UInt8) :
    ofBytes ((toBytes n v ++ rest).take n) = v % 256 ^ n := by
  rw [List.take_left' (length_toBytes n v), ofBytes_toBytes]

end LittleEndian
