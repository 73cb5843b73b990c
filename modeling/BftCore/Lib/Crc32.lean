import Mathlib

/-!
# CRC-32 with the IEEE polynomial

The checksum of Go's `hash/crc32` with `IEEETable`, computed bit by bit: `update crc p` is
`crc32.Update(crc, crc32.IEEETable, p)`, what a hasher made by `crc32.NewIEEE()` does on `Write(p)`,
and `checksumIEEE p` is `crc32.ChecksumIEEE(p)`.

* `update_append`: updating with two slices in turn is updating once with their
  concatenation, so a hasher fed a stream in chunks sums the whole stream.
-/

namespace Crc32

/-- The IEEE polynomial, bit-reversed. -/
def ieee : UInt32 := 0xedb88320

/-- One bit of the division by the polynomial. -/
def bitStep (crc : UInt32) : UInt32 :=
  if crc &&& 1 = 1 then (crc >>> 1) ^^^ ieee else crc >>> 1

/-- One byte: added into the low bits of the register, then eight bits of the division. -/
def byteStep (crc : UInt32) (b : UInt8) : UInt32 :=
  Nat.repeat bitStep 8 (crc ^^^ b.toUInt32)

/-- `crc32.Update(crc, IEEETable, p)`: the register is complemented before and after the
bytes are divided in. -/
def update (crc : UInt32) (p : List UInt8) : UInt32 :=
  ~~~ (p.foldl byteStep (~~~ crc))

/-- `crc32.ChecksumIEEE(p)`. -/
def checksumIEEE (p : List UInt8) : UInt32 := update 0 p

@[simp] theorem update_nil (crc : UInt32) : update crc [] = crc :=
  UInt32.not_not

/-- The complement taken after the first slice is undone before the second. -/
theorem update_append (crc : UInt32) (p q : List UInt8) :
    update (update crc p) q = update crc (p ++ q) := by
  simp only [update, UInt32.not_not, List.foldl_append]

/-- The check value of the IEEE CRC-32, the checksum of the digits `1` to `9`. -/
example : checksumIEEE [0x31, 0x32, 0x33, 0x34, 0x35, 0x36, 0x37, 0x38, 0x39] = 0xcbf43926 := by
  decide +kernel

end Crc32
