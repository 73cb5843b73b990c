import BftCore.Lib.Bytes

/-!
# `predicates/wasm/wvm/encoder`: the data handed to a predicate

`TVEnc` writes Go values in the format the Rust predicate SDK reads: a type byte, then a
little-endian `u32` length and the bytes for a byte string or a string, the little-endian
integer for a `u32` or `u64`, and for an array the little-endian `u32` count of its elements
followed by their encodings.  `EncodeTagged` writes a tag byte before the value.  A value of
another type is not written; it leaves the error that `Bytes()` returns.

The Go values are `Value`; the four byte-string types are written alike, and so are `uint16`
and `uint32`.  What the SDK reads back is `Decoded`, and `Value.widen` says which value a Go
value reads back as.

* `encoding`: the format, and `encode_buf`: `Encode` appends the format of the value;
* `decode`: a reader of the format, and `decode_encoding`: it reads every value back, also in
  front of more bytes;
* `encoder_round_trip`: the encodings of the values `Encode` supports read back, none is a
  proper prefix of another, a sequence of `EncodeTagged` calls reads back as the list of its tags
  and values, and a value of another type, also deep in an array, makes `Bytes()` fail.
-/

namespace BftCore.Predicates

/-! ### Values -/

/-- The byte-string types of Go that `Encode` writes as bytes. -/
inductive BytesKind where
  /-- `[]byte` -/
  | bytes
  /-- `hex.Bytes` -/
  | hexBytes
  /-- `types.RawCBOR` -/
  | rawCBOR
  /-- `types.UnitID` -/
  | unitID

/-- A Go value handed to `Encode`: a `[]any`, a byte string, a string (its bytes), an unsigned
integer, or a value of another type, named as `%T` prints it. -/
inductive Value where
  | array (items : List Value)
  | bytes (kind : BytesKind) (b : List UInt8)
  | string (s : List UInt8)
  | uint16 (v : UInt16)
  | uint32 (v : UInt32)
  | uint64 (v : UInt64)
  | other (typeName : String)

/-- `type_id_bytes`. -/
def typeIdBytes : UInt8 := 1

/-- `type_id_u64`. -/
def typeIdU64 : UInt8 := 2

/-- `type_id_u32`. -/
def typeIdU32 : UInt8 := 3

/-- `type_id_string`. -/
def typeIdString : UInt8 := 4

/-- `type_id_array`. -/
def typeIdArray : UInt8 := 5

/-- `binary.LittleEndian.AppendUint32(buf, v)`. -/
def appendUint32 (buf : List UInt8) (v : UInt32) : List UInt8 :=
  buf ++ LittleEndian.toBytes 4 v.toNat

/-- `binary.LittleEndian.AppendUint64(buf, v)`. -/
def appendUint64 (buf : List UInt8) (v : UInt64) : List UInt8 :=
  buf ++ LittleEndian.toBytes 8 v.toNat

/-! ### The encoder -/

/-- `TVEnc`: the bytes written so far, and the first error. -/
structure TVEnc where
  buf : List UInt8
  err : Option String

namespace TVEnc

/-- `enc.writeTypeTag(typeID)`. -/
def writeTypeTag (enc : TVEnc) (typeID : UInt8) : TVEnc :=
  { enc with buf := enc.buf ++ [typeID] }

/-- `enc.Bytes()`: the bytes written and the first error. -/
def bytes (enc : TVEnc) : List UInt8 × Option String := (enc.buf, enc.err)

/-- `enc.setErr(err)`: only the first error is kept. -/
def setErr (enc : TVEnc) (err : String) : TVEnc :=
  if enc.err.isNone then { enc with err := some err } else enc

/-- The length and the bytes of `value` after the type byte `typeID`; `WriteBytes` and
`WriteString` differ only in that byte. -/
def writeLengthPrefixed (enc : TVEnc) (typeID : UInt8) (value : List UInt8) : TVEnc :=
  let enc := enc.writeTypeTag typeID
  let enc := { enc with buf := appendUint32 enc.buf value.length.toUInt32 }
  if value.length > 0 then { enc with buf := enc.buf ++ value } else enc

/-- `enc.WriteBytes(value)`. -/
def writeBytes (enc : TVEnc) (value : List UInt8) : TVEnc :=
  enc.writeLengthPrefixed typeIdBytes value

/-- `enc.WriteString(value)`. -/
def writeString (enc : TVEnc) (value : List UInt8) : TVEnc :=
  enc.writeLengthPrefixed typeIdString value

/-- `enc.WriteUInt64(value)`. -/
def writeUInt64 (enc : TVEnc) (value : UInt64) : TVEnc :=
  let enc := enc.writeTypeTag typeIdU64
  { enc with buf := appendUint64 enc.buf value }

/-- `enc.WriteUInt32(value)`. -/
def writeUInt32 (enc : TVEnc) (value : UInt32) : TVEnc :=
  let enc := enc.writeTypeTag typeIdU32
  { enc with buf := appendUint32 enc.buf value }

mutual

/-- `enc.Encode(item)`. -/
def encode (enc : TVEnc) : Value → TVEnc
  | .array items =>
    let enc := enc.writeTypeTag typeIdArray
    encodeItems { enc with buf := appendUint32 enc.buf items.length.toUInt32 } items
  | .bytes _ b => enc.writeBytes b
  | .string s => enc.writeString s
  | .uint16 v => enc.writeUInt32 v.toUInt32
  | .uint32 v => enc.writeUInt32 v
  | .uint64 v => enc.writeUInt64 v
  | .other typeName => enc.setErr s!"unsupported type: {typeName}"

/-- The loop of `Encode` over the elements of an array. -/
def encodeItems (enc : TVEnc) : List Value → TVEnc
  | [] => enc
  | v :: vs => (enc.encode v).encodeItems vs

end

/-- `enc.EncodeTagged(tag, item)`. -/
def encodeTagged (enc : TVEnc) (tag : UInt8) (item : Value) : TVEnc :=
  { enc with buf := enc.buf ++ [tag] }.encode item

/-- A new encoder, `var buf TVEnc`. -/
def empty : TVEnc := ⟨[], none⟩

/-- `EncodeTagged` called with each tag and value in turn. -/
def encodeTaggedAll (enc : TVEnc) (items : List (UInt8 × Value)) : TVEnc :=
  items.foldl (fun enc p => enc.encodeTagged p.1 p.2) enc

end TVEnc

/-! ### The transaction system's encoder -/

/-- The fields of `types.TransactionOrder` that `txOrder` writes. -/
structure TxOrderFields where
  partitionID : UInt32
  unitID : List UInt8
  type : UInt16
  referenceNumber : List UInt8

/-- `TXSystemEncoder.txOrder(txo, ver)`. -/
def txOrder (txo : TxOrderFields) : List UInt8 × Option String :=
  let buf := TVEnc.empty
  let buf := buf.encodeTagged 1 (.uint32 txo.partitionID)
  let buf := buf.encodeTagged 2 (.bytes .unitID txo.unitID)
  let buf := buf.encodeTagged 3 (.uint16 txo.type)
  let buf := buf.encodeTagged 4 (.bytes .bytes txo.referenceNumber)
  buf.bytes

/-- `TXSystemEncoder.txRecord(txr, ver, getHandle)`, with the handle `getHandle` gave the
record's order. -/
def txRecord (orderHandle : UInt32) : List UInt8 × Option String :=
  (TVEnc.empty.encodeTagged 1 (.uint32 orderHandle)).bytes

/-! ### The format -/

mutual

/-- Whether a value can be written: no value of another type in it, and every length and count
below `2 ^ 32`, which the `u32` fields hold. -/
def Value.supported : Value → Bool
  | .array items => decide (items.length < 2 ^ 32) && Value.supportedItems items
  | .bytes _ b => decide (b.length < 2 ^ 32)
  | .string s => decide (s.length < 2 ^ 32)
  | .uint16 _ => true
  | .uint32 _ => true
  | .uint64 _ => true
  | .other _ => false

/-- Whether every element of an array can be written. -/
def Value.supportedItems : List Value → Bool
  | [] => true
  | v :: vs => v.supported && Value.supportedItems vs

end

mutual

/-- Whether a value of another type is in a value. -/
def Value.hasOther : Value → Bool
  | .array items => Value.hasOtherItems items
  | .other _ => true
  | _ => false

/-- Whether a value of another type is in the elements of an array. -/
def Value.hasOtherItems : List Value → Bool
  | [] => false
  | v :: vs => v.hasOther || Value.hasOtherItems vs

end

mutual

/-- The bytes of the format for a value: a type byte, then the payload. -/
def encoding : Value → List UInt8
  | .array items => typeIdArray :: LittleEndian.toBytes 4 items.length ++ encodingItems items
  | .bytes _ b => typeIdBytes :: LittleEndian.toBytes 4 b.length ++ b
  | .string s => typeIdString :: LittleEndian.toBytes 4 s.length ++ s
  | .uint16 v => typeIdU32 :: LittleEndian.toBytes 4 v.toNat
  | .uint32 v => typeIdU32 :: LittleEndian.toBytes 4 v.toNat
  | .uint64 v => typeIdU64 :: LittleEndian.toBytes 8 v.toNat
  | .other _ => []

/-- The bytes of the format for the elements of an array, one after another. -/
def encodingItems : List Value → List UInt8
  | [] => []
  | v :: vs => encoding v ++ encodingItems vs

end

/-- What the predicate SDK reads back. -/
inductive Decoded where
  | array (items : List Decoded)
  | bytes (b : List UInt8)
  | string (s : List UInt8)
  | u32 (v : UInt32)
  | u64 (v : UInt64)

mutual

/-- The value a Go value reads back as: the byte-string types as bytes, a `uint16` as a
`u32`. -/
def Value.widen : Value → Decoded
  | .array items => .array (Value.widenItems items)
  | .bytes _ b => .bytes b
  | .string s => .string s
  | .uint16 v => .u32 v.toUInt32
  | .uint32 v => .u32 v
  | .uint64 v => .u64 v
  | .other _ => .array []

/-- The values the elements of an array read back as. -/
def Value.widenItems : List Value → List Decoded
  | [] => []
  | v :: vs => v.widen :: Value.widenItems vs

end

/-! ### A reader of the format -/

/-- A little-endian `u32` at the front of `bs`, and the bytes after it. -/
def readUint32 (bs : List UInt8) : Option (UInt32 × List UInt8) :=
  if bs.length < 4 then none else some ((LittleEndian.ofBytes (bs.take 4)).toUInt32, bs.drop 4)

/-- A little-endian `u64` at the front of `bs`, and the bytes after it. -/
def readUint64 (bs : List UInt8) : Option (UInt64 × List UInt8) :=
  if bs.length < 8 then none else some ((LittleEndian.ofBytes (bs.take 8)).toUInt64, bs.drop 8)

/-- A `u32` length and that many bytes at the front of `bs`, and the bytes after them. -/
def readLengthPrefixed (bs : List UInt8) : Option (List UInt8 × List UInt8) :=
  match readUint32 bs with
  | none => none
  | some (n, r) => if r.length < n.toNat then none else some (r.take n.toNat, r.drop n.toNat)

mutual

/-- The value at the front of `bs`, and the bytes after it; `fuel` bounds the nesting. -/
def decode : Nat → List UInt8 → Option (Decoded × List UInt8)
  | 0, _ => none
  | _ + 1, [] => none
  | fuel + 1, t :: rest =>
    if t = typeIdBytes then (readLengthPrefixed rest).map fun p => (.bytes p.1, p.2)
    else if t = typeIdString then (readLengthPrefixed rest).map fun p => (.string p.1, p.2)
    else if t = typeIdU32 then (readUint32 rest).map fun p => (.u32 p.1, p.2)
    else if t = typeIdU64 then (readUint64 rest).map fun p => (.u64 p.1, p.2)
    else if t = typeIdArray then
      match readUint32 rest with
      | none => none
      | some (n, r) => (decodeItems fuel n.toNat r).map fun p => (.array p.1, p.2)
    else none

/-- `n` values one after another at the front of `bs`, and the bytes after them. -/
def decodeItems : Nat → Nat → List UInt8 → Option (List Decoded × List UInt8)
  | _, 0, bs => some ([], bs)
  | 0, _ + 1, _ => none
  | fuel + 1, n + 1, bs =>
    match decode fuel bs with
    | none => none
    | some (v, r) => (decodeItems fuel n r).map fun p => (v :: p.1, p.2)

end

/-- Tagged values one after another to the end of `bs`. -/
def decodeTagged : Nat → List UInt8 → Option (List (UInt8 × Decoded))
  | _, [] => some []
  | 0, _ :: _ => none
  | fuel + 1, tag :: rest =>
    match decode rest.length rest with
    | none => none
    | some (v, r) => (decodeTagged fuel r).map ((tag, v) :: ·)

/-! ### The reader reads the format back -/

theorem readUint32_append (v : Nat) (rest : List UInt8) :
    readUint32 (LittleEndian.toBytes 4 v ++ rest) = some (v.toUInt32, rest) := by
  have hlen : ¬(LittleEndian.toBytes 4 v ++ rest).length < 4 := by simp
  rw [readUint32, if_neg hlen, LittleEndian.ofBytes_take_toBytes_append,
    List.drop_left' (LittleEndian.length_toBytes 4 v)]
  -- the bytes give the number back modulo `2 ^ 32`, which the conversion drops anyway
  congr 2
  apply UInt32.toNat.inj
  simp

theorem readUint64_append (v : Nat) (rest : List UInt8) :
    readUint64 (LittleEndian.toBytes 8 v ++ rest) = some (v.toUInt64, rest) := by
  have hlen : ¬(LittleEndian.toBytes 8 v ++ rest).length < 8 := by simp
  rw [readUint64, if_neg hlen, LittleEndian.ofBytes_take_toBytes_append,
    List.drop_left' (LittleEndian.length_toBytes 8 v)]
  congr 2
  apply UInt64.toNat.inj
  simp

theorem readLengthPrefixed_append {b : List UInt8} (hb : b.length < 2 ^ 32) (rest : List UInt8) :
    readLengthPrefixed (LittleEndian.toBytes 4 b.length ++ (b ++ rest)) = some (b, rest) := by
  have hlen : b.length.toUInt32.toNat = b.length := by
    simp only [Nat.toUInt32_eq, UInt32.toNat_ofNat']
    omega
  simp [readLengthPrefixed, readUint32_append, hlen]

/-- Every value that can be written has a type byte and a payload of four bytes or more. -/
theorem length_encoding {v : Value} (hv : v.supported = true) : 5 ≤ (encoding v).length := by
  cases v <;> simp_all [encoding, Value.supported]

mutual

/-- The reader reads a value back from its bytes, with fuel as many as they are. -/
theorem decode_encoding : ∀ (v : Value), v.supported = true → ∀ (fuel : Nat) (rest : List UInt8),
    (encoding v).length ≤ fuel → decode fuel (encoding v ++ rest) = some (v.widen, rest)
  | .array items, hv, fuel, rest, hfuel => by
    simp only [Value.supported, Bool.and_eq_true, decide_eq_true_eq] at hv
    obtain ⟨f, rfl⟩ : ∃ f, fuel = f + 1 := ⟨fuel - 1, by simp [encoding] at hfuel; omega⟩
    have hitems : (encodingItems items).length < f := by
      simp [encoding] at hfuel
      omega
    have hcount : items.length.toUInt32.toNat = items.length := by
      simp only [Nat.toUInt32_eq, UInt32.toNat_ofNat']
      omega
    simp [encoding, decode, typeIdArray, typeIdBytes, typeIdString, typeIdU32, typeIdU64,
      readUint32_append, hcount, decodeItems_encodingItems items hv.2 f rest hitems, Value.widen]
  | .bytes _ b, hv, fuel, rest, hfuel => by
    simp only [Value.supported, decide_eq_true_eq] at hv
    obtain ⟨f, rfl⟩ : ∃ f, fuel = f + 1 := ⟨fuel - 1, by simp [encoding] at hfuel; omega⟩
    simp [encoding, decode, typeIdBytes, readLengthPrefixed_append hv, Value.widen]
  | .string s, hv, fuel, rest, hfuel => by
    simp only [Value.supported, decide_eq_true_eq] at hv
    obtain ⟨f, rfl⟩ : ∃ f, fuel = f + 1 := ⟨fuel - 1, by simp [encoding] at hfuel; omega⟩
    simp [encoding, decode, typeIdBytes, typeIdString, readLengthPrefixed_append hv, Value.widen]
  | .uint16 v, _, fuel, rest, hfuel => by
    obtain ⟨f, rfl⟩ : ∃ f, fuel = f + 1 := ⟨fuel - 1, by simp [encoding] at hfuel; omega⟩
    -- a `uint16` is written as the `u32` of the same number
    have hv : v.toNat.toUInt32 = v.toUInt32 := by
      apply UInt32.toNat.inj
      simp
    simp [encoding, decode, typeIdBytes, typeIdString, typeIdU32, readUint32_append, hv,
      Value.widen]
  | .uint32 v, _, fuel, rest, hfuel => by
    obtain ⟨f, rfl⟩ : ∃ f, fuel = f + 1 := ⟨fuel - 1, by simp [encoding] at hfuel; omega⟩
    simp [encoding, decode, typeIdBytes, typeIdString, typeIdU32, readUint32_append, Value.widen]
  | .uint64 v, _, fuel, rest, hfuel => by
    obtain ⟨f, rfl⟩ : ∃ f, fuel = f + 1 := ⟨fuel - 1, by simp [encoding] at hfuel; omega⟩
    simp [encoding, decode, typeIdBytes, typeIdString, typeIdU32, typeIdU64, readUint64_append,
      Value.widen]
  | .other _, hv, _, _, _ => by simp [Value.supported] at hv

/-- The reader reads the elements of an array back from their bytes. -/
theorem decodeItems_encodingItems : ∀ (vs : List Value), Value.supportedItems vs = true →
    ∀ (fuel : Nat) (rest : List UInt8), (encodingItems vs).length < fuel →
      decodeItems fuel vs.length (encodingItems vs ++ rest) = some (Value.widenItems vs, rest)
  | [], _, fuel, rest, _ => by simp [decodeItems, encodingItems, Value.widenItems]
  | v :: vs, hvs, fuel, rest, hfuel => by
    simp only [Value.supportedItems, Bool.and_eq_true] at hvs
    have hv := length_encoding hvs.1
    obtain ⟨f, rfl⟩ : ∃ f, fuel = f + 1 := ⟨fuel - 1, by simp [encodingItems] at hfuel; omega⟩
    simp only [encodingItems, List.length_append] at hfuel
    simp [decodeItems, encodingItems, List.append_assoc,
      decode_encoding v hvs.1 f _ (by omega),
      decodeItems_encodingItems vs hvs.2 f rest (by omega), Value.widenItems]

end

/-! ### The encoder writes the format -/

/-- `WriteBytes` and `WriteString` write their type byte, the length and the bytes. -/
theorem TVEnc.writeLengthPrefixed_buf (enc : TVEnc) (typeID : UInt8) {value : List UInt8}
    (hlen : value.length < 2 ^ 32) :
    (enc.writeLengthPrefixed typeID value).buf =
      enc.buf ++ typeID :: LittleEndian.toBytes 4 value.length ++ value := by
  have hlen' : value.length.toUInt32.toNat = value.length := by
    simp only [Nat.toUInt32_eq, UInt32.toNat_ofNat']
    omega
  unfold writeLengthPrefixed
  dsimp only
  split
  · simp [writeTypeTag, appendUint32, hlen']
  · -- an empty value: nothing follows the length
    rename_i hempty
    obtain rfl : value = [] := List.eq_nil_of_length_eq_zero (by omega)
    simp [writeTypeTag, appendUint32]

theorem TVEnc.writeLengthPrefixed_err (enc : TVEnc) (typeID : UInt8) (value : List UInt8) :
    (enc.writeLengthPrefixed typeID value).err = enc.err := by
  unfold writeLengthPrefixed
  dsimp only
  split <;> rfl

mutual

/-- `Encode` appends the format of a value it can write. -/
theorem encode_buf : ∀ (v : Value), v.supported = true → ∀ (enc : TVEnc),
    (enc.encode v).buf = enc.buf ++ encoding v
  | .array items, hv, enc => by
    simp only [Value.supported, Bool.and_eq_true, decide_eq_true_eq] at hv
    have hcount : items.length.toUInt32.toNat = items.length := by
      simp only [Nat.toUInt32_eq, UInt32.toNat_ofNat']
      omega
    simp [TVEnc.encode, TVEnc.writeTypeTag, appendUint32, hcount, encodeItems_buf items hv.2,
      encoding]
  | .bytes _ b, hv, enc => by
    simp only [Value.supported, decide_eq_true_eq] at hv
    simp [TVEnc.encode, TVEnc.writeBytes, enc.writeLengthPrefixed_buf _ hv, encoding]
  | .string s, hv, enc => by
    simp only [Value.supported, decide_eq_true_eq] at hv
    simp [TVEnc.encode, TVEnc.writeString, enc.writeLengthPrefixed_buf _ hv, encoding]
  | .uint16 v, _, enc => by
    simp [TVEnc.encode, TVEnc.writeUInt32, TVEnc.writeTypeTag, appendUint32, encoding]
  | .uint32 v, _, enc => by
    simp [TVEnc.encode, TVEnc.writeUInt32, TVEnc.writeTypeTag, appendUint32, encoding]
  | .uint64 v, _, enc => by
    simp [TVEnc.encode, TVEnc.writeUInt64, TVEnc.writeTypeTag, appendUint64, encoding]
  | .other _, hv, _ => by simp [Value.supported] at hv

theorem encodeItems_buf : ∀ (vs : List Value), Value.supportedItems vs = true → ∀ (enc : TVEnc),
    (enc.encodeItems vs).buf = enc.buf ++ encodingItems vs
  | [], _, enc => by simp [TVEnc.encodeItems, encodingItems]
  | v :: vs, hvs, enc => by
    simp only [Value.supportedItems, Bool.and_eq_true] at hvs
    simp [TVEnc.encodeItems, encodeItems_buf vs hvs.2, encode_buf v hvs.1, encodingItems]

end

mutual

/-- `Encode` leaves an error exactly when there was one before or the value holds one of
another type. -/
theorem err_encode : ∀ (v : Value) (enc : TVEnc),
    (enc.encode v).err.isSome = (enc.err.isSome || v.hasOther)
  | .array items, enc => by
    simp [TVEnc.encode, TVEnc.writeTypeTag, err_encodeItems items, Value.hasOther]
  | .bytes _ b, enc => by
    simp [TVEnc.encode, TVEnc.writeBytes, TVEnc.writeLengthPrefixed_err, Value.hasOther]
  | .string s, enc => by
    simp [TVEnc.encode, TVEnc.writeString, TVEnc.writeLengthPrefixed_err, Value.hasOther]
  | .uint16 v, enc => by simp [TVEnc.encode, TVEnc.writeUInt32, TVEnc.writeTypeTag, Value.hasOther]
  | .uint32 v, enc => by simp [TVEnc.encode, TVEnc.writeUInt32, TVEnc.writeTypeTag, Value.hasOther]
  | .uint64 v, enc => by simp [TVEnc.encode, TVEnc.writeUInt64, TVEnc.writeTypeTag, Value.hasOther]
  | .other _, enc => by
    simp only [TVEnc.encode, TVEnc.setErr, Value.hasOther, Bool.or_true]
    cases h : enc.err <;> simp [h]

theorem err_encodeItems : ∀ (vs : List Value) (enc : TVEnc),
    (enc.encodeItems vs).err.isSome = (enc.err.isSome || Value.hasOtherItems vs)
  | [], enc => by simp [TVEnc.encodeItems, Value.hasOtherItems]
  | v :: vs, enc => by
    simp [TVEnc.encodeItems, err_encodeItems vs, err_encode v, Value.hasOtherItems, Bool.or_assoc]

end

mutual

theorem Value.hasOther_of_supported : ∀ (v : Value), v.supported = true → v.hasOther = false
  | .array items, hv => by
    simp only [Value.supported, Bool.and_eq_true] at hv
    simp [Value.hasOther, Value.hasOtherItems_of_supportedItems items hv.2]
  | .bytes _ _, _ => rfl
  | .string _, _ => rfl
  | .uint16 _, _ => rfl
  | .uint32 _, _ => rfl
  | .uint64 _, _ => rfl
  | .other _, hv => by simp [Value.supported] at hv

theorem Value.hasOtherItems_of_supportedItems :
    ∀ (vs : List Value), Value.supportedItems vs = true → Value.hasOtherItems vs = false
  | [], _ => rfl
  | v :: vs, hvs => by
    simp only [Value.supportedItems, Bool.and_eq_true] at hvs
    simp [Value.hasOtherItems, Value.hasOther_of_supported v hvs.1,
      Value.hasOtherItems_of_supportedItems vs hvs.2]

end

/-! ### Tagged values -/

/-- The bytes of tagged values one after another: each tag, then the format of its value. -/
def taggedEncoding (items : List (UInt8 × Value)) : List UInt8 :=
  items.flatMap fun p => p.1 :: encoding p.2

theorem encodeTaggedAll_buf :
    ∀ (items : List (UInt8 × Value)), (∀ p ∈ items, p.2.supported = true) → ∀ (enc : TVEnc),
      (enc.encodeTaggedAll items).buf = enc.buf ++ taggedEncoding items
  | [], _, enc => by simp [TVEnc.encodeTaggedAll, taggedEncoding]
  | p :: ps, hs, enc => by
    have ih := encodeTaggedAll_buf ps (fun q hq => hs q (List.mem_cons_of_mem _ hq))
      (enc.encodeTagged p.1 p.2)
    simp only [TVEnc.encodeTaggedAll, List.foldl_cons] at ih ⊢
    rw [ih, TVEnc.encodeTagged, encode_buf p.2 (hs p List.mem_cons_self)]
    simp [taggedEncoding]

theorem err_encodeTaggedAll :
    ∀ (items : List (UInt8 × Value)) (enc : TVEnc),
      (enc.encodeTaggedAll items).err.isSome = (enc.err.isSome || items.any fun p => p.2.hasOther)
  | [], enc => by simp [TVEnc.encodeTaggedAll]
  | p :: ps, enc => by
    have ih := err_encodeTaggedAll ps (enc.encodeTagged p.1 p.2)
    simp only [TVEnc.encodeTaggedAll, List.foldl_cons] at ih ⊢
    rw [ih, TVEnc.encodeTagged, err_encode]
    simp [Bool.or_assoc]

/-- The reader reads tagged values back, with fuel as many as they are. -/
theorem decodeTagged_taggedEncoding :
    ∀ (items : List (UInt8 × Value)), (∀ p ∈ items, p.2.supported = true) →
      ∀ (fuel : Nat), items.length ≤ fuel →
        decodeTagged fuel (taggedEncoding items) = some (items.map fun p => (p.1, p.2.widen))
  | [], _, fuel, _ => by cases fuel <;> rfl
  | p :: ps, hs, fuel, hfuel => by
    obtain ⟨f, rfl⟩ : ∃ f, fuel = f + 1 := ⟨fuel - 1, by simp at hfuel; omega⟩
    have hp := decode_encoding p.2 (hs p List.mem_cons_self)
      (encoding p.2 ++ taggedEncoding ps).length (taggedEncoding ps) (by simp)
    have ih := decodeTagged_taggedEncoding ps (fun q hq => hs q (List.mem_cons_of_mem _ hq)) f
      (by simp at hfuel; omega)
    have henc : taggedEncoding (p :: ps) = p.1 :: (encoding p.2 ++ taggedEncoding ps) := by
      simp [taggedEncoding]
    rw [henc, decodeTagged, hp]
    simp [ih]

theorem length_taggedEncoding (items : List (UInt8 × Value)) :
    items.length ≤ (taggedEncoding items).length := by
  induction items with
  | nil => simp [taggedEncoding]
  | cons p ps ih =>
    simp only [taggedEncoding, List.flatMap_cons, List.length_append, List.length_cons] at ih ⊢
    omega

/-- A sequence of `EncodeTagged` calls on a new encoder leaves no error and reads back. -/
theorem encodeTaggedAll_reads_back (items : List (UInt8 × Value))
    (hs : ∀ p ∈ items, p.2.supported = true) :
    (TVEnc.empty.encodeTaggedAll items).err = none ∧
      decodeTagged (TVEnc.empty.encodeTaggedAll items).buf.length
        (TVEnc.empty.encodeTaggedAll items).buf = some (items.map fun p => (p.1, p.2.widen)) := by
  constructor
  · have h := err_encodeTaggedAll items TVEnc.empty
    rw [List.any_eq_false.mpr fun p hp => by rw [Value.hasOther_of_supported p.2 (hs p hp)]; simp] at h
    simpa [TVEnc.empty] using h
  · rw [encodeTaggedAll_buf items hs]
    exact decodeTagged_taggedEncoding items hs _ (by simpa [TVEnc.empty] using length_taggedEncoding items)

/-- What a predicate reads of a transaction order: its partition, unit, type (as a `u32`) and
reference number, under the tags `1` to `4`. -/
theorem txOrder_reads_back (txo : TxOrderFields) (hunit : txo.unitID.length < 2 ^ 32)
    (href : txo.referenceNumber.length < 2 ^ 32) :
    (txOrder txo).2 = none ∧
      decodeTagged (txOrder txo).1.length (txOrder txo).1 =
        some [(1, .u32 txo.partitionID), (2, .bytes txo.unitID), (3, .u32 txo.type.toUInt32),
          (4, .bytes txo.referenceNumber)] := by
  have h := encodeTaggedAll_reads_back [(1, .uint32 txo.partitionID), (2, .bytes .unitID txo.unitID),
    (3, .uint16 txo.type), (4, .bytes .bytes txo.referenceNumber)]
    (by simp only [Nat.reducePow] at hunit href; simp [Value.supported, hunit, href])
  exact h

/-! ### The round trip -/

/-- What the predicate SDK reads of what `TVEnc` writes: `Bytes()` after `Encode` of a value it
supports is the format of the value and no error, and the reader reads the value back from it,
up to the widenings, whatever follows; so no encoding is a proper prefix of another.  A sequence
of `EncodeTagged` calls reads back as the list of its tags and values.  A value of another type,
anywhere in the value, makes `Bytes()` return an error. -/
theorem encoder_round_trip :
    (∀ (v : Value) (rest : List UInt8), v.supported = true →
      (TVEnc.empty.encode v).bytes = (encoding v, none) ∧
      decode (encoding v ++ rest).length (encoding v ++ rest) = some (v.widen, rest)) ∧
    (∀ (v w : Value) (r : List UInt8), v.supported = true → w.supported = true →
      (TVEnc.empty.encode v).buf = (TVEnc.empty.encode w).buf ++ r → r = []) ∧
    (∀ items : List (UInt8 × Value), (∀ p ∈ items, p.2.supported = true) →
      (TVEnc.empty.encodeTaggedAll items).err = none ∧
      decodeTagged (TVEnc.empty.encodeTaggedAll items).buf.length
        (TVEnc.empty.encodeTaggedAll items).buf = some (items.map fun p => (p.1, p.2.widen))) ∧
    ∀ v : Value, (TVEnc.empty.encode v).bytes.2.isSome = v.hasOther := by
  -- a supported value has no value of another type, so `Encode` leaves no error
  have hnone : ∀ v : Value, v.supported = true → (TVEnc.empty.encode v).err = none := by
    intro v hv
    have h := err_encode v TVEnc.empty
    rw [Value.hasOther_of_supported v hv] at h
    simpa [TVEnc.empty] using h
  refine ⟨fun v rest hv => ⟨?_, ?_⟩, fun v w r hv hw hvw => ?_, encodeTaggedAll_reads_back,
    fun v => ?_⟩
  · rw [TVEnc.bytes, encode_buf v hv, hnone v hv]
    rfl
  · exact decode_encoding v hv _ rest (by simp)
  · -- both encodings read back from the same bytes, so nothing is left after the shorter one
    rw [encode_buf v hv, encode_buf w hw] at hvw
    simp only [TVEnc.empty, List.nil_append] at hvw
    have hv' : decode (encoding v).length (encoding v) = some (v.widen, []) := by
      simpa using decode_encoding v hv (encoding v).length [] (Nat.le_refl _)
    have hw' := decode_encoding w hw (encoding v).length r (by rw [hvw]; simp)
    rw [← hvw, hv'] at hw'
    exact (Prod.mk.inj (Option.some.inj hw')).2.symm
  · simpa [TVEnc.bytes, TVEnc.empty] using err_encode v TVEnc.empty

end BftCore.Predicates
