import BftCore.State.UnitProof
import BftCore.Lib.Bytes

/-!
# `state`: the snapshot of a state and its recovery

`State.Serialize` writes a tree of the state as a stream of CBOR items: a header with the
number of nodes, one record per node in post-order (`stateSerializer`, `state_serializer.go`),
and the CRC-32 of all that as a checksum.  `NewRecoveredState` reads it back (`readState`,
`state_deserializer.go`): `readNodeRecords` (`state.go`) rebuilds the tree with a stack, each
record popping its right and then its left subtree when its flags say it has them.  The unit
of a record gets the record's log as its latest log, after an empty one when the log was not
alone, and the logs hash the record's path leads to from that log.  The tree is then hashed
and committed against the certificate of the header.

* `NodeRecord`, `Header`, `Item`: the stream, as the items the CBOR codec writes and reads;
* `writeNode`, `serializeTree`, `nodeCount`, `serialize`;
* `readNodeRecord` (one turn of the loop), `readLoop`, `readNodeRecords`, `readState`;
* `Rebuilds R t t'`: `t'` has the shape and the keys of `t`, every node built by
  `NewBalancedNode`, and its units related by `R` to those of `t`;
* `readNodeRecords_serializeTree`: the records of a tree are read back, with any rest of the
  stream left as it is, into a tree that rebuilds it; `summary_rebuilt`: hashing that tree
  gives the summary of the original when no latest log has a deletion round or a state lock;
  `readState_serialize`: the whole round trip;
* `readState_unlocked`: whatever the stream, no unit of the recovered tree has a deletion
  round or a state lock, and its stored depths are right.

The CBOR codec is not part of the repository: the stream is a list of items, the encoding of
unit data a parameter `marshal`, and its decoding the decoder that the unit data constructor
`udc` gives for a unit.  The checksum is the CRC-32 of the encoding of the items before it, a
parameter `crc`; the reader's sum is the CRC-32 of all items but the last, which
`CRC32Reader` holds back as the checksum (`crc32_reader.go`).
-/

namespace BftCore.State

open BftCore.Avl Node Merkle

variable {A K D ET : Type}

/-! ### The stream -/

/-- `nodeRecord`: the key, the encoded data and the head hash of the latest log, the path of
that log in the hash tree over the logs, and whether the node has children.  The `Version`
that the writer puts first is never read: it is left out. -/
structure NodeRecord (K : Type) where
  unitID : K
  unitData : Bytes
  unitLedgerHeadHash : Option Bytes
  unitTreePath : List (Bool × Bytes)
  hasLeft : Bool
  hasRight : Bool
  deriving DecidableEq

/-- `Header`: the record count is a `uint64` bounded by the number of nodes, so `Nat` is used;
the executed transactions are passed through as they are. -/
structure Header (ET : Type) where
  version : UInt32
  unicityCertificate : Option UnicityCertificate
  nodeRecordCount : Nat
  executedTransactions : ET

/-- An item of the stream: what one `encoder.Encode` writes and one `decoder.Decode` reads.
Decoding an item as another kind fails. -/
inductive Item (K ET : Type) where
  | header (h : Header ET)
  | nodeRecord (nr : NodeRecord K)
  | checksum (c : Bytes)

/-- The errors of the writer and of the reader. -/
inductive SnapshotError where
  /-- `unit state log is empty` -/
  | logEmpty
  /-- `unable to encode unit data: %w` -/
  | encodeUnitData (e : String)
  /-- `unable to extract unit tree path: %w` -/
  | unitTreePath (e : MerkleError)
  /-- `unable to write node records: %w` -/
  | writeNodeRecords (e : SnapshotError)
  /-- `unable to decode header: %w` -/
  | decodeHeader
  /-- `unable to decode node record: %w` -/
  | decodeNodeRecord
  /-- `unable to construct unit data: %w` -/
  | constructUnitData (e : String)
  /-- `unable to decode unit data: %w` -/
  | decodeUnitData (e : String)
  /-- `%d unexpected node record(s)` -/
  | unexpectedNodeRecords (n : Nat)
  /-- `unable to decode node records: %w` -/
  | decodeNodeRecords (e : SnapshotError)
  /-- `unable to decode checksum: %w` -/
  | decodeChecksum
  /-- `checksum mismatch` -/
  | checksumMismatch
  /-- `unable to commit recovered state: %w`, with the message of `Commit` -/
  | commitRecoveredState (text : String)
  /-- a runtime panic: a nil node read, `Pop` of an empty stack, a checksum of fewer than four
  bytes -/
  | panic
  deriving DecidableEq

/-- `fmt.Errorf(context + ": %w", err)`: a panic is not an error value and is never wrapped. -/
def SnapshotError.wrap (f : SnapshotError → SnapshotError) : SnapshotError → SnapshotError
  | panic => panic
  | e => f e

/-- `util.Uint32ToBytes`: four bytes, big-endian. -/
def uint32ToBytes (v : UInt32) : Bytes := BigEndian.toBytes 4 v.toNat

/-- `util.BytesToUint32`: the first four bytes, big-endian; `none` where Go panics, on fewer
than four. -/
def bytesToUint32 (b : Bytes) : Option UInt32 :=
  if b.length < 4 then none else some (BigEndian.ofBytes (b.take 4)).toUInt32

theorem bytesToUint32_uint32ToBytes (v : UInt32) : bytesToUint32 (uint32ToBytes v) = some v := by
  have hlen : (uint32ToBytes v).length = 4 := BigEndian.length_toBytes 4 v.toNat
  have hval : BigEndian.ofBytes (uint32ToBytes v) = v.toNat := by
    rw [uint32ToBytes, BigEndian.ofBytes_toBytes]
    exact Nat.mod_eq_of_lt v.toNat_lt
  simp only [bytesToUint32, hlen, Nat.lt_irrefl, if_false]
  rw [← hlen, List.take_length, hval]
  simp

/-! ### The writer -/

/-- `stateNodeCounter.Traverse(n)`: the number of nodes. -/
def nodeCount {V : Type} : Node K V → Nat
  | nil => 0
  | node _ _ l r _ _ => nodeCount l + nodeCount r + 1

section Write

variable (marshal : Option D → Except String Bytes)
  (mtPath : A → List (Log D) → Int → Except MerkleError (List (Bool × Bytes))) (alg : A)

/-- `stateSerializer.WriteNode(n)`: the record of a node, from its latest log.  The code never
passes nil; reading a nil node would panic. -/
def writeNode : Node K (UnitV1 D) → Except SnapshotError (NodeRecord K)
  | nil => .error .panic
  | node k u l r _ _ =>
    match u.logs.getLast? with
    | none => .error .logEmpty
    | some latestLog =>
      match marshal latestLog.newUnitData with
      | .error e => .error (.encodeUnitData e)
      | .ok unitDataBytes =>
        match mtPath alg u.logs ((u.logs.length : Int) - 1) with
        | .error e => .error (.unitTreePath e)
        | .ok unitTreePath =>
          .ok ⟨k, unitDataBytes, latestLog.unitLedgerHeadHash, unitTreePath, !l.isNil, !r.isNil⟩

/-- `stateSerializer.Traverse(n)`: the records of a subtree in post-order, those of the left
subtree, then those of the right one, then the node's. -/
def serializeTree : Node K (UnitV1 D) → Except SnapshotError (List (NodeRecord K))
  | nil => .ok []
  | node k u l r c d => do
    let ls ← serializeTree l
    let rs ← serializeTree r
    let nr ← writeNode marshal mtPath alg (node k u l r c d)
    pure (ls ++ rs ++ [nr])

variable (crc : List (Item K ET) → UInt32)

/-- `State.Serialize(writer, committed, executedTransactions)` of the tree it picks (the
committed tree with its certificate, or the latest savepoint without one): the header, the
records, and the CRC-32 of both as the checksum. -/
def serialize (t : Node K (UnitV1 D)) (uc : Option UnicityCertificate) (et : ET) :
    Except SnapshotError (List (Item K ET)) :=
  match serializeTree marshal mtPath alg t with
  | .error e => .error (e.wrap .writeNodeRecords)
  | .ok records =>
    let written := .header ⟨1, uc, nodeCount t, et⟩ :: records.map .nodeRecord
    .ok (written ++ [.checksum (uint32ToBytes (crc written))])

variable {marshal mtPath alg crc}

theorem writeNode_eq_ok {k : K} {u : UnitV1 D} {l r : Node K (UnitV1 D)} {c : Bool} {d : Nat}
    {nr : NodeRecord K} (h : writeNode marshal mtPath alg (node k u l r c d) = .ok nr) :
    ∃ latestLog unitData p, u.logs.getLast? = some latestLog ∧
      marshal latestLog.newUnitData = .ok unitData ∧
      mtPath alg u.logs ((u.logs.length : Int) - 1) = .ok p ∧
      nr = ⟨k, unitData, latestLog.unitLedgerHeadHash, p, !l.isNil, !r.isNil⟩ := by
  cases hlast : u.logs.getLast? with
  | none => simp [writeNode, hlast] at h
  | some latestLog =>
    cases hm : marshal latestLog.newUnitData with
    | error e => simp [writeNode, hlast, hm] at h
    | ok unitData =>
      cases hp : mtPath alg u.logs ((u.logs.length : Int) - 1) with
      | error e => simp [writeNode, hlast, hm, hp] at h
      | ok p =>
        simp only [writeNode, hlast, hm, hp, Except.ok.injEq] at h
        exact ⟨latestLog, unitData, p, rfl, hm, rfl, h.symm⟩

theorem serializeTree_node_eq_ok {k : K} {u : UnitV1 D} {l r : Node K (UnitV1 D)} {c : Bool}
    {d : Nat} {records : List (NodeRecord K)}
    (h : serializeTree marshal mtPath alg (node k u l r c d) = .ok records) :
    ∃ ls rs nr, serializeTree marshal mtPath alg l = .ok ls ∧
      serializeTree marshal mtPath alg r = .ok rs ∧
      writeNode marshal mtPath alg (node k u l r c d) = .ok nr ∧ records = ls ++ rs ++ [nr] := by
  cases hl : serializeTree marshal mtPath alg l with
  | error e => simp [serializeTree, hl, bind, Except.bind] at h
  | ok ls =>
    cases hr : serializeTree marshal mtPath alg r with
    | error e => simp [serializeTree, hl, hr, bind, Except.bind] at h
    | ok rs =>
      cases hw : writeNode marshal mtPath alg (node k u l r c d) with
      | error e => simp [serializeTree, hl, hr, hw, bind, Except.bind] at h
      | ok nr =>
        simp only [serializeTree, hl, hr, hw, bind, Except.bind, pure, Except.pure,
          Except.ok.injEq] at h
        exact ⟨ls, rs, nr, rfl, rfl, rfl, h.symm⟩

/-- The header's count is the number of records the writer writes. -/
theorem length_serializeTree {t : Node K (UnitV1 D)} {records : List (NodeRecord K)}
    (h : serializeTree marshal mtPath alg t = .ok records) : records.length = nodeCount t := by
  induction t generalizing records with
  | nil =>
    cases h
    rfl
  | node k u l r c d ihl ihr =>
    obtain ⟨ls, rs, nr, hl, hr, -, rfl⟩ := serializeTree_node_eq_ok h
    simp only [List.length_append, List.length_singleton, nodeCount, ihl hl, ihr hr]

theorem serialize_eq_ok {t : Node K (UnitV1 D)} {uc : Option UnicityCertificate} {et : ET}
    {items : List (Item K ET)} (h : serialize marshal mtPath alg crc t uc et = .ok items) :
    ∃ records, serializeTree marshal mtPath alg t = .ok records ∧
      items = (.header ⟨1, uc, nodeCount t, et⟩ :: records.map .nodeRecord) ++
        [.checksum (uint32ToBytes (crc (.header ⟨1, uc, nodeCount t, et⟩ ::
          records.map .nodeRecord)))] := by
  cases hs : serializeTree marshal mtPath alg t with
  | error e => simp [serialize, hs] at h
  | ok records =>
    simp only [serialize, hs, Except.ok.injEq] at h
    exact ⟨records, rfl, h.symm⟩

end Write

/-! ### The reader -/

section Read

variable (udc : K → Except String (Bytes → Except String (Option D)))
  (H : A → List (HashItem K D) → Bytes) (sha256 : A) (mtNode : A → Bytes → Bytes → Bytes)
  (alg : A)

/-- The data of a record: `unitDataConstructor(id)` gives the type of the unit's data, into
which `Cbor.Unmarshal` decodes the bytes. -/
def decodeUnitData (unitID : K) (unitData : Bytes) : Except SnapshotError (Option D) :=
  match udc unitID with
  | .error e => .error (.constructUnitData e)
  | .ok dec =>
    match dec unitData with
    | .error e => .error (.decodeUnitData e)
    | .ok d => .ok d

/-- The latest log `readNodeRecords` rebuilds: the head hash and the data of the record, every
other field zero. -/
def recoveredLog (unitLedgerHeadHash : Option Bytes) (unitData : Option D) : Log D :=
  ⟨none, unitLedgerHeadHash, unitData, 0, none⟩

/-- The unit `readNodeRecords` builds: its logs hash is where the path leads from the leaf
`Log.Hash` of the latest log (`mt.EvalMerklePath`), and an empty log stands before the latest
one when the path is not empty, so that the pruner finds the unit.  Every other field is
zero.  The error of `EvalMerklePath`, which only a leaf that fails to encode gives, has no
counterpart: the hashes of the model are total. -/
def recoveredUnit (unitTreePath : List (Bool × Bytes)) (latestLog : Log D) : UnitV1 D where
  logs := if unitTreePath.length > 0 then [⟨none, none, none, 0, none⟩, latestLog] else [latestLog]
  logsHash := some (Merkle.eval (mtNode alg) unitTreePath (Log.hash H sha256 alg latestLog))
  data := none
  deletionRound := 0
  stateLockTx := none
  subTreeSummaryValue := 0
  subTreeSummaryHash := none
  summaryCalculated := false

@[simp] theorem logsHash_recoveredUnit (p : List (Bool × Bytes)) (l : Log D) :
    (recoveredUnit H sha256 mtNode alg p l).logsHash =
      some (Merkle.eval (mtNode alg) p (Log.hash H sha256 alg l)) := rfl

/-- `nodeStack.Pop()` when the flag is set, nil otherwise; `none` where `Pop` of an empty
stack panics.  The top of the stack is the head of the list. -/
def popIf {V : Type} : Bool → List (Node K V) → Option (Node K V × List (Node K V))
  | false, stack => some (nil, stack)
  | true, [] => none
  | true, n :: stack => some (n, stack)

/-- One turn of the loop of `readNodeRecords`: decode the record's data, build its unit, pop
the right and then the left subtree, and push the new node. -/
def readNodeRecord (stack : List (Node K (UnitV1 D))) (nr : NodeRecord K) :
    Except SnapshotError (List (Node K (UnitV1 D))) :=
  match decodeUnitData udc nr.unitID nr.unitData with
  | .error e => .error e
  | .ok unitData =>
    let unit := recoveredUnit H sha256 mtNode alg nr.unitTreePath
      (recoveredLog nr.unitLedgerHeadHash unitData)
    match popIf nr.hasRight stack with
    | none => .error .panic
    | some (right, stack) =>
      match popIf nr.hasLeft stack with
      | none => .error .panic
      | some (left, stack) => .ok (newBalancedNode nr.unitID unit left right :: stack)

/-- The loop of `readNodeRecords`: `count` records decoded from the stream, the stack threaded
through; the items after them are returned. -/
def readLoop : Nat → List (Item K ET) → List (Node K (UnitV1 D)) →
    Except SnapshotError (List (Node K (UnitV1 D)) × List (Item K ET))
  | 0, items, stack => .ok (stack, items)
  | n + 1, .nodeRecord nr :: items, stack =>
    match readNodeRecord udc H sha256 mtNode alg stack nr with
    | .error e => .error e
    | .ok stack => readLoop n items stack
  | _ + 1, _, _ => .error .decodeNodeRecord

/-- `readNodeRecords(decoder, unitDataConstructor, count, hashAlgorithm)`: the root of the tree
(nil for no records), and the items after the records. -/
def readNodeRecords (items : List (Item K ET)) (count : Nat) :
    Except SnapshotError (Node K (UnitV1 D) × List (Item K ET)) :=
  if count = 0 then .ok (nil, items)
  else
    match readLoop udc H sha256 mtNode alg count items [] with
    | .error e => .error e
    | .ok ([], _) => .error .panic
    | .ok (root :: stack, rest) =>
      if stack.isEmpty then .ok (root, rest) else .error (.unexpectedNodeRecords stack.length)

/-- The checks of `Commit(uc)` on the recovered tree, which `CalculateRoot` has left clean: the
certificate must carry the summary hash and value of its root. -/
def commitSummary (uc : UnicityCertificate) (summary : UInt64 × Option Bytes) :
    Except SnapshotError Unit :=
  if !bytesEqual uc.hash summary.2 then
    .error (.commitRecoveredState "state summary hash is not equal to the summary hash in UC")
  else if !bytesEqual uc.summaryValue (some (uint64ToBytes summary.1)) then
    .error (.commitRecoveredState "state summary value is not equal to the summary value in UC")
  else .ok ()

variable [UnitData D] (crc : List (Item K ET) → UInt32)
  (logsRoot : A → List (Log D) → Option Bytes)

/-- `readState(stateData, udc)`: the header, the tree of its records, the checksum against the
reader's sum, then the tree hashed by `CalculateRoot` and committed against the header's
certificate; without one the tree is the genesis state and is kept as it is.  The result is
the recovered tree and the header. -/
def readState (items : List (Item K ET)) : Except SnapshotError (Node K (UnitV1 D) × Header ET) :=
  match items with
  | .header header :: rest =>
    match readNodeRecords udc H sha256 mtNode alg rest header.nodeRecordCount with
    | .error e => .error (e.wrap .decodeNodeRecords)
    | .ok (root, .checksum checksum :: _) =>
      match bytesToUint32 checksum with
      | none => .error .panic
      | some c =>
        if c ≠ crc items.dropLast then .error .checksumMismatch
        else
          let t := root.hash H alg logsRoot
          match header.unicityCertificate with
          | none => .ok (t, header)
          | some uc =>
            match commitSummary uc t.cached with
            | .error e => .error e
            | .ok () => .ok (t, header)
    | .ok _ => .error .decodeChecksum
  | _ => .error .decodeHeader

end Read

/-! ### Trees rebuilt node by node -/

section Rebuilds

variable {V W : Type}

/-- `t'` rebuilds `t`: the same shape and keys, every node of `t'` dirty with the depth that
`NewBalancedNode` computes, and its values related by `R` to those of `t`. -/
def Rebuilds (R : V → W → Prop) : Node K V → Node K W → Prop
  | nil, nil => True
  | node k v l r _ _, node k' w l' r' c' d' =>
    k' = k ∧ R v w ∧ c' = false ∧ d' = max l'.depth r'.depth + 1 ∧ Rebuilds R l l' ∧
      Rebuilds R r r'
  | _, _ => False

variable {R : V → W → Prop}

@[simp] theorem rebuilds_nil_left {t' : Node K W} : Rebuilds R nil t' ↔ t' = nil := by
  cases t' <;> simp [Rebuilds]

theorem Rebuilds.isNil_eq {t : Node K V} {t' : Node K W} (h : Rebuilds R t t') :
    t'.isNil = t.isNil := by
  cases t <;> cases t' <;> first | rfl | exact h.elim

theorem Rebuilds.keys_eq {t : Node K V} {t' : Node K W} (h : Rebuilds R t t') : t'.keys = t.keys := by
  induction t generalizing t' with
  | nil =>
    obtain rfl := rebuilds_nil_left.1 h
    rfl
  | node k v l r c d ihl ihr =>
    cases t' with
    | nil => exact h.elim
    | node k' w l' r' c' d' =>
      obtain ⟨rfl, -, -, -, hl, hr⟩ := h
      simp [ihl hl, ihr hr]

/-- The depths of a rebuilt tree are right, whatever those of the original. -/
theorem Rebuilds.depthOk {t : Node K V} {t' : Node K W} (h : Rebuilds R t t') : t'.DepthOk := by
  induction t generalizing t' with
  | nil =>
    obtain rfl := rebuilds_nil_left.1 h
    trivial
  | node k v l r c d ihl ihr =>
    cases t' with
    | nil => exact h.elim
    | node k' w l' r' c' d' =>
      obtain ⟨-, -, -, hd, hl, hr⟩ := h
      exact ⟨hd, ihl hl, ihr hr⟩

theorem Rebuilds.depth_eq {t : Node K V} {t' : Node K W} (h : Rebuilds R t t') (ht : t.DepthOk) :
    t'.depth = t.depth := by
  induction t generalizing t' with
  | nil =>
    obtain rfl := rebuilds_nil_left.1 h
    rfl
  | node k v l r c d ihl ihr =>
    cases t' with
    | nil => exact h.elim
    | node k' w l' r' c' d' =>
      obtain ⟨hd₀, hdl, hdr⟩ := ht
      obtain ⟨-, -, -, hd, hl, hr⟩ := h
      rw [depth_node, depth_node, hd, hd₀, ihl hl hdl, ihr hr hdr]

theorem Rebuilds.ordered [LT K] {t : Node K V} {t' : Node K W} (h : Rebuilds R t t')
    (ht : t.Ordered) : t'.Ordered := by
  induction t generalizing t' with
  | nil =>
    obtain rfl := rebuilds_nil_left.1 h
    trivial
  | node k v l r c d ihl ihr =>
    cases t' with
    | nil => exact h.elim
    | node k' w l' r' c' d' =>
      obtain ⟨hlk, hrk, hol, hor⟩ := ht
      obtain ⟨rfl, -, -, -, hl, hr⟩ := h
      exact ⟨hl.keys_eq ▸ hlk, hr.keys_eq ▸ hrk, ihl hl hol, ihr hr hor⟩

/-- A tree rebuilt from a balanced tree with right depths is balanced: its depths are those
of the original. -/
theorem Rebuilds.balanced {t : Node K V} {t' : Node K W} (h : Rebuilds R t t') (hd : t.DepthOk)
    (hb : t.Balanced) : t'.Balanced := by
  induction t generalizing t' with
  | nil =>
    obtain rfl := rebuilds_nil_left.1 h
    trivial
  | node k v l r c d ihl ihr =>
    cases t' with
    | nil => exact h.elim
    | node k' w l' r' c' d' =>
      obtain ⟨-, hdl, hdr⟩ := hd
      obtain ⟨hbl, hbr, hbl', hbr'⟩ := hb
      obtain ⟨-, -, -, -, hl, hr⟩ := h
      refine ⟨?_, ?_, ihl hl hdl hbl', ihr hr hdr hbr'⟩
      · rw [hl.depth_eq hdl, hr.depth_eq hdr]
        exact hbl
      · rw [hl.depth_eq hdl, hr.depth_eq hdr]
        exact hbr

/-- A tree rebuilt from a well-formed AVL tree is one. -/
theorem Rebuilds.wellFormed [LT K] {t : Node K V} {t' : Node K W} (h : Rebuilds R t t')
    (ht : t.WellFormed) : t'.WellFormed :=
  ⟨h.ordered ht.ordered, h.depthOk, h.balanced ht.depthOk ht.balanced⟩

end Rebuilds

/-! ### The loop of the reader -/

section Loop

variable {udc : K → Except String (Bytes → Except String (Option D))}
  {H : A → List (HashItem K D) → Bytes} {sha256 : A} {mtNode : A → Bytes → Bytes → Bytes}
  {alg : A}

/-- The stack with the root of a subtree pushed, and nothing for nil. -/
def pushNode {V : Type} : Node K V → List (Node K V) → List (Node K V)
  | nil, stack => stack
  | node k v l r c d, stack => node k v l r c d :: stack

@[simp] theorem popIf_pushNode {V : Type} (t : Node K V) (stack : List (Node K V)) :
    popIf (!t.isNil) (pushNode t stack) = some (t, stack) := by
  cases t <;> rfl

/-- What `popIf` returns is nil or was on the stack, and what it leaves was below it. -/
theorem popIf_all {V : Type} {P : Node K V → Prop} {b : Bool} {stack rest : List (Node K V)}
    {n : Node K V} (h : popIf b stack = some (n, rest)) (hnil : P nil) (hs : ∀ x ∈ stack, P x) :
    P n ∧ ∀ x ∈ rest, P x := by
  cases b with
  | false =>
    simp only [popIf, Option.some.injEq, Prod.mk.injEq] at h
    obtain ⟨rfl, rfl⟩ := h
    exact ⟨hnil, hs⟩
  | true =>
    cases stack with
    | nil => cases h
    | cons x stack =>
      simp only [popIf, Option.some.injEq, Prod.mk.injEq] at h
      obtain ⟨rfl, rfl⟩ := h
      exact ⟨hs _ (List.mem_cons_self ..), fun y hy => hs y (List.mem_cons_of_mem _ hy)⟩

@[simp] theorem getLast?_logs_recoveredUnit (p : List (Bool × Bytes)) (l : Log D) :
    (recoveredUnit H sha256 mtNode alg p l).logs.getLast? = some l := by
  simp only [recoveredUnit]
  split <;> rfl

/-- A turn of the loop on the record of a node, on a stack with the node's two subtrees on top
as the record's flags say. -/
theorem readNodeRecord_pushNode {k : K} {b : Bytes} {head : Option Bytes}
    {p : List (Bool × Bytes)} {unitData : Option D} (hd : decodeUnitData udc k b = .ok unitData)
    (l r : Node K (UnitV1 D)) (stack : List (Node K (UnitV1 D))) :
    readNodeRecord udc H sha256 mtNode alg (pushNode r (pushNode l stack))
        ⟨k, b, head, p, !l.isNil, !r.isNil⟩ =
      .ok (newBalancedNode k (recoveredUnit H sha256 mtNode alg p (recoveredLog head unitData)) l r ::
        stack) := by
  simp only [readNodeRecord, hd, popIf_pushNode]

/-- The loop over a run of records reads them one after another and leaves the items after
them. -/
theorem readLoop_records {records : List (NodeRecord K)} {stack stack' : List (Node K (UnitV1 D))}
    (h : records.foldlM (readNodeRecord udc H sha256 mtNode alg) stack = .ok stack')
    (rest : List (Item K ET)) :
    readLoop udc H sha256 mtNode alg records.length (records.map .nodeRecord ++ rest) stack =
      .ok (stack', rest) := by
  induction records generalizing stack with
  | nil =>
    simp only [List.foldlM_nil, pure, Except.pure, Except.ok.injEq] at h
    subst h
    rfl
  | cons nr records ih =>
    rw [List.foldlM_cons] at h
    cases hs : readNodeRecord udc H sha256 mtNode alg stack nr with
    | error e => simp [hs, bind, Except.bind] at h
    | ok s =>
      simp only [hs, bind, Except.bind] at h
      simp only [List.length_cons, List.map_cons, List.cons_append, readLoop, hs]
      exact ih h

end Loop

/-! ### Facts about the latest logs -/

section Latest

/-- `P` holds of the key and the latest log of every unit of the tree. -/
def LatestLogs (P : K → Log D → Prop) (t : Node K (UnitV1 D)) : Prop :=
  ∀ e ∈ t.entries, ∀ l, e.2.logs.getLast? = some l → P e.1 l

variable {P : K → Log D → Prop} {k : K} {u : UnitV1 D} {l r : Node K (UnitV1 D)} {c : Bool}
  {d : Nat}

theorem LatestLogs.left (h : LatestLogs P (node k u l r c d)) : LatestLogs P l :=
  fun e he => h e (by simp [he])

theorem LatestLogs.right (h : LatestLogs P (node k u l r c d)) : LatestLogs P r :=
  fun e he => h e (by simp [he])

theorem LatestLogs.root (h : LatestLogs P (node k u l r c d)) {log : Log D}
    (hlog : u.logs.getLast? = some log) : P k log :=
  h (k, u) (by simp) log hlog

end Latest

/-- No latest log of the tree has a deletion round or a state lock: the two fields of a log
that a node record does not carry. -/
def LatestUnlocked (t : Node K (UnitV1 D)) : Prop :=
  LatestLogs (fun _ l => l.deletionRound = 0 ∧ l.newStateLockTx = none) t

/-! ### The round trip -/

section RoundTrip

variable (udc : K → Except String (Bytes → Except String (Option D)))
  (marshal : Option D → Except String Bytes) (H : A → List (HashItem K D) → Bytes) (sha256 : A)
  (mtPath : A → List (Log D) → Int → Except MerkleError (List (Bool × Bytes)))
  (mtNode : A → Bytes → Bytes → Bytes) (alg : A)

/-- The codec gives back the data of every latest log of the tree: the decoder that the
constructor gives for the unit turns what `Cbor.Marshal` wrote of the data into the data. -/
def DecodesBack (t : Node K (UnitV1 D)) : Prop :=
  LatestLogs (fun k l => ∀ b, marshal l.newUnitData = .ok b →
    decodeUnitData udc k b = .ok l.newUnitData) t

/-- `u'` is the unit `readNodeRecords` builds from the record `WriteNode` writes of `u`: from
the head hash and the data of its latest log, and the path of that log. -/
def RecoveredFrom (u u' : UnitV1 D) : Prop :=
  ∃ l p, u.logs.getLast? = some l ∧ mtPath alg u.logs ((u.logs.length : Int) - 1) = .ok p ∧
    u' = recoveredUnit H sha256 mtNode alg p (recoveredLog l.unitLedgerHeadHash l.newUnitData)

variable {udc marshal mtPath alg}

/-- The records of a subtree, read on any stack, push the tree they rebuild: the run lemma of
the loop, by induction on the tree, the records of the left subtree and then of the right one
leaving both roots on top for the node's record to pop. -/
theorem foldlM_serializeTree {t : Node K (UnitV1 D)} {records : List (NodeRecord K)}
    (hs : serializeTree marshal mtPath alg t = .ok records) (hdec : DecodesBack udc marshal t) :
    ∃ t', Rebuilds (RecoveredFrom H sha256 mtPath mtNode alg) t t' ∧
      ∀ stack, records.foldlM (readNodeRecord udc H sha256 mtNode alg) stack =
        .ok (pushNode t' stack) := by
  induction t generalizing records with
  | nil =>
    cases hs
    exact ⟨nil, trivial, fun _ => rfl⟩
  | node k u l r c d ihl ihr =>
    obtain ⟨ls, rs, nr, hl, hr, hw, rfl⟩ := serializeTree_node_eq_ok hs
    obtain ⟨latestLog, unitData, p, hlast, hm, hp, rfl⟩ := writeNode_eq_ok hw
    have hdu : decodeUnitData udc k unitData = .ok latestLog.newUnitData :=
      LatestLogs.root hdec hlast unitData hm
    obtain ⟨l', hl', hfl⟩ := ihl hl (LatestLogs.left hdec)
    obtain ⟨r', hr', hfr⟩ := ihr hr (LatestLogs.right hdec)
    refine ⟨newBalancedNode k (recoveredUnit H sha256 mtNode alg p
      (recoveredLog latestLog.unitLedgerHeadHash latestLog.newUnitData)) l' r',
      ⟨rfl, ⟨latestLog, p, hlast, hp, rfl⟩, rfl, rfl, hl', hr'⟩, fun stack => ?_⟩
    rw [← hl'.isNil_eq, ← hr'.isNil_eq]
    simp only [List.foldlM_append, hfl, hfr, bind, Except.bind, List.foldlM_cons,
      List.foldlM_nil, readNodeRecord_pushNode hdu]
    rfl

/-- **The reader reads back what the writer wrote**: the records of a tree, followed by any
items, are read into a tree that rebuilds it, and the items after the records are left for the
checksum. -/
theorem readNodeRecords_serializeTree {t : Node K (UnitV1 D)} {records : List (NodeRecord K)}
    (hs : serializeTree marshal mtPath alg t = .ok records) (hdec : DecodesBack udc marshal t)
    (rest : List (Item K ET)) :
    ∃ t', readNodeRecords udc H sha256 mtNode alg (records.map .nodeRecord ++ rest) (nodeCount t) =
        .ok (t', rest) ∧ Rebuilds (RecoveredFrom H sha256 mtPath mtNode alg) t t' := by
  obtain ⟨t', hr, hf⟩ := foldlM_serializeTree H sha256 mtNode hs hdec
  refine ⟨t', ?_, hr⟩
  have hloop := readLoop_records (hf []) rest
  rw [length_serializeTree hs] at hloop
  cases t with
  | nil =>
    cases hs
    obtain rfl := rebuilds_nil_left.1 hr
    simp [readNodeRecords, nodeCount]
  | node k u l r c d =>
    cases t' with
    | nil => exact hr.elim
    | node k' u' l' r' c' d' =>
      have hc : nodeCount (node k u l r c d) ≠ 0 := by simp [nodeCount]
      simp only [readNodeRecords, hc, if_false, hloop, pushNode]
      rfl

end RoundTrip

/-! ### The summary of the recovered tree -/

section Summary

variable [UnitData D] (H : A → List (HashItem K D) → Bytes) (sha256 : A)
  (mtNode : A → Bytes → Bytes → Bytes) (alg : A)

omit [UnitData D] in
theorem logAt_length_sub_one (logs : List (Log D)) :
    logAt logs ((logs.length : Int) - 1) = logs.getLast? := by
  rcases Nat.eq_zero_or_pos logs.length with h | h
  · rw [List.length_eq_zero_iff.1 h]
    rfl
  · have h0 : (0 : Int) ≤ (logs.length : Int) - 1 := by omega
    rw [logAt, if_pos h0, List.getLast?_eq_getElem?]
    congr 1
    omega

omit [UnitData D] in
/-- The log a record rebuilds hashes as the latest log it was written from, when that log has
neither a deletion round nor a state lock: `Log.Hash` reads its head hash and unit state
only. -/
theorem Log.hash_recoveredLog {l : Log D} (hdr : l.deletionRound = 0)
    (hlock : l.newStateLockTx = none) :
    Log.hash H sha256 alg (recoveredLog l.unitLedgerHeadHash l.newUnitData) = Log.hash H sha256 alg l := by
  obtain ⟨tx, head, data, dr, lock⟩ := l
  simp only at hdr hlock
  subst hdr hlock
  rfl

/-- The data the hasher reads of a recovered unit is the data of the latest log it was written
from. -/
theorem summaryValueInput_latest_recoveredUnit (p : List (Bool × Bytes)) {u : UnitV1 D} {l : Log D}
    (hl : u.logs.getLast? = some l) :
    (recoveredUnit H sha256 mtNode alg p
      (recoveredLog l.unitLedgerHeadHash l.newUnitData)).latest.summaryValueInput =
        u.latest.summaryValueInput := by
  simp [UnitV1.latest, UnitV1.latestUnitLog, hl, UnitV1.summaryValueInput, recoveredLog]

variable {logsRoot : A → List (Log D) → Option Bytes}
  {mtPath : A → List (Log D) → Int → Except MerkleError (List (Bool × Bytes))}

/-- **Hashing the recovered tree gives the summary of the original**, when no latest log has a
deletion round or a state lock: at every node the path of the latest log leads, from the leaf
of the rebuilt log, to the root over the original logs. -/
theorem summary_rebuilt (hM : MerkleSpec logsRoot mtPath mtNode (Log.hash H sha256))
    {t t' : Node K (UnitV1 D)} (hlast : LatestUnlocked t)
    (hr : Rebuilds (RecoveredFrom H sha256 mtPath mtNode alg) t t') :
    (t'.hash H alg logsRoot).cached = t.summary H alg logsRoot := by
  induction t generalizing t' with
  | nil =>
    obtain rfl := rebuilds_nil_left.1 hr
    rfl
  | node k u l r c d ihl ihr =>
    cases t' with
    | nil => exact hr.elim
    | node k' u' l' r' c' d' =>
      obtain ⟨rfl, ⟨log, p, hlog, hp, rfl⟩, rfl, -, hl, hr⟩ := hr
      obtain ⟨hdr, hlock⟩ := LatestLogs.root hlast hlog
      have hroot : logsRoot alg u.logs = some (Merkle.eval (mtNode alg) p
          (Log.hash H sha256 alg (recoveredLog log.unitLedgerHeadHash log.newUnitData))) := by
        obtain ⟨l₀, hl₀, hroot⟩ := hM.eval_path alg u.logs _ p hp
        rw [logAt_length_sub_one, hlog, Option.some.injEq] at hl₀
        rw [hroot, ← hl₀, Log.hash_recoveredLog H sha256 alg hdr hlock]
      have hv := summaryValueInput_latest_recoveredUnit H sha256 mtNode alg p hlog
      simp only [Node.hash, Bool.false_and, Bool.false_eq_true, if_false]
      rw [ihl (LatestLogs.left hlast) hl, ihr (LatestLogs.right hlast) hr]
      simp only [cached, UnitV1.hashed, UnitV1.hashWith, logsHash_recoveredUnit, Option.isNone_some,
        Bool.false_eq_true, if_false, hv, summary, hroot]

end Summary

/-! ### The whole snapshot -/

section Snapshot

variable [UnitData D] {udc : K → Except String (Bytes → Except String (Option D))}
  {marshal : Option D → Except String Bytes} {H : A → List (HashItem K D) → Bytes} {sha256 : A}
  {mtPath : A → List (Log D) → Int → Except MerkleError (List (Bool × Bytes))}
  {mtNode : A → Bytes → Bytes → Bytes} {alg : A} {crc : List (Item K ET) → UInt32}
  {logsRoot : A → List (Log D) → Option Bytes}

/-- **The snapshot round trip**: the stream `Serialize` writes of a tree is read back by
`NewRecoveredState` into a tree that rebuilds it, hashed, with the header as written; the
commit against the certificate goes through when the certificate passes the checks of `Commit`
against the summary of the original tree and no latest log has a deletion round or a state
lock. -/
theorem readState_serialize (hM : MerkleSpec logsRoot mtPath mtNode (Log.hash H sha256))
    {t : Node K (UnitV1 D)} {uc : Option UnicityCertificate} {et : ET} {items : List (Item K ET)}
    (hs : serialize marshal mtPath alg crc t uc et = .ok items) (hdec : DecodesBack udc marshal t)
    (hlast : LatestUnlocked t)
    (huc : ∀ c ∈ uc, commitSummary c (t.summary H alg logsRoot) = .ok ()) :
    ∃ t', readState udc H sha256 mtNode alg crc logsRoot items =
        .ok (t'.hash H alg logsRoot, ⟨1, uc, nodeCount t, et⟩) ∧
      Rebuilds (RecoveredFrom H sha256 mtPath mtNode alg) t t' := by
  obtain ⟨records, hrec, rfl⟩ := serialize_eq_ok hs
  obtain ⟨t', hread, hr⟩ := readNodeRecords_serializeTree H sha256 mtNode hrec hdec
    [.checksum (uint32ToBytes (crc (.header ⟨1, uc, nodeCount t, et⟩ :: records.map .nodeRecord)))]
  refine ⟨t', ?_, hr⟩
  have hsum := summary_rebuilt H sha256 mtNode alg hM hlast hr
  -- the reader's sum covers the items before the checksum, which are those the writer summed
  have hdrop : ∀ (x : Item K ET) (xs : List (Item K ET)) (c : Item K ET),
      (x :: (xs ++ [c])).dropLast = x :: xs := fun x xs c => by
    rw [← List.cons_append, List.dropLast_concat]
  simp only [readState, List.cons_append, hdrop]
  rw [hread]
  cases uc with
  | none => simp [bytesToUint32_uint32ToBytes]
  | some c => simp [bytesToUint32_uint32ToBytes, hsum, huc c rfl]

end Snapshot

/-! ### What the reader builds, whatever the stream -/

section Reader

/-- A node as `readNodeRecords` builds it: dirty, with the depth that `NewBalancedNode`
computes, and a unit whose latest log has neither a deletion round nor a state lock. -/
def Recovered : Node K (UnitV1 D) → Prop
  | nil => True
  | node _ u l r c d => c = false ∧ d = max l.depth r.depth + 1 ∧
      ∃ log, u.logs.getLast? = some log ∧ log.deletionRound = 0 ∧ log.newStateLockTx = none

variable {udc : K → Except String (Bytes → Except String (Option D))}
  {H : A → List (HashItem K D) → Bytes} {sha256 : A} {mtNode : A → Bytes → Bytes → Bytes}
  {alg : A}

/-- One turn of the loop pushes a node built as a recovered node over subtrees taken from the
stack: every tree on the stack stays made of recovered nodes. -/
theorem readNodeRecord_recovered {stack stack' : List (Node K (UnitV1 D))} {nr : NodeRecord K}
    (h : readNodeRecord udc H sha256 mtNode alg stack nr = .ok stack')
    (hs : ∀ n ∈ stack, n.All Recovered) : ∀ n ∈ stack', n.All Recovered := by
  cases hd : decodeUnitData udc nr.unitID nr.unitData with
  | error e => simp [readNodeRecord, hd] at h
  | ok unitData =>
    cases hpr : popIf nr.hasRight stack with
    | none => simp [readNodeRecord, hd, hpr] at h
    | some p₁ =>
      obtain ⟨right, s₁⟩ := p₁
      cases hpl : popIf nr.hasLeft s₁ with
      | none => simp [readNodeRecord, hd, hpr, hpl] at h
      | some p₂ =>
        obtain ⟨left, s₂⟩ := p₂
        simp only [readNodeRecord, hd, hpr, hpl, Except.ok.injEq] at h
        subst h
        obtain ⟨hright, hs₁⟩ := popIf_all hpr trivial hs
        obtain ⟨hleft, hs₂⟩ := popIf_all hpl trivial hs₁
        intro n hn
        rcases List.mem_cons.1 hn with rfl | hn
        · exact ⟨⟨rfl, rfl, _, getLast?_logs_recoveredUnit _ _, rfl, rfl⟩, hleft, hright⟩
        · exact hs₂ n hn

/-- The run lemma of the loop: every tree on the stack it ends with is made of recovered
nodes. -/
theorem readLoop_recovered :
    ∀ {n : Nat} {items rest : List (Item K ET)} {stack stack' : List (Node K (UnitV1 D))},
      readLoop udc H sha256 mtNode alg n items stack = .ok (stack', rest) →
      (∀ x ∈ stack, x.All Recovered) → ∀ x ∈ stack', x.All Recovered
  | 0, items, rest, stack, stack', h, hs => by
    simp only [readLoop, Except.ok.injEq, Prod.mk.injEq] at h
    rw [← h.1]
    exact hs
  | n + 1, [], rest, stack, stack', h, _ => by simp [readLoop] at h
  | n + 1, .header _ :: items, rest, stack, stack', h, _ => by simp [readLoop] at h
  | n + 1, .checksum _ :: items, rest, stack, stack', h, _ => by simp [readLoop] at h
  | n + 1, .nodeRecord nr :: items, rest, stack, stack', h, hs => by
    cases hr : readNodeRecord udc H sha256 mtNode alg stack nr with
    | error e => simp [readLoop, hr] at h
    | ok s =>
      simp only [readLoop, hr] at h
      exact readLoop_recovered h (readNodeRecord_recovered hr hs)

theorem readNodeRecords_recovered {items rest : List (Item K ET)} {count : Nat}
    {t : Node K (UnitV1 D)} (h : readNodeRecords udc H sha256 mtNode alg items count = .ok (t, rest)) :
    t.All Recovered := by
  unfold readNodeRecords at h
  split_ifs at h with hc
  · simp only [Except.ok.injEq, Prod.mk.injEq] at h
    rw [← h.1]
    trivial
  · cases hl : readLoop udc H sha256 mtNode alg count items [] with
    | error e => simp [hl] at h
    | ok res =>
      obtain ⟨stack, rest'⟩ := res
      have hall := readLoop_recovered hl (fun x hx => absurd hx List.not_mem_nil)
      cases stack with
      | nil => simp [hl] at h
      | cons root stack =>
        simp only [hl] at h
        split_ifs at h
        simp only [Except.ok.injEq, Prod.mk.injEq] at h
        rw [← h.1]
        exact hall root List.mem_cons_self

variable [UnitData D] {logsRoot : A → List (Log D) → Option Bytes}

theorem depth_hash (t : Node K (UnitV1 D)) : (t.hash H alg logsRoot).depth = t.depth := by
  cases t with
  | nil => rfl
  | node k u l r c d =>
    unfold Node.hash
    split <;> rfl

/-- Hashing a tree of recovered nodes rehashes every node, and so copies into each unit the
deletion round and the lock of its latest log, which it does not have. -/
theorem hash_recovered {t : Node K (UnitV1 D)} (ht : t.All Recovered) :
    (∀ e ∈ (t.hash H alg logsRoot).entries, e.2.deletionRound = 0 ∧ e.2.stateLockTx = none) ∧
      (t.hash H alg logsRoot).DepthOk := by
  induction t with
  | nil => exact ⟨fun e he => absurd he List.not_mem_nil, trivial⟩
  | node k u l r c d ihl ihr =>
    obtain ⟨⟨rfl, rfl, log, hlog, hdr, hlock⟩, hl, hr⟩ := ht
    obtain ⟨hel, hdl⟩ := ihl hl
    obtain ⟨her, hdr'⟩ := ihr hr
    have hunit : (u.hashed H alg logsRoot k (l.hash H alg logsRoot).cached
        (r.hash H alg logsRoot).cached).deletionRound = 0 ∧
        (u.hashed H alg logsRoot k (l.hash H alg logsRoot).cached
          (r.hash H alg logsRoot).cached).stateLockTx = none := by
      simp [UnitV1.hashed, UnitV1.hashWith, UnitV1.latest, UnitV1.latestUnitLog, hlog, hdr, hlock]
    simp only [Node.hash, Bool.false_and, Bool.false_eq_true, if_false]
    refine ⟨fun e he => ?_, ⟨by rw [depth_hash, depth_hash], hdl, hdr'⟩⟩
    rw [entries_node, List.mem_append, List.mem_cons] at he
    rcases he with he | rfl | he
    · exact hel e he
    · exact hunit
    · exact her e he

variable {crc : List (Item K ET) → UInt32}

theorem readState_eq_ok {items : List (Item K ET)} {t : Node K (UnitV1 D)} {header : Header ET}
    (h : readState udc H sha256 mtNode alg crc logsRoot items = .ok (t, header)) :
    ∃ rest root rest', readNodeRecords udc H sha256 mtNode alg rest header.nodeRecordCount =
      .ok (root, rest') ∧ items = .header header :: rest ∧ t = root.hash H alg logsRoot := by
  unfold readState at h
  split at h
  · rename_i hd rest
    split at h
    · cases h
    · rename_i root checksum tail hrn
      split at h
      · cases h
      · split_ifs at h
        split at h
        · simp only [Except.ok.injEq, Prod.mk.injEq] at h
          obtain ⟨rfl, rfl⟩ := h
          exact ⟨rest, root, _, hrn, rfl, rfl⟩
        · dsimp only at h
          split at h
          · cases h
          · simp only [Except.ok.injEq, Prod.mk.injEq] at h
            obtain ⟨rfl, rfl⟩ := h
            exact ⟨rest, root, _, hrn, rfl, rfl⟩
    · cases h
  · cases h

/-- **No recovered unit has a deletion round or a state lock**: whatever the stream, the tree
`NewRecoveredState` returns has none at any unit, since a node record carries neither, and
its stored depths are right, since `NewBalancedNode` computes them. -/
theorem readState_unlocked {items : List (Item K ET)} {t : Node K (UnitV1 D)}
    {header : Header ET} (h : readState udc H sha256 mtNode alg crc logsRoot items = .ok (t, header)) :
    (∀ e ∈ t.entries, e.2.deletionRound = 0 ∧ e.2.stateLockTx = none) ∧ t.DepthOk := by
  obtain ⟨rest, root, rest', hrn, -, rfl⟩ := readState_eq_ok h
  exact hash_recovered (readNodeRecords_recovered hrn)

end Reader

/-! ### Concrete snapshots -/

/-- The encoding of unit data in concrete runs: one byte for a number. -/
def tagMarshal (d : Option Nat) : Except String Bytes := .ok (d.elim [] fun n => [n.toUInt8])

/-- The unit data constructor of concrete runs: its decoder reads the byte back. -/
def tagUdc (_ : Nat) : Except String (Bytes → Except String (Option Nat)) :=
  .ok fun b => .ok (b.head?.map UInt8.toNat)

/-- A unit with the given logs and nothing else. -/
def tagUnit (logs : List (Log Nat)) : UnitV1 Nat := ⟨logs, none, none, 0, none, 0, none, false⟩

/-- A tree of two units, the root's with two logs. -/
def tagPair : Node Nat (UnitV1 Nat) :=
  node 5 (tagUnit [⟨none, some [1], some 7, 0, none⟩, ⟨some [2], some [3], some 4, 0, none⟩])
    (node 3 (tagUnit [⟨none, some [4], some 9, 0, none⟩]) nil nil true 1) nil true 2

theorem decodesBack_tagPair : DecodesBack tagUdc tagMarshal tagPair := by
  intro e he l hl b hb
  simp [tagPair] at he
  -- each unit's latest log has a one-byte number, which the decoder reads back
  rcases he with rfl | rfl <;> simp [tagUnit] at hl <;> subst hl <;>
    simp [tagMarshal] at hb <;> subst hb <;> rfl

theorem latestUnlocked_tagPair : LatestUnlocked tagPair := by
  intro e he l hl
  simp [tagPair] at he
  rcases he with rfl | rfl <;> simp [tagUnit] at hl <;> subst hl <;> exact ⟨rfl, rfl⟩

/-- The checksum of concrete runs. -/
def tagCrc (_ : List (Item Nat Unit)) : UInt32 := 0

/-- A certificate of the summary of `tagPair`. -/
def tagPairCertificate : UnicityCertificate :=
  ⟨(tagPair.summary tagHash 5 tagLogsRoot).2,
    some (uint64ToBytes (tagPair.summary tagHash 5 tagLogsRoot).1)⟩

theorem readState_serialize_pair :
    ∃ items, serialize tagMarshal tagPath 5 tagCrc tagPair (some tagPairCertificate) () =
        .ok items ∧ DecodesBack tagUdc tagMarshal tagPair ∧ LatestUnlocked tagPair ∧
      (∀ c ∈ some tagPairCertificate, commitSummary c (tagPair.summary tagHash 5 tagLogsRoot) =
        .ok ()) ∧
      ∃ t', readState tagUdc tagHash 5 tagNode 5 tagCrc tagLogsRoot items =
          .ok (t'.hash tagHash 5 tagLogsRoot, ⟨1, some tagPairCertificate, nodeCount tagPair, ()⟩) ∧
        Rebuilds (RecoveredFrom tagHash 5 tagPath tagNode 5) tagPair t' := by
  have huc : ∀ c ∈ some tagPairCertificate,
      commitSummary c (tagPair.summary tagHash 5 tagLogsRoot) = .ok () := by
    intro c hc
    cases hc
    rfl
  exact ⟨_, rfl, decodesBack_tagPair, latestUnlocked_tagPair, huc,
    readState_serialize (merkleSpec_merkle tagNode (Log.hash tagHash 5)) rfl decodesBack_tagPair
      latestUnlocked_tagPair huc⟩

/-- A unit whose latest log locks it and marks it for deletion at round 3. -/
def tagLocked : Node Nat (UnitV1 Nat) :=
  node 5 (tagUnit [⟨none, some [1], some 7, 3, some [9]⟩]) nil nil true 1

/-- The stream `Serialize` writes of `tagLocked`, without a certificate. -/
def tagLockedItems : List (Item Nat Unit) :=
  (serialize tagMarshal tagPath 5 tagCrc tagLocked none ()).toOption.getD []

theorem readState_unlocked_locked :
    serialize tagMarshal tagPath 5 tagCrc tagLocked none () = .ok tagLockedItems ∧
      ∃ t hdr, readState tagUdc tagHash 5 tagNode 5 tagCrc tagLogsRoot tagLockedItems = .ok (t, hdr) ∧
        (∀ e ∈ t.entries, e.2.deletionRound = 0 ∧ e.2.stateLockTx = none) ∧ t.DepthOk :=
  ⟨rfl, _, _, rfl, readState_unlocked
    (show readState tagUdc tagHash 5 tagNode 5 tagCrc tagLogsRoot tagLockedItems = _ from rfl)⟩

end BftCore.State
