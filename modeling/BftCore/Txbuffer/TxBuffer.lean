import Mathlib
import BftCore.State.Unit

/-!
# `txbuffer`: the buffer of unconfirmed transactions

A validator keeps the transactions it receives in a `TxBuffer` (`tx_buffer.go`) until its
transaction loop takes them: a channel of at most `maxSize` transactions, oldest first, and an
index of the hashes of the transactions pending in it.  `Add` refuses a transaction whose hash
is in the index and a transaction that finds the channel full; `Remove` receives the oldest
transaction and deletes its hash from the index.

* `TxBuffer`, `TxBufferError`, `new`, `add`, `removeFromIndex` and `remove`: the code, the
  index a `Finset` of hashes (the time each was added is read only by the metrics) and the
  channel a list;
* `Call` and `run`: calls of `Add` and `Remove` one after another, the transactions `Add` took
  and those `Remove` handed out;
* `Inv`: every transaction of the channel hashes, to distinct hashes, the index is the set of
  them, and the channel is within its capacity; `add` and `remove` keep it, and so does every
  run (`Inv.run`);
* `remove_eq_of_inv`: in such a buffer `Remove` never fails to hash, so its only error is the
  cancellation the transaction loop takes as its signal to stop; `run_fifo`: a run hands out
  exactly the transactions it took, oldest first, and loses none;
* `add_eq_txInBuffer_iff`, `add_eq_txBufferFull_iff`: which transactions `Add` refuses;
  `add_after_remove`: once handed out, a transaction is taken again.

`Add` holds the mutex from the index lookup to the index write, and `removeFromIndex` takes it;
the receive of `Remove` is outside it.  A receive between the send of an `Add` and its index
write reads nothing of the index, so it acts as one after the write, and `Add` is atomic.  The
model also makes `Remove` atomic: between its receive and its `removeFromIndex`, an `Add` of the
transaction it received is still refused, which the model does not show.  A `Remove` whose
context is done while the channel is empty changes nothing and is left out of the runs.
-/

namespace BftCore.Txbuffer

open BftCore.State (Bytes)

/-- `TxBuffer`: the index of the pending transactions' hashes, the channel, oldest first, its
capacity and the hash algorithm. -/
structure TxBuffer (A T : Type) where
  transactions : Finset Bytes
  transactionsCh : List T
  maxSize : Nat
  hashAlgorithm : A

/-- The errors of `Add` and `Remove`. -/
inductive TxBufferError where
  /-- `tx is nil` -/
  | txIsNil
  /-- `tx already in tx buffer` -/
  | txInBuffer
  /-- `tx buffer is full` -/
  | txBufferFull
  /-- `hashing transaction: %w` -/
  | hashing (e : String)
  deriving DecidableEq

/-- A call on the buffer: `Add` of a transaction, which may be nil, or `Remove`. -/
inductive Call (T : Type) where
  | add (tx : Option T)
  | remove

namespace TxBuffer

variable {A T : Type}

/-- `New(maxSize, hashAlgorithm, …)`; the metrics it registers are left out. -/
def new (available : A → Bool) (maxSize : Nat) (hashAlgorithm : A) :
    Except String (TxBuffer A T) :=
  if maxSize < 1 then .error s!"buffer max size must be greater than zero, got {maxSize}"
  else if !available hashAlgorithm then .error "buffer hash algorithm not available"
  else .ok ⟨∅, [], maxSize, hashAlgorithm⟩

/-- `removeFromIndex(id)`: deleting an id that is not there changes nothing. -/
def removeFromIndex (id : Bytes) (buf : TxBuffer A T) : TxBuffer A T :=
  { buf with transactions := buf.transactions.erase id }

/-- A hash of small numbers: the number as one byte. -/
def byteHash (_ : Unit) (n : Nat) : Except String Bytes := .ok [n.toUInt8]

/-- An empty buffer of two places. -/
def twoPlaces : TxBuffer Unit Nat := ⟨∅, [], 2, ()⟩

section Calls

variable (hash : A → T → Except String Bytes)

/-- `Add(tx)`: the hash of the transaction and the buffer with it, or the error. -/
def add (tx : Option T) (buf : TxBuffer A T) : Except TxBufferError (Bytes × TxBuffer A T) :=
  match tx with
  | none => .error .txIsNil
  | some tx =>
    match hash buf.hashAlgorithm tx with
    | .error e => .error (.hashing e)
    | .ok txHash =>
      if txHash ∈ buf.transactions then .error .txInBuffer
      -- the `select` sends when the channel has room, and takes `default` otherwise
      else if buf.transactionsCh.length < buf.maxSize then
        .ok (txHash, { buf with transactionsCh := buf.transactionsCh ++ [tx],
                                transactions := insert txHash buf.transactions })
      else .error .txBufferFull

/-- `Remove(ctx)` when the channel has a transaction: the oldest one is received, and its hash
deleted from the index.  A transaction that fails to hash has left the channel and stays in the
index.  With the channel empty `Remove` waits for the context (`none`). -/
def remove (buf : TxBuffer A T) : Option (Except TxBufferError T × TxBuffer A T) :=
  match buf.transactionsCh with
  | [] => none
  | tx :: rest =>
    match hash buf.hashAlgorithm tx with
    | .error e => some (.error (.hashing e), { buf with transactionsCh := rest })
    | .ok txHash => some (.ok tx, removeFromIndex txHash { buf with transactionsCh := rest })

/-- The calls one after another from a buffer: the buffer after them, the transactions `Add`
took and those `Remove` handed out, each in order.  A failed call changes nothing, but for the
transaction a failed `Remove` received. -/
def run : List (Call T) → TxBuffer A T → TxBuffer A T × List T × List T
  | [], buf => (buf, [], [])
  | .add tx :: calls, buf =>
    match add hash tx buf with
    | .ok (_, buf') => ((run calls buf').1, tx.toList ++ (run calls buf').2.1, (run calls buf').2.2)
    | .error _ => run calls buf
  | .remove :: calls, buf =>
    match remove hash buf with
    | some (.ok tx, buf') => ((run calls buf').1, (run calls buf').2.1, tx :: (run calls buf').2.2)
    | some (.error _, buf') => run calls buf'
    | none => run calls buf

/-- The hashes of the transactions of a channel that hash. -/
def hashes (txs : List T) (alg : A) : List Bytes :=
  txs.filterMap fun tx => (hash alg tx).toOption

@[simp] theorem hashes_nil (alg : A) : hashes hash [] alg = [] := rfl

theorem hashes_cons_of_ok {tx : T} {alg : A} {h : Bytes} (hh : hash alg tx = .ok h)
    (txs : List T) : hashes hash (tx :: txs) alg = h :: hashes hash txs alg := by
  simp [hashes, hh, Except.toOption]

theorem hashes_append_of_ok {tx : T} {alg : A} {h : Bytes} (hh : hash alg tx = .ok h)
    (txs : List T) : hashes hash (txs ++ [tx]) alg = hashes hash txs alg ++ [h] := by
  simp [hashes, hh, Except.toOption]

theorem mem_hashes {txs : List T} {alg : A} {h : Bytes} :
    h ∈ hashes hash txs alg ↔ ∃ tx ∈ txs, hash alg tx = .ok h := by
  simp only [hashes, List.mem_filterMap]
  refine exists_congr fun tx => and_congr_right fun _ => ?_
  cases hash alg tx <;> simp [Except.toOption]

/-! ### The invariant -/

/-- Every transaction of the channel hashes, to distinct hashes; the index is the set of them;
the channel is within its capacity. -/
structure Inv (buf : TxBuffer A T) : Prop where
  hashOk : ∀ tx ∈ buf.transactionsCh, ∃ h, hash buf.hashAlgorithm tx = .ok h
  nodup : (hashes hash buf.transactionsCh buf.hashAlgorithm).Nodup
  index : buf.transactions = (hashes hash buf.transactionsCh buf.hashAlgorithm).toFinset
  bounded : buf.transactionsCh.length ≤ buf.maxSize

theorem Inv.new {available : A → Bool} {maxSize : Nat} {alg : A} {buf : TxBuffer A T}
    (h : TxBuffer.new available maxSize alg = .ok buf) : Inv hash buf := by
  unfold TxBuffer.new at h
  split at h
  · cases h
  · split at h
    · cases h
    · cases h
      exact ⟨by simp, by simp, rfl, by simp⟩

/-- What a successful `Add` did: the transaction hashed to a hash not in the index, the channel
had room, and the transaction went to its end. -/
theorem add_eq_ok {tx : Option T} {buf buf' : TxBuffer A T} {txHash : Bytes}
    (h : add hash tx buf = .ok (txHash, buf')) :
    ∃ t, tx = some t ∧ hash buf.hashAlgorithm t = .ok txHash ∧ txHash ∉ buf.transactions ∧
      buf.transactionsCh.length < buf.maxSize ∧
      buf' = { buf with transactionsCh := buf.transactionsCh ++ [t],
                        transactions := insert txHash buf.transactions } := by
  cases tx with
  | none => cases h
  | some t =>
    cases hh : hash buf.hashAlgorithm t with
    | error e => simp [add, hh] at h
    | ok h' =>
      by_cases hin : h' ∈ buf.transactions
      · simp [add, hh, hin] at h
      · by_cases hlen : buf.transactionsCh.length < buf.maxSize
        · simp only [add, hh, hin, hlen, if_false, if_true, Except.ok.injEq, Prod.mk.injEq] at h
          obtain ⟨rfl, rfl⟩ := h
          exact ⟨t, rfl, hh, hin, hlen, rfl⟩
        · simp [add, hh, hin, hlen] at h

theorem Inv.add {buf : TxBuffer A T} (hi : Inv hash buf) {tx : Option T} {txHash : Bytes}
    {buf' : TxBuffer A T} (h : TxBuffer.add hash tx buf = .ok (txHash, buf')) : Inv hash buf' := by
  obtain ⟨t, -, ht, hin, hlen, rfl⟩ := add_eq_ok hash h
  have hfresh : txHash ∉ hashes hash buf.transactionsCh buf.hashAlgorithm := by
    rw [hi.index, List.mem_toFinset] at hin
    exact hin
  refine ⟨fun tx htx => ?_, ?_, ?_, ?_⟩
  · rcases List.mem_append.1 htx with htx | htx
    · exact hi.hashOk tx htx
    · rw [List.mem_singleton.1 htx]
      exact ⟨txHash, ht⟩
  · rw [hashes_append_of_ok hash ht, List.nodup_append]
    exact ⟨hi.nodup, List.nodup_singleton _, fun a ha b hb hab =>
      hfresh (by rw [List.mem_singleton.1 hb] at hab; exact hab ▸ ha)⟩
  · rw [hashes_append_of_ok hash ht, hi.index]
    ext a
    simp
  · simpa using hlen

/-- In a buffer that keeps the invariant, `Remove` hands out the oldest transaction and deletes
its hash from the index: it never fails to hash. -/
theorem remove_eq_of_inv {buf : TxBuffer A T} (hi : Inv hash buf) {tx : T} {rest : List T}
    (hch : buf.transactionsCh = tx :: rest) :
    ∃ h, hash buf.hashAlgorithm tx = .ok h ∧
      remove hash buf = some (.ok tx, removeFromIndex h { buf with transactionsCh := rest }) := by
  obtain ⟨h, hh⟩ := hi.hashOk tx (by rw [hch]; exact List.mem_cons_self)
  refine ⟨h, hh, ?_⟩
  simp only [remove, hch, hh]

theorem Inv.remove {buf : TxBuffer A T} (hi : Inv hash buf) {r : Except TxBufferError T}
    {buf' : TxBuffer A T} (h : TxBuffer.remove hash buf = some (r, buf')) : Inv hash buf' := by
  cases hch : buf.transactionsCh with
  | nil => simp [TxBuffer.remove, hch] at h
  | cons tx rest =>
    obtain ⟨th, hth, hrem⟩ := remove_eq_of_inv hash hi hch
    rw [hrem, Option.some.injEq, Prod.mk.injEq] at h
    obtain ⟨-, rfl⟩ := h
    -- the hash of the oldest transaction is not among those of the others
    have hnodup := hi.nodup
    rw [hch, hashes_cons_of_ok hash hth, List.nodup_cons] at hnodup
    have hindex := hi.index
    rw [hch, hashes_cons_of_ok hash hth, List.toFinset_cons] at hindex
    refine ⟨fun t ht => hi.hashOk t (by rw [hch]; exact List.mem_cons_of_mem _ ht), hnodup.2, ?_,
      ?_⟩
    · simp only [removeFromIndex, hindex]
      exact Finset.erase_insert (by simpa using hnodup.1)
    · have hb := hi.bounded
      rw [hch, List.length_cons] at hb
      exact Nat.le_of_succ_le hb

theorem Inv.run {buf : TxBuffer A T} (hi : Inv hash buf) (calls : List (Call T)) :
    Inv hash (TxBuffer.run hash calls buf).1 := by
  induction calls generalizing buf with
  | nil => exact hi
  | cons c calls ih =>
    cases c with
    | add tx =>
      cases h : TxBuffer.add hash tx buf with
      | ok r =>
        obtain ⟨txHash, buf'⟩ := r
        simp only [TxBuffer.run, h]
        exact ih (hi.add hash h)
      | error e =>
        simp only [TxBuffer.run, h]
        exact ih hi
    | remove =>
      cases h : TxBuffer.remove hash buf with
      | none =>
        simp only [TxBuffer.run, h]
        exact ih hi
      | some r =>
        obtain ⟨r, buf'⟩ := r
        cases r with
        | ok tx =>
          simp only [TxBuffer.run, h]
          exact ih (hi.remove hash h)
        | error e =>
          simp only [TxBuffer.run, h]
          exact ih (hi.remove hash h)

/-- **The buffer is a FIFO that loses nothing**: from a buffer that keeps the invariant, the
transactions a run hands out, followed by those left in the channel, are those that were in it
followed by those the run took, in order. -/
theorem run_fifo {buf : TxBuffer A T} (hi : Inv hash buf) (calls : List (Call T)) :
    (run hash calls buf).2.2 ++ (run hash calls buf).1.transactionsCh =
      buf.transactionsCh ++ (run hash calls buf).2.1 := by
  induction calls generalizing buf with
  | nil => simp [TxBuffer.run]
  | cons c calls ih =>
    cases c with
    | add tx =>
      cases h : TxBuffer.add hash tx buf with
      | ok r =>
        obtain ⟨txHash, buf'⟩ := r
        obtain ⟨t, rfl, -, -, -, rfl⟩ := add_eq_ok hash h
        simp only [TxBuffer.run, h, Option.toList_some]
        rw [ih (hi.add hash h)]
        simp
      | error e =>
        simp only [TxBuffer.run, h]
        exact ih hi
    | remove =>
      cases hch : buf.transactionsCh with
      | nil =>
        have h : TxBuffer.remove hash buf = none := by simp [TxBuffer.remove, hch]
        simp only [TxBuffer.run, h]
        rw [ih hi, hch]
      | cons tx rest =>
        -- the oldest transaction is handed out, the only case the invariant leaves
        obtain ⟨th, -, hrem⟩ := remove_eq_of_inv hash hi hch
        simp only [TxBuffer.run, hrem]
        rw [List.cons_append, ih (hi.remove hash hrem)]
        rfl

theorem run_fifo_resubmit :
    (run byteHash [.add (some 1), .add (some 2), .remove, .add (some 1)] twoPlaces).2.2 ++
        (run byteHash [.add (some 1), .add (some 2), .remove, .add (some 1)] twoPlaces).1.transactionsCh =
      twoPlaces.transactionsCh ++
        (run byteHash [.add (some 1), .add (some 2), .remove, .add (some 1)] twoPlaces).2.1 :=
  run_fifo byteHash (Inv.new byteHash (show TxBuffer.new (fun _ => true) 2 () = .ok twoPlaces from rfl))
    [.add (some 1), .add (some 2), .remove, .add (some 1)]

/-- **`Remove` fails only when cancelled**: in a buffer reached by any calls from a new one, a
`Remove` with a transaction in the channel hands out the oldest one, and never fails to hash it. -/
theorem remove_never_fails {available : A → Bool} {maxSize : Nat} {alg : A} {buf : TxBuffer A T}
    (hnew : TxBuffer.new available maxSize alg = .ok buf) (calls : List (Call T)) {tx : T}
    {rest : List T} (hch : (run hash calls buf).1.transactionsCh = tx :: rest) :
    ∃ h, remove hash (run hash calls buf).1 =
      some (.ok tx, removeFromIndex h { (run hash calls buf).1 with transactionsCh := rest }) := by
  obtain ⟨h, -, hrem⟩ := remove_eq_of_inv hash ((Inv.new hash hnew).run hash calls) hch
  exact ⟨h, hrem⟩

theorem remove_never_fails_twice :
    TxBuffer.new (fun _ => true) 2 () = .ok twoPlaces ∧
      (run byteHash [.add (some 1), .add (some 2), .remove] twoPlaces).1.transactionsCh = [2] ∧
      ∃ h, remove byteHash (run byteHash [.add (some 1), .add (some 2), .remove] twoPlaces).1 =
        some (.ok 2, removeFromIndex h
          { (run byteHash [.add (some 1), .add (some 2), .remove] twoPlaces).1 with transactionsCh := [] }) :=
  ⟨rfl, rfl, remove_never_fails byteHash (show TxBuffer.new (fun _ => true) 2 () = .ok twoPlaces from rfl)
    [.add (some 1), .add (some 2), .remove] (show _ = [2] from rfl)⟩

/-! ### What `Add` refuses -/

/-- `Add` refuses a transaction as already in the buffer exactly when a transaction of the same
hash is pending in the channel. -/
theorem add_eq_txInBuffer_iff {buf : TxBuffer A T} (hi : Inv hash buf) {t : T} {h : Bytes}
    (ht : hash buf.hashAlgorithm t = .ok h) :
    add hash (some t) buf = .error .txInBuffer ↔
      ∃ t' ∈ buf.transactionsCh, hash buf.hashAlgorithm t' = .ok h := by
  rw [← mem_hashes, ← List.mem_toFinset, ← hi.index]
  by_cases hin : h ∈ buf.transactions
  · simp [add, ht, hin]
  · -- a fresh hash is taken, or refused for want of room
    simp only [add, ht, hin, if_false, iff_false]
    split <;> simp

/-- `Add` refuses a transaction as the buffer being full exactly when no transaction of the same
hash is pending and the channel holds `maxSize` transactions. -/
theorem add_eq_txBufferFull_iff {buf : TxBuffer A T} (hi : Inv hash buf) {t : T} {h : Bytes}
    (ht : hash buf.hashAlgorithm t = .ok h) :
    add hash (some t) buf = .error .txBufferFull ↔
      (∀ t' ∈ buf.transactionsCh, hash buf.hashAlgorithm t' ≠ .ok h) ∧
        buf.transactionsCh.length = buf.maxSize := by
  have hin : h ∈ buf.transactions ↔ ∃ t' ∈ buf.transactionsCh, hash buf.hashAlgorithm t' = .ok h := by
    rw [hi.index, List.mem_toFinset, mem_hashes]
  have hb := hi.bounded
  by_cases hpend : h ∈ buf.transactions
  · obtain ⟨t', ht', heq⟩ := hin.1 hpend
    have hne : add hash (some t) buf ≠ .error .txBufferFull := by simp [add, ht, hpend]
    exact iff_of_false hne fun hfull => hfull.1 t' ht' heq
  · have hall : ∀ t' ∈ buf.transactionsCh, hash buf.hashAlgorithm t' ≠ .ok h :=
      fun t' ht' heq => hpend (hin.2 ⟨t', ht', heq⟩)
    by_cases hlen : buf.transactionsCh.length < buf.maxSize
    · have hne : add hash (some t) buf ≠ .error .txBufferFull := by simp [add, ht, hpend, hlen]
      exact iff_of_false hne fun hfull => by omega
    · have heq : add hash (some t) buf = .error .txBufferFull := by simp [add, ht, hpend, hlen]
      exact iff_of_true heq ⟨hall, by omega⟩

/-- **Duplicates are refused only while pending**: once `Remove` has handed a transaction out,
`Add` takes it again, as a new transaction. -/
theorem add_after_remove {buf buf' : TxBuffer A T} (hi : Inv hash buf) {t : T}
    (hrem : remove hash buf = some (.ok t, buf')) :
    ∃ h, add hash (some t) buf' =
      .ok (h, { buf' with transactionsCh := buf'.transactionsCh ++ [t],
                          transactions := insert h buf'.transactions }) := by
  cases hch : buf.transactionsCh with
  | nil => simp [remove, hch] at hrem
  | cons tx rest =>
    obtain ⟨h, hh, hrem'⟩ := remove_eq_of_inv hash hi hch
    rw [hrem', Option.some.injEq, Prod.mk.injEq, Except.ok.injEq] at hrem
    obtain ⟨rfl, rfl⟩ := hrem
    have hi' := hi.remove hash hrem'
    -- the transaction's hash left the index with it, and its place in the channel is free
    have hfresh : h ∉ buf.transactions.erase h := by simp
    have hroom : rest.length < buf.maxSize := by
      have hb := hi.bounded
      rw [hch, List.length_cons] at hb
      omega
    exact ⟨h, by simp [add, hh, removeFromIndex, hfresh, hroom]⟩

end Calls

end TxBuffer

end BftCore.Txbuffer
