import BftCore.Rootchain.Types
import BftCore.Lib.Quorum
import BftCore.Lib.UInt64

/-!
# `rootchain/consensus/types`: the proof of a shard's input record change

`IRChangeReq` carries the certification requests of a shard's validators as the proof that the
shard's input record changes: for `Quorum`, requests for one value from a majority; for
`QuorumNotPossible`, requests that leave no value a majority even if every validator not heard
from agreed with the most popular one.  `Verify` checks the proof against a `RequestVerifier`,
which the root chain's `ShardInfo` is.

* `BlockCertificationRequest`, `IRChangeReq`, `RequestVerifier`, and `ShardInfo` with
  `ValidRequest`, `GetQuorum` and `GetTotalNodes`;
* `countRequests`, the loop of `Verify` that counts the requests by the hash of their value,
  `getMaxHashCount`, and `IRChangeReq.verify`;
* `Counts`: what the loop computes (`countRequests_eq_ok`), what an accepted proof holds
  (`verify_quorum_spec`, `verify_quorumNotPossible_spec`), and what makes one accepted
  (`verify_quorum_of`, `verify_quorumNotPossible_of`);
* `ir_change_exclusive`: two proofs accepted against one shard cannot certify two values, nor
  both a value and its absence, when no validator signed two values.

The input record of `bft-go-base` is a type `IR`, read through `RequestChecks`; the hash of a
value (`hash.HashValues`) is a parameter.
-/

namespace BftCore.Rootchain

open BftCore.State (Bytes)

/-- `certification.BlockCertificationRequest`: a validator's input record for the shard's round,
with the sizes of its block and state. -/
structure BlockCertificationRequest (S IR : Type) where
  partitionID : UInt32
  shardID : S
  nodeID : String
  inputRecord : IR
  blockSize : UInt64
  stateSize : UInt64
  signature : Bytes

/-- What a request is counted by: its input record with the two sizes. -/
def BlockCertificationRequest.value {S IR : Type} (req : BlockCertificationRequest S IR) :
    IR × UInt64 × UInt64 :=
  (req.inputRecord, req.blockSize, req.stateSize)

/-- `IRChangeReason`. -/
inductive IRChangeReason where
  | quorum
  | quorumNotPossible
  | t2Timeout
  deriving DecidableEq

/-- `IRChangeReq`. -/
structure IRChangeReq (S IR : Type) where
  partition : UInt32
  shard : S
  certReason : IRChangeReason
  requests : List (BlockCertificationRequest S IR)

/-- `RequestVerifier`. -/
structure RequestVerifier (S IR : Type) where
  getQuorum : UInt64
  getTotalNodes : UInt64
  validRequest : BlockCertificationRequest S IR → Except String Unit

/-- The last unicity certificate of the shard, as `Verify` reads it. -/
structure LastCertificate (IR : Type) where
  inputRecord : IR
  rootRoundNumber : UInt64

/-! ### The shard's verifier -/

/-- What the checks of a request ask of `bft-go-base`: the request's `IsValid` with the key of
its node, and the fields of an input record that `ValidRequest` compares. -/
structure RequestChecks (S IR : Type) where
  isValid : String → BlockCertificationRequest S IR → Except String Unit
  roundNumber : IR → UInt64
  epoch : IR → UInt64
  previousHash : IR → Bytes
  timestamp : IR → UInt64

/-- `storage.ShardInfo`, with what `ValidRequest`, `GetQuorum` and `GetTotalNodes` read: the
shard, the node ids of its validators (the keys of `trustBase`), and its last certified round. -/
structure ShardInfo (S : Type) where
  partitionID : UInt32
  shardID : S
  trustBase : List String
  nodup : trustBase.Nodup
  /-- `LastCR.Technical.Round` and `LastCR.Technical.Epoch` -/
  round : UInt64
  epoch : UInt64
  rootHash : Bytes
  /-- `LastCR.UC.UnicitySeal.Timestamp` -/
  timestamp : UInt64

namespace ShardInfo

variable {S IR : Type} [DecidableEq S] [ToString S]

/-- `GetQuorum()`: more than half of the validators. -/
def getQuorum (si : ShardInfo S) : UInt64 := si.trustBase.length.toUInt64 / 2 + 1

/-- `GetTotalNodes()`. -/
def getTotalNodes (si : ShardInfo S) : UInt64 := si.trustBase.length.toUInt64

/-- `ValidRequest(req)`: a request of a validator, valid with its key, for this shard, and
extending the last certified state. -/
def validRequest (checks : RequestChecks S IR) (si : ShardInfo S)
    (req : BlockCertificationRequest S IR) : Except String Unit :=
  let nodeID := req.nodeID
  -- `si.Verify(req.NodeID, req.IsValid)`
  if nodeID ∉ si.trustBase then
    .error s!"invalid certification request: node \"{nodeID}\" is not in the trustbase of the shard"
  else
    match checks.isValid nodeID req with
    | .error e => .error ("invalid certification request: " ++ e)
    | .ok () =>
      let partition := req.partitionID
      let shard := req.shardID
      let siPartition := si.partitionID
      let siShard := si.shardID
      if partition ≠ siPartition ∨ shard ≠ siShard then
        .error s!"request of shard {partition}-{shard} but ShardInfo of {siPartition}-{siShard}"
      else
        let round := checks.roundNumber req.inputRecord
        let siRound := si.round
        let epoch := checks.epoch req.inputRecord
        let siEpoch := si.epoch
        let timestamp := checks.timestamp req.inputRecord
        let siTimestamp := si.timestamp
        if round ≠ siRound then .error s!"expected round {siRound}, got {round}"
        else if epoch ≠ siEpoch then .error s!"expected epoch {siEpoch}, got {epoch}"
        else if checks.previousHash req.inputRecord ≠ si.rootHash then
          .error "request has different root hash for last certified state"
        else if timestamp ≠ siTimestamp then
          .error s!"IR timestamp {timestamp} doesn\x27t match UnicitySeal timestamp {siTimestamp}"
        else .ok ()

/-- The shard info as the `RequestVerifier` that `VerifyIRChangeReq` passes to `Verify`. -/
def toVerifier (checks : RequestChecks S IR) (si : ShardInfo S) : RequestVerifier S IR :=
  ⟨si.getQuorum, si.getTotalNodes, si.validRequest checks⟩

/-- A valid request is from a validator of the shard, for the shard. -/
theorem validRequest_eq_ok {checks : RequestChecks S IR} {si : ShardInfo S}
    {req : BlockCertificationRequest S IR} (h : si.validRequest checks req = .ok ()) :
    req.nodeID ∈ si.trustBase ∧ req.partitionID = si.partitionID ∧ req.shardID = si.shardID := by
  unfold validRequest at h
  dsimp only at h
  by_cases hnode : req.nodeID ∈ si.trustBase
  · rw [if_neg (not_not.mpr hnode)] at h
    cases hv : checks.isValid req.nodeID req with
    | error e =>
      rw [hv] at h
      cases h
    | ok u =>
      cases u
      rw [hv] at h
      by_cases hshard : req.partitionID ≠ si.partitionID ∨ req.shardID ≠ si.shardID
      · rw [if_pos hshard] at h
        cases h
      · simp only [ne_eq, not_or, not_not] at hshard
        exact ⟨hnode, hshard⟩
  · rw [if_pos hnode] at h
    cases h

end ShardInfo

/-! ### `Verify` -/

section Verify

variable {S IR H : Type} [DecidableEq S] [ToString S] [DecidableEq H]
  (hashValues : IR × UInt64 × UInt64 → H)

/-- The loop of `Verify` over the requests: each for the change request's shard, valid, from a
node not seen before, is counted under the hash of its value. -/
def countRequests (x : IRChangeReq S IR) (tb : RequestVerifier S IR) :
    AList (fun _ : H => UInt64) → List String → List (BlockCertificationRequest S IR) →
      Except String (AList (fun _ : H => UInt64))
  | hashCnt, _, [] => .ok hashCnt
  | hashCnt, nodeIDs, req :: reqs =>
    let partition := x.partition
    let shard := x.shard
    let reqPartition := req.partitionID
    let reqShard := req.shardID
    if partition ≠ reqPartition ∨ shard ≠ reqShard then
      .error s!"shard of the change request is {partition}-{shard} but block certification request is for {reqPartition}={reqShard}"
    else
      match tb.validRequest req with
      | .error e => .error ("invalid certification request: " ++ e)
      | .ok () =>
        let nodeID := req.nodeID
        if nodeID ∈ nodeIDs then
          .error s!"invalid partition {partition} proof: contains duplicate request from node {nodeID}"
        else
          let hash := hashValues req.value
          countRequests x tb (hashCnt.insert hash ((hashCnt.lookup hash).getD 0 + 1))
            (nodeID :: nodeIDs) reqs

/-- `getMaxHashCount`: the largest count. -/
def getMaxHashCount (hashCnt : AList (fun _ : H => UInt64)) : UInt64 :=
  hashCnt.entries.foldl (fun cnt e => if e.2 > cnt then e.2 else cnt) 0

variable (newRepeatIR : IR → IR)

/-- `(*IRChangeReq).Verify`: the input record the proof certifies, the last one repeated when no
quorum is possible or the shard timed out. -/
def IRChangeReq.verify (x : IRChangeReq S IR) (tb : RequestVerifier S IR)
    (luc : LastCertificate IR) (rootRound t2InRounds : UInt64) : Except String IR :=
  if x.requests.length.toUInt64 > tb.getTotalNodes then
    .error "IR Change Request contains more requests than registered partition nodes"
  else
    match countRequests hashValues x tb ∅ [] x.requests with
    | .error e => .error e
    | .ok hashCnt =>
      let partition := x.partition
      match x.certReason with
      | .quorum =>
        if hashCnt.entries.length ≠ 1 then
          .error s!"invalid partition {partition} quorum proof: contains proofs for different state hashes"
        else
          let count := getMaxHashCount hashCnt
          let q := tb.getQuorum
          if count < q then
            .error s!"invalid partition {partition} quorum proof: not enough requests to prove quorum (got {count}, need {q})"
          else
            match x.requests with
            | req :: _ => .ok req.inputRecord
            -- not reached: a hash was counted
            | [] => .error "index out of range"
      | .quorumNotPossible =>
        let maxHC := getMaxHashCount hashCnt
        let q := tb.getQuorum
        if maxHC ≥ q then
          .error s!"can\x27t certify \x27no quorum\x27 as one input already does have quorum ({maxHC} votes, quorum is {q})"
        else
          let vc := tb.getTotalNodes - x.requests.length.toUInt64 + maxHC
          if vc ≥ q then
            .error s!"not enough votes to prove \x27no quorum\x27 - it is possible to get {vc} votes, quorum is {q}"
          else .ok (newRepeatIR luc.inputRecord)
      | .t2Timeout =>
        if x.requests.length ≠ 0 then
          .error s!"invalid partition {partition} timeout proof: proof contains requests"
        else
          let idleRounds := rootRound - luc.rootRoundNumber
          if idleRounds < t2InRounds then
            .error s!"invalid partition {partition} timeout proof: time from latest UC {idleRounds}, timeout in rounds {t2InRounds}"
          else .ok (newRepeatIR luc.inputRecord)

/-! ### What the loop counts -/

/-- `hashCnt` counts the requests `p` by the hash of their value. -/
structure Counts (hashCnt : AList (fun _ : H => UInt64)) (p : List (BlockCertificationRequest S IR)) :
    Prop where
  mem : ∀ h, (hashCnt.lookup h).isSome ↔ ∃ r ∈ p, hashValues r.value = h
  count : ∀ h c, hashCnt.lookup h = some c →
    c = (p.countP (fun r => hashValues r.value = h)).toUInt64

variable {hashValues}

omit [DecidableEq S] [ToString S] in
theorem Counts.empty : Counts hashValues (∅ : AList (fun _ : H => UInt64)) ([] : List (BlockCertificationRequest S IR)) where
  mem h := by simp
  count h c hc := by simp at hc

omit [DecidableEq S] [ToString S] in
omit [DecidableEq S] [ToString S] in
/-- Counting one more request. -/
theorem Counts.insert {hashCnt : AList (fun _ : H => UInt64)} {p : List (BlockCertificationRequest S IR)}
    {req : BlockCertificationRequest S IR} (hc : Counts hashValues hashCnt p) :
    Counts hashValues (hashCnt.insert (hashValues req.value)
      ((hashCnt.lookup (hashValues req.value)).getD 0 + 1)) (p ++ [req]) where
  mem h := by
    by_cases hh : h = hashValues req.value
    · subst hh
      simp only [AList.lookup_insert, Option.isSome_some, true_iff]
      exact ⟨req, List.mem_append_right _ (List.mem_singleton_self _), rfl⟩
    · rw [AList.lookup_insert_ne hh, hc.mem]
      simp only [List.mem_append, List.mem_singleton, or_and_right, exists_or, exists_eq_left]
      exact (or_iff_left fun h' => hh h'.symm).symm
  count h c hcount := by
    rw [List.countP_append]
    by_cases hh : h = hashValues req.value
    · -- the request's hash: one more than before, or one when it is new
      subst hh
      rw [AList.lookup_insert, Option.some.injEq] at hcount
      subst hcount
      cases hold : hashCnt.lookup (hashValues req.value) with
      | none =>
        have hzero : p.countP (fun r => hashValues r.value = hashValues req.value) = 0 := by
          rw [List.countP_eq_zero]
          intro r hr hrh
          have hsome := (hc.mem _).mpr ⟨r, hr, by simpa using hrh⟩
          rw [hold] at hsome
          cases hsome
        simp [hzero]
      | some c₀ =>
        rw [Option.getD_some, hc.count _ c₀ hold]
        simp [Nat.toUInt64_eq, UInt64.ofNat_add]
    · rw [AList.lookup_insert_ne hh] at hcount
      rw [hc.count h c hcount]
      simp [Ne.symm hh]

/-- What the loop of `Verify` finds of the requests it accepts: each for the shard and valid,
from distinct nodes, and counted by hash. -/
theorem countRequests_eq_ok {x : IRChangeReq S IR} {tb : RequestVerifier S IR} :
    ∀ {l p : List (BlockCertificationRequest S IR)} {hashCnt hashCnt' : AList (fun _ : H => UInt64)}
      {nodeIDs : List String},
      countRequests hashValues x tb hashCnt nodeIDs l = .ok hashCnt' →
      Counts hashValues hashCnt p → (∀ n, n ∈ nodeIDs ↔ n ∈ p.map (·.nodeID)) →
      ((p.map (·.nodeID)).Nodup) →
      Counts hashValues hashCnt' (p ++ l) ∧ ((p ++ l).map (·.nodeID)).Nodup ∧
        ∀ r ∈ l, tb.validRequest r = .ok () ∧ r.partitionID = x.partition ∧ r.shardID = x.shard
  | [], p, hashCnt, hashCnt', nodeIDs, h, hc, _, hnodup => by
    cases h
    simpa using ⟨hc, hnodup⟩
  | req :: reqs, p, hashCnt, hashCnt', nodeIDs, h, hc, hnodes, hnodup => by
    unfold countRequests at h
    dsimp only at h
    by_cases hshard : x.partition ≠ req.partitionID ∨ x.shard ≠ req.shardID
    · rw [if_pos hshard] at h
      cases h
    rw [if_neg hshard] at h
    cases hvalid : tb.validRequest req with
    | error e =>
      rw [hvalid] at h
      cases h
    | ok u =>
      cases u
      rw [hvalid] at h
      by_cases hseen : req.nodeID ∈ nodeIDs
      · rw [if_pos hseen] at h
        cases h
      rw [if_neg hseen] at h
      -- the request joins the prefix counted
      have hnodup' : ((p ++ [req]).map (·.nodeID)).Nodup := by
        rw [List.map_append, List.nodup_append]
        refine ⟨hnodup, List.nodup_singleton _, fun a ha b hb hab => ?_⟩
        rw [List.map_singleton, List.mem_singleton] at hb
        subst hb hab
        exact hseen ((hnodes _).mpr ha)
      obtain ⟨hc', hnd, hrest⟩ := countRequests_eq_ok h hc.insert
        (fun n => by simp [hnodes n, or_comm]) hnodup'
      simp only [ne_eq, not_or, not_not] at hshard
      refine ⟨by simpa using hc', by simpa using hnd, fun r hr => ?_⟩
      rcases List.mem_cons.mp hr with rfl | hr
      · exact ⟨hvalid, hshard.1.symm, hshard.2.symm⟩
      · exact hrest r hr

/-- The loop of `Verify` accepts requests for the shard, valid, from distinct nodes. -/
theorem countRequests_isOk {x : IRChangeReq S IR} {tb : RequestVerifier S IR} :
    ∀ {l p : List (BlockCertificationRequest S IR)} (hashCnt : AList (fun _ : H => UInt64))
      {nodeIDs : List String}, (∀ n, n ∈ nodeIDs ↔ n ∈ p.map (·.nodeID)) →
      ((p ++ l).map (·.nodeID)).Nodup →
      (∀ r ∈ l, tb.validRequest r = .ok () ∧ r.partitionID = x.partition ∧ r.shardID = x.shard) →
      ∃ hashCnt', countRequests hashValues x tb hashCnt nodeIDs l = .ok hashCnt'
  | [], _, hashCnt, _, _, _, _ => ⟨hashCnt, rfl⟩
  | req :: reqs, p, hashCnt, nodeIDs, hnodes, hnodup, hvalid => by
    obtain ⟨hv, hpart, hshard⟩ := hvalid req List.mem_cons_self
    have hfresh : req.nodeID ∉ nodeIDs := by
      rw [hnodes]
      intro hmem
      rw [List.map_append, List.nodup_append] at hnodup
      exact hnodup.2.2 _ hmem _ (List.mem_map_of_mem List.mem_cons_self) rfl
    unfold countRequests
    dsimp only
    rw [if_neg (by simp [hpart, hshard]), hv]
    dsimp only
    rw [if_neg hfresh]
    exact countRequests_isOk (p := p ++ [req]) _ (fun n => by simp [hnodes n, or_comm])
      (by simpa using hnodup) fun r hr => hvalid r (List.mem_cons_of_mem _ hr)

omit [DecidableEq H] in
/-- `getMaxHashCount` is the largest count. -/
theorem getMaxHashCount_eq (hashCnt : AList (fun _ : H => UInt64)) :
    getMaxHashCount hashCnt = (hashCnt.entries.map (·.2)).foldl max 0 := by
  simp only [getMaxHashCount, List.foldl_map, gt_iff_lt, UInt64.ite_lt_eq_max]

/-- The largest count is at least each count, and one of them or zero. -/
theorem getMaxHashCount_spec (hashCnt : AList (fun _ : H => UInt64)) :
    (∀ h c, hashCnt.lookup h = some c → c ≤ getMaxHashCount hashCnt) ∧
    (getMaxHashCount hashCnt = 0 ∨ ∃ h, hashCnt.lookup h = some (getMaxHashCount hashCnt)) := by
  obtain ⟨-, hall, hfrom⟩ := UInt64.foldl_max_spec (hashCnt.entries.map (·.2)) 0
  rw [getMaxHashCount_eq]
  refine ⟨fun h c hc => hall c (List.mem_map.mpr ⟨⟨h, c⟩, AList.mem_lookup_iff.mp hc, rfl⟩), ?_⟩
  rcases hfrom with h0 | hmem
  · exact .inl h0
  · obtain ⟨⟨h, c⟩, he, hc⟩ := List.mem_map.mp hmem
    exact .inr ⟨h, by rw [← hc]; exact AList.mem_lookup_iff.mpr he⟩

/-! ### What an accepted proof holds -/

variable (hashValues) in
/-- What `Verify` establishes before it reads the reason: no more requests than nodes, each for
the change request's shard and valid, from distinct nodes, and the counts of their hashes. -/
structure Checked (x : IRChangeReq S IR) (tb : RequestVerifier S IR)
    (hashCnt : AList (fun _ : H => UInt64)) : Prop where
  length : x.requests.length.toUInt64 ≤ tb.getTotalNodes
  counts : Counts hashValues hashCnt x.requests
  nodup : (x.requests.map (·.nodeID)).Nodup
  valid : ∀ r ∈ x.requests, tb.validRequest r = .ok () ∧ r.partitionID = x.partition ∧
    r.shardID = x.shard

variable {newRepeatIR} {x : IRChangeReq S IR} {tb : RequestVerifier S IR} {luc : LastCertificate IR}
  {rootRound t2InRounds : UInt64} {ir : IR}

/-- The guard and the loop of `Verify` passed. -/
theorem checked_of_countRequests {hashCnt : AList (fun _ : H => UInt64)}
    (hlen : x.requests.length.toUInt64 ≤ tb.getTotalNodes)
    (h : countRequests hashValues x tb ∅ [] x.requests = .ok hashCnt) :
    Checked hashValues x tb hashCnt := by
  obtain ⟨hcounts, hnodup, hvalid⟩ := countRequests_eq_ok h Counts.empty (by simp) List.nodup_nil
  exact ⟨hlen, by simpa using hcounts, by simpa using hnodup, hvalid⟩

/-- A proof that `Verify` accepts passed the guard and the loop. -/
theorem verify_eq_ok_checked (h : x.verify hashValues newRepeatIR tb luc rootRound t2InRounds = .ok ir) :
    ∃ hashCnt, countRequests hashValues x tb ∅ [] x.requests = .ok hashCnt ∧
      Checked hashValues x tb hashCnt ∧
      match x.certReason with
      | .quorum => hashCnt.entries.length = 1 ∧ tb.getQuorum ≤ getMaxHashCount hashCnt ∧
          ∃ req reqs, x.requests = req :: reqs ∧ ir = req.inputRecord
      | .quorumNotPossible => getMaxHashCount hashCnt < tb.getQuorum ∧
          tb.getTotalNodes - x.requests.length.toUInt64 + getMaxHashCount hashCnt < tb.getQuorum
      | .t2Timeout => x.requests = [] := by
  unfold IRChangeReq.verify at h
  by_cases hlen : x.requests.length.toUInt64 > tb.getTotalNodes
  · rw [if_pos hlen] at h
    cases h
  rw [if_neg hlen] at h
  cases hc : countRequests hashValues x tb ∅ [] x.requests with
  | error e =>
    rw [hc] at h
    cases h
  | ok hashCnt =>
    rw [hc] at h
    refine ⟨hashCnt, rfl, checked_of_countRequests (UInt64.not_lt.mp hlen) hc, ?_⟩
    dsimp only at h
    -- the branch of the reason
    cases hr : x.certReason with
    | quorum =>
      rw [hr] at h
      dsimp only at h
      by_cases h1 : hashCnt.entries.length ≠ 1
      · rw [if_pos h1] at h
        cases h
      rw [if_neg h1] at h
      by_cases hq : getMaxHashCount hashCnt < tb.getQuorum
      · rw [if_pos hq] at h
        cases h
      rw [if_neg hq] at h
      refine ⟨not_not.mp h1, UInt64.not_lt.mp hq, ?_⟩
      cases hreq : x.requests with
      | nil =>
        rw [hreq] at h
        cases h
      | cons req reqs =>
        rw [hreq] at h
        exact ⟨req, reqs, rfl, (Except.ok.inj h).symm⟩
    | quorumNotPossible =>
      rw [hr] at h
      dsimp only at h
      by_cases hmax : getMaxHashCount hashCnt ≥ tb.getQuorum
      · rw [if_pos hmax] at h
        cases h
      rw [if_neg hmax] at h
      by_cases hvc : tb.getTotalNodes - x.requests.length.toUInt64 + getMaxHashCount hashCnt ≥
          tb.getQuorum
      · rw [if_pos hvc] at h
        cases h
      exact ⟨UInt64.not_le.mp hmax, UInt64.not_le.mp hvc⟩
    | t2Timeout =>
      rw [hr] at h
      dsimp only at h
      by_cases hne : x.requests.length ≠ 0
      · rw [if_pos hne] at h
        cases h
      exact List.length_eq_zero_iff.mp (not_not.mp hne)

/-! ### Counting against a shard's validators -/

omit [DecidableEq S] [ToString S] in
/-- The counts of a list shorter than `2 ^ 64` are exact. -/
theorem Counts.toNat {hashCnt : AList (fun _ : H => UInt64)} {p : List (BlockCertificationRequest S IR)}
    (hc : Counts hashValues hashCnt p) (hlen : p.length < 2 ^ 64) {h : H} {c : UInt64}
    (hh : hashCnt.lookup h = some c) : c.toNat = p.countP (fun r => hashValues r.value = h) := by
  rw [hc.count h c hh]
  exact UInt64.toNat_ofNat_of_lt' (Nat.lt_of_le_of_lt List.countP_le_length hlen)

omit [DecidableEq S] [ToString S] in
/-- The largest count is at least the count of each hash. -/
theorem Counts.countP_le_max {hashCnt : AList (fun _ : H => UInt64)}
    {p : List (BlockCertificationRequest S IR)} (hc : Counts hashValues hashCnt p)
    (hlen : p.length < 2 ^ 64) (h : H) :
    p.countP (fun r => hashValues r.value = h) ≤ (getMaxHashCount hashCnt).toNat := by
  cases hh : hashCnt.lookup h with
  | none =>
    have hzero : p.countP (fun r => hashValues r.value = h) = 0 := by
      rw [List.countP_eq_zero]
      intro r hr hrh
      have hsome := (hc.mem h).mpr ⟨r, hr, by simpa using hrh⟩
      rw [hh] at hsome
      cases hsome
    omega
  | some c =>
    rw [← hc.toNat hlen hh]
    exact UInt64.le_iff_toNat_le.mp ((getMaxHashCount_spec hashCnt).1 h c hh)

omit [DecidableEq S] [ToString S] in
/-- The largest count is at most the number of requests. -/
theorem Counts.max_le_length {hashCnt : AList (fun _ : H => UInt64)}
    {p : List (BlockCertificationRequest S IR)} (hc : Counts hashValues hashCnt p)
    (hlen : p.length < 2 ^ 64) : (getMaxHashCount hashCnt).toNat ≤ p.length := by
  rcases (getMaxHashCount_spec hashCnt).2 with h0 | ⟨h, hh⟩
  · rw [h0]
    exact Nat.zero_le _
  · rw [hc.toNat hlen hh]
    exact List.countP_le_length

omit [DecidableEq S] [ToString S] in
/-- A map of one hash counts requests of one hash. -/
theorem Counts.eq_of_length_one {hashCnt : AList (fun _ : H => UInt64)}
    {p : List (BlockCertificationRequest S IR)} (hc : Counts hashValues hashCnt p)
    (h1 : hashCnt.entries.length = 1) {r₁ r₂ : BlockCertificationRequest S IR} (hr₁ : r₁ ∈ p)
    (hr₂ : r₂ ∈ p) : hashValues r₁.value = hashValues r₂.value := by
  obtain ⟨e, he⟩ := List.length_eq_one_iff.mp h1
  have hkey : ∀ r ∈ p, hashValues r.value = e.1 := fun r hr => by
    have hmem := AList.lookup_isSome.mp ((hc.mem _).mpr ⟨r, hr, rfl⟩)
    rw [AList.mem_keys, AList.keys, he] at hmem
    simpa using hmem
  rw [hkey r₁ hr₁, hkey r₂ hr₂]

omit [DecidableEq S] [ToString S] in
/-- Requests of one hash are counted under one key. -/
theorem Counts.length_eq_one {hashCnt : AList (fun _ : H => UInt64)}
    {p : List (BlockCertificationRequest S IR)} (hc : Counts hashValues hashCnt p) {h₀ : H}
    (hne : p ≠ []) (hall : ∀ r ∈ p, hashValues r.value = h₀) : hashCnt.entries.length = 1 := by
  have hkeys : ∀ k ∈ hashCnt.keys, k = h₀ := fun k hk => by
    obtain ⟨r, hr, rfl⟩ := (hc.mem k).mp (AList.lookup_isSome.mpr (AList.mem_keys.mpr hk))
    exact hall r hr
  obtain ⟨r, hr⟩ := List.exists_mem_of_ne_nil p hne
  have hmem : h₀ ∈ hashCnt.keys :=
    AList.mem_keys.mp (AList.lookup_isSome.mp ((hc.mem h₀).mpr ⟨r, hr, hall r hr⟩))
  -- the keys, without duplicates, are all `h₀`, and `h₀` is one
  have hle : hashCnt.keys.length ≤ 1 := by
    have hsub : hashCnt.keys ⊆ [h₀] := fun k hk => by simp [hkeys k hk]
    simpa using (List.subperm_of_subset hashCnt.keys_nodup hsub).length_le
  have hpos : 0 < hashCnt.keys.length := List.length_pos_of_mem hmem
  have hlen : hashCnt.entries.length = hashCnt.keys.length := by simp [AList.keys, List.keys]
  omega

end Verify

namespace ShardInfo

variable {S IR : Type} [DecidableEq S] [ToString S] {checks : RequestChecks S IR} {si : ShardInfo S}

omit [DecidableEq S] [ToString S] in
theorem getQuorum_toNat (hN : si.trustBase.length < 2 ^ 64) :
    si.getQuorum.toNat = si.trustBase.length / 2 + 1 := by
  have hlen : si.trustBase.length.toUInt64.toNat = si.trustBase.length :=
    UInt64.toNat_ofNat_of_lt' hN
  rw [getQuorum, UInt64.toNat_add, UInt64.toNat_div, hlen]
  simp only [UInt64.reduceToNat]
  omega

omit [DecidableEq S] [ToString S] in
theorem getTotalNodes_toNat (hN : si.trustBase.length < 2 ^ 64) :
    si.getTotalNodes.toNat = si.trustBase.length :=
  UInt64.toNat_ofNat_of_lt' hN

/-- The requests of distinct validators are at most as many as the validators. -/
theorem length_le_of_valid {reqs : List (BlockCertificationRequest S IR)}
    (hnodup : (reqs.map (·.nodeID)).Nodup)
    (hvalid : ∀ r ∈ reqs, si.validRequest checks r = .ok ()) :
    reqs.length ≤ si.trustBase.length := by
  have hsub : reqs.map (·.nodeID) ⊆ si.trustBase := fun n hn => by
    obtain ⟨r, hr, rfl⟩ := List.mem_map.mp hn
    exact (validRequest_eq_ok (hvalid r hr)).1
  simpa using (List.subperm_of_subset hnodup hsub).length_le

end ShardInfo

/-! ### Two proofs against one shard -/

section Exclusive

variable {S IR H : Type} [DecidableEq S] [ToString S] [DecidableEq H]
  {hashValues : IR × UInt64 × UInt64 → H} {newRepeatIR : IR → IR}
  {checks : RequestChecks S IR} {si : ShardInfo S} {x x₁ x₂ : IRChangeReq S IR}
  {hashCnt hashCnt₁ hashCnt₂ : AList (fun _ : H => UInt64)}

/-- The requests of a proof checked against a shard, from distinct validators, are at most as
many as them. -/
theorem Checked.length_le (hc : Checked hashValues x (si.toVerifier checks) hashCnt) :
    x.requests.length ≤ si.trustBase.length :=
  ShardInfo.length_le_of_valid hc.nodup fun r hr => (hc.valid r hr).1

/-- `GetTotalNodes() - len(Requests) + maxHC`, after the guard and the loop, does not wrap. -/
theorem Checked.votes_toNat (hN : si.trustBase.length < 2 ^ 64)
    (hc : Checked hashValues x (si.toVerifier checks) hashCnt) :
    (si.getTotalNodes - x.requests.length.toUInt64 + getMaxHashCount hashCnt).toNat =
      si.trustBase.length - x.requests.length + (getMaxHashCount hashCnt).toNat := by
  have hle := hc.length_le
  have hlen : x.requests.length < 2 ^ 64 := by omega
  have hmax := hc.counts.max_le_length hlen
  have hlenU : x.requests.length.toUInt64.toNat = x.requests.length := UInt64.toNat_ofNat_of_lt' hlen
  have htot := ShardInfo.getTotalNodes_toNat hN
  have hsub : x.requests.length.toUInt64 ≤ si.getTotalNodes := UInt64.le_iff_toNat_le.mpr (by omega)
  rw [UInt64.toNat_add, UInt64.toNat_sub_of_le _ _ hsub, hlenU, htot]
  omega

/-- Two proofs checked against one shard: the requests of the second from validators of the
first are at least as many as the two proofs have together beyond the number of validators. -/
theorem Checked.length_add_length_le (hc₁ : Checked hashValues x₁ (si.toVerifier checks) hashCnt₁)
    (hc₂ : Checked hashValues x₂ (si.toVerifier checks) hashCnt₂) :
    x₁.requests.length + x₂.requests.length ≤ si.trustBase.length +
      x₂.requests.countP (fun r => r.nodeID ∈ (x₁.requests.map (·.nodeID)).toFinset) := by
  have hsub : ∀ {x : IRChangeReq S IR} {hashCnt : AList (fun _ : H => UInt64)},
      Checked hashValues x (si.toVerifier checks) hashCnt →
      (x.requests.map (·.nodeID)).toFinset ⊆ si.trustBase.toFinset := fun hc n hn => by
    obtain ⟨r, hr, rfl⟩ := List.mem_map.mp (List.mem_toFinset.mp hn)
    exact List.mem_toFinset.mpr (ShardInfo.validRequest_eq_ok (hc.valid r hr).1).1
  have hcard := Finset.card_add_card_le_card_inter (hsub hc₂) (hsub hc₁)
  rw [List.toFinset_card_of_nodup hc₂.nodup, List.toFinset_card_of_nodup hc₁.nodup,
    List.toFinset_card_of_nodup si.nodup, List.length_map, List.length_map] at hcard
  have hcount : x₂.requests.countP (fun r => r.nodeID ∈ (x₁.requests.map (·.nodeID)).toFinset) =
      ((x₂.requests.map (·.nodeID)).toFinset ∩ (x₁.requests.map (·.nodeID)).toFinset).card := by
    rw [← List.countP_mem_eq_card_inter hc₂.nodup, List.countP_map]
    rfl
  omega

variable {luc : LastCertificate IR} {rootRound t2InRounds : UInt64} {ir : IR}

/-- An accepted `Quorum` proof: requests of one value from more than half of the validators, the
value's input record certified. -/
theorem verify_quorum_spec (hhash : Function.Injective hashValues)
    (hN : si.trustBase.length < 2 ^ 64) (hr : x.certReason = .quorum)
    (h : x.verify hashValues newRepeatIR (si.toVerifier checks) luc rootRound t2InRounds = .ok ir) :
    ∃ hashCnt, Checked hashValues x (si.toVerifier checks) hashCnt ∧
      si.trustBase.length / 2 + 1 ≤ x.requests.length ∧
      ∃ v, ir = v.1 ∧ ∀ r ∈ x.requests, r.value = v := by
  obtain ⟨hashCnt, -, hc, hbranch⟩ := verify_eq_ok_checked h
  rw [hr] at hbranch
  obtain ⟨h1, hq, req, reqs, hreqs, rfl⟩ := hbranch
  have hlen : x.requests.length < 2 ^ 64 := Nat.lt_of_le_of_lt hc.length_le hN
  have hreq : req ∈ x.requests := hreqs ▸ List.mem_cons_self
  -- one hash: every request is counted under the first one's, and that count is the largest
  have hall : x.requests.countP (fun r => hashValues r.value = hashValues req.value) =
      x.requests.length := by
    rw [List.countP_eq_length]
    intro r hr
    simpa using hc.counts.eq_of_length_one h1 hr hreq
  have hge := hc.counts.countP_le_max hlen (hashValues req.value)
  have hq' : si.getQuorum.toNat ≤ (getMaxHashCount hashCnt).toNat := UInt64.le_iff_toNat_le.mp hq
  have hmax := hc.counts.max_le_length hlen
  rw [ShardInfo.getQuorum_toNat hN] at hq'
  exact ⟨hashCnt, hc, by omega, req.value, rfl,
    fun r hr => hhash (hc.counts.eq_of_length_one h1 hr hreq)⟩

/-- An accepted `QuorumNotPossible` proof: even with the validators not heard from added to the
largest count, no value reaches more than half of them. -/
theorem verify_quorumNotPossible_spec (hN : si.trustBase.length < 2 ^ 64)
    (hr : x.certReason = .quorumNotPossible)
    (h : x.verify hashValues newRepeatIR (si.toVerifier checks) luc rootRound t2InRounds = .ok ir) :
    ∃ hashCnt, Checked hashValues x (si.toVerifier checks) hashCnt ∧
      si.trustBase.length - x.requests.length + (getMaxHashCount hashCnt).toNat <
        si.trustBase.length / 2 + 1 := by
  obtain ⟨hashCnt, -, hc, hbranch⟩ := verify_eq_ok_checked h
  rw [hr] at hbranch
  obtain ⟨-, hvc⟩ := hbranch
  have hvc' : (si.getTotalNodes - x.requests.length.toUInt64 + getMaxHashCount hashCnt).toNat <
      si.getQuorum.toNat := UInt64.lt_iff_toNat_lt.mp hvc
  rw [hc.votes_toNat hN, ShardInfo.getQuorum_toNat hN] at hvc'
  exact ⟨hashCnt, hc, hvc'⟩

/-- The guard of `Verify` passes requests from distinct validators. -/
theorem guard_of_valid (hN : si.trustBase.length < 2 ^ 64)
    (hvalid : ∀ r ∈ x.requests, si.validRequest checks r = .ok ())
    (hnodup : (x.requests.map (·.nodeID)).Nodup) :
    x.requests.length < 2 ^ 64 ∧ x.requests.length.toUInt64 ≤ si.getTotalNodes := by
  have hle : x.requests.length ≤ si.trustBase.length := ShardInfo.length_le_of_valid hnodup hvalid
  have hlen : x.requests.length < 2 ^ 64 := by omega
  refine ⟨hlen, ?_⟩
  rw [UInt64.le_iff_toNat_le, UInt64.toNat_ofNat_of_lt' hlen, ShardInfo.getTotalNodes_toNat hN]
  exact hle

variable (hashValues) in
/-- The loop of `Verify` runs through a proof of valid requests from distinct validators. -/
theorem countRequests_requests_isOk
    (hvalid : ∀ r ∈ x.requests, si.validRequest checks r = .ok () ∧ r.partitionID = x.partition ∧
      r.shardID = x.shard)
    (hnodup : (x.requests.map (·.nodeID)).Nodup) :
    ∃ hashCnt, countRequests hashValues x (si.toVerifier checks) ∅ [] x.requests = .ok hashCnt :=
  countRequests_isOk (p := []) ∅ (by simp) (by simpa using hnodup) hvalid

/-- A `Quorum` proof of valid requests for the shard from distinct validators, more than half of
them, all of one hash, is accepted. -/
theorem verify_quorum_of (hN : si.trustBase.length < 2 ^ 64) (hr : x.certReason = .quorum)
    (hvalid : ∀ r ∈ x.requests, si.validRequest checks r = .ok () ∧ r.partitionID = x.partition ∧
      r.shardID = x.shard)
    (hnodup : (x.requests.map (·.nodeID)).Nodup) {h₀ : H}
    (hall : ∀ r ∈ x.requests, hashValues r.value = h₀)
    (hq : si.trustBase.length / 2 + 1 ≤ x.requests.length) :
    ∃ ir, x.verify hashValues newRepeatIR (si.toVerifier checks) luc rootRound t2InRounds = .ok ir := by
  obtain ⟨hlen, hguard⟩ := guard_of_valid hN (fun r hr => (hvalid r hr).1) hnodup
  obtain ⟨hashCnt, hcnt⟩ := countRequests_requests_isOk hashValues hvalid hnodup
  have hc := checked_of_countRequests hguard hcnt
  have hne : x.requests ≠ [] := List.ne_nil_of_length_pos (by omega)
  have h1 := hc.counts.length_eq_one hne hall
  -- every request counts for `h₀`, so the largest count is their number
  have hmax : ¬ getMaxHashCount hashCnt < si.getQuorum := by
    rw [UInt64.not_lt, UInt64.le_iff_toNat_le, ShardInfo.getQuorum_toNat hN]
    have hge := hc.counts.countP_le_max hlen h₀
    rw [List.countP_eq_length.mpr (by simpa using hall)] at hge
    omega
  obtain ⟨req, reqs, hreqs⟩ := List.exists_cons_of_ne_nil hne
  refine ⟨req.inputRecord, ?_⟩
  unfold IRChangeReq.verify
  rw [hcnt]
  simp only [ShardInfo.toVerifier, gt_iff_lt, hr, h1, ne_eq, not_true_eq_false, if_false]
  simp only [UInt64.not_lt.mpr hguard, hmax, if_false]
  rw [hreqs]

/-- A `QuorumNotPossible` proof of valid requests for the shard from distinct validators is
accepted when no count, with the validators not heard from added, reaches more than half of
them. -/
theorem verify_quorumNotPossible_of (hN : si.trustBase.length < 2 ^ 64)
    (hr : x.certReason = .quorumNotPossible)
    (hvalid : ∀ r ∈ x.requests, si.validRequest checks r = .ok () ∧ r.partitionID = x.partition ∧
      r.shardID = x.shard)
    (hnodup : (x.requests.map (·.nodeID)).Nodup) {M : Nat}
    (hmax : ∀ h, x.requests.countP (fun r => hashValues r.value = h) ≤ M)
    (hvc : si.trustBase.length - x.requests.length + M < si.trustBase.length / 2 + 1) :
    ∃ ir, x.verify hashValues newRepeatIR (si.toVerifier checks) luc rootRound t2InRounds = .ok ir := by
  obtain ⟨hlen, hguard⟩ := guard_of_valid hN (fun r hr => (hvalid r hr).1) hnodup
  obtain ⟨hashCnt, hcnt⟩ := countRequests_requests_isOk hashValues hvalid hnodup
  have hc := checked_of_countRequests hguard hcnt
  have hM : (getMaxHashCount hashCnt).toNat ≤ M := by
    rcases (getMaxHashCount_spec hashCnt).2 with h0 | ⟨h, hh⟩
    · rw [h0]
      exact Nat.zero_le _
    · rw [hc.counts.toNat hlen hh]
      exact hmax h
  have hvotes := hc.votes_toNat hN
  have hq : si.getQuorum.toNat = si.trustBase.length / 2 + 1 := ShardInfo.getQuorum_toNat hN
  have hmaxq : ¬ getMaxHashCount hashCnt ≥ si.getQuorum := by
    rw [ge_iff_le, UInt64.not_le, UInt64.lt_iff_toNat_lt]
    omega
  have hvcq : ¬ si.getTotalNodes - x.requests.length.toUInt64 + getMaxHashCount hashCnt ≥
      si.getQuorum := by
    rw [ge_iff_le, UInt64.not_le, UInt64.lt_iff_toNat_lt]
    omega
  refine ⟨newRepeatIR luc.inputRecord, ?_⟩
  unfold IRChangeReq.verify
  rw [hcnt]
  simp only [ShardInfo.toVerifier, gt_iff_lt, hr]
  simp only [UInt64.not_lt.mpr hguard, hmaxq, hvcq, if_false]

variable (hashValues newRepeatIR checks si) in
/-- Against one shard whose validators signed one value each for the round: two accepted `Quorum`
proofs certify one input record; a `Quorum` proof and a `QuorumNotPossible` proof are not both
accepted; an accepted `Quorum` proof holds valid requests of one value from more than half of
the validators; and the votes still possible, `GetTotalNodes() - len(Requests) + maxHC`, do not
wrap. -/
theorem ir_change_exclusive (hhash : Function.Injective hashValues)
    (hN : si.trustBase.length < 2 ^ 64) (luc : LastCertificate IR) (rootRound t2InRounds : UInt64)
    (x₁ x₂ : IRChangeReq S IR)
    (hsigned : ∀ r₁ ∈ x₁.requests ++ x₂.requests, ∀ r₂ ∈ x₁.requests ++ x₂.requests,
      r₁.nodeID = r₂.nodeID → r₁.value = r₂.value) :
    let verify := fun x : IRChangeReq S IR =>
      x.verify hashValues newRepeatIR (si.toVerifier checks) luc rootRound t2InRounds
    (x₁.certReason = .quorum → x₂.certReason = .quorum →
      ∀ ir₁ ir₂, verify x₁ = .ok ir₁ → verify x₂ = .ok ir₂ → ir₁ = ir₂) ∧
    (x₁.certReason = .quorum → x₂.certReason = .quorumNotPossible →
      ∀ ir₁ ir₂, verify x₁ = .ok ir₁ → verify x₂ = .ok ir₂ → False) ∧
    (x₁.certReason = .quorum → ∀ ir₁, verify x₁ = .ok ir₁ →
      (x₁.requests.map (·.nodeID)).Nodup ∧ si.trustBase.length / 2 + 1 ≤ x₁.requests.length ∧
      ∃ v, ir₁ = v.1 ∧ ∀ r ∈ x₁.requests, si.validRequest checks r = .ok () ∧ r.value = v) ∧
    (∀ hashCnt, x₁.requests.length.toUInt64 ≤ si.getTotalNodes →
      countRequests hashValues x₁ (si.toVerifier checks) ∅ [] x₁.requests = .ok hashCnt →
      (si.getTotalNodes - x₁.requests.length.toUInt64 + getMaxHashCount hashCnt).toNat =
        si.trustBase.length - x₁.requests.length + (getMaxHashCount hashCnt).toNat) := by
  intro verify
  -- a request of the second proof from a validator of the first carries the first's value
  have hshared : ∀ v, (∀ r ∈ x₁.requests, r.value = v) → ∀ r ∈ x₂.requests,
      r.nodeID ∈ (x₁.requests.map (·.nodeID)).toFinset → r.value = v := by
    intro v hv r hr hn
    obtain ⟨r₁, hr₁, hnode⟩ := List.mem_map.mp (List.mem_toFinset.mp hn)
    rw [← hv r₁ hr₁]
    exact (hsigned r₁ (List.mem_append_left _ hr₁) r (List.mem_append_right _ hr) hnode).symm
  refine ⟨fun hr₁ hr₂ ir₁ ir₂ h₁ h₂ => ?_, fun hr₁ hr₂ ir₁ ir₂ h₁ h₂ => ?_, fun hr₁ ir₁ h₁ => ?_,
    fun hashCnt hlen hcount => ?_⟩
  · -- two majorities share a validator, whose one value both certify
    obtain ⟨_, hc₁, hq₁, v₁, rfl, hv₁⟩ := verify_quorum_spec hhash hN hr₁ h₁
    obtain ⟨_, hc₂, hq₂, v₂, rfl, hv₂⟩ := verify_quorum_spec hhash hN hr₂ h₂
    have hle := hc₁.length_add_length_le hc₂
    obtain ⟨r, hr, hn⟩ := List.countP_pos_iff.mp (show 0 < x₂.requests.countP
      (fun r => r.nodeID ∈ (x₁.requests.map (·.nodeID)).toFinset) by omega)
    rw [← hshared v₁ hv₁ r hr (by simpa using hn), hv₂ r hr]
  · -- the validators of the quorum that the other proof heard from count for one value
    obtain ⟨_, hc₁, hq₁, v₁, -, hv₁⟩ := verify_quorum_spec hhash hN hr₁ h₁
    obtain ⟨hashCnt₂, hc₂, hvc⟩ := verify_quorumNotPossible_spec hN hr₂ h₂
    have hle := hc₁.length_add_length_le hc₂
    have hcount : x₂.requests.countP (fun r => r.nodeID ∈ (x₁.requests.map (·.nodeID)).toFinset) ≤
        x₂.requests.countP (fun r => hashValues r.value = hashValues v₁) := by
      refine List.countP_mono_left fun r hr hn => ?_
      simp only [decide_eq_true_eq] at hn ⊢
      rw [hshared v₁ hv₁ r hr hn]
    have hmax := hc₂.counts.countP_le_max (Nat.lt_of_le_of_lt hc₂.length_le hN) (hashValues v₁)
    have hlen₂ := hc₂.length_le
    omega
  · obtain ⟨_, hc₁, hq₁, v, hir, hv⟩ := verify_quorum_spec hhash hN hr₁ h₁
    exact ⟨hc₁.nodup, hq₁, v, hir, fun r hr => ⟨(hc₁.valid r hr).1, hv r hr⟩⟩
  · exact (checked_of_countRequests hlen hcount).votes_toNat hN

end Exclusive

/-- Checks that pass every request, of input records that carry nothing. -/
def passingChecks : RequestChecks Unit Unit := ⟨fun _ _ => .ok (), fun _ => 0, fun _ => 0, fun _ => [], fun _ => 0⟩

/-- A shard of three validators, whose quorum is two. -/
def threeValidatorShard : ShardInfo Unit :=
  ⟨1, (), ["a", "b", "c"], by decide, 0, 0, [], 0⟩

/-- The request of a validator of `threeValidatorShard`, for a block of size `5`. -/
def requestOf (nodeID : String) : BlockCertificationRequest Unit Unit := ⟨1, (), nodeID, (), 5, 0, []⟩

/-- A `Quorum` proof from the validators `a` and `b`. -/
def quorumProofAB : IRChangeReq Unit Unit := ⟨1, (), .quorum, [requestOf "a", requestOf "b"]⟩

/-- A `Quorum` proof from the validators `b` and `c`. -/
def quorumProofBC : IRChangeReq Unit Unit := ⟨1, (), .quorum, [requestOf "b", requestOf "c"]⟩

/-- Two `Quorum` proofs of the shard of three validators that share the validator `b`: both are
accepted, for one input record. -/
theorem ir_change_exclusive_threeValidatorShard :
    Function.Injective (id : Unit × UInt64 × UInt64 → Unit × UInt64 × UInt64) ∧
    threeValidatorShard.trustBase.length < 2 ^ 64 ∧
    (∀ r₁ ∈ quorumProofAB.requests ++ quorumProofBC.requests,
      ∀ r₂ ∈ quorumProofAB.requests ++ quorumProofBC.requests,
      r₁.nodeID = r₂.nodeID → r₁.value = r₂.value) ∧
    let verify := fun x : IRChangeReq Unit Unit =>
      x.verify id id (threeValidatorShard.toVerifier passingChecks) ⟨(), 0⟩ 0 0
    (verify quorumProofAB = .ok () ∧ verify quorumProofBC = .ok ()) ∧
    (quorumProofAB.certReason = .quorum → quorumProofBC.certReason = .quorum →
      ∀ ir₁ ir₂, verify quorumProofAB = .ok ir₁ → verify quorumProofBC = .ok ir₂ → ir₁ = ir₂) ∧
    (quorumProofAB.certReason = .quorum → quorumProofBC.certReason = .quorumNotPossible →
      ∀ ir₁ ir₂, verify quorumProofAB = .ok ir₁ → verify quorumProofBC = .ok ir₂ → False) ∧
    (quorumProofAB.certReason = .quorum → ∀ ir₁, verify quorumProofAB = .ok ir₁ →
      (quorumProofAB.requests.map (·.nodeID)).Nodup ∧
      threeValidatorShard.trustBase.length / 2 + 1 ≤ quorumProofAB.requests.length ∧
      ∃ v, ir₁ = v.1 ∧ ∀ r ∈ quorumProofAB.requests,
        threeValidatorShard.validRequest passingChecks r = .ok () ∧ r.value = v) ∧
    (∀ hashCnt, quorumProofAB.requests.length.toUInt64 ≤ threeValidatorShard.getTotalNodes →
      countRequests id quorumProofAB (threeValidatorShard.toVerifier passingChecks) ∅ []
        quorumProofAB.requests = .ok hashCnt →
      (threeValidatorShard.getTotalNodes - quorumProofAB.requests.length.toUInt64 +
          getMaxHashCount hashCnt).toNat =
        threeValidatorShard.trustBase.length - quorumProofAB.requests.length +
          (getMaxHashCount hashCnt).toNat) := by
  refine ⟨?inj, ?len, ?signed, ?concl⟩
  case concl =>
    intro verify
    exact ⟨⟨rfl, rfl⟩, ir_change_exclusive id id passingChecks threeValidatorShard ?inj ?len ⟨(), 0⟩
      0 0 quorumProofAB quorumProofBC ?signed⟩
  case inj => exact Function.injective_id
  case len => decide
  case signed => simp [quorumProofAB, quorumProofBC, requestOf, BlockCertificationRequest.value]

end BftCore.Rootchain
