import BftCore.Rootchain.Certification
import BftCore.Lib.List
import BftCore.Lib.Wp

/-!
# `rootchain`: the buffer of certification requests

The root node collects the certification requests of a shard's validators in a `requestBuffer`:
the first request of each node is kept in the bucket of the hash of its value, and after each one
`isConsensusReceived` decides from the largest bucket whether a value has a quorum, whether none
can have one any more, or whether to wait.  The requests it returns are the proof the node puts
into an `IRChangeReq`, which the leader and the voters check again with `Verify`.

* `QuorumStatus`, `QuorumInfo`, `RequestBuffer` with `add` and `isConsensusReceived`, and
  `CertRequestBuffer`, the buffers of all shards, with `Add`, `IsConsensusReceived` and `Clear`;
* `Outcome`: what the decision should be over the requests received, counted by value, and its
  consequences (`Outcome.eq_quorumAchieved_iff`, `Outcome.eq_quorumNotPossible_iff`,
  `Outcome.decided`);
* `BufInv`: what a buffer holds over the requests added, kept by `add`; over it
  `isConsensusReceived` decides as `Outcome` says (`BufInv.outcome`);
* `request_buffer_agrees`: along requests of distinct validators added to a shard's buffer the
  status is decided as `Outcome` says, and the proof returned passes `Verify`.

Go iterates over a map in no fixed order; the model goes through the buckets in the order of the
`AList`, and nothing proved depends on that order.
-/

namespace BftCore.Rootchain

/-- `QuorumStatus`. -/
inductive QuorumStatus where
  | quorumUnknown
  | quorumInProgress
  | quorumAchieved
  | quorumNotPossible
  deriving DecidableEq, Repr

/-- `QuorumInfo`: what the buffer asks of the shard. -/
structure QuorumInfo where
  getQuorum : UInt64
  getTotalNodes : UInt64

/-- The shard info as the `QuorumInfo` the node passes to the buffer. -/
def ShardInfo.toQuorumInfo {S : Type} (si : ShardInfo S) : QuorumInfo :=
  ⟨si.getQuorum, si.getTotalNodes⟩

/-- `requestBuffer`: the nodes heard from (the keys of `nodeRequest`), the requests by the hash of
their value, and the status. -/
structure RequestBuffer (S IR H : Type) where
  nodeRequest : List String
  requests : AList (fun _ : H => List (BlockCertificationRequest S IR))
  qState : QuorumStatus

namespace RequestBuffer

variable {S IR H : Type} [DecidableEq H]

/-- `newRequestStore()`. -/
def newRequestStore : RequestBuffer S IR H := ⟨[], ∅, .quorumInProgress⟩

/-- `reset()`: both maps cleared, and the status back to in progress. -/
def reset (_ : RequestBuffer S IR H) : RequestBuffer S IR H := ⟨[], ∅, .quorumInProgress⟩

/-- The loop of `isConsensusReceived` over the buckets: the size of the largest and the first
bucket of that size. -/
def mostVoted (requests : AList (fun _ : H => List (BlockCertificationRequest S IR))) :
    UInt64 × List (BlockCertificationRequest S IR) :=
  requests.entries.foldl
    (fun acc e => if acc.1 < e.2.length.toUInt64 then (e.2.length.toUInt64, e.2) else acc) (0, [])

/-- `isConsensusReceived(tb)`: the proof and the status. -/
def isConsensusReceived (rs : RequestBuffer S IR H) (tb : QuorumInfo) :
    List (BlockCertificationRequest S IR) × QuorumStatus :=
  let (votes, bcReqs) := mostVoted rs.requests
  let quorum := tb.getQuorum
  if votes ≥ quorum then (bcReqs, .quorumAchieved)
  else if tb.getTotalNodes - rs.nodeRequest.length.toUInt64 + votes < quorum then
    -- even with every node not heard from for the largest bucket there is no quorum: all the
    -- requests are the proof
    (rs.requests.entries.foldl (fun allReq e => allReq ++ e.2) [], .quorumNotPossible)
  else ([], .quorumInProgress)

variable (hashValues : IR × UInt64 × UInt64 → H)

/-- The buffer with a request stored: its node heard from, and the request at the end of the
bucket of its value's hash. -/
def store (rs : RequestBuffer S IR H) (req : BlockCertificationRequest S IR) :
    RequestBuffer S IR H :=
  let reqID := hashValues req.value
  { rs with
    nodeRequest := req.nodeID :: rs.nodeRequest
    requests := rs.requests.insert reqID ((rs.requests.lookup reqID).getD [] ++ [req]) }

/-- `add(req, tb)`: the first request of a node is stored, and the status decided again. -/
def add (req : BlockCertificationRequest S IR) (tb : QuorumInfo) :
    EStateM String (RequestBuffer S IR H) (QuorumStatus × List (BlockCertificationRequest S IR)) :=
  fun rs =>
    if req.nodeID ∈ rs.nodeRequest then .error "request of the node in this round already stored" rs
    else
      let rs := rs.store hashValues req
      let (proof, res) := rs.isConsensusReceived tb
      .ok (res, proof) rs

/-- A node's first request is stored. -/
theorem add_eq_ok {rs : RequestBuffer S IR H} {req : BlockCertificationRequest S IR}
    (tb : QuorumInfo) (h : req.nodeID ∉ rs.nodeRequest) :
    rs.add hashValues req tb =
      .ok ((rs.store hashValues req).isConsensusReceived tb).swap (rs.store hashValues req) := by
  unfold add
  rw [if_neg h]
  rfl

/-- A second request of a node is turned away, and the buffer is left as it is. -/
theorem add_eq_error {rs : RequestBuffer S IR H} {req : BlockCertificationRequest S IR}
    (tb : QuorumInfo) (h : req.nodeID ∈ rs.nodeRequest) :
    rs.add hashValues req tb = .error "request of the node in this round already stored" rs := by
  unfold add
  rw [if_pos h]

end RequestBuffer

/-- `CertRequestBuffer`: the request buffer of each shard, by partition and shard. -/
structure CertRequestBuffer (S IR H : Type) where
  store : AList (fun _ : UInt32 × S => RequestBuffer S IR H)

namespace CertRequestBuffer

open RequestBuffer

variable {S IR H : Type} [DecidableEq S] [DecidableEq H]

/-- `NewCertificationRequestBuffer`. -/
def new : CertRequestBuffer S IR H := ⟨∅⟩

/-- `get(partition, shard)`: the shard's buffer, a new one registered if there is none. -/
def get (c : CertRequestBuffer S IR H) (partition : UInt32) (shard : S) :
    RequestBuffer S IR H × CertRequestBuffer S IR H :=
  match c.store.lookup (partition, shard) with
  | some rs => (rs, c)
  | none => (newRequestStore, ⟨c.store.insert (partition, shard) newRequestStore⟩)

/-- The store with a shard's buffer written back, as Go changes it through its pointer. -/
def put (c : CertRequestBuffer S IR H) (partition : UInt32) (shard : S)
    (rs : RequestBuffer S IR H) : CertRequestBuffer S IR H :=
  ⟨c.store.insert (partition, shard) rs⟩

/-- `updQuorumStatus(rb, qs)`, without the clocks of the metrics. -/
def updQuorumStatus (rb : RequestBuffer S IR H) (qs : QuorumStatus) : RequestBuffer S IR H :=
  if rb.qState = qs then rb else { rb with qState := qs }

variable (hashValues : IR × UInt64 × UInt64 → H)

/-- `Add(request, tb)`: the request goes to the buffer of its shard, whose status is set to the
one `add` returns. -/
def add (request : BlockCertificationRequest S IR) (tb : QuorumInfo) :
    EStateM String (CertRequestBuffer S IR H)
      (QuorumStatus × List (BlockCertificationRequest S IR)) := fun c =>
  let partition := request.partitionID
  let shard := request.shardID
  let (rs, c) := c.get partition shard
  match rs.add hashValues request tb with
  | .ok (qs, bcr) rs => .ok (qs, bcr) (c.put partition shard (updQuorumStatus rs qs))
  | .error e rs => .error e (c.put partition shard rs)

/-- `IsConsensusReceived(partition, shard, tb)`: the status of the shard's buffer. -/
def isConsensusReceived (c : CertRequestBuffer S IR H) (partition : UInt32) (shard : S) :
    QuorumStatus × CertRequestBuffer S IR H :=
  let (rs, c) := c.get partition shard
  (rs.qState, c)

/-- `Clear(partition, shard)`: the shard's buffer reset for the next round. -/
def clear (c : CertRequestBuffer S IR H) (partition : UInt32) (shard : S) :
    CertRequestBuffer S IR H :=
  let (rs, c) := c.get partition shard
  c.put partition shard rs.reset

/-- `Add` on each request in turn, whatever each returns. -/
def addRequests (tb : QuorumInfo) :
    List (BlockCertificationRequest S IR) → CertRequestBuffer S IR H → CertRequestBuffer S IR H
  | [], c => c
  | request :: requests, c => addRequests tb requests (EStateM.final (add hashValues request tb) c)

end CertRequestBuffer

/-! ### What the decision should be -/

section Outcome

variable {α κ : Type} [DecidableEq κ]

/-- The decision over the requests `p`, counted by `key`, with `n` validators and quorum `q`:
a quorum, with the requests of one key, when that key has `q` of them; no quorum possible, with
all the requests, when no key reaches `q` even with every validator not heard from added;
otherwise none yet. -/
inductive Outcome (key : α → κ) (n q : Nat) (p : List α) : List α × QuorumStatus → Prop
  | achieved (k : κ) : q ≤ p.countP (key · = k) → Outcome key n q p (p.filter (key · = k), .quorumAchieved)
  | notPossible (proof : List α) : (∀ k, p.countP (key · = k) + (n - p.length) < q) →
      proof.Perm p → Outcome key n q p (proof, .quorumNotPossible)
  | inProgress : (∀ k, p.countP (key · = k) < q) →
      (∃ r ∈ p, q ≤ p.countP (key · = key r) + (n - p.length)) →
      Outcome key n q p ([], .quorumInProgress)

variable {key : α → κ} {n q : Nat} {p : List α} {res : List α × QuorumStatus}

/-- A quorum is reported exactly when some key has `q` requests. -/
theorem Outcome.eq_quorumAchieved_iff (ho : Outcome key n q p res) :
    res.2 = .quorumAchieved ↔ ∃ k, q ≤ p.countP (key · = k) := by
  cases ho with
  | achieved k hk => exact ⟨fun _ => ⟨k, hk⟩, fun _ => rfl⟩
  | notPossible proof hlt _ =>
    refine ⟨(fun h => nomatch h), fun ⟨k, hk⟩ => ?_⟩
    have := hlt k
    omega
  | inProgress hlt _ =>
    refine ⟨(fun h => nomatch h), fun ⟨k, hk⟩ => ?_⟩
    have := hlt k
    omega

/-- No quorum possible is reported exactly when no key reaches `q` with the validators not heard
from added. -/
theorem Outcome.eq_quorumNotPossible_iff (ho : Outcome key n q p res) :
    res.2 = .quorumNotPossible ↔ ∀ k, p.countP (key · = k) + (n - p.length) < q := by
  cases ho with
  | achieved k hk =>
    refine ⟨(fun h => nomatch h), fun h => ?_⟩
    have := h k
    omega
  | notPossible proof hlt _ => exact ⟨fun _ => hlt, fun _ => rfl⟩
  | inProgress _ hge =>
    obtain ⟨r, -, hr⟩ := hge
    refine ⟨(fun h => nomatch h), fun h => ?_⟩
    have := h (key r)
    omega

/-- Once every validator has been heard from, the status is decided. -/
theorem Outcome.decided (ho : Outcome key n q p res) (hn : n ≤ p.length) :
    res.2 ≠ .quorumInProgress := by
  cases ho with
  | achieved => exact fun h => nomatch h
  | notPossible => exact fun h => nomatch h
  | inProgress hlt hge =>
    obtain ⟨r, -, hr⟩ := hge
    have := hlt (key r)
    omega

end Outcome

/-! ### The buffer over the requests added -/

section Buffer

open RequestBuffer CertRequestBuffer

variable {S IR H : Type} [DecidableEq H] (hashValues : IR × UInt64 × UInt64 → H)

/-- What a buffer holds after the requests `p` were added, in order: their nodes, in each bucket
the requests of its hash, and all of them across the buckets. -/
structure BufInv (p : List (BlockCertificationRequest S IR)) (rs : RequestBuffer S IR H) : Prop where
  nodes : rs.nodeRequest = (p.map (·.nodeID)).reverse
  buckets : ∀ h, (rs.requests.lookup h).getD [] = p.filter (fun r => hashValues r.value = h)
  all : (rs.requests.entries.map (·.2)).flatten.Perm p

variable {hashValues} {p : List (BlockCertificationRequest S IR)} {rs : RequestBuffer S IR H}

/-- A buffer with no node heard from and no bucket holds no requests. -/
theorem BufInv.empty (hnodes : rs.nodeRequest = []) (hreqs : rs.requests = ∅) :
    BufInv hashValues [] rs :=
  ⟨hnodes, fun h => by simp [hreqs], by simp [hreqs, AList.empty_entries]⟩

/-- Storing a request adds it to the requests the buffer holds. -/
theorem BufInv.store (hinv : BufInv hashValues p rs) (req : BlockCertificationRequest S IR) :
    BufInv hashValues (p ++ [req]) (rs.store hashValues req) := by
  refine ⟨?_, fun h => ?_, ?_⟩
  · simp [RequestBuffer.store, hinv.nodes]
  · simp only [RequestBuffer.store, List.filter_append]
    by_cases hh : h = hashValues req.value
    · -- the bucket of the request's hash gets it at its end
      subst hh
      rw [AList.lookup_insert, Option.getD_some, hinv.buckets]
      simp
    · rw [AList.lookup_insert_ne hh, hinv.buckets]
      simp [Ne.symm hh]
  · exact (AList.flatten_insert_append _ _ _).trans (hinv.all.append_right [req])

/-- The status does not change what a buffer holds. -/
theorem BufInv.updQuorumStatus (hinv : BufInv hashValues p rs) (qs : QuorumStatus) :
    BufInv hashValues p (CertRequestBuffer.updQuorumStatus rs qs) := by
  unfold CertRequestBuffer.updQuorumStatus
  split
  · exact hinv
  · exact ⟨hinv.nodes, hinv.buckets, hinv.all⟩

/-- A bucket holds the requests of its hash. -/
theorem BufInv.eq_filter_of_mem (hinv : BufInv hashValues p rs)
    {e : Σ _ : H, List (BlockCertificationRequest S IR)} (he : e ∈ rs.requests.entries) :
    e.2 = p.filter (fun r => hashValues r.value = e.1) := by
  have hl : rs.requests.lookup e.1 = some e.2 := AList.mem_lookup_iff.mpr he
  have hb := hinv.buckets e.1
  rw [hl, Option.getD_some] at hb
  exact hb

/-- The loop of `isConsensusReceived`: the largest bucket is the bucket of a request's hash, and
no hash has more requests. -/
theorem BufInv.mostVoted_spec (hinv : BufInv hashValues p rs) (hlen : p.length < 2 ^ 64)
    (hne : p ≠ []) :
    (∀ h, p.countP (fun r => hashValues r.value = h) ≤ (mostVoted rs.requests).1.toNat) ∧
    ∃ r ∈ p, (mostVoted rs.requests).1.toNat = p.countP (fun r' => hashValues r'.value = hashValues r.value) ∧
      (mostVoted rs.requests).2 = p.filter (fun r' => hashValues r'.value = hashValues r.value) := by
  obtain ⟨-, hall, hfrom⟩ : 0 ≤ (mostVoted rs.requests).1 ∧
      (∀ e ∈ rs.requests.entries, e.2.length.toUInt64 ≤ (mostVoted rs.requests).1) ∧
      (mostVoted rs.requests = (0, []) ∨
        ∃ e ∈ rs.requests.entries, mostVoted rs.requests = (e.2.length.toUInt64, e.2)) :=
    UInt64.foldl_argmax_spec (fun e : Σ _ : H, List (BlockCertificationRequest S IR) =>
      e.2.length.toUInt64) (fun e => e.2) rs.requests.entries 0 []
  -- a bucket's size is its count, which fits
  have hsize : ∀ e ∈ rs.requests.entries,
      e.2.length.toUInt64.toNat = p.countP (fun r => hashValues r.value = e.1) := by
    intro e he
    have hl := hinv.eq_filter_of_mem he
    have hlt : e.2.length < 2 ^ 64 := by
      rw [hl]
      exact Nat.lt_of_le_of_lt (List.length_filter_le _ _) hlen
    rw [UInt64.toNat_ofNat_of_lt' hlt, hl, List.countP_eq_length_filter]
  have hle : ∀ h, p.countP (fun r => hashValues r.value = h) ≤ (mostVoted rs.requests).1.toNat := by
    intro h
    cases hlk : rs.requests.lookup h with
    | none =>
      have hb := hinv.buckets h
      rw [hlk, Option.getD_none] at hb
      rw [List.countP_eq_length_filter, ← hb]
      exact Nat.zero_le _
    | some l =>
      have he : (⟨h, l⟩ : Σ _ : H, List (BlockCertificationRequest S IR)) ∈ rs.requests.entries :=
        AList.mem_lookup_iff.mp hlk
      rw [← hsize _ he]
      exact UInt64.le_iff_toNat_le.mp (hall _ he)
  refine ⟨hle, ?_⟩
  obtain ⟨r₀, hr₀⟩ := List.exists_mem_of_ne_nil p hne
  have hpos : 0 < p.countP (fun r => hashValues r.value = hashValues r₀.value) :=
    List.countP_pos_iff.mpr ⟨r₀, hr₀, by simp⟩
  rcases hfrom with h0 | ⟨e, he, heq⟩
  · -- an empty fold would leave a count of the first request above the largest
    have := hle (hashValues r₀.value)
    rw [h0, show ((0 : UInt64), ([] : List (BlockCertificationRequest S IR))).1.toNat = 0 from rfl]
      at this
    omega
  · -- the largest bucket is not empty, so it is the bucket of one of its requests
    have hcount := hsize e he
    have hl := hinv.eq_filter_of_mem he
    have hpos' : 0 < p.countP (fun r => hashValues r.value = e.1) := by
      have := hle (hashValues r₀.value)
      rw [heq, hcount] at this
      omega
    obtain ⟨r, hr, hre⟩ := List.countP_pos_iff.mp hpos'
    have hre : hashValues r.value = e.1 := by simpa using hre
    refine ⟨r, hr, ?_, ?_⟩
    · rw [heq, hre]
      exact hcount
    · rw [heq, hre]
      exact hl

/-- Over the requests `p` a buffer holds, `isConsensusReceived` decides as `Outcome` says, counting
by the hash of the value. -/
theorem BufInv.outcome (hinv : BufInv hashValues p rs) (hne : p ≠ []) (tb : QuorumInfo)
    (hp : p.length ≤ tb.getTotalNodes.toNat) :
    Outcome (fun r => hashValues r.value) tb.getTotalNodes.toNat tb.getQuorum.toNat p
      (rs.isConsensusReceived tb) := by
  have hlen : p.length < 2 ^ 64 := Nat.lt_of_le_of_lt hp (UInt64.toNat_lt _)
  obtain ⟨hle, r, hr, hvotes, hbc⟩ := hinv.mostVoted_spec hlen hne
  have hnodes : rs.nodeRequest.length = p.length := by simp [hinv.nodes]
  unfold RequestBuffer.isConsensusReceived
  generalize mostVoted rs.requests = mv at hle hvotes hbc
  obtain ⟨votes, bcReqs⟩ := mv
  dsimp only at hle hvotes hbc ⊢
  have hvlen : votes.toNat ≤ p.length := hvotes ▸ List.countP_le_length
  by_cases hach : votes ≥ tb.getQuorum
  · rw [if_pos hach, hbc]
    exact .achieved _ (hvotes ▸ UInt64.le_iff_toNat_le.mp hach)
  · rw [if_neg hach]
    have hlt : votes.toNat < tb.getQuorum.toNat := UInt64.lt_iff_toNat_lt.mp (UInt64.not_le.mp hach)
    -- the count of votes still possible does not wrap
    have hsum : (tb.getTotalNodes - rs.nodeRequest.length.toUInt64 + votes).toNat =
        tb.getTotalNodes.toNat - p.length + votes.toNat := by
      have hL : p.length.toUInt64.toNat = p.length := UInt64.toNat_ofNat_of_lt' hlen
      have hLT : p.length.toUInt64 ≤ tb.getTotalNodes := by
        rw [UInt64.le_iff_toNat_le, hL]
        exact hp
      have hfit : tb.getTotalNodes.toNat - p.length.toUInt64.toNat + votes.toNat < 2 ^ 64 := by
        have := UInt64.toNat_lt tb.getTotalNodes
        rw [hL]
        omega
      rw [hnodes, UInt64.toNat_sub_add hLT hfit, hL]
    by_cases hnp : tb.getTotalNodes - rs.nodeRequest.length.toUInt64 + votes < tb.getQuorum
    · rw [if_pos hnp]
      have hvc := UInt64.lt_iff_toNat_lt.mp hnp
      rw [hsum] at hvc
      refine .notPossible _ (fun k => ?_) ?_
      · have := hle k
        omega
      · rw [List.foldl_append_eq_flatten
          (fun e : Σ _ : H, List (BlockCertificationRequest S IR) => e.2), List.nil_append]
        exact hinv.all
    · rw [if_neg hnp]
      have hvc := UInt64.le_iff_toNat_le.mp (UInt64.not_lt.mp hnp)
      rw [hsum] at hvc
      refine .inProgress (fun k => ?_) ⟨r, hr, by omega⟩
      have := hle k
      omega

end Buffer

/-! ### The buffers of all shards -/

section Store

open RequestBuffer CertRequestBuffer

variable {S IR H : Type} [DecidableEq S] [DecidableEq H] {hashValues : IR × UInt64 × UInt64 → H}
  {p : List (BlockCertificationRequest S IR)} {c : CertRequestBuffer S IR H}

omit [DecidableEq H] in
/-- The buffer `get` returns: the stored one, or a new one. -/
theorem CertRequestBuffer.get_fst (c : CertRequestBuffer S IR H) (partition : UInt32) (shard : S) :
    (c.get partition shard).1 = (c.store.lookup (partition, shard)).getD newRequestStore := by
  unfold CertRequestBuffer.get
  cases c.store.lookup (partition, shard) <;> rfl

omit [DecidableEq H] in
/-- The buffer written back is the one `get` then returns. -/
theorem CertRequestBuffer.get_put (c : CertRequestBuffer S IR H) (partition : UInt32) (shard : S)
    (rs : RequestBuffer S IR H) : ((c.put partition shard rs).get partition shard).1 = rs := by
  rw [CertRequestBuffer.get_fst, CertRequestBuffer.put, AList.lookup_insert, Option.getD_some]

/-- `Add` of a node's first request to its shard's buffer, which holds the requests `p`: the
request is stored, the status decided over the buffer with it, and the buffer then holds
`p ++ [req]`. -/
theorem CertRequestBuffer.add_of_bufInv {req : BlockCertificationRequest S IR}
    (hinv : BufInv hashValues p (c.get req.partitionID req.shardID).1)
    (hfresh : req.nodeID ∉ p.map (·.nodeID)) (tb : QuorumInfo) :
    ∃ c', CertRequestBuffer.add hashValues req tb c =
        .ok ((((c.get req.partitionID req.shardID).1.store hashValues req).isConsensusReceived
          tb).swap) c' ∧
      BufInv hashValues (p ++ [req]) (c'.get req.partitionID req.shardID).1 := by
  rcases hget : c.get req.partitionID req.shardID with ⟨rs, c₀⟩
  rw [hget] at hinv
  have hnode : req.nodeID ∉ rs.nodeRequest := by
    rw [hinv.nodes, List.mem_reverse]
    exact hfresh
  refine ⟨c₀.put req.partitionID req.shardID
    (updQuorumStatus (rs.store hashValues req) ((rs.store hashValues req).isConsensusReceived tb).2),
    ?_, ?_⟩
  · unfold CertRequestBuffer.add
    simp only [hget, RequestBuffer.add_eq_ok hashValues tb hnode]
    rfl
  · rw [CertRequestBuffer.get_put]
    exact (hinv.store req).updQuorumStatus _

/-- A run of `Add` with the first requests of distinct nodes for one shard: the shard's buffer
holds them after the ones it held. -/
theorem CertRequestBuffer.addRequests_bufInv (tb : QuorumInfo) {partition : UInt32} {shard : S}
    {reqs : List (BlockCertificationRequest S IR)}
    (hinv : BufInv hashValues p (c.get partition shard).1)
    (hkey : ∀ r ∈ reqs, r.partitionID = partition ∧ r.shardID = shard)
    (hnodup : ((p ++ reqs).map (·.nodeID)).Nodup) :
    BufInv hashValues (p ++ reqs) ((addRequests hashValues tb reqs c).get partition shard).1 := by
  -- induction on the requests, from any buffer holding the requests before them
  induction reqs generalizing p c with
  | nil => simpa [addRequests] using hinv
  | cons req reqs ih =>
    obtain ⟨rfl, rfl⟩ := hkey req List.mem_cons_self
    have hfresh : req.nodeID ∉ p.map (·.nodeID) := by
      rw [List.map_append, List.nodup_append] at hnodup
      exact fun hmem => hnodup.2.2 _ hmem _ (List.mem_map_of_mem List.mem_cons_self) rfl
    obtain ⟨c', hadd, hinv'⟩ := CertRequestBuffer.add_of_bufInv hinv hfresh tb
    have hfinal : EStateM.final (add hashValues req tb) c = c' := by
      rw [EStateM.final, hadd]
    rw [addRequests, hfinal, List.append_cons]
    exact ih hinv' (fun r hr => hkey r (List.mem_cons_of_mem _ hr))
      (by rwa [← List.append_cons])

end Store

/-! ### Counting by value, and the proofs against `Verify` -/

section Values

variable {S IR H : Type} [DecidableEq IR] [DecidableEq H] {hashValues : IR × UInt64 × UInt64 → H}
  {p : List (BlockCertificationRequest S IR)}

/-- With a hash free of collisions, the requests of a value's hash are those of the value. -/
theorem countP_hash_eq (hhash : Function.Injective hashValues)
    (p : List (BlockCertificationRequest S IR)) (v : IR × UInt64 × UInt64) :
    p.countP (fun r => hashValues r.value = hashValues v) = p.countP (fun r => r.value = v) :=
  List.countP_congr fun r _ => by simp [hhash.eq_iff]

/-- Some hash has `q` requests exactly when some value has. -/
theorem exists_countP_hash_iff (hhash : Function.Injective hashValues) {q : Nat} (hq : 0 < q) :
    (∃ h, q ≤ p.countP (fun r => hashValues r.value = h)) ↔
      ∃ v, q ≤ p.countP (fun r => r.value = v) := by
  constructor
  · rintro ⟨h, hh⟩
    obtain ⟨r, -, hr⟩ := List.countP_pos_iff.mp (Nat.lt_of_lt_of_le hq hh)
    have hr : hashValues r.value = h := by simpa using hr
    refine ⟨r.value, ?_⟩
    rw [← countP_hash_eq hhash, hr]
    exact hh
  · rintro ⟨v, hv⟩
    refine ⟨hashValues v, ?_⟩
    rw [countP_hash_eq hhash]
    exact hv

/-- Every hash stays below `q` with `m` added exactly when every value does. -/
theorem forall_countP_hash_iff (hhash : Function.Injective hashValues) (hne : p ≠ []) {m q : Nat} :
    (∀ h, p.countP (fun r => hashValues r.value = h) + m < q) ↔
      ∀ v, p.countP (fun r => r.value = v) + m < q := by
  constructor
  · intro hall v
    rw [← countP_hash_eq hhash]
    exact hall _
  · intro hall h
    by_cases h0 : p.countP (fun r => hashValues r.value = h) = 0
    · -- a hash of no request: any request's value bounds `m`
      obtain ⟨r₀, -⟩ := List.exists_mem_of_ne_nil p hne
      have := hall r₀.value
      omega
    · obtain ⟨r, -, hr⟩ := List.countP_pos_iff.mp (Nat.pos_of_ne_zero h0)
      have hr : hashValues r.value = h := by simpa using hr
      rw [← hr, countP_hash_eq hhash]
      exact hall _

end Values

section Verify

variable {S IR H : Type} [DecidableEq S] [ToString S] [DecidableEq H]
  {hashValues : IR × UInt64 × UInt64 → H} {newRepeatIR : IR → IR} {checks : RequestChecks S IR}
  {si : ShardInfo S} {luc : LastCertificate IR} {rootRound t2InRounds : UInt64}
  {p : List (BlockCertificationRequest S IR)}

/-- The requests of one hash, valid and from distinct validators, that make a quorum pass
`Verify` as a `Quorum` proof. -/
theorem verify_quorum_filter (hN : si.trustBase.length < 2 ^ 64)
    (hvalid : ∀ r ∈ p, si.validRequest checks r = .ok ()) (hnodup : (p.map (·.nodeID)).Nodup)
    (h : H) (hq : si.trustBase.length / 2 + 1 ≤ p.countP (fun r => hashValues r.value = h)) :
    ∃ ir, IRChangeReq.verify hashValues newRepeatIR
      ⟨si.partitionID, si.shardID, .quorum, p.filter (fun r => hashValues r.value = h)⟩
      (si.toVerifier checks) luc rootRound t2InRounds = .ok ir := by
  have hmem : ∀ r ∈ p.filter (fun r => hashValues r.value = h), r ∈ p ∧ hashValues r.value = h :=
    fun r hr => by simpa using List.mem_filter.mp hr
  refine verify_quorum_of hN rfl (fun r hr => ?_) (hnodup.sublist ((List.filter_sublist).map _))
    (fun r hr => (hmem r hr).2) (by rwa [← List.countP_eq_length_filter])
  have hv := hvalid r (hmem r hr).1
  exact ⟨hv, (ShardInfo.validRequest_eq_ok hv).2⟩

/-- All the requests, valid and from distinct validators, when no value can reach a quorum pass
`Verify` as a `QuorumNotPossible` proof. -/
theorem verify_quorumNotPossible_perm (hN : si.trustBase.length < 2 ^ 64)
    (hvalid : ∀ r ∈ p, si.validRequest checks r = .ok ()) (hnodup : (p.map (·.nodeID)).Nodup)
    (hne : p ≠ []) {proof : List (BlockCertificationRequest S IR)} (hperm : proof.Perm p)
    (hlt : ∀ h, p.countP (fun r => hashValues r.value = h) + (si.trustBase.length - p.length) <
      si.trustBase.length / 2 + 1) :
    ∃ ir, IRChangeReq.verify hashValues newRepeatIR
      ⟨si.partitionID, si.shardID, .quorumNotPossible, proof⟩
      (si.toVerifier checks) luc rootRound t2InRounds = .ok ir := by
  obtain ⟨r₀, -⟩ := List.exists_mem_of_ne_nil p hne
  have h₀ := hlt (hashValues r₀.value)
  -- every count is at most what leaves the validators not heard from short of a quorum
  refine verify_quorumNotPossible_of hN rfl (fun r hr => ?_) ((hperm.map _).nodup_iff.mpr hnodup)
    (M := si.trustBase.length / 2 - (si.trustBase.length - p.length)) (fun h => ?_) ?_
  · have hv := hvalid r (hperm.mem_iff.mp hr)
    exact ⟨hv, (ShardInfo.validRequest_eq_ok hv).2⟩
  · rw [hperm.countP_eq]
    have := hlt h
    omega
  · rw [hperm.length_eq]
    omega

end Verify

section Agrees

open CertRequestBuffer

variable {S IR H : Type} [DecidableEq S] [ToString S] [DecidableEq IR] [DecidableEq H]

/-- Requests of distinct validators of a shard, valid for it, added one by one to the shard's
buffer from a new or cleared one: the last `Add` reports a quorum exactly when more than half of
the validators sent one value, no quorum possible exactly when no value reaches that even with
every validator not heard from added, and one of the two once all have sent; the requests it
returns, as the proof of an `IRChangeReq` of that reason, pass `Verify` against the shard. -/
theorem request_buffer_agrees (hashValues : IR × UInt64 × UInt64 → H)
    (hhash : Function.Injective hashValues) (newRepeatIR : IR → IR) (checks : RequestChecks S IR)
    (si : ShardInfo S) (hN : si.trustBase.length < 2 ^ 64) (c : CertRequestBuffer S IR H)
    (hstart : (c.get si.partitionID si.shardID).1.nodeRequest = [] ∧
      (c.get si.partitionID si.shardID).1.requests = ∅)
    (pre : List (BlockCertificationRequest S IR)) (req : BlockCertificationRequest S IR)
    (hvalid : ∀ r ∈ pre ++ [req], si.validRequest checks r = .ok ())
    (hnodup : ((pre ++ [req]).map (·.nodeID)).Nodup)
    (luc : LastCertificate IR) (rootRound t2InRounds : UInt64) :
    ∃ status proof c', CertRequestBuffer.add hashValues req si.toQuorumInfo
        (addRequests hashValues si.toQuorumInfo pre c) = .ok (status, proof) c' ∧
      (status = .quorumAchieved ↔
        ∃ v, si.trustBase.length / 2 + 1 ≤ (pre ++ [req]).countP (·.value = v)) ∧
      (status = .quorumNotPossible ↔ ∀ v, (pre ++ [req]).countP (·.value = v) +
        (si.trustBase.length - (pre ++ [req]).length) < si.trustBase.length / 2 + 1) ∧
      ((pre ++ [req]).length = si.trustBase.length → status ≠ .quorumInProgress) ∧
      (status = .quorumAchieved → ∃ ir, IRChangeReq.verify hashValues newRepeatIR
        ⟨req.partitionID, req.shardID, .quorum, proof⟩ (si.toVerifier checks) luc rootRound
          t2InRounds = .ok ir) ∧
      (status = .quorumNotPossible → ∃ ir, IRChangeReq.verify hashValues newRepeatIR
        ⟨req.partitionID, req.shardID, .quorumNotPossible, proof⟩ (si.toVerifier checks) luc
          rootRound t2InRounds = .ok ir) := by
  have hkey : ∀ r ∈ pre ++ [req], r.partitionID = si.partitionID ∧ r.shardID = si.shardID :=
    fun r hr => (ShardInfo.validRequest_eq_ok (hvalid r hr)).2
  have hne : pre ++ [req] ≠ [] := by simp
  have hlenN := ShardInfo.length_le_of_valid hnodup hvalid
  -- the shard's buffer holds the earlier requests when the last one comes
  have hpre : BufInv hashValues pre ((addRequests hashValues si.toQuorumInfo pre c).get
      si.partitionID si.shardID).1 :=
    addRequests_bufInv si.toQuorumInfo (BufInv.empty hstart.1 hstart.2)
      (fun r hr => hkey r (List.mem_append_left _ hr)) (hnodup.sublist (by simp))
  obtain ⟨hpid, hsid⟩ := hkey req (by simp)
  rw [← hpid, ← hsid] at hpre
  have hfresh : req.nodeID ∉ pre.map (·.nodeID) := by
    rw [List.map_append, List.nodup_append] at hnodup
    exact fun hmem => hnodup.2.2 _ hmem _ (List.mem_map_of_mem List.mem_cons_self) rfl
  obtain ⟨c', hadd, -⟩ := add_of_bufInv hpre hfresh si.toQuorumInfo
  have hout := (hpre.store req).outcome hne si.toQuorumInfo
    (by rw [show si.toQuorumInfo.getTotalNodes.toNat = _ from ShardInfo.getTotalNodes_toNat hN]
        exact hlenN)
  rw [show si.toQuorumInfo.getTotalNodes.toNat = _ from ShardInfo.getTotalNodes_toNat hN,
    show si.toQuorumInfo.getQuorum.toNat = _ from ShardInfo.getQuorum_toNat hN] at hout
  generalize RequestBuffer.isConsensusReceived (RequestBuffer.store hashValues
    ((addRequests hashValues si.toQuorumInfo pre c).get req.partitionID req.shardID).1 req)
    si.toQuorumInfo = res at hadd hout
  obtain ⟨proof, status⟩ := res
  refine ⟨status, proof, c', hadd, ?_, ?_, fun hn => hout.decided hn.ge, ?_, ?_⟩
  · rw [hout.eq_quorumAchieved_iff]
    exact exists_countP_hash_iff hhash (Nat.succ_pos _)
  · rw [hout.eq_quorumNotPossible_iff]
    exact forall_countP_hash_iff hhash hne
  · intro hst
    cases hout with
    | achieved k hk =>
      rw [hpid, hsid]
      exact verify_quorum_filter hN hvalid hnodup k hk
    | notPossible => exact nomatch hst
    | inProgress => exact nomatch hst
  · intro hst
    cases hout with
    | achieved => exact nomatch hst
    | notPossible proof hlt hperm =>
      rw [hpid, hsid]
      exact verify_quorumNotPossible_perm hN hvalid hnodup hne hperm hlt
    | inProgress => exact nomatch hst

end Agrees

/-- A request of the validator `b` of `threeValidatorShard`, for a block of size `6`. -/
def otherSizeRequest : BlockCertificationRequest Unit Unit := ⟨1, (), "b", (), 6, 0, []⟩

/-- The validators `a` and `b` of the shard of three send two values, and then `c` sends the
value of `a`: its `Add` reports the quorum of `a` and `c`. -/
theorem request_buffer_agrees_threeValidatorShard :
    Function.Injective (id : Unit × UInt64 × UInt64 → Unit × UInt64 × UInt64) ∧
    threeValidatorShard.trustBase.length < 2 ^ 64 ∧
    ((CertRequestBuffer.new.get threeValidatorShard.partitionID threeValidatorShard.shardID :
        RequestBuffer Unit Unit (Unit × UInt64 × UInt64) × _).1.nodeRequest = [] ∧
      (CertRequestBuffer.new.get threeValidatorShard.partitionID threeValidatorShard.shardID :
        RequestBuffer Unit Unit (Unit × UInt64 × UInt64) × _).1.requests = ∅) ∧
    (∀ r ∈ [requestOf "a", otherSizeRequest] ++ [requestOf "c"],
      threeValidatorShard.validRequest passingChecks r = .ok ()) ∧
    (([requestOf "a", otherSizeRequest] ++ [requestOf "c"]).map (·.nodeID)).Nodup ∧
    (∃ proof c', CertRequestBuffer.add id (requestOf "c") threeValidatorShard.toQuorumInfo
        (CertRequestBuffer.addRequests id threeValidatorShard.toQuorumInfo
          [requestOf "a", otherSizeRequest] .new) = .ok (.quorumAchieved, proof) c') ∧
    ∃ status proof c', CertRequestBuffer.add id (requestOf "c") threeValidatorShard.toQuorumInfo
        (CertRequestBuffer.addRequests id threeValidatorShard.toQuorumInfo
          [requestOf "a", otherSizeRequest] .new) = .ok (status, proof) c' ∧
      (status = .quorumAchieved ↔ ∃ v, threeValidatorShard.trustBase.length / 2 + 1 ≤
        ([requestOf "a", otherSizeRequest] ++ [requestOf "c"]).countP (·.value = v)) ∧
      (status = .quorumNotPossible ↔ ∀ v,
        ([requestOf "a", otherSizeRequest] ++ [requestOf "c"]).countP (·.value = v) +
          (threeValidatorShard.trustBase.length -
            ([requestOf "a", otherSizeRequest] ++ [requestOf "c"]).length) <
          threeValidatorShard.trustBase.length / 2 + 1) ∧
      (([requestOf "a", otherSizeRequest] ++ [requestOf "c"]).length =
          threeValidatorShard.trustBase.length → status ≠ .quorumInProgress) ∧
      (status = .quorumAchieved → ∃ ir, IRChangeReq.verify id id
        ⟨(requestOf "c").partitionID, (requestOf "c").shardID, .quorum, proof⟩
        (threeValidatorShard.toVerifier passingChecks) ⟨(), 0⟩ 0 0 = .ok ir) ∧
      (status = .quorumNotPossible → ∃ ir, IRChangeReq.verify id id
        ⟨(requestOf "c").partitionID, (requestOf "c").shardID, .quorumNotPossible, proof⟩
        (threeValidatorShard.toVerifier passingChecks) ⟨(), 0⟩ 0 0 = .ok ir) := by
  refine ⟨?hhash, ?hN, ?hstart, ?hvalid, ?hnodup, ⟨_, _, rfl⟩, ?concl⟩
  case concl =>
    exact request_buffer_agrees id ?hhash id passingChecks threeValidatorShard ?hN .new ?hstart
      [requestOf "a", otherSizeRequest] (requestOf "c") ?hvalid ?hnodup ⟨(), 0⟩ 0 0
  case hhash => exact Function.injective_id
  case hN => decide
  case hstart => exact ⟨rfl, rfl⟩
  case hvalid =>
    intro r hr
    simp only [List.cons_append, List.nil_append, List.mem_cons, List.not_mem_nil, or_false] at hr
    rcases hr with rfl | rfl | rfl <;> rfl
  case hnodup => decide

end BftCore.Rootchain
