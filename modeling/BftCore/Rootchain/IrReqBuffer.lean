import BftCore.Rootchain.Certification
import BftCore.Lib.List

/-!
# `rootchain/consensus`: the buffer of input record change requests

The root validator that leads the next round collects the IR change requests of the shards in
an `IrReqBuffer` (`ir_req_buffer.go`).  `Add` verifies a request and keeps the first verified
request of each shard; a later request for the shard is ignored when it asks for the same
change and rejected as equivocating otherwise.  When the leader proposes a block,
`GeneratePayload` puts into it a timeout request for each timed-out shard that has no request
buffered and no change in progress, then the buffered requests of the shards with no change in
progress, and empties the buffer.

* `IrChange`, `IrReqError`, `IrReqBuffer` with `add`, `isChangeInBuffer` and
  `generatePayload`, and `addAll`, requests added as the consensus manager adds them, a failed
  `Add` leaving the buffer as it was;
* `BufInv`: each shard's entry is a verified request of that shard, with the reason it names
  and the input record the verifier returned for it, and never a timeout; `add` keeps it
  (`BufInv.add`) and never changes an entry once made (`lookup_add_of_lookup`);
* `generatePayload_spec`: what each request of a payload is; `payload_one_per_shard`: over any
  requests added since the last payload, the payload has at most one request for each shard,
  none for a shard with a change in progress, and each request that is not a timeout was
  accepted by the verifier.

The verifier (`IRChangeReqVerifier`) and `types.EqualIR` are parameters.  A shard is keyed by
its partition and shard id, `ShardID.Key()` being one-to-one.  Go iterates over the map in no
fixed order; the model takes the entries of the `AList`, and nothing proved depends on that
order.
-/

namespace BftCore.Rootchain

variable {S IR : Type}

/-- `irChange`: a verified request, with the input record the verifier returned for it. -/
structure IrChange (S IR : Type) where
  inputRecord : IR
  reason : IRChangeReason
  req : IRChangeReq S IR

/-- The errors of `Add`. -/
inductive IrReqError (S : Type) where
  /-- `ir change request is nil` -/
  | nilRequest
  /-- `invalid ir change request, timeout can only be proposed by leader issuing a new block` -/
  | timeoutRequested
  /-- `ir change request verification: %w` -/
  | verification (e : String)
  /-- `equivocating request for partition %s, reason has changed` -/
  | reasonChanged (partition : UInt32)
  /-- `failed to compare IRs: %w` -/
  | compareIRs (e : String)
  /-- `equivocating request for partition %s-%s` -/
  | equivocating (partition : UInt32) (shard : S)

/-- `IrReqBuffer`: the buffered change of each shard, by partition and shard id. -/
structure IrReqBuffer (S IR : Type) where
  irChgReqBuffer : AList (fun _ : UInt32 × S => IrChange S IR)

namespace IrReqBuffer

variable [DecidableEq S]

/-- `NewIrReqBuffer()`. -/
def new : IrReqBuffer S IR := ⟨∅⟩

/-- The key of a request's shard, `PartitionShardID{Partition, Shard.Key()}`. -/
def shardKey (req : IRChangeReq S IR) : UInt32 × S := (req.partition, req.shard)

section Add

variable (equalIR : IR → IR → Except String Bool)
  (ver : UInt64 → IRChangeReq S IR → Except String IR)

/-- `Add(round, irChReq, ver)`: the buffer after the request, or the error that rejects it. -/
def add (round : UInt64) (irChReq : Option (IRChangeReq S IR)) (x : IrReqBuffer S IR) :
    Except (IrReqError S) (IrReqBuffer S IR) :=
  match irChReq with
  | none => .error .nilRequest
  | some irChReq =>
    -- a timeout can only be added to a block by the leader
    if irChReq.certReason = .t2Timeout then .error .timeoutRequested
    else
      match ver round irChReq with
      | .error e => .error (.verification e)
      | .ok ir =>
        let newIrChReq : IrChange S IR := ⟨ir, irChReq.certReason, irChReq⟩
        match x.irChgReqBuffer.lookup (shardKey irChReq) with
        | some irChangeReq =>
          if irChangeReq.reason ≠ newIrChReq.reason then .error (.reasonChanged irChReq.partition)
          else
            match equalIR irChangeReq.inputRecord newIrChReq.inputRecord with
            | .error e => .error (.compareIRs e)
            -- a duplicate of the request stored is ignored
            | .ok true => .ok x
            | .ok false => .error (.equivocating irChReq.partition irChReq.shard)
        | none => .ok ⟨x.irChgReqBuffer.insert (shardKey irChReq) newIrChReq⟩

/-- The requests of a round as the consensus manager adds them: a failed `Add` is reported and
leaves the buffer as it was. -/
def addAll : List (UInt64 × Option (IRChangeReq S IR)) → IrReqBuffer S IR → IrReqBuffer S IR
  | [], x => x
  | (round, irChReq) :: rest, x =>
    match add equalIR ver round irChReq x with
    | .ok x' => addAll rest x'
    | .error _ => addAll rest x

end Add

/-- A verifier that accepts every request, returning its partition as the input record. -/
def acceptAll (_ : UInt64) (req : IRChangeReq Nat Nat) : Except String Nat := .ok req.partition.toNat

/-- `types.EqualIR` on input records that are numbers. -/
def equalNat (a b : Nat) : Except String Bool := .ok (a == b)

/-- A quorum request of shard 0 of a partition, without its certification requests. -/
def quorumReq (partition : UInt32) : IRChangeReq Nat Nat := ⟨partition, 0, .quorum, []⟩

/-- `IsChangeInBuffer(partitionID, shardID)`. -/
def isChangeInBuffer (x : IrReqBuffer S IR) (partitionID : UInt32) (shardID : S) : Bool :=
  (x.irChgReqBuffer.lookup (partitionID, shardID)).isSome

/-- The timeout request of a shard that `GeneratePayload` proposes. -/
def timeoutRequest (partitionID : UInt32) (shardID : S) : IRChangeReq S IR :=
  ⟨partitionID, shardID, .t2Timeout, []⟩

/-- The first loop of `GeneratePayload`: a timeout request for each timed-out shard, unless a
request of the shard is buffered (progress is preferred to a timeout) or a change of the shard
is in the pipeline.  Of the certificates of the timed-out shards only their partition and shard
are read; `inProgress` gives the input record of a change of the shard in the pipeline. -/
def timeoutReqs (timeouts : List (UInt32 × S)) (inProgress : UInt32 → S → Option IR)
    (x : IrReqBuffer S IR) : List (IRChangeReq S IR) :=
  timeouts.filterMap fun ps =>
    if x.isChangeInBuffer ps.1 ps.2 || (inProgress ps.1 ps.2).isSome then none
    else some (timeoutRequest ps.1 ps.2)

/-- The second loop of `GeneratePayload`: the buffered requests, unless a change of the shard is
in the pipeline. -/
def changeReqs (inProgress : UInt32 → S → Option IR) (x : IrReqBuffer S IR) :
    List (IRChangeReq S IR) :=
  x.irChgReqBuffer.entries.filterMap fun e =>
    if (inProgress e.2.req.partition e.2.req.shard).isSome then none else some e.2.req

/-- `GeneratePayload(round, timeouts, inProgress)`: the requests of the two loops, and the
buffer cleared once the payload is done.  The round is not read. -/
def generatePayload (_round : UInt64) (timeouts : List (UInt32 × S))
    (inProgress : UInt32 → S → Option IR) (x : IrReqBuffer S IR) :
    List (IRChangeReq S IR) × IrReqBuffer S IR :=
  (x.timeoutReqs timeouts inProgress ++ x.changeReqs inProgress, new)

/-! ### The invariant of the buffer -/

section Inv

variable {equalIR : IR → IR → Except String Bool} {ver : UInt64 → IRChangeReq S IR → Except String IR}

variable (ver) in
/-- Each shard's entry is a request of that shard, with the reason it names and the input record
the verifier returned for it in some round, and it is not a timeout. -/
def BufInv (x : IrReqBuffer S IR) : Prop :=
  ∀ ps c, x.irChgReqBuffer.lookup ps = some c →
    ps = shardKey c.req ∧ c.reason = c.req.certReason ∧ c.reason ≠ .t2Timeout ∧
      ∃ round, ver round c.req = .ok c.inputRecord

theorem BufInv.new : BufInv ver (IrReqBuffer.new : IrReqBuffer S IR) := by
  intro ps c h
  simp [IrReqBuffer.new, AList.lookup_empty] at h

/-- What a successful `Add` did: it verified a request that is not a timeout, and either stored
it for a shard with nothing buffered, or found the same change buffered and left the buffer as
it was. -/
theorem add_eq_ok {round : UInt64} {irChReq : Option (IRChangeReq S IR)} {x x' : IrReqBuffer S IR}
    (h : add equalIR ver round irChReq x = .ok x') :
    ∃ req ir, irChReq = some req ∧ req.certReason ≠ .t2Timeout ∧ ver round req = .ok ir ∧
      ((x.irChgReqBuffer.lookup (shardKey req) = none ∧
          x' = ⟨x.irChgReqBuffer.insert (shardKey req) ⟨ir, req.certReason, req⟩⟩) ∨
        (∃ c, x.irChgReqBuffer.lookup (shardKey req) = some c ∧ c.reason = req.certReason ∧
          equalIR c.inputRecord ir = .ok true ∧ x' = x)) := by
  cases irChReq with
  | none => simp [add] at h
  | some req =>
    by_cases ht : req.certReason = .t2Timeout
    · simp [add, ht] at h
    · cases hv : ver round req with
      | error e => simp [add, ht, hv] at h
      | ok ir =>
        refine ⟨req, ir, rfl, ht, hv, ?_⟩
        cases hl : x.irChgReqBuffer.lookup (shardKey req) with
        | none =>
          simp only [add, ht, hv, hl, if_false, Except.ok.injEq] at h
          exact .inl ⟨rfl, h.symm⟩
        | some c =>
          by_cases hr : c.reason = req.certReason
          · cases he : equalIR c.inputRecord ir with
            | error e => simp [add, ht, hv, hl, hr, he] at h
            | ok b =>
              cases b with
              | false => simp [add, ht, hv, hl, hr, he] at h
              | true =>
                simp only [add, ht, hv, hl, hr, he, if_false, ne_eq, not_true_eq_false,
                  Except.ok.injEq] at h
                exact .inr ⟨c, rfl, hr, he, h.symm⟩
          · simp [add, ht, hv, hl, hr] at h

/-- **First verified request wins**: an `Add` never changes the entry of a shard once made. -/
theorem lookup_add_of_lookup {round : UInt64} {irChReq : Option (IRChangeReq S IR)}
    {x x' : IrReqBuffer S IR} (h : add equalIR ver round irChReq x = .ok x') {ps : UInt32 × S}
    {c : IrChange S IR} (hc : x.irChgReqBuffer.lookup ps = some c) :
    x'.irChgReqBuffer.lookup ps = some c := by
  obtain ⟨req, ir, -, -, -, ⟨hnone, rfl⟩ | ⟨-, -, -, -, rfl⟩⟩ := add_eq_ok h
  · -- the request's shard had nothing, so it is another shard
    have hne : ps ≠ shardKey req := by
      rintro rfl
      rw [hnone] at hc
      cases hc
    rw [AList.lookup_insert_ne hne]
    exact hc
  · exact hc

/-- `Add` keeps the invariant. -/
theorem BufInv.add {x : IrReqBuffer S IR} (hx : BufInv ver x) {round : UInt64} {irChReq : Option (IRChangeReq S IR)}
    {x' : IrReqBuffer S IR} (h : IrReqBuffer.add equalIR ver round irChReq x = .ok x') :
    BufInv ver x' := by
  obtain ⟨req, ir, -, ht, hv, ⟨-, rfl⟩ | ⟨-, -, -, -, rfl⟩⟩ := add_eq_ok h
  · intro ps c hc
    by_cases hps : ps = shardKey req
    · -- the new entry: the verified request itself
      subst hps
      rw [AList.lookup_insert, Option.some.injEq] at hc
      subst hc
      exact ⟨rfl, rfl, ht, round, hv⟩
    · rw [AList.lookup_insert_ne hps] at hc
      exact hx ps c hc
  · exact hx

theorem BufInv.addAll {x : IrReqBuffer S IR} (hx : BufInv ver x) (reqs : List (UInt64 × Option (IRChangeReq S IR))) :
    BufInv ver (IrReqBuffer.addAll equalIR ver reqs x) := by
  induction reqs generalizing x with
  | nil => exact hx
  | cons r reqs ih =>
    obtain ⟨round, irChReq⟩ := r
    cases h : IrReqBuffer.add equalIR ver round irChReq x with
    | ok x' =>
      simp only [IrReqBuffer.addAll, h]
      exact ih (hx.add h)
    | error e =>
      simp only [IrReqBuffer.addAll, h]
      exact ih hx

end Inv

/-! ### The payload -/

section Payload

variable {ver : UInt64 → IRChangeReq S IR → Except String IR}

theorem mem_timeoutReqs {timeouts : List (UInt32 × S)} {inProgress : UInt32 → S → Option IR}
    {x : IrReqBuffer S IR} {r : IRChangeReq S IR} (hr : r ∈ x.timeoutReqs timeouts inProgress) :
    inProgress r.partition r.shard = none ∧ r = timeoutRequest r.partition r.shard ∧
      shardKey r ∈ timeouts ∧ x.irChgReqBuffer.lookup (shardKey r) = none := by
  obtain ⟨ps, hps, hr⟩ := List.mem_filterMap.1 hr
  by_cases hc : (x.isChangeInBuffer ps.1 ps.2 || (inProgress ps.1 ps.2).isSome) = true
  · simp [hc] at hr
  · simp only [hc, Bool.false_eq_true, if_false, Option.some.injEq] at hr
    subst hr
    simp only [Bool.or_eq_true, not_or, Bool.not_eq_true, isChangeInBuffer,
      Option.isSome_eq_false_iff, Option.isNone_iff_eq_none] at hc
    exact ⟨hc.2, rfl, hps, hc.1⟩

/-- A buffered request a payload takes is found under its own shard, by the invariant. -/
theorem mem_changeReqs {inProgress : UInt32 → S → Option IR} {x : IrReqBuffer S IR}
    (hx : BufInv ver x) {r : IRChangeReq S IR} (hr : r ∈ x.changeReqs inProgress) :
    inProgress r.partition r.shard = none ∧
      ∃ c, x.irChgReqBuffer.lookup (shardKey r) = some c ∧ c.req = r := by
  obtain ⟨e, he, hr⟩ := List.mem_filterMap.1 hr
  by_cases hc : (inProgress e.2.req.partition e.2.req.shard).isSome = true
  · simp [hc] at hr
  · simp only [hc, Bool.false_eq_true, if_false, Option.some.injEq] at hr
    subst hr
    have hlook : x.irChgReqBuffer.lookup e.1 = some e.2 := AList.mem_lookup_iff.2 he
    have hkey : e.1 = shardKey e.2.req := (hx e.1 e.2 hlook).1
    refine ⟨by simpa using hc, e.2, ?_, rfl⟩
    rw [← hkey]
    exact hlook

/-- **What a payload holds**: the buffer is emptied, and each request of the payload is for a
shard with no change in progress, and is either a timeout request, without proof, for a
timed-out shard with nothing buffered, or the request buffered for its shard. -/
theorem generatePayload_spec (round : UInt64) (timeouts : List (UInt32 × S))
    (inProgress : UInt32 → S → Option IR) {x : IrReqBuffer S IR} (hx : BufInv ver x) :
    (generatePayload round timeouts inProgress x).2.irChgReqBuffer = ∅ ∧
      ∀ r ∈ (generatePayload round timeouts inProgress x).1,
        inProgress r.partition r.shard = none ∧
          ((r = timeoutRequest r.partition r.shard ∧ shardKey r ∈ timeouts ∧
              x.irChgReqBuffer.lookup (shardKey r) = none) ∨
            ∃ c, x.irChgReqBuffer.lookup (shardKey r) = some c ∧ c.req = r) := by
  refine ⟨rfl, fun r hr => ?_⟩
  rcases List.mem_append.1 hr with hr | hr
  · obtain ⟨hprog, hto, hmem, hnone⟩ := mem_timeoutReqs hr
    exact ⟨hprog, .inl ⟨hto, hmem, hnone⟩⟩
  · obtain ⟨hprog, hc⟩ := mem_changeReqs hx hr
    exact ⟨hprog, .inr hc⟩

/-- The timed-out shards a payload proposes are among the timed-out shards given. -/
theorem nodup_shardKey_timeoutReqs {timeouts : List (UInt32 × S)} (htn : timeouts.Nodup)
    (inProgress : UInt32 → S → Option IR) (x : IrReqBuffer S IR) :
    ((x.timeoutReqs timeouts inProgress).map shardKey).Nodup := by
  rw [timeoutReqs, List.map_filterMap]
  have hid : ∀ ps ∈ timeouts,
      Option.map shardKey (if x.isChangeInBuffer ps.1 ps.2 || (inProgress ps.1 ps.2).isSome
        then none else some (timeoutRequest ps.1 ps.2 : IRChangeReq S IR)) =
      if x.isChangeInBuffer ps.1 ps.2 || (inProgress ps.1 ps.2).isSome then none
        else some (id ps) := by
    intro ps _
    split <;> rfl
  rw [List.filterMap_congr hid]
  exact (List.filterMap_ite_sublist _ id _).nodup (by simpa using htn)

/-- The shards of the buffered requests a payload takes are distinct: they are the keys of the
buffer's entries. -/
theorem nodup_shardKey_changeReqs (inProgress : UInt32 → S → Option IR) {x : IrReqBuffer S IR}
    (hx : BufInv ver x) : ((x.changeReqs inProgress).map shardKey).Nodup := by
  rw [changeReqs, List.map_filterMap]
  -- each entry's request is of the entry's own shard
  have hkeys : ∀ e ∈ x.irChgReqBuffer.entries,
      Option.map shardKey
          (if (inProgress e.2.req.partition e.2.req.shard).isSome then none else some e.2.req) =
        if (inProgress e.2.req.partition e.2.req.shard).isSome then none else some e.1 := by
    intro e he
    have hkey : e.1 = shardKey e.2.req := (hx e.1 e.2 (AList.mem_lookup_iff.2 he)).1
    split <;> simp [hkey]
  rw [List.filterMap_congr hkeys]
  exact (List.filterMap_ite_sublist _ Sigma.fst _).nodup x.irChgReqBuffer.keys_nodup

/-- **A payload has at most one request for each shard**: over any requests added since the last
payload, with distinct timed-out shards, no shard gets two requests, no shard with a change in
progress gets one, and each request that is not a timeout was accepted by the verifier. -/
theorem payload_one_per_shard (equalIR : IR → IR → Except String Bool)
    (reqs : List (UInt64 × Option (IRChangeReq S IR))) (round : UInt64)
    {timeouts : List (UInt32 × S)} (htn : timeouts.Nodup) (inProgress : UInt32 → S → Option IR) :
    ((generatePayload round timeouts inProgress (addAll equalIR ver reqs new)).1.map shardKey).Nodup ∧
      ∀ r ∈ (generatePayload round timeouts inProgress (addAll equalIR ver reqs new)).1,
        inProgress r.partition r.shard = none ∧
          (r = timeoutRequest r.partition r.shard ∨
            r.certReason ≠ .t2Timeout ∧ ∃ round' ir, ver round' r = .ok ir) := by
  have hx : BufInv ver (addAll equalIR ver reqs new) := BufInv.new.addAll reqs
  refine ⟨?_, fun r hr => ?_⟩
  · rw [generatePayload, List.map_append]
    refine List.nodup_append.2 ⟨nodup_shardKey_timeoutReqs htn inProgress _,
      nodup_shardKey_changeReqs inProgress hx, ?_⟩
    -- a timed-out shard proposed has nothing buffered, a buffered one has its entry
    intro a ha b hb hab
    obtain ⟨r₁, hr₁, rfl⟩ := List.mem_map.1 ha
    obtain ⟨r₂, hr₂, rfl⟩ := List.mem_map.1 hb
    obtain ⟨-, -, -, hnone⟩ := mem_timeoutReqs hr₁
    obtain ⟨-, c, hc, -⟩ := mem_changeReqs hx hr₂
    rw [hab, hc] at hnone
    cases hnone
  · obtain ⟨hprog, ⟨hto, -, -⟩ | ⟨c, hc, rfl⟩⟩ :=
      (generatePayload_spec round timeouts inProgress hx).2 r hr
    · exact ⟨hprog, .inl hto⟩
    · obtain ⟨-, hreason, hnot, round', hv⟩ := hx _ c hc
      exact ⟨hprog, .inr ⟨hreason ▸ hnot, round', c.inputRecord, hv⟩⟩

theorem payload_one_per_shard_timeouts :
    ([((3 : UInt32), 0), (4, 0)] : List (UInt32 × Nat)).Nodup ∧
      ((generatePayload 5 [(3, 0), (4, 0)] (fun _ _ => none)
        (addAll equalNat acceptAll [(1, some (quorumReq 3))] new)).1.map shardKey).Nodup :=
  ⟨by decide, (payload_one_per_shard equalNat [(1, some (quorumReq 3))] 5
    (show ([((3 : UInt32), 0), (4, 0)] : List (UInt32 × Nat)).Nodup by decide) _).1⟩

end Payload

end IrReqBuffer

end BftCore.Rootchain
