import BftCore.Lib.KeyedList
import Mathlib

/-!
# `rootchain/partitions`: the history of shard configurations

`Orchestration` keeps, for every shard of every partition, a bolt bucket that maps the epoch start
round of each configuration (a `PartitionDescriptionRecord`) to it.  `AddShardConfig` checks the
network, accepts a configuration of epoch `0` on `IsValid` alone and any other one when it
`Verify`s against the configuration of the largest epoch start, and `Put`s it under its epoch
start; `getShardConf` and `ShardConfigs` walk a bucket back from its last key to the first
configuration whose epoch start is at most the round.

* `ShardConf`, `Orchestration`, `getShardConf`, `shardConfig`, `shardConfigs`,
  `verifyShardConf`, `storeShardConf`, `addShardConfig`, and `addShardConfigs`, the calls in
  turn with the configurations accepted;
* `OrchInv`: each bucket holds exactly the configurations accepted for its shard, in order, with
  increasing epoch starts and epochs one apart; `AddShardConfig` keeps it when a configuration of
  epoch `0` only comes for a shard with none;
* `shard_config_history`: then nothing accepted is lost, lookups return the accepted
  configuration of the largest epoch start at most the round, and the epochs they return grow by
  one at each change; `epoch_zero_rewrites_history`: a second configuration of epoch `0` replaces
  a later one, and the epoch stays at `0` across the change.

`IsValid` and `Verify` belong to the record's own package and are parameters.
-/

namespace BftCore.Rootchain

/-- The fields of a `PartitionDescriptionRecord` the orchestration reads, with the rest of the
record, which only `IsValid` and `Verify` read. -/
structure ShardConf (S α : Type) where
  networkID : UInt16
  partitionID : UInt32
  shardID : S
  epoch : UInt64
  epochStart : UInt64
  rest : α
  deriving DecidableEq

/-- `Orchestration`: the network, and the shard buckets of the database by partition and shard,
each mapping the epoch start of a configuration to it, in key order. -/
structure Orchestration (S α : Type) [DecidableEq S] where
  networkID : UInt16
  shards : AList fun _ : UInt32 × S => List (UInt64 × ShardConf S α)

namespace Orchestration

variable {S α : Type} [DecidableEq S]

/-- `NewOrchestration` on a new database file, whose root bucket is empty. -/
def new (networkID : UInt16) : Orchestration S α := ⟨networkID, ∅⟩

/-- The bucket of a shard, empty when there is none. -/
def shardBucket (o : Orchestration S α) (partitionID : UInt32) (shardID : S) :
    List (UInt64 × ShardConf S α) :=
  (o.shards.lookup (partitionID, shardID)).getD []

/-- `getShardConf`: the configuration of the largest epoch start at most `rootRound`. -/
def getShardConf (o : Orchestration S α) (partitionID : UInt32) (shardID : S)
    (rootRound : UInt64) : Option (ShardConf S α) :=
  match o.shards.lookup (partitionID, shardID) with
  | none => none
  | some shardBucket => (KeyedList.lastAtMost rootRound shardBucket).map Prod.snd

/-- `ShardConfig`: the configuration active in `rootRound`, which must be of the network;
`shardName` prints the partition and shard as `%s_%s` does. -/
def shardConfig (shardName : UInt32 → S → String) (o : Orchestration S α) (partitionID : UInt32)
    (shardID : S) (rootRound : UInt64) : Except String (ShardConf S α) :=
  let name := shardName partitionID shardID
  match o.getShardConf partitionID shardID rootRound with
  | none => .error s!"shard conf missing for shard {name}"
  | some shardConf =>
    let got := shardConf.networkID
    let expected := o.networkID
    if got ≠ expected then
      .error s!"shard conf loaded from database has wrong networkID {got}, expected {expected}"
    else .ok shardConf

/-- One shard bucket in `ShardConfigs`: its configuration active in `rootRound`, if any, goes
into the map under the configuration's own partition and shard. -/
def addActive (rootRound : UInt64) (shardConfs : AList fun _ : UInt32 × S => ShardConf S α)
    (e : Sigma fun _ : UInt32 × S => List (UInt64 × ShardConf S α)) :
    AList fun _ : UInt32 × S => ShardConf S α :=
  match KeyedList.lastAtMost rootRound e.2 with
  | some (_, shardConf) => shardConfs.insert (shardConf.partitionID, shardConf.shardID) shardConf
  | none => shardConfs

/-- `ShardConfigs`: the configuration active in `rootRound` of every shard bucket. -/
def shardConfigs (o : Orchestration S α) (rootRound : UInt64) :
    AList fun _ : UInt32 × S => ShardConf S α :=
  o.shards.entries.foldl (addActive rootRound) ∅

section Add

variable (isValid : ShardConf S α → Except String Unit)
  (verify : ShardConf S α → ShardConf S α → Except String Unit)

/-- `verifyShardConf`: a configuration of epoch `0` needs only to be valid; any other one must
extend the configuration of the largest epoch start (`math.MaxUint64` is the round). -/
def verifyShardConf (o : Orchestration S α) (shardConf : ShardConf S α) : Except String Unit :=
  if shardConf.epoch = 0 then isValid shardConf
  else
    match o.getShardConf shardConf.partitionID shardConf.shardID 18446744073709551615 with
    | none => .error "previous shard conf not found"
    | some lastShardConf =>
      match verify shardConf lastShardConf with
      | .error e => .error ("shard conf does not extend previous shard conf: " ++ e)
      | .ok () => .ok ()

/-- `storeShardConf`: puts the configuration under its epoch start in its shard's bucket, which
is made when missing. -/
def storeShardConf (o : Orchestration S α) (shardConf : ShardConf S α) : Orchestration S α :=
  { o with
    shards := o.shards.insert (shardConf.partitionID, shardConf.shardID)
      (KeyedList.put shardConf.epochStart shardConf
        (o.shardBucket shardConf.partitionID shardConf.shardID)) }

/-- `AddShardConfig`: checks the network, then verifies and stores the configuration in one
transaction. -/
def addShardConfig (shardConf : ShardConf S α) (o : Orchestration S α) :
    Except String (Orchestration S α) :=
  let got := shardConf.networkID
  let expected := o.networkID
  if got ≠ expected then .error s!"invalid networkID {got}, expected {expected}"
  else
    match verifyShardConf isValid verify o shardConf with
    | .error e => .error ("verify shard conf: " ++ e)
    | .ok () => .ok (storeShardConf o shardConf)

/-- `AddShardConfig` calls in turn, each on what the ones before left (a rejected call rolls its
transaction back), with the configurations accepted. -/
def addShardConfigs (calls : List (ShardConf S α))
    (s : List (ShardConf S α) × Orchestration S α) : List (ShardConf S α) × Orchestration S α :=
  calls.foldl (fun s shardConf =>
    match addShardConfig isValid verify shardConf s.2 with
    | .ok o => (s.1 ++ [shardConf], o)
    | .error _ => s) s

end Add

/-! ### What each function does -/

section Spec

variable {o : Orchestration S α}

theorem getShardConf_eq (o : Orchestration S α) (partitionID : UInt32) (shardID : S)
    (rootRound : UInt64) :
    o.getShardConf partitionID shardID rootRound =
      (KeyedList.lastAtMost rootRound (o.shardBucket partitionID shardID)).map Prod.snd := by
  unfold getShardConf shardBucket
  cases o.shards.lookup (partitionID, shardID) <;> rfl

@[simp] theorem networkID_storeShardConf (o : Orchestration S α) (shardConf : ShardConf S α) :
    (storeShardConf o shardConf).networkID = o.networkID := rfl

/-- Storing puts the configuration into its own shard's bucket and leaves the others. -/
theorem shardBucket_storeShardConf (o : Orchestration S α) (shardConf : ShardConf S α)
    (partitionID : UInt32) (shardID : S) :
    (storeShardConf o shardConf).shardBucket partitionID shardID =
      if shardConf.partitionID = partitionID ∧ shardConf.shardID = shardID then
        KeyedList.put shardConf.epochStart shardConf (o.shardBucket partitionID shardID)
      else o.shardBucket partitionID shardID := by
  by_cases h : shardConf.partitionID = partitionID ∧ shardConf.shardID = shardID
  · obtain ⟨rfl, rfl⟩ := h
    simp [storeShardConf, shardBucket, AList.lookup_insert]
  · have hne : (partitionID, shardID) ≠ (shardConf.partitionID, shardConf.shardID) :=
      fun heq => h ⟨(Prod.ext_iff.mp heq).1.symm, (Prod.ext_iff.mp heq).2.symm⟩
    rw [if_neg h]
    simp only [storeShardConf, shardBucket, AList.lookup_insert_ne hne]

variable {isValid : ShardConf S α → Except String Unit}
  {verify : ShardConf S α → ShardConf S α → Except String Unit}

/-- A configuration verifies when it is of epoch `0` and valid, or extends the configuration of
the largest epoch start. -/
theorem verifyShardConf_eq_ok {shardConf : ShardConf S α}
    (h : verifyShardConf isValid verify o shardConf = .ok ()) :
    shardConf.epoch = 0 ∨ shardConf.epoch ≠ 0 ∧ ∃ lastShardConf,
      o.getShardConf shardConf.partitionID shardConf.shardID 18446744073709551615 =
        some lastShardConf ∧ verify shardConf lastShardConf = .ok () := by
  unfold verifyShardConf at h
  by_cases hzero : shardConf.epoch = 0
  · exact .inl hzero
  · rw [if_neg hzero] at h
    refine .inr ⟨hzero, ?_⟩
    split at h
    · cases h
    · rename_i lastShardConf hlast
      split at h
      · cases h
      · rename_i hv
        exact ⟨lastShardConf, hlast, hv⟩

/-- An accepted configuration is of the network, verifies, and is stored. -/
theorem addShardConfig_eq_ok {shardConf : ShardConf S α} {o' : Orchestration S α}
    (h : addShardConfig isValid verify shardConf o = .ok o') :
    shardConf.networkID = o.networkID ∧ verifyShardConf isValid verify o shardConf = .ok () ∧
      o' = storeShardConf o shardConf := by
  unfold addShardConfig at h
  dsimp only at h
  split at h
  · cases h
  · rename_i hnet
    split at h
    · cases h
    · rename_i hv
      cases h
      exact ⟨not_not.mp hnet, hv, rfl⟩

/-- A bucket whose configurations are all of its shard adds its active one under its key. -/
theorem lookup_foldl_addActive (rootRound : UInt64) (k : UInt32 × S) :
    ∀ (l : List (Sigma fun _ : UInt32 × S => List (UInt64 × ShardConf S α)))
      (shardConfs : AList fun _ : UInt32 × S => ShardConf S α), l.NodupKeys →
      (∀ e ∈ l, ∀ x ∈ e.2, (x.2.partitionID, x.2.shardID) = e.1) →
      (l.foldl (addActive rootRound) shardConfs).lookup k =
        (((l.dlookup k).bind (KeyedList.lastAtMost rootRound)).map Prod.snd).or
          (shardConfs.lookup k)
  | [], _, _, _ => rfl
  | e :: l, shardConfs, hnodup, hids => by
    rw [List.nodupKeys_cons] at hnodup
    rw [List.foldl_cons, lookup_foldl_addActive rootRound k l _ hnodup.2
      fun e' he' => hids e' (List.mem_cons_of_mem _ he')]
    by_cases hk : k = e.1
    · -- the bucket of `k`: later buckets do not hold it, and it adds its own
      subst hk
      have hrest : l.dlookup e.1 = none := List.dlookup_eq_none.mpr hnodup.1
      rw [hrest, List.dlookup_cons_eq]
      unfold addActive
      split
      · rename_i key shardConf hfound
        have hkey := hids e List.mem_cons_self _ (KeyedList.mem_of_lastAtMost hfound).1
        simp only [Option.bind_none, Option.map_none, Option.none_or, Option.bind_some, hfound,
          Option.map_some, Option.some_or]
        rw [← hkey, AList.lookup_insert]
      · rename_i hnone
        simp [hnone]
    · -- another bucket adds nothing under `k`
      rw [List.dlookup_cons_ne _ _ hk]
      congr 1
      unfold addActive
      split
      · rename_i key shardConf hfound
        have hkey := hids e List.mem_cons_self _ (KeyedList.mem_of_lastAtMost hfound).1
        rw [AList.lookup_insert_ne (hkey ▸ hk)]
      · rfl

/-- When every bucket holds configurations of its own shard, `ShardConfigs` agrees with
`getShardConf` on every shard. -/
theorem lookup_shardConfigs (o : Orchestration S α) (rootRound : UInt64)
    (hids : ∀ e ∈ o.shards.entries, ∀ x ∈ e.2, (x.2.partitionID, x.2.shardID) = e.1)
    (partitionID : UInt32) (shardID : S) :
    (o.shardConfigs rootRound).lookup (partitionID, shardID) =
      o.getShardConf partitionID shardID rootRound := by
  rw [shardConfigs, lookup_foldl_addActive rootRound _ _ _ o.shards.nodupKeys hids,
    AList.lookup_empty, Option.or_none, getShardConf]
  change ((o.shards.lookup (partitionID, shardID)).bind (KeyedList.lastAtMost rootRound)).map
    Prod.snd = _
  cases o.shards.lookup (partitionID, shardID) <;> rfl

end Spec

/-! ### The history of each shard -/

/-- The configurations of a shard among `acc`, in order. -/
def history (acc : List (ShardConf S α)) (partitionID : UInt32) (shardID : S) :
    List (ShardConf S α) :=
  acc.filter fun c => c.partitionID = partitionID ∧ c.shardID = shardID

theorem mem_history {acc : List (ShardConf S α)} {partitionID : UInt32} {shardID : S}
    {c : ShardConf S α} :
    c ∈ history acc partitionID shardID ↔
      c ∈ acc ∧ c.partitionID = partitionID ∧ c.shardID = shardID := by
  simp [history]

theorem history_append_singleton (acc : List (ShardConf S α)) (c : ShardConf S α)
    (partitionID : UInt32) (shardID : S) :
    history (acc ++ [c]) partitionID shardID =
      if c.partitionID = partitionID ∧ c.shardID = shardID then
        history acc partitionID shardID ++ [c]
      else history acc partitionID shardID := by
  by_cases h : c.partitionID = partitionID ∧ c.shardID = shardID <;>
    simp [history, List.filter_append, h]

/-- The entry of a configuration in its bucket. -/
def entry (c : ShardConf S α) : UInt64 × ShardConf S α := (c.epochStart, c)

/-- What the database holds after accepting `acc`: each bucket holds the configurations accepted
for its shard, in order, under their epoch starts; along a shard's history the epoch starts and
the epochs increase, each epoch one more than the one before; all are of the network. -/
structure OrchInv (acc : List (ShardConf S α)) (o : Orchestration S α) : Prop where
  bucket : ∀ p s, o.shardBucket p s = (history acc p s).map entry
  sorted : ∀ p s, (history acc p s).Pairwise fun a b => a.epochStart < b.epochStart ∧ a.epoch < b.epoch
  next : ∀ p s, (history acc p s).IsChain fun a b => b.epoch = a.epoch + 1
  network : ∀ c ∈ acc, c.networkID = o.networkID

section Inv

variable {isValid : ShardConf S α → Except String Unit}
  {verify : ShardConf S α → ShardConf S α → Except String Unit}
  {acc : List (ShardConf S α)} {o : Orchestration S α}

theorem OrchInv.new (networkID : UInt16) : OrchInv ([] : List (ShardConf S α)) (new networkID) where
  bucket p s := by simp [shardBucket, Orchestration.new, history, AList.lookup_empty]
  sorted p s := by simp [history]
  next p s := by simp [history]
  network c hc := absurd hc List.not_mem_nil

/-- A configuration that verifies goes after the last of its shard: one of epoch `0` to a shard
with none, and any other one epoch after the last and starting later. -/
theorem OrchInv.extends_last (hinv : OrchInv acc o)
    (hverify : ∀ c prev, verify c prev = .ok () →
      c.epoch = prev.epoch + 1 ∧ prev.epochStart < c.epochStart)
    {c : ShardConf S α} (hzero : c.epoch = 0 → history acc c.partitionID c.shardID = [])
    (hv : verifyShardConf isValid verify o c = .ok ()) :
    history acc c.partitionID c.shardID = [] ∨ ∃ last,
      (history acc c.partitionID c.shardID).getLast? = some last ∧ c.epoch = last.epoch + 1 ∧
        last.epochStart < c.epochStart ∧ last.epoch < c.epoch := by
  rcases verifyShardConf_eq_ok hv with hz | ⟨hnz, last, hlast, hext⟩
  · exact .inl (hzero hz)
  · -- the configuration verified against is the last of the shard's bucket
    rw [getShardConf_eq, KeyedList.lastAtMost_max, hinv.bucket, List.getLast?_map,
      Option.map_map] at hlast
    obtain ⟨hepoch, hstart⟩ := hverify c last hext
    have hlt : last.epoch < c.epoch := by
      rw [hepoch]
      exact UInt64.lt_add_one_of_ne_zero (hepoch ▸ hnz)
    refine .inr ⟨last, ?_, hepoch, hstart, hlt⟩
    simpa [entry] using hlast

/-- Every accepted configuration keeps the invariant, when one of epoch `0` only comes for a
shard with none. -/
theorem OrchInv.add (hinv : OrchInv acc o)
    (hverify : ∀ c prev, verify c prev = .ok () →
      c.epoch = prev.epoch + 1 ∧ prev.epochStart < c.epochStart)
    {c : ShardConf S α} (hzero : c.epoch = 0 → history acc c.partitionID c.shardID = [])
    {o' : Orchestration S α} (h : addShardConfig isValid verify c o = .ok o') :
    OrchInv (acc ++ [c]) o' := by
  obtain ⟨hnet, hv, rfl⟩ := addShardConfig_eq_ok h
  have hlast := hinv.extends_last hverify hzero hv
  -- every configuration of the shard starts before it, with a smaller epoch
  have hbefore : ∀ d ∈ history acc c.partitionID c.shardID,
      d.epochStart < c.epochStart ∧ d.epoch < c.epoch := by
    rcases hlast with hnil | ⟨last, hl, -, hstart, hepoch⟩
    · rw [hnil]
      exact fun d hd => absurd hd List.not_mem_nil
    · intro d hd
      rcases KeyedList.eq_or_rel_getLast (hinv.sorted _ _) hl d hd with rfl | hrel
      · exact ⟨hstart, hepoch⟩
      · exact ⟨UInt64.lt_trans hrel.1 hstart, UInt64.lt_trans hrel.2 hepoch⟩
  -- and its epoch is one more than the last one's
  have hnext : ∀ x ∈ (history acc c.partitionID c.shardID).getLast?, c.epoch = x.epoch + 1 := by
    rcases hlast with hnil | ⟨last, hl, hepoch, -, -⟩
    · rw [hnil]
      exact fun x hx => absurd hx (by simp)
    · intro x hx
      rw [hl, Option.mem_def, Option.some.injEq] at hx
      exact hx ▸ hepoch
  refine ⟨fun p s => ?_, fun p s => ?_, fun p s => ?_, fun d hd => ?_⟩
  · rw [shardBucket_storeShardConf, history_append_singleton]
    split_ifs with hkey
    · obtain ⟨rfl, rfl⟩ := hkey
      have hput : ∀ e ∈ o.shardBucket c.partitionID c.shardID, e.1 < c.epochStart := by
        rw [hinv.bucket]
        intro e he
        obtain ⟨d, hd, rfl⟩ := List.mem_map.mp he
        exact (hbefore d hd).1
      rw [KeyedList.put_of_lt hput, hinv.bucket, List.map_append]
      rfl
    · exact hinv.bucket p s
  · rw [history_append_singleton]
    split_ifs with hkey
    · obtain ⟨rfl, rfl⟩ := hkey
      refine List.pairwise_append.mpr ⟨hinv.sorted _ _, List.pairwise_singleton _ _, ?_⟩
      intro d hd c' hc'
      rw [List.mem_singleton.mp hc']
      exact hbefore d hd
    · exact hinv.sorted p s
  · rw [history_append_singleton]
    split_ifs with hkey
    · obtain ⟨rfl, rfl⟩ := hkey
      refine List.isChain_append.mpr ⟨hinv.next _ _, List.isChain_singleton _, ?_⟩
      intro x hx y hy
      rw [List.head?_singleton, Option.mem_def, Option.some.injEq] at hy
      rw [← hy]
      exact hnext x hx
    · exact hinv.next p s
  · rcases List.mem_append.mp hd with hd | hd
    · exact hinv.network d hd
    · rw [List.mem_singleton.mp hd]
      exact hnet

theorem addShardConfigs_cons_of_ok {c : ShardConf S α} {o' : Orchestration S α}
    (h : addShardConfig isValid verify c o = .ok o') (calls : List (ShardConf S α)) :
    addShardConfigs isValid verify (c :: calls) (acc, o) =
      addShardConfigs isValid verify calls (acc ++ [c], o') := by
  simp only [addShardConfigs, List.foldl_cons, h]

theorem addShardConfigs_cons_of_error {c : ShardConf S α} {e : String}
    (h : addShardConfig isValid verify c o = .error e) (calls : List (ShardConf S α)) :
    addShardConfigs isValid verify (c :: calls) (acc, o) =
      addShardConfigs isValid verify calls (acc, o) := by
  simp only [addShardConfigs, List.foldl_cons, h]

/-- A run keeps the invariant when every configuration of epoch `0` comes for a shard none of
whose configurations was accepted before it. -/
theorem OrchInv.addShardConfigs
    (hverify : ∀ c prev, verify c prev = .ok () →
      c.epoch = prev.epoch + 1 ∧ prev.epochStart < c.epochStart) :
    ∀ (calls : List (ShardConf S α)) {acc : List (ShardConf S α)} {o : Orchestration S α},
      OrchInv acc o →
      (∀ pre c post, calls = pre ++ c :: post → c.epoch = 0 →
        history (addShardConfigs isValid verify pre (acc, o)).1 c.partitionID c.shardID = []) →
      OrchInv (addShardConfigs isValid verify calls (acc, o)).1
        (addShardConfigs isValid verify calls (acc, o)).2
  | [], _, _, hinv, _ => hinv
  | c :: calls, acc, o, hinv, hzero => by
    cases h : addShardConfig isValid verify c o with
    | ok o' =>
      rw [addShardConfigs_cons_of_ok h]
      refine OrchInv.addShardConfigs hverify calls (hinv.add hverify (hzero [] c calls rfl) h) ?_
      intro pre c' post hsplit
      rw [← addShardConfigs_cons_of_ok h]
      exact hzero (c :: pre) c' post (by rw [hsplit]; rfl)
    | error e =>
      rw [addShardConfigs_cons_of_error h]
      refine OrchInv.addShardConfigs hverify calls hinv ?_
      intro pre c' post hsplit
      rw [← addShardConfigs_cons_of_error h]
      exact hzero (c :: pre) c' post (by rw [hsplit]; rfl)

/-! ### What the lookups return -/

theorem OrchInv.keys_sorted (hinv : OrchInv acc o) (p : UInt32) (s : S) :
    ((history acc p s).map entry).Pairwise fun a b => a.1 < b.1 ∧ a.2.epoch < b.2.epoch :=
  List.pairwise_map.mpr (hinv.sorted p s)

/-- A configuration found is the entry the cursor stopped at. -/
theorem OrchInv.lastAtMost_of_getShardConf (hinv : OrchInv acc o) {p : UInt32} {s : S}
    {r : UInt64} {c : ShardConf S α} (h : o.getShardConf p s r = some c) :
    KeyedList.lastAtMost r ((history acc p s).map entry) = some (entry c) := by
  rw [getShardConf_eq, hinv.bucket, Option.map_eq_some_iff] at h
  obtain ⟨e, he, rfl⟩ := h
  obtain ⟨d, -, rfl⟩ := List.mem_map.mp (KeyedList.mem_of_lastAtMost he).1
  exact he

/-- `getShardConf` returns the accepted configuration of the shard with the largest epoch start
at most the round. -/
theorem OrchInv.getShardConf_eq_some_iff (hinv : OrchInv acc o) (p : UInt32) (s : S)
    (r : UInt64) (c : ShardConf S α) :
    o.getShardConf p s r = some c ↔ c ∈ acc ∧ c.partitionID = p ∧ c.shardID = s ∧
      c.epochStart ≤ r ∧ ∀ d ∈ acc, d.partitionID = p → d.shardID = s → d.epochStart ≤ r →
        d.epochStart ≤ c.epochStart := by
  have hkeys := (hinv.keys_sorted p s).imp fun h => h.1
  constructor
  · intro h
    have hfound := hinv.lastAtMost_of_getShardConf h
    obtain ⟨hmem, hle⟩ := KeyedList.mem_of_lastAtMost hfound
    obtain ⟨c', hc', hentry⟩ := List.mem_map.mp hmem
    obtain rfl : c' = c := congrArg Prod.snd hentry
    obtain ⟨hacc, hp, hs⟩ := mem_history.mp hc'
    refine ⟨hacc, hp, hs, hle, fun d hd hdp hds hdr => ?_⟩
    exact KeyedList.lastAtMost_greatest hkeys hfound (entry d)
      (List.mem_map_of_mem (mem_history.mpr ⟨hd, hdp, hds⟩)) hdr
  · rintro ⟨hacc, hp, hs, hle, hgreatest⟩
    have hc : entry c ∈ (history acc p s).map entry :=
      List.mem_map_of_mem (mem_history.mpr ⟨hacc, hp, hs⟩)
    rw [getShardConf_eq, hinv.bucket]
    cases hfound : KeyedList.lastAtMost r ((history acc p s).map entry) with
    | none => exact absurd hle (UInt64.not_le.mpr (KeyedList.lastAtMost_eq_none_iff.mp hfound _ hc))
    | some e =>
      -- the entry found and `c` have the same epoch start, so they are one entry
      obtain ⟨he, her⟩ := KeyedList.mem_of_lastAtMost hfound
      obtain ⟨d, hd, rfl⟩ := List.mem_map.mp he
      obtain ⟨hdacc, hdp, hds⟩ := mem_history.mp hd
      have hkey : (entry d).1 = (entry c).1 := UInt64.le_antisymm
        (hgreatest d hdacc hdp hds her) (KeyedList.lastAtMost_greatest hkeys hfound _ hc hle)
      rw [KeyedList.eq_of_key_eq hkeys he hc hkey]
      rfl

/-- `getShardConf` returns nothing when every accepted configuration of the shard starts later. -/
theorem OrchInv.getShardConf_eq_none_iff (hinv : OrchInv acc o) (p : UInt32) (s : S)
    (r : UInt64) :
    o.getShardConf p s r = none ↔
      ∀ d ∈ acc, d.partitionID = p → d.shardID = s → r < d.epochStart := by
  rw [getShardConf_eq, hinv.bucket, Option.map_eq_none_iff, KeyedList.lastAtMost_eq_none_iff]
  constructor
  · intro h d hd hdp hds
    exact h (entry d) (List.mem_map_of_mem (mem_history.mpr ⟨hd, hdp, hds⟩))
  · intro h e he
    obtain ⟨d, hd, rfl⟩ := List.mem_map.mp he
    obtain ⟨hdacc, hdp, hds⟩ := mem_history.mp hd
    exact h d hdacc hdp hds

/-- `ShardConfigs` agrees with `getShardConf` on every shard. -/
theorem OrchInv.lookup_shardConfigs (hinv : OrchInv acc o) (p : UInt32) (s : S) (r : UInt64) :
    (o.shardConfigs r).lookup (p, s) = o.getShardConf p s r := by
  refine Orchestration.lookup_shardConfigs o r (fun e he x hx => ?_) p s
  -- a bucket is the one its key looks up, which holds configurations of its shard
  have hlookup : o.shardBucket e.1.1 e.1.2 = e.2 := by
    rw [shardBucket, AList.mem_lookup_iff.mpr he]
    rfl
  rw [← hlookup, hinv.bucket] at hx
  obtain ⟨d, hd, rfl⟩ := List.mem_map.mp hx
  obtain ⟨-, hdp, hds⟩ := mem_history.mp hd
  exact Prod.ext hdp hds

/-- As the round grows, the epoch returned does not go back. -/
theorem OrchInv.epoch_le (hinv : OrchInv acc o) {p : UInt32} {s : S} {r r' : UInt64}
    (hr : r ≤ r') {c c' : ShardConf S α} (h : o.getShardConf p s r = some c)
    (h' : o.getShardConf p s r' = some c') : c.epoch ≤ c'.epoch := by
  rcases KeyedList.lastAtMost_mono (R := fun a b => a.epoch < b.epoch) (hinv.keys_sorted p s) hr (hinv.lastAtMost_of_getShardConf h)
    (hinv.lastAtMost_of_getShardConf h') with heq | hlt
  · have hcc : c = c' := congrArg Prod.snd heq
    rw [hcc]
    exact UInt64.le_refl _
  · exact UInt64.le_of_lt hlt

/-- One round later, the configuration returned is the same or the next one, of the next
epoch. -/
theorem OrchInv.epoch_succ (hinv : OrchInv acc o) {p : UInt32} {s : S} {r : UInt64}
    (hr : r + 1 ≠ 0) {c c' : ShardConf S α} (h : o.getShardConf p s r = some c)
    (h' : o.getShardConf p s (r + 1) = some c') : c' = c ∨ c'.epoch = c.epoch + 1 := by
  have hkeys := (hinv.keys_sorted p s).imp fun h => h.1
  have hchain : ((history acc p s).map entry).IsChain fun a b => b.2.epoch = a.2.epoch + 1 :=
    (List.isChain_map entry).mpr (hinv.next p s)
  rcases KeyedList.lastAtMost_succ (R := fun a b => b.epoch = a.epoch + 1) hkeys hchain hr (hinv.lastAtMost_of_getShardConf h)
    (hinv.lastAtMost_of_getShardConf h') with heq | hnext
  · exact .inl (congrArg Prod.snd heq)
  · exact .inr hnext

/-- `ShardConfig` never finds a configuration of another network: it fails only when the shard
has none active. -/
theorem OrchInv.shardConfig_eq_ok_iff (hinv : OrchInv acc o) (shardName : UInt32 → S → String)
    (p : UInt32) (s : S) (r : UInt64) (c : ShardConf S α) :
    o.shardConfig shardName p s r = .ok c ↔ o.getShardConf p s r = some c := by
  unfold shardConfig
  cases hget : o.getShardConf p s r with
  | none => simp
  | some c' =>
    have hnet : c'.networkID = o.networkID :=
      hinv.network c' ((hinv.getShardConf_eq_some_iff p s r c').mp hget).1
    simp [hnet]

end Inv

end Orchestration

/-! ### The history of shard configurations -/

open Orchestration in
theorem shard_config_history {S α : Type} [DecidableEq S]
    (isValid : ShardConf S α → Except String Unit)
    (verify : ShardConf S α → ShardConf S α → Except String Unit)
    (hverify : ∀ c prev, verify c prev = .ok () →
      c.epoch = prev.epoch + 1 ∧ prev.epochStart < c.epochStart)
    (networkID : UInt16) (calls : List (ShardConf S α))
    (hzero : ∀ pre c post, calls = pre ++ c :: post → c.epoch = 0 →
      history (addShardConfigs isValid verify pre ([], Orchestration.new networkID)).1
        c.partitionID c.shardID = []) :
    -- each bucket holds the configurations accepted for its shard, in order: none is lost
    (∀ p s, (addShardConfigs isValid verify calls ([], Orchestration.new networkID)).2.shardBucket
        p s =
      (history (addShardConfigs isValid verify calls ([], Orchestration.new networkID)).1 p s).map
        entry) ∧
    -- a lookup returns the accepted configuration of the largest epoch start at most the round
    (∀ p s r c,
      (addShardConfigs isValid verify calls ([], Orchestration.new networkID)).2.getShardConf p s r =
          some c ↔
        c ∈ (addShardConfigs isValid verify calls ([], Orchestration.new networkID)).1 ∧
          c.partitionID = p ∧ c.shardID = s ∧ c.epochStart ≤ r ∧
          ∀ d ∈ (addShardConfigs isValid verify calls ([], Orchestration.new networkID)).1,
            d.partitionID = p → d.shardID = s → d.epochStart ≤ r → d.epochStart ≤ c.epochStart) ∧
    (∀ p s r,
      (addShardConfigs isValid verify calls ([], Orchestration.new networkID)).2.getShardConf p s r =
          none ↔
        ∀ d ∈ (addShardConfigs isValid verify calls ([], Orchestration.new networkID)).1,
          d.partitionID = p → d.shardID = s → r < d.epochStart) ∧
    (∀ p s r,
      ((addShardConfigs isValid verify calls ([], Orchestration.new networkID)).2.shardConfigs
          r).lookup (p, s) =
        (addShardConfigs isValid verify calls ([], Orchestration.new networkID)).2.getShardConf
          p s r) ∧
    -- as the round grows the epoch returned does not go back, and it grows by one at each change
    (∀ p s r r' c c', r ≤ r' →
      (addShardConfigs isValid verify calls ([], Orchestration.new networkID)).2.getShardConf p s r =
          some c →
      (addShardConfigs isValid verify calls ([], Orchestration.new networkID)).2.getShardConf
          p s r' = some c' →
      c.epoch ≤ c'.epoch) ∧
    ∀ p s r c c', r + 1 ≠ 0 →
      (addShardConfigs isValid verify calls ([], Orchestration.new networkID)).2.getShardConf p s r =
          some c →
      (addShardConfigs isValid verify calls ([], Orchestration.new networkID)).2.getShardConf
          p s (r + 1) = some c' →
      c' = c ∨ c'.epoch = c.epoch + 1 := by
  have hinv := OrchInv.addShardConfigs hverify calls (OrchInv.new networkID) hzero
  exact ⟨hinv.bucket, hinv.getShardConf_eq_some_iff, hinv.getShardConf_eq_none_iff,
    hinv.lookup_shardConfigs, fun _ _ _ _ _ _ hr h h' => hinv.epoch_le hr h h',
    fun _ _ _ _ _ hr h h' => hinv.epoch_succ hr h h'⟩

/-- A `Verify` that accepts exactly a configuration one epoch after the previous one that starts
after it. -/
def extendsByOne (shardConf prev : ShardConf Unit String) : Except String Unit :=
  if shardConf.epoch = prev.epoch + 1 ∧ prev.epochStart < shardConf.epochStart then .ok ()
  else .error "epoch does not follow"

theorem extendsByOne_eq_ok (shardConf prev : ShardConf Unit String)
    (h : extendsByOne shardConf prev = .ok ()) :
    shardConf.epoch = prev.epoch + 1 ∧ prev.epochStart < shardConf.epochStart := by
  unfold extendsByOne at h
  split at h
  · assumption
  · cases h

/-- A configuration of shard `()` of partition `7` on network `1`. -/
def confOfShard7 (epoch epochStart : UInt64) (rest : String) : ShardConf Unit String :=
  ⟨1, 7, (), epoch, epochStart, rest⟩

theorem shard_config_history_twoEpochs :
    (∀ pre c post, [confOfShard7 0 0 "a", confOfShard7 1 5 "b"] = pre ++ c :: post →
      c.epoch = 0 →
      Orchestration.history (Orchestration.addShardConfigs (fun _ => .ok ()) extendsByOne pre
        ([], Orchestration.new 1)).1 c.partitionID c.shardID = []) ∧
    (Orchestration.addShardConfigs (fun _ => .ok ()) extendsByOne
        [confOfShard7 0 0 "a", confOfShard7 1 5 "b"] ([], Orchestration.new 1)).2.shardBucket 7 () =
      (Orchestration.history (Orchestration.addShardConfigs (fun _ => .ok ()) extendsByOne
        [confOfShard7 0 0 "a", confOfShard7 1 5 "b"] ([], Orchestration.new 1)).1 7 ()).map
        Orchestration.entry := by
  have hzero : ∀ pre c post, [confOfShard7 0 0 "a", confOfShard7 1 5 "b"] = pre ++ c :: post →
      c.epoch = 0 →
      Orchestration.history (Orchestration.addShardConfigs (fun _ => .ok ()) extendsByOne pre
        ([], Orchestration.new 1)).1 c.partitionID c.shardID = [] := by
    intro pre c post hsplit hc
    rcases pre with _ | ⟨x, _ | ⟨y, pre⟩⟩
    · rfl
    · -- the second call is of epoch 1
      obtain ⟨-, rfl, -⟩ : confOfShard7 0 0 "a" = x ∧ confOfShard7 1 5 "b" = c ∧ [] = post := by
        simpa using hsplit
      exact absurd hc (by decide)
    · simp at hsplit
  exact ⟨hzero, (shard_config_history (fun _ => .ok ()) extendsByOne extendsByOne_eq_ok 1 _
    hzero).1 7 ()⟩

/-- A configuration of epoch `0` is accepted on `IsValid` alone, for a shard that has one: after
epoch 0 from round 0 and epoch 1 from round 5, a second epoch 0 from round 5 is stored over
epoch 1, which no lookup returns any more, and the configuration changes at round 5 with the
epoch staying at 0. -/
theorem epoch_zero_rewrites_history :
    (∀ c prev, extendsByOne c prev = .ok () →
      c.epoch = prev.epoch + 1 ∧ prev.epochStart < c.epochStart) ∧
    (Orchestration.addShardConfigs (fun _ => .ok ()) extendsByOne
        [confOfShard7 0 0 "a", confOfShard7 1 5 "b", confOfShard7 0 5 "c"]
        ([], Orchestration.new 1)).1 =
      [confOfShard7 0 0 "a", confOfShard7 1 5 "b", confOfShard7 0 5 "c"] ∧
    (Orchestration.addShardConfigs (fun _ => .ok ()) extendsByOne
        [confOfShard7 0 0 "a", confOfShard7 1 5 "b", confOfShard7 0 5 "c"]
        ([], Orchestration.new 1)).2.shardBucket 7 () =
      [(0, confOfShard7 0 0 "a"), (5, confOfShard7 0 5 "c")] ∧
    (Orchestration.addShardConfigs (fun _ => .ok ()) extendsByOne
        [confOfShard7 0 0 "a", confOfShard7 1 5 "b", confOfShard7 0 5 "c"]
        ([], Orchestration.new 1)).2.getShardConf 7 () 4 = some (confOfShard7 0 0 "a") ∧
    (Orchestration.addShardConfigs (fun _ => .ok ()) extendsByOne
        [confOfShard7 0 0 "a", confOfShard7 1 5 "b", confOfShard7 0 5 "c"]
        ([], Orchestration.new 1)).2.getShardConf 7 () 5 = some (confOfShard7 0 5 "c") :=
  ⟨extendsByOne_eq_ok, by decide, by decide, by decide, by decide⟩

end BftCore.Rootchain
