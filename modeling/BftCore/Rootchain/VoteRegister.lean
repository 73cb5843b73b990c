import BftCore.Rootchain.Verify
import BftCore.Lib.List

/-!
# `rootchain/consensus`: assembling quorum certificates

`vote_register.go` gathers the votes of a round.  `InsertVote` puts a vote into the bucket of
the hash of its commit info's `SigBytes`, a bucket taking its vote info and commit info from the
vote that created it, and turns away a second vote by an author through `authorToVote`; a bucket
that reaches the quorum threshold is returned as a QC.

* `ConsensusWithSignatures`, `VoteRegister`, `VoteRegister.reset`, `insertVote`, and
  `insertVotes`, a run of `InsertVote` calls that keeps the votes accepted and each QC returned;
* `Bucket` and `RegInv`: what a bucket and the whole register hold over the votes accepted, kept
  by every call (`RegInv.insertVote`) and so by every run (`RunInv.insertVotes`);
* `quorum_unique_per_round`: an author signs in one bucket, a QC holds exactly the signatures of
  the votes with its commit info, two QCs for two commit infos need more authors than there are
  when the threshold is above half of them, and QCs of verified votes verify.

The hash (`sha256.Sum256`) is a parameter `sha256 : Bytes → V`; what needs it to be free of
collisions says so.
-/

namespace BftCore.Rootchain

open BftCore.State (Bytes)

/-- `ConsensusWithSignatures`: the votes for one commit info. -/
structure ConsensusWithSignatures where
  voteInfo : Option RoundInfo
  commitInfo : Option UnicitySeal
  signatures : AList (fun _ : String => Bytes)

/-- `NewQuorumCertificateFromVote(quorum.voteInfo, quorum.commitInfo, quorum.signatures)`. -/
def ConsensusWithSignatures.toQC (quorum : ConsensusWithSignatures) : QuorumCert :=
  ⟨quorum.voteInfo, quorum.commitInfo, quorum.signatures⟩

/-- `VoteRegister`: the buckets by commit info hash, the timeout certificate being assembled, and
the hash each author voted for. -/
structure VoteRegister (V : Type) where
  hashToSignatures : AList (fun _ : V => ConsensusWithSignatures)
  timeoutCert : Option TimeoutCert
  authorToVote : AList (fun _ : String => V)

/-- The errors of `InsertVote`. -/
inductive VoteError (V : Type) where
  | equivocatingVote (previous new : V)
  | duplicateVote
  /-- a vote without commit info: `SigBytes` reads through a nil pointer -/
  | panic

/-- The texts of the errors, the hashes printed by `hex` (`%X`). -/
def VoteError.message {V : Type} (hex : V → String) : VoteError V → String
  | .equivocatingVote previous new => "equivocating vote, previous " ++ hex previous ++ ", new " ++ hex new
  | .duplicateVote => "duplicate vote"
  | .panic => "nil pointer dereference"

namespace VoteRegister

variable {V : Type} [DecidableEq V]

/-- `NewVoteRegister()`. -/
def new : VoteRegister V := ⟨∅, none, ∅⟩

/-- `Reset()`: both maps cleared and no timeout certificate. -/
def reset (_ : VoteRegister V) : VoteRegister V := ⟨∅, none, ∅⟩

/-- The bucket of `commitInfoHash` with the vote's signature added, created from the vote when
there is none. -/
def addSignature (v : VoteRegister V) (commitInfoHash : V) (vote : VoteMsg) :
    ConsensusWithSignatures :=
  let quorum :=
    match v.hashToSignatures.lookup commitInfoHash with
    | some quorum => quorum
    | none => ⟨vote.voteInfo, vote.ledgerCommitInfo, ∅⟩
  { quorum with signatures := quorum.signatures.insert vote.author vote.signature }

/-- The register once the vote for `commitInfoHash` is stored: the author's hash, and the bucket
with the vote's signature. -/
def store (v : VoteRegister V) (commitInfoHash : V) (vote : VoteMsg) : VoteRegister V :=
  { v with
    authorToVote := v.authorToVote.insert vote.author commitInfoHash
    hashToSignatures := v.hashToSignatures.insert commitInfoHash (v.addSignature commitInfoHash vote) }

end VoteRegister

open VoteRegister

variable {V : Type} [DecidableEq V] (sha256 : Bytes → V) (enc : Encoding)

/-- `(*VoteRegister).InsertVote`: the vote joins the bucket of its commit info hash unless its
author has voted; a bucket with at least `threshold` signatures is returned as a QC. -/
def insertVote (vote : VoteMsg) (threshold : UInt64) :
    EStateM (VoteError V) (VoteRegister V) (Option QuorumCert) := fun v =>
  match vote.ledgerCommitInfo with
  | none => .error .panic v
  | some commitInfo =>
    let commitInfoHash := sha256 (enc.sigBytes commitInfo)
    match v.authorToVote.lookup vote.author with
    | some prevVoteHash =>
      if commitInfoHash ≠ prevVoteHash then .error (.equivocatingVote prevVoteHash commitInfoHash) v
      else .error .duplicateVote v
    | none =>
      let quorum := v.addSignature commitInfoHash vote
      if threshold.toNat ≤ quorum.signatures.entries.length then
        .ok (some quorum.toQC) (v.store commitInfoHash vote)
      else .ok none (v.store commitInfoHash vote)

/-- The bucket a vote goes to: the hash of its commit info's `SigBytes`. -/
def voteId (vote : VoteMsg) : Option V := vote.ledgerCommitInfo.map fun c => sha256 (enc.sigBytes c)

/-- What a run of `InsertVote` calls shows: the votes accepted, in order, and each QC returned
with the votes accepted by then. -/
structure Tally where
  accepted : List VoteMsg
  quorums : List (QuorumCert × List VoteMsg)

/-- `InsertVote` on each vote in turn. -/
def insertVotes (threshold : UInt64) :
    List VoteMsg → Tally → VoteRegister V → Tally × VoteRegister V
  | [], t, v => (t, v)
  | vote :: votes, t, v =>
    match insertVote sha256 enc vote threshold v with
    | .ok none v' => insertVotes threshold votes ⟨t.accepted ++ [vote], t.quorums⟩ v'
    | .ok (some qc) v' =>
      insertVotes threshold votes
        ⟨t.accepted ++ [vote], t.quorums ++ [(qc, t.accepted ++ [vote])]⟩ v'
    | .error _ v' => insertVotes threshold votes t v'

/-- A quorum over the accepted votes `acc`: the vote info and commit info of one of them, at
least `threshold` signatures, and exactly the signatures of the accepted votes whose commit info
has the same `SigBytes`, one per author. -/
def IsQuorumOf (threshold : UInt64) (acc : List VoteMsg) (qc : QuorumCert) : Prop :=
  ∃ w ∈ acc, ∃ c, w.ledgerCommitInfo = some c ∧ qc.voteInfo = w.voteInfo ∧
    qc.ledgerCommitInfo = some c ∧ threshold.toNat ≤ qc.signatures.entries.length ∧
    ∀ a sig, qc.signatures.lookup a = some sig ↔
      ∃ w' ∈ acc, w'.author = a ∧ w'.signature = sig ∧
        w'.ledgerCommitInfo.map enc.sigBytes = some (enc.sigBytes c)

/-! ### One call -/

section Call

variable {sha256 enc} {vote : VoteMsg} {threshold : UInt64} {v v' : VoteRegister V}

theorem insertVote_eq_ok {r : Option QuorumCert}
    (h : insertVote sha256 enc vote threshold v = .ok r v') :
    ∃ id, voteId sha256 enc vote = some id ∧ v.authorToVote.lookup vote.author = none ∧
      v' = v.store id vote ∧
      ∀ qc, r = some qc → qc = (v.addSignature id vote).toQC ∧
        threshold.toNat ≤ (v.addSignature id vote).signatures.entries.length := by
  unfold insertVote at h
  split at h
  · cases h
  · rename_i commitInfo hci
    dsimp only at h
    split at h
    · split_ifs at h
    · rename_i hnew
      refine ⟨sha256 (enc.sigBytes commitInfo), by simp [voteId, hci], hnew, ?_⟩
      split_ifs at h with hthr
      · cases h
        exact ⟨rfl, fun qc hqc => ⟨(Option.some.inj hqc).symm, hthr⟩⟩
      · cases h
        exact ⟨rfl, fun qc hqc => by cases hqc⟩

/-- A refused vote leaves the register as it was. -/
theorem insertVote_eq_error {e : VoteError V}
    (h : insertVote sha256 enc vote threshold v = .error e v') : v' = v := by
  unfold insertVote at h
  split at h
  · cases h
    rfl
  · dsimp only at h
    split at h
    · split_ifs at h <;> cases h <;> rfl
    · split_ifs at h

@[simp] theorem lookup_store_self (id : V) :
    (v.store id vote).hashToSignatures.lookup id = some (v.addSignature id vote) :=
  AList.lookup_insert _

theorem lookup_store_of_ne {id id' : V} (h : id' ≠ id) :
    (v.store id vote).hashToSignatures.lookup id' = v.hashToSignatures.lookup id' :=
  AList.lookup_insert_ne h

end Call

/-! ### What the register holds -/

section Invariant

variable (acc : List VoteMsg) (id : V)

/-- A bucket over the accepted votes `acc`: the signatures of exactly the votes for hash `id`,
as many as those votes, and the vote info and commit info of the first of them. -/
structure Bucket (qc : QuorumCert) : Prop where
  signatures : ∀ a sig, qc.signatures.lookup a = some sig ↔
    ∃ w ∈ acc, w.author = a ∧ w.signature = sig ∧ voteId sha256 enc w = some id
  count : qc.signatures.entries.length = acc.countP (fun w => voteId sha256 enc w = some id)
  first : ∃ w, acc.find? (fun w => voteId sha256 enc w = some id) = some w ∧
    qc.voteInfo = w.voteInfo ∧ qc.ledgerCommitInfo = w.ledgerCommitInfo

/-- What the register holds after accepting the votes `acc`, in order. -/
structure RegInv (v : VoteRegister V) : Prop where
  /-- an author is accepted once -/
  nodup : (acc.map VoteMsg.author).Nodup
  /-- `authorToVote` has exactly the accepted authors -/
  author : ∀ a, (v.authorToVote.lookup a).isSome ↔ ∃ w ∈ acc, w.author = a
  /-- the hash of an accepted vote has a bucket -/
  present : ∀ w ∈ acc, ∀ id, voteId sha256 enc w = some id → (v.hashToSignatures.lookup id).isSome
  bucket : ∀ id q, v.hashToSignatures.lookup id = some q → Bucket sha256 enc acc id q.toQC

/-- The invariant of a run: the register holds the votes accepted, and each QC returned is a
bucket, with at least `threshold` signatures, over the votes accepted by then, which the votes
accepted now extend. -/
structure RunInv (threshold : UInt64) (t : Tally) (v : VoteRegister V) : Prop where
  reg : RegInv sha256 enc t.accepted v
  quorums : ∀ p ∈ t.quorums, p.2 <+: t.accepted ∧
    threshold.toNat ≤ p.1.signatures.entries.length ∧ ∃ id, Bucket sha256 enc p.2 id p.1

end Invariant

variable {sha256 enc}

/-- The votes of `acc ++ [vote]` with a property, apart from `vote`, are those of `acc`. -/
theorem exists_mem_append_singleton {acc : List VoteMsg} {vote : VoteMsg} {P : VoteMsg → Prop}
    (h : ¬ P vote) : (∃ w ∈ acc ++ [vote], P w) ↔ ∃ w ∈ acc, P w := by
  simp only [List.mem_append, List.mem_singleton, or_and_right, exists_or, exists_eq_left,
    or_iff_left h]

theorem RegInv.reset (v : VoteRegister V) : RegInv sha256 enc [] v.reset where
  nodup := List.nodup_nil
  author a := by simp [VoteRegister.reset]
  present w hw := absurd hw List.not_mem_nil
  bucket id q hq := by simp [VoteRegister.reset] at hq

section Step

variable {acc : List VoteMsg} {vote : VoteMsg} {id : V}

/-- A vote for another hash leaves a bucket as it was. -/
theorem Bucket.append_of_ne {qc : QuorumCert} (hb : Bucket sha256 enc acc id qc)
    (hv : voteId sha256 enc vote ≠ some id) : Bucket sha256 enc (acc ++ [vote]) id qc where
  signatures a sig := by
    rw [hb.signatures, exists_mem_append_singleton (fun h => hv h.2.2)]
  count := by
    rw [hb.count, List.countP_append]
    simp [hv]
  first := by
    obtain ⟨w, hw, hvi, hci⟩ := hb.first
    exact ⟨w, by rw [List.find?_append, hw]; rfl, hvi, hci⟩

/-- The signature of a vote by a new author, added to the signatures of the votes for its hash
among `acc`, gives those among `acc ++ [vote]`. -/
theorem Bucket.insert {q : ConsensusWithSignatures}
    (hsig : ∀ a sig, q.signatures.lookup a = some sig ↔
      ∃ w ∈ acc, w.author = a ∧ w.signature = sig ∧ voteId sha256 enc w = some id)
    (hcount : q.signatures.entries.length = acc.countP (fun w => voteId sha256 enc w = some id))
    (hfirst : ∃ w, (acc ++ [vote]).find? (fun w => voteId sha256 enc w = some id) = some w ∧
      q.voteInfo = w.voteInfo ∧ q.commitInfo = w.ledgerCommitInfo)
    (hfresh : ∀ w ∈ acc, w.author ≠ vote.author) (hid : voteId sha256 enc vote = some id) :
    Bucket sha256 enc (acc ++ [vote]) id
      { q with signatures := q.signatures.insert vote.author vote.signature }.toQC where
  signatures a sig := by
    show (q.signatures.insert vote.author vote.signature).lookup a = some sig ↔ _
    by_cases ha : a = vote.author
    · -- the new author: only `vote` has it
      subst ha
      rw [AList.lookup_insert, Option.some.injEq]
      constructor
      · rintro rfl
        exact ⟨vote, List.mem_append_right _ (List.mem_singleton_self _), rfl, rfl, hid⟩
      · rintro ⟨w, hw, ha, hs, -⟩
        rcases List.mem_append.mp hw with hw | hw
        · exact absurd ha (hfresh w hw)
        · rw [List.mem_singleton.mp hw] at hs
          exact hs
    · rw [AList.lookup_insert_ne ha, hsig, exists_mem_append_singleton fun h => ha h.1.symm]
  count := by
    have hnot : vote.author ∉ q.signatures := by
      intro hmem
      obtain ⟨sig, hsig'⟩ := Option.isSome_iff_exists.mp (AList.lookup_isSome.mpr hmem)
      obtain ⟨w, hw, ha, -⟩ := (hsig _ _).mp hsig'
      exact hfresh w hw ha
    show (q.signatures.insert vote.author vote.signature).entries.length = _
    rw [AList.entries_insert_of_notMem hnot, List.length_cons, hcount, List.countP_append]
    simp [hid]
  first := hfirst

/-- The bucket of a new author's vote, over `acc ++ [vote]`. -/
theorem RegInv.bucket_addSignature {v : VoteRegister V} (hinv : RegInv sha256 enc acc v)
    (hfresh : ∀ w ∈ acc, w.author ≠ vote.author) (hid : voteId sha256 enc vote = some id) :
    Bucket sha256 enc (acc ++ [vote]) id (v.addSignature id vote).toQC := by
  unfold VoteRegister.addSignature
  cases hq : v.hashToSignatures.lookup id with
  | some q =>
    -- the bucket exists: the vote joins it, its first vote unchanged
    have hb := hinv.bucket id q hq
    refine Bucket.insert hb.signatures hb.count ?_ hfresh hid
    obtain ⟨w, hw, hvi, hci⟩ := hb.first
    exact ⟨w, by rw [List.find?_append, hw]; rfl, hvi, hci⟩
  | none =>
    -- no accepted vote has the hash: the vote creates the bucket and comes first in it
    have hnone : ∀ w ∈ acc, ¬ voteId sha256 enc w = some id := fun w hw hw' => by
      simpa [hq] using hinv.present w hw id hw'
    refine Bucket.insert (fun a sig => ?_) ?_ ⟨vote, ?_, rfl, rfl⟩ hfresh hid
    · simp only [AList.lookup_empty, reduceCtorEq, false_iff, not_exists, not_and]
      exact fun w hw _ _ => hnone w hw
    · exact (List.countP_eq_zero.mpr (by simpa using hnone)).symm
    · rw [List.find?_append, List.find?_eq_none.mpr (by simpa using hnone)]
      simp [hid]

/-- `InsertVote` keeps the invariant: an accepted vote joins `acc`. -/
theorem RegInv.insertVote {v v' : VoteRegister V} {threshold : UInt64} {r : Option QuorumCert}
    (hinv : RegInv sha256 enc acc v) (h : insertVote sha256 enc vote threshold v = .ok r v') :
    RegInv sha256 enc (acc ++ [vote]) v' := by
  obtain ⟨id, hid, hnew, rfl, -⟩ := insertVote_eq_ok h
  have hfresh : ∀ w ∈ acc, w.author ≠ vote.author := fun w hw ha =>
    absurd ((hinv.author vote.author).mpr ⟨w, hw, ha⟩) (by simp [hnew])
  refine ⟨?nodup, fun a => ?_, fun w hw id' hw' => ?_, fun id' q hq => ?_⟩
  case nodup =>
    rw [List.map_append, List.nodup_append]
    refine ⟨hinv.nodup, List.nodup_singleton _, fun x hx y hy => ?_⟩
    obtain ⟨w, hw, rfl⟩ := List.mem_map.mp hx
    rw [List.map_singleton, List.mem_singleton] at hy
    rw [hy]
    exact hfresh w hw
  · -- `authorToVote` gains the vote's author
    by_cases ha : a = vote.author
    · subst ha
      simp [VoteRegister.store]
    · rw [show (v.store id vote).authorToVote = v.authorToVote.insert vote.author id from rfl,
        AList.lookup_insert_ne ha, hinv.author, exists_mem_append_singleton fun h => ha h.symm]
  · by_cases hne : id' = id
    · subst hne
      simp
    · rw [lookup_store_of_ne hne]
      rcases List.mem_append.mp hw with hw | hw
      · exact hinv.present w hw id' hw'
      · rw [List.mem_singleton.mp hw, hid, Option.some.injEq] at hw'
        exact absurd hw'.symm hne
  · by_cases hne : id' = id
    · -- the vote's bucket
      subst hne
      rw [lookup_store_self, Option.some.injEq] at hq
      subst hq
      exact hinv.bucket_addSignature hfresh hid
    · rw [lookup_store_of_ne hne] at hq
      exact (hinv.bucket id' q hq).append_of_ne (by rw [hid]; simpa using Ne.symm hne)

/-- A QC that `InsertVote` returns is the vote's bucket over `acc ++ [vote]`, with at least
`threshold` signatures. -/
theorem RegInv.insertVote_quorum {v v' : VoteRegister V} {threshold : UInt64} {qc : QuorumCert}
    (hinv : RegInv sha256 enc acc v)
    (h : Rootchain.insertVote sha256 enc vote threshold v = .ok (some qc) v') :
    threshold.toNat ≤ qc.signatures.entries.length ∧ ∃ id, Bucket sha256 enc (acc ++ [vote]) id qc := by
  obtain ⟨id, -, -, rfl, hqc⟩ := insertVote_eq_ok h
  obtain ⟨rfl, hthr⟩ := hqc qc rfl
  exact ⟨hthr, id, (hinv.insertVote h).bucket id _ (lookup_store_self id)⟩

end Step

/-! ### A run of calls -/

section Run

variable {threshold : UInt64}

/-- One accepted vote keeps the run invariant, whether or not it returns a QC. -/
theorem RunInv.accept {t : Tally} {v v' : VoteRegister V} {vote : VoteMsg} {r : Option QuorumCert}
    (hinv : RunInv sha256 enc threshold t v) (h : insertVote sha256 enc vote threshold v = .ok r v')
    (qs : List (QuorumCert × List VoteMsg))
    (hqs : ∀ p ∈ qs, p.2 <+: t.accepted ++ [vote] ∧
      threshold.toNat ≤ p.1.signatures.entries.length ∧ ∃ id, Bucket sha256 enc p.2 id p.1) :
    RunInv sha256 enc threshold ⟨t.accepted ++ [vote], t.quorums ++ qs⟩ v' where
  reg := hinv.reg.insertVote h
  quorums p hp := by
    rcases List.mem_append.mp hp with hp | hp
    · obtain ⟨hpre, hrest⟩ := hinv.quorums p hp
      exact ⟨hpre.trans (List.prefix_append _ _), hrest⟩
    · exact hqs p hp

/-- Every run keeps the invariant. -/
theorem RunInv.insertVotes (votes : List VoteMsg) :
    ∀ {t : Tally} {v : VoteRegister V}, RunInv sha256 enc threshold t v →
      RunInv sha256 enc threshold (insertVotes sha256 enc threshold votes t v).1
        (insertVotes sha256 enc threshold votes t v).2 := by
  induction votes with
  | nil => exact id
  | cons vote votes ih =>
    intro t v hinv
    unfold Rootchain.insertVotes
    cases h : insertVote sha256 enc vote threshold v with
    | ok r v' =>
      cases r with
      | none =>
        have hinv' := hinv.accept h [] (by simp)
        rw [List.append_nil] at hinv'
        exact ih hinv'
      | some qc =>
        refine ih (hinv.accept h [(qc, t.accepted ++ [vote])] ?_)
        simp only [List.mem_singleton, forall_eq]
        exact ⟨List.prefix_refl _, hinv.reg.insertVote_quorum h⟩
    | error e v' =>
      rw [insertVote_eq_error h]
      exact ih hinv

/-- A run accepts some of its votes, in order. -/
theorem insertVotes_accepted (votes : List VoteMsg) :
    ∀ (t : Tally) (v : VoteRegister V), ∃ fresh, fresh.Sublist votes ∧
      (insertVotes sha256 enc threshold votes t v).1.accepted = t.accepted ++ fresh := by
  induction votes with
  | nil => exact fun t _ => ⟨[], List.Sublist.slnil, by simp [Rootchain.insertVotes]⟩
  | cons vote votes ih =>
    intro t v
    unfold Rootchain.insertVotes
    split
    · -- accepted without a QC
      obtain ⟨fresh, hsub, heq⟩ := ih ⟨t.accepted ++ [vote], t.quorums⟩ _
      exact ⟨vote :: fresh, hsub.cons_cons vote, by rw [heq]; simp⟩
    · -- accepted with a QC
      obtain ⟨fresh, hsub, heq⟩ := ih ⟨t.accepted ++ [vote], _⟩ _
      exact ⟨vote :: fresh, hsub.cons_cons vote, by rw [heq]; simp⟩
    · -- refused
      obtain ⟨fresh, hsub, heq⟩ := ih t _
      exact ⟨fresh, hsub.cons vote, heq⟩

end Run

/-! ### Quorums -/

section Quorum

variable {acc : List VoteMsg} {id : V} {qc : QuorumCert}

/-- The first vote of a bucket is a vote for its hash. -/
theorem Bucket.first_mem (hb : Bucket sha256 enc acc id qc) :
    ∃ w ∈ acc, voteId sha256 enc w = some id ∧ qc.voteInfo = w.voteInfo ∧
      qc.ledgerCommitInfo = w.ledgerCommitInfo := by
  obtain ⟨w, hw, hvi, hci⟩ := hb.first
  exact ⟨w, List.mem_of_find?_eq_some hw, by simpa using List.find?_some hw, hvi, hci⟩

/-- A bucket over a prefix of `A` has the commit info of the first vote of `A` for its hash. -/
theorem Bucket.commitInfo_of_prefix {A : List VoteMsg} (hb : Bucket sha256 enc acc id qc)
    (hpre : acc <+: A) : ∃ w, A.find? (fun w => voteId sha256 enc w = some id) = some w ∧
      qc.ledgerCommitInfo = w.ledgerCommitInfo := by
  obtain ⟨w, hw, -, hci⟩ := hb.first
  obtain ⟨rest, rfl⟩ := hpre
  exact ⟨w, by rw [List.find?_append, hw]; rfl, hci⟩

omit [DecidableEq V] in
/-- With a hash free of collisions, the votes for the hash of commit info `c` are those whose
commit info has the `SigBytes` of `c`. -/
theorem voteId_eq_iff (hsha : Function.Injective sha256) (w : VoteMsg) (c : UnicitySeal) :
    voteId sha256 enc w = some (sha256 (enc.sigBytes c)) ↔
      w.ledgerCommitInfo.map enc.sigBytes = some (enc.sigBytes c) := by
  unfold voteId
  cases w.ledgerCommitInfo <;> simp [hsha.eq_iff]

/-- A bucket with at least `threshold` signatures is a quorum over its votes. -/
theorem Bucket.isQuorumOf (hsha : Function.Injective sha256) (hb : Bucket sha256 enc acc id qc)
    (hthr : threshold.toNat ≤ qc.signatures.entries.length) : IsQuorumOf enc threshold acc qc := by
  obtain ⟨w, hw, hwid, hvi, hci⟩ := hb.first_mem
  obtain ⟨c, hc, rfl⟩ : ∃ c, w.ledgerCommitInfo = some c ∧ sha256 (enc.sigBytes c) = id := by
    simpa [voteId] using hwid
  refine ⟨w, hw, c, hc, hvi, hci.trans hc, hthr, fun a sig => ?_⟩
  simp only [hb.signatures, voteId_eq_iff hsha]

/-- Two buckets of one run for two hashes: their votes are different votes of the run, so
`2 * threshold` of them cannot be found among fewer authors. -/
theorem Bucket.two_le_length {A : List VoteMsg} {acc₁ acc₂ : List VoteMsg} {id₁ id₂ : V}
    {qc₁ qc₂ : QuorumCert} (hb₁ : Bucket sha256 enc acc₁ id₁ qc₁) (hb₂ : Bucket sha256 enc acc₂ id₂ qc₂)
    (hpre₁ : acc₁ <+: A) (hpre₂ : acc₂ <+: A) (hne : id₁ ≠ id₂) :
    qc₁.signatures.entries.length + qc₂.signatures.entries.length ≤ A.length := by
  have hdisj : ∀ w ∈ A, decide (voteId sha256 enc w = some id₁) = true →
      ¬ decide (voteId sha256 enc w = some id₂) = true := by
    intro w _ h₁ h₂
    simp only [decide_eq_true_eq] at h₁ h₂
    exact hne (Option.some.inj (h₁.symm.trans h₂))
  calc qc₁.signatures.entries.length + qc₂.signatures.entries.length
      = acc₁.countP (fun w => voteId sha256 enc w = some id₁) +
          acc₂.countP (fun w => voteId sha256 enc w = some id₂) := by rw [hb₁.count, hb₂.count]
    _ ≤ A.countP (fun w => voteId sha256 enc w = some id₁) +
          A.countP (fun w => voteId sha256 enc w = some id₂) :=
        Nat.add_le_add hpre₁.countP_le hpre₂.countP_le
    _ ≤ A.length := List.countP_add_countP_le A hdisj

end Quorum

/-- The QC of a bucket whose first vote verified, all of whose votes verified, verifies, the
trust base counting one unit per signer. -/
theorem Bucket.verify {acc : List VoteMsg} {id : V} {qc : QuorumCert} {tb : RootTrustBase}
    (hsha : Function.Injective sha256) (hhash : ∀ r, enc.hashRoundInfo r ≠ [])
    (hquorum : tb.CountsSigners) (hb : Bucket sha256 enc acc id qc)
    (hthr : tb.getQuorumThreshold.toNat ≤ qc.signatures.entries.length)
    (hverified : ∀ w ∈ acc, w.verify enc tb = .ok ()) : qc.verify enc tb = .ok () := by
  obtain ⟨w, hw, hwid, hvi, hci⟩ := hb.first_mem
  obtain ⟨voteInfo, c, hwvi, hvalid, hwc, hhash', -⟩ := VoteMsg.verify_eq_ok (hverified w hw)
  have hid : sha256 (enc.sigBytes c) = id := by simpa [voteId, hwc] using hwid
  refine QuorumCert.verify_eq_ok_of (hvi.trans hwvi) hvalid (hci.trans hwc)
    (hhash' ▸ hhash voteInfo) hhash' (hquorum _ _ hthr fun a sig hsig => ?_)
  -- each signature is that of a vote for the same commit info bytes
  obtain ⟨w', hw', rfl, rfl, hw'id⟩ := (hb.signatures a sig).mp hsig
  obtain ⟨-, c', -, -, hw'c, -, stake, hstake⟩ := VoteMsg.verify_eq_ok (hverified w' hw')
  have hbytes : enc.sigBytes c' = enc.sigBytes c := by
    apply hsha
    simpa [voteId, hw'c, hid] using hw'id
  exact ⟨stake, hbytes ▸ hstake⟩

/-! ### The quorum certificates of a round -/

variable (sha256 enc) in
/-- `InsertVote` on votes from a `Reset`, with the trust base's threshold: each author is
accepted once and signs in one bucket; each QC returned is a quorum over the votes accepted by
then; when twice the threshold exceeds the number of authors, all QCs returned are for one commit
info; and when every vote verified and the trust base counts one unit per signer, every QC
returned verifies. -/
theorem quorum_unique_per_round (hsha : Function.Injective sha256)
    (hhash : ∀ r, enc.hashRoundInfo r ≠ []) (tb : RootTrustBase) (v : VoteRegister V)
    (votes : List VoteMsg) :
    let run := insertVotes sha256 enc tb.getQuorumThreshold votes ⟨[], []⟩ v.reset
    (run.1.accepted.map VoteMsg.author).Nodup ∧
    (∀ id₁ id₂ q₁ q₂ a sig₁ sig₂, run.2.hashToSignatures.lookup id₁ = some q₁ →
      run.2.hashToSignatures.lookup id₂ = some q₂ → q₁.signatures.lookup a = some sig₁ →
      q₂.signatures.lookup a = some sig₂ → id₁ = id₂) ∧
    (∀ p ∈ run.1.quorums, p.2 <+: run.1.accepted ∧ IsQuorumOf enc tb.getQuorumThreshold p.2 p.1) ∧
    ((votes.map VoteMsg.author).dedup.length < 2 * tb.getQuorumThreshold.toNat →
      ∀ p₁ ∈ run.1.quorums, ∀ p₂ ∈ run.1.quorums, p₁.1.ledgerCommitInfo = p₂.1.ledgerCommitInfo) ∧
    (tb.CountsSigners → (∀ w ∈ votes, w.verify enc tb = .ok ()) →
      ∀ p ∈ run.1.quorums, p.1.verify enc tb = .ok ()) := by
  intro run
  have hinv : RunInv sha256 enc tb.getQuorumThreshold run.1 run.2 :=
    RunInv.insertVotes votes ⟨RegInv.reset v, by simp⟩
  obtain ⟨fresh, hsub, hacc⟩ : ∃ fresh, fresh.Sublist votes ∧ run.1.accepted = [] ++ fresh :=
    insertVotes_accepted votes _ _
  have hmem : ∀ w ∈ run.1.accepted, w ∈ votes := fun w hw =>
    hsub.subset (by simpa [hacc] using hw)
  refine ⟨hinv.reg.nodup, ?_, ?_, ?_, ?_⟩
  · -- the votes of two buckets signed by one author are one vote
    intro id₁ id₂ q₁ q₂ a sig₁ sig₂ hq₁ hq₂ hs₁ hs₂
    obtain ⟨w₁, hw₁, ha₁, -, hid₁⟩ := ((hinv.reg.bucket id₁ q₁ hq₁).signatures a sig₁).mp hs₁
    obtain ⟨w₂, hw₂, ha₂, -, hid₂⟩ := ((hinv.reg.bucket id₂ q₂ hq₂).signatures a sig₂).mp hs₂
    have hw : w₁ = w₂ := List.inj_on_of_nodup_map hinv.reg.nodup hw₁ hw₂ (ha₁.trans ha₂.symm)
    rw [hw, hid₂, Option.some.injEq] at hid₁
    exact hid₁.symm
  · intro p hp
    obtain ⟨hpre, hthr, id, hb⟩ := hinv.quorums p hp
    exact ⟨hpre, hb.isQuorumOf hsha hthr⟩
  · intro hlt p₁ hp₁ p₂ hp₂
    obtain ⟨hpre₁, hthr₁, id₁, hb₁⟩ := hinv.quorums p₁ hp₁
    obtain ⟨hpre₂, hthr₂, id₂, hb₂⟩ := hinv.quorums p₂ hp₂
    by_cases hid : id₁ = id₂
    · -- one bucket: both have the commit info of its first vote
      subst hid
      obtain ⟨w₁, hw₁, hc₁⟩ := hb₁.commitInfo_of_prefix hpre₁
      obtain ⟨w₂, hw₂, hc₂⟩ := hb₂.commitInfo_of_prefix hpre₂
      rw [hw₁, Option.some.injEq] at hw₂
      rw [hc₁, hc₂, hw₂]
    · -- two buckets: twice the threshold of distinct authors
      have hle := hb₁.two_le_length hb₂ hpre₁ hpre₂ hid
      have hauthors := List.length_le_dedup_of_subset hinv.reg.nodup hmem
      omega
  · intro hquorum hverified p hp
    obtain ⟨hpre, hthr, id, hb⟩ := hinv.quorums p hp
    exact hb.verify hsha hhash hquorum hthr fun w hw => hverified w (hmem w (hpre.subset hw))

/-- An encoding whose vote info hash is one byte and whose `SigBytes` is the seal's hash. -/
def sealEncoding : Encoding := ⟨fun _ => [0], UnicitySeal.hash⟩

/-- A trust base of unit stakes and threshold one that accepts every signature. -/
def unitTrustBase : RootTrustBase := ⟨fun _ _ _ => .ok 1, fun _ _ => .ok (), 1⟩

/-- A trust base of unit stakes and threshold two that accepts every signature. -/
def pairTrustBase : RootTrustBase := ⟨fun _ _ _ => .ok 1, fun _ _ => .ok (), 2⟩

/-- The vote info of the genesis round. -/
def genesisRoundInfo : RoundInfo := ⟨1, 0, 1, 0, []⟩

/-- The QC of the genesis round, its commit info holding the hash `sealEncoding` gives. -/
def genesisQc : QuorumCert := ⟨some genesisRoundInfo, some ⟨0, [0], 1, 0, 1, []⟩, ∅⟩

/-- The vote of `author` for round 2, on the genesis QC. -/
def roundTwoVote (author : String) : VoteMsg :=
  ⟨some ⟨2, 0, 2, 1, []⟩, some ⟨0, [0], 1, 0, 2, [7]⟩, some genesisQc, author, []⟩

/-- The votes of `a`, `b`, `a` again and `c` for round 2, with threshold two: the repeated vote
is refused, and the votes of `b` and of `c` each return a QC. -/
theorem quorum_unique_per_round_sealEncoding :
    Function.Injective (id : Bytes → Bytes) ∧ (∀ r, sealEncoding.hashRoundInfo r ≠ []) ∧
    let votes := [roundTwoVote "a", roundTwoVote "b", roundTwoVote "a", roundTwoVote "c"]
    let run := insertVotes id sealEncoding pairTrustBase.getQuorumThreshold votes ⟨[], []⟩
      (VoteRegister.new : VoteRegister Bytes).reset
    (run.1.accepted.map VoteMsg.author = ["a", "b", "c"] ∧
      run.1.quorums.map (·.2.length) = [2, 3] ∧ pairTrustBase.CountsSigners ∧
      ∀ w ∈ votes, w.verify sealEncoding pairTrustBase = .ok ()) ∧
    (run.1.accepted.map VoteMsg.author).Nodup ∧
    (∀ id₁ id₂ q₁ q₂ a sig₁ sig₂, run.2.hashToSignatures.lookup id₁ = some q₁ →
      run.2.hashToSignatures.lookup id₂ = some q₂ → q₁.signatures.lookup a = some sig₁ →
      q₂.signatures.lookup a = some sig₂ → id₁ = id₂) ∧
    (∀ p ∈ run.1.quorums, p.2 <+: run.1.accepted ∧
      IsQuorumOf sealEncoding pairTrustBase.getQuorumThreshold p.2 p.1) ∧
    ((votes.map VoteMsg.author).dedup.length < 2 * pairTrustBase.getQuorumThreshold.toNat →
      ∀ p₁ ∈ run.1.quorums, ∀ p₂ ∈ run.1.quorums, p₁.1.ledgerCommitInfo = p₂.1.ledgerCommitInfo) ∧
    (pairTrustBase.CountsSigners → (∀ w ∈ votes, w.verify sealEncoding pairTrustBase = .ok ()) →
      ∀ p ∈ run.1.quorums, p.1.verify sealEncoding pairTrustBase = .ok ()) := by
  refine ⟨?inj, ?hash, ?run⟩
  case run =>
    intro votes run
    refine ⟨⟨rfl, rfl, fun _ _ _ _ => rfl, ?_⟩,
      quorum_unique_per_round id sealEncoding ?inj ?hash pairTrustBase _ votes⟩
    intro w hw
    simp only [votes, List.mem_cons, List.not_mem_nil, or_false] at hw
    rcases hw with rfl | rfl | rfl | rfl <;> rfl
  case inj => exact Function.injective_id
  case hash => exact fun _ => List.cons_ne_nil _ _

end BftCore.Rootchain
