import BftCore.Rootchain.Types
import BftCore.Lib.UInt64
import Mathlib

/-!
# `rootchain/consensus/types`: verifying certificates and messages

The `Verify` methods, which check a record and its signatures against the root trust base:

* `RootTrustBase`: what the checks ask of `types.RootTrustBase` of `bft-go-base`, a parameter:
  the check of one signature, which returns the signer's stake, the check of a quorum of
  signatures, and the quorum threshold;
* `QuorumCert.verify`, `Timeout.verify`, `TimeoutCert.verify` (with `tallyTimeoutVotes`, its
  loop over the signatures), `VoteMsg.verify`, `TimeoutMsg.verify`;
* what a vote or a timeout message that verifies carries (`VoteMsg.verify_eq_ok`,
  `TimeoutMsg.verify_eq_ok`), what the loop over a TC's signatures computes when they all check
  (`tallyTimeoutVotes_eq_ok`), and when a QC or a TC verifies (`QuorumCert.verify_eq_ok_of`,
  `TimeoutCert.verify_eq_ok_of`).

A Go map is iterated in some order; the loop of `TimeoutCert.Verify` adds the stakes and keeps
the highest round, and fails on the first bad signature, so the order of the entries does not
change whether it succeeds.
-/

namespace BftCore.Rootchain

open BftCore.State (Bytes)

/-- What the consensus code asks of `types.RootTrustBase`. -/
structure RootTrustBase where
  /-- `VerifySignature(data, sig, nodeID)`: the signer's stake, or an error. -/
  verifySignature : Bytes → Bytes → String → Except String UInt64
  /-- `VerifyQuorumSignatures(data, signatures)`. -/
  verifyQuorumSignatures : Bytes → AList (fun _ : String => Bytes) → Except String Unit
  /-- `GetQuorumThreshold()`. -/
  getQuorumThreshold : UInt64

/-- `VerifyQuorumSignatures` counts one unit per valid signer: signatures that all check against
the data and are at least the quorum threshold in number pass. -/
def RootTrustBase.CountsSigners (tb : RootTrustBase) : Prop :=
  ∀ data sigs, tb.getQuorumThreshold.toNat ≤ sigs.entries.length →
    (∀ a sig, sigs.lookup a = some sig → ∃ stake, tb.verifySignature data sig a = .ok stake) →
    tb.verifyQuorumSignatures data sigs = .ok ()

variable (enc : Encoding) (tb : RootTrustBase)

/-- `(*QuorumCert).Verify`: the record is valid, its commit info holds the hash of its vote
info, and, but for the genesis round, a quorum signed the commit info. -/
def QuorumCert.verify (x : QuorumCert) : Except String Unit :=
  match x.isValid with
  | .error e => .error ("invalid quorum certificate: " ++ e)
  | .ok () =>
    match x.voteInfo, x.ledgerCommitInfo with
    | some voteInfo, some commitInfo =>
      if enc.hashRoundInfo voteInfo ≠ commitInfo.previousHash then
        .error "vote info hash verification failed"
      else if voteInfo.roundNumber = genesisRootRound then .ok ()
      else
        match tb.verifyQuorumSignatures (enc.sigBytes commitInfo) x.signatures with
        | .error e => .error ("failed to verify quorum signatures: " ++ e)
        | .ok () => .ok ()
    -- not reached: a valid certificate has both
    | _, _ => .error "invalid quorum certificate: vote info is nil"

/-- `(*Timeout).Verify`. -/
def Timeout.verify (x : Timeout) : Except String Unit :=
  match x.isValid with
  | .error e => .error ("invalid timeout data: " ++ e)
  | .ok () =>
    match x.highQc with
    | some highQc =>
      match highQc.verify enc tb with
      | .error e => .error ("invalid high QC: " ++ e)
      | .ok () => .ok ()
    -- not reached: a valid timeout has a high QC
    | none => .error "invalid timeout data: high QC is unassigned"

/-- The loop of `(*TimeoutCert).Verify` over the signatures: each checked against the bytes of
the certificate's timeout with its own high QC round, the stakes added up and the highest signed
QC round kept. -/
def tallyTimeoutVotes (timeout : Timeout) (acc : UInt64 × UInt64) :
    List (Sigma fun _ : String => TimeoutVote) → Except String (UInt64 × UInt64)
  | [] => .ok acc
  | ⟨author, vote⟩ :: rest =>
    let timeoutBytes := timeoutBytes timeout.round timeout.epoch vote.hqcRound author
    match tb.verifySignature timeoutBytes vote.signature author with
    | .error e => .error e
    | .ok stake =>
      tallyTimeoutVotes timeout
        (acc.1 + stake, if acc.2 < vote.hqcRound then vote.hqcRound else acc.2) rest

/-- `(*TimeoutCert).Verify`: the timeout verifies, every signature checks, the stakes reach
the quorum threshold, and the timeout's high QC is for the highest signed QC round. -/
def TimeoutCert.verify (x : TimeoutCert) : Except String Unit :=
  match x.timeout with
  | none => .error "invalid certificate: timeout data is unassigned"
  | some timeout =>
    match timeout.verify enc tb with
    | .error e => .error ("invalid timeout data: " ++ e)
    | .ok () =>
      match tallyTimeoutVotes tb timeout (0, 0) x.signatures.entries with
      | .error e => .error ("timeout certificate signature verification failed: " ++ e)
      | .ok (signedVotes, maxSignedRound) =>
        let threshold := tb.getQuorumThreshold
        if signedVotes < threshold then
          .error s!"quorum requires {threshold} votes but certificate has {signedVotes}"
        else
          let highQcRound := QuorumCert.getRound timeout.highQc
          if highQcRound ≠ maxSignedRound then
            .error s!"high QC round {highQcRound} does not match max signed QC round {maxSignedRound}"
          else .ok ()

/-- `(*VoteMsg).Verify`: an author, a valid vote info whose hash the commit info holds, a high
QC that verifies, and the author's signature of the commit info. -/
def VoteMsg.verify (x : VoteMsg) : Except String Unit :=
  let author := x.author
  if author = "" then .error "author is missing"
  else
    match x.voteInfo with
    | none => .error s!"vote from \x27{author}\x27 is missing vote info"
    | some voteInfo =>
      match voteInfo.isValid with
      | .error e => .error (s!"vote from \x27{author}\x27 vote info error: " ++ e)
      | .ok () =>
        match x.ledgerCommitInfo with
        | none => .error s!"vote from \x27{author}\x27 ledger commit info (unicity seal) is missing"
        | some commitInfo =>
          if enc.hashRoundInfo voteInfo ≠ commitInfo.previousHash then
            .error s!"vote from \x27{author}\x27 vote info hash does not match hash in commit info"
          else
            match x.highQc with
            | none => .error s!"vote from \x27{author}\x27 high QC is nil"
            | some highQc =>
              match highQc.verify enc tb with
              | .error e => .error (s!"vote from \x27{author}\x27 high QC error: " ++ e)
              | .ok () =>
                match tb.verifySignature (enc.sigBytes commitInfo) x.signature author with
                | .error e => .error (s!"vote from \x27{author}\x27 signature verification error: " ++ e)
                | .ok _ => .ok ()

/-- `(*TimeoutMsg).Verify`: a valid message signed by its author, a timeout that verifies, and
a last TC that verifies if there is one. -/
def TimeoutMsg.verify (x : TimeoutMsg) : Except String Unit :=
  match x.isValid with
  | .error e => .error ("validation failed: " ++ e)
  | .ok () =>
    match x.timeout with
    -- not reached: a valid message has a timeout
    | none => .error "validation failed: timeout info is nil"
    | some timeout =>
      match tb.verifySignature (x.bytes timeout) x.signature x.author with
      | .error e => .error ("signature verification failed: " ++ e)
      | .ok _ =>
        match timeout.verify enc tb with
        | .error e => .error ("timeout data verification failed: " ++ e)
        | .ok () =>
          match x.lastTC with
          | none => .ok ()
          | some lastTC =>
            match lastTC.verify enc tb with
            | .error e => .error ("invalid last TC: " ++ e)
            | .ok () => .ok ()

/-! ### What a verified record carries -/

variable {enc tb}

/-- A vote that verifies has a valid vote info, a commit info holding its hash, and the author's
signature of the commit info. -/
theorem VoteMsg.verify_eq_ok {x : VoteMsg} (h : x.verify enc tb = .ok ()) :
    ∃ voteInfo commitInfo, x.voteInfo = some voteInfo ∧ voteInfo.isValid = .ok () ∧
      x.ledgerCommitInfo = some commitInfo ∧ enc.hashRoundInfo voteInfo = commitInfo.previousHash ∧
      ∃ stake, tb.verifySignature (enc.sigBytes commitInfo) x.signature x.author = .ok stake := by
  unfold verify at h
  dsimp only at h
  split_ifs at h with ha
  split at h
  · cases h
  · rename_i voteInfo hvi
    split at h
    · cases h
    · rename_i hvalid
      split at h
      · cases h
      · rename_i commitInfo hci
        split_ifs at h with hhash
        split at h
        · cases h
        · split at h
          · cases h
          · split at h
            · cases h
            · rename_i stake hsig
              exact ⟨voteInfo, commitInfo, hvi, hvalid, hci, not_not.mp hhash, stake, hsig⟩

/-- A QC verifies when its vote info is valid, its commit info holds the vote info's hash, and
the quorum signatures check. -/
theorem QuorumCert.verify_eq_ok_of {x : QuorumCert} {voteInfo : RoundInfo} {commitInfo : UnicitySeal}
    (hvi : x.voteInfo = some voteInfo) (hvalid : voteInfo.isValid = .ok ())
    (hci : x.ledgerCommitInfo = some commitInfo) (hprev : commitInfo.previousHash ≠ [])
    (hhash : enc.hashRoundInfo voteInfo = commitInfo.previousHash)
    (hsig : tb.verifyQuorumSignatures (enc.sigBytes commitInfo) x.signatures = .ok ()) :
    x.verify enc tb = .ok () := by
  have hlen : ¬ commitInfo.previousHash.length < 1 := by
    simpa [List.length_pos_iff] using hprev
  have hok : x.isValid = .ok () := by
    simp only [isValid, hvi, hvalid, hci, if_neg hlen]
  simp only [verify, hok, hvi, hci, hhash, ne_eq, not_true_eq_false, if_false, hsig]
  split_ifs <;> rfl

/-- A timeout that verifies has a high QC with a vote info. -/
theorem Timeout.voteRound?_of_verify {t : Timeout} (h : t.verify enc tb = .ok ()) :
    QuorumCert.voteRound? t.highQc = some (QuorumCert.getRound t.highQc) := by
  rcases t with ⟨epoch, round, _ | ⟨_ | voteInfo, commitInfo, signatures⟩⟩
  · simp [Timeout.verify, Timeout.isValid] at h
  · simp [Timeout.verify, Timeout.isValid, QuorumCert.isValid] at h
  · rfl

/-- A timeout message that verifies has a timeout that verifies, signed by the author. -/
theorem TimeoutMsg.verify_eq_ok {x : TimeoutMsg} (h : x.verify enc tb = .ok ()) :
    ∃ timeout, x.timeout = some timeout ∧ timeout.verify enc tb = .ok () ∧
      ∃ stake, tb.verifySignature (x.bytes timeout) x.signature x.author = .ok stake := by
  unfold verify at h
  split at h
  · cases h
  · split at h
    · cases h
    · rename_i timeout htimeout
      split at h
      · cases h
      · rename_i stake hsig
        split at h
        · cases h
        · rename_i hv
          exact ⟨timeout, htimeout, hv, stake, hsig⟩

/-- The loop over signatures that all check, each with stake one: it counts them, modulo `2^64`,
and keeps the highest QC round, the starting one or that of a signature. -/
theorem tallyTimeoutVotes_eq_ok {timeout : Timeout} :
    ∀ {l : List (Sigma fun _ : String => TimeoutVote)},
      (∀ e ∈ l, tb.verifySignature (timeoutBytes timeout.round timeout.epoch e.2.hqcRound e.1)
        e.2.signature e.1 = .ok 1) →
    ∀ acc : UInt64 × UInt64, ∃ signed maxRound,
      tallyTimeoutVotes tb timeout acc l = .ok (signed, maxRound) ∧
      signed.toNat = (acc.1.toNat + l.length) % 2 ^ 64 ∧ acc.2 ≤ maxRound ∧
      (∀ e ∈ l, e.2.hqcRound ≤ maxRound) ∧ (maxRound = acc.2 ∨ ∃ e ∈ l, e.2.hqcRound = maxRound)
  | [], _, acc =>
    ⟨acc.1, acc.2, rfl, by simp [Nat.mod_eq_of_lt acc.1.toNat_lt], UInt64.le_refl _,
      by simp, .inl rfl⟩
  | ⟨author, vote⟩ :: rest, hsig, acc => by
    have hfirst := hsig ⟨author, vote⟩ List.mem_cons_self
    obtain ⟨signed, maxRound, htally, hsigned, hle, hall, hfrom⟩ :=
      tallyTimeoutVotes_eq_ok (fun e he => hsig e (List.mem_cons_of_mem _ he))
        (acc.1 + 1, max acc.2 vote.hqcRound)
    refine ⟨signed, maxRound, ?_, ?_, ?_, ?_, ?_⟩
    · simp only [tallyTimeoutVotes, hfirst, UInt64.ite_lt_eq_max]
      exact htally
    · rw [hsigned, UInt64.toNat_add, UInt64.toNat_one, List.length_cons]
      omega
    · exact UInt64.le_trans (UInt64.le_max_left _ _) hle
    · intro e he
      rcases List.mem_cons.mp he with rfl | he
      · exact UInt64.le_trans (UInt64.le_max_right _ _) hle
      · exact hall e he
    · -- the highest round comes from the start, the first signature or the rest
      rcases hfrom with hmax | ⟨e, he, hround⟩
      · rcases UInt64.max_eq_or acc.2 vote.hqcRound with h | h
        · exact .inl (hmax.trans h)
        · exact .inr ⟨⟨author, vote⟩, List.mem_cons_self, (hmax.trans h).symm⟩
      · exact .inr ⟨e, List.mem_cons_of_mem _ he, hround⟩

/-- A TC verifies when its timeout verifies, its signatures all check, they reach the threshold,
and the highest of their QC rounds is that of the timeout's high QC. -/
theorem TimeoutCert.verify_eq_ok_of {x : TimeoutCert} {timeout : Timeout}
    (ht : x.timeout = some timeout) (hv : timeout.verify enc tb = .ok ()) {signed maxRound : UInt64}
    (htally : tallyTimeoutVotes tb timeout (0, 0) x.signatures.entries = .ok (signed, maxRound))
    (hquorum : ¬ signed < tb.getQuorumThreshold)
    (hmax : QuorumCert.getRound timeout.highQc = maxRound) : x.verify enc tb = .ok () := by
  simp only [verify, ht, hv, htally, if_neg hquorum, hmax, ne_eq, not_true_eq_false, if_false]

end BftCore.Rootchain
