import BftCore.State.Calls
import Mathlib

/-!
# `rootchain/consensus/types`: rounds, certificates and consensus messages

The records the root chain's consensus exchanges, with the fields its code reads, a Go pointer
that may be nil being an `Option` and a Go map an `AList`:

* `RoundInfo` (the vote info), `UnicitySeal` (the ledger commit info, as `constructCommitInfo`
  fills it), `QuorumCert`, `Timeout`, `TimeoutVote`, `TimeoutCert`, `BlockData`;
* the messages `VoteMsg` and `TimeoutMsg` of `network/protocol/abdrc`;
* the getters of the code, which read `0` through a nil pointer (`getRound`,
  `getParentRound`, `getHqcRound`), and the `IsValid` checks that do not verify signatures;
* `TimeoutCert.add`, which adds a timeout vote to a certificate.

The texts of the errors are those of the code; a number in one is printed with `toString`.
-/

namespace BftCore.Rootchain

open BftCore.State (Bytes uint64ToBytes)

/-- A failure of the consensus code: an error it returns, or a nil pointer it dereferences. -/
inductive ConsensusError where
  | message (text : String)
  | panic

/-- `GenesisRootRound`. -/
def genesisRootRound : UInt64 := 1

/-- `RoundInfo`: the vote info of a round. -/
structure RoundInfo where
  roundNumber : UInt64
  epoch : UInt64
  timestamp : UInt64
  parentRoundNumber : UInt64
  currentRootHash : Bytes
  deriving DecidableEq

/-- `types.UnicitySeal`, with the fields the root chain's consensus sets in a ledger commit
info: the hash of the vote info in `previousHash`, and the committed round and its state. -/
structure UnicitySeal where
  networkID : UInt16
  previousHash : Bytes
  rootChainRoundNumber : UInt64
  epoch : UInt64
  timestamp : UInt64
  hash : Bytes
  deriving DecidableEq

/-- `QuorumCert`: a vote info, a commit info, and the signatures of the commit info by
author. -/
structure QuorumCert where
  voteInfo : Option RoundInfo
  ledgerCommitInfo : Option UnicitySeal
  signatures : AList (fun _ : String => Bytes)
  deriving DecidableEq

/-- `Timeout`: the round that timed out and the validator's highest quorum certificate. -/
structure Timeout where
  epoch : UInt64
  round : UInt64
  highQc : Option QuorumCert
  deriving DecidableEq

/-- `TimeoutVote`: the round of the signer's high QC and its signature. -/
structure TimeoutVote where
  hqcRound : UInt64
  signature : Bytes
  deriving DecidableEq

/-- `TimeoutCert`. -/
structure TimeoutCert where
  timeout : Option Timeout
  signatures : AList (fun _ : String => TimeoutVote)
  deriving DecidableEq

/-- `BlockData`, without its payload (nothing modelled here reads it). -/
structure BlockData where
  author : String
  round : UInt64
  epoch : UInt64
  timestamp : UInt64
  qc : Option QuorumCert
  deriving DecidableEq

/-- `abdrc.VoteMsg`. -/
structure VoteMsg where
  voteInfo : Option RoundInfo
  ledgerCommitInfo : Option UnicitySeal
  highQc : Option QuorumCert
  author : String
  signature : Bytes

/-- `abdrc.TimeoutMsg`. -/
structure TimeoutMsg where
  timeout : Option Timeout
  author : String
  signature : Bytes
  lastTC : Option TimeoutCert

/-- The encodings that votes are hashed and signed over, from `bft-go-base`: the SHA-256 hash of
a vote info (`(*RoundInfo).Hash`) and `SigBytes` of a commit info. -/
structure Encoding where
  hashRoundInfo : RoundInfo → Bytes
  sigBytes : UnicitySeal → Bytes

/-! ### Getters through nil pointers -/

/-- `(*RoundInfo).GetRound`. -/
def RoundInfo.getRound : Option RoundInfo → UInt64
  | some x => x.roundNumber
  | none => 0

/-- `(*RoundInfo).GetParentRound`. -/
def RoundInfo.getParentRound : Option RoundInfo → UInt64
  | some x => x.parentRoundNumber
  | none => 0

/-- `(*QuorumCert).GetRound`. -/
def QuorumCert.getRound : Option QuorumCert → UInt64
  | some x => RoundInfo.getRound x.voteInfo
  | none => 0

/-- `(*QuorumCert).GetParentRound`. -/
def QuorumCert.getParentRound : Option QuorumCert → UInt64
  | some x => RoundInfo.getParentRound x.voteInfo
  | none => 0

/-- `(*QuorumCert).GetCommitRound`. -/
def QuorumCert.getCommitRound : Option QuorumCert → UInt64
  | some x =>
    match x.ledgerCommitInfo with
    | some c => c.rootChainRoundNumber
    | none => 0
  | none => 0

/-- `(*Timeout).GetRound`. -/
def Timeout.getRound : Option Timeout → UInt64
  | some x => x.round
  | none => 0

/-- `(*Timeout).GetHqcRound`. -/
def Timeout.getHqcRound : Option Timeout → UInt64
  | some x => QuorumCert.getRound x.highQc
  | none => 0

/-- `(*TimeoutCert).GetRound`. -/
def TimeoutCert.getRound : Option TimeoutCert → UInt64
  | some x => Timeout.getRound x.timeout
  | none => 0

/-- `(*TimeoutCert).GetHqcRound`. -/
def TimeoutCert.getHqcRound : Option TimeoutCert → UInt64
  | some x => Timeout.getHqcRound x.timeout
  | none => 0

/-- `qc.VoteInfo.RoundNumber`, read through both pointers: `none` where the code dereferences a
nil pointer. -/
def QuorumCert.voteRound? : Option QuorumCert → Option UInt64
  | some qc => qc.voteInfo.map RoundInfo.roundNumber
  | none => none

theorem QuorumCert.getRound_of_voteRound? {qc : Option QuorumCert} {round : UInt64}
    (h : QuorumCert.voteRound? qc = some round) : QuorumCert.getRound qc = round := by
  match qc, h with
  | some ⟨some _, _, _⟩, h =>
    cases h
    rfl

/-- `(*TimeoutMsg).GetRound`. -/
def TimeoutMsg.getRound (x : TimeoutMsg) : UInt64 := Timeout.getRound x.timeout

/-- The bytes of a timeout signature: round, epoch and high QC round, eight big-endian bytes
each, then the author (`(*TimeoutMsg).Bytes` and `BytesFromTimeoutVote`). -/
def timeoutBytes (round epoch hqcRound : UInt64) (author : String) : Bytes :=
  uint64ToBytes round ++ uint64ToBytes epoch ++ uint64ToBytes hqcRound ++ author.toUTF8.toList

/-- `(*TimeoutMsg).Bytes`, of a message whose timeout is set. -/
def TimeoutMsg.bytes (x : TimeoutMsg) (timeout : Timeout) : Bytes :=
  timeoutBytes timeout.round timeout.epoch (QuorumCert.getRound timeout.highQc) x.author

/-! ### Checks without signatures -/

/-- `(*RoundInfo).IsValid`. -/
def RoundInfo.isValid (x : RoundInfo) : Except String Unit :=
  let round := x.roundNumber
  let parent := x.parentRoundNumber
  if round = 0 then .error "round number is not assigned"
  else if parent = 0 ∧ round > 1 then .error "parent round number is not assigned"
  else if round ≤ parent then
    .error s!"invalid round number {round} - must be greater than parent round {parent}"
  else if x.timestamp = 0 then .error "round creation time is not set"
  else .ok ()

/-- `(*QuorumCert).IsValid`. -/
def QuorumCert.isValid (x : QuorumCert) : Except String Unit :=
  match x.voteInfo with
  | none => .error "vote info is nil"
  | some voteInfo =>
    match voteInfo.isValid with
    | .error e => .error ("invalid vote info: " ++ e)
    | .ok () =>
      match x.ledgerCommitInfo with
      | none => .error "ledger commit info is nil"
      | some commitInfo =>
        if commitInfo.previousHash.length < 1 then .error "round info hash is missing"
        else .ok ()

/-- `(*Timeout).IsValid`. -/
def Timeout.isValid (x : Timeout) : Except String Unit :=
  match x.highQc with
  | none => .error "high QC is unassigned"
  | some highQc =>
    match highQc.isValid with
    | .error e => .error ("invalid high QC: " ++ e)
    | .ok () =>
      let round := x.round
      let hqcRound := QuorumCert.getRound x.highQc
      if round ≤ hqcRound then
        .error s!"timeout round ({round}) must be greater than high QC round ({hqcRound})"
      else .ok ()

/-- `(*TimeoutCert).IsValid`. -/
def TimeoutCert.isValid (x : TimeoutCert) : Except String Unit :=
  match x.timeout with
  | none => .error "timeout data is unassigned"
  | some _ => .ok ()

/-- `(*TimeoutMsg).IsValid`: a high QC that is not for the previous round needs a valid last
TC for the previous round. -/
def TimeoutMsg.isValid (x : TimeoutMsg) : Except String Unit :=
  match x.timeout with
  | none => .error "timeout info is nil"
  | some timeout =>
    match timeout.isValid with
    | .error e => .error ("invalid timeout data: " ++ e)
    | .ok () =>
      if x.author = "" then .error "timeout message is missing author"
      else
        let prevRound := x.getRound - 1
        if prevRound ≠ QuorumCert.getRound timeout.highQc then
          match x.lastTC with
          | none => .error s!"last TC is missing for round {prevRound}"
          | some lastTC =>
            match lastTC.isValid with
            | .error e => .error ("invalid timeout certificate: " ++ e)
            | .ok () =>
              let tcRound := TimeoutCert.getRound x.lastTC
              if prevRound ≠ tcRound then
                .error s!"last TC must be for round {prevRound} but is for round {tcRound}"
              else .ok ()
        else .ok ()

/-! ### Assembling a timeout certificate -/

/-- `(*TimeoutCert).Add`: the vote of an author not yet in the certificate, for its round; the
certificate takes the vote's timeout when its high QC is for a later round. -/
def TimeoutCert.add (x : TimeoutCert) (author : String) (timeout : Option Timeout)
    (signature : Bytes) : Except ConsensusError TimeoutCert :=
  match x.timeout, timeout with
  | some tcTimeout, some timeout =>
    let tcRound := tcTimeout.round
    let round := timeout.round
    if tcRound ≠ round then .error (.message s!"TC is for round {tcRound} not {round}")
    else if (x.signatures.lookup author).isSome then
      .error (.message s!"{author} already voted in round {tcRound}")
    else
      match QuorumCert.voteRound? timeout.highQc, QuorumCert.voteRound? tcTimeout.highQc with
      | some hqcRound, some tcHqcRound =>
        let tcTimeout := if hqcRound > tcHqcRound then timeout else tcTimeout
        .ok ⟨some tcTimeout, x.signatures.insert author ⟨hqcRound, signature⟩⟩
      -- a high QC or its vote info is nil
      | _, _ => .error .panic
  -- `x.Timeout.Round` or `timeout.Round` through a nil pointer
  | _, _ => .error .panic

/-- What `Add` checked when it succeeds, and the certificate it leaves. -/
theorem TimeoutCert.add_eq_ok {x x' : TimeoutCert} {author : String} {timeout : Option Timeout}
    {signature : Bytes} (h : x.add author timeout signature = .ok x') :
    ∃ tcTimeout t hqcRound tcHqcRound, x.timeout = some tcTimeout ∧ timeout = some t ∧
      tcTimeout.round = t.round ∧ x.signatures.lookup author = none ∧
      QuorumCert.voteRound? t.highQc = some hqcRound ∧
      QuorumCert.voteRound? tcTimeout.highQc = some tcHqcRound ∧
      x' = ⟨some (if hqcRound > tcHqcRound then t else tcTimeout),
        x.signatures.insert author ⟨hqcRound, signature⟩⟩ := by
  unfold add at h
  cases hx : x.timeout with
  | none => simp only [hx] at h; cases h
  | some tcTimeout =>
    cases ht : timeout with
    | none => simp only [hx, ht] at h; cases h
    | some t =>
      simp only [hx, ht] at h
      split_ifs at h with hround hfound
      cases hq : QuorumCert.voteRound? t.highQc with
      | none => simp only [hq] at h; cases h
      | some hqcRound =>
        cases htq : QuorumCert.voteRound? tcTimeout.highQc with
        | none => simp only [hq, htq] at h; cases h
        | some tcHqcRound =>
          simp only [hq, htq, Except.ok.injEq] at h
          exact ⟨tcTimeout, t, hqcRound, tcHqcRound, rfl, rfl, not_not.mp hround,
            by simpa using hfound, hq, htq, h.symm⟩

/-- The first vote of a certificate made from its own timeout is added. -/
theorem TimeoutCert.add_fresh {t : Timeout} {hqcRound : UInt64}
    (hq : QuorumCert.voteRound? t.highQc = some hqcRound) (author : String) (signature : Bytes) :
    (TimeoutCert.mk (some t) ∅).add author (some t) signature =
      .ok ⟨some t, (∅ : AList fun _ : String => TimeoutVote).insert author ⟨hqcRound, signature⟩⟩ := by
  simp [add, hq]

/-- A valid timeout message is for a round above its high QC's. -/
theorem TimeoutMsg.hqcRound_lt_of_isValid {x : TimeoutMsg} (h : x.isValid = .ok ()) :
    Timeout.getHqcRound x.timeout < x.getRound := by
  unfold isValid at h
  split at h
  · cases h
  · rename_i timeout htimeout
    split at h
    · cases h
    · rename_i hv
      unfold Timeout.isValid at hv
      split at hv
      · cases hv
      · split at hv
        · cases hv
        · dsimp only at hv
          split_ifs at hv with hr
          simp only [getRound, htimeout, Timeout.getRound, Timeout.getHqcRound]
          exact UInt64.not_le.mp hr

end BftCore.Rootchain
