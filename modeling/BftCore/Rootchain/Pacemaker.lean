import BftCore.Rootchain.TimeoutVotes
import BftCore.Lib.UInt64
import Mathlib

/-!
# `rootchain/consensus`: the pacemaker

The pacemaker keeps the current round: `Reset` starts the round after the high QC's, or after
the last TC's when that is later; `AdvanceRoundQC` and `AdvanceRoundTC` start the round after a
certificate's unless it is older than the current round; every round change clears the votes
collected.  `RegisterVote` takes votes of the current round into the vote register, which
returns a QC once a bucket reaches the threshold; `RegisterTimeoutVote` passes timeout votes to
the register's timeout certificate.

* `Pacemaker`, `startNewRound`, `reset`, `registerVote`, `registerTimeoutVote`,
  `advanceRoundQC`, `advanceRoundTC`, and the spec lemma of each;
* `PacemakerCall` and `runCalls`, a run of calls that keeps a `PmTally`: the round each round
  change continued from, the TC of the latest one, the votes and timeout votes accepted since,
  and each QC and TC returned with the votes it was built from;
* `PmInv`: the current round is the one after the last round continued from, the last round TC
  is the latest change's, and the register holds exactly the votes accepted since the change,
  all of the current round; `Reset` makes it and every call keeps it (`PmInv.runCalls`);
* `pacemaker_round_coherence`: what a run after `Reset` shows, for certificates whose pointers
  are set and whose rounds are below the largest `uint64`; `pacemaker_round_wraps`: a QC of the
  largest round moves the current round back to `0`.

The round clock, the pacemaker's status and its metrics are not modelled: no round or vote
depends on them.
-/

namespace BftCore.Rootchain

open BftCore.State (Bytes)

/-- `Pacemaker`, without its clock: the last round a QC committed in, the current round, the
votes of the round, the TC that started it if one did, and what was sent and assembled in it. -/
structure Pacemaker (V : Type) where
  lastQcToCommitRound : UInt64
  currentRound : UInt64
  pendingVotes : VoteRegister V
  lastRoundTC : Option TimeoutCert
  voteSent : Option VoteMsg
  timeoutVote : Option TimeoutMsg
  currentQC : Option QuorumCert

/-- A method of the pacemaker. -/
abbrev PacemakerM (V α : Type) := EStateM ConsensusError (Pacemaker V) α

/-- The last vote `Reset` restores, a Go `any`: a vote, a timeout vote, or anything else. -/
inductive LastVote where
  | vote (v : VoteMsg)
  | timeout (t : TimeoutMsg)
  | other

namespace Pacemaker

variable {V : Type}

/-- `NewPacemaker`, without the clock and metrics. -/
def new : Pacemaker V := ⟨0, 0, VoteRegister.new, none, none, none, none⟩

/-- `startNewRound`: what was sent and collected in the round is dropped. -/
def startNewRound (round : UInt64) (x : Pacemaker V) : Pacemaker V :=
  { x with
    currentQC := none
    voteSent := none
    timeoutVote := none
    pendingVotes := x.pendingVotes.reset
    currentRound := round }

/-- `SetVoted`: a vote of the current round is remembered. -/
def setVoted (vote : VoteMsg) : PacemakerM V Unit := fun x =>
  match vote.voteInfo with
  | none => .error .panic x
  | some info =>
    if info.roundNumber = x.currentRound then .ok () { x with voteSent := some vote }
    else .ok () x

/-- `SetTimeoutVote`: a timeout vote of the current round is remembered. -/
def setTimeoutVote (vote : TimeoutMsg) : PacemakerM V Unit := fun x =>
  match vote.timeout with
  | none => .error .panic x
  | some timeout =>
    if timeout.round = x.currentRound then .ok () { x with timeoutVote := some vote }
    else .ok () x

/-- The vote restored by `Reset`, by its type. -/
def restoreVote : LastVote → PacemakerM V Unit
  | .vote vote => setVoted vote
  | .timeout vote => setTimeoutVote vote
  | .other => fun x => .ok () x

/-- `Reset`: the round after the high QC's, or after the last TC's when that is later, and the
last vote sent restored. -/
def reset (highQCRound : UInt64) (lastTc : Option TimeoutCert) (lastVote : LastVote) :
    PacemakerM V Unit := fun x =>
  let x := { x with lastRoundTC := none, lastQcToCommitRound := highQCRound }
  let tcRound := TimeoutCert.getRound lastTc
  -- a TC from a later round than the high QC's is used instead
  let lastRound := if highQCRound < tcRound then tcRound else highQCRound
  let x := if highQCRound < tcRound then { x with lastRoundTC := lastTc } else x
  let x := x.startNewRound (lastRound + 1)
  restoreVote lastVote x

section Votes

variable [DecidableEq V] (sha256 : Bytes → V) (enc : Encoding) (hex : V → String)

/-- `RegisterVote`: a vote of the current round goes to the vote register; what the register
returns, a QC or nil, is the round's QC. -/
def registerVote (vote : VoteMsg) (threshold : UInt64) : PacemakerM V (Option QuorumCert) :=
  fun x =>
  match vote.voteInfo with
  | none => .error .panic x
  | some info =>
    let voteRound := info.roundNumber
    let round := x.currentRound
    if voteRound ≠ round then
      .error (.message s!"received vote is for round {voteRound}, current round is {round}") x
    else
      match insertVote sha256 enc vote threshold x.pendingVotes with
      | .error .panic v => .error .panic { x with pendingVotes := v }
      | .error e v =>
        .error (.message ("vote register error: " ++ e.message hex)) { x with pendingVotes := v }
      | .ok qc v => .ok qc { x with pendingVotes := v, currentQC := qc }

end Votes

/-- `RegisterTimeoutVote`: the vote goes to the register's timeout certificate, which is returned
once it has `threshold` signatures. -/
def registerTimeoutVote (vote : TimeoutMsg) (threshold : UInt64) :
    PacemakerM V (Option TimeoutCert) := fun x =>
  match insertTimeoutVote vote threshold x.pendingVotes with
  | .error (.message e) v =>
    .error (.message ("inserting to pending votes: " ++ e)) { x with pendingVotes := v }
  | .error .panic v => .error .panic { x with pendingVotes := v }
  | .ok (tc, _) v => .ok tc { x with pendingVotes := v }

/-- `AdvanceRoundQC`: a QC not older than the current round starts the round after it; one that
commits a state is the last QC to commit. -/
def advanceRoundQC (qc : Option QuorumCert) : PacemakerM V Bool := fun x =>
  match qc with
  | none => .ok false x
  | some qc =>
    match qc.voteInfo with
    | none => .error .panic x
    | some info =>
      if info.roundNumber < x.currentRound then .ok false x
      else
        let x := { x with lastRoundTC := none }
        match qc.ledgerCommitInfo with
        | none => .error .panic x
        | some commitInfo =>
          let x :=
            if commitInfo.rootChainRoundNumber ≠ 0 then
              { x with lastQcToCommitRound := info.roundNumber }
            else x
          .ok true (x.startNewRound (info.roundNumber + 1))

/-- `AdvanceRoundTC`: a TC not older than the current round starts the round after it and is
the last round TC. -/
def advanceRoundTC (tc : Option TimeoutCert) : PacemakerM V Unit := fun x =>
  match tc with
  | none => .ok () x
  | some tc =>
    match tc.timeout with
    | none => .error .panic x
    | some timeout =>
      if timeout.round < x.currentRound then .ok () x
      else .ok () (({ x with lastRoundTC := some tc } : Pacemaker V).startNewRound (timeout.round + 1))

/-! ### What each method does -/

section Spec

variable {x y : Pacemaker V}

@[simp] theorem currentRound_startNewRound (round : UInt64) (x : Pacemaker V) :
    (x.startNewRound round).currentRound = round := rfl

@[simp] theorem lastRoundTC_startNewRound (round : UInt64) (x : Pacemaker V) :
    (x.startNewRound round).lastRoundTC = x.lastRoundTC := rfl

@[simp] theorem pendingVotes_startNewRound (round : UInt64) (x : Pacemaker V) :
    (x.startNewRound round).pendingVotes = x.pendingVotes.reset := rfl

/-- The round `Reset` continues from: the high QC's, or the last TC's when that is later. -/
def resetRound (highQCRound : UInt64) (lastTc : Option TimeoutCert) : UInt64 :=
  if highQCRound < TimeoutCert.getRound lastTc then TimeoutCert.getRound lastTc else highQCRound

/-- The TC `Reset` keeps as the last round TC. -/
def resetTC (highQCRound : UInt64) (lastTc : Option TimeoutCert) : Option TimeoutCert :=
  if highQCRound < TimeoutCert.getRound lastTc then lastTc else none

/-- Restoring the last vote changes neither the round, nor the round's TC, nor its votes. -/
theorem final_restoreVote (lastVote : LastVote) (x : Pacemaker V) :
    (EStateM.final (restoreVote lastVote) x).currentRound = x.currentRound ∧
      (EStateM.final (restoreVote lastVote) x).lastRoundTC = x.lastRoundTC ∧
      (EStateM.final (restoreVote lastVote) x).pendingVotes = x.pendingVotes := by
  cases lastVote with
  | vote vote =>
    cases hv : vote.voteInfo with
    | none => simp [restoreVote, setVoted, EStateM.final, hv]
    | some info =>
      by_cases hr : info.roundNumber = x.currentRound <;>
        simp [restoreVote, setVoted, EStateM.final, hv, hr]
  | timeout vote =>
    cases ht : vote.timeout with
    | none => simp [restoreVote, setTimeoutVote, EStateM.final, ht]
    | some timeout =>
      by_cases hr : timeout.round = x.currentRound <;>
        simp [restoreVote, setTimeoutVote, EStateM.final, ht, hr]
  | other => exact ⟨rfl, rfl, rfl⟩

/-- `Reset` starts the round after `resetRound`, keeps `resetTC`, and clears the votes. -/
theorem final_reset (highQCRound : UInt64) (lastTc : Option TimeoutCert) (lastVote : LastVote)
    (x : Pacemaker V) :
    (EStateM.final (reset highQCRound lastTc lastVote) x).currentRound =
        resetRound highQCRound lastTc + 1 ∧
      (EStateM.final (reset highQCRound lastTc lastVote) x).lastRoundTC =
        resetTC highQCRound lastTc ∧
      (EStateM.final (reset highQCRound lastTc lastVote) x).pendingVotes = x.pendingVotes.reset := by
  -- the round is started first, and restoring the vote keeps it
  have hreset : EStateM.final (reset highQCRound lastTc lastVote) x =
      EStateM.final (restoreVote lastVote)
        ((if highQCRound < TimeoutCert.getRound lastTc then
            { x with lastRoundTC := lastTc, lastQcToCommitRound := highQCRound }
          else { x with lastRoundTC := none, lastQcToCommitRound := highQCRound } :
            Pacemaker V).startNewRound (resetRound highQCRound lastTc + 1)) := rfl
  obtain ⟨h₁, h₂, h₃⟩ := final_restoreVote lastVote
    ((if highQCRound < TimeoutCert.getRound lastTc then
        { x with lastRoundTC := lastTc, lastQcToCommitRound := highQCRound }
      else { x with lastRoundTC := none, lastQcToCommitRound := highQCRound } :
        Pacemaker V).startNewRound (resetRound highQCRound lastTc + 1))
  rw [hreset]
  refine ⟨h₁, ?_, ?_⟩
  · rw [h₂, resetTC]
    split_ifs <;> rfl
  · rw [h₃]
    split_ifs <;> rfl

/-- A QC not older than the current round starts the round after it, with no round TC. -/
theorem advanceRoundQC_of_le {qc : QuorumCert} {info : RoundInfo} {commitInfo : UnicitySeal}
    (hinfo : qc.voteInfo = some info) (hcommit : qc.ledgerCommitInfo = some commitInfo)
    (hle : x.currentRound ≤ info.roundNumber) :
    ∃ y, advanceRoundQC (some qc) x = .ok true y ∧ y.currentRound = info.roundNumber + 1 ∧
      y.lastRoundTC = none ∧ y.pendingVotes = x.pendingVotes.reset := by
  unfold advanceRoundQC
  simp only [hinfo, hcommit, if_neg (UInt64.not_lt.mpr hle)]
  refine ⟨_, rfl, rfl, ?_, ?_⟩ <;> split <;> rfl

/-- A QC older than the current round is ignored. -/
theorem advanceRoundQC_of_lt {qc : QuorumCert} {info : RoundInfo}
    (hinfo : qc.voteInfo = some info) (hlt : info.roundNumber < x.currentRound) :
    advanceRoundQC (some qc) x = .ok false x := by
  simp [advanceRoundQC, hinfo, hlt]

/-- A TC not older than the current round starts the round after it and is the round's TC. -/
theorem advanceRoundTC_of_le {tc : TimeoutCert} {timeout : Timeout}
    (htimeout : tc.timeout = some timeout) (hle : x.currentRound ≤ timeout.round) :
    advanceRoundTC (some tc) x =
      .ok () (({ x with lastRoundTC := some tc } : Pacemaker V).startNewRound (timeout.round + 1)) := by
  simp [advanceRoundTC, htimeout, UInt64.not_lt.mpr hle]

/-- A TC older than the current round is ignored. -/
theorem advanceRoundTC_of_lt {tc : TimeoutCert} {timeout : Timeout}
    (htimeout : tc.timeout = some timeout) (hlt : timeout.round < x.currentRound) :
    advanceRoundTC (some tc) x = .ok () x := by
  simp [advanceRoundTC, htimeout, hlt]

section Votes

variable [DecidableEq V] {sha256 : Bytes → V} {enc : Encoding} {hex : V → String}

/-- A registered vote is of the current round and went into the register; nothing else moves. -/
theorem registerVote_eq_ok {vote : VoteMsg} {threshold : UInt64} {r : Option QuorumCert}
    (h : registerVote sha256 enc hex vote threshold x = .ok r y) :
    RoundInfo.getRound vote.voteInfo = x.currentRound ∧
      insertVote sha256 enc vote threshold x.pendingVotes = .ok r y.pendingVotes ∧
      y.currentRound = x.currentRound ∧ y.lastRoundTC = x.lastRoundTC := by
  unfold registerVote at h
  split at h
  · cases h
  · rename_i info hinfo
    dsimp only at h
    split_ifs at h with hround
    split at h
    · cases h
    · cases h
    · rename_i qc v hins
      cases h
      exact ⟨by simpa [RoundInfo.getRound, hinfo] using hround, hins, rfl, rfl⟩

/-- A refused vote changes nothing. -/
theorem registerVote_eq_error {vote : VoteMsg} {threshold : UInt64} {e : ConsensusError}
    (h : registerVote sha256 enc hex vote threshold x = .error e y) : y = x := by
  unfold registerVote at h
  split at h
  · cases h
    rfl
  · dsimp only at h
    split_ifs at h
    · cases h
      rfl
    · split at h <;> cases h <;> rename_i hins <;> rw [insertVote_eq_error hins]

end Votes

/-- A registered timeout vote went to the register; nothing else moves. -/
theorem registerTimeoutVote_eq_ok {vote : TimeoutMsg} {threshold : UInt64}
    {r : Option TimeoutCert} (h : registerTimeoutVote vote threshold x = .ok r y) :
    (∃ n, insertTimeoutVote vote threshold x.pendingVotes = .ok (r, n) y.pendingVotes) ∧
      y.currentRound = x.currentRound ∧ y.lastRoundTC = x.lastRoundTC := by
  unfold registerTimeoutVote at h
  split at h
  · cases h
  · cases h
  · rename_i tc n v hins
    cases h
    exact ⟨⟨n, hins⟩, rfl, rfl⟩

/-- A refused timeout vote moves only the register's certificate. -/
theorem registerTimeoutVote_eq_error {vote : TimeoutMsg} {threshold : UInt64}
    {e : ConsensusError} (h : registerTimeoutVote vote threshold x = .error e y) :
    (∃ e', insertTimeoutVote vote threshold x.pendingVotes = .error e' y.pendingVotes) ∧
      y.currentRound = x.currentRound ∧ y.lastRoundTC = x.lastRoundTC := by
  unfold registerTimeoutVote at h
  split at h
  · rename_i e' v hins
    cases h
    exact ⟨⟨_, hins⟩, rfl, rfl⟩
  · rename_i v hins
    cases h
    exact ⟨⟨_, hins⟩, rfl, rfl⟩
  · cases h

end Spec

end Pacemaker

/-! ### Runs of calls -/

/-- A call of a pacemaker method that changes it. -/
inductive PacemakerCall where
  | advanceRoundQC (qc : Option QuorumCert)
  | advanceRoundTC (tc : Option TimeoutCert)
  | registerVote (vote : VoteMsg) (threshold : UInt64)
  | registerTimeoutVote (vote : TimeoutMsg) (threshold : UInt64)

/-- A call whose certificate or vote has the pointers the code reads set (as `IsValid` checks),
and whose certificate's round leaves room for the round after it. -/
def PacemakerCall.WellFormed : PacemakerCall → Prop
  | .advanceRoundQC qc => ∀ q ∈ qc, (∃ info, q.voteInfo = some info ∧ info.roundNumber + 1 ≠ 0) ∧
      q.ledgerCommitInfo.isSome
  | .advanceRoundTC tc => ∀ c ∈ tc, ∃ timeout, c.timeout = some timeout ∧ timeout.round + 1 ≠ 0
  | .registerVote _ _ => True
  | .registerTimeoutVote vote _ => ∃ timeout hqcRound, vote.timeout = some timeout ∧
      QuorumCert.voteRound? timeout.highQc = some hqcRound

/-- What a run of calls shows: the round each round change continued from, the TC of the latest
change, the votes and timeout votes accepted since, each QC returned with the current round and
the votes it was built from, and each TC returned with its votes. -/
structure PmTally where
  rounds : List UInt64
  lastTC : Option TimeoutCert
  votes : List VoteMsg
  timeouts : List TimeoutMsg
  quorums : List (QuorumCert × UInt64 × List VoteMsg)
  certs : List (TimeoutCert × List TimeoutMsg)

/-- A round change that continued from `round`, by the TC `tc` if one. -/
def PmTally.change (t : PmTally) (round : UInt64) (tc : Option TimeoutCert) : PmTally :=
  { t with rounds := t.rounds ++ [round], lastTC := tc, votes := [], timeouts := [] }

/-- The tally of a `Reset`. -/
def PmTally.start (highQCRound : UInt64) (lastTc : Option TimeoutCert) : PmTally :=
  ⟨[Pacemaker.resetRound highQCRound lastTc], Pacemaker.resetTC highQCRound lastTc, [], [], [], []⟩

namespace Pacemaker

variable {V : Type} [DecidableEq V] (sha256 : Bytes → V) (enc : Encoding) (hex : V → String)

/-- One call, with what it shows.  A TC starts a round when it is set and not older than the
current round, which is what `advanceRoundTC` checks. -/
def stepCall : PacemakerCall → PmTally × Pacemaker V → PmTally × Pacemaker V
  | .advanceRoundQC qc, (t, x) =>
    match advanceRoundQC qc x with
    | .ok true x' => (t.change (QuorumCert.getRound qc) none, x')
    | .ok false x' => (t, x')
    | .error _ x' => (t, x')
  | .advanceRoundTC tc, (t, x) =>
    let t :=
      match tc with
      | some c =>
        match c.timeout with
        | some timeout => if timeout.round < x.currentRound then t else t.change timeout.round tc
        | none => t
      | none => t
    (t, EStateM.final (advanceRoundTC tc) x)
  | .registerVote vote threshold, (t, x) =>
    match registerVote sha256 enc hex vote threshold x with
    | .ok none x' => ({ t with votes := t.votes ++ [vote] }, x')
    | .ok (some qc) x' =>
      ({ t with votes := t.votes ++ [vote],
                quorums := t.quorums ++ [(qc, x.currentRound, t.votes ++ [vote])] }, x')
    | .error _ x' => (t, x')
  | .registerTimeoutVote vote threshold, (t, x) =>
    match registerTimeoutVote vote threshold x with
    | .ok none x' => ({ t with timeouts := t.timeouts ++ [vote] }, x')
    | .ok (some tc) x' =>
      ({ t with timeouts := t.timeouts ++ [vote],
                certs := t.certs ++ [(tc, t.timeouts ++ [vote])] }, x')
    | .error _ x' => (t, x')

/-- The calls in turn. -/
def runCalls (calls : List PacemakerCall) (s : PmTally × Pacemaker V) : PmTally × Pacemaker V :=
  calls.foldl (fun s c => stepCall sha256 enc hex c s) s

theorem runCalls_append (pre post : List PacemakerCall) (s : PmTally × Pacemaker V) :
    runCalls sha256 enc hex (pre ++ post) s = runCalls sha256 enc hex post (runCalls sha256 enc hex pre s) := by
  simp [runCalls, List.foldl_append]

/-- `Reset`, then the calls in turn, with the tally of the run. -/
def resetThenRun (highQCRound : UInt64) (lastTc : Option TimeoutCert) (lastVote : LastVote)
    (calls : List PacemakerCall) (x : Pacemaker V) : PmTally × Pacemaker V :=
  runCalls sha256 enc hex calls
    (PmTally.start highQCRound lastTc, EStateM.final (reset highQCRound lastTc lastVote) x)

theorem resetThenRun_append (highQCRound : UInt64) (lastTc : Option TimeoutCert)
    (lastVote : LastVote) (pre post : List PacemakerCall) (x : Pacemaker V) :
    resetThenRun sha256 enc hex highQCRound lastTc lastVote (pre ++ post) x =
      runCalls sha256 enc hex post (resetThenRun sha256 enc hex highQCRound lastTc lastVote pre x) :=
  runCalls_append sha256 enc hex pre post _

omit [DecidableEq V] in
/-- A well-formed QC is ignored exactly when it is nil or older than the current round; one that
is taken starts the round after its own, which is later than the current one. -/
theorem advanceRoundQC_accepted {qc : Option QuorumCert}
    (hwf : (PacemakerCall.advanceRoundQC qc).WellFormed) (x : Pacemaker V) :
    (advanceRoundQC qc x = .ok false x ↔ qc = none ∨ QuorumCert.getRound qc < x.currentRound) ∧
      ∀ y, advanceRoundQC qc x = .ok true y →
        y.currentRound = QuorumCert.getRound qc + 1 ∧ x.currentRound < y.currentRound := by
  cases qc with
  | none => simp [advanceRoundQC]
  | some q =>
    obtain ⟨⟨info, hinfo, hwrap⟩, hcommit⟩ := hwf q rfl
    obtain ⟨commitInfo, hcommit⟩ := Option.isSome_iff_exists.mp hcommit
    have hq : QuorumCert.getRound (some q) = info.roundNumber := by
      simp [QuorumCert.getRound, RoundInfo.getRound, hinfo]
    rw [hq]
    by_cases hlt : info.roundNumber < x.currentRound
    · rw [advanceRoundQC_of_lt hinfo hlt]
      simp [hlt]
    · have hle := UInt64.not_lt.mp hlt
      obtain ⟨y, hy, hround, -, -⟩ := advanceRoundQC_of_le hinfo hcommit hle
      rw [hy]
      refine ⟨by simp [hlt], fun y' hy' => ?_⟩
      cases hy'
      exact ⟨hround, hround ▸ UInt64.lt_of_le_of_lt hle (UInt64.lt_add_one_of_ne_zero hwrap)⟩

omit [DecidableEq V] in
/-- A well-formed TC is ignored exactly when it is nil or older than the current round; one that
is taken starts the round after its own, which is later than the current one. -/
theorem advanceRoundTC_accepted {tc : Option TimeoutCert}
    (hwf : (PacemakerCall.advanceRoundTC tc).WellFormed) (x : Pacemaker V) :
    (EStateM.final (advanceRoundTC tc) x = x ↔
        tc = none ∨ TimeoutCert.getRound tc < x.currentRound) ∧
      (EStateM.final (advanceRoundTC tc) x ≠ x →
        (EStateM.final (advanceRoundTC tc) x).currentRound = TimeoutCert.getRound tc + 1 ∧
          x.currentRound < (EStateM.final (advanceRoundTC tc) x).currentRound) := by
  cases tc with
  | none => simp [advanceRoundTC, EStateM.final]
  | some c =>
    obtain ⟨timeout, htimeout, hwrap⟩ := hwf c rfl
    have hc : TimeoutCert.getRound (some c) = timeout.round := by
      simp [TimeoutCert.getRound, Timeout.getRound, htimeout]
    rw [hc]
    by_cases hlt : timeout.round < x.currentRound
    · simp [EStateM.final, advanceRoundTC_of_lt htimeout hlt, hlt]
    · have hle := UInt64.not_lt.mp hlt
      have hgt : x.currentRound < timeout.round + 1 :=
        UInt64.lt_of_le_of_lt hle (UInt64.lt_add_one_of_ne_zero hwrap)
      rw [EStateM.final, advanceRoundTC_of_le htimeout hle]
      -- the round moved, so the pacemaker is not the one called
      have hne : (({ x with lastRoundTC := some c } : Pacemaker V).startNewRound
          (timeout.round + 1)) ≠ x := fun h =>
        UInt64.lt_irrefl _ (h ▸ hgt : x.currentRound < x.currentRound)
      exact ⟨by simp [hne, hlt], fun _ => ⟨rfl, hgt⟩⟩

end Pacemaker

/-! ### The invariant of a run -/

section Invariant

variable {V : Type} [DecidableEq V] {sha256 : Bytes → V} {enc : Encoding} {hex : V → String}

variable (sha256 enc) in
/-- What a pacemaker holds after a run from `Reset` that the tally describes. -/
structure PmInv (t : PmTally) (x : Pacemaker V) : Prop where
  /-- the rounds continued from grow, and the current round is the one after the last -/
  chain : t.rounds.IsChain (· < ·)
  last : t.rounds.getLast? = some (x.currentRound - 1)
  current_ne : x.currentRound ≠ 0
  /-- the last round TC is the latest change's, for the round before the current -/
  lastTC : x.lastRoundTC = t.lastTC
  lastTC_round : ∀ tc, t.lastTC = some tc → TimeoutCert.getRound (some tc) + 1 = x.currentRound
  /-- the register holds the votes accepted since the latest change, all of the current round -/
  reg : RegInv sha256 enc t.votes x.pendingVotes
  votes_round : ∀ w ∈ t.votes, RoundInfo.getRound w.voteInfo = x.currentRound
  /-- and the timeout votes accepted since, in its certificate -/
  tc_none : x.pendingVotes.timeoutCert = none → t.timeouts = []
  tc_some : ∀ c, x.pendingVotes.timeoutCert = some c → TcInv t.timeouts c
  /-- each QC returned certified the round it was returned in, from the votes of that round -/
  quorums : ∀ p ∈ t.quorums, QuorumCert.getRound (some p.1) = p.2.1 ∧
    (∀ w ∈ p.2.2, RoundInfo.getRound w.voteInfo = p.2.1) ∧ ∃ id, Bucket sha256 enc p.2.2 id p.1
  /-- each TC returned holds the timeout votes accepted in its round, all for one round -/
  certs : ∀ p ∈ t.certs, TcInv p.2 p.1

/-- The register's maps decide `RegInv`; its timeout certificate does not enter. -/
theorem RegInv.of_maps {acc : List VoteMsg} {v v' : VoteRegister V}
    (h : RegInv sha256 enc acc v) (hmap : v'.hashToSignatures = v.hashToSignatures)
    (hauthor : v'.authorToVote = v.authorToVote) : RegInv sha256 enc acc v' where
  nodup := h.nodup
  author a := hauthor ▸ h.author a
  present w hw id hid := hmap ▸ h.present w hw id hid
  bucket id q hq := h.bucket id q (hmap ▸ hq)

omit [DecidableEq V] in
/-- `InsertTimeoutVote` changes only the register's timeout certificate. -/
theorem insertTimeoutVote_maps (m : TimeoutMsg) (threshold : UInt64) (v : VoteRegister V) :
    (EStateM.final (insertTimeoutVote m threshold) v).hashToSignatures = v.hashToSignatures ∧
      (EStateM.final (insertTimeoutVote m threshold) v).authorToVote = v.authorToVote := by
  unfold insertTimeoutVote EStateM.final
  dsimp only
  cases (v.timeoutCert.getD ⟨m.timeout, ∅⟩).add m.author m.timeout m.signature with
  | error e => cases e <;> exact ⟨rfl, rfl⟩
  | ok tc =>
    dsimp only
    split_ifs <;> exact ⟨rfl, rfl⟩

/-- A round change: the tally continues from the certificate's round, and the pacemaker's
round, TC and register are those of the new round. -/
theorem PmInv.change {t : PmTally} {x y : Pacemaker V} (hinv : PmInv sha256 enc t x) {r : UInt64}
    {tc : Option TimeoutCert} (hle : x.currentRound ≤ r) (hwrap : r + 1 ≠ 0)
    (hround : y.currentRound = r + 1) (htc : y.lastRoundTC = tc)
    (htcRound : ∀ c, tc = some c → TimeoutCert.getRound (some c) = r)
    (hreg : y.pendingVotes = x.pendingVotes.reset) : PmInv sha256 enc (t.change r tc) y where
  chain := by
    refine hinv.chain.append (List.isChain_singleton r) fun a ha b hb => ?_
    rw [hinv.last, Option.mem_def, Option.some.injEq] at ha
    rw [List.head?_singleton, Option.mem_def, Option.some.injEq] at hb
    subst ha hb
    exact UInt64.lt_of_lt_of_le (UInt64.sub_one_lt hinv.current_ne) hle
  last := by simp [PmTally.change, hround]
  current_ne := hround ▸ hwrap
  lastTC := htc
  lastTC_round c hc := by rw [hround, htcRound c hc]
  reg := hreg ▸ RegInv.reset x.pendingVotes
  votes_round w hw := absurd hw List.not_mem_nil
  tc_none _ := rfl
  tc_some c hc := by rw [hreg] at hc; cases hc
  quorums := hinv.quorums
  certs := hinv.certs

/-- `Reset` makes the invariant, with the tally of its round. -/
theorem PmInv.reset (highQCRound : UInt64) (lastTc : Option TimeoutCert) (lastVote : LastVote)
    (x : Pacemaker V) (hwrap : Pacemaker.resetRound highQCRound lastTc + 1 ≠ 0) :
    PmInv sha256 enc (PmTally.start highQCRound lastTc)
      (EStateM.final (Pacemaker.reset highQCRound lastTc lastVote) x) := by
  obtain ⟨hround, htc, hreg⟩ := Pacemaker.final_reset highQCRound lastTc lastVote x
  refine ⟨List.isChain_singleton _, ?_, hround ▸ hwrap, htc, fun c hc => ?_, hreg ▸ RegInv.reset _,
    fun w hw => absurd hw List.not_mem_nil, fun _ => rfl, fun c hc => ?_, fun p hp => absurd hp List.not_mem_nil,
    fun p hp => absurd hp List.not_mem_nil⟩
  · simp [PmTally.start, hround]
  · -- a TC is kept only when it is later than the high QC, and then it is the round's
    rw [hround]
    change Pacemaker.resetTC highQCRound lastTc = some c at hc
    unfold Pacemaker.resetTC at hc
    unfold Pacemaker.resetRound
    by_cases hlt : highQCRound < TimeoutCert.getRound lastTc
    · rw [if_pos hlt] at hc ⊢
      rw [hc]
    · rw [if_neg hlt] at hc
      cases hc
  · rw [hreg] at hc
    cases hc

/-- An `AdvanceRoundQC` keeps the invariant, and the round does not go back. -/
theorem PmInv.advanceRoundQC {t : PmTally} {x : Pacemaker V} (hinv : PmInv sha256 enc t x)
    {qc : Option QuorumCert} (hwf : (PacemakerCall.advanceRoundQC qc).WellFormed) :
    PmInv sha256 enc (Pacemaker.stepCall sha256 enc hex (.advanceRoundQC qc) (t, x)).1
        (Pacemaker.stepCall sha256 enc hex (.advanceRoundQC qc) (t, x)).2 ∧
      x.currentRound ≤ (Pacemaker.stepCall sha256 enc hex (.advanceRoundQC qc) (t, x)).2.currentRound := by
  cases qc with
  | none => exact ⟨hinv, UInt64.le_refl _⟩
  | some q =>
    obtain ⟨⟨info, hinfo, hwrap⟩, hcommit⟩ := hwf q rfl
    obtain ⟨commitInfo, hcommit⟩ := Option.isSome_iff_exists.mp hcommit
    by_cases hlt : info.roundNumber < x.currentRound
    · -- an older QC is ignored
      simp only [Pacemaker.stepCall, Pacemaker.advanceRoundQC_of_lt hinfo hlt]
      exact ⟨hinv, UInt64.le_refl _⟩
    · -- the round after the QC's starts
      have hle := UInt64.not_lt.mp hlt
      obtain ⟨y, hy, hround, htc, hreg⟩ := Pacemaker.advanceRoundQC_of_le hinfo hcommit hle
      have hq : QuorumCert.getRound (some q) = info.roundNumber := by
        simp [QuorumCert.getRound, RoundInfo.getRound, hinfo]
      simp only [Pacemaker.stepCall, hy, hq]
      refine ⟨hinv.change hle hwrap hround htc (fun c hc => by cases hc) hreg, ?_⟩
      rw [hround]
      exact UInt64.le_of_lt (UInt64.lt_of_le_of_lt hle (UInt64.lt_add_one_of_ne_zero hwrap))

/-- An `AdvanceRoundTC` keeps the invariant, and the round does not go back. -/
theorem PmInv.advanceRoundTC {t : PmTally} {x : Pacemaker V} (hinv : PmInv sha256 enc t x)
    {tc : Option TimeoutCert} (hwf : (PacemakerCall.advanceRoundTC tc).WellFormed) :
    PmInv sha256 enc (Pacemaker.stepCall sha256 enc hex (.advanceRoundTC tc) (t, x)).1
        (Pacemaker.stepCall sha256 enc hex (.advanceRoundTC tc) (t, x)).2 ∧
      x.currentRound ≤ (Pacemaker.stepCall sha256 enc hex (.advanceRoundTC tc) (t, x)).2.currentRound := by
  cases tc with
  | none => exact ⟨hinv, UInt64.le_refl _⟩
  | some c =>
    obtain ⟨timeout, htimeout, hwrap⟩ := hwf c rfl
    by_cases hlt : timeout.round < x.currentRound
    · -- an older TC is ignored
      simp only [Pacemaker.stepCall, htimeout, if_pos hlt, EStateM.final,
        Pacemaker.advanceRoundTC_of_lt htimeout hlt]
      exact ⟨hinv, UInt64.le_refl _⟩
    · -- the round after the TC's starts, with the TC as the round's
      have hle := UInt64.not_lt.mp hlt
      simp only [Pacemaker.stepCall, htimeout, if_neg hlt, EStateM.final,
        Pacemaker.advanceRoundTC_of_le htimeout hle]
      refine ⟨hinv.change hle hwrap rfl rfl (fun c' hc' => ?_) rfl, ?_⟩
      · cases hc'
        simp [TimeoutCert.getRound, Timeout.getRound, htimeout]
      · exact UInt64.le_of_lt (UInt64.lt_of_le_of_lt hle (UInt64.lt_add_one_of_ne_zero hwrap))

/-- A `RegisterVote` keeps the invariant: an accepted vote is of the current round, and a QC
returned is its bucket over the votes accepted since the round change. -/
theorem PmInv.registerVote {t : PmTally} {x : Pacemaker V} (hinv : PmInv sha256 enc t x)
    (vote : VoteMsg) (threshold : UInt64) :
    PmInv sha256 enc (Pacemaker.stepCall sha256 enc hex (.registerVote vote threshold) (t, x)).1
        (Pacemaker.stepCall sha256 enc hex (.registerVote vote threshold) (t, x)).2 ∧
      x.currentRound ≤
        (Pacemaker.stepCall sha256 enc hex (.registerVote vote threshold) (t, x)).2.currentRound := by
  cases h : Pacemaker.registerVote sha256 enc hex vote threshold x with
  | error e y =>
    simp only [Pacemaker.stepCall, h, Pacemaker.registerVote_eq_error h]
    exact ⟨hinv, UInt64.le_refl _⟩
  | ok r y =>
    obtain ⟨hvround, hins, hround, htc⟩ := Pacemaker.registerVote_eq_ok h
    have hreg := hinv.reg.insertVote hins
    -- the register's timeout certificate does not move
    have htcert : y.pendingVotes.timeoutCert = x.pendingVotes.timeoutCert := by
      obtain ⟨id, -, -, hstore, -⟩ := insertVote_eq_ok hins
      rw [hstore]
      rfl
    have hvotes : ∀ w ∈ t.votes ++ [vote], RoundInfo.getRound w.voteInfo = y.currentRound := by
      intro w hw
      rw [hround]
      rcases List.mem_append.mp hw with hw | hw
      · exact hinv.votes_round w hw
      · rw [List.mem_singleton.mp hw]
        exact hvround
    have hrest : PmInv sha256 enc { t with votes := t.votes ++ [vote] } y :=
      { chain := hinv.chain
        last := hround ▸ hinv.last
        current_ne := hround ▸ hinv.current_ne
        lastTC := htc ▸ hinv.lastTC
        lastTC_round := fun c hc => hround ▸ hinv.lastTC_round c hc
        reg := hreg
        votes_round := hvotes
        tc_none := fun hn => hinv.tc_none (htcert ▸ hn)
        tc_some := fun c hc => hinv.tc_some c (htcert ▸ hc)
        quorums := hinv.quorums
        certs := hinv.certs }
    cases r with
    | none =>
      simp only [Pacemaker.stepCall, h]
      exact ⟨hrest, hround ▸ UInt64.le_refl _⟩
    | some qc =>
      simp only [Pacemaker.stepCall, h]
      obtain ⟨-, id, hbucket⟩ := hinv.reg.insertVote_quorum hins
      -- the QC takes its vote info from one of the votes, all of the current round
      have hqround : QuorumCert.getRound (some qc) = x.currentRound := by
        obtain ⟨w, hw, hvi, -⟩ := hbucket.first
        rw [← hround, ← hvotes w (List.mem_of_find?_eq_some hw)]
        simp [QuorumCert.getRound, hvi]
      refine ⟨{ hrest with quorums := fun p hp => ?_ }, hround ▸ UInt64.le_refl _⟩
      rcases List.mem_append.mp hp with hp | hp
      · exact hinv.quorums p hp
      · rw [List.mem_singleton.mp hp]
        exact ⟨hqround, fun w hw => hround ▸ hvotes w hw, id, hbucket⟩

/-- A well-formed timeout vote is added to a certificate made from it. -/
theorem add_fresh_of_wellFormed {vote : TimeoutMsg} {threshold : UInt64}
    (hwf : (PacemakerCall.registerTimeoutVote vote threshold).WellFormed) :
    ∃ x', (TimeoutCert.mk vote.timeout ∅).add vote.author vote.timeout vote.signature = .ok x' := by
  obtain ⟨timeout, hqcRound, htimeout, hq⟩ := hwf
  rw [htimeout]
  exact ⟨_, TimeoutCert.add_fresh hq _ _⟩

/-- A `RegisterTimeoutVote` keeps the invariant: an accepted vote joins the certificate, and a
certificate returned holds the timeout votes accepted since the round change. -/
theorem PmInv.registerTimeoutVote {t : PmTally} {x : Pacemaker V} (hinv : PmInv sha256 enc t x)
    {vote : TimeoutMsg} {threshold : UInt64}
    (hwf : (PacemakerCall.registerTimeoutVote vote threshold).WellFormed) :
    PmInv sha256 enc (Pacemaker.stepCall sha256 enc hex (.registerTimeoutVote vote threshold) (t, x)).1
        (Pacemaker.stepCall sha256 enc hex (.registerTimeoutVote vote threshold) (t, x)).2 ∧
      x.currentRound ≤
        (Pacemaker.stepCall sha256 enc hex (.registerTimeoutVote vote threshold) (t, x)).2.currentRound := by
  have hmaps := insertTimeoutVote_maps vote threshold x.pendingVotes
  cases h : Pacemaker.registerTimeoutVote vote threshold x with
  | error e y =>
    simp only [Pacemaker.stepCall, h]
    obtain ⟨⟨e', hins⟩, hround, htc⟩ := Pacemaker.registerTimeoutVote_eq_error h
    obtain ⟨⟨e'', hadd⟩, htcert⟩ := insertTimeoutVote_eq_error hins
    rw [EStateM.final, hins] at hmaps
    -- the register had a certificate, since a fresh one takes the vote
    obtain ⟨c, hc⟩ : ∃ c, x.pendingVotes.timeoutCert = some c := by
      cases hx : x.pendingVotes.timeoutCert with
      | none =>
        obtain ⟨x', hx'⟩ := add_fresh_of_wellFormed hwf
        rw [hx, Option.getD_none, hx'] at hadd
        cases hadd
      | some c => exact ⟨c, rfl⟩
    rw [hc, Option.getD_some] at htcert
    refine ⟨{ chain := hinv.chain
              last := hround ▸ hinv.last
              current_ne := hround ▸ hinv.current_ne
              lastTC := htc ▸ hinv.lastTC
              lastTC_round := fun c hc => hround ▸ hinv.lastTC_round c hc
              reg := hinv.reg.of_maps hmaps.1 hmaps.2
              votes_round := fun w hw => hround ▸ hinv.votes_round w hw
              tc_none := fun hn => by rw [htcert] at hn; cases hn
              tc_some := fun c' hc' => ?_
              quorums := hinv.quorums
              certs := hinv.certs }, hround ▸ UInt64.le_refl _⟩
    rw [htcert, Option.some.injEq] at hc'
    exact hc' ▸ hinv.tc_some c hc
  | ok r y =>
    obtain ⟨⟨n, hins⟩, hround, htc⟩ := Pacemaker.registerTimeoutVote_eq_ok h
    obtain ⟨tc, hadd, htcert, hr⟩ := insertTimeoutVote_eq_ok hins
    rw [EStateM.final, hins] at hmaps
    -- the vote joins the register's certificate, or the one made from it
    have htcinv : TcInv (t.timeouts ++ [vote]) tc := by
      cases hx : x.pendingVotes.timeoutCert with
      | none =>
        rw [hx, Option.getD_none] at hadd
        rw [hinv.tc_none hx, List.nil_append]
        exact TcInv.fresh hadd
      | some c =>
        rw [hx, Option.getD_some] at hadd
        exact (hinv.tc_some c hx).add hadd
    have hrest : PmInv sha256 enc { t with timeouts := t.timeouts ++ [vote] } y :=
      { chain := hinv.chain
        last := hround ▸ hinv.last
        current_ne := hround ▸ hinv.current_ne
        lastTC := htc ▸ hinv.lastTC
        lastTC_round := fun c hc => hround ▸ hinv.lastTC_round c hc
        reg := hinv.reg.of_maps hmaps.1 hmaps.2
        votes_round := fun w hw => hround ▸ hinv.votes_round w hw
        tc_none := fun hn => by rw [htcert] at hn; cases hn
        tc_some := fun c hc => by rw [htcert, Option.some.injEq] at hc; exact hc ▸ htcinv
        quorums := hinv.quorums
        certs := hinv.certs }
    cases r with
    | none =>
      simp only [Pacemaker.stepCall, h]
      exact ⟨hrest, hround ▸ UInt64.le_refl _⟩
    | some tc' =>
      simp only [Pacemaker.stepCall, h]
      obtain ⟨rfl, -⟩ := hr tc' rfl
      refine ⟨{ hrest with certs := fun p hp => ?_ }, hround ▸ UInt64.le_refl _⟩
      rcases List.mem_append.mp hp with hp | hp
      · exact hinv.certs p hp
      · rw [List.mem_singleton.mp hp]
        exact htcinv

variable (hex) in
/-- Every well-formed call keeps the invariant, and the round does not go back. -/
theorem PmInv.stepCall {t : PmTally} {x : Pacemaker V} (hinv : PmInv sha256 enc t x)
    {c : PacemakerCall} (hwf : c.WellFormed) :
    PmInv sha256 enc (Pacemaker.stepCall sha256 enc hex c (t, x)).1
        (Pacemaker.stepCall sha256 enc hex c (t, x)).2 ∧
      x.currentRound ≤ (Pacemaker.stepCall sha256 enc hex c (t, x)).2.currentRound := by
  cases c with
  | advanceRoundQC qc => exact hinv.advanceRoundQC hwf
  | advanceRoundTC tc => exact hinv.advanceRoundTC hwf
  | registerVote vote threshold => exact hinv.registerVote vote threshold
  | registerTimeoutVote vote threshold => exact hinv.registerTimeoutVote hwf

variable (hex) in
/-- Every run of well-formed calls keeps the invariant, and the round does not go back. -/
theorem PmInv.runCalls :
    ∀ (calls : List PacemakerCall) {t : PmTally} {x : Pacemaker V}, (∀ c ∈ calls, c.WellFormed) →
      PmInv sha256 enc t x →
      PmInv sha256 enc (Pacemaker.runCalls sha256 enc hex calls (t, x)).1
          (Pacemaker.runCalls sha256 enc hex calls (t, x)).2 ∧
        x.currentRound ≤ (Pacemaker.runCalls sha256 enc hex calls (t, x)).2.currentRound
  | [], _, _, _, hinv => ⟨hinv, UInt64.le_refl _⟩
  | c :: cs, _, _, hwf, hinv => by
    obtain ⟨hinv', hle⟩ := hinv.stepCall hex (hwf c List.mem_cons_self)
    obtain ⟨hinv'', hle'⟩ :=
      PmInv.runCalls cs (fun c' hc' => hwf c' (List.mem_cons_of_mem _ hc')) hinv'
    exact ⟨hinv'', UInt64.le_trans hle hle'⟩

/-- Every round continued from is below the current round: the current round is one more than
the largest, the last. -/
theorem PmInv.round_lt {t : PmTally} {x : Pacemaker V} (hinv : PmInv sha256 enc t x) :
    ∀ r ∈ t.rounds, r < x.currentRound := by
  obtain ⟨ys, hys⟩ := List.getLast?_eq_some_iff.mp hinv.last
  have hpw := hinv.chain.pairwise
  rw [hys, List.pairwise_append] at hpw
  have hlast : x.currentRound - 1 < x.currentRound := UInt64.sub_one_lt hinv.current_ne
  intro r hr
  rw [hys, List.mem_append, List.mem_singleton] at hr
  rcases hr with hr | rfl
  · exact UInt64.lt_trans (hpw.2.2 r hr _ (List.mem_singleton_self _)) hlast
  · exact hlast

variable (sha256 enc hex) in
/-- A run of well-formed calls after `Reset` keeps the invariant. -/
theorem PmInv.resetThenRun (highQCRound : UInt64) (lastTc : Option TimeoutCert)
    (lastVote : LastVote) (calls : List PacemakerCall) (x : Pacemaker V)
    (hwrap : Pacemaker.resetRound highQCRound lastTc + 1 ≠ 0) (hwf : ∀ c ∈ calls, c.WellFormed) :
    PmInv sha256 enc (Pacemaker.resetThenRun sha256 enc hex highQCRound lastTc lastVote calls x).1
      (Pacemaker.resetThenRun sha256 enc hex highQCRound lastTc lastVote calls x).2 :=
  (PmInv.runCalls hex calls hwf (PmInv.reset highQCRound lastTc lastVote x hwrap)).1

end Invariant

/-- A call only adds to the rounds continued from. -/
theorem stepCall_rounds {V : Type} [DecidableEq V] (sha256 : Bytes → V) (enc : Encoding)
    (hex : V → String) (c : PacemakerCall) (s : PmTally × Pacemaker V) :
    s.1.rounds <+: (Pacemaker.stepCall sha256 enc hex c s).1.rounds := by
  obtain ⟨t, x⟩ := s
  cases c with
  | advanceRoundQC qc =>
    simp only [Pacemaker.stepCall]
    split <;> simp [PmTally.change]
  | advanceRoundTC tc =>
    simp only [Pacemaker.stepCall]
    split
    · split
      · split <;> simp [PmTally.change]
      · exact List.prefix_refl _
    · exact List.prefix_refl _
  | registerVote vote threshold =>
    simp only [Pacemaker.stepCall]
    split <;> exact List.prefix_refl _
  | registerTimeoutVote vote threshold =>
    simp only [Pacemaker.stepCall]
    split <;> exact List.prefix_refl _

theorem runCalls_rounds {V : Type} [DecidableEq V] (sha256 : Bytes → V) (enc : Encoding)
    (hex : V → String) :
    ∀ (calls : List PacemakerCall) (s : PmTally × Pacemaker V),
      s.1.rounds <+: (Pacemaker.runCalls sha256 enc hex calls s).1.rounds
  | [], _ => List.prefix_refl _
  | c :: cs, s => (stepCall_rounds sha256 enc hex c s).trans (runCalls_rounds sha256 enc hex cs _)

/-! ### What a run after `Reset` shows -/

theorem pacemaker_round_coherence {V : Type} [DecidableEq V] (sha256 : Bytes → V)
    (enc : Encoding) (hex : V → String) (highQCRound : UInt64) (lastTc : Option TimeoutCert)
    (lastVote : LastVote) (calls : List PacemakerCall) (x : Pacemaker V)
    (hwrap : Pacemaker.resetRound highQCRound lastTc + 1 ≠ 0) (hwf : ∀ c ∈ calls, c.WellFormed) :
    -- the rounds continued from start with the reset's and grow; the current round is one more
    -- than the largest of them
    (Pacemaker.resetThenRun sha256 enc hex highQCRound lastTc lastVote calls x).1.rounds.head? =
        some (Pacemaker.resetRound highQCRound lastTc) ∧
      (Pacemaker.resetThenRun sha256 enc hex highQCRound lastTc lastVote calls x).1.rounds.IsChain
        (· < ·) ∧
      (∀ r ∈ (Pacemaker.resetThenRun sha256 enc hex highQCRound lastTc lastVote calls x).1.rounds,
        r < (Pacemaker.resetThenRun sha256 enc hex highQCRound lastTc lastVote calls x).2.currentRound) ∧
      (Pacemaker.resetThenRun sha256 enc hex highQCRound lastTc lastVote calls x).2.currentRound - 1 ∈
        (Pacemaker.resetThenRun sha256 enc hex highQCRound lastTc lastVote calls x).1.rounds ∧
      -- the round never goes back
      (∀ pre post, calls = pre ++ post →
        (Pacemaker.resetThenRun sha256 enc hex highQCRound lastTc lastVote pre x).2.currentRound ≤
          (Pacemaker.resetThenRun sha256 enc hex highQCRound lastTc lastVote calls x).2.currentRound) ∧
      -- an advance is ignored exactly for a nil or older certificate, and one taken moves the round
      -- forward
      (∀ (y : Pacemaker V) qc, (PacemakerCall.advanceRoundQC qc).WellFormed →
        (Pacemaker.advanceRoundQC qc y = .ok false y ↔
            qc = none ∨ QuorumCert.getRound qc < y.currentRound) ∧
          ∀ y', Pacemaker.advanceRoundQC qc y = .ok true y' → y.currentRound < y'.currentRound) ∧
      (∀ (y : Pacemaker V) tc, (PacemakerCall.advanceRoundTC tc).WellFormed →
        (EStateM.final (Pacemaker.advanceRoundTC tc) y = y ↔
            tc = none ∨ TimeoutCert.getRound tc < y.currentRound) ∧
          (EStateM.final (Pacemaker.advanceRoundTC tc) y ≠ y →
            y.currentRound < (EStateM.final (Pacemaker.advanceRoundTC tc) y).currentRound)) ∧
      -- the last round TC is the latest round change's, for the round before the current one
      (Pacemaker.resetThenRun sha256 enc hex highQCRound lastTc lastVote calls x).2.lastRoundTC =
        (Pacemaker.resetThenRun sha256 enc hex highQCRound lastTc lastVote calls x).1.lastTC ∧
      (∀ tc, (Pacemaker.resetThenRun sha256 enc hex highQCRound lastTc lastVote calls x).2.lastRoundTC =
          some tc → TimeoutCert.getRound (some tc) + 1 =
            (Pacemaker.resetThenRun sha256 enc hex highQCRound lastTc lastVote calls x).2.currentRound) ∧
      -- each QC returned certifies the round it was returned in, from the votes of that round
      -- accepted since the round change
      (∀ p ∈ (Pacemaker.resetThenRun sha256 enc hex highQCRound lastTc lastVote calls x).1.quorums,
        QuorumCert.getRound (some p.1) = p.2.1 ∧ (∀ w ∈ p.2.2, RoundInfo.getRound w.voteInfo = p.2.1) ∧
          ∃ id, Bucket sha256 enc p.2.2 id p.1) ∧
      -- each TC returned holds the timeout votes accepted since the round change, for one round
      ∀ p ∈ (Pacemaker.resetThenRun sha256 enc hex highQCRound lastTc lastVote calls x).1.certs,
        TcInv p.2 p.1 := by
  have hinv := PmInv.resetThenRun sha256 enc hex highQCRound lastTc lastVote calls x hwrap hwf
  -- the run only adds to the reset's round
  have hhead : (Pacemaker.resetThenRun sha256 enc hex highQCRound lastTc lastVote calls x).1.rounds.head? =
      some (Pacemaker.resetRound highQCRound lastTc) := by
    obtain ⟨l, hl⟩ := runCalls_rounds sha256 enc hex calls
      (PmTally.start highQCRound lastTc, EStateM.final (Pacemaker.reset highQCRound lastTc lastVote) x)
    rw [Pacemaker.resetThenRun, ← hl]
    rfl
  have hmono : ∀ pre post, calls = pre ++ post →
      (Pacemaker.resetThenRun sha256 enc hex highQCRound lastTc lastVote pre x).2.currentRound ≤
        (Pacemaker.resetThenRun sha256 enc hex highQCRound lastTc lastVote calls x).2.currentRound := by
    rintro pre post rfl
    have hpre := PmInv.resetThenRun sha256 enc hex highQCRound lastTc lastVote pre x hwrap
      fun c hc => hwf c (List.mem_append_left _ hc)
    rw [Pacemaker.resetThenRun_append]
    exact (PmInv.runCalls hex post (fun c hc => hwf c (List.mem_append_right _ hc)) hpre).2
  refine ⟨hhead, hinv.chain, hinv.round_lt, ?_, hmono, fun y qc hq => ?_, fun y tc htc => ?_,
    hinv.lastTC, fun tc htc => hinv.lastTC_round tc (hinv.lastTC ▸ htc), hinv.quorums, hinv.certs⟩
  · exact List.mem_of_getLast? hinv.last
  · obtain ⟨hiff, hstep⟩ := Pacemaker.advanceRoundQC_accepted hq y
    exact ⟨hiff, fun y' hy' => (hstep y' hy').2⟩
  · obtain ⟨hiff, hstep⟩ := Pacemaker.advanceRoundTC_accepted htc y
    exact ⟨hiff, fun hne => (hstep hne).2⟩

/-- The QC of `round` over the round before, which commits a state. -/
def roundQc (round : UInt64) : QuorumCert :=
  ⟨some ⟨round, 0, 0, round - 1, []⟩, some ⟨0, [], 1, 0, 0, []⟩, ∅⟩

/-- The timeout vote of `author` for round 3, on the genesis QC. -/
def roundThreeTimeout (author : String) : TimeoutMsg :=
  ⟨some ⟨0, 3, some genesisQc⟩, author, [], none⟩

/-- A TC of round 3, on the genesis QC. -/
def roundThreeTc : TimeoutCert := ⟨some ⟨0, 3, some genesisQc⟩, ∅⟩

/-- A run over the rounds 2 to 4, with threshold two: the votes of `a`, `b` and `a` again for
round 2, the second of which returns a QC and the third is refused, the QC of round 2, the
timeout votes of `a` and `c` for round 3, the second of which returns a TC, and a TC of
round 3. -/
def mixedCalls : List PacemakerCall :=
  [.registerVote (roundTwoVote "a") 2, .registerVote (roundTwoVote "b") 2,
    .registerVote (roundTwoVote "a") 2, .advanceRoundQC (some (roundQc 2)),
    .registerTimeoutVote (roundThreeTimeout "a") 2, .registerTimeoutVote (roundThreeTimeout "c") 2,
    .advanceRoundTC (some roundThreeTc)]

/-- After `Reset` on a high QC of round 1, the run of `mixedCalls` changes rounds by the QC and
by the TC, and returns one QC and one TC. -/
theorem pacemaker_round_coherence_mixedCalls :
    Pacemaker.resetRound 1 none + 1 ≠ 0 ∧ (∀ c ∈ mixedCalls, c.WellFormed) ∧
    let run := Pacemaker.resetThenRun id sealEncoding (fun _ => "") 1 none .other mixedCalls
      (Pacemaker.new : Pacemaker Bytes)
    (run.1.rounds = [1, 2, 3] ∧ run.2.currentRound = 4 ∧ run.1.quorums.length = 1 ∧
      run.1.certs.length = 1) ∧
    run.1.rounds.head? = some (Pacemaker.resetRound 1 none) ∧ run.1.rounds.IsChain (· < ·) ∧
      (∀ r ∈ run.1.rounds, r < run.2.currentRound) ∧ run.2.currentRound - 1 ∈ run.1.rounds ∧
      (∀ pre post, mixedCalls = pre ++ post →
        (Pacemaker.resetThenRun id sealEncoding (fun _ => "") 1 none .other pre
          (Pacemaker.new : Pacemaker Bytes)).2.currentRound ≤ run.2.currentRound) ∧
      (∀ (y : Pacemaker Bytes) qc, (PacemakerCall.advanceRoundQC qc).WellFormed →
        (Pacemaker.advanceRoundQC qc y = .ok false y ↔
            qc = none ∨ QuorumCert.getRound qc < y.currentRound) ∧
          ∀ y', Pacemaker.advanceRoundQC qc y = .ok true y' → y.currentRound < y'.currentRound) ∧
      (∀ (y : Pacemaker Bytes) tc, (PacemakerCall.advanceRoundTC tc).WellFormed →
        (EStateM.final (Pacemaker.advanceRoundTC tc) y = y ↔
            tc = none ∨ TimeoutCert.getRound tc < y.currentRound) ∧
          (EStateM.final (Pacemaker.advanceRoundTC tc) y ≠ y →
            y.currentRound < (EStateM.final (Pacemaker.advanceRoundTC tc) y).currentRound)) ∧
      run.2.lastRoundTC = run.1.lastTC ∧
      (∀ tc, run.2.lastRoundTC = some tc →
        TimeoutCert.getRound (some tc) + 1 = run.2.currentRound) ∧
      (∀ p ∈ run.1.quorums, QuorumCert.getRound (some p.1) = p.2.1 ∧
        (∀ w ∈ p.2.2, RoundInfo.getRound w.voteInfo = p.2.1) ∧ ∃ i, Bucket id sealEncoding p.2.2 i p.1) ∧
      ∀ p ∈ run.1.certs, TcInv p.2 p.1 := by
  have hwrap : Pacemaker.resetRound 1 none + 1 ≠ 0 := by decide
  have hwf : ∀ c ∈ mixedCalls, c.WellFormed := by
    intro c hc
    simp only [mixedCalls, List.mem_cons, List.not_mem_nil, or_false] at hc
    rcases hc with rfl | rfl | rfl | rfl | rfl | rfl | rfl
    · trivial
    · trivial
    · trivial
    · intro q hq
      rw [Option.mem_def, Option.some.injEq] at hq
      subst hq
      exact ⟨⟨_, rfl, by decide⟩, rfl⟩
    · exact ⟨_, _, rfl, rfl⟩
    · exact ⟨_, _, rfl, rfl⟩
    · intro c hc
      rw [Option.mem_def, Option.some.injEq] at hc
      subst hc
      exact ⟨_, rfl, by decide⟩
  exact ⟨hwrap, hwf, ⟨rfl, rfl, rfl, rfl⟩, pacemaker_round_coherence id sealEncoding (fun _ => "") 1
    none .other mixedCalls (Pacemaker.new : Pacemaker Bytes) hwrap hwf⟩

/-- A QC of the largest round is taken, and the current round wraps to `0`: after `Reset` on a
high QC of round 5 the current round is 6, and the QC of round `2^64 - 1` moves it to 0. -/
theorem pacemaker_round_wraps :
    (EStateM.final (Pacemaker.reset 5 none .other) (Pacemaker.new : Pacemaker Bytes)).currentRound = 6 ∧
      EStateM.returned (Pacemaker.advanceRoundQC (some (roundQc 18446744073709551615)))
        (EStateM.final (Pacemaker.reset 5 none .other) (Pacemaker.new : Pacemaker Bytes)) = some true ∧
      (EStateM.final (Pacemaker.advanceRoundQC (some (roundQc 18446744073709551615)))
        (EStateM.final (Pacemaker.reset 5 none .other)
          (Pacemaker.new : Pacemaker Bytes))).currentRound = 0 :=
  ⟨rfl, rfl, rfl⟩

end BftCore.Rootchain
