import BftCore.Rootchain.Types
import BftCore.Lib.UInt64
import BftCore.Lib.Wp

/-!
# `rootchain/consensus`: the safety module

`safety_module.go`: a root validator signs a vote only through `MakeVote` and a timeout only
through `SignTimeout`, each of which checks its rules against two rounds kept in persistent
storage and raises them before signing.

* `SafetyStorage`: the highest voted round and the highest QC round, which `BoltDB` raises by
  `max` (`setHighestVotedRound`, `setHighestQcRound`);
* `isSafeToVote`, `isSafeToTimeout`, `isCommitCandidate`, `constructCommitInfo`, `makeVote`,
  `signTimeout`: the methods of the code;
* `SafetyCall`, `signedCalls`: sequences of calls, and the calls among them that succeeded;
* `voting_discipline`: over every sequence, the rounds of successful votes increase, no vote
  follows a timeout of its round or a later one, a vote that does not extend the previous round
  extends a TC of that round, a timeout's high QC is at least the QC of every earlier vote and
  below the timeout's round, and the stored rounds never decrease.

The signer and the encodings of votes (`Encoding`) are parameters.  The
storage's own failures are left out: its updates always succeed.
-/

namespace BftCore.Rootchain

open BftCore.State (Bytes)
open EStateM

/-- The rounds the safety module keeps in persistent storage. -/
structure SafetyStorage where
  highestVotedRound : UInt64
  highestQcRound : UInt64
  deriving DecidableEq

namespace SafetyStorage

/-- `BoltDB.SetHighestVotedRound`: the voted round is raised to `round`. -/
def setHighestVotedRound (round : UInt64) (s : SafetyStorage) : SafetyStorage :=
  { s with highestVotedRound := max round s.highestVotedRound }

/-- `BoltDB.SetHighestQcRound`: the QC round is raised to `qcRound` and the voted round to
`votedRound`. -/
def setHighestQcRound (qcRound votedRound : UInt64) (s : SafetyStorage) : SafetyStorage :=
  ⟨max votedRound s.highestVotedRound, max qcRound s.highestQcRound⟩

/-- Both rounds of `s` are at most those of `s'`. -/
protected def Le (s s' : SafetyStorage) : Prop :=
  s.highestVotedRound ≤ s'.highestVotedRound ∧ s.highestQcRound ≤ s'.highestQcRound

instance : LE SafetyStorage := ⟨SafetyStorage.Le⟩

theorem le_refl (s : SafetyStorage) : s ≤ s := ⟨UInt64.le_refl _, UInt64.le_refl _⟩

theorem le_trans {s s' s'' : SafetyStorage} (h : s ≤ s') (h' : s' ≤ s'') : s ≤ s'' :=
  ⟨UInt64.le_trans h.1 h'.1, UInt64.le_trans h.2 h'.2⟩

theorem le_setHighestVotedRound (round : UInt64) (s : SafetyStorage) :
    s ≤ s.setHighestVotedRound round :=
  ⟨UInt64.le_max_right _ _, UInt64.le_refl _⟩

theorem le_setHighestQcRound (qcRound votedRound : UInt64) (s : SafetyStorage) :
    s ≤ s.setHighestQcRound qcRound votedRound :=
  ⟨UInt64.le_max_right _ _, UInt64.le_max_right _ _⟩

end SafetyStorage

/-- `isConsecutive(blockRound, round)`: `blockRound` follows `round`. -/
def isConsecutive (blockRound round : UInt64) : Bool := round + 1 == blockRound

/-- `isSafeToVote(block, lastRoundTC)`: a round above the highest voted one, following the
block's QC, or following the last round's TC with a QC at least the TC's high QC. -/
def isSafeToVote (s : SafetyStorage) (block : BlockData) (lastRoundTC : Option TimeoutCert) :
    Except String Unit :=
  let blockRound := block.round
  let hvr := s.highestVotedRound
  if blockRound ≤ hvr then
    .error s!"already voted for round {blockRound}, last voted round {hvr}"
  else
    let qcRound := QuorumCert.getRound block.qc
    match lastRoundTC with
    | none =>
      if !isConsecutive blockRound qcRound then
        .error s!"block round {blockRound} does not extend from block qc round {qcRound}"
      else .ok ()
    | some _ =>
      let tcRound := TimeoutCert.getRound lastRoundTC
      let tcHqcRound := TimeoutCert.getHqcRound lastRoundTC
      if !isConsecutive blockRound tcRound then
        .error s!"block round {blockRound} does not extend timeout certificate round {tcRound}"
      else if qcRound < tcHqcRound then
        .error s!"block qc round {qcRound} is smaller than timeout certificate highest qc round {tcHqcRound}"
      else .ok ()

/-- `isSafeToTimeout(round, tmoHighQCRound, lastRoundTC)`: a high QC at least the highest QC
round and below the round, a round at least the highest voted one, following the high QC or
the last round's TC. -/
def isSafeToTimeout (s : SafetyStorage) (round tmoHighQCRound : UInt64)
    (lastRoundTC : Option TimeoutCert) : Except String Unit :=
  let hqc := s.highestQcRound
  if tmoHighQCRound < hqc then
    .error s!"timeout high qc round {tmoHighQCRound} is smaller than highest qc round {hqc} seen"
  else if round ≤ tmoHighQCRound then
    .error s!"timeout round {round} is in the past, timeout msg high qc is for round {tmoHighQCRound}"
  else
    let hvr := s.highestVotedRound
    if round < hvr then
      .error s!"timeout round {round} is in the past, already signed vote for round {hvr}"
    else
      let tcRound := TimeoutCert.getRound lastRoundTC
      if !isConsecutive round tmoHighQCRound && !isConsecutive round tcRound then
        .error s!"round {round} does not follow last qc round {tmoHighQCRound} or tc round {tcRound}"
      else .ok ()

/-- `isCommitCandidate(block)`, for a block whose QC has the vote info `parent`: a block of
the round after its QC's commits that round. -/
def isCommitCandidate (block : BlockData) (parent : RoundInfo) : Option RoundInfo :=
  if isConsecutive block.round parent.roundNumber then some parent else none

/-- `constructCommitInfo(block, voteInfoHash)`: the committed round, if any, and the hash of the
vote info. -/
def constructCommitInfo (network : UInt16) (block : BlockData) (parent : RoundInfo)
    (voteInfoHash : Bytes) : UnicitySeal :=
  match isCommitCandidate block parent with
  | none => ⟨0, voteInfoHash, 0, 0, 0, []⟩
  | some committedRound =>
    ⟨network, voteInfoHash, committedRound.roundNumber, committedRound.epoch,
      committedRound.timestamp, committedRound.currentRootHash⟩

/-- The fixed parts of a safety module and what it hands on: the network and the validator's
id, its signer, and the encodings of votes. -/
structure SafetyModule where
  network : UInt16
  peerID : String
  signBytes : Bytes → Except String Bytes
  encoding : Encoding

namespace SafetyModule

variable (sm : SafetyModule)

/-- `(*VoteMsg).Sign`: the signature of the commit info's `SigBytes`. -/
def signVote (commitInfo : UnicitySeal) : Except String Bytes :=
  if commitInfo.previousHash.length < 1 then .error "invalid round info hash"
  else
    match sm.signBytes (sm.encoding.sigBytes commitInfo) with
    | .error e => .error ("failed to sign vote: " ++ e)
    | .ok signature => .ok signature

/-- `(*TimeoutMsg).Sign`: the message, checked again, with the signature of its bytes. -/
def signTimeoutMsg (x : TimeoutMsg) : Except String TimeoutMsg :=
  match x.isValid with
  | .error e => .error ("timeout validation failed, " ++ e)
  | .ok () =>
    match x.timeout with
    -- not reached: a valid message has a timeout
    | none => .error "timeout validation failed, timeout info is nil"
    | some timeout =>
      match sm.signBytes (x.bytes timeout) with
      | .error e => .error ("sign error, " ++ e)
      | .ok signature => .ok { x with signature := signature }

/-- `MakeVote(block, execStateID, highQC, lastRoundTC)`: the vote rules are checked, both
stored rounds raised, and the commit info built and signed.  The QC's vote info is read
through its pointer, which panics when it is nil. -/
def makeVote (block : BlockData) (execStateID : Bytes) (highQC : Option QuorumCert)
    (lastRoundTC : Option TimeoutCert) : EStateM ConsensusError SafetyStorage VoteMsg := fun s =>
  match block.qc with
  | none => .error (.message "make vote error, block is missing quorum certificate") s
  | some qc =>
    match qc.voteInfo with
    | none => .error .panic s
    | some parent =>
      match isSafeToVote s block lastRoundTC with
      | .error e => .error (.message ("not safe to vote, " ++ e)) s
      | .ok () =>
        let s := s.setHighestQcRound parent.roundNumber block.round
        let voteInfo : RoundInfo :=
          ⟨block.round, block.epoch, block.timestamp, parent.roundNumber, execStateID⟩
        let ledgerCommitInfo :=
          constructCommitInfo sm.network block parent (sm.encoding.hashRoundInfo voteInfo)
        match sm.signVote ledgerCommitInfo with
        | .error e => .error (.message e) s
        | .ok signature => .ok ⟨some voteInfo, some ledgerCommitInfo, highQC, sm.peerID, signature⟩ s

/-- `SignTimeout(tmoVote, lastRoundTC)`: the message is checked, the timeout rules too, the
voted round raised to the timeout's round, and the message signed. -/
def signTimeout (tmoVote : TimeoutMsg) (lastRoundTC : Option TimeoutCert) :
    EStateM ConsensusError SafetyStorage TimeoutMsg := fun s =>
  match tmoVote.isValid with
  | .error e => .error (.message ("timeout message not valid, " ++ e)) s
  | .ok () =>
    let qcRound := Timeout.getHqcRound tmoVote.timeout
    let round := tmoVote.getRound
    match isSafeToTimeout s round qcRound lastRoundTC with
    | .error e => .error (.message ("not safe to time-out, " ++ e)) s
    | .ok () =>
      let s := s.setHighestVotedRound round
      match sm.signTimeoutMsg tmoVote with
      | .error e => .error (.message e) s
      | .ok signed => .ok signed s

end SafetyModule

/-! ### What the checks let through -/

/-- `isConsecutive` is `round + 1 = blockRound`, that is `round = blockRound - 1` in `uint64`. -/
theorem isConsecutive_iff {blockRound round : UInt64} :
    isConsecutive blockRound round = true ↔ round = blockRound - 1 := by
  unfold isConsecutive
  rw [beq_iff_eq]
  constructor
  · rintro rfl
    simp
  · rintro rfl
    simp

/-- A vote that `isSafeToVote` lets through is above the highest voted round, and one that does
not extend its QC's round extends a TC of the previous round, with a high QC at most its QC. -/
theorem isSafeToVote_ok {s : SafetyStorage} {block : BlockData} {lastRoundTC : Option TimeoutCert}
    (h : isSafeToVote s block lastRoundTC = .ok ()) :
    s.highestVotedRound < block.round ∧
      (QuorumCert.getRound block.qc ≠ block.round - 1 →
        lastRoundTC.isSome ∧ TimeoutCert.getRound lastRoundTC = block.round - 1 ∧
          TimeoutCert.getHqcRound lastRoundTC ≤ QuorumCert.getRound block.qc) := by
  unfold isSafeToVote at h
  dsimp only at h
  by_cases hvr : block.round ≤ s.highestVotedRound
  · rw [if_pos hvr] at h
    cases h
  rw [if_neg hvr] at h
  refine ⟨UInt64.not_le.mp hvr, fun hqc => ?_⟩
  cases lastRoundTC with
  | none =>
    -- no TC: the block must extend its QC
    by_cases hc : isConsecutive block.round (QuorumCert.getRound block.qc) = true
    · exact absurd (isConsecutive_iff.mp hc) hqc
    · simp [hc] at h
  | some tc =>
    -- a TC: the block extends it, with a QC at least its high QC
    by_cases hc : isConsecutive block.round (TimeoutCert.getRound (some tc)) = true
    · by_cases hlt : QuorumCert.getRound block.qc < TimeoutCert.getHqcRound (some tc)
      · simp [hc, hlt] at h
      · exact ⟨rfl, isConsecutive_iff.mp hc, UInt64.not_lt.mp hlt⟩
    · simp [hc] at h

/-- A timeout that `isSafeToTimeout` lets through has a high QC at least the highest QC round
and below its round, and a round at least the highest voted one. -/
theorem isSafeToTimeout_ok {s : SafetyStorage} {round tmoHighQCRound : UInt64}
    {lastRoundTC : Option TimeoutCert} (h : isSafeToTimeout s round tmoHighQCRound lastRoundTC = .ok ()) :
    s.highestQcRound ≤ tmoHighQCRound ∧ tmoHighQCRound < round ∧ s.highestVotedRound ≤ round := by
  unfold isSafeToTimeout at h
  dsimp only at h
  split_ifs at h with hq hr hv
  exact ⟨UInt64.not_lt.mp hq, UInt64.not_le.mp hr, UInt64.not_lt.mp hv⟩

namespace SafetyModule

variable (sm : SafetyModule)

/-- A vote is made only for a block with a QC and a vote info, that `isSafeToVote` lets
through; both stored rounds are then raised. -/
theorem makeVote_eq_ok {block : BlockData} {execStateID : Bytes} {highQC : Option QuorumCert}
    {lastRoundTC : Option TimeoutCert} {s s' : SafetyStorage} {v : VoteMsg}
    (h : sm.makeVote block execStateID highQC lastRoundTC s = .ok v s') :
    ∃ parent : RoundInfo, QuorumCert.getRound block.qc = parent.roundNumber ∧
      isSafeToVote s block lastRoundTC = .ok () ∧
      s' = s.setHighestQcRound parent.roundNumber block.round := by
  unfold makeVote at h
  split at h
  · cases h
  · rename_i qc hqc
    split at h
    · cases h
    · rename_i parent hparent
      split at h
      · cases h
      · rename_i hsafe
        dsimp only at h
        split at h
        · cases h
        · cases h
          exact ⟨parent, by simp [hqc, QuorumCert.getRound, RoundInfo.getRound, hparent], hsafe, rfl⟩

/-- A failed `MakeVote` leaves the stored rounds where they were or raised. -/
theorem makeVote_eq_error {block : BlockData} {execStateID : Bytes} {highQC : Option QuorumCert}
    {lastRoundTC : Option TimeoutCert} {s s' : SafetyStorage} {e : ConsensusError}
    (h : sm.makeVote block execStateID highQC lastRoundTC s = .error e s') : s ≤ s' := by
  unfold makeVote at h
  split at h
  · cases h
    exact SafetyStorage.le_refl s
  · split at h
    · cases h
      exact SafetyStorage.le_refl s
    · split at h
      · cases h
        exact SafetyStorage.le_refl s
      · dsimp only at h
        split at h
        · cases h
          exact SafetyStorage.le_setHighestQcRound _ _ s
        · cases h

/-- A timeout is signed only for a valid message that `isSafeToTimeout` lets through; the voted
round is then raised to its round. -/
theorem signTimeout_eq_ok {tmoVote : TimeoutMsg} {lastRoundTC : Option TimeoutCert}
    {s s' : SafetyStorage} {signed : TimeoutMsg}
    (h : sm.signTimeout tmoVote lastRoundTC s = .ok signed s') :
    isSafeToTimeout s tmoVote.getRound (Timeout.getHqcRound tmoVote.timeout) lastRoundTC = .ok () ∧
      s' = s.setHighestVotedRound tmoVote.getRound := by
  unfold signTimeout at h
  split at h
  · cases h
  · dsimp only at h
    split at h
    · cases h
    · rename_i hsafe
      split at h
      · cases h
      · cases h
        exact ⟨hsafe, rfl⟩

/-- A failed `SignTimeout` leaves the stored rounds where they were or raised. -/
theorem signTimeout_eq_error {tmoVote : TimeoutMsg} {lastRoundTC : Option TimeoutCert}
    {s s' : SafetyStorage} {e : ConsensusError}
    (h : sm.signTimeout tmoVote lastRoundTC s = .error e s') : s ≤ s' := by
  unfold signTimeout at h
  split at h
  · cases h
    exact SafetyStorage.le_refl s
  · dsimp only at h
    split at h
    · cases h
      exact SafetyStorage.le_refl s
    · split at h
      · cases h
        exact SafetyStorage.le_setHighestVotedRound _ s
      · cases h

end SafetyModule

/-! ### Sequences of calls -/

/-- A call on the safety module. -/
inductive SafetyCall where
  | makeVote (block : BlockData) (execStateID : Bytes) (highQC : Option QuorumCert)
      (lastRoundTC : Option TimeoutCert)
  | signTimeout (tmoVote : TimeoutMsg) (lastRoundTC : Option TimeoutCert)

namespace SafetyCall

/-- The call, its signed message dropped. -/
def run (sm : SafetyModule) : SafetyCall → EStateM ConsensusError SafetyStorage PUnit
  | .makeVote block execStateID highQC lastRoundTC =>
    dropResult (sm.makeVote block execStateID highQC lastRoundTC)
  | .signTimeout tmoVote lastRoundTC => dropResult (sm.signTimeout tmoVote lastRoundTC)

/-- The round a call signs for. -/
def round : SafetyCall → UInt64
  | .makeVote block .. => block.round
  | .signTimeout tmoVote _ => tmoVote.getRound

/-- What the stored rounds remember of a call that succeeded: its round is at most the highest
voted round, and a vote's QC round at most the highest QC round. -/
def Bounded (s : SafetyStorage) : SafetyCall → Prop
  | .makeVote block .. =>
    block.round ≤ s.highestVotedRound ∧ QuorumCert.getRound block.qc ≤ s.highestQcRound
  | .signTimeout tmoVote _ => tmoVote.getRound ≤ s.highestVotedRound

/-- How an earlier successful call stands to a later one: a vote is for a round above those of
all earlier votes and timeouts, and a timeout's high QC is at least the QC of every earlier
vote. -/
def Before : SafetyCall → SafetyCall → Prop
  | c, .makeVote block .. => c.round < block.round
  | .makeVote block .., .signTimeout tmoVote _ =>
    QuorumCert.getRound block.qc ≤ Timeout.getHqcRound tmoVote.timeout
  | .signTimeout .., .signTimeout .. => True

/-- What a successful call checked of its own inputs: a vote that does not extend the previous
round extends a TC for it whose high QC is at most the vote's QC, and a timeout's high QC is
below its round. -/
def Sound : SafetyCall → Prop
  | .makeVote block _ _ lastRoundTC =>
    QuorumCert.getRound block.qc ≠ block.round - 1 →
      lastRoundTC.isSome ∧ TimeoutCert.getRound lastRoundTC = block.round - 1 ∧
        TimeoutCert.getHqcRound lastRoundTC ≤ QuorumCert.getRound block.qc
  | .signTimeout tmoVote _ => Timeout.getHqcRound tmoVote.timeout < tmoVote.getRound

theorem Bounded.round_le {s : SafetyStorage} {c : SafetyCall} (h : c.Bounded s) :
    c.round ≤ s.highestVotedRound := by
  cases c with
  | makeVote => exact h.1
  | signTimeout => exact h

theorem Bounded.mono {s s' : SafetyStorage} {c : SafetyCall} (h : c.Bounded s) (hle : s ≤ s') :
    c.Bounded s' := by
  cases c with
  | makeVote => exact ⟨UInt64.le_trans h.1 hle.1, UInt64.le_trans h.2 hle.2⟩
  | signTimeout => exact UInt64.le_trans h hle.1

variable (sm : SafetyModule)

/-- **One successful call**: the stored rounds are raised and remember it, its own checks hold,
and it comes after every call the rounds remembered before. -/
theorem run_ok {c : SafetyCall} {s s' : SafetyStorage} {u : PUnit} (h : c.run sm s = .ok u s') :
    s ≤ s' ∧ c.Bounded s' ∧ c.Sound ∧ ∀ c₀ : SafetyCall, c₀.Bounded s → Before c₀ c := by
  cases c with
  | makeVote block execStateID highQC lastRoundTC =>
    obtain ⟨v, hv⟩ := dropResult_eq_ok h
    obtain ⟨parent, hqc, hsafe, rfl⟩ := sm.makeVote_eq_ok hv
    obtain ⟨hround, hsound⟩ := isSafeToVote_ok hsafe
    refine ⟨SafetyStorage.le_setHighestQcRound _ _ s, ⟨UInt64.le_max_left _ _, ?_⟩, hsound,
      fun c₀ h₀ => UInt64.lt_of_le_of_lt h₀.round_le hround⟩
    rw [hqc]
    exact UInt64.le_max_left _ _
  | signTimeout tmoVote lastRoundTC =>
    obtain ⟨signed, hs⟩ := dropResult_eq_ok h
    obtain ⟨hsafe, rfl⟩ := sm.signTimeout_eq_ok hs
    obtain ⟨hqc, hlt, -⟩ := isSafeToTimeout_ok hsafe
    refine ⟨SafetyStorage.le_setHighestVotedRound _ s, UInt64.le_max_left _ _, hlt, ?_⟩
    intro c₀ h₀
    cases c₀ with
    | makeVote => exact UInt64.le_trans h₀.2 hqc
    | signTimeout => trivial

/-- A failed call leaves the stored rounds where they were or raised. -/
theorem run_error {c : SafetyCall} {s s' : SafetyStorage} {e : ConsensusError}
    (h : c.run sm s = .error e s') : s ≤ s' := by
  cases c with
  | makeVote => exact sm.makeVote_eq_error (dropResult_eq_error h)
  | signTimeout => exact sm.signTimeout_eq_error (dropResult_eq_error h)

end SafetyCall

/-- The calls of a sequence that succeeded, in order, and the stored rounds the sequence
leaves. -/
def signedCalls (sm : SafetyModule) : List SafetyCall → SafetyStorage → List SafetyCall × SafetyStorage
  | [], s => ([], s)
  | c :: cs, s =>
    match c.run sm s with
    | .ok () s' => (c :: (signedCalls sm cs s').1, (signedCalls sm cs s').2)
    | .error _ s' => signedCalls sm cs s'

section Runs

variable (sm : SafetyModule)

theorem signedCalls_append (cs cs' : List SafetyCall) (s : SafetyStorage) :
    signedCalls sm (cs ++ cs') s =
      ((signedCalls sm cs s).1 ++ (signedCalls sm cs' (signedCalls sm cs s).2).1,
        (signedCalls sm cs' (signedCalls sm cs s).2).2) := by
  induction cs generalizing s with
  | nil => rfl
  | cons c cs ih =>
    simp only [List.cons_append, signedCalls]
    cases c.run sm s with
    | ok u s' => simp only [ih, List.cons_append]
    | error e s' => exact ih s'

/-- The stored rounds never decrease along a sequence. -/
theorem le_signedCalls (cs : List SafetyCall) (s : SafetyStorage) : s ≤ (signedCalls sm cs s).2 := by
  induction cs generalizing s with
  | nil => exact SafetyStorage.le_refl s
  | cons c cs ih =>
    simp only [signedCalls]
    cases h : c.run sm s with
    | ok u s' => exact SafetyStorage.le_trans (SafetyCall.run_ok sm h).1 (ih s')
    | error e s' => exact SafetyStorage.le_trans (SafetyCall.run_error sm h) (ih s')

/-- Every call signed in a sequence comes after a call the stored rounds remember at its start. -/
theorem before_signedCalls {c₀ : SafetyCall} (cs : List SafetyCall) {s : SafetyStorage}
    (h₀ : c₀.Bounded s) : ∀ c ∈ (signedCalls sm cs s).1, SafetyCall.Before c₀ c := by
  induction cs generalizing s with
  | nil => intro c hc; cases hc
  | cons c cs ih =>
    simp only [signedCalls]
    cases h : c.run sm s with
    | ok u s' =>
      obtain ⟨hle, -, -, hbefore⟩ := SafetyCall.run_ok sm h
      intro c' hc'
      rcases List.mem_cons.mp hc' with rfl | hc'
      · exact hbefore c₀ h₀
      · exact ih (h₀.mono hle) c' hc'
    | error e s' => exact ih (h₀.mono (SafetyCall.run_error sm h))

/-- The calls signed in a sequence are pairwise in order and each passed its own checks. -/
theorem signedCalls_sound (cs : List SafetyCall) (s : SafetyStorage) :
    (signedCalls sm cs s).1.Pairwise SafetyCall.Before ∧ ∀ c ∈ (signedCalls sm cs s).1, c.Sound := by
  induction cs generalizing s with
  | nil => exact ⟨List.Pairwise.nil, fun c hc => by cases hc⟩
  | cons c cs ih =>
    simp only [signedCalls]
    cases h : c.run sm s with
    | ok u s' =>
      obtain ⟨-, hbound, hsound, -⟩ := SafetyCall.run_ok sm h
      obtain ⟨hpair, hall⟩ := ih s'
      refine ⟨List.pairwise_cons.mpr ⟨before_signedCalls sm cs hbound, hpair⟩, ?_⟩
      intro c' hc'
      rcases List.mem_cons.mp hc' with rfl | hc'
      · exact hsound
      · exact hall c' hc'
    | error e s' => exact ih s'

/-- **The voting discipline of one safety module**, over every sequence of `MakeVote` and
`SignTimeout` calls from any stored rounds: among the calls that succeeded, each vote is for a
round above those of all earlier votes and timeouts, each timeout's high QC is at least the QC
of every earlier vote, a vote whose QC is not for the previous round had a TC for that round
with a high QC at most the vote's QC, a timeout's high QC is below its round; and the stored
rounds after any first part of the sequence are at most those after the whole. -/
theorem voting_discipline (cs : List SafetyCall) (s : SafetyStorage) :
    (signedCalls sm cs s).1.Pairwise SafetyCall.Before ∧
      (∀ c ∈ (signedCalls sm cs s).1, c.Sound) ∧
      ∀ cs₁ cs₂, cs = cs₁ ++ cs₂ → (signedCalls sm cs₁ s).2 ≤ (signedCalls sm cs s).2 := by
  obtain ⟨hpair, hsound⟩ := signedCalls_sound sm cs s
  refine ⟨hpair, hsound, ?_⟩
  rintro cs₁ cs₂ rfl
  rw [signedCalls_append]
  exact le_signedCalls sm cs₂ _

end Runs

end BftCore.Rootchain
