import BftCore.Rootchain.BlockTree
import Mathlib

/-!
# `rootchain/consensus/leader`: reputation-based leader election

`ReputationBased` elects the leader of the round after next when a QC arrives.  It walks back
from the QC: it loads the block of the QC's parent round, then the block of the round that
block's own QC certifies, and so on.  The validators that signed the first `windowSize` QCs of
the walk are active; the authors of the blocks met until `excludeSize` distinct ones are found
are excluded; the leader is picked round-robin among the rest, seeded by the QC.  The elected
leaders are kept in a ring of three slots.

* `pickLeader`, `ReputationBased.new`, `getLeaderForRound`, `slotIndex`, `elect` (the end of
  `Update`), the walk of `electLeader` (`Walk.step`, `walk`), `electLeader` and `update`;
* `Chain`: the blocks the loader returns along a walk; `walk_spec`: a walk that ends has
  loaded a chain of blocks, at least `windowSize` and `excludeSize` of them, its active
  validators signed one of the first `windowSize` QCs, and its authors are `collectAuthors`;
* `electLeader_spec`: the leader signed one of those QCs and wrote none of the blocks met while
  fewer than `excludeSize` distinct authors were collected;
* `Ring`: the latest slot holds the largest round, and a round other than zero is in one slot.
  Elections for rounds that do not go back keep it, and then `getLeaderForRound` returns the
  latest election of a round until three later rounds have been elected
  (`getLeaderForRound_runUpdates`).  When rounds go back, an older election of the same round in
  a slot scanned first shadows the new one (`leader_ring_shadows_reelected_round`).

Go's loop need not stop: a loader may return blocks forever without `excludeSize` distinct
authors.  The walk takes fuel and is `none` when it runs out.
-/

namespace BftCore.Rootchain

open BftCore.State (Bytes)

variable {SS P : Type}

/-- `pickLeader`: the member at the round modulo the length; `none` where Go would take a
remainder by zero. -/
def pickLeader {T : Type} (leaders : List T) (round : UInt64) : Option T :=
  leaders[round.toNat % leaders.length]?

theorem pickLeader_mem {T : Type} {leaders : List T} {round : UInt64} {x : T}
    (h : pickLeader leaders round = some x) : x ∈ leaders :=
  List.mem_of_getElem? h

theorem pickLeader_isSome {T : Type} {leaders : List T} (h : leaders ≠ []) (round : UInt64) :
    (pickLeader leaders round).isSome := by
  have hpos := List.length_pos_of_ne_nil h
  simp [pickLeader, Nat.mod_lt _ hpos]

/-- `roundLeader`. -/
structure RoundLeader (P : Type) where
  round : UInt64
  leader : P

/-- `ReputationBased`: the sizes of the window and of the exclusion (Go `int`s), the validators,
and the ring of elected leaders with the index of the latest election. -/
structure ReputationBased (P : Type) where
  windowSize : Int
  excludeSize : Int
  validators : List P
  leaders : Fin 3 → RoundLeader P
  curIdx : Fin 3

/-- A call of `Update`: the QC, the pacemaker's current round and the block loader, with the
fuel of the walk. -/
structure UpdateCall (SS : Type) where
  qc : QuorumCert
  currentRound : UInt64
  blockLoader : UInt64 → Except String (ExecutedBlock SS)
  fuel : Nat

/-- The round an `Update` call elects a leader for. -/
def UpdateCall.round (c : UpdateCall SS) : UInt64 := c.currentRound + 1

/-- The variables of the loop of `electLeader`: the iteration, the authors and active
validators collected, the QC whose signers the iteration adds, and the round it loads. -/
structure Walk where
  i : Nat
  authors : List String
  active : List String
  qc : Option QuorumCert
  round : UInt64

namespace ReputationBased

/-- `NewReputationBased`; the slots start as zero values. -/
def new [Inhabited P] (validators : List P) (windowSize excludeSize : Int) :
    Except String (ReputationBased P) :=
  let n := validators.length
  if n = 0 then .error "peer list (validators) must not be empty"
  else if (n : Int) ≤ excludeSize then
    .error s!"excludeSize value must be smaller than the number of validators in the system ({n} validators, exclude {excludeSize})"
  else if windowSize = 0 then .error "window size must be greater than zero"
  else .ok ⟨windowSize, excludeSize, validators, fun _ => ⟨0, default⟩, 0⟩

/-- `GetLeaderForRound`: the leader of the first slot holding the round, round-robin over the
validators otherwise. -/
def getLeaderForRound (rb : ReputationBased P) (round : UInt64) : Option P :=
  match (List.ofFn rb.leaders).find? (fun l => l.round == round) with
  | some l => some l.leader
  | none => pickLeader rb.validators round

/-- `slotIndex`: the latest slot again for its own round, the next one otherwise. -/
def slotIndex (rb : ReputationBased P) (round : UInt64) : Fin 3 :=
  if round = (rb.leaders rb.curIdx).round then rb.curIdx else rb.curIdx + 1

/-- The end of `Update`: the leader goes into the slot `slotIndex` chooses, which becomes the
latest. -/
def elect (rb : ReputationBased P) (round : UInt64) (leader : P) : ReputationBased P :=
  let idx := rb.slotIndex round
  { rb with leaders := Function.update rb.leaders idx ⟨round, leader⟩, curIdx := idx }

end ReputationBased

/-- One turn of the loop of `electLeader` after its block is loaded: the block's author is
collected while fewer than `excludeSize` are, and the signers of the QC while the iteration is
in the window; the walk goes on from the block's QC. -/
def Walk.step (windowSize excludeSize : Int) (w : Walk) (block : ExecutedBlock SS) :
    Except ConsensusError Walk :=
  let authors :=
    if (w.authors.length : Int) < excludeSize then w.authors.insert block.blockData.author
    else w.authors
  let qc := block.blockData.qc
  if (w.i : Int) < windowSize then
    match w.qc with
    -- ranging over the signatures of a nil QC
    | none => .error .panic
    | some q => .ok ⟨w.i + 1, authors, q.signatures.keys ∪ w.active, qc, QuorumCert.getRound qc⟩
  else .ok ⟨w.i + 1, authors, w.active, qc, QuorumCert.getRound qc⟩

/-- The loop of `electLeader`, while the iteration is in the window or fewer than `excludeSize`
authors are collected. -/
def walk (blockLoader : UInt64 → Except String (ExecutedBlock SS)) (windowSize excludeSize : Int)
    (qcRound : UInt64) : Nat → Walk → Option (Except ConsensusError Walk)
  | 0, _ => none
  | fuel + 1, w =>
    if (w.i : Int) < windowSize ∨ (w.authors.length : Int) < excludeSize then
      match blockLoader w.round with
      | .error e =>
        let round := w.round
        let i := w.i
        some (.error (.message
          (s!"failed to load round {round} block data (starting QC round {qcRound}, iteration {i}): " ++ e)))
      | .ok block =>
        match w.step windowSize excludeSize block with
        | .error e => some (.error e)
        | .ok w' => walk blockLoader windowSize excludeSize qcRound fuel w'
    else some (.ok w)

/-- The seed of the election: the QC's round plus the first four bytes of the commit info's
previous hash, little-endian; `none` where Go indexes past a shorter hash. -/
def leaderSeed (qcRound : UInt64) : Bytes → Option UInt64
  | b0 :: b1 :: b2 :: b3 :: _ =>
    some (qcRound + (b0.toUInt64 ||| b1.toUInt64 <<< 8 ||| b2.toUInt64 <<< 16 ||| b3.toUInt64 <<< 24))
  | _ => none

/-- What `electLeader` does after its loop: the recent authors leave the active validators, and
the leader is picked among the rest, sorted, and decoded as a peer ID. -/
def pickActive (decode : String → Except String P) (seed : UInt64) (w : Walk) :
    Except ConsensusError P :=
  let active := w.active.filter fun id => id ∉ w.authors
  if active = [] then
    let n := w.authors.length
    .error (.message s!"no active validators left after eliminating {n} recent authors")
  else
    match pickLeader (active.insertionSort (· ≤ ·)) seed with
    -- not reached: the list is not empty
    | none => .error .panic
    | some leader =>
      match decode leader with
      | .error e => .error (.message ("invalid peer id " ++ leader.quote ++ ": " ++ e))
      | .ok id => .ok id

/-- `electLeader`, with the fuel of its loop. -/
def electLeader (decode : String → Except String P)
    (blockLoader : UInt64 → Except String (ExecutedBlock SS)) (windowSize excludeSize : Int)
    (fuel : Nat) (qc : QuorumCert) : Option (Except ConsensusError P) :=
  let qcRound := QuorumCert.getRound (some qc)
  match qc.ledgerCommitInfo with
  -- `qc.LedgerCommitInfo.PreviousHash` through a nil pointer
  | none => some (.error .panic)
  | some info =>
    match leaderSeed qcRound info.previousHash with
    | none => some (.error .panic)
    | some seed =>
      let start : Walk := ⟨0, [], [], some qc, QuorumCert.getParentRound (some qc)⟩
      (walk blockLoader windowSize excludeSize qcRound fuel start).map fun r =>
        r.bind (pickActive decode seed)

namespace ReputationBased

/-- `Update`: for a QC of the round after its parent's, in the round after the QC's, the leader
of the round after next is elected.  A QC that is nil is not modelled: its rounds read `0`, and
the check fails. -/
def update (decode : String → Except String P) (fuel : Nat) (qc : QuorumCert)
    (currentRound : UInt64) (blockLoader : UInt64 → Except String (ExecutedBlock SS))
    (rb : ReputationBased P) : Option (Except ConsensusError (ReputationBased P)) :=
  let exR := QuorumCert.getParentRound (some qc)
  let qcR := QuorumCert.getRound (some qc)
  if exR + 1 ≠ qcR ∨ qcR + 1 ≠ currentRound then
    some (.error (.message
      s!"not updating leaders because rounds are not consecutive \x7bparent: {exR}, QC: {qcR}, current: {currentRound}\x7d"))
  else
    (electLeader decode blockLoader rb.windowSize rb.excludeSize fuel qc).map fun
      | .error (.message e) =>
        let round := currentRound + 1
        .error (.message (s!"failed to elect leader for round {round}: " ++ e))
      | .error .panic => .error .panic
      | .ok leader => .ok (rb.elect (currentRound + 1) leader)

/-- The instance after a sequence of `Update` calls; one that fails changes nothing. -/
def runUpdates (decode : String → Except String P) :
    ReputationBased P → List (UpdateCall SS) → ReputationBased P
  | rb, [] => rb
  | rb, c :: cs =>
    match rb.update decode c.fuel c.qc c.currentRound c.blockLoader with
    | some (.ok rb') => runUpdates decode rb' cs
    | _ => runUpdates decode rb cs

end ReputationBased

/-! ### The chain a walk loads -/

/-- `blocks` are what the loader returns along a walk from `round`: each block is loaded at the
round of the QC of the one before. -/
def Chain (blockLoader : UInt64 → Except String (ExecutedBlock SS)) :
    UInt64 → List (ExecutedBlock SS) → Prop
  | _, [] => True
  | round, b :: bs =>
    blockLoader round = .ok b ∧ Chain blockLoader (QuorumCert.getRound b.blockData.qc) bs

/-- The round a walk loads after the blocks. -/
def nextRound (round : UInt64) (blocks : List (ExecutedBlock SS)) : UInt64 :=
  blocks.foldl (fun _ b => QuorumCert.getRound b.blockData.qc) round

/-- The QCs of a walk: the one it starts from, then the QC of each block. -/
def walkQcs (qc : QuorumCert) (blocks : List (ExecutedBlock SS)) : List (Option QuorumCert) :=
  some qc :: blocks.map fun b => b.blockData.qc

/-- `s` signed one of the first `windowSize` QCs of the walk over `blocks`. -/
def Signed (windowSize : Int) (qc : QuorumCert) (blocks : List (ExecutedBlock SS)) (s : String) :
    Prop :=
  ∃ j < blocks.length, (j : Int) < windowSize ∧
    ∃ q, (walkQcs qc blocks)[j]? = some (some q) ∧ s ∈ q.signatures.keys

/-- The authors the loop collects from the blocks: each block's, while fewer than `excludeSize`
are collected. -/
def collectAuthors (excludeSize : Int) (blocks : List (ExecutedBlock SS)) : List String :=
  blocks.foldl (fun authors b =>
    if (authors.length : Int) < excludeSize then authors.insert b.blockData.author else authors) []

section Chain

variable {blockLoader : UInt64 → Except String (ExecutedBlock SS)}

theorem chain_append_singleton {round : UInt64} {blocks : List (ExecutedBlock SS)}
    {b : ExecutedBlock SS} :
    Chain blockLoader round (blocks ++ [b]) ↔
      Chain blockLoader round blocks ∧ blockLoader (nextRound round blocks) = .ok b := by
  induction blocks generalizing round with
  | nil => simp [Chain, nextRound]
  | cons c cs ih => simp [Chain, nextRound, ih, and_assoc]

/-- The loader fixes the walk: of two chains from one round, the shorter starts the longer. -/
theorem Chain.prefix {round : UInt64} {bs cs : List (ExecutedBlock SS)}
    (hb : Chain blockLoader round bs) (hc : Chain blockLoader round cs)
    (hlen : bs.length ≤ cs.length) : bs <+: cs := by
  induction bs generalizing round cs with
  | nil => exact List.nil_prefix
  | cons b bs ih =>
    match cs, hc with
    | c :: cs, ⟨hc₁, hc₂⟩ =>
      have hbc : b = c := by
        have h := hb.1.symm.trans hc₁
        injection h
      subst hbc
      exact List.cons_prefix_cons.mpr ⟨rfl, ih hb.2 hc₂ (by simpa using hlen)⟩

end Chain

theorem nextRound_append_singleton (round : UInt64) (blocks : List (ExecutedBlock SS))
    (b : ExecutedBlock SS) :
    nextRound round (blocks ++ [b]) = QuorumCert.getRound b.blockData.qc := by
  simp [nextRound]

theorem walkQcs_append_singleton (qc : QuorumCert) (blocks : List (ExecutedBlock SS))
    (b : ExecutedBlock SS) : walkQcs qc (blocks ++ [b]) = walkQcs qc blocks ++ [b.blockData.qc] := by
  simp [walkQcs]

@[simp] theorem length_walkQcs (qc : QuorumCert) (blocks : List (ExecutedBlock SS)) :
    (walkQcs qc blocks).length = blocks.length + 1 := by
  simp [walkQcs]

theorem Signed.append_singleton {windowSize : Int} {qc : QuorumCert}
    {blocks : List (ExecutedBlock SS)} {s : String} (h : Signed windowSize qc blocks s)
    (b : ExecutedBlock SS) : Signed windowSize qc (blocks ++ [b]) s := by
  obtain ⟨j, hj, hwin, q, hq, hs⟩ := h
  refine ⟨j, by simp; omega, hwin, q, ?_, hs⟩
  rw [walkQcs_append_singleton, List.getElem?_append_left (by simp; omega)]
  exact hq

/-! ### The authors collected -/

section Authors

variable {excludeSize : Int}

theorem collectAuthors_append_singleton (blocks : List (ExecutedBlock SS)) (b : ExecutedBlock SS) :
    collectAuthors excludeSize (blocks ++ [b]) =
      if ((collectAuthors excludeSize blocks).length : Int) < excludeSize then
        (collectAuthors excludeSize blocks).insert b.blockData.author
      else collectAuthors excludeSize blocks := by
  rw [collectAuthors, collectAuthors, List.foldl_append]
  rfl

theorem collectAuthors_nodup (blocks : List (ExecutedBlock SS)) :
    (collectAuthors excludeSize blocks).Nodup := by
  induction blocks using List.reverseRecOn with
  | nil => exact List.nodup_nil
  | append_singleton bs b ih =>
    rw [collectAuthors_append_singleton]
    split
    · exact ih.insert
    · exact ih

/-- Only authors of the blocks are collected. -/
theorem collectAuthors_subset (blocks : List (ExecutedBlock SS)) :
    collectAuthors excludeSize blocks ⊆ blocks.map fun b => b.blockData.author := by
  induction blocks using List.reverseRecOn with
  | nil => simp [collectAuthors]
  | append_singleton bs b ih =>
    rw [collectAuthors_append_singleton]
    intro a ha
    split at ha
    · rcases List.mem_insert_iff.mp ha with rfl | ha
      · simp
      · simpa using Or.inl (ih ha)
    · simpa using Or.inl (ih ha)

/-- What is collected stays collected. -/
theorem collectAuthors_subset_append (blocks more : List (ExecutedBlock SS)) :
    collectAuthors excludeSize blocks ⊆ collectAuthors excludeSize (blocks ++ more) := by
  induction more using List.reverseRecOn with
  | nil => simp
  | append_singleton ms m ih =>
    rw [← List.append_assoc, collectAuthors_append_singleton]
    split
    · exact List.Subset.trans ih (List.subset_insert _ _)
    · exact ih

theorem length_collectAuthors_le (blocks : List (ExecutedBlock SS)) :
    (collectAuthors excludeSize blocks).length ≤ blocks.length := by
  induction blocks using List.reverseRecOn with
  | nil => simp [collectAuthors]
  | append_singleton bs b ih =>
    rw [collectAuthors_append_singleton, List.length_append, List.length_singleton]
    split
    · by_cases hmem : b.blockData.author ∈ collectAuthors excludeSize bs
      · rw [List.length_insert_of_mem hmem]
        omega
      · rw [List.length_insert_of_not_mem hmem]
        omega
    · omega

/-- The author of a block met while fewer than `excludeSize` distinct authors were behind it is
collected. -/
theorem author_mem_collectAuthors {blocks : List (ExecutedBlock SS)} {j : Nat}
    (hj : j < blocks.length)
    (hfew : ((((blocks.take j).map fun b => b.blockData.author).toFinset.card : Nat) : Int) <
      excludeSize) :
    blocks[j].blockData.author ∈ collectAuthors excludeSize blocks := by
  -- fewer authors are collected than the distinct ones of the blocks before
  have hcard : (collectAuthors excludeSize (blocks.take j)).length ≤
      ((blocks.take j).map fun b => b.blockData.author).toFinset.card := by
    rw [← List.toFinset_card_of_nodup (collectAuthors_nodup _)]
    refine Finset.card_le_card fun a ha => ?_
    rw [List.mem_toFinset] at ha ⊢
    exact collectAuthors_subset _ ha
  have htake : blocks.take (j + 1) = blocks.take j ++ [blocks[j]] := List.take_succ_eq_append_getElem hj
  have hmem : blocks[j].blockData.author ∈ collectAuthors excludeSize (blocks.take (j + 1)) := by
    rw [htake, collectAuthors_append_singleton, if_pos (by omega)]
    exact List.mem_insert_self
  have hsub : collectAuthors excludeSize (blocks.take (j + 1)) ⊆
      collectAuthors excludeSize (blocks.take (j + 1) ++ blocks.drop (j + 1)) :=
    collectAuthors_subset_append _ _
  rw [List.take_append_drop] at hsub
  exact hsub hmem

end Authors

/-! ### The walk -/

section Walk

variable {blockLoader : UInt64 → Except String (ExecutedBlock SS)} {windowSize excludeSize : Int}
  {qc : QuorumCert}

/-- What the loop's variables hold after the blocks: the blocks are a chain from the QC's parent
round, after each shorter part of which the loop went on, the iteration counts them, the authors
are those `collectAuthors` keeps, the QC and the round are the walk's next, and the active
validators signed one of the first `windowSize` QCs. -/
structure Walked (blockLoader : UInt64 → Except String (ExecutedBlock SS))
    (windowSize excludeSize : Int) (qc : QuorumCert) (blocks : List (ExecutedBlock SS))
    (w : Walk) : Prop where
  chain : Chain blockLoader (QuorumCert.getParentRound (some qc)) blocks
  continued : ∀ k < blocks.length, (k : Int) < windowSize ∨
    ((collectAuthors excludeSize (blocks.take k)).length : Int) < excludeSize
  i_eq : w.i = blocks.length
  authors_eq : w.authors = collectAuthors excludeSize blocks
  qc_eq : (walkQcs qc blocks)[blocks.length]? = some w.qc
  round_eq : w.round = nextRound (QuorumCert.getParentRound (some qc)) blocks
  active : ∀ s ∈ w.active, Signed windowSize qc blocks s

theorem Walked.start :
    Walked blockLoader windowSize excludeSize qc []
      ⟨0, [], [], some qc, QuorumCert.getParentRound (some qc)⟩ where
  chain := trivial
  continued := fun _ hk => absurd hk (Nat.not_lt_zero _)
  i_eq := rfl
  authors_eq := rfl
  qc_eq := rfl
  round_eq := rfl
  active := by simp

/-- One turn of the loop, taken because its condition held, keeps the invariant, with the block
it loaded appended. -/
theorem Walked.step {blocks : List (ExecutedBlock SS)} {w w' : Walk} {b : ExecutedBlock SS}
    (hw : Walked blockLoader windowSize excludeSize qc blocks w)
    (hcond : (w.i : Int) < windowSize ∨ (w.authors.length : Int) < excludeSize)
    (hload : blockLoader w.round = .ok b) (hstep : w.step windowSize excludeSize b = .ok w') :
    Walked blockLoader windowSize excludeSize qc (blocks ++ [b]) w' := by
  have hchain : Chain blockLoader (QuorumCert.getParentRound (some qc)) (blocks ++ [b]) :=
    chain_append_singleton.mpr ⟨hw.chain, hw.round_eq ▸ hload⟩
  have hcont : ∀ k < (blocks ++ [b]).length, (k : Int) < windowSize ∨
      ((collectAuthors excludeSize ((blocks ++ [b]).take k)).length : Int) < excludeSize := by
    intro k hk
    rw [List.length_append, List.length_singleton] at hk
    rcases Nat.lt_or_ge k blocks.length with hlt | hge
    · rw [List.take_append_of_le_length hlt.le]
      exact hw.continued k hlt
    · -- the turn that loaded `b`: the loop's condition held on the variables
      obtain rfl : k = blocks.length := by omega
      rw [List.take_left' rfl, ← hw.i_eq, ← hw.authors_eq]
      exact hcond
  have hauthors : (if (w.authors.length : Int) < excludeSize then w.authors.insert b.blockData.author
      else w.authors) = collectAuthors excludeSize (blocks ++ [b]) := by
    rw [collectAuthors_append_singleton, hw.authors_eq]
  have hqc : (walkQcs qc (blocks ++ [b]))[(blocks ++ [b]).length]? = some b.blockData.qc := by
    rw [walkQcs_append_singleton, List.getElem?_append_right (by simp)]
    simp
  unfold Walk.step at hstep
  dsimp only at hstep
  by_cases hwin : (w.i : Int) < windowSize
  · -- in the window: the signers of the current QC join the active validators
    rw [if_pos hwin] at hstep
    cases hq : w.qc with
    | none => rw [hq] at hstep; cases hstep
    | some q =>
      rw [hq] at hstep
      injection hstep with hstep
      subst hstep
      refine ⟨hchain, hcont, by simp [hw.i_eq], hauthors, hqc,
        (nextRound_append_singleton _ _ _).symm, fun s hs => ?_⟩
      rcases List.mem_union_iff.mp hs with hs | hs
      · refine ⟨blocks.length, by simp, hw.i_eq ▸ hwin, q, ?_, hs⟩
        rw [walkQcs_append_singleton, List.getElem?_append_left (by simp), hw.qc_eq, hq]
      · exact (hw.active s hs).append_singleton b
  · rw [if_neg hwin] at hstep
    injection hstep with hstep
    subst hstep
    exact ⟨hchain, hcont, by simp [hw.i_eq], hauthors, hqc,
      (nextRound_append_singleton _ _ _).symm, fun s hs => (hw.active s hs).append_singleton b⟩

/-- A walk that ends has loaded a chain of blocks and stops only out of the window with
`excludeSize` authors collected. -/
theorem walk_spec {qcRound : UInt64} :
    ∀ {fuel : Nat} {w w' : Walk} {blocks : List (ExecutedBlock SS)},
      walk blockLoader windowSize excludeSize qcRound fuel w = some (.ok w') →
      Walked blockLoader windowSize excludeSize qc blocks w →
      ∃ blocks', Walked blockLoader windowSize excludeSize qc blocks' w' ∧
        windowSize ≤ w'.i ∧ excludeSize ≤ w'.authors.length
  | 0, _, _, _, h, _ => by cases h
  | fuel + 1, w, w', blocks, h, hw => by
    unfold walk at h
    split at h
    · -- the loop goes on: a block is loaded and a turn taken
      rename_i hcond
      split at h
      · cases h
      · rename_i b hload
        split at h
        · cases h
        · rename_i w₁ hstep
          exact walk_spec h (hw.step hcond hload hstep)
    · rename_i hdone
      cases h
      exact ⟨blocks, hw, by omega, by omega⟩

end Walk

/-! ### The election -/

/-- The leader `pickActive` returns is an active validator that is not a collected author. -/
theorem pickActive_eq_ok {decode : String → Except String P} {seed : UInt64} {w : Walk} {leader : P}
    (h : pickActive decode seed w = .ok leader) :
    ∃ s ∈ w.active, s ∉ w.authors ∧ decode s = .ok leader := by
  unfold pickActive at h
  dsimp only at h
  split at h
  · cases h
  · split at h
    · cases h
    · rename_i s hpick
      have hs : s ∈ w.active.filter fun id => id ∉ w.authors :=
        (List.mem_insertionSort _).mp (pickLeader_mem hpick)
      rw [List.mem_filter, decide_eq_true_iff] at hs
      split at h
      · cases h
      · cases h
        exact ⟨s, hs.1, hs.2, by assumption⟩

/-- The leader elected signed one of the first `windowSize` QCs of the walk, and is not one of
the authors collected.  The walk is a chain of at least `windowSize` blocks with `excludeSize`
authors collected, after each shorter part of which the loop went on. -/
theorem electLeader_spec {decode : String → Except String P}
    {blockLoader : UInt64 → Except String (ExecutedBlock SS)} {windowSize excludeSize : Int}
    {fuel : Nat} {qc : QuorumCert} {leader : P}
    (h : electLeader decode blockLoader windowSize excludeSize fuel qc = some (.ok leader)) :
    ∃ s blocks, decode s = .ok leader ∧
      Chain blockLoader (QuorumCert.getParentRound (some qc)) blocks ∧
      windowSize ≤ blocks.length ∧ excludeSize ≤ (collectAuthors excludeSize blocks).length ∧
      excludeSize ≤ blocks.length ∧
      (∀ k < blocks.length, (k : Int) < windowSize ∨
        ((collectAuthors excludeSize (blocks.take k)).length : Int) < excludeSize) ∧
      Signed windowSize qc blocks s ∧ s ∉ collectAuthors excludeSize blocks := by
  unfold electLeader at h
  split at h
  · cases h
  · dsimp only at h
    split at h
    · cases h
    · rename_i seed _
      cases hwalk : walk blockLoader windowSize excludeSize (QuorumCert.getRound (some qc)) fuel
          ⟨0, [], [], some qc, QuorumCert.getParentRound (some qc)⟩ with
      | none => simp [hwalk] at h
      | some r =>
        cases r with
        | error e =>
          simp only [hwalk, Option.map_some, Option.some.injEq] at h
          cases h
        | ok w =>
          simp only [hwalk, Option.map_some, Option.some.injEq] at h
          obtain ⟨blocks, hw, hwin, hex⟩ := walk_spec hwalk Walked.start
          obtain ⟨s, hs, hna, hdec⟩ := pickActive_eq_ok h
          have hlen : (collectAuthors excludeSize blocks).length ≤ blocks.length :=
            length_collectAuthors_le blocks
          rw [hw.authors_eq] at hex
          exact ⟨s, blocks, hdec, hw.chain, hw.i_eq ▸ hwin, hex, by omega, hw.continued,
            hw.active s hs, hw.authors_eq ▸ hna⟩

namespace ReputationBased

/-- A successful `Update` checked the rounds and elected a leader, which it stored with `elect`. -/
theorem update_eq_ok {decode : String → Except String P} {fuel : Nat} {qc : QuorumCert}
    {currentRound : UInt64} {blockLoader : UInt64 → Except String (ExecutedBlock SS)}
    {rb rb' : ReputationBased P}
    (h : rb.update decode fuel qc currentRound blockLoader = some (.ok rb')) :
    QuorumCert.getParentRound (some qc) + 1 = QuorumCert.getRound (some qc) ∧
      QuorumCert.getRound (some qc) + 1 = currentRound ∧
      ∃ leader, electLeader decode blockLoader rb.windowSize rb.excludeSize fuel qc =
        some (.ok leader) ∧ rb' = rb.elect (currentRound + 1) leader := by
  unfold update at h
  dsimp only at h
  split_ifs at h with hcheck
  · cases h
  · rw [not_or, not_not, not_not] at hcheck
    refine ⟨hcheck.1, hcheck.2, ?_⟩
    cases he : electLeader decode blockLoader rb.windowSize rb.excludeSize fuel qc with
    | none => simp [he] at h
    | some r =>
      rcases r with (e | _) | leader
      · simp [he] at h
      · simp [he] at h
      · simp only [he, Option.map_some, Option.some.injEq, Except.ok.injEq] at h
        exact ⟨leader, rfl, h.symm⟩

/-! ### The ring of elected leaders -/

/-- The ring as elections for rounds that do not go back keep it: the latest slot holds the
largest round, and a round other than zero is in one slot only. -/
structure Ring (rb : ReputationBased P) : Prop where
  le_cur : ∀ i, (rb.leaders i).round ≤ (rb.leaders rb.curIdx).round
  unique : ∀ i j, (rb.leaders i).round = (rb.leaders j).round → (rb.leaders i).round ≠ 0 → i = j

theorem Ring.new [Inhabited P] {validators : List P} {windowSize excludeSize : Int}
    {rb : ReputationBased P} (h : ReputationBased.new validators windowSize excludeSize = .ok rb) :
    rb.Ring := by
  unfold ReputationBased.new at h
  dsimp only at h
  split_ifs at h
  cases h
  exact ⟨fun _ => UInt64.le_refl 0, fun _ _ _ h0 => absurd rfl h0⟩

/-- The slot of the latest election holds its round and leader. -/
theorem elect_cur (rb : ReputationBased P) (round : UInt64) (leader : P) :
    (rb.elect round leader).leaders (rb.elect round leader).curIdx = ⟨round, leader⟩ := by
  simp [elect]

/-- Electing the round of the latest slot again only replaces its leader. -/
theorem elect_of_eq_cur {rb : ReputationBased P} {round : UInt64} (leader : P)
    (h : round = (rb.leaders rb.curIdx).round) :
    (rb.elect round leader).curIdx = rb.curIdx ∧
      ∀ i, i ≠ rb.curIdx → (rb.elect round leader).leaders i = rb.leaders i := by
  refine ⟨by simp [elect, slotIndex, h], fun i hi => ?_⟩
  simp only [elect, slotIndex, if_pos h]
  exact Function.update_of_ne hi _ _

/-- Electing another round moves to the next slot. -/
theorem elect_of_ne_cur {rb : ReputationBased P} {round : UInt64} (leader : P)
    (h : round ≠ (rb.leaders rb.curIdx).round) :
    (rb.elect round leader).curIdx = rb.curIdx + 1 ∧
      ∀ i, i ≠ rb.curIdx + 1 → (rb.elect round leader).leaders i = rb.leaders i := by
  refine ⟨by simp [elect, slotIndex, h], fun i hi => ?_⟩
  simp only [elect, slotIndex, if_neg h]
  exact Function.update_of_ne hi _ _

/-- An election for a round no smaller than the latest keeps the ring. -/
theorem Ring.elect {rb : ReputationBased P} (hring : rb.Ring) {round : UInt64} (leader : P)
    (hle : (rb.leaders rb.curIdx).round ≤ round) : (rb.elect round leader).Ring := by
  have hcur := elect_cur rb round leader
  by_cases heq : round = (rb.leaders rb.curIdx).round
  · -- the same slot, with the same round: no round moves
    obtain ⟨hidx, hrest⟩ := elect_of_eq_cur leader heq
    have hround : ∀ i, ((rb.elect round leader).leaders i).round = (rb.leaders i).round := by
      intro i
      by_cases hi : i = rb.curIdx
      · subst hi
        have hslot : (rb.elect round leader).leaders rb.curIdx = ⟨round, leader⟩ := hidx ▸ hcur
        rw [hslot]
        exact heq
      · rw [hrest i hi]
    refine ⟨fun i => ?_, fun i j hij h0 => ?_⟩
    · rw [hround, hround, hidx]
      exact hring.le_cur i
    · rw [hround, hround] at hij
      rw [hround] at h0
      exact hring.unique i j hij h0
  · -- the next slot, with a round larger than every other
    obtain ⟨hidx, hrest⟩ := elect_of_ne_cur leader heq
    have hlt : (rb.leaders rb.curIdx).round < round := UInt64.lt_of_le_of_ne hle (Ne.symm heq)
    have hold : ∀ i, i ≠ rb.curIdx + 1 → ((rb.elect round leader).leaders i).round < round :=
      fun i hi => by rw [hrest i hi]; exact UInt64.lt_of_le_of_lt (hring.le_cur i) hlt
    have hnew : ((rb.elect round leader).leaders (rb.curIdx + 1)).round = round := by
      rw [← hidx, hcur]
    refine ⟨fun i => ?_, fun i j hij h0 => ?_⟩
    · rw [hcur]
      by_cases hi : i = rb.curIdx + 1
      · rw [hi, hnew]
        exact UInt64.le_refl round
      · exact UInt64.le_of_lt (hold i hi)
    · by_cases hi : i = rb.curIdx + 1 <;> by_cases hj : j = rb.curIdx + 1
      · rw [hi, hj]
      · rw [hi, hnew] at hij
        have hlt := hold j hj
        rw [← hij] at hlt
        exact absurd hlt (UInt64.lt_irrefl _)
      · rw [hj, hnew] at hij
        have hlt := hold i hi
        rw [hij] at hlt
        exact absurd hlt (UInt64.lt_irrefl _)
      · rw [hrest i hi, hrest j hj] at hij
        rw [hrest i hi] at h0
        exact hring.unique i j hij h0

/-- In the ring a round other than zero is found in its own slot. -/
theorem Ring.getLeaderForRound {rb : ReputationBased P} (hring : rb.Ring) {i : Fin 3}
    (h0 : (rb.leaders i).round ≠ 0) :
    rb.getLeaderForRound (rb.leaders i).round = some (rb.leaders i).leader := by
  have hne : ∀ j, j ≠ i → ((rb.leaders j).round == (rb.leaders i).round) = false := by
    intro j hj
    rw [beq_eq_false_iff_ne]
    intro heq
    exact hj (hring.unique j i heq (heq ▸ h0))
  have hofFn : List.ofFn rb.leaders = [rb.leaders 0, rb.leaders 1, rb.leaders 2] := rfl
  unfold ReputationBased.getLeaderForRound
  rw [hofFn]
  match i, hne with
  | 0, _ => simp
  | 1, hne => simp [hne 0 (by decide)]
  | 2, hne => simp [hne 0 (by decide), hne 1 (by decide)]

/-- An election for another round keeps a slot it does not move into; moving to the next slot
ages every other slot by one, and a slot of age two is the next. -/
theorem elect_keeps_slot {rb : ReputationBased P} {i : Fin 3} {round : UInt64} (leader : P)
    (hround : round ≠ (rb.leaders i).round)
    (hage : round ≠ (rb.leaders rb.curIdx).round → (rb.curIdx - i).val ≤ 1) :
    (rb.elect round leader).leaders i = rb.leaders i ∧
      ((rb.elect round leader).curIdx - i).val =
        (rb.curIdx - i).val + if round = (rb.leaders rb.curIdx).round then 0 else 1 := by
  by_cases heq : round = (rb.leaders rb.curIdx).round
  · obtain ⟨hidx, hrest⟩ := elect_of_eq_cur leader heq
    have hi : i ≠ rb.curIdx := fun hi => hround (hi ▸ heq)
    rw [hrest i hi, hidx, if_pos heq]
    exact ⟨rfl, rfl⟩
  · obtain ⟨hidx, hrest⟩ := elect_of_ne_cur leader heq
    have hage := hage heq
    have hfin : ∀ c j : Fin 3, (c - j).val ≤ 1 → c + 1 ≠ j ∧ (c + 1 - j).val = (c - j).val + 1 := by
      decide
    obtain ⟨hne, hsucc⟩ := hfin rb.curIdx i hage
    rw [hrest i (Ne.symm hne), hidx, if_neg heq, hsucc]
    exact ⟨rfl, rfl⟩

/-- Dropping the first call leaves no more rounds to elect. -/
theorem card_rounds_tail_le (c : UpdateCall SS) (cs : List (UpdateCall SS)) (r : UInt64) :
    ((cs.map UpdateCall.round).toFinset.erase r).card ≤
      (((c :: cs).map UpdateCall.round).toFinset.erase r).card := by
  refine Finset.card_le_card (Finset.erase_subset_erase r fun x hx => ?_)
  simp only [List.map_cons, List.toFinset_cons]
  exact Finset.mem_insert_of_mem hx

/-- A slot of round `slot.round` survives a run of `Update` calls for larger rounds that do not go
back, as long as they move the ring fewer times than the slot has left: the calls elect fewer
rounds other than the latest than `3 - (curIdx - i)`. -/
theorem Ring.runUpdates {decode : String → Except String P} {i : Fin 3} {slot : RoundLeader P}
    (h0 : slot.round ≠ 0) :
    ∀ (calls : List (UpdateCall SS)) (rb : ReputationBased P), rb.Ring → rb.leaders i = slot →
      (calls.map UpdateCall.round).Pairwise (· ≤ ·) →
      (∀ c ∈ calls, (rb.leaders rb.curIdx).round ≤ c.round ∧ slot.round < c.round) →
      (rb.curIdx - i).val +
          (((calls.map UpdateCall.round).toFinset.erase (rb.leaders rb.curIdx).round).card) < 3 →
      (rb.runUpdates decode calls).Ring ∧ (rb.runUpdates decode calls).leaders i = slot
  | [], _, hring, hi, _, _, _ => ⟨hring, hi⟩
  | c :: cs, rb, hring, hi, hsorted, hbound, hcount => by
    rw [List.map_cons, List.pairwise_cons] at hsorted
    have htail : ∀ c' ∈ cs, c.round ≤ c'.round :=
      fun c' hc' => hsorted.1 c'.round (List.mem_map_of_mem hc')
    have hcur := hbound c List.mem_cons_self
    have hle := card_rounds_tail_le c cs (rb.leaders rb.curIdx).round
    unfold ReputationBased.runUpdates
    split
    · -- the call elects: the ring moves on from the latest slot, or stays at it
      rename_i rb' hup
      obtain ⟨-, -, leader, -, rfl⟩ := update_eq_ok hup
      change (ReputationBased.runUpdates decode (rb.elect c.round leader) cs).Ring ∧
        (ReputationBased.runUpdates decode (rb.elect c.round leader) cs).leaders i = slot
      have hround : c.round ≠ (rb.leaders i).round := by
        rw [hi]
        exact fun h => UInt64.lt_irrefl _ (h ▸ hcur.2)
      have hmem : c.round ≠ (rb.leaders rb.curIdx).round →
          c.round ∈ ((c :: cs).map UpdateCall.round).toFinset.erase (rb.leaders rb.curIdx).round :=
        fun hne => Finset.mem_erase.mpr ⟨hne, by simp⟩
      have hage : c.round ≠ (rb.leaders rb.curIdx).round → (rb.curIdx - i).val ≤ 1 := by
        intro hne
        have := Finset.card_pos.mpr ⟨_, hmem hne⟩
        omega
      obtain ⟨hslot, hage'⟩ := elect_keeps_slot leader hround hage
      have hnew := elect_cur rb c.round leader
      refine Ring.runUpdates h0 cs _ (hring.elect leader hcur.1) (hslot.trans hi) hsorted.2
        (fun c' hc' => ⟨by rw [hnew]; exact htail c' hc', (hbound c' (List.mem_cons_of_mem _ hc')).2⟩) ?_
      rw [hnew]
      dsimp only
      by_cases heq : c.round = (rb.leaders rb.curIdx).round
      · rw [if_pos heq] at hage'
        rw [hage', heq]
        omega
      · -- the rounds after the call are above the latest slot's, so one fewer is left
        rw [if_neg heq] at hage'
        rw [hage']
        have hsub : (cs.map UpdateCall.round).toFinset.erase c.round ⊆
            (((c :: cs).map UpdateCall.round).toFinset.erase (rb.leaders rb.curIdx).round).erase
              c.round := by
          intro x hx
          obtain ⟨hxr, hx⟩ := Finset.mem_erase.mp hx
          obtain ⟨c', hc', rfl⟩ := List.mem_map.mp (List.mem_toFinset.mp hx)
          have hlt : (rb.leaders rb.curIdx).round < c'.round :=
            UInt64.lt_of_lt_of_le (UInt64.lt_of_le_of_ne hcur.1 (Ne.symm heq)) (htail c' hc')
          have hmem' : c'.round ∈ ((c :: cs).map UpdateCall.round).toFinset :=
            List.mem_toFinset.mpr (List.mem_map_of_mem (List.mem_cons_of_mem _ hc'))
          refine Finset.mem_erase.mpr ⟨hxr, Finset.mem_erase.mpr ⟨fun h => ?_, hmem'⟩⟩
          exact UInt64.lt_irrefl _ (h ▸ hlt)
        have hcard := Finset.card_le_card hsub
        rw [Finset.card_erase_of_mem (hmem heq)] at hcard
        omega
    · -- the call fails and changes nothing
      exact Ring.runUpdates h0 cs rb hring hi hsorted.2
        (fun c' hc' => hbound c' (List.mem_cons_of_mem _ hc')) (by omega)

/-- The instances `NewReputationBased` makes, changed by `Update`s for rounds that do not go back
(the pacemaker's rounds only grow). -/
inductive Reachable [Inhabited P] (decode : String → Except String P) : ReputationBased P → Prop
  | new {validators : List P} {windowSize excludeSize : Int} {rb : ReputationBased P} :
      ReputationBased.new validators windowSize excludeSize = .ok rb → Reachable decode rb
  | update {S : Type} {rb rb' : ReputationBased P} {fuel : Nat} {qc : QuorumCert}
      {currentRound : UInt64} {blockLoader : UInt64 → Except String (ExecutedBlock S)} :
      Reachable decode rb → rb.update decode fuel qc currentRound blockLoader = some (.ok rb') →
      (rb.leaders rb.curIdx).round ≤ currentRound + 1 → Reachable decode rb'

theorem Reachable.ring [Inhabited P] {decode : String → Except String P} {rb : ReputationBased P}
    (h : rb.Reachable decode) : rb.Ring := by
  induction h with
  | new hnew => exact Ring.new hnew
  | update _ hup hle ih =>
    obtain ⟨-, -, leader, -, rfl⟩ := update_eq_ok hup
    exact ih.elect leader hle

end ReputationBased

/-! ### Who is elected -/

/-- After a successful `Update` of an instance whose elections never went back, the leader for
the round after next, until three later rounds are elected, is a validator that signed one of
the first `windowSize` QCs of the walk behind the QC, and that wrote none of the blocks the walk
met while fewer than `excludeSize` distinct authors were behind them; in particular none of the
first `excludeSize` blocks along the walk.  The walk is the whole loop of `electLeader`: a chain
of at least `windowSize` blocks with `excludeSize` authors collected, the loop going on after
each shorter part of it. -/
theorem reputation_election_excludes_recent_authors [Inhabited P]
    {decode : String → Except String P} {rb rb' : ReputationBased P}
    (hreach : rb.Reachable decode) {fuel : Nat} {qc : QuorumCert} {currentRound : UInt64}
    {blockLoader : UInt64 → Except String (ExecutedBlock SS)}
    (hup : rb.update decode fuel qc currentRound blockLoader = some (.ok rb'))
    (hmono : (rb.leaders rb.curIdx).round ≤ currentRound + 1) (hround : currentRound + 1 ≠ 0)
    (later : List (UpdateCall SS)) (hsorted : (later.map UpdateCall.round).Pairwise (· ≤ ·))
    (hlater : ∀ c ∈ later, currentRound + 1 < c.round)
    (hfew : (later.map UpdateCall.round).toFinset.card < 3) :
    ∃ leader s blocks,
      (rb'.runUpdates decode later).getLeaderForRound (currentRound + 1) = some leader ∧
      decode s = .ok leader ∧
      Chain blockLoader (QuorumCert.getParentRound (some qc)) blocks ∧
      rb.windowSize ≤ blocks.length ∧
      rb.excludeSize ≤ (collectAuthors rb.excludeSize blocks).length ∧
      (∀ k < blocks.length, (k : Int) < rb.windowSize ∨
        ((collectAuthors rb.excludeSize (blocks.take k)).length : Int) < rb.excludeSize) ∧
      Signed rb.windowSize qc blocks s ∧
      s ∉ collectAuthors rb.excludeSize blocks ∧
      (∀ j (hj : j < blocks.length),
        ((((blocks.take j).map fun b => b.blockData.author).toFinset.card : Nat) : Int) <
          rb.excludeSize → s ≠ blocks[j].blockData.author) ∧
      ∀ cs, Chain blockLoader (QuorumCert.getParentRound (some qc)) cs →
        (cs.length : Int) ≤ rb.excludeSize → ∀ c ∈ cs, s ≠ c.blockData.author := by
  obtain ⟨-, -, leader, helect, hrb'⟩ := ReputationBased.update_eq_ok hup
  obtain ⟨s, blocks, hdec, hchain, hwin, hcoll, hex, hcont, hsigned, hnot⟩ :=
    electLeader_spec helect
  -- the election's slot is the latest, and it survives the later calls
  have hring : rb'.Ring := hrb' ▸ hreach.ring.elect leader hmono
  have hslot : rb'.leaders rb'.curIdx = ⟨currentRound + 1, leader⟩ :=
    hrb' ▸ ReputationBased.elect_cur rb (currentRound + 1) leader
  have hcount : (rb'.curIdx - rb'.curIdx).val +
      ((later.map UpdateCall.round).toFinset.erase (rb'.leaders rb'.curIdx).round).card < 3 := by
    rw [Fin.sub_self, hslot, Fin.val_zero, Nat.zero_add]
    exact Nat.lt_of_le_of_lt (Finset.card_erase_le) hfew
  have hkeep : (rb'.runUpdates decode later).Ring ∧
      (rb'.runUpdates decode later).leaders rb'.curIdx = ⟨currentRound + 1, leader⟩ :=
    ReputationBased.Ring.runUpdates hround later rb' hring hslot hsorted
      (fun c hc => ⟨by rw [hslot]; exact UInt64.le_of_lt (hlater c hc), hlater c hc⟩) hcount
  have hget := hkeep.1.getLeaderForRound (i := rb'.curIdx) (by rw [hkeep.2]; exact hround)
  rw [hkeep.2] at hget
  -- the authors met while fewer than `excludeSize` were behind are collected, so not elected
  have hexcl : ∀ j (hj : j < blocks.length),
      ((((blocks.take j).map fun b => b.blockData.author).toFinset.card : Nat) : Int) <
        rb.excludeSize → s ≠ blocks[j].blockData.author :=
    fun j hj hfew heq => hnot (heq ▸ author_mem_collectAuthors hj hfew)
  refine ⟨leader, s, blocks, hget, hdec, hchain, hwin, hcoll, hcont, hsigned, hnot, hexcl,
    fun cs hcs hlen c hc => ?_⟩
  -- a chain no longer than `excludeSize` starts the walk's
  have hpre := hcs.prefix hchain (by omega)
  obtain ⟨j, hj, rfl⟩ := List.getElem_of_mem hc
  rw [hpre.getElem hj]
  refine hexcl j (by have := hpre.length_le; omega) ?_
  have hcard := List.toFinset_card_le ((blocks.take j).map fun b => b.blockData.author)
  simp only [List.length_map, List.length_take] at hcard
  omega

/-! ### Elections on fixed inputs -/

/-- A QC of `round` over the round before, signed by `signer` alone, whose commit info's hash
starts with four zero bytes. -/
def soloQc (round : UInt64) (signer : String) : QuorumCert :=
  ⟨some ⟨round, 0, 1, round - 1, []⟩, some ⟨0, [0, 0, 0, 0], 0, 0, 0, []⟩,
    (∅ : AList fun _ : String => Bytes).insert signer []⟩

/-- The `Update` for the QC of `round` in the round after it, with a loader that returns an
empty block. -/
def soloCall (round : UInt64) (signer : String) : UpdateCall Unit :=
  ⟨soloQc round signer, round + 1, fun _ => .ok default, 2⟩

/-- The instance `NewReputationBased` makes over three validators, with a window of one QC and
no exclusion. -/
def threeValidators : ReputationBased String :=
  ⟨1, 0, ["a", "b", "c"], fun _ => ⟨0, default⟩, 0⟩

/-- A QC of `round` over the round before, signed by `signers`, whose commit info's hash starts
with four zero bytes. -/
def signedQc (round : UInt64) (signers : List String) : QuorumCert :=
  ⟨some ⟨round, 0, 1, round - 1, []⟩, some ⟨0, [0, 0, 0, 0], 0, 0, 0, []⟩,
    signers.foldl (fun sigs s => sigs.insert s []) ∅⟩

/-- The block of `round` by `author`, on a QC of the round before that its author signed. -/
def blockBy (round : UInt64) (author : String) : ExecutedBlock Unit :=
  ⟨⟨author, round, 0, 0, some (signedQc (round - 1) [author])⟩, [], none, none, ()⟩

/-- A loader whose blocks of the rounds 5, 4, 3 and 2 are by `a`, `b`, `b` and `c`. -/
def recentLoader : UInt64 → Except String (ExecutedBlock Unit) := fun r =>
  if r = 5 then .ok (blockBy 5 "a") else if r = 4 then .ok (blockBy 4 "b")
  else if r = 3 then .ok (blockBy 3 "b") else if r = 2 then .ok (blockBy 2 "c")
  else .error "no block"

/-- The instance `NewReputationBased` makes over four validators, with a window of one QC and an
exclusion of two authors. -/
def fourValidators : ReputationBased String :=
  ⟨1, 2, ["a", "b", "c", "d"], fun _ => ⟨0, default⟩, 0⟩

/-- The QC of round 5, signed by `b` and `d`, elects `d` for round 7: the walk meets the blocks
of `b`, of `b` again and of `c`, so the signer `b` is excluded.  The later election of round 8,
from a QC of `a` and `c`, elects `c` and keeps `d` for round 7. -/
theorem reputation_election_fourValidators :
    fourValidators.update (fun s => .ok s) 4 (signedQc 5 ["b", "d"]) 6 recentLoader =
      some (.ok (fourValidators.elect 7 "d")) ∧
    (∃ rb, (fourValidators.elect 7 "d").update (fun s => .ok s) 4 (signedQc 6 ["a", "c"]) 7
        recentLoader = some (.ok rb) ∧ rb.getLeaderForRound 8 = some "c") ∧
    ∃ leader s blocks,
      ((fourValidators.elect 7 "d").runUpdates (fun s => .ok s)
          [(⟨signedQc 6 ["a", "c"], 7, recentLoader, 4⟩ : UpdateCall Unit)]).getLeaderForRound
        (6 + 1) = some leader ∧
      (Except.ok s : Except String String) = .ok leader ∧
      Chain recentLoader (QuorumCert.getParentRound (some (signedQc 5 ["b", "d"]))) blocks ∧
      fourValidators.windowSize ≤ blocks.length ∧
      fourValidators.excludeSize ≤ (collectAuthors fourValidators.excludeSize blocks).length ∧
      (∀ k < blocks.length, (k : Int) < fourValidators.windowSize ∨
        ((collectAuthors fourValidators.excludeSize (blocks.take k)).length : Int) <
          fourValidators.excludeSize) ∧
      Signed fourValidators.windowSize (signedQc 5 ["b", "d"]) blocks s ∧
      s ∉ collectAuthors fourValidators.excludeSize blocks ∧
      (∀ j (hj : j < blocks.length),
        ((((blocks.take j).map fun b => b.blockData.author).toFinset.card : Nat) : Int) <
          fourValidators.excludeSize → s ≠ blocks[j].blockData.author) ∧
      ∀ cs, Chain recentLoader (QuorumCert.getParentRound (some (signedQc 5 ["b", "d"]))) cs →
        (cs.length : Int) ≤ fourValidators.excludeSize → ∀ c ∈ cs, s ≠ c.blockData.author := by
  have hup : fourValidators.update (fun s => .ok s) 4 (signedQc 5 ["b", "d"]) 6 recentLoader =
      some (.ok (fourValidators.elect 7 "d")) := by
    rfl
  have hnew : ReputationBased.new ["a", "b", "c", "d"] 1 2 = .ok fourValidators := rfl
  refine ⟨hup, ⟨_, rfl, rfl⟩, ?_⟩
  exact reputation_election_excludes_recent_authors (.new hnew) hup (by decide) (by decide)
    _ (List.pairwise_singleton _ _) (by decide) (by decide)

/-- When rounds go back, an older election of a round shadows the new one.  Over three
validators, with a window of one QC and no exclusion, the rounds 4, 5, 7 and 10 are elected, then
7 again from a QC that `b` alone signed: the new election takes the third slot, and
`GetLeaderForRound(7)` returns the first slot's older leader `a`, which did not sign that QC. -/
theorem leader_ring_shadows_reelected_round :
    ReputationBased.new ["a", "b", "c"] 1 0 = .ok threeValidators ∧
    ((threeValidators.runUpdates (fun s => .ok s)
        [soloCall 2 "a", soloCall 3 "a", soloCall 5 "a", soloCall 8 "c"]).update (fun s => .ok s) 2
        (soloQc 5 "b") 6 fun _ => .ok (default : ExecutedBlock Unit)).map
      (fun r => r.toOption.map fun rb => rb.getLeaderForRound 7) = some (some (some "a")) ∧
    (soloQc 5 "b").signatures.keys = ["b"] := by
  refine ⟨rfl, ?_, rfl⟩
  decide +kernel

end BftCore.Rootchain
