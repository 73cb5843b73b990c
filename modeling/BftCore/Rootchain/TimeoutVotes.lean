import BftCore.Rootchain.VoteRegister

/-!
# `rootchain/consensus`: assembling timeout certificates

`InsertTimeoutVote` of `vote_register.go` makes the round's timeout certificate from the first
timeout vote it gets and adds each vote to it with `TimeoutCert.Add`, which keeps the timeout
whose high QC is for the highest round; a certificate with at least the threshold of signatures
is returned.

* `insertTimeoutVote`, and `insertTimeoutVotes`, a run of it that keeps the votes accepted and
  each certificate returned;
* `TcInv`: the certificate holds one signature per accepted vote, all for its round, and the
  timeout of the accepted vote with the highest high QC; made by the first vote (`TcInv.fresh`),
  kept by `Add` (`TcInv.add`) and so by every run (`TcRunInv.insertTimeoutVotes`);
* `TcInv.verify`: such a certificate passes `TimeoutCert.Verify`, the votes having verified,
  with one epoch and stakes of one;
* `timeout_cert_sound`: every certificate returned verifies and its high QC round is the highest.

A Go pointer returned is read as the value it points to when it is returned: the certificate
that later votes change in the register is the next one returned.
-/

namespace BftCore.Rootchain

open BftCore.State (Bytes)

variable {V : Type}

/-- `(*VoteRegister).InsertTimeoutVote`: the certificate, made from the vote's timeout if there
is none, gets the vote; it is returned, with the number of its signatures, once it has at least
`threshold` of them. -/
def insertTimeoutVote (timeout : TimeoutMsg) (threshold : UInt64) :
    EStateM ConsensusError (VoteRegister V) (Option TimeoutCert × UInt64) := fun v =>
  let tc := v.timeoutCert.getD ⟨timeout.timeout, ∅⟩
  -- the certificate made stays when `Add` fails
  let v := { v with timeoutCert := some tc }
  match tc.add timeout.author timeout.timeout timeout.signature with
  | .error (.message e) =>
    .error (.message ("failed to add vote to timeout certificate: " ++ e)) v
  | .error .panic => .error .panic v
  | .ok tc =>
    let v := { v with timeoutCert := some tc }
    let sigCount := tc.signatures.entries.length
    if threshold.toNat ≤ sigCount then .ok (some tc, sigCount.toUInt64) v
    else .ok (none, sigCount.toUInt64) v

/-- What a run of `InsertTimeoutVote` calls shows: the votes accepted, in order, and each
certificate returned with the votes accepted by then. -/
structure TcTally where
  accepted : List TimeoutMsg
  certs : List (TimeoutCert × List TimeoutMsg)

/-- `InsertTimeoutVote` on each vote in turn. -/
def insertTimeoutVotes (threshold : UInt64) :
    List TimeoutMsg → TcTally → VoteRegister V → TcTally × VoteRegister V
  | [], t, v => (t, v)
  | m :: ms, t, v =>
    match insertTimeoutVote m threshold v with
    | .ok (none, _) v' => insertTimeoutVotes threshold ms ⟨t.accepted ++ [m], t.certs⟩ v'
    | .ok (some tc, _) v' =>
      insertTimeoutVotes threshold ms ⟨t.accepted ++ [m], t.certs ++ [(tc, t.accepted ++ [m])]⟩ v'
    | .error _ v' => insertTimeoutVotes threshold ms t v'

/-! ### One call -/

section Call

variable {m : TimeoutMsg} {threshold : UInt64} {v v' : VoteRegister V}

theorem insertTimeoutVote_eq_ok {r : Option TimeoutCert × UInt64}
    (h : insertTimeoutVote m threshold v = .ok r v') :
    ∃ tc, (v.timeoutCert.getD ⟨m.timeout, ∅⟩).add m.author m.timeout m.signature = .ok tc ∧
      v'.timeoutCert = some tc ∧
      ∀ tc', r.1 = some tc' → tc' = tc ∧ threshold.toNat ≤ tc.signatures.entries.length := by
  unfold insertTimeoutVote at h
  dsimp only at h
  split at h
  · cases h
  · cases h
  · rename_i tc hadd
    refine ⟨tc, hadd, ?_⟩
    split_ifs at h with hthr
    · cases h
      exact ⟨rfl, fun tc' h' => ⟨(Option.some.inj h').symm, hthr⟩⟩
    · cases h
      exact ⟨rfl, fun tc' h' => by cases h'⟩

/-- A refused vote leaves the certificate made from it, or the one there was. -/
theorem insertTimeoutVote_eq_error {e : ConsensusError}
    (h : insertTimeoutVote m threshold v = .error e v') :
    (∃ e', (v.timeoutCert.getD ⟨m.timeout, ∅⟩).add m.author m.timeout m.signature = .error e') ∧
      v'.timeoutCert = some (v.timeoutCert.getD ⟨m.timeout, ∅⟩) := by
  unfold insertTimeoutVote at h
  dsimp only at h
  split at h
  · rename_i e' hadd
    cases h
    exact ⟨⟨_, hadd⟩, rfl⟩
  · rename_i hadd
    cases h
    exact ⟨⟨_, hadd⟩, rfl⟩
  · split_ifs at h

end Call

/-! ### What the certificate holds -/

/-- What a timeout certificate holds after accepting the timeout votes `acc`, in order. -/
structure TcInv (acc : List TimeoutMsg) (x : TimeoutCert) : Prop where
  /-- an author is accepted once -/
  nodup : (acc.map TimeoutMsg.author).Nodup
  /-- one signature per accepted vote, with the round of its high QC -/
  signatures : ∀ a vote, x.signatures.lookup a = some vote ↔
    ∃ m ∈ acc, m.author = a ∧ vote = ⟨Timeout.getHqcRound m.timeout, m.signature⟩
  count : x.signatures.entries.length = acc.length
  /-- the certificate's timeout is that of an accepted vote -/
  timeout : ∃ m ∈ acc, x.timeout = m.timeout
  /-- every accepted vote is for the certificate's round -/
  round : ∀ m ∈ acc, Timeout.getRound m.timeout = Timeout.getRound x.timeout
  /-- and none has a higher high QC -/
  highest : ∀ m ∈ acc, Timeout.getHqcRound m.timeout ≤ Timeout.getHqcRound x.timeout

section Add

variable {acc : List TimeoutMsg} {m : TimeoutMsg} {x x' : TimeoutCert}

/-- The round of a high QC that `Add` reads is that of `GetHqcRound`. -/
theorem getHqcRound_of_voteRound? {timeout : Option Timeout} {t : Timeout} {round : UInt64}
    (ht : timeout = some t) (h : QuorumCert.voteRound? t.highQc = some round) :
    Timeout.getHqcRound timeout = round := by
  rw [ht]
  exact QuorumCert.getRound_of_voteRound? h

/-- The first vote makes the certificate from its own timeout. -/
theorem TcInv.fresh (hadd : (TimeoutCert.mk m.timeout ∅).add m.author m.timeout m.signature = .ok x') :
    TcInv [m] x' := by
  obtain ⟨T, t, hq, thq, hT, ht, -, -, hhq, -, rfl⟩ := TimeoutCert.add_eq_ok hadd
  obtain rfl : T = t := Option.some.inj (hT.symm.trans ht)
  have hmq : Timeout.getHqcRound m.timeout = hq := getHqcRound_of_voteRound? ht hhq
  refine ⟨List.nodup_singleton _, fun a vote => ?_, rfl, ⟨m, List.mem_singleton_self _, ?_⟩,
    fun m' hm' => ?_, fun m' hm' => ?_⟩
  · show ((∅ : AList fun _ : String => TimeoutVote).insert m.author ⟨hq, m.signature⟩).lookup a =
      some vote ↔ _
    by_cases ha : a = m.author
    · subst ha
      rw [AList.lookup_insert, Option.some.injEq]
      simp only [List.mem_singleton, exists_eq_left, hmq, true_and]
      exact eq_comm
    · rw [AList.lookup_insert_ne ha, AList.lookup_empty]
      simp [Ne.symm ha]
  · simp [ht]
  · rw [List.mem_singleton.mp hm', ht, ite_self]
  · rw [List.mem_singleton.mp hm', ht, ite_self]
    exact UInt64.le_refl _

/-- `Add` keeps the invariant: an accepted vote joins `acc`. -/
theorem TcInv.add (hinv : TcInv acc x) (hadd : x.add m.author m.timeout m.signature = .ok x') :
    TcInv (acc ++ [m]) x' := by
  obtain ⟨T, t, hq, thq, hx, ht, hround, hnew, hhq, hthq, rfl⟩ := TimeoutCert.add_eq_ok hadd
  have hmq : Timeout.getHqcRound m.timeout = hq := getHqcRound_of_voteRound? ht hhq
  have hxq : Timeout.getHqcRound x.timeout = thq := getHqcRound_of_voteRound? hx hthq
  have hfresh : ∀ m' ∈ acc, m'.author ≠ m.author := fun m' hm' ha => by
    have h' := (hinv.signatures m.author _).mpr ⟨m', hm', ha, rfl⟩
    rw [hnew] at h'
    cases h'
  -- the timeout kept is for the same round, with the higher of the two high QCs
  have hround' : Timeout.getRound (some (if hq > thq then t else T)) = Timeout.getRound x.timeout := by
    rw [hx]
    split <;> simp [Timeout.getRound, hround]
  have hhigh : thq ≤ Timeout.getHqcRound (some (if hq > thq then t else T)) ∧
      hq ≤ Timeout.getHqcRound (some (if hq > thq then t else T)) := by
    split
    · rename_i hgt
      rw [getHqcRound_of_voteRound? rfl hhq]
      exact ⟨UInt64.le_of_lt hgt, UInt64.le_refl _⟩
    · rename_i hle
      rw [getHqcRound_of_voteRound? rfl hthq]
      exact ⟨UInt64.le_refl _, UInt64.not_lt.mp hle⟩
  refine ⟨?nodup, fun a vote => ?_, ?_, ?_, fun m' hm' => ?_, fun m' hm' => ?_⟩
  case nodup =>
    rw [List.map_append, List.nodup_append]
    refine ⟨hinv.nodup, List.nodup_singleton _, fun y hy z hz => ?_⟩
    obtain ⟨m', hm', rfl⟩ := List.mem_map.mp hy
    rw [List.map_singleton, List.mem_singleton] at hz
    rw [hz]
    exact hfresh m' hm'
  · -- the new signature is the vote's, the others are as they were
    show (x.signatures.insert m.author ⟨hq, m.signature⟩).lookup a = some vote ↔ _
    by_cases ha : a = m.author
    · subst ha
      rw [AList.lookup_insert, Option.some.injEq]
      constructor
      · rintro rfl
        exact ⟨m, List.mem_append_right _ (List.mem_singleton_self _), rfl, by rw [hmq]⟩
      · rintro ⟨m', hm', ha, rfl⟩
        rcases List.mem_append.mp hm' with hm' | hm'
        · exact absurd ha (hfresh m' hm')
        · rw [List.mem_singleton.mp hm', hmq]
    · rw [AList.lookup_insert_ne ha, hinv.signatures]
      simp only [List.mem_append, List.mem_singleton, or_and_right, exists_or, exists_eq_left]
      constructor
      · exact .inl
      · rintro (h | ⟨hma, -⟩)
        · exact h
        · exact absurd hma.symm ha
  · show (x.signatures.insert m.author ⟨hq, m.signature⟩).entries.length = _
    rw [AList.entries_insert_of_notMem (AList.lookup_eq_none.mp hnew), List.length_cons,
      hinv.count, List.length_append, List.length_singleton]
  · by_cases hgt : hq > thq
    · exact ⟨m, List.mem_append_right _ (List.mem_singleton_self _), by rw [if_pos hgt, ht]⟩
    · obtain ⟨m', hm', hxm⟩ := hinv.timeout
      exact ⟨m', List.mem_append_left _ hm', by rw [if_neg hgt, ← hx, hxm]⟩
  · rw [hround']
    rcases List.mem_append.mp hm' with hm' | hm'
    · exact hinv.round m' hm'
    · rw [List.mem_singleton.mp hm', ht, hx]
      exact hround.symm
  · rcases List.mem_append.mp hm' with hm' | hm'
    · exact UInt64.le_trans (hxq ▸ hinv.highest m' hm') hhigh.1
    · rw [List.mem_singleton.mp hm', hmq]
      exact hhigh.2

/-- The high QC round of the certificate is the highest of its signatures'. -/
theorem TcInv.hqcRound_eq_max (hinv : TcInv acc x) :
    (∃ a vote, x.signatures.lookup a = some vote ∧
      vote.hqcRound = Timeout.getHqcRound x.timeout) ∧
    ∀ a vote, x.signatures.lookup a = some vote → vote.hqcRound ≤ Timeout.getHqcRound x.timeout := by
  obtain ⟨m, hm, hxm⟩ := hinv.timeout
  refine ⟨⟨m.author, _, (hinv.signatures _ _).mpr ⟨m, hm, rfl, rfl⟩, by rw [hxm]⟩, ?_⟩
  intro a vote h
  obtain ⟨m', hm', -, rfl⟩ := (hinv.signatures a vote).mp h
  exact hinv.highest m' hm'

end Add

/-! ### The certificate verifies -/

section Verify

variable {enc : Encoding} {tb : RootTrustBase}

/-- A certificate over verified votes of one epoch, each signature of stake one, with at least
the threshold of signatures, passes `TimeoutCert.Verify`. -/
theorem TcInv.verify {acc : List TimeoutMsg} {x : TimeoutCert} {epoch : UInt64}
    (hinv : TcInv acc x) (hverified : ∀ m ∈ acc, m.verify enc tb = .ok ())
    (hepoch : ∀ m ∈ acc, ∀ t, m.timeout = some t → t.epoch = epoch)
    (hunit : ∀ data sig a stake, tb.verifySignature data sig a = .ok stake → stake = 1)
    (hthr : tb.getQuorumThreshold.toNat ≤ x.signatures.entries.length)
    (hlen : x.signatures.entries.length < 2 ^ 64) : x.verify enc tb = .ok () := by
  obtain ⟨m₀, hm₀, hxm₀⟩ := hinv.timeout
  obtain ⟨T, hT, hTv, -⟩ := TimeoutMsg.verify_eq_ok (hverified m₀ hm₀)
  have hx : x.timeout = some T := hxm₀.trans hT
  -- every signature checks against the bytes of the certificate's timeout
  have hsig : ∀ e ∈ x.signatures.entries, tb.verifySignature
      (timeoutBytes T.round T.epoch e.2.hqcRound e.1) e.2.signature e.1 = .ok 1 := by
    rintro ⟨a, vote⟩ he
    obtain ⟨m, hm, rfl, rfl⟩ := (hinv.signatures a vote).mp (AList.mem_lookup_iff.mpr he)
    obtain ⟨t, ht, -, stake, hstake⟩ := TimeoutMsg.verify_eq_ok (hverified m hm)
    have hround : t.round = T.round := by
      simpa [ht, hx, Timeout.getRound] using hinv.round m hm
    have hep : t.epoch = T.epoch := (hepoch m hm t ht).trans (hepoch m₀ hm₀ T hT).symm
    rw [hunit _ _ _ _ hstake] at hstake
    simpa [ht, TimeoutMsg.bytes, Timeout.getHqcRound, hround, hep] using hstake
  obtain ⟨signed, maxRound, htally, hsigned, -, hall, hfrom⟩ := tallyTimeoutVotes_eq_ok hsig (0, 0)
  refine TimeoutCert.verify_eq_ok_of hx hTv htally ?_ ?_
  · rw [UInt64.lt_iff_toNat_lt]
    simp only [UInt64.toNat_zero, Nat.zero_add] at hsigned
    omega
  · -- the highest signed round is the high QC's: bounded by it, and reached by its own vote
    obtain ⟨⟨a, vote, hvote, hround⟩, hbound⟩ := hinv.hqcRound_eq_max
    rw [hx] at hround hbound
    apply UInt64.le_antisymm
    · have hle := hall ⟨a, vote⟩ (AList.mem_lookup_iff.mp hvote)
      rw [hround] at hle
      exact hle
    · rcases hfrom with h0 | ⟨e, he, he'⟩
      · rw [h0]
        exact UInt64.zero_le
      · exact he' ▸ hbound e.1 e.2 (AList.mem_lookup_iff.mpr he)

end Verify

/-! ### A run of calls -/

section Run

variable {enc : Encoding} {tb : RootTrustBase} {threshold : UInt64}

/-- The invariant of a run: the register's certificate holds the votes accepted, and each
certificate returned holds, with at least `threshold` signatures, the votes accepted by then. -/
structure TcRunInv (threshold : UInt64) (t : TcTally) (v : VoteRegister V) : Prop where
  none : v.timeoutCert = none → t.accepted = []
  some : ∀ x, v.timeoutCert = some x → TcInv t.accepted x
  certs : ∀ p ∈ t.certs, p.2 <+: t.accepted ∧
    threshold.toNat ≤ p.1.signatures.entries.length ∧ TcInv p.2 p.1

theorem TcRunInv.reset (v : VoteRegister V) : TcRunInv threshold ⟨[], []⟩ v.reset where
  none _ := rfl
  some x hx := by cases hx
  certs p hp := by cases hp

/-- `Add` on the register's certificate, or on the one made from the vote. -/
theorem TcRunInv.add {t : TcTally} {v : VoteRegister V} {m : TimeoutMsg} {x' : TimeoutCert}
    (hinv : TcRunInv threshold t v)
    (hadd : (v.timeoutCert.getD ⟨m.timeout, ∅⟩).add m.author m.timeout m.signature = .ok x') :
    TcInv (t.accepted ++ [m]) x' := by
  cases hv : v.timeoutCert with
  | none =>
    rw [hv] at hadd
    rw [hinv.none hv]
    exact TcInv.fresh hadd
  | some x =>
    rw [hv] at hadd
    exact (hinv.some x hv).add hadd

/-- The first vote, verified, is added. -/
theorem add_fresh_of_verify {m : TimeoutMsg} (h : m.verify enc tb = .ok ()) :
    ∃ x', (TimeoutCert.mk m.timeout ∅).add m.author m.timeout m.signature = .ok x' := by
  obtain ⟨t, ht, hv, -⟩ := TimeoutMsg.verify_eq_ok h
  rw [ht]
  exact ⟨_, TimeoutCert.add_fresh (Timeout.voteRound?_of_verify hv) _ _⟩

/-- Every run of verified votes keeps the invariant. -/
theorem TcRunInv.insertTimeoutVotes (ms : List TimeoutMsg) :
    ∀ {t : TcTally} {v : VoteRegister V}, (∀ m ∈ ms, m.verify enc tb = .ok ()) →
      TcRunInv threshold t v →
      TcRunInv threshold (insertTimeoutVotes threshold ms t v).1
        (insertTimeoutVotes threshold ms t v).2 := by
  induction ms with
  | nil => exact fun _ => id
  | cons m ms ih =>
    intro t v hverified hinv
    have hrest : ∀ m' ∈ ms, m'.verify enc tb = .ok () := fun m' hm' =>
      hverified m' (List.mem_cons_of_mem _ hm')
    unfold Rootchain.insertTimeoutVotes
    cases h : insertTimeoutVote m threshold v with
    | ok r v' =>
      obtain ⟨tc, hadd, hv', hr⟩ := insertTimeoutVote_eq_ok h
      have htc := hinv.add hadd
      obtain ⟨r₁, r₂⟩ := r
      -- the accepted vote joins; a returned certificate is the register's
      cases r₁ with
      | none =>
        refine ih hrest ⟨fun hn => by simp [hv'] at hn, fun x hx => ?_, fun p hp => ?_⟩
        · rw [hv', Option.some.injEq] at hx
          exact hx ▸ htc
        · obtain ⟨hpre, hrest'⟩ := hinv.certs p hp
          exact ⟨hpre.trans (List.prefix_append _ _), hrest'⟩
      | some tc' =>
        obtain ⟨rfl, hthr⟩ := hr tc' rfl
        refine ih hrest ⟨fun hn => by simp [hv'] at hn, fun x hx => ?_, fun p hp => ?_⟩
        · rw [hv', Option.some.injEq] at hx
          exact hx ▸ htc
        · rcases List.mem_append.mp hp with hp | hp
          · obtain ⟨hpre, hrest'⟩ := hinv.certs p hp
            exact ⟨hpre.trans (List.prefix_append _ _), hrest'⟩
          · rw [List.mem_singleton.mp hp]
            exact ⟨List.prefix_refl _, hthr, htc⟩
    | error e v' =>
      -- refused: the register had a certificate, which stays
      obtain ⟨⟨e', hadd⟩, hv'⟩ := insertTimeoutVote_eq_error h
      cases hv : v.timeoutCert with
      | none =>
        obtain ⟨x', hx'⟩ := add_fresh_of_verify (hverified m List.mem_cons_self)
        rw [hv, Option.getD_none, hx'] at hadd
        cases hadd
      | some x =>
        rw [hv] at hv'
        exact ih hrest ⟨fun hn => by simp [hv'] at hn, fun x' hx' => by
          rw [hv', Option.some.injEq] at hx'
          exact hx' ▸ hinv.some x hv, hinv.certs⟩

/-- A run accepts some of its votes, in order. -/
theorem insertTimeoutVotes_accepted (ms : List TimeoutMsg) :
    ∀ (t : TcTally) (v : VoteRegister V), ∃ fresh, fresh.Sublist ms ∧
      (insertTimeoutVotes threshold ms t v).1.accepted = t.accepted ++ fresh := by
  induction ms with
  | nil => exact fun t _ => ⟨[], List.Sublist.slnil, by simp [Rootchain.insertTimeoutVotes]⟩
  | cons m ms ih =>
    intro t v
    unfold Rootchain.insertTimeoutVotes
    split
    · obtain ⟨fresh, hsub, heq⟩ := ih ⟨t.accepted ++ [m], t.certs⟩ _
      exact ⟨m :: fresh, hsub.cons_cons m, by rw [heq]; simp⟩
    · obtain ⟨fresh, hsub, heq⟩ := ih ⟨t.accepted ++ [m], _⟩ _
      exact ⟨m :: fresh, hsub.cons_cons m, by rw [heq]; simp⟩
    · obtain ⟨fresh, hsub, heq⟩ := ih t _
      exact ⟨fresh, hsub.cons m, heq⟩

end Run

/-! ### The timeout certificates of a round -/

/-- `InsertTimeoutVote` on timeout votes from a `Reset`, with the trust base's threshold, the
votes having verified, with one epoch: the register's certificate holds the votes accepted, one
per author, all for its round, with the timeout of the highest high QC; and with stakes of one
each certificate returned passes `TimeoutCert.Verify`, its high QC round at least that of every
vote in it. -/
theorem timeout_cert_sound (enc : Encoding) (tb : RootTrustBase)
    (hunit : ∀ data sig a stake, tb.verifySignature data sig a = .ok stake → stake = 1)
    (epoch : UInt64) (v : VoteRegister V) (msgs : List TimeoutMsg)
    (hverified : ∀ m ∈ msgs, m.verify enc tb = .ok ())
    (hepoch : ∀ m ∈ msgs, ∀ t, m.timeout = some t → t.epoch = epoch)
    (hlen : msgs.length < 2 ^ 64) :
    let run := insertTimeoutVotes tb.getQuorumThreshold msgs ⟨[], []⟩ v.reset
    (∀ x, run.2.timeoutCert = some x → TcInv run.1.accepted x) ∧
    ∀ p ∈ run.1.certs, TcInv p.2 p.1 ∧ p.1.verify enc tb = .ok () ∧
      ∀ m ∈ p.2, Timeout.getHqcRound m.timeout ≤ TimeoutCert.getHqcRound (some p.1) := by
  intro run
  have hinv : TcRunInv tb.getQuorumThreshold run.1 run.2 :=
    TcRunInv.insertTimeoutVotes msgs hverified (TcRunInv.reset v)
  obtain ⟨fresh, hsub, hacc⟩ : ∃ fresh, fresh.Sublist msgs ∧ run.1.accepted = [] ++ fresh :=
    insertTimeoutVotes_accepted msgs _ _
  have haccepted : run.1.accepted.Sublist msgs := by
    rw [hacc, List.nil_append]
    exact hsub
  refine ⟨hinv.some, fun p hp => ?_⟩
  obtain ⟨hpre, hthr, htc⟩ := hinv.certs p hp
  have hin : ∀ m ∈ p.2, m ∈ msgs := fun m hm => haccepted.subset (hpre.subset hm)
  -- no more signatures than votes
  have hlen' : p.1.signatures.entries.length < 2 ^ 64 := by
    have hle := (hpre.sublist.trans haccepted).length_le
    rw [htc.count]
    omega
  refine ⟨htc, htc.verify (fun m hm => hverified m (hin m hm)) (fun m hm => hepoch m (hin m hm))
    hunit hthr hlen', fun m hm => ?_⟩
  exact htc.highest m hm

/-- The timeout message of `author` for round 2, on the genesis QC. -/
def roundTwoTimeout (author : String) : TimeoutMsg := ⟨some ⟨0, 2, some genesisQc⟩, author, [], none⟩

/-- The timeout messages of `a`, `a` again and `b` for round 2, with threshold two: the repeated
vote is refused, and the vote of `b` returns a certificate of the two. -/
theorem timeout_cert_sound_sealEncoding :
    (∀ data sig a stake, pairTrustBase.verifySignature data sig a = .ok stake → stake = 1) ∧
    (∀ m ∈ [roundTwoTimeout "a", roundTwoTimeout "a", roundTwoTimeout "b"],
      m.verify sealEncoding pairTrustBase = .ok ()) ∧
    (∀ m ∈ [roundTwoTimeout "a", roundTwoTimeout "a", roundTwoTimeout "b"],
      ∀ t, m.timeout = some t → t.epoch = 0) ∧
    [roundTwoTimeout "a", roundTwoTimeout "a", roundTwoTimeout "b"].length < 2 ^ 64 ∧
    let run := insertTimeoutVotes pairTrustBase.getQuorumThreshold
      [roundTwoTimeout "a", roundTwoTimeout "a", roundTwoTimeout "b"] ⟨[], []⟩
      (VoteRegister.new : VoteRegister Bytes).reset
    (run.1.accepted.map TimeoutMsg.author = ["a", "b"] ∧
      run.1.certs.map (·.1.signatures.entries.length) = [2]) ∧
    (∀ x, run.2.timeoutCert = some x → TcInv run.1.accepted x) ∧
    ∀ p ∈ run.1.certs, TcInv p.2 p.1 ∧ p.1.verify sealEncoding pairTrustBase = .ok () ∧
      ∀ m ∈ p.2, Timeout.getHqcRound m.timeout ≤ TimeoutCert.getHqcRound (some p.1) := by
  have hmem : ∀ m ∈ [roundTwoTimeout "a", roundTwoTimeout "a", roundTwoTimeout "b"],
      m = roundTwoTimeout "a" ∨ m = roundTwoTimeout "b" := by
    intro m hm
    simp only [List.mem_cons, List.not_mem_nil, or_false] at hm
    rcases hm with h | h | h
    · exact .inl h
    · exact .inl h
    · exact .inr h
  refine ⟨?unit, ?verified, ?epoch, ?len, ?run⟩
  case run =>
    intro run
    exact ⟨⟨rfl, rfl⟩, timeout_cert_sound sealEncoding pairTrustBase ?unit 0 _ _ ?verified ?epoch
      ?len⟩
  case unit =>
    intro data sig a stake h
    exact (Except.ok.inj h).symm
  case verified =>
    intro m hm
    rcases hmem m hm with rfl | rfl <;> rfl
  case epoch =>
    intro m hm t ht
    rcases hmem m hm with rfl | rfl <;>
    · cases ht
      rfl
  case len => decide

end BftCore.Rootchain
