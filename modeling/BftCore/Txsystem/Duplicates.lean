import BftCore.Txsystem.Generic

/-!
# `txsystem`: no order is executed twice

Once `Execute` has returned a record for an order, the buffer holds its id until the end of a
block at or after its timeout, and from then on the order is refused as expired, provided the
next `Execute` comes in a later round.  This is what the partition node's order of calls
(`InOrder`) gives, and no more:

* `Recorded`, `Guarded`: where the order stands after its record, and after its round has
  been committed: its id pending or held in the buffer, or its timeout passed (below the
  current round, or equal to it in a closed block);
* `recorded_run`, `guarded_run`: one call of the node's order keeps them (all but `Revert`
  for `Recorded`), and `Recorded.commit`: a successful `Commit` turns the first into the
  second;
* `execute_refused`: in an open block, `Execute` refuses the order in either case;
* `execute_once`: an order whose round was committed gets no second record, in the same
  block or in any later one;
* `execute_again_after_revert`: with round numbers that only never decrease, a block of the
  order's timeout round that `EndBlock` closed and `Revert` reverted can be begun again, and
  the order gets a second record in it.
-/

namespace BftCore.Txsystem

open EStateM ETBuffer

variable {K A S I R U Q E : Type}

/-! ### Where an order stands after its record -/

section Guard

variable (x : I) (t : UInt64)

/-- The timeout `t` has passed at round `round` with the block open (`o`) or not: it is below
the round, or equal to it and the block is closed, so no order with that timeout is executed
again in this round. -/
def Expired (o : Bool) (round : UInt64) : Prop := t < round ∨ (t = round ∧ o = false)

/-- After the round of its record was committed: the id `x` is held in the buffer with the
timeout `t`, or the timeout has passed. -/
def Guarded (o : Bool) (m : GenericTxSystem K S I E) : Prop :=
  m.etBuffer.Held x t ∨ Expired t o m.currentRoundNumber

/-- After its record: the id is pending, or the order is guarded. -/
def Recorded (o : Bool) (m : GenericTxSystem K S I E) : Prop :=
  m.etBuffer.Pending x t ∨ Guarded x t o m

end Guard

variable {x : I} {t : UInt64}

theorem Expired.close {o : Bool} {round : UInt64} (h : Expired t o round) :
    Expired t false round := by
  rcases h with h | ⟨h, -⟩
  · exact .inl h
  · exact .inr ⟨h, rfl⟩

/-- A timeout at most the round has passed once the block is closed. -/
theorem expired_of_le {round : UInt64} (h : t ≤ round) : Expired t false round := by
  rcases UInt64.lt_or_eq_of_le h with h | h
  · exact .inl h
  · exact .inr ⟨h, rfl⟩

/-- A timeout that has passed is below the round of an open block. -/
theorem Expired.lt {round : UInt64} (h : Expired t true round) : t < round := by
  rcases h with h | ⟨-, h⟩
  · exact h
  · cases h

/-- A `BeginBlock` for a later round passes every timeout that had passed. -/
theorem Expired.beginBlock {o : Bool} {round roundNo : UInt64} (h : Expired t o round)
    (hr : round < roundNo) : Expired t true roundNo := by
  rcases h with h | ⟨rfl, -⟩
  · exact .inl (UInt64.lt_trans h hr)
  · exact .inl hr

variable [DecidableEq I] (hooks : Hooks K A S I R U Q E)

/-! ### One call -/

/-- One call in the node's order keeps a guarded order guarded. -/
theorem guarded_run {c : Call K A U} {o : Bool} {m : GenericTxSystem K S I E}
    (hc : c.Allowed o m.currentRoundNumber) (h : Guarded x t o m) :
    Guarded x t (c.opens o) (c.run hooks m) := by
  cases c with
  | beginBlock roundNo =>
    obtain ⟨hbuf, hround⟩ := run_beginBlock hooks (K := K) (A := A) (U := U) roundNo m
    rw [Guarded, hbuf, hround]
    rcases h with hh | he
    · exact .inl hh
    · exact .inr (he.beginBlock hc)
  | execute tx =>
    show Guarded x t o (final (execute hooks tx) m)
    rcases final_cases (execute hooks tx) m with ⟨tr, hok⟩ | ⟨e, herr⟩
    · -- a record: another id was added
      obtain ⟨y, -, hy, -, hbuf, hround⟩ := execute_eq_ok hooks hok
      rw [Guarded, hbuf, hround]
      rcases h with hh | he
      · exact .inl (hh.add hy _)
      · exact .inr he
    · obtain ⟨hbuf, hround⟩ := execute_eq_error hooks herr
      rwa [Guarded, hbuf, hround]
  | endBlock =>
    obtain ⟨hbuf, hround⟩ := run_endBlock hooks (K := K) (A := A) (U := U) m
    rw [Guarded, hbuf, hround]
    rcases h with hh | he
    · rcases hh.clearExpired m.currentRoundNumber with hh' | hle
      · exact .inl hh'
      · exact .inr (expired_of_le hle)
    · exact .inr he.close
  | commit uc =>
    show Guarded x t false (final (commit hooks uc) m)
    rcases final_cases (commit hooks uc) m with ⟨_, hok⟩ | ⟨e, herr⟩
    · obtain ⟨hbuf, hround⟩ := commit_eq_ok hooks hok
      rw [Guarded, hbuf, hround]
      rcases h with hh | he
      · exact .inl hh.commit
      · exact .inr he.close
    · obtain ⟨hbuf, hround⟩ := commit_eq_error hooks herr
      rw [Guarded, hbuf, hround]
      rcases h with hh | he
      · exact .inl hh
      · exact .inr he.close
  | revert =>
    obtain ⟨hbuf, hround⟩ := run_revert hooks (K := K) (A := A) (U := U) m
    rw [Guarded, hbuf, hround]
    rcases h with hh | he
    · refine .inl ?_
      split
      · exact hh
      · exact hh.revert
    · exact .inr he.close

/-- One call of the node's order other than `Revert` keeps a recorded order recorded. -/
theorem recorded_run {c : Call K A U} {o : Bool} {m : GenericTxSystem K S I E}
    (hrev : c ≠ .revert) (hc : c.Allowed o m.currentRoundNumber) (h : Recorded x t o m) :
    Recorded x t (c.opens o) (c.run hooks m) := by
  rcases h with hp | hg
  case inr => exact .inr (guarded_run hooks hc hg)
  cases c with
  | beginBlock roundNo =>
    obtain ⟨hbuf, -⟩ := run_beginBlock hooks (K := K) (A := A) (U := U) roundNo m
    rw [Recorded, hbuf]
    exact .inl hp
  | execute tx =>
    show Recorded x t o (final (execute hooks tx) m)
    rcases final_cases (execute hooks tx) m with ⟨tr, hok⟩ | ⟨e, herr⟩
    · obtain ⟨y, -, hy, -, hbuf, -⟩ := execute_eq_ok hooks hok
      rw [Recorded, hbuf]
      exact .inl (hp.add hy _)
    · obtain ⟨hbuf, -⟩ := execute_eq_error hooks herr
      rw [Recorded, hbuf]
      exact .inl hp
  | endBlock =>
    obtain ⟨hbuf, hround⟩ := run_endBlock hooks (K := K) (A := A) (U := U) m
    rw [Recorded, Guarded, hbuf, hround]
    rcases hp.clearExpired m.currentRoundNumber with hp' | hle
    · exact .inl hp'
    · exact .inr (.inr (expired_of_le hle))
  | commit uc =>
    show Recorded x t false (final (commit hooks uc) m)
    rcases final_cases (commit hooks uc) m with ⟨_, hok⟩ | ⟨e, herr⟩
    · obtain ⟨hbuf, -⟩ := commit_eq_ok hooks hok
      rw [Recorded, Guarded, hbuf]
      exact .inr (.inl hp.commit)
    · obtain ⟨hbuf, -⟩ := commit_eq_error hooks herr
      rw [Recorded, hbuf]
      exact .inl hp
  | revert => exact absurd rfl hrev

omit [DecidableEq I] in
/-- A successful `Commit` guards a recorded order. -/
theorem guarded_of_commit {o : Bool} {m m' : GenericTxSystem K S I E} {uc : U}
    (h : Recorded x t o m) (hc : commit hooks uc m = .ok () m') : Guarded x t false m' := by
  obtain ⟨hbuf, hround⟩ := commit_eq_ok hooks hc
  rw [Guarded, hbuf, hround]
  rcases h with hp | hh | he
  · exact .inl hp.commit
  · exact .inl hh.commit
  · exact .inr he.close

/-- An order gets its record with its id pending. -/
theorem recorded_of_execute {tx : TransactionOrder K A} {m m' : GenericTxSystem K S I E} {tr : R}
    (h : execute hooks tx m = .ok tr m') (hx : hooks.txID tx = .ok x) (o : Bool) :
    Recorded x tx.timeout o m' := by
  obtain ⟨y, hy, hget, -, hbuf, -⟩ := execute_eq_ok hooks h
  rw [hx] at hy
  cases hy
  refine .inl ⟨?_, ?_⟩
  · rw [hbuf]
    exact add_pending_self _ _ _
  · rw [hbuf, add_executed]
    exact ((get_eq_none _).mp hget).1

/-- In an open block, `Execute` refuses a recorded order: its id is in the buffer, or its
timeout is below the round. -/
theorem execute_refused {tx : TransactionOrder K A} {m : GenericTxSystem K S I E}
    (hx : hooks.txID tx = .ok x) (h : Recorded x tx.timeout true m) (tr : R)
    (m' : GenericTxSystem K S I E) : execute hooks tx m ≠ .ok tr m' := by
  intro hok
  obtain ⟨y, hy, hget, hv, -, -⟩ := execute_eq_ok hooks hok
  rw [hx] at hy
  cases hy
  rcases h with hp | hh | he
  · rw [hp.get] at hget
    cases hget
  · rw [hh.get] at hget
    cases hget
  · exact UInt64.not_lt.mpr (GenericTxSystem.currentRoundNumber_le_of_valid hv) he.lt

/-! ### Runs -/

/-- Through calls of the node's order none of which is `Revert`, a recorded order stays
recorded. -/
theorem recorded_runCalls {cs rest : List (Call K A U)} {o : Bool} {m : GenericTxSystem K S I E}
    (h : Recorded x t o m) (hrev : Call.revert ∉ cs) (hord : InOrder hooks o m (cs ++ rest)) :
    ∃ o', Recorded x t o' (runCalls hooks cs m) ∧ InOrder hooks o' (runCalls hooks cs m) rest := by
  induction cs generalizing o m with
  | nil => exact ⟨o, h, hord⟩
  | cons c cs ih =>
    obtain ⟨hc, hord'⟩ := hord
    have hcr : c ≠ .revert := fun e => hrev (e ▸ List.mem_cons_self ..)
    exact ih (recorded_run hooks hcr hc h) (fun hm => hrev (List.mem_cons_of_mem _ hm)) hord'

/-- Through calls of the node's order, a guarded order stays guarded. -/
theorem guarded_runCalls {cs rest : List (Call K A U)} {o : Bool} {m : GenericTxSystem K S I E}
    (h : Guarded x t o m) (hord : InOrder hooks o m (cs ++ rest)) :
    ∃ o', Guarded x t o' (runCalls hooks cs m) ∧ InOrder hooks o' (runCalls hooks cs m) rest := by
  induction cs generalizing o m with
  | nil => exact ⟨o, h, hord⟩
  | cons c cs ih =>
    obtain ⟨hc, hord'⟩ := hord
    exact ih (guarded_run hooks hc h) hord'

/-- **No order is executed twice**, in the partition node's order of calls: after `Execute`
returned a record for `tx` in an open block, and the calls `mid`, none of them `Revert`, led to a
successful `Commit`, an `Execute` of `tx` after any calls `cs` fails, whether `cs` stops before
that commit or goes on after it. -/
theorem execute_once {tx : TransactionOrder K A} {m m₁ : GenericTxSystem K S I E} {tr : R}
    (hrec : execute hooks tx m = .ok tr m₁) {mid : List (Call K A U)} {uc : U}
    {m₂ : GenericTxSystem K S I E} (hmid : Call.revert ∉ mid)
    (hcommit : commit hooks uc (runCalls hooks mid m₁) = .ok () m₂) {cs : List (Call K A U)}
    (hcs : cs <+: mid ∨ ∃ post, cs = mid ++ .commit uc :: post)
    (hord : InOrder hooks true m₁ (cs ++ [.execute tx])) :
    ∃ e m', execute hooks tx (runCalls hooks cs m₁) = .error e m' := by
  obtain ⟨x, hx, -⟩ := execute_eq_ok hooks hrec
  have hR : Recorded x tx.timeout true m₁ := recorded_of_execute hooks hrec hx true
  -- the order is recorded at the last `Execute`, which the node makes in an open block
  suffices h : ∃ o, Recorded x tx.timeout o (runCalls hooks cs m₁) ∧
      InOrder hooks o (runCalls hooks cs m₁) [.execute tx] by
    obtain ⟨o, hR', ho, -⟩ := h
    cases ho
    rcases final_cases (execute hooks tx) (runCalls hooks cs m₁) with ⟨tr', hok⟩ | ⟨e, herr⟩
    · exact absurd hok (execute_refused hooks hx hR' _ _)
    · exact ⟨e, _, herr⟩
  rcases hcs with ⟨rest, rfl⟩ | ⟨post, rfl⟩
  · -- before the commit
    exact recorded_runCalls hooks hR (fun hm => hmid (List.mem_append_left _ hm)) hord
  · -- after the commit, which guards the order
    rw [List.append_assoc, List.cons_append] at hord
    obtain ⟨o, hR', -, hord'⟩ := recorded_runCalls hooks hR hmid hord
    have hm₂ : (Call.commit uc : Call K A U).run hooks (runCalls hooks mid m₁) = m₂ := by
      simp only [Call.run, final, hcommit]
    rw [hm₂] at hord'
    obtain ⟨o', hG, hord''⟩ := guarded_runCalls hooks (guarded_of_commit hooks hR' hcommit) hord'
    rw [runCalls_append, runCalls_cons, hm₂]
    exact ⟨o', .inr hG, hord''⟩

/-! ### A transaction system that records every order -/

/-- An order with no payload, for a unit of no id. -/
abbrev Order := TransactionOrder Unit Unit

/-- A transaction system whose execution returns a record for every order, as `doExecute`
does for every credible order (with a failed status when the order's own execution fails), and
whose state calls all succeed; an order is its own id and its own record. -/
def recordingHooks : Hooks Unit Unit Unit Order Order Unit Unit String where
  txID tx := .ok tx
  process _ tx := pure tx
  beginBlockFunctions _ := pure ()
  endBlockFunctions _ := pure ()
  stateSummary := pure ()
  commitState _ := pure ()
  revertState s := s

/-- The system of network 1 and partition 1, with no executed transactions. -/
def recordingSystem : GenericTxSystem Unit Unit Order String :=
  .new ⟨1, 1⟩ (fun _ => .ok ()) () (fun _ => none)

/-- An order for network 1 and partition 1 with timeout round 2. -/
def orderTimeout2 : Order := ⟨1, 1, (), 2, ()⟩

/-- Round 1 executes the order and is committed; round 2 refuses it, the buffer holding it. -/
theorem execute_once_recording :
    ∃ m₁ m₂, execute recordingHooks orderTimeout2
        (runCalls recordingHooks [.beginBlock 1] recordingSystem) = .ok orderTimeout2 m₁ ∧
      commit recordingHooks () (runCalls recordingHooks [.endBlock] m₁) = .ok () m₂ ∧
      InOrder recordingHooks true m₁ ([.endBlock, .commit (), .beginBlock 2] ++ [.execute orderTimeout2]) ∧
      ∃ e m', execute recordingHooks orderTimeout2
        (runCalls recordingHooks [.endBlock, .commit (), .beginBlock 2] m₁) = .error e m' := by
  refine ⟨?m₁, ?m₂, ?rec, ?com, ?ord, ?refused⟩
  case refused =>
    exact execute_once recordingHooks ?rec (by simp) ?com (.inr ⟨[.beginBlock 2], rfl⟩) ?ord
  case rec => rfl
  case com => rfl
  case ord => decide

/-- With round numbers that only never decrease, an order can get two records: round 1
executes it and is committed; round 2 is ended, which drops the order from the buffer (its
timeout is 2), and reverted, which does not bring it back; round 2, begun again, executes the
order again, its timeout not being below the round. -/
theorem execute_again_after_revert :
    ∃ m₁ m₂ m₃, execute recordingHooks orderTimeout2
        (runCalls recordingHooks [.beginBlock 1] recordingSystem) = .ok orderTimeout2 m₁ ∧
      commit recordingHooks () (runCalls recordingHooks [.endBlock] m₁) = .ok () m₂ ∧
      execute recordingHooks orderTimeout2
        (runCalls recordingHooks [.beginBlock 2, .endBlock, .revert, .beginBlock 2] m₂) =
          .ok orderTimeout2 m₃ :=
  ⟨_, _, _, rfl, rfl, rfl⟩

end BftCore.Txsystem
