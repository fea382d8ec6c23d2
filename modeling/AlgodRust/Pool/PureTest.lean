import AlgodRust.Pool.Consistency
/-!
# PureTest — what the test of a group leaves behind

`test` asks for room in the pool as `remember` does, and the answer may take the one place over capacity that a state
proof has.  Where it does not, the pool is the same afterwards and so is everything that follows; where it does, the
same group is refused when it is to be remembered.
-/
namespace Algod
namespace Pool

open Ledger (SignedTransaction)
open TransactionPool

variable {ε : Type} {enc : TxnEncoding} {ev : BlockEvaluator ε} {p : TransactionPool ε} {g : Group}

/-! ## The place over capacity -/

/-- A group is a single state proof. -/
def isStateProof : Group → Bool
  | [stx] => decide (stx.txn.txnType = .stpf)
  | _ => false

/-- A group that has no room but may go over capacity, as no other one has. -/
def Overflows (p : TransactionPool ε) (g : Group) : Prop :=
  p.config.poolSize < p.pending.txids.entries.length + g.length ∧ isStateProof g = true ∧
    p.inner.stateproofOverflowed = false

/-- The pool with the place over capacity taken. -/
def taken (p : TransactionPool ε) : TransactionPool ε := { p with inner := { p.inner with stateproofOverflowed := true } }

theorem isStateProof_iff : isStateProof g = true ↔ ∃ stx, g = [stx] ∧ stx.txn.txnType = .stpf := by
  constructor
  · intro h
    match g with
    | [] => cases h
    | [stx] => exact ⟨stx, rfl, of_decide_eq_true h⟩
    | _ :: _ :: _ => cases h
  · rintro ⟨stx, rfl, hstx⟩
    exact decide_eq_true hstx

theorem checkPendingQueueSize_overflows (h : Overflows p g) : checkPendingQueueSize p g = (.ok (), taken p) := by
  obtain ⟨hfull, hproof, hfree⟩ := h
  obtain ⟨stx, rfl, hstx⟩ := isStateProof_iff.1 hproof
  unfold checkPendingQueueSize
  rw [if_pos hfull]
  simp only
  rw [if_pos ⟨hstx, hfree⟩]
  rfl

/-- The place is given once. -/
theorem checkPendingQueueSize_taken (h : Overflows p g) :
    checkPendingQueueSize (taken p) g = (.error .pendingQueueFull, taken p) := by
  obtain ⟨hfull, hproof, -⟩ := h
  obtain ⟨stx, rfl, -⟩ := isStateProof_iff.1 hproof
  have hfull' : (taken p).config.poolSize < (taken p).pending.txids.entries.length + [stx].length := hfull
  unfold checkPendingQueueSize
  rw [if_pos hfull']
  simp only
  rw [if_neg (fun hfree => nomatch hfree.2)]

theorem checkPendingQueueSize_keeps (h : ¬ Overflows p g) : (checkPendingQueueSize p g).2 = p := by
  unfold checkPendingQueueSize
  split
  · rename_i hfull
    split
    · split
      · rename_i stx hfree
        exact absurd ⟨hfull, isStateProof_iff.2 ⟨stx, rfl, hfree.1⟩, hfree.2⟩ h
      · rfl
    · rfl
  · rfl

/-! ## One test -/

theorem maybeReprime_of_isSome (h : p.inner.evaluator.isSome) (m : Moment ε) : maybeReprime enc ev m p = p := by
  unfold maybeReprime
  rw [h, Bool.true_or, Bool.true_or, if_pos rfl]

/-- **A test that takes no place leaves the pool as it is.** -/
theorem test_keeps (hev : p.inner.evaluator.isSome) (m : Moment ε)
    (h : ¬ (rejectInBlockFlags 0 g = .ok () ∧ Overflows p g)) : (test enc ev m g p).2 = p := by
  unfold test
  cases hflags : rejectInBlockFlags 0 g with
  | error e => rfl
  | ok u =>
    have hkeeps := checkPendingQueueSize_keeps (fun hover => h ⟨hflags, hover⟩)
    simp only
    cases hroom : checkPendingQueueSize p g with
    | mk r p' =>
      rw [hroom] at hkeeps
      cases hkeeps
      cases r with
      | error e => rfl
      | ok u =>
        simp only
        split
        · rfl
        · rw [maybeReprime_of_isSome hev m]
          split
          · rfl
          · split
            · rfl
            · rfl

theorem test_takes (hpaused : p.inner.evaluatorPaused = false) (hev : p.inner.evaluator.isSome) (m : Moment ε)
    (hflags : rejectInBlockFlags 0 g = .ok ()) (h : Overflows p g) : (test enc ev m g p).2 = taken p := by
  have hprimed : (taken p).inner.evaluator.isSome := hev
  have hrun : (taken p).inner.evaluatorPaused = false := hpaused
  unfold test
  rw [hflags, checkPendingQueueSize_overflows h]
  simp only
  rw [hrun, maybeReprime_of_isSome hprimed m, if_neg Bool.false_ne_true]
  split
  · rfl
  · split
    · rfl
    · rfl

/-! ## Remembering afterwards -/

theorem frameError_ne_full (e : PoolError) : frameError e ≠ .pendingQueueFull := by
  unfold frameError
  split
  · exact fun h => nomatch h
  · exact fun h => nomatch h
  · exact fun h => nomatch h

/-- A group that has room is not refused for want of it. -/
theorem remember_of_overflows (m : Moment ε) (hflags : rejectInBlockFlags 0 g = .ok ()) (h : Overflows p g) :
    (remember enc ev m g p).1 ≠ .error .pendingQueueFull := by
  unfold remember
  rw [hflags, checkPendingQueueSize_overflows h]
  simp only
  split
  · exact fun hr => nomatch hr
  · split
    · intro hr
      exact frameError_ne_full _ (Except.error.inj hr)
    · exact fun hr => nomatch hr

theorem remember_taken (m : Moment ε) (hflags : rejectInBlockFlags 0 g = .ok ()) (h : Overflows p g) :
    (remember enc ev m g (taken p)).1 = .error .pendingQueueFull := by
  unfold remember
  rw [hflags, checkPendingQueueSize_taken h]

/-! ## Any calls afterwards -/

/-- The calls of gossip and of the ledger: `remember`, `test`, `lookup` and `onNewBlock`. -/
def Call.isPlain : Call → Bool
  | .remember _ => true
  | .test _ => true
  | .lookup _ => true
  | .onNewBlock _ _ => true
  | _ => false

/-- **The answers of later calls do not show a test, exactly if the test does not take the place over capacity**; the
call that shows it is that to `remember` the group. -/
theorem test_invisible_iff (p : TransactionPool ε) (g : Group) (m : Moment ε) (hpaused : p.inner.evaluatorPaused = false)
    (hev : p.inner.evaluator.isSome) :
    ((∀ calls : List (Moment ε × Call), (∀ c ∈ calls, c.2.isPlain = true) →
        (performAll enc ev calls (test enc ev m g p).2).1 = (performAll enc ev calls p).1) ↔
      ¬ (rejectInBlockFlags 0 g = .ok () ∧ Overflows p g)) ∧
    (∀ m' : Moment ε, (remember enc ev m' g (test enc ev m g p).2).1 = (remember enc ev m' g p).1 ↔
      ¬ (rejectInBlockFlags 0 g = .ok () ∧ Overflows p g)) := by
  have hshown : ∀ m' : Moment ε, rejectInBlockFlags 0 g = .ok () ∧ Overflows p g →
      (remember enc ev m' g (test enc ev m g p).2).1 ≠ (remember enc ev m' g p).1 := by
    rintro m' ⟨hflags, hover⟩ hsame
    rw [test_takes hpaused hev m hflags hover, remember_taken m' hflags hover] at hsame
    exact remember_of_overflows m' hflags hover hsame.symm
  refine ⟨⟨?_, ?_⟩, fun m' => ⟨?_, ?_⟩⟩
  · intro hcalls htakes
    have hanswers := hcalls [(m, .remember g)] (fun c hc => by rw [List.mem_singleton.1 hc]; rfl)
    exact hshown m htakes (Answer.result.inj (List.cons.inj hanswers).1)
  · intro hnot calls _
    rw [test_keeps hev m hnot]
  · intro hsame htakes
    exact hshown m' htakes hsame
  · intro hnot
    rw [test_keeps hev m hnot]

/-- A pool of one place that has a payment. -/
def fullPool : TransactionPool (List Digest) :=
  (performAll sampleEncoding (listingEvaluator 11) ([.ensureEvaluatorPrimed, .remember [samplePayment 1]].map
    (fun c => (sampleMoment, c))) (.new ⟨1, 2, 500⟩)).2

def sampleStateProof : SignedTransaction :=
  { (default : SignedTransaction) with
    txn := { (default : Ledger.Transaction) with
      txnType := .stpf, sender := stateProofSender, firstValid := 1, lastValid := 1000,
      genesisHash := 0x4863b518a4b3c84ec810f22d4f1081cb0f71f059a7ac20dec62f7f70e5093a22 } }

theorem test_invisible_iff_payment : fullPool.inner.evaluatorPaused = false ∧ fullPool.inner.evaluator.isSome ∧
    ∀ m', (remember sampleEncoding (listingEvaluator 11) m' [samplePayment 2]
        (test sampleEncoding (listingEvaluator 11) sampleMoment [samplePayment 2] fullPool).2).1 =
      (remember sampleEncoding (listingEvaluator 11) m' [samplePayment 2] fullPool).1 := by
  have hpaused : fullPool.inner.evaluatorPaused = false := by decide
  have hev : fullPool.inner.evaluator.isSome := by decide
  refine ⟨hpaused, hev, fun m' => ?_⟩
  refine ((test_invisible_iff fullPool [samplePayment 2] sampleMoment hpaused hev).2 m').2 ?_
  exact fun htakes => nomatch htakes.2.2.1

/-- The state proof is remembered, but not after it was tested. -/
theorem stateProof_refused_after_test :
    fullPool.inner.evaluatorPaused = false ∧ fullPool.inner.evaluator.isSome ∧
    (remember sampleEncoding (listingEvaluator 11) sampleMoment [sampleStateProof] fullPool).1 = .ok () ∧
    (test sampleEncoding (listingEvaluator 11) sampleMoment [sampleStateProof] fullPool).1 = .ok () ∧
    (remember sampleEncoding (listingEvaluator 11) sampleMoment [sampleStateProof]
      (test sampleEncoding (listingEvaluator 11) sampleMoment [sampleStateProof] fullPool).2).1 =
        .error .pendingQueueFull := by
  refine ⟨?_, ?_, ?_, ?_, ?_⟩
  · decide
  · decide
  · decide
  · decide
  · decide

end Pool
end Algod
