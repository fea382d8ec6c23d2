import AlgodRust.Pool.PureTest
import AlgodRust.Codec.Canonical
import Mathlib.Data.List.Chain
/-!
# BlockSpace — a pending block without room for a group

The node's evaluator counts the bytes of the block it fills and refuses a group that would go over the limit.  The pool
means to count such a block as full and to start the next one; it knows the refusal by its text.  The text that the
evaluator writes is not the one the pool looks for (`noSpace_overLimit`), so the group is turned away.

Validation of a group and its tentative application are given: they come before and after the bytes are counted.
-/
namespace Algod
namespace Pool

open Ledger (BlockHeader GenesisRestoreRule SignedTransaction)
open Codec (canonicalEncodeSignedTxnInBlock)
open TransactionPool

/-! ## The evaluator of the node -/

/-- The state of the evaluator; `rest` is what validation and application keep. -/
structure SimpleBlockEvaluator (σ : Type) where
  hdr : BlockHeader
  consensusParams : ConsensusParams
  includedTxns : List SignedTransaction
  txnBytes : Nat
  maxTxnBytes : Nat
  rest : σ

/-- What comes before and after the count of bytes. -/
structure Admission (σ : Type) where
  validateGroupStateless : SimpleBlockEvaluator σ → Group → Except AlgoError Unit
  validateGroup : SimpleBlockEvaluator σ → Group → Except AlgoError (List Digest) × σ
  applyGroup : SimpleBlockEvaluator σ → Group → List Digest → List SignedTransaction → Except AlgoError Unit × σ
  generateBlock : SimpleBlockEvaluator σ → Except AlgoError Ledger.Block × SimpleBlockEvaluator σ

namespace SimpleBlockEvaluator

variable {σ : Type}

def genesisRule (e : SimpleBlockEvaluator σ) : GenesisRestoreRule :=
  ⟨e.hdr.genesisId, e.hdr.genesisHash, e.consensusParams.requireGenesisHash, e.consensusParams.supportSignedTxnInBlock⟩

/-- The transactions of a group in the form they have in a block. -/
def stibs (e : SimpleBlockEvaluator σ) : Group → Except AlgoError (List SignedTransaction)
  | [] => .ok []
  | stx :: rest =>
    if !stx.txn.genesisId.isEmpty ∧ stx.txn.genesisId ≠ e.hdr.genesisId then
      .error (.validation ("transaction genesis_id '" ++ stx.txn.genesisId ++ "' does not match block header '" ++
        e.hdr.genesisId ++ "'"))
    else if stx.txn.genesisHash ≠ 0 ∧ stx.txn.genesisHash ≠ e.hdr.genesisHash then
      .error (.validation "transaction genesis_hash does not match block header")
    else if e.consensusParams.requireGenesisHash ∧ stx.txn.genesisHash = 0 then
      .error (.validation "transaction genesis_hash is required but missing")
    else
      match stibs e rest with
      | .error err => .error err
      | .ok done => .ok (e.genesisRule.strip stx :: done)

def exactBytes (stibs : List SignedTransaction) : Nat :=
  (stibs.map (fun stib => (canonicalEncodeSignedTxnInBlock stib).length)).sum

def overLimit (a b c : Nat) : AlgoError :=
  .ledger ("transaction group would exceed block byte limit (" ++ toString a ++ " + " ++ toString b ++ " > " ++
    toString c ++ ")")

def transactionGroup (adm : Admission σ) (e : SimpleBlockEvaluator σ) (g : Group) :
    Except AlgoError Unit × SimpleBlockEvaluator σ :=
  match adm.validateGroup e g with
  | (.error err, rest) => (.error err, { e with rest := rest })
  | (.ok txids, rest) =>
    let e := { e with rest := rest }
    match e.stibs g with
    | .error err => (.error err, e)
    | .ok stibs =>
      if e.maxTxnBytes < e.txnBytes + exactBytes stibs then
        (.error (overLimit e.txnBytes (exactBytes stibs) e.maxTxnBytes), e)
      else
        match adm.applyGroup e g txids stibs with
        | (.error err, rest) => (.error err, { e with rest := rest })
        | (.ok _, rest) =>
          (.ok (), { e with
            rest := rest
            txnBytes := e.txnBytes + exactBytes stibs
            includedTxns := e.includedTxns ++ stibs })

end SimpleBlockEvaluator

open SimpleBlockEvaluator (overLimit exactBytes)

/-- The evaluator as the pool sees it. -/
def simpleEvaluator {σ : Type} (adm : Admission σ) : BlockEvaluator (SimpleBlockEvaluator σ) where
  round e := e.hdr.round
  testTransactionGroup := adm.validateGroupStateless
  transactionGroup := SimpleBlockEvaluator.transactionGroup adm
  generateBlock := adm.generateBlock
  resetTxnBytes e := { e with txnBytes := 0 }
  checksDuplicates _ := true

/-! ## The text of the refusal -/

/-- Two neighbours that neither of the texts for a full block can do without: no `N`, and no `n` before an `o`. -/
def Unspaced (x y : Char) : Prop := x ≠ 'N' ∧ ¬ (x = 'n' ∧ y = 'o')

instance : DecidableRel Unspaced := fun x y => inferInstanceAs (Decidable (x ≠ 'N' ∧ ¬ (x = 'n' ∧ y = 'o')))

theorem isDigit_of_mem_toString {n : Nat} {c : Char} (h : c ∈ (toString n).toList) : c.isDigit = true := by
  rw [Nat.toString_eq_repr, Nat.repr, String.toList_ofList] at h
  exact Nat.isDigit_of_mem_toDigits (by decide) (by decide) h

/-- A text with no `n` and no `N` has no such neighbours. -/
theorem isChain_of_letterless : ∀ {l : List Char}, (∀ c ∈ l, c ≠ 'n' ∧ c ≠ 'N') → l.IsChain Unspaced
  | [], _ => .nil
  | [_], _ => .singleton _
  | x :: y :: l, h => by
    refine .cons_cons ⟨(h x List.mem_cons_self).2, fun hxy => (h x List.mem_cons_self).1 hxy.1⟩ ?_
    exact isChain_of_letterless (fun c hc => h c (List.mem_cons_of_mem _ hc))

theorem letterless_of_all {l : List Char} (h : l.all (fun c => decide (c ≠ 'n' ∧ c ≠ 'N')) = true) {x : Char}
    (hx : x ∈ l) : x ≠ 'n' ∧ x ≠ 'N' := of_decide_eq_true (List.all_eq_true.1 h x hx)

set_option maxRecDepth 20000 in
/-- **The refusal is not known as that of a full block.** -/
theorem noSpace_overLimit (a b c : Nat) : noSpace (poolErrorFromEvaluator (overLimit a b c)) = false := by
  have htext : (poolErrorFromEvaluator (overLimit a b c)).display.toList =
      "TransactionPool.ingest: ledger error: transaction group would exceed block byte limit (".toList ++
        ((toString a).toList ++ " + ".toList ++ (toString b).toList ++ " > ".toList ++ (toString c).toList ++
          ")".toList) := by
    show ("TransactionPool.ingest: " ++ ("ledger error: " ++ ("transaction group would exceed block byte limit (" ++
      toString a ++ " + " ++ toString b ++ " > " ++ toString c ++ ")"))).toList = _
    have hstart : "TransactionPool.ingest: ledger error: transaction group would exceed block byte limit (".toList =
        "TransactionPool.ingest: ".toList ++ ("ledger error: ".toList ++
          "transaction group would exceed block byte limit (".toList) := by decide
    rw [hstart]
    simp only [String.toList_append, List.append_assoc]
  have htail : ∀ x ∈ (toString a).toList ++ " + ".toList ++ (toString b).toList ++ " > ".toList ++ (toString c).toList ++
      ")".toList, x ≠ 'n' ∧ x ≠ 'N' := by
    intro x hx
    have hdigit : ∀ n : Nat, x ∈ (toString n).toList → x ≠ 'n' ∧ x ≠ 'N' := by
      intro n hn
      have := isDigit_of_mem_toString hn
      constructor
      · rintro rfl
        revert this
        decide
      · rintro rfl
        revert this
        decide
    simp only [List.mem_append] at hx
    rcases hx with ((((hx | hx) | hx) | hx) | hx) | hx
    · exact hdigit a hx
    · exact letterless_of_all (l := " + ".toList) (by decide) hx
    · exact hdigit b hx
    · exact letterless_of_all (l := " > ".toList) (by decide) hx
    · exact hdigit c hx
    · exact letterless_of_all (l := ")".toList) (by decide) hx
  have hchain : (poolErrorFromEvaluator (overLimit a b c)).display.toList.IsChain Unspaced := by
    rw [htext]
    refine List.isChain_append.2 ⟨by decide, isChain_of_letterless htail, ?_⟩
    intro x hx y _
    have hlast : "TransactionPool.ingest: ledger error: transaction group would exceed block byte limit (".toList.getLast? =
        some '(' := by decide
    obtain rfl : '(' = x := Option.some.inj (hlast.symm.trans hx)
    exact ⟨by decide, fun h => absurd h.1 (by decide)⟩
  unfold noSpace contains
  rw [Bool.or_eq_false_iff, decide_eq_false_iff_not, decide_eq_false_iff_not]
  refine ⟨fun h => ?_, fun h => ?_⟩
  · have := hchain.infix h
    revert this
    decide
  · have := hchain.infix h
    revert this
    decide

/-! ## Remembering a group -/

section Remember

variable {ε : Type} {enc : TxnEncoding} {ev : BlockEvaluator ε} {p : TransactionPool ε} {g : Group}

theorem checkExpired_of_alive {round : Round} : ∀ {g : Group}, (∀ stx ∈ g, round ≤ stx.txn.lastValid) →
    checkExpired round g = .ok ()
  | [], _ => rfl
  | stx :: rest, h => by
    rw [checkExpired, if_neg (not_lt.2 (h stx List.mem_cons_self))]
    exact checkExpired_of_alive (fun stx' hstx' => h stx' (List.mem_cons_of_mem _ hstx'))

theorem once_of_alive {inner : PoolInner ε} {e : ε} (he : inner.evaluator = some e)
    (halive : ∀ stx ∈ g, ev.round e + inner.numPendingWholeBlocks ≤ stx.txn.lastValid) :
    addToPendingBlockEvaluatorOnce ev g inner =
      ((ev.transactionGroup e g).1.mapError poolErrorFromEvaluator,
        { inner with evaluator := some (ev.transactionGroup e g).2 }) := by
  unfold addToPendingBlockEvaluatorOnce
  rw [he]
  simp only
  rw [checkExpired_of_alive halive]
  cases ev.transactionGroup e g with
  | mk r e' =>
    cases r with
    | error err => rfl
    | ok u => rfl

/-- The capacity check changes nothing but the place over capacity. -/
theorem checkPendingQueueSize_same (p : TransactionPool ε) (g : Group) :
    (checkPendingQueueSize p g).2 = p ∨ (checkPendingQueueSize p g).2 = taken p := by
  by_cases h : Overflows p g
  · rw [checkPendingQueueSize_overflows h]
    exact .inr rfl
  · exact .inl (checkPendingQueueSize_keeps h)

/-- A group that passes the pool's own checks is up to the evaluator. -/
theorem remember_of_checks {e : ε} (m : Moment ε) (hflags : rejectInBlockFlags 0 g = .ok ())
    (hroom : (checkPendingQueueSize p g).1 = .ok ()) (hup : p.shutdown = false) (hrun : p.inner.evaluatorPaused = false)
    (he : p.inner.evaluator = some e) (hdup : ev.checksDuplicates e = true)
    (hfees : checkFees enc (recomputeFeePerByte p) g.length g = .ok ()) :
    remember enc ev m g p =
      match addToPendingBlockEvaluator ev g (checkPendingQueueSize p g).2.inner with
      | (.error err, i) =>
        (.error (frameError err), { (checkPendingQueueSize p g).2 with feePerByte := recomputeFeePerByte p, inner := i })
      | (.ok _, i) =>
        (.ok (), rememberCommit false
          { (checkPendingQueueSize p g).2 with feePerByte := recomputeFeePerByte p, inner := store enc g i }) := by
  have hsame := checkPendingQueueSize_same p g
  unfold remember
  rw [hflags]
  simp only
  cases hcheck : checkPendingQueueSize p g with
  | mk r p' =>
    rw [hcheck] at hroom hsame
    cases hroom
    simp only
    have hup' : p'.shutdown = false := by rcases hsame with rfl | rfl <;> exact hup
    have hrun' : p'.inner.evaluatorPaused = false := by rcases hsame with rfl | rfl <;> exact hrun
    have he' : p'.inner.evaluator = some e := by rcases hsame with rfl | rfl <;> exact he
    have hfee : recomputeFeePerByte p' = recomputeFeePerByte p := by rcases hsame with rfl | rfl <;> rfl
    have hprimed : p'.inner.evaluator.isSome := by
      rw [he']
      rfl
    rw [if_neg (ne_true_of_eq_false hup')]
    unfold ingest
    rw [if_neg (ne_true_of_eq_false hrun'), maybeReprime_of_isSome hprimed]
    simp only
    rw [he']
    simp only
    unfold judge
    simp only
    rw [hfee, hfees]
    simp only [hdup, if_true]
    cases addToPendingBlockEvaluator ev g p'.inner with
    | mk r inner =>
      cases r with
      | error err => rfl
      | ok u => rfl

end Remember

section Space

variable {σ : Type} {adm : Admission σ} {enc : TxnEncoding}

/-- A group that passes every check but that of the bytes of the pending block, and that the next block has room for. -/
structure Crowded (adm : Admission σ) (enc : TxnEncoding) (p : TransactionPool (SimpleBlockEvaluator σ))
    (e : SimpleBlockEvaluator σ) (g : Group) (stibs : List SignedTransaction) : Prop where
  flags : rejectInBlockFlags 0 g = .ok ()
  room : (checkPendingQueueSize p g).1 = .ok ()
  up : p.shutdown = false
  running : p.inner.evaluatorPaused = false
  evaluator : p.inner.evaluator = some e
  fees : checkFees enc (recomputeFeePerByte p) g.length g = .ok ()
  validated : ∃ txids, (adm.validateGroup e g).1 = .ok txids
  stripped : e.stibs g = .ok stibs
  crowded : e.maxTxnBytes < e.txnBytes + exactBytes stibs
  fits : exactBytes stibs ≤ e.maxTxnBytes
  accepted : (SimpleBlockEvaluator.transactionGroup adm { e with txnBytes := 0 } g).1 = .ok ()
  alive : ∀ stx ∈ g, e.hdr.round + p.inner.numPendingWholeBlocks + 1 ≤ stx.txn.lastValid

theorem stibs_rest (e : SimpleBlockEvaluator σ) (rest : σ) : ∀ g : Group,
    SimpleBlockEvaluator.stibs { e with rest := rest } g = e.stibs g
  | [] => rfl
  | stx :: g => by
    simp only [SimpleBlockEvaluator.stibs, stibs_rest e rest g]
    rfl

theorem Crowded.refused {p : TransactionPool (SimpleBlockEvaluator σ)} {e : SimpleBlockEvaluator σ} {g : Group}
    {stibs : List SignedTransaction} (h : Crowded adm enc p e g stibs) :
    SimpleBlockEvaluator.transactionGroup adm e g =
      (.error (overLimit e.txnBytes (exactBytes stibs) e.maxTxnBytes), { e with rest := (adm.validateGroup e g).2 }) := by
  obtain ⟨txids, htxids⟩ := h.validated
  unfold SimpleBlockEvaluator.transactionGroup
  cases hvalid : adm.validateGroup e g with
  | mk r rest =>
    rw [hvalid] at htxids
    cases htxids
    simp only
    rw [stibs_rest, h.stripped]
    simp only
    rw [if_pos h.crowded]

/-- The group is turned away: the pool has no more groups than before, and no block more is counted as full. -/
theorem Crowded.turnedAway {p : TransactionPool (SimpleBlockEvaluator σ)} {e : SimpleBlockEvaluator σ} {g : Group}
    {stibs : List SignedTransaction} (h : Crowded adm enc p e g stibs) (m : Moment (SimpleBlockEvaluator σ)) :
    (remember enc (simpleEvaluator adm) m g p).1 =
        .error (.remember (poolErrorFromEvaluator (overLimit e.txnBytes (exactBytes stibs) e.maxTxnBytes))) ∧
      (remember enc (simpleEvaluator adm) m g p).2.pending = p.pending ∧
      (remember enc (simpleEvaluator adm) m g p).2.inner.numPendingWholeBlocks = p.inner.numPendingWholeBlocks := by
  have hremember := @remember_of_checks _ enc (simpleEvaluator adm) p g e m h.flags h.room h.up h.running h.evaluator rfl
    h.fees
  have hp' := checkPendingQueueSize_same p g
  generalize (checkPendingQueueSize p g).2 = p' at hremember hp'
  have he' : p'.inner.evaluator = some e := by rcases hp' with rfl | rfl <;> exact h.evaluator
  have hpending : p'.pending = p.pending := by rcases hp' with rfl | rfl <;> rfl
  have hcount : p'.inner.numPendingWholeBlocks = p.inner.numPendingWholeBlocks := by rcases hp' with rfl | rfl <;> rfl
  have halive : ∀ stx ∈ g, (simpleEvaluator adm).round e + p'.inner.numPendingWholeBlocks ≤ stx.txn.lastValid := by
    intro stx hstx
    rw [hcount]
    exact Nat.le_of_succ_le (h.alive stx hstx)
  have hadd : addToPendingBlockEvaluator (simpleEvaluator adm) g p'.inner =
      (.error (poolErrorFromEvaluator (overLimit e.txnBytes (exactBytes stibs) e.maxTxnBytes)),
        { p'.inner with evaluator := some { e with rest := (adm.validateGroup e g).2 } }) := by
    have htxn : (simpleEvaluator adm).transactionGroup e g = _ := h.refused
    unfold addToPendingBlockEvaluator
    rw [once_of_alive he' halive, htxn]
    simp only [Except.mapError]
    rw [noSpace_overLimit, if_neg Bool.false_ne_true]
  rw [hremember, hadd]
  exact ⟨rfl, hpending, hcount⟩

/-- What is meant to happen: the block is counted as full, and the group waits for the next one. -/
def RollsOver (enc : TxnEncoding) (adm : Admission σ) (m : Moment (SimpleBlockEvaluator σ)) (g : Group)
    (p : TransactionPool (SimpleBlockEvaluator σ)) : Prop :=
  (remember enc (simpleEvaluator adm) m g p).1 = .ok () ∧
    g ∈ (remember enc (simpleEvaluator adm) m g p).2.pending.txGroups ∧
    (remember enc (simpleEvaluator adm) m g p).2.inner.numPendingWholeBlocks = p.inner.numPendingWholeBlocks + 1

/-- **A group is never moved to the next block.** -/
theorem crowded_not_rollsOver (p : TransactionPool (SimpleBlockEvaluator σ)) (e : SimpleBlockEvaluator σ) (g : Group)
    (stibs : List SignedTransaction) (h : Crowded adm enc p e g stibs) (m : Moment (SimpleBlockEvaluator σ)) :
    ¬ RollsOver enc adm m g p ∧ (remember enc (simpleEvaluator adm) m g p).1 ≠ .ok () ∧
      (remember enc (simpleEvaluator adm) m g p).2.pending = p.pending ∧
      (remember enc (simpleEvaluator adm) m g p).2.inner.numPendingWholeBlocks = p.inner.numPendingWholeBlocks := by
  obtain ⟨hresult, hpending, hcount⟩ := h.turnedAway m
  have hne : (remember enc (simpleEvaluator adm) m g p).1 ≠ .ok () := by
    rw [hresult]
    exact fun herr => nomatch herr
  exact ⟨fun hrolls => hne hrolls.1, hne, hpending, hcount⟩

end Space

/-! ## A block of 300 bytes -/

/-- Validation refuses ids it has seen; application records them. -/
def sampleAdmission : Admission (List Digest) where
  validateGroupStateless e g :=
    if (e.rest ++ groupIds sampleEncoding g).Nodup then .ok () else .error (.ledger "transaction already in ledger")
  validateGroup e g :=
    (if (e.rest ++ groupIds sampleEncoding g).Nodup then .ok (groupIds sampleEncoding g)
      else .error (.ledger "transaction already in ledger"), e.rest)
  applyGroup e _ txids _ := (.ok (), e.rest ++ txids)
  generateBlock e := (.ok default, e)

def smallEvaluator : SimpleBlockEvaluator (List Digest) where
  hdr := { (default : BlockHeader) with
    round := 11, genesisHash := 0x4863b518a4b3c84ec810f22d4f1081cb0f71f059a7ac20dec62f7f70e5093a22 }
  consensusParams := { (default : ConsensusParams) with
    requireGenesisHash := true, supportSignedTxnInBlock := true, maxTxnBytesPerBlock := 300 }
  includedTxns := []
  txnBytes := 0
  maxTxnBytes := 300
  rest := []

def smallMoment : Moment (SimpleBlockEvaluator (List Digest)) where
  ledger := ⟨10, fun _ => .ok default, fun _ _ _ => .ok smallEvaluator, fun _ => false⟩
  now := 0

def primedPool : TransactionPool (SimpleBlockEvaluator (List Digest)) :=
  (performAll sampleEncoding (simpleEvaluator sampleAdmission) [(smallMoment, .ensureEvaluatorPrimed)] (.new ⟨10, 2, 500⟩)).2

/-- The pool after the first payment. -/
def crowdedPool : TransactionPool (SimpleBlockEvaluator (List Digest)) :=
  (performAll sampleEncoding (simpleEvaluator sampleAdmission)
    [(smallMoment, .ensureEvaluatorPrimed), (smallMoment, .remember [samplePayment 1])] (.new ⟨10, 2, 500⟩)).2

def sampleStib (amount : Nat) : SignedTransaction := smallEvaluator.genesisRule.strip (samplePayment amount)

set_option maxRecDepth 20000 in
theorem sampleStib_size : exactBytes [sampleStib 1] = 183 ∧ exactBytes [sampleStib 2] = 183 := by
  have h1 : Codec.canonicalTransaction (sampleStib 1).txn = _ :=
    @Codec.canonicalMap_of_sorted (Codec.transactionFields (sampleStib 1).txn "" 0 0) (by decide)
  have h2 : Codec.canonicalTransaction (sampleStib 2).txn = _ :=
    @Codec.canonicalMap_of_sorted (Codec.transactionFields (sampleStib 2).txn "" 0 0) (by decide)
  unfold exactBytes canonicalEncodeSignedTxnInBlock
  simp only [List.map_cons, List.map_nil, Codec.signedTxnInBlockFields, h1, h2]
  rw [Codec.canonicalMap_of_sorted (by decide), Codec.canonicalMap_of_sorted (by decide)]
  decide

/-- The evaluator that has the first payment. -/
def filledEvaluator : SimpleBlockEvaluator (List Digest) :=
  { smallEvaluator with
    rest := groupIds sampleEncoding [samplePayment 1]
    txnBytes := 183
    includedTxns := [sampleStib 1] }

theorem validateGroup_fresh {e : SimpleBlockEvaluator (List Digest)} {g : Group}
    (h : (e.rest ++ groupIds sampleEncoding g).Nodup) :
    sampleAdmission.validateGroup e g = (.ok (groupIds sampleEncoding g), e.rest) := by
  show (if (e.rest ++ groupIds sampleEncoding g).Nodup then _ else _, e.rest) = _
  rw [if_pos h]

/-- A group of new transactions that fits is accepted. -/
theorem transactionGroup_fits {e : SimpleBlockEvaluator (List Digest)} {g : Group} {stibs : List SignedTransaction}
    (hfresh : (e.rest ++ groupIds sampleEncoding g).Nodup) (hstibs : e.stibs g = .ok stibs)
    (hfits : e.txnBytes + exactBytes stibs ≤ e.maxTxnBytes) :
    SimpleBlockEvaluator.transactionGroup sampleAdmission e g =
      (.ok (), { e with
        rest := e.rest ++ groupIds sampleEncoding g
        txnBytes := e.txnBytes + exactBytes stibs
        includedTxns := e.includedTxns ++ stibs }) := by
  unfold SimpleBlockEvaluator.transactionGroup
  rw [validateGroup_fresh hfresh]
  simp only
  rw [hstibs]
  simp only
  rw [if_neg (not_lt.2 hfits)]
  rfl

theorem crowdedPool_eq : crowdedPool = rememberCommit false
    { primedPool with
      inner := store sampleEncoding [samplePayment 1] { primedPool.inner with evaluator := some filledEvaluator } } := by
  have hfirst : (simpleEvaluator sampleAdmission).transactionGroup smallEvaluator [samplePayment 1] =
      (.ok (), filledEvaluator) := by
    have hstibs : smallEvaluator.stibs [samplePayment 1] = .ok [sampleStib 1] := rfl
    refine (transactionGroup_fits (by decide) hstibs ?_).trans ?_
    · rw [sampleStib_size.1]
      decide
    · rw [sampleStib_size.1]
      rfl
  have hadd : addToPendingBlockEvaluator (simpleEvaluator sampleAdmission) [samplePayment 1] primedPool.inner =
      (.ok (), { primedPool.inner with evaluator := some filledEvaluator }) := by
    unfold addToPendingBlockEvaluator
    rw [once_of_alive (show primedPool.inner.evaluator = some smallEvaluator from rfl) (by decide), hfirst]
    rfl
  have hremember := @remember_of_checks _ sampleEncoding (simpleEvaluator sampleAdmission) primedPool [samplePayment 1]
    smallEvaluator smallMoment rfl rfl rfl rfl rfl rfl rfl
  show (remember sampleEncoding (simpleEvaluator sampleAdmission) smallMoment [samplePayment 1] primedPool).2 = _
  have hroom : (checkPendingQueueSize primedPool [samplePayment 1]).2 = primedPool := rfl
  rw [hremember, hroom, hadd]
  rfl

/-- The second payment of 183 bytes has no room beside the first. -/
theorem crowdedPool_crowded :
    Crowded sampleAdmission sampleEncoding crowdedPool filledEvaluator [samplePayment 2] [sampleStib 2] := by
  rw [crowdedPool_eq]
  have hstibs : ∀ n, ({ filledEvaluator with txnBytes := n } : SimpleBlockEvaluator (List Digest)).stibs [samplePayment 2] =
      .ok [sampleStib 2] := fun _ => rfl
  refine ⟨rfl, rfl, rfl, rfl, rfl, rfl, ?_, hstibs 183, ?_, ?_, ?_, by decide⟩
  · exact ⟨_, congrArg Prod.fst (validateGroup_fresh (by decide))⟩
  · rw [sampleStib_size.2]
    decide
  · rw [sampleStib_size.2]
    decide
  · refine congrArg Prod.fst (transactionGroup_fits (by decide) (hstibs 0) ?_)
    rw [sampleStib_size.2]
    decide

theorem crowded_not_rollsOver_sample : Crowded sampleAdmission sampleEncoding crowdedPool filledEvaluator [samplePayment 2]
      [sampleStib 2] ∧
    (remember sampleEncoding (simpleEvaluator sampleAdmission) smallMoment [samplePayment 2] crowdedPool).1 ≠ .ok () :=
  ⟨crowdedPool_crowded, (crowded_not_rollsOver crowdedPool filledEvaluator [samplePayment 2] [sampleStib 2]
    crowdedPool_crowded smallMoment).2.1⟩

/-- The second payment is turned away, though a block of its own would have room. -/
theorem second_payment_turnedAway :
    Crowded sampleAdmission sampleEncoding crowdedPool filledEvaluator [samplePayment 2] [sampleStib 2] ∧
    (remember sampleEncoding (simpleEvaluator sampleAdmission) smallMoment [samplePayment 2] crowdedPool).1 =
      .error (.remember (.evaluator
        "ledger error: transaction group would exceed block byte limit (183 + 183 > 300)")) ∧
    ¬ RollsOver sampleEncoding sampleAdmission smallMoment [samplePayment 2] crowdedPool := by
  have hresult := (crowdedPool_crowded.turnedAway smallMoment).1
  rw [sampleStib_size.2] at hresult
  have htext : poolErrorFromEvaluator (overLimit filledEvaluator.txnBytes 183 filledEvaluator.maxTxnBytes) =
      .evaluator "ledger error: transaction group would exceed block byte limit (183 + 183 > 300)" := by decide
  rw [htext] at hresult
  refine ⟨crowdedPool_crowded, hresult, fun hrolls => ?_⟩
  have := hresult.symm.trans hrolls.1
  cases this

end Pool
end Algod
