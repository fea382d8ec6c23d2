import AlgodRust.Pool.Departures
/-!
# Capacity — how many transactions the pool can hold

The check of the capacity lets one state proof over it, and forgets that it did with every rebuild.  A run keeps the
pool within its size, or one above it while the state proof that went over is still there, as long as no state proof is
let over a pool that is above its size already and every group the evaluator accepts has ids of its own.  `Allowed`
follows the state proofs that went over the size and have been pending ever since.
-/
namespace Algod
namespace Pool

open Ledger (SignedTransaction)
open TransactionPool

variable {ε : Type} {enc : TxnEncoding} {ev : BlockEvaluator ε}

/-- The number of pending transactions, not of groups. -/
def pendingCount (p : TransactionPool ε) : Nat := (p.pending.txGroups.map List.length).sum

/-- The calls that admit groups and those that remove them. -/
def Call.movesGroups : Call → Bool
  | .remember _ => true
  | .test _ => true
  | .onNewBlock _ _ => true
  | .evictGroups _ _ => true
  | _ => false

section Spec

variable (enc : TxnEncoding) (ev : BlockEvaluator ε)

/-- A call admits a state proof over capacity. -/
def usesAllowance (m : Moment ε) (p : TransactionPool ε) (c : Call) (stx : SignedTransaction) : Prop :=
  c = .remember [stx] ∧ Overflows p [stx] ∧ (remember enc ev m [stx] p).1 = .ok ()

/-- The state proofs that used the allowance and have been pending ever since. -/
def Allowed : List (Moment ε × Call) → TransactionPool ε → (SignedTransaction → Prop) → SignedTransaction → Prop
  | [], _, held => held
  | (m, c) :: calls, p, held =>
    Allowed calls (perform enc ev m p c).2
      (fun stx => (held stx ∨ usesAllowance enc ev m p c stx) ∧ [stx] ∈ (perform enc ev m p c).2.pending.txGroups)

/-- A group that the evaluator accepts has new ids, and it is no state proof that is let over a pool that is above its
size. -/
def Fits (p : TransactionPool ε) : Call → Prop
  | .remember g => (addToPendingBlockEvaluator ev g p.inner).1 = .ok () →
    ((groupIds enc g).Nodup ∧ ∀ id ∈ groupIds enc g, id ∉ allIds enc p.pending.txGroups) ∧
      ¬ (p.config.poolSize < pendingCount p ∧ isStateProof g = true ∧ p.inner.stateproofOverflowed = false)
  | _ => True

def AllFit : List (Moment ε × Call) → TransactionPool ε → Prop
  | [], _ => True
  | (m, c) :: calls, p => Fits enc ev p c ∧ AllFit calls (perform enc ev m p c).2

/-- The pool is within its size, or one above it with a state proof that used the allowance. -/
def WithinSize (held : SignedTransaction → Prop) (p : TransactionPool ε) : Prop :=
  pendingCount p ≤ p.config.poolSize ∨
    pendingCount p = p.config.poolSize + 1 ∧ ∃ stx, held stx ∧ [stx] ∈ p.pending.txGroups

structure Bounded (limit : Nat) (held : SignedTransaction → Prop) (p : TransactionPool ε) : Prop where
  capacity : p.config.poolSize = limit
  index : Indexed enc p.pending.txGroups p.pending.txids
  groups : p.inner.rememberedTxGroups = []
  txids : p.inner.rememberedTxids = ∅
  reprime : p.inner.reprimeOnDemand = false
  size : WithinSize held p

end Spec

/-! ## Counting -/

theorem length_allIds (groups : List Group) : (allIds enc groups).length = (groups.map List.length).sum := by
  simp [allIds, groupIds, List.length_flatMap]

/-- The index has an entry for each pending transaction. -/
theorem Indexed.length_eq {groups : List Group} {txids : FinMap Digest SignedTransaction} (h : Indexed enc groups txids) :
    txids.entries.length = (groups.map List.length).sum := by
  have hperm : txids.keys.Perm (allIds enc groups) := by
    refine (List.perm_ext_iff_of_nodup txids.keys_nodup h.once).2 (fun id => ?_)
    rw [← AList.mem_keys, h.keys]
  rw [← length_allIds, ← hperm.length_eq, AList.keys, List.keys, List.length_map]

theorem sum_length_sublist {groups groups' : List Group} (h : groups'.Sublist groups) :
    (groups'.map List.length).sum ≤ (groups.map List.length).sum := by
  induction h with
  | slnil => exact Nat.le_refl _
  | cons g _ ih =>
    rw [List.map_cons, List.sum_cons]
    omega
  | cons_cons g _ ih =>
    rw [List.map_cons, List.sum_cons, List.map_cons, List.sum_cons]
    omega

/-- A group that is gone is counted no more. -/
theorem sum_length_removed {groups groups' : List Group} (h : groups'.Sublist groups) {g : Group} (hg : g ∈ groups)
    (hgone : g ∉ groups') : (groups'.map List.length).sum + g.length ≤ (groups.map List.length).sum := by
  induction h with
  | slnil => cases hg
  | @cons rest' rest g' hsub ih =>
    rw [List.map_cons, List.sum_cons]
    rcases List.mem_cons.1 hg with rfl | hg
    · have := sum_length_sublist hsub
      omega
    · have := ih hg hgone
      omega
  | @cons_cons rest' rest g' hsub ih =>
    rw [List.map_cons, List.sum_cons, List.map_cons, List.sum_cons]
    rw [List.mem_cons, not_or] at hgone
    have := ih ((List.mem_cons.1 hg).resolve_left hgone.1) hgone.2
    omega

/-! ## Steps -/

variable {limit : Nat} {held : SignedTransaction → Prop} {p p' : TransactionPool ε}

theorem bounded_new (config : PoolConfig) :
    Bounded enc config.poolSize held (TransactionPool.new config : TransactionPool ε) :=
  ⟨rfl, .nil, rfl, rfl, rfl, .inl (Nat.zero_le _)⟩

/-- Only members of `held` that are pending count. -/
theorem Bounded.mono {held' : SignedTransaction → Prop} (h : Bounded enc limit held p)
    (hsub : ∀ stx, held stx → [stx] ∈ p.pending.txGroups → held' stx) : Bounded enc limit held' p := by
  refine ⟨h.capacity, h.index, h.groups, h.txids, h.reprime, ?_⟩
  rcases h.size with hsize | ⟨hsize, stx, hheld, hin⟩
  · exact .inl hsize
  · exact .inr ⟨hsize, stx, hsub stx hheld hin, hin⟩

/-- **A pool that gives up groups stays bounded**: without the state proof that went over it is within its size. -/
theorem Bounded.sheds {ds : List Departure} (h : Bounded enc limit held p) (hsheds : Sheds enc ds p p') :
    Bounded enc limit held p' := by
  refine ⟨(congrArg PoolConfig.poolSize hsheds.config).trans h.capacity,
    ⟨?_, h.index.once.sublist (hsheds.sub.flatMap _)⟩, hsheds.groups h.groups, hsheds.txids h.txids,
    hsheds.reprime h.reprime, ?_⟩
  · exact hsheds.covered h.index.keys
  · have hle := sum_length_sublist hsheds.sub
    unfold WithinSize pendingCount
    rw [hsheds.config]
    rcases h.size with hsize | ⟨hsize, stx, hheld, hin⟩
    · exact .inl (Nat.le_trans hle hsize)
    · unfold pendingCount at hsize
      by_cases hstays : [stx] ∈ p'.pending.txGroups
      · rcases Nat.lt_or_ge p.config.poolSize (p'.pending.txGroups.map List.length).sum with hlt | hge
        · exact .inr ⟨by omega, stx, hheld, hstays⟩
        · exact .inl hge
      · have hless := sum_length_removed hsheds.sub hin hstays
        rw [List.length_singleton] at hless
        exact .inl (by omega)

theorem maybeReprime_of_reprime (h : p.inner.reprimeOnDemand = false) (m : Moment ε) : maybeReprime enc ev m p = p := by
  unfold maybeReprime
  rw [h]
  simp

theorem Bounded.checked (h : Bounded enc limit held p) (g : Group) : Bounded enc limit held (checkPendingQueueSize p g).2 :=
  h.sheds (check_sheds p g)

theorem Bounded.withEvaluator (h : Bounded enc limit held p) (fee : Nat) (o : Option ε) (n : Nat) :
    Bounded enc limit held (withEvaluator p fee o n) := ⟨h.capacity, h.index, h.groups, h.txids, h.reprime, h.size⟩

/-- The pending groups and the index after a group is put behind the others. -/
theorem withGroup_pending {g : Group} (hgroups : p.inner.rememberedTxGroups = []) (htxids : p.inner.rememberedTxids = ∅) :
    (withGroup enc p g).pending = ⟨p.pending.txGroups ++ [g],
      (g.foldl (fun m stx => m.insert (enc.computeTxnId stx.txn) stx) (∅ : FinMap Digest SignedTransaction)).entries.foldl
        (fun m e => m.insert e.1 e.2) p.pending.txids⟩ := by
  unfold withGroup rememberCommit store
  simp only [Bool.false_eq_true, if_false, hgroups, htxids, List.nil_append]

theorem pendingCount_withGroup {g : Group} (hgroups : p.inner.rememberedTxGroups = [])
    (htxids : p.inner.rememberedTxids = ∅) : pendingCount (withGroup enc p g) = pendingCount p + g.length := by
  unfold pendingCount
  rw [withGroup_pending hgroups htxids]
  simp

/-- The check of the capacity passes: there is room, or the group goes over it. -/
theorem checkPendingQueueSize_ok {g : Group} (h : (checkPendingQueueSize p g).1 = .ok ()) :
    p.pending.txids.entries.length + g.length ≤ p.config.poolSize ∨ Overflows p g := by
  unfold checkPendingQueueSize at h
  split at h
  · rename_i hfull
    split at h
    · split at h
      · rename_i stx hfree
        exact .inr ⟨hfull, isStateProof_iff.2 ⟨stx, rfl, hfree.1⟩, hfree.2⟩
      · cases h
    · cases h
  · rename_i hroom
    exact .inl (Nat.not_lt.1 hroom)

/-- **A group that is admitted**: there is room for it, or it is the state proof that takes the allowance. -/
theorem Bounded.remember (h : Bounded enc limit held p) (m : Moment ε) (g : Group) (hfits : Fits enc ev p (.remember g)) :
    Bounded enc limit (fun stx => held stx ∨ usesAllowance enc ev m p (.remember g) stx) (remember enc ev m g p).2 := by
  have hleft : ∀ {q : TransactionPool ε}, Bounded enc limit held q →
      Bounded enc limit (fun stx => held stx ∨ usesAllowance enc ev m p (.remember g) stx) q :=
    fun hq => hq.mono (fun stx hheld _ => .inl hheld)
  have hchecked := h.checked g
  have hnone := @maybeReprime_of_reprime ε enc ev _ hchecked.reprime m
  rcases @remember_cases ε enc ev m g p with
    ⟨-, ⟨e, heq⟩ | ⟨e, heq⟩⟩ | ⟨-, fee, o, n, ⟨-, e, heq⟩ | ⟨hok, -, hadd, heq⟩⟩
  · rw [heq]
    exact hleft h
  · rw [heq]
    exact hleft hchecked
  · rw [heq, hnone]
    exact hleft (hchecked.withEvaluator fee o n)
  · rw [hnone] at hadd heq
    have hverdict : (addToPendingBlockEvaluator ev g p.inner).1 = .ok () := by
      rcases checkPendingQueueSize_cases p g with hsame | hflag
      · rw [hsame] at hadd
        exact hadd
      · rw [hflag] at hadd
        exact (add_flag g p.inner true).symm.trans hadd
    obtain ⟨⟨hnodup, hnew⟩, hroom⟩ := hfits hverdict
    have hpending : (checkPendingQueueSize p g).2.pending = p.pending := by
      rcases checkPendingQueueSize_cases p g with hsame | hflag
      · rw [hsame]
      · rw [hflag]
    have hq := hchecked.withEvaluator fee o n
    have hbuffer := Indexed.nil.store hnodup (fun id _ hid => nomatch hid)
    rw [heq]
    refine ⟨hq.capacity, ?_, rfl, rfl, hq.reprime, ?_⟩
    · rw [withGroup_pending hq.groups hq.txids]
      refine hq.index.append hbuffer (fun id hid hin => ?_)
      rw [allIds_single] at hid
      have hin' : id ∈ allIds enc p.pending.txGroups := by
        rw [← hpending]
        exact hin
      exact hnew id hid hin'
    · have hcount := @pendingCount_withGroup ε enc _ g hq.groups hq.txids
      have hbefore : pendingCount (Pool.withEvaluator (checkPendingQueueSize p g).2 fee o n) = pendingCount p := by
        show ((checkPendingQueueSize p g).2.pending.txGroups.map List.length).sum = _
        rw [hpending]
        rfl
      rw [hbefore] at hcount
      have hconfig : (withGroup enc (Pool.withEvaluator (checkPendingQueueSize p g).2 fee o n) g).config = p.config :=
        (@check_sheds ε enc p g).config
      unfold WithinSize
      rw [hcount, hconfig]
      rcases checkPendingQueueSize_ok hok with hfree | hover
      · rw [h.index.length_eq] at hfree
        exact .inl hfree
      · obtain ⟨stx, rfl, -⟩ := isStateProof_iff.1 hover.2.1
        -- the pool was within its size, since the flag was clear
        have hwithin : pendingCount p ≤ p.config.poolSize := by
          by_contra habove
          exact hroom ⟨by omega, hover.2.1, hover.2.2⟩
        have hfull := hover.1
        rw [h.index.length_eq] at hfull
        unfold pendingCount at hwithin ⊢
        rw [List.length_singleton] at hfull ⊢
        refine .inr ⟨by omega, stx, .inr ⟨rfl, hover, by rw [heq]⟩, ?_⟩
        rw [withGroup_pending hq.groups hq.txids]
        exact List.mem_append_right _ List.mem_cons_self

/-- **Every call keeps the pool bounded.** -/
theorem Bounded.perform (h : Bounded enc limit held p) (m : Moment ε) (c : Call) (hcall : c.movesGroups = true)
    (hfits : Fits enc ev p c) :
    Bounded enc limit (fun stx => (held stx ∨ usesAllowance enc ev m p c stx) ∧
      [stx] ∈ (perform enc ev m p c).2.pending.txGroups)
      (perform enc ev m p c).2 := by
  have hkept : ∀ {c : Call} {q : TransactionPool ε}, Bounded enc limit held q →
      Bounded enc limit (fun stx => (held stx ∨ usesAllowance enc ev m p c stx) ∧ [stx] ∈ q.pending.txGroups) q :=
    fun hq => hq.mono (fun stx hheld hin => ⟨.inl hheld, hin⟩)
  cases c with
  | remember g => exact (h.remember m g hfits).mono (fun stx hheld hin => ⟨hheld, hin⟩)
  | test g =>
    refine hkept ?_
    have hnone := @maybeReprime_of_reprime ε enc ev _ (h.checked g).reprime m
    show Bounded enc limit held (TransactionPool.test enc ev m g p).2
    rcases @test_cases ε enc ev m g p with ⟨-, heq | heq⟩ | ⟨-, heq⟩
    · rw [heq]
      exact h
    · rw [heq]
      exact h.checked g
    · rw [heq, hnone]
      exact h.checked g
  | onNewBlock round committed =>
    refine hkept ?_
    show Bounded enc limit held (TransactionPool.onNewBlock enc ev m round committed p)
    unfold TransactionPool.onNewBlock
    split
    · exact h
    split
    · split
      · exact ⟨h.capacity, h.index, h.groups, h.txids, h.reprime, h.size⟩
      · exact h
    split
    · have hadjusted : Bounded enc limit held (adjustFeeThreshold p) :=
        ⟨h.capacity, h.index, h.groups, h.txids, h.reprime, h.size⟩
      exact hadjusted.sheds (recompute_sheds _ _ _)
    · exact h
  | evictGroups ids error =>
    refine hkept ?_
    show Bounded enc limit held (TransactionPool.evictGroups enc ev m ids error p).2
    rw [evictGroups_eq]
    have hout : Bounded enc limit held (withoutGroups enc p ids error) := by
      refine h.sheds (withoutGroups_sheds p ids error ?_)
      intro g hg hhit id hid
      have hstays : id ∈ allIds enc (p.pending.txGroups.filter (fun g => !hit enc p ids g)) :=
        List.mem_flatMap.2 ⟨g, List.mem_filter.2 ⟨hg, by rw [hhit]; rfl⟩, hid⟩
      exact ((mem_allIds_filter h.index.once).1 hstays).2
    split
    · exact h
    split
    · exact hout.sheds (recompute_sheds _ _ _)
    · exact hout
  | lookup _ => cases hcall
  | pauseEvaluator => cases hcall
  | resumeEvaluator _ => cases hcall
  | assembleDevModeBlock => cases hcall
  | ensureEvaluatorPrimed => cases hcall
  | reset => cases hcall
  | shutDown => cases hcall

theorem Bounded.performAll : ∀ (calls : List (Moment ε × Call)) {held : SignedTransaction → Prop} {p : TransactionPool ε},
    Bounded enc limit held p → (∀ c ∈ calls, c.2.movesGroups = true) → AllFit enc ev calls p →
    Bounded enc limit (Allowed enc ev calls p held) (performAll enc ev calls p).2
  | [], _, _, h, _, _ => h
  | (m, c) :: calls, _, _, h, hcalls, hfit =>
    Bounded.performAll calls (h.perform m c (hcalls _ List.mem_cons_self) hfit.1)
      (fun c' hc' => hcalls c' (List.mem_cons_of_mem _ hc')) hfit.2

/-- Who used the allowance is a state proof. -/
theorem Allowed.stateProof : ∀ (calls : List (Moment ε × Call)) {p : TransactionPool ε} {held : SignedTransaction → Prop}
    {stx : SignedTransaction}, (∀ stx, held stx → stx.txn.txnType = .stpf) → Allowed enc ev calls p held stx →
    stx.txn.txnType = .stpf
  | [], _, _, stx, hheld, h => hheld stx h
  | (m, c) :: calls, p, held, stx, hheld, h => by
    refine Allowed.stateProof calls ?_ h
    rintro stx ⟨hstx | ⟨-, hover, -⟩, -⟩
    · exact hheld stx hstx
    · obtain ⟨stx', heq, hproof⟩ := isStateProof_iff.1 hover.2.1
      obtain ⟨rfl, -⟩ := List.cons.inj heq
      exact hproof

/-- **The pool never holds more than one transaction above its size**, and one above it only while a state proof that
used the allowance is pending: in every run from a new pool in which the evaluator accepts groups with new ids only and
no state proof is let over a pool that is above its size. -/
theorem pool_size_bound (config : PoolConfig) (calls : List (Moment ε × Call)) (hcalls : ∀ c ∈ calls, c.2.movesGroups = true)
    (hfit : AllFit enc ev calls (TransactionPool.new config)) (p : TransactionPool ε)
    (hp : p = (Pool.performAll enc ev calls (TransactionPool.new config)).2) :
    pendingCount p ≤ config.poolSize + 1 ∧
    (config.poolSize < pendingCount p →
      ∃ stx, [stx] ∈ p.pending.txGroups ∧ stx.txn.txnType = .stpf ∧
        Allowed enc ev calls (TransactionPool.new config) (fun _ => False) stx) := by
  have h := Bounded.performAll calls (@bounded_new ε enc (fun _ => False) config) hcalls hfit
  rw [← hp] at h
  have hsize := h.size
  unfold WithinSize at hsize
  rw [h.capacity] at hsize
  rcases hsize with hle | ⟨heq, stx, hheld, hin⟩
  · exact ⟨by omega, fun hlt => by omega⟩
  · exact ⟨by omega, fun _ => ⟨stx, hin, Allowed.stateProof calls (fun _ hf => nomatch hf) hheld, hheld⟩⟩

/-! ## A second state proof after a rebuild -/

/-- The state proof of a later round. -/
def laterStateProof : SignedTransaction :=
  { sampleStateProof with txn := { sampleStateProof.txn with firstValid := 2, lastValid := 1001 } }

/-- The ids of the sample transactions, with the later state proof. -/
def proofEncoding : TxnEncoding where
  computeTxnId txn :=
    if txn.firstValid = 2 then ⟨0x4bc3db8e7ddbb1530376fad69c89e3c8feaa363f736627a6f566e0f6f6d54679⟩
    else sampleEncoding.computeTxnId txn
  encodedLen _ := 220

/-- An evaluator of a round that accepts every group with new ids. -/
def roundEvaluator (enc : TxnEncoding) : BlockEvaluator (Round × List Digest) where
  round e := e.1
  testTransactionGroup e g :=
    if (e.2 ++ groupIds enc g).Nodup then .ok () else .error (.ledger "transaction already in ledger")
  transactionGroup e g :=
    if (e.2 ++ groupIds enc g).Nodup then (.ok (), (e.1, e.2 ++ groupIds enc g))
    else (.error (.ledger "transaction already in ledger"), e)
  generateBlock e := (.ok { (default : Ledger.Block) with round := e.1 }, e)
  resetTxnBytes e := e
  checksDuplicates _ := true

/-- A ledger at a round, some transactions of which are confirmed. -/
def roundMoment (latest : Round) (confirmed : List Digest) : Moment (Round × List Digest) where
  ledger := ⟨latest, fun round => .ok { (default : Ledger.BlockHeader) with round := round },
    fun header _ _ => .ok (header.round + 1, confirmed), fun id => confirmed.contains id⟩
  now := 0

/-- A payment fills a pool of one place, and a state proof goes over it. -/
def overflowCalls : List (Moment (Round × List Digest) × Call) :=
  [(roundMoment 10 [], .onNewBlock 10 ∅), (roundMoment 10 [], .remember [samplePayment 1]),
    (roundMoment 10 [], .remember [sampleStateProof])]

theorem overflowCalls_fit : AllFit proofEncoding (roundEvaluator proofEncoding) overflowCalls (.new ⟨1, 2, 500⟩) := by
  refine ⟨trivial, fun _ => ⟨⟨by decide, by decide⟩, ?_⟩, fun _ => ⟨⟨by decide, by decide⟩, ?_⟩,
    trivial⟩
  · exact fun h => absurd h.2.1 (by decide)
  · exact fun h => absurd h.1 (by decide)

/-- The pool is one above its size, and the state proof is there. -/
theorem pool_size_bound_one : pendingCount (performAll proofEncoding (roundEvaluator proofEncoding) overflowCalls
      (.new ⟨1, 2, 500⟩)).2 = 2 ∧
    ∃ stx, [stx] ∈ (performAll proofEncoding (roundEvaluator proofEncoding) overflowCalls
        (.new ⟨1, 2, 500⟩)).2.pending.txGroups ∧ stx.txn.txnType = .stpf := by
  have hcount : pendingCount (performAll proofEncoding (roundEvaluator proofEncoding) overflowCalls
      (.new ⟨1, 2, 500⟩)).2 = 2 := by decide
  obtain ⟨stx, hin, hproof, -⟩ := (pool_size_bound ⟨1, 2, 500⟩ overflowCalls (by decide) overflowCalls_fit _ rfl).2
    (by rw [hcount]; decide)
  exact ⟨hcount, stx, hin, hproof⟩

/-- A block that commits neither clears the flag, and a second state proof goes over the size: there are three
transactions in a pool of one place. -/
theorem second_stateProof_overflows :
    (∀ c ∈ overflowCalls ++ [(roundMoment 11 [], .onNewBlock 11 ∅), (roundMoment 11 [], .remember [laterStateProof])],
      c.2.movesGroups = true) ∧
    pendingCount (performAll proofEncoding (roundEvaluator proofEncoding)
      (overflowCalls ++ [(roundMoment 11 [], .onNewBlock 11 ∅), (roundMoment 11 [], .remember [laterStateProof])])
      (.new ⟨1, 2, 500⟩)).2 = 1 + 2 := by
  constructor
  · decide
  · decide

end Pool
end Algod
