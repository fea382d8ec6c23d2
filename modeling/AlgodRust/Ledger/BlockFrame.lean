import AlgodRust.Ledger.Conservation
import AlgodRust.Ledger.Rewards
import Mathlib.Algebra.BigOperators.Ring.List
import Mathlib.Algebra.Order.BigOperators.Group.Finset
/-!
# BlockFrame — the Algos that a block without transactions moves

The start of a block takes from the pool what every reward unit accrues, so the accounts are worth at the new level what
they were worth at the old one.  The end of the block pays the proposer and takes accounts offline.  The payout does not
claim the proposer's pending rewards first: where it raises the reward units of a proposer that is behind the level, the
new units earn rewards for rounds before they were there; nor are those of a participating fee sink claimed before it is
debited, whose lost units forfeit theirs (`applyBlock_conserves_iff`).
-/
namespace Algod
namespace Ledger

/-! ## Totals over accounts -/

/-- The sum of a quantity over all accounts. -/
def totalOf (f : AccountData → Nat) (s : Store) : Nat := FinMap.total (fun _ a => f a) s.accounts

/-- What an account has not claimed at a level. -/
def pendingOf (level : Nat) (a : AccountData) : Nat :=
  if a.status = .notParticipating then 0 else (level - a.rewardsBase) * (a.microAlgos / rewardUnits)

/-- The reward units of an account that participates. -/
def unitsOf (a : AccountData) : Nat := if a.status = .notParticipating then 0 else a.microAlgos / rewardUnits

section Totals

variable {f g : AccountData → Nat} {s s' : Store}

theorem totalOf_setAccount (hf : f default = 0) (s : Store) (addr : Address) (d : AccountData) :
    totalOf f (s.setAccount addr d) + f (s.getOrDefaultAccount addr) = totalOf f s + f d := by
  have hold : f (s.getOrDefaultAccount addr) = (s.accounts.lookup addr).elim 0 f := by
    unfold Store.getOrDefaultAccount Store.getAccount
    cases s.accounts.lookup addr with
    | none => exact hf
    | some a => rfl
  rw [hold]
  exact FinMap.total_insert (fun _ a => f a) s.accounts addr d

/-- The addresses of two stores. -/
def keysOf (s s' : Store) : Finset Address := s.accounts.keys.toFinset ∪ s'.accounts.keys.toFinset

theorem keysOf_comm (s s' : Store) : keysOf s s' = keysOf s' s := Finset.union_comm _ _

/-- A total as a sum over the addresses of both stores and any others. -/
theorem totalOf_eq_sum (hf : f default = 0) (s s' : Store) (K : Finset Address) :
    totalOf f s = ∑ addr ∈ keysOf s s' ∪ K, f (s.getOrDefaultAccount addr) := by
  unfold totalOf
  rw [FinMap.total_eq_sum (fun _ a => f a) s.accounts default (fun _ => hf)]
  · rfl
  · intro addr a ha
    refine Finset.mem_union_left _ (Finset.mem_union_left _ (List.mem_toFinset.2 ?_))
    exact FinMap.mem_iff_lookup.2 ⟨a, ha⟩

theorem totalOf_congr (hf : f default = 0) (hg : g default = 0)
    (h : ∀ addr, f (s.getOrDefaultAccount addr) = g (s'.getOrDefaultAccount addr)) : totalOf f s = totalOf g s' := by
  rw [totalOf_eq_sum hf s s' ∅, totalOf_eq_sum hg s' s ∅, keysOf_comm]
  exact Finset.sum_congr rfl fun addr _ => h addr

/-- Totals of a quantity that only some accounts change are equal where the sums over these accounts are. -/
theorem totalOf_eq_on (hf : f default = 0) (K : Finset Address)
    (hoff : ∀ addr, addr ∉ K → f (s'.getOrDefaultAccount addr) = f (s.getOrDefaultAccount addr)) :
    totalOf f s' = totalOf f s ↔
      ∑ addr ∈ K, f (s'.getOrDefaultAccount addr) = ∑ addr ∈ K, f (s.getOrDefaultAccount addr) := by
  have hsub : K ⊆ keysOf s s' ∪ K := Finset.subset_union_right
  rw [totalOf_eq_sum hf s s' K, totalOf_eq_sum hf s' s K, keysOf_comm s' s, ← Finset.sum_sdiff hsub, ← Finset.sum_sdiff hsub,
    Finset.sum_congr rfl fun addr haddr => hoff addr (Finset.mem_sdiff.1 haddr).2]
  exact Nat.add_left_cancel_iff

theorem totalOf_add (s : Store) : totalOf (fun a => f a + g a) s = totalOf f s + totalOf g s :=
  List.sum_map_add

theorem totalOf_mul (c : Nat) (s : Store) : totalOf (fun a => c * f a) s = c * totalOf f s :=
  List.sum_map_mul_left _ _ _

end Totals

theorem pendingOf_default (level : Nat) : pendingOf level default = 0 := by
  show (level - 0) * (0 / rewardUnits) = 0
  rw [Nat.zero_div, Nat.mul_zero]

theorem pendingOf_eq_units (level : Nat) (a : AccountData) :
    pendingOf level a = (level - a.rewardsBase) * unitsOf a := by
  unfold pendingOf unitsOf
  split
  · rw [Nat.mul_zero]
  · rfl

theorem worth_eq_pending (a : AccountData) (level : Nat) : worth a level = a.microAlgos + pendingOf level a := by
  unfold worth pendingOf
  by_cases hnp : a.status = .notParticipating
  · simp [hnp]
  · by_cases hz : a.microAlgos = 0
    · simp [hz]
    · simp [hnp, hz]

theorem totalWorth_eq (s : Store) (level : Nat) :
    totalWorth s level = totalOf AccountData.microAlgos s + totalOf (pendingOf level) s := by
  rw [← totalOf_add]
  unfold totalWorth totalOf
  congr 1
  funext _ a
  exact worth_eq_pending a level

/-- What accrues from one level to the next. -/
theorem pendingOf_level {a : AccountData} {level level' : Nat} (hbase : a.rewardsBase ≤ level) (hle : level ≤ level') :
    pendingOf level' a = pendingOf level a + (level' - level) * unitsOf a := by
  unfold pendingOf unitsOf
  split
  · rfl
  · rw [← Nat.add_mul]
    congr 1
    omega

/-! ## The steps of a block without transactions -/

/-- How the accounts of one store follow from those of another: the balances are `balance`, the accounts of `offline` no
longer refuse to participate, and the rest of what their worth depends on is the same. -/
structure Framed (s s' : Store) (balance : Address → Nat) (offline : List Address) : Prop where
  balance : ∀ addr, (s'.getOrDefaultAccount addr).microAlgos = balance addr
  base : ∀ addr, (s'.getOrDefaultAccount addr).rewardsBase = (s.getOrDefaultAccount addr).rewardsBase
  status : ∀ addr, (s'.getOrDefaultAccount addr).status = .notParticipating ↔
    (s.getOrDefaultAccount addr).status = .notParticipating ∧ addr ∉ offline
  total : totalOf AccountData.microAlgos s' = totalOf AccountData.microAlgos s

section Steps

variable {s s' : Store} {block : Block} {consensus : ConsensusParams} {test : AbsenceTest}

/-- Writing an account of the same balance that participates as before. -/
theorem Framed.of_setAccount {addr : Address} {d : AccountData}
    (hm : d.microAlgos = (s.getOrDefaultAccount addr).microAlgos)
    (hb : d.rewardsBase = (s.getOrDefaultAccount addr).rewardsBase)
    (hs : d.status = .notParticipating ↔ (s.getOrDefaultAccount addr).status = .notParticipating) :
    Framed s (s.setAccount addr d) (fun b => (s.getOrDefaultAccount b).microAlgos) [] := by
  refine ⟨Store.keep_setAccount AccountData.microAlgos hm, Store.keep_setAccount AccountData.rewardsBase hb,
    fun b => ?_, ?_⟩
  · have hstatus := Store.keep_setAccount (fun d => d.status = .notParticipating) (propext hs) b
    simp [hstatus]
  · have := totalOf_setAccount (f := AccountData.microAlgos) rfl s addr d
    omega

/-- Taking accounts offline, one after another. -/
theorem foldl_offline_framed (step : Store → Address → Store) (change : AccountData → AccountData)
    (hstep : ∀ s addr, step s addr = s.setAccount addr (change (s.getOrDefaultAccount addr)))
    (hm : ∀ a, (change a).microAlgos = a.microAlgos) (hb : ∀ a, (change a).rewardsBase = a.rewardsBase)
    (hs : ∀ a, (change a).status = .offline) :
    ∀ (addrs : List Address) (s : Store),
      Framed s (addrs.foldl step s) (fun addr => (s.getOrDefaultAccount addr).microAlgos) addrs
  | [], s => ⟨fun _ => rfl, fun _ => rfl, fun addr => by simp, rfl⟩
  | a :: addrs, s => by
    have hget : ∀ addr, (step s a).getOrDefaultAccount addr =
        if addr = a then change (s.getOrDefaultAccount a) else s.getOrDefaultAccount addr := by
      intro addr
      rw [hstep, Store.getOrDefaultAccount_setAccount]
    have ih := foldl_offline_framed step change hstep hm hb hs addrs (step s a)
    rw [List.foldl_cons]
    refine ⟨fun addr => ?_, fun addr => ?_, fun addr => ?_, ?_⟩
    · rw [ih.balance, hget]
      split
      · rename_i heq
        rw [hm, heq]
      · rfl
    · rw [ih.base, hget]
      split
      · rename_i heq
        rw [hb, heq]
      · rfl
    · rw [ih.status, hget, List.mem_cons]
      by_cases heq : addr = a
      · simp [heq, hs]
      · simp [heq]
    · rw [ih.total, hstep]
      have := totalOf_setAccount (f := AccountData.microAlgos) rfl s a (change (s.getOrDefaultAccount a))
      rw [hm] at this
      omega

theorem resetExpired_framed (h : resetExpiredOnlineAccounts s block consensus = .ok s') :
    Framed s s' (fun addr => (s.getOrDefaultAccount addr).microAlgos) (block.expiredParticipationAccounts.getD []) := by
  unfold resetExpiredOnlineAccounts at h
  simp only at h
  split at h
  · cases h
  · cases h
    exact foldl_offline_framed clearOnlineState
      (fun a => { a with
        status := .offline, voteId := none, selectionId := none, stateProofId := none, voteFirstValid := 0
        voteLastValid := 0, voteKeyDilution := 0 })
      (fun _ _ => rfl) (fun _ => rfl) (fun _ => rfl) (fun _ => rfl) _ s

theorem suspend_framed (s : Store) (block : Block) :
    Framed s (suspendAbsentAccounts s block) (fun addr => (s.getOrDefaultAccount addr).microAlgos)
      (block.absentParticipationAccounts.getD []) :=
  foldl_offline_framed suspend (fun a => { a with status := .offline, incentiveEligible := false }) (fun _ _ => rfl)
    (fun _ => rfl) (fun _ => rfl) (fun _ => rfl) _ s

/-- An accepted list of absent accounts has only accounts that are online. -/
theorem validateAbsentFrom_online :
    ∀ {addrs seen : List Address}, validateAbsentFrom test s block consensus seen addrs = .ok () →
      ∀ addr ∈ addrs, (s.getOrDefaultAccount addr).status = .online
  | [], _, _ => fun _ ha => absurd ha List.not_mem_nil
  | a :: addrs, seen, h => by
    unfold validateAbsentFrom at h
    simp only at h
    split at h
    · cases h
    split at h
    · cases h
    rename_i honline
    split at h
    · cases h
    split at h
    · cases h
    split at h
    · cases h
    · cases h
    · intro addr haddr
      rcases List.mem_cons.1 haddr with rfl | haddr
      · exact not_not.1 honline
      · exact validateAbsentFrom_online h addr haddr

theorem validateAbsent_online (h : validateAbsentOnlineAccounts test s block consensus = .ok ()) :
    ∀ addr ∈ block.absentParticipationAccounts.getD [], (s.getOrDefaultAccount addr).status = .online := by
  unfold validateAbsentOnlineAccounts at h
  simp only at h
  split at h
  · cases h
  split at h
  · rename_i hnil
    rw [hnil]
    exact fun _ ha => absurd ha List.not_mem_nil
  split at h
  · cases h
  · exact validateAbsentFrom_online h

/-- What a block pays its proposer. -/
def paidOut (block : Block) : Nat := if block.proposer.isZero then 0 else block.proposerPayout

/-- The balances after the payout. -/
def balanceAfterPayout (s : Store) (block : Block) (addr : Address) : Nat :=
  (s.getOrDefaultAccount addr).microAlgos - (if addr = block.feeSink then paidOut block else 0) +
    (if addr = block.proposer then paidOut block else 0)

/-- Writing a balance. -/
theorem setBalance_fields (s : Store) (addr : Address) (n : Nat) (b : Address) :
    let s' := s.setAccount addr { s.getOrDefaultAccount addr with microAlgos := n }
    (s'.getOrDefaultAccount b).microAlgos = (if b = addr then n else (s.getOrDefaultAccount b).microAlgos) ∧
      (s'.getOrDefaultAccount b).rewardsBase = (s.getOrDefaultAccount b).rewardsBase ∧
      (s'.getOrDefaultAccount b).status = (s.getOrDefaultAccount b).status := by
  simp only
  rw [Store.getOrDefaultAccount_setAccount]
  by_cases hb : b = addr
  · rw [if_pos hb, if_pos hb, hb]
    exact ⟨rfl, rfl, rfl⟩
  · rw [if_neg hb, if_neg hb]
    exact ⟨rfl, rfl, rfl⟩

theorem applyProposerPayout_framed (h : applyProposerPayout s block = .ok s') :
    Framed s s' (balanceAfterPayout s block) [] := by
  unfold applyProposerPayout at h
  split at h
  · rename_i hnone
    cases h
    have hzero : paidOut block = 0 := by
      unfold paidOut
      simp only [Bool.or_eq_true, beq_iff_eq] at hnone
      split
      · rfl
      · rename_i hne
        exact hnone.resolve_left hne
    refine ⟨fun addr => ?_, fun _ => rfl, fun addr => by simp, rfl⟩
    simp [balanceAfterPayout, hzero]
  · rename_i hsome
    simp only [Bool.or_eq_true, beq_iff_eq, not_or] at hsome
    have hpaid : paidOut block = block.proposerPayout := if_neg hsome.1
    simp only at h
    split at h
    · cases h
    rename_i hsink
    split at h
    · cases h
      have htotal₁ := totalOf_setAccount (f := AccountData.microAlgos) rfl s block.feeSink
        { s.getOrDefaultAccount block.feeSink with
          microAlgos := (s.getOrDefaultAccount block.feeSink).microAlgos - block.proposerPayout }
      have hget₁ := setBalance_fields s block.feeSink
        ((s.getOrDefaultAccount block.feeSink).microAlgos - block.proposerPayout)
      generalize s.setAccount block.feeSink { s.getOrDefaultAccount block.feeSink with
        microAlgos := (s.getOrDefaultAccount block.feeSink).microAlgos - block.proposerPayout } = s₁ at *
      have htotal₂ := totalOf_setAccount (f := AccountData.microAlgos) rfl s₁ block.proposer
        { s₁.getOrDefaultAccount block.proposer with
          microAlgos := (s₁.getOrDefaultAccount block.proposer).microAlgos + block.proposerPayout }
      have hget₂ := setBalance_fields s₁ block.proposer
        ((s₁.getOrDefaultAccount block.proposer).microAlgos + block.proposerPayout)
      refine ⟨fun addr => ?_, fun addr => ?_, fun addr => ?_, ?_⟩
      · rw [(hget₂ addr).1, (hget₁ block.proposer).1, (hget₁ addr).1, balanceAfterPayout, hpaid]
        by_cases hp : addr = block.proposer
        · rw [if_pos hp, if_pos hp, hp]
          split
          · rename_i heq
            rw [heq]
          · rfl
        · rw [if_neg hp, if_neg hp, Nat.add_zero]
          split
          · rename_i heq
            rw [heq]
          · rfl
      · rw [(hget₂ addr).2.1, (hget₁ addr).2.1]
      · rw [(hget₂ addr).2.2, (hget₁ addr).2.2]
        simp
      · simp only at htotal₁ htotal₂
        omega
    · cases h

theorem recordProposal_framed (s : Store) (block : Block) :
    Framed s (recordProposal s block) (fun addr => (s.getOrDefaultAccount addr).microAlgos) [] := by
  unfold recordProposal
  split
  · exact ⟨fun _ => rfl, fun _ => rfl, fun addr => by simp, rfl⟩
  · apply Framed.of_setAccount
    · split_ifs <;> rfl
    · split_ifs <;> rfl
    · split_ifs <;> simp_all

theorem Framed.trans {s₁ s₂ : Store} {balance₁ balance₂ : Address → Nat} {offline₁ offline₂ : List Address}
    (h : Framed s s₁ balance₁ offline₁) (h' : Framed s₁ s₂ balance₂ offline₂) :
    Framed s s₂ balance₂ (offline₁ ++ offline₂) := by
  refine ⟨h'.balance, fun addr => (h'.base addr).trans (h.base addr), fun addr => ?_, h'.total.trans h.total⟩
  rw [h'.status, h.status, List.mem_append, not_or, and_assoc]

/-- **The end of a block** moves the payout and takes the expired accounts offline. -/
theorem endOfBlock_framed {tracking : Store → Cells → Block → ConsensusParams → Except Nat Unit} {cells : Cells}
    (h : endOfBlock (blockExternals test tracking) true true s cells block consensus = .ok s') :
    Framed s s' (balanceAfterPayout s block) (block.expiredParticipationAccounts.getD []) := by
  unfold endOfBlock at h
  simp only [if_true] at h
  obtain ⟨_, -, h⟩ := Run.bind_eq_ok.1 h
  obtain ⟨s₁, h₁, h⟩ := Run.bind_eq_ok.1 h
  split at h
  · cases h
  rename_i habsent
  rw [Run.ok_bind] at h
  split at h
  · cases h
  rw [Run.ok_bind] at h
  split at h
  · cases h
  rw [Run.ok_bind] at h
  obtain ⟨s₂, h₂, h⟩ := Run.bind_eq_ok.1 h
  cases h
  have honline : ∀ addr ∈ block.absentParticipationAccounts.getD [], (s₁.getOrDefaultAccount addr).status = .online := by
    apply @validateAbsent_online s₁ block consensus test
    cases hv : validateAbsentOnlineAccounts test s₁ block consensus with
    | ok u => rfl
    | error e =>
      simp only [blockExternals, hv, Except.mapError] at habsent
      cases habsent
  have hexpired := resetExpired_framed h₁
  have habs := suspend_framed s₁ block
  have hpay := applyProposerPayout_framed h₂
  have hrec := recordProposal_framed s₂ block
  have hall := ((hexpired.trans habs).trans hpay).trans hrec
  refine ⟨fun addr => ?_, hall.base, fun addr => ?_, hall.total⟩
  · rw [hall.balance, hpay.balance]
    unfold balanceAfterPayout
    rw [habs.balance, hexpired.balance]
  · rw [hall.status]
    simp only [List.append_nil, List.mem_append, not_or]
    constructor
    · rintro ⟨hnp, hexp, -⟩
      exact ⟨hnp, hexp⟩
    · rintro ⟨hnp, hexp⟩
      refine ⟨hnp, hexp, fun hmem => ?_⟩
      have hstatus := (hexpired.status addr).2 ⟨hnp, hexp⟩
      rw [honline addr hmem] at hstatus
      cases hstatus

theorem totalOf_debit (s : Store) (addr : Address) {n : Nat} (hle : n ≤ (s.getOrDefaultAccount addr).microAlgos) :
    totalOf AccountData.microAlgos (s.setAccount addr { s.getOrDefaultAccount addr with
      microAlgos := (s.getOrDefaultAccount addr).microAlgos - n }) + n = totalOf AccountData.microAlgos s := by
  have htotal := totalOf_setAccount (f := AccountData.microAlgos) rfl s addr { s.getOrDefaultAccount addr with
    microAlgos := (s.getOrDefaultAccount addr).microAlgos - n }
  simp only at htotal ⊢
  omega

/-- What the start of a block takes from the pool. -/
def withdrawn (s : Store) (block : Block) : Nat := s.accountTotals.rewardUnits * (block.rewardsLevel - s.rewardsLevel)

theorem blockWithdrawal_paid (s : Store) (block : Block) (consensus : ConsensusParams) :
    (blockWithdrawal s block consensus).prevRewardUnits *
      ((blockWithdrawal s block consensus).rewardsLevel - (blockWithdrawal s block consensus).prevRewardsLevel) =
      withdrawn s block := by
  show (if block.rewardsLevel = s.rewardsLevel then 0 else s.accountTotals.rewardUnits) *
    (block.rewardsLevel - s.rewardsLevel) = withdrawn s block
  unfold withdrawn
  split
  · rename_i heq
    rw [heq, Nat.sub_self]
    rfl
  · rfl

/-- **The start of a block** takes the rewards that accrue from the pool and changes nothing else of the accounts. -/
theorem startBlock_accounts (hpool : (s.getOrDefaultAccount s.rewardsPool).status = .notParticipating)
    (hround : (blockWithdrawal s block consensus).isTestnetHotfixRound = false)
    (h : startBlock s block consensus false = .ok s') :
    s.rewardsLevel ≤ block.rewardsLevel ∧
      totalOf AccountData.microAlgos s' + withdrawn s block = totalOf AccountData.microAlgos s ∧
      ∀ addr, (s'.getOrDefaultAccount addr).microAlgos = (if addr = s.rewardsPool
          then (s.getOrDefaultAccount addr).microAlgos - withdrawn s block else (s.getOrDefaultAccount addr).microAlgos) ∧
        (s'.getOrDefaultAccount addr).rewardsBase = (s.getOrDefaultAccount addr).rewardsBase ∧
        (s'.getOrDefaultAccount addr).status = (s.getOrDefaultAccount addr).status := by
  have hpool' : ((setRewardsState s block).getOrDefaultAccount s.rewardsPool).status = .notParticipating := hpool
  unfold startBlock at h
  simp only [Bool.false_eq_true, if_false] at h
  unfold withdrawBlockRewards at h
  split at h
  · cases h
  rename_i hlevel
  have hlevel : s.rewardsLevel ≤ block.rewardsLevel := Nat.le_of_not_lt hlevel
  have hstart : workaroundOverspentRewards (setRewardsState s block) (blockWithdrawal s block consensus) =
      .ok (setRewardsState s block) := by simp [workaroundOverspentRewards, hround]
  have hrewards : rewardsOf ((setRewardsState s block).getOrDefaultAccount (blockWithdrawal s block consensus).pool)
      (blockWithdrawal s block consensus).rewardsLevel = .ok (s.getOrDefaultAccount s.rewardsPool) :=
    rewardsOf_notParticipating hpool' _
  rw [hstart, Run.ok_bind] at h
  simp only [hrewards, Run.ok_bind, blockWithdrawal_paid] at h
  split at h
  · cases h
  rename_i hfits
  split at h
  · cases h
  · refine ⟨hlevel, ?_⟩
    have hle : withdrawn s block ≤ (s.getOrDefaultAccount s.rewardsPool).microAlgos := by omega
    cases h
    split
    · refine ⟨totalOf_debit (setRewardsState s block) s.rewardsPool hle, fun addr => ?_⟩
      obtain ⟨hm, hb, hs⟩ := setBalance_fields (setRewardsState s block) s.rewardsPool
        ((s.getOrDefaultAccount s.rewardsPool).microAlgos - withdrawn s block) addr
      refine ⟨hm.trans ?_, hb, hs⟩
      split
      · rename_i heq
        rw [heq]
      · rfl
    · -- a pool from which nothing is taken is not written
      rename_i hsame
      have hm := congrArg AccountData.microAlgos (not_not.1 hsame)
      have hzero : withdrawn s block = 0 := by
        have hm : (s.getOrDefaultAccount s.rewardsPool).microAlgos - withdrawn s block =
          (s.getOrDefaultAccount s.rewardsPool).microAlgos := hm
        omega
      rw [hzero]
      refine ⟨rfl, fun addr => ⟨?_, rfl, rfl⟩⟩
      split <;> rfl

end Steps

/-! ## The block -/

/-- The balance that an account has after a block without transactions. -/
def balanceAfterBlock (s : Store) (block : Block) (addr : Address) : Nat :=
  (s.getOrDefaultAccount addr).microAlgos - (if addr = s.rewardsPool then withdrawn s block else 0) -
    (if addr = block.feeSink then paidOut block else 0) + (if addr = block.proposer then paidOut block else 0)

/-- The reward units that an account has after a block without transactions, where it participates. -/
def unitsAfterBlock (s : Store) (block : Block) (addr : Address) : Nat :=
  if (s.getOrDefaultAccount addr).status = .notParticipating ∧ addr ∉ block.expiredParticipationAccounts.getD [] then 0
  else balanceAfterBlock s block addr / rewardUnits

/-- The accounts whose reward units the end of a block can change. -/
def reweighed (block : Block) : Finset Address :=
  (block.proposer :: block.feeSink :: block.expiredParticipationAccounts.getD []).toFinset

/-- What reward units earn below the block's level comes to the same: what the units earn that the proposer gains and
those of accounts that start to participate is what the units earned that a participating fee sink loses. -/
def AccrualsCancel (s : Store) (block : Block) : Prop :=
  ∑ addr ∈ reweighed block, (block.rewardsLevel - (s.getOrDefaultAccount addr).rewardsBase) * unitsAfterBlock s block addr =
    ∑ addr ∈ reweighed block,
      (block.rewardsLevel - (s.getOrDefaultAccount addr).rewardsBase) * unitsOf (s.getOrDefaultAccount addr)

/-- No reward unit starts to earn at a level below the block's: an account that is taken offline and did not participate
has no reward unit or is up to date, and the payout leaves a proposer that is behind the level as many units as it had. -/
def NoFreshAccrual (s : Store) (block : Block) : Prop :=
  (∀ addr ∈ block.expiredParticipationAccounts.getD [], (s.getOrDefaultAccount addr).status = .notParticipating →
    (s.getOrDefaultAccount addr).rewardsBase = block.rewardsLevel ∨ balanceAfterBlock s block addr < rewardUnits) ∧
  ((s.getOrDefaultAccount block.proposer).status ≠ .notParticipating →
    (s.getOrDefaultAccount block.proposer).rewardsBase = block.rewardsLevel ∨
      ((s.getOrDefaultAccount block.proposer).microAlgos + paidOut block) / rewardUnits =
        (s.getOrDefaultAccount block.proposer).microAlgos / rewardUnits)

section Block

variable {s s₁ s₂ : Store} {block : Block}

/-- The steps of an accepted block without transactions. -/
theorem applyBlock_empty {protocols : String → Option ConsensusParams} {txid : Transaction → Digest}
    {ext : GroupInfo → Externals} {blockExt : BlockExternals} {view : StoreView} {req : ProbeRequest} {st : EvalState}
    (hempty : block.payset = []) (hskip : req.skipEpilogue = false) (hpool : req.poolWithdrawn = false)
    (h : applyBlockImpl protocols txid ext blockExt view true req s block = .ok st) :
    ∃ consensus s₁ s₂ cells, protocols block.currentProtocol = some consensus ∧
      startBlock s block consensus false = .ok s₁ ∧ endOfBlock blockExt true true s₁ cells block consensus = .ok s₂ ∧
      st.store = commitBlock s₂ block := by
  unfold applyBlockImpl at h
  split at h
  · cases h
  rename_i consensus hknown
  simp only [hempty, GenesisRestoreRule.checkPayset] at h
  split at h
  · cases h
  rw [hpool] at h
  split at h
  · cases h
  rename_i s₁ hstart
  have hpay : ∀ (p : PaysetContext) (st : EvalState),
      applyPayset ext view p st
        (((GenesisRestoreRule.forParams consensus block).restorePayset []).zip
          (paysetTxidsWithRule txid [] (GenesisRestoreRule.forParams consensus block))) = .ok st := fun _ _ => rfl
  rw [hpay] at h
  simp only [hskip, Bool.false_eq_true, if_false] at h
  split at h
  · cases h
  rename_i s₂ hend
  cases h
  exact ⟨consensus, s₁, s₂, _, hknown, hstart, hend, rfl⟩

theorem mul_eq_iff_of_le {level base m n : Nat} (hle : base ≤ level) :
    (level - base) * m = (level - base) * n ↔ base = level ∨ m = n := by
  rw [mul_eq_mul_left_iff, or_comm]
  constructor <;> rintro (h | h)
  · exact .inl (by omega)
  · exact .inr h
  · exact .inl (by omega)
  · exact .inr h

/-- A block pays from the pool and from its fee sink, and only the proposer gains. -/
theorem balanceAfterBlock_of_ne {addr : Address} (hp : addr ≠ s.rewardsPool) (hs : addr ≠ block.feeSink) :
    balanceAfterBlock s block addr =
      (s.getOrDefaultAccount addr).microAlgos + if addr = block.proposer then paidOut block else 0 := by
  unfold balanceAfterBlock
  rw [if_neg hp, if_neg hs, Nat.sub_zero, Nat.sub_zero]

/-- **What a block without transactions does to pending rewards** is what it does to the accounts it reweighs. -/
theorem pending_frame (hpool : (s.getOrDefaultAccount s.rewardsPool).status = .notParticipating)
    (hstart : ∀ addr, (s₁.getOrDefaultAccount addr).microAlgos = (if addr = s.rewardsPool
        then (s.getOrDefaultAccount addr).microAlgos - withdrawn s block else (s.getOrDefaultAccount addr).microAlgos) ∧
      (s₁.getOrDefaultAccount addr).rewardsBase = (s.getOrDefaultAccount addr).rewardsBase ∧
      (s₁.getOrDefaultAccount addr).status = (s.getOrDefaultAccount addr).status)
    (hend : Framed s₁ s₂ (balanceAfterPayout s₁ block) (block.expiredParticipationAccounts.getD [])) :
    totalOf (pendingOf block.rewardsLevel) s₂ = totalOf (pendingOf block.rewardsLevel) s₁ ↔ AccrualsCancel s block := by
  have hbefore : ∀ addr, pendingOf block.rewardsLevel (s₁.getOrDefaultAccount addr) =
      (block.rewardsLevel - (s.getOrDefaultAccount addr).rewardsBase) * unitsOf (s.getOrDefaultAccount addr) := by
    intro addr
    rw [pendingOf_eq_units, (hstart addr).2.1]
    congr 1
    unfold unitsOf
    rw [(hstart addr).2.2, (hstart addr).1]
    by_cases hp : addr = s.rewardsPool
    · rw [if_pos (hp ▸ hpool), if_pos (hp ▸ hpool)]
    · rw [if_neg hp]
  have hafter : ∀ addr, pendingOf block.rewardsLevel (s₂.getOrDefaultAccount addr) =
      (block.rewardsLevel - (s.getOrDefaultAccount addr).rewardsBase) * unitsAfterBlock s block addr := by
    intro addr
    have hbalance : balanceAfterPayout s₁ block addr = balanceAfterBlock s block addr := by
      unfold balanceAfterPayout balanceAfterBlock
      rw [(hstart addr).1]
      split
      · rfl
      · rw [Nat.sub_zero]
    rw [pendingOf_eq_units, hend.base, (hstart addr).2.1]
    congr 1
    unfold unitsOf unitsAfterBlock
    simp only [hend.status, (hstart addr).2.2, hend.balance, hbalance]
  rw [totalOf_eq_on (pendingOf_default _) (reweighed block)]
  · simp only [hbefore, hafter]
    rfl
  · intro addr hout
    simp only [reweighed, List.mem_toFinset, List.mem_cons, not_or] at hout
    rw [hbefore, hafter]
    congr 1
    unfold unitsAfterBlock unitsOf
    by_cases hnp : (s.getOrDefaultAccount addr).status = .notParticipating
    · rw [if_pos ⟨hnp, hout.2.2⟩, if_pos hnp]
    · have hp : addr ≠ s.rewardsPool := fun h => hnp (h ▸ hpool)
      rw [if_neg fun h => hnp h.1, if_neg hnp, balanceAfterBlock_of_ne hp hout.2.1, if_neg hout.1, Nat.add_zero]

section IdleSink

variable (hpool : (s.getOrDefaultAccount s.rewardsPool).status = .notParticipating)
  (hsink : (s.getOrDefaultAccount block.feeSink).status = .notParticipating)

include hpool hsink

theorem balanceAfterBlock_of_participating {addr : Address}
    (hnp : (s.getOrDefaultAccount addr).status ≠ .notParticipating) : balanceAfterBlock s block addr =
      (s.getOrDefaultAccount addr).microAlgos + if addr = block.proposer then paidOut block else 0 :=
  balanceAfterBlock_of_ne (fun h => hnp (h ▸ hpool)) (fun h => hnp (h ▸ hsink))

theorem unitsOf_le_unitsAfterBlock (addr : Address) :
    unitsOf (s.getOrDefaultAccount addr) ≤ unitsAfterBlock s block addr := by
  unfold unitsOf unitsAfterBlock
  by_cases hnp : (s.getOrDefaultAccount addr).status = .notParticipating
  · rw [if_pos hnp]
    exact Nat.zero_le _
  · rw [if_neg hnp, if_neg fun h => hnp h.1, balanceAfterBlock_of_participating hpool hsink hnp]
    exact Nat.div_le_div_right (Nat.le_add_right _ _)

/-- Where the block pays from an account that does not participate, no account loses reward units that earn, so none may
gain any. -/
theorem accrualsCancel_iff (hbase : ∀ addr, (s.getOrDefaultAccount addr).rewardsBase ≤ block.rewardsLevel) :
    AccrualsCancel s block ↔ NoFreshAccrual s block := by
  have hle := unitsOf_le_unitsAfterBlock hpool hsink
  have hsum : AccrualsCancel s block ↔ ∀ addr ∈ reweighed block,
      (s.getOrDefaultAccount addr).rewardsBase = block.rewardsLevel ∨
        unitsAfterBlock s block addr = unitsOf (s.getOrDefaultAccount addr) := by
    unfold AccrualsCancel
    rw [eq_comm, Finset.sum_eq_sum_iff_of_le fun addr _ => Nat.mul_le_mul_left _ (hle addr)]
    simp only [mul_eq_iff_of_le (hbase _), eq_comm]
  rw [hsum]
  unfold unitsAfterBlock unitsOf
  constructor
  · intro h
    refine ⟨fun addr hmem hnp => ?_, fun hnp => ?_⟩
    · have h := h addr (by simp [reweighed, hmem])
      rw [if_neg fun h => h.2 hmem, if_pos hnp, Nat.div_eq_zero_iff_lt (by decide)] at h
      exact h
    · have h := h block.proposer (by simp [reweighed])
      rw [if_neg fun h => hnp h.1, if_neg hnp, balanceAfterBlock_of_participating hpool hsink hnp, if_pos rfl] at h
      exact h
  · rintro ⟨hexpired, hproposer⟩ addr -
    by_cases hnp : (s.getOrDefaultAccount addr).status = .notParticipating
    · rw [if_pos hnp]
      by_cases hmem : addr ∈ block.expiredParticipationAccounts.getD []
      · rw [if_neg fun h => h.2 hmem, Nat.div_eq_zero_iff_lt (by decide)]
        exact hexpired addr hmem hnp
      · exact .inr (if_pos ⟨hnp, hmem⟩)
    · rw [if_neg hnp, if_neg fun h => hnp h.1, balanceAfterBlock_of_participating hpool hsink hnp]
      by_cases hp : addr = block.proposer
      · rw [if_pos hp]
        subst hp
        exact hproposer hnp
      · rw [if_neg hp, Nat.add_zero]
        exact .inr rfl

end IdleSink

end Block

/-- **When a block without transactions conserves Algos.**  An accepted block whose payset is empty leaves the accounts
worth as much at its level as they were worth before at the level before exactly where the reward units that start and
stop to earn below the block's level cancel out.  The fee sink that a block names is not checked against the store's;
where it does not participate, this means that no reward unit starts to earn below the level. -/
theorem applyBlock_conserves_iff (protocols : String → Option ConsensusParams) (txid : Transaction → Digest)
    (ext : GroupInfo → Externals) (test : AbsenceTest)
    (tracking : Store → Cells → Block → ConsensusParams → Except Nat Unit) (view : StoreView) (req : ProbeRequest)
    (s : Store) (block : Block) (st : EvalState) (hskip : req.skipEpilogue = false) (hwithdraw : req.poolWithdrawn = false)
    (hempty : block.payset = []) (hpool : (s.getOrDefaultAccount s.rewardsPool).status = .notParticipating)
    (hunits : s.accountTotals.rewardUnits = totalOf unitsOf s)
    (hbase : ∀ addr a, s.getAccount addr = some a → a.rewardsBase ≤ s.rewardsLevel)
    (hround : block.round ∉ testnetOverspentRewardsRounds ∨ s.genesisHash ≠ testnetGenesisHash)
    (h : applyBlockImpl protocols txid ext (blockExternals test tracking) view true req s block = .ok st) :
    (totalWorth st.store block.rewardsLevel = totalWorth s s.rewardsLevel ↔ AccrualsCancel s block) ∧
      ((s.getOrDefaultAccount block.feeSink).status = .notParticipating →
        (AccrualsCancel s block ↔ NoFreshAccrual s block)) := by
  obtain ⟨consensus, s₁, s₂, cells, -, hstart, hend, hst⟩ := applyBlock_empty hempty hskip hwithdraw h
  have hround' : (blockWithdrawal s block consensus).isTestnetHotfixRound = false := by
    unfold BlockRewardsWithdrawal.isTestnetHotfixRound
    rcases hround with hr | hr
    · rw [Bool.and_eq_false_iff]
      exact .inl (decide_eq_false hr)
    · rw [Bool.and_eq_false_iff]
      exact .inr (decide_eq_false hr)
  obtain ⟨hlevel, htotal, haccounts⟩ := startBlock_accounts hpool hround' hstart
  have hframe := endOfBlock_framed hend
  have hbase' : ∀ addr, (s.getOrDefaultAccount addr).rewardsBase ≤ s.rewardsLevel := by
    intro addr
    unfold Store.getOrDefaultAccount
    cases ha : s.getAccount addr with
    | none => exact Nat.zero_le _
    | some a => exact hbase addr a ha
  refine ⟨?_, fun hsink => accrualsCancel_iff hpool hsink fun addr => (hbase' addr).trans hlevel⟩
  -- what accrues at the start of the block is what the pool pays
  have haccrued : totalOf (pendingOf block.rewardsLevel) s₁ =
      totalOf (pendingOf s.rewardsLevel) s + withdrawn s block := by
    have hsame : totalOf (pendingOf block.rewardsLevel) s₁ =
        totalOf (fun a => pendingOf s.rewardsLevel a + (block.rewardsLevel - s.rewardsLevel) * unitsOf a) s := by
      apply totalOf_congr (pendingOf_default _) (by rw [pendingOf_default]; rfl)
      intro addr
      rw [← pendingOf_level (hbase' addr) hlevel]
      obtain ⟨hm, hb, hs⟩ := haccounts addr
      unfold pendingOf
      rw [hm, hb, hs]
      by_cases hp : addr = s.rewardsPool
      · rw [if_pos (by rw [hp, hpool]), if_pos (by rw [hp, hpool])]
      · rw [if_neg hp]
    rw [hsame, totalOf_add, totalOf_mul, ← hunits, Nat.mul_comm]
    rfl
  have hcommit : totalWorth st.store block.rewardsLevel = totalWorth s₂ block.rewardsLevel := by rw [hst]; rfl
  rw [hcommit, totalWorth_eq, totalWorth_eq, hframe.total, ← pending_frame hpool haccounts hframe]
  omega

/-! ## A payout that makes Algos -/

def payoutProtocols (_ : String) : Option ConsensusParams :=
  some { (default : ConsensusParams) with payoutsEnabled := true, minBalance := 100000 }

def noAbsence : AbsenceTest := ⟨fun _ _ _ => .error 0, fun _ _ _ _ _ => .error 0⟩

/-- Account 1 has `balance` and claimed no rewards since the start; account 2 is the fee sink and 3 the pool. -/
def payoutStore (balance : Nat) : Store :=
  { (default : Store) with
    accounts := (((∅ : FinMap Address AccountData).insert ⟨1⟩ { (default : AccountData) with microAlgos := balance }).insert
      ⟨2⟩ { (default : AccountData) with microAlgos := 1000000, status := .notParticipating }).insert
      ⟨3⟩ { (default : AccountData) with microAlgos := 1000000, status := .notParticipating }
    rewardsLevel := 10
    feeSink := ⟨2⟩
    rewardsPool := ⟨3⟩
    accountTotals := ⟨0, balance / rewardUnits⟩ }

/-- A block that pays account 1 one microAlgo. -/
def payoutBlock : Block :=
  { (default : Block) with
    round := 1, feeSink := ⟨2⟩, rewardsPool := ⟨3⟩, rewardsLevel := 10, proposer := ⟨1⟩, bonus := 1, proposerPayout := 1 }

def payoutResult (balance : Nat) : Except BlockError EvalState :=
  applyBlockImpl payoutProtocols (fun _ => .zero) (fun _ => noExternals) (blockExternals noAbsence fun _ _ _ _ => .ok ())
    StoreView.plain true ⟨false, false, false, true, true, BlockDups.new⟩ (payoutStore balance) payoutBlock

theorem payoutStore_base (balance : Nat) (addr : Address) (a : AccountData)
    (h : (payoutStore balance).getAccount addr = some a) : a.rewardsBase ≤ (payoutStore balance).rewardsLevel := by
  have hzero : a.rewardsBase = 0 := by
    unfold payoutStore Store.getAccount at h
    simp only [FinMap.lookup_insert_eq, AList.lookup_empty] at h
    split_ifs at h <;> cases h <;> rfl
  rw [hzero]
  exact Nat.zero_le _

/-- The payout lifts account 1 over a reward unit, which then earns the rewards of ten levels at once. -/
theorem payout_makesAlgos :
    ((payoutStore 1999999).getOrDefaultAccount (payoutStore 1999999).rewardsPool).status = .notParticipating ∧
    ((payoutStore 1999999).getOrDefaultAccount (payoutStore 1999999).feeSink).status = .notParticipating ∧
    (payoutStore 1999999).feeSink = payoutBlock.feeSink ∧
    (payoutStore 1999999).accountTotals.rewardUnits = totalOf unitsOf (payoutStore 1999999) ∧
    (∀ addr a, (payoutStore 1999999).getAccount addr = some a → a.rewardsBase ≤ (payoutStore 1999999).rewardsLevel) ∧
    payoutBlock.payset = [] ∧
    ∃ st, payoutResult 1999999 = .ok st ∧
      totalWorth (payoutStore 1999999) 10 = 4000009 ∧ totalWorth st.store payoutBlock.rewardsLevel = 4000019 := by
  obtain ⟨st, hst, hworth⟩ := @Run.ok_of_any _ _ (payoutResult 1999999)
    (fun st => decide (totalWorth st.store payoutBlock.rewardsLevel = 4000019)) (by decide)
  exact ⟨by decide, by decide, rfl, by decide, payoutStore_base 1999999, rfl, st, hst,
    by decide, of_decide_eq_true hworth⟩

/-- The same payout to an account that stays below its next reward unit. -/
theorem applyBlock_conserves_smallPayout :
    ∃ st, payoutResult 1500000 = .ok st ∧
      NoFreshAccrual (payoutStore 1500000) payoutBlock ∧
      totalWorth st.store payoutBlock.rewardsLevel = totalWorth (payoutStore 1500000) 10 := by
  obtain ⟨st, hst, -⟩ := @Run.ok_of_any _ _ (payoutResult 1500000) (fun _ => true) (by decide)
  have hfresh : NoFreshAccrual (payoutStore 1500000) payoutBlock :=
    ⟨fun _ haddr => absurd haddr List.not_mem_nil, fun _ => .inr (by decide)⟩
  obtain ⟨hiff, hsink⟩ := applyBlock_conserves_iff _ _ _ _ _ _ _ (payoutStore 1500000) payoutBlock st rfl rfl rfl
    (by decide) (by decide) (payoutStore_base 1500000) (.inl (by decide)) hst
  exact ⟨st, hst, hfresh, hiff.2 ((hsink (by decide)).2 hfresh)⟩

end Ledger
end Algod
