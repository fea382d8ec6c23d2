import AlgodRust.Ledger.EvalBlock
/-!
# Rewards — the rewards schedule and the pool that funds it

At a refresh round the schedule spreads what the pool has above its minimum balance evenly over the rounds up to the
next refresh.  Every round pays the rate and what earlier rounds left over, rounded down per reward unit.  The pool is
solvent along every run (`pool_solvent`): beside its minimum balance and the residue it always holds the rate for every
round that is left (`Funded`).
-/
namespace Algod
namespace Ledger

/-- The part of a block header that advances with the rewards schedule. -/
structure RewardsState where
  rewardsLevel : Nat
  rewardsRate : Nat
  rewardsResidue : Nat
  rewardsRecalculationRound : Nat
deriving DecidableEq, Repr, Inhabited

/-- What the pool may not spend on the next rate: the whole pool where the sum overflows. -/
def maxSpentOver (params : ConsensusParams) (residue pool : Nat) : Nat :=
  if params.pendingResidueRewards then
    if params.minBalance + residue < u64Bound then params.minBalance + residue else pool
  else params.minBalance

/-- The rate is taken from the pool again in the recalculation round.  The next one may wrap around. -/
def refreshRate (prev : RewardsState) (nextRound : Nat) (params : ConsensusParams) (pool : Nat) : RewardsState :=
  if nextRound = prev.rewardsRecalculationRound then
    { prev with
      rewardsRate := (pool - maxSpentOver params prev.rewardsResidue pool) / params.rewardsRateRefreshInterval
      rewardsRecalculationRound := wrapAdd nextRound params.rewardsRateRefreshInterval }
  else prev

/-- The level moves by what every reward unit gets, unless that overflows. -/
def advanceLevel (res : RewardsState) (rate totalRewardUnits : Nat) : RewardsState :=
  if totalRewardUnits = 0 then res
  else if rate + res.rewardsResidue < u64Bound then
    let withResidue := rate + res.rewardsResidue
    if res.rewardsLevel + withResidue / totalRewardUnits < u64Bound then
      { res with
        rewardsLevel := res.rewardsLevel + withResidue / totalRewardUnits
        rewardsResidue := withResidue % totalRewardUnits }
    else res
  else res

/-- **The rewards state of the next block.** -/
def nextRewardsState (prev : RewardsState) (nextRound : Nat) (params : ConsensusParams)
    (incentivePoolBalance totalRewardUnits : Nat) : RewardsState :=
  let res := refreshRate prev nextRound params incentivePoolBalance
  advanceLevel res (if params.rewardsCalculationFix then res.rewardsRate else prev.rewardsRate) totalRewardUnits

/-! ## The withdrawal from the pool -/

/-- What a withdrawal of `units * perUnit` leaves of a pool that earns nothing itself. -/
def payRewards (pool units perUnit minBalance : Nat) (round : Round) : Except WithdrawalError Nat :=
  if units * perUnit ≥ u64Bound ∨ pool < units * perUnit then .error (.poolOverspent round)
  else if pool - units * perUnit < minBalance then .error (.poolBelowMinBalance round)
  else .ok (pool - units * perUnit)

theorem payRewards_eq_ok {pool units perUnit minBalance : Nat} {round : Round} (hfit : units * perUnit < u64Bound)
    (hpaid : minBalance + units * perUnit ≤ pool) :
    payRewards pool units perUnit minBalance round = .ok (pool - units * perUnit) := by
  unfold payRewards
  rw [if_neg (by omega), if_neg (by omega)]

theorem rewardsOf_notParticipating {account : AccountData} (h : account.status = .notParticipating) (level : Nat) :
    rewardsOf account level = .ok account := by
  simp [rewardsOf, withRewards, applyRewards, h]

/-! ## Runs of the schedule -/

/-- The rewards state, the balance of the pool and the round to come. -/
structure PoolState where
  rewards : RewardsState
  pool : Nat
  nextRound : Nat
deriving DecidableEq, Repr

/-- A round: how many reward units there are, and what its transactions put into the pool. -/
structure PoolRound where
  totalRewardUnits : Nat
  deposit : Nat
deriving DecidableEq, Repr

/-- One round of the schedule.  The round emits what it paid. -/
def poolStep (params : ConsensusParams) (st : PoolState) (e : PoolRound) :
    Except WithdrawalError (PoolState × List Nat) := do
  let rewards := nextRewardsState st.rewards st.nextRound params st.pool e.totalRewardUnits
  let pool ← payRewards st.pool e.totalRewardUnits (rewards.rewardsLevel - st.rewards.rewardsLevel) params.minBalance
    st.nextRound
  return (⟨rewards, pool + e.deposit, st.nextRound + 1⟩, [st.pool - pool])

/-- The pool holds its minimum balance, the residue and the rate of every round before the next refresh. -/
def Funded (minBalance : Nat) (rewards : RewardsState) (pool nextRound : Nat) : Prop :=
  nextRound ≤ rewards.rewardsRecalculationRound ∧
    minBalance + rewards.rewardsResidue + rewards.rewardsRate * (rewards.rewardsRecalculationRound - nextRound) ≤ pool

theorem Funded.residue_le {minBalance pool nextRound : Nat} {rewards : RewardsState}
    (h : Funded minBalance rewards pool nextRound) : minBalance + rewards.rewardsResidue ≤ pool :=
  le_trans (Nat.le_add_right _ _) h.2

section Run

variable {params : ConsensusParams}

/-- A refresh sets aside no more than the pool has, and the next one is at least a round away. -/
theorem refreshRate_funded (hpend : params.pendingResidueRewards = true) {prev : RewardsState} {pool nextRound : Nat}
    (hint : 1 ≤ params.rewardsRateRefreshInterval)
    (hwrap : nextRound + params.rewardsRateRefreshInterval < u64Bound)
    (h : Funded params.minBalance prev pool nextRound) :
    Funded params.minBalance (refreshRate prev nextRound params pool) pool nextRound ∧
      nextRound < (refreshRate prev nextRound params pool).rewardsRecalculationRound := by
  unfold refreshRate
  by_cases hr : nextRound = prev.rewardsRecalculationRound
  · rw [if_pos hr]
    have hres := h.residue_le
    have hrecalc : wrapAdd nextRound params.rewardsRateRefreshInterval =
        nextRound + params.rewardsRateRefreshInterval := Nat.mod_eq_of_lt hwrap
    have hspent : params.minBalance + prev.rewardsResidue ≤ maxSpentOver params prev.rewardsResidue pool := by
      unfold maxSpentOver
      rw [if_pos hpend]
      split
      · exact le_rfl
      · exact hres
    have hrate := Nat.div_mul_le_self (pool - maxSpentOver params prev.rewardsResidue pool)
      params.rewardsRateRefreshInterval
    refine ⟨⟨?_, ?_⟩, ?_⟩
    · show nextRound ≤ wrapAdd nextRound params.rewardsRateRefreshInterval
      omega
    · show params.minBalance + prev.rewardsResidue + (pool - maxSpentOver params prev.rewardsResidue pool) /
        params.rewardsRateRefreshInterval * (wrapAdd nextRound params.rewardsRateRefreshInterval - nextRound) ≤ pool
      rw [hrecalc, Nat.add_sub_cancel_left]
      omega
    · show nextRound < wrapAdd nextRound params.rewardsRateRefreshInterval
      omega
  · rw [if_neg hr]
    exact ⟨h, lt_of_le_of_ne h.1 hr⟩

/-- What a round pays is taken from the rate and the residue: nothing is lost, and nothing is paid twice. -/
theorem advanceLevel_paid (res : RewardsState) (units : Nat) :
    let res' := advanceLevel res res.rewardsRate units
    units * (res'.rewardsLevel - res.rewardsLevel) < u64Bound ∧
      units * (res'.rewardsLevel - res.rewardsLevel) + res'.rewardsResidue ≤ res.rewardsRate + res.rewardsResidue ∧
      res'.rewardsRate = res.rewardsRate ∧ res'.rewardsRecalculationRound = res.rewardsRecalculationRound := by
  have hskip : units * (res.rewardsLevel - res.rewardsLevel) < u64Bound ∧
      units * (res.rewardsLevel - res.rewardsLevel) + res.rewardsResidue ≤ res.rewardsRate + res.rewardsResidue ∧
      res.rewardsRate = res.rewardsRate ∧ res.rewardsRecalculationRound = res.rewardsRecalculationRound := by
    simp [u64Bound]
  simp only [advanceLevel]
  split
  · exact hskip
  split
  · rename_i hfit
    split
    · have hdiv := Nat.div_add_mod (res.rewardsRate + res.rewardsResidue) units
      simp only [Nat.add_sub_cancel_left]
      refine ⟨by omega, by omega, trivial, trivial⟩
    · exact hskip
  · exact hskip

/-- One round of a funded pool can be paid, and leaves it funded. -/
theorem poolStep_funded (hpend : params.pendingResidueRewards = true) (hfix : params.rewardsCalculationFix = true)
    (hint : 1 ≤ params.rewardsRateRefreshInterval) {st : PoolState} (e : PoolRound)
    (hwrap : st.nextRound + params.rewardsRateRefreshInterval < u64Bound)
    (h : Funded params.minBalance st.rewards st.pool st.nextRound) :
    ∃ st' paid, poolStep params st e = .ok (st', [paid]) ∧ st'.nextRound = st.nextRound + 1 ∧
      st'.pool + paid = st.pool + e.deposit ∧ Funded params.minBalance st'.rewards st'.pool st'.nextRound := by
  obtain ⟨⟨hle, hfund⟩, hlt⟩ := refreshRate_funded hpend hint hwrap h
  have hlevel : (refreshRate st.rewards st.nextRound params st.pool).rewardsLevel = st.rewards.rewardsLevel := by
    unfold refreshRate
    split <;> rfl
  have hnext : nextRewardsState st.rewards st.nextRound params st.pool e.totalRewardUnits =
      advanceLevel (refreshRate st.rewards st.nextRound params st.pool)
        (refreshRate st.rewards st.nextRound params st.pool).rewardsRate e.totalRewardUnits := by
    simp [nextRewardsState, hfix]
  generalize refreshRate st.rewards st.nextRound params st.pool = res at *
  obtain ⟨hfit, hpaid, hrate, hrecalc⟩ := advanceLevel_paid res e.totalRewardUnits
  rw [hlevel, ← hnext] at hfit hpaid
  rw [← hnext] at hrate hrecalc
  generalize hn : nextRewardsState st.rewards st.nextRound params st.pool e.totalRewardUnits = next at *
  -- the rate of this round is one of those set aside
  have hleft : res.rewardsRate * (res.rewardsRecalculationRound - st.nextRound) =
      res.rewardsRate * (res.rewardsRecalculationRound - (st.nextRound + 1)) + res.rewardsRate := by
    rw [← Nat.mul_succ]
    congr 1
    omega
  have hpay := @payRewards_eq_ok st.pool e.totalRewardUnits (next.rewardsLevel - st.rewards.rewardsLevel)
    params.minBalance st.nextRound hfit (by omega)
  generalize e.totalRewardUnits * (next.rewardsLevel - st.rewards.rewardsLevel) = paid at *
  refine ⟨⟨next, st.pool - paid + e.deposit, st.nextRound + 1⟩, st.pool - (st.pool - paid), ?_, rfl, ?_, ?_, ?_⟩
  · unfold poolStep
    simp only [hn, hpay, Run.ok_bind]
    rfl
  · show st.pool - paid + e.deposit + (st.pool - (st.pool - paid)) = st.pool + e.deposit
    omega
  · show st.nextRound + 1 ≤ next.rewardsRecalculationRound
    rw [hrecalc]
    exact hlt
  · show params.minBalance + next.rewardsResidue +
      next.rewardsRate * (next.rewardsRecalculationRound - (st.nextRound + 1)) ≤ st.pool - paid + e.deposit
    rw [hrate, hrecalc]
    omega

/-- A run of a funded pool.  What it paid is what the pool had, and was given, beyond what it still has. -/
theorem run_funded (hpend : params.pendingResidueRewards = true) (hfix : params.rewardsCalculationFix = true)
    (hint : 1 ≤ params.rewardsRateRefreshInterval) :
    ∀ (es : List PoolRound) (st : PoolState),
      st.nextRound + es.length + params.rewardsRateRefreshInterval ≤ u64Bound →
      Funded params.minBalance st.rewards st.pool st.nextRound →
      ∃ st' paid, Run.run (poolStep params) st es = .ok (st', paid) ∧
        st'.pool + paid.sum = st.pool + (es.map PoolRound.deposit).sum ∧
        Funded params.minBalance st'.rewards st'.pool st'.nextRound
  | [], st, _, h => ⟨st, [], rfl, rfl, h⟩
  | e :: es, st, hwrap, h => by
    rw [List.length_cons] at hwrap
    obtain ⟨st₁, paid₁, hstep, hnext, hpool, h₁⟩ := poolStep_funded hpend hfix hint e (by omega) h
    obtain ⟨st', paid, hrun, htotal, h'⟩ := run_funded hpend hfix hint es st₁ (by rw [hnext]; omega) h₁
    refine ⟨st', paid₁ :: paid, Run.run_cons_eq_ok.2 ⟨_, _, _, _, hstep, hrun, rfl⟩, ?_, h'⟩
    rw [List.sum_cons, List.map_cons, List.sum_cons]
    omega

end Run

def refreshParams : ConsensusParams :=
  { (default : ConsensusParams) with
    minBalance := 100
    pendingResidueRewards := true
    rewardsCalculationFix := true
    rewardsRateRefreshInterval := 2 }

end Ledger
end Algod
