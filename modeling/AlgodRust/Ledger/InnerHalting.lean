import AlgodRust.Ledger.InnerPools
/-!
# InnerHalting — every group of calls comes to an end

Each instruction costs something, and inner transactions are limited: by an allowance that the whole group shares, or
else by one for each program and by how deep calls nest.  A state is weighed by the budget, the transactions that may
still be submitted or performed, each with what a call of it can add, and how far each program is; every step but the
start of a call of the group makes that weight smaller.
-/
namespace Algod
namespace Ledger

open Avm (AvmError Data Machine Spends)

variable {ρ : Type}

/-! ## Weights -/

section Weights

variable (consensus : ConsensusParams)

/-- More than a call can add but for the transactions its program submits. -/
def callWeight : Nat := 3 * consensus.maxAppProgramCost + 3

/-- The weight of a transaction of a program that so many levels of calls may follow. -/
def tokenWeight : Nat → Nat
  | 0 => callWeight consensus
  | levels + 1 => callWeight consensus + consensus.maxInnerTransactions * consensus.maxTxGroupSize * tokenWeight levels

/-- Whether the group shares one allowance of inner transactions. -/
def pools (shared : Bool) : Bool := consensus.enableInnerTransactionPooling && shared

def GroupRun.shared (g : GroupRun ρ) : Bool := g.pooledInners.isSome

def InnerContext.doneCount (ctx : InnerContext ρ) : Nat := ctx.submission.elim 0 (fun sub => sub.done.length)
def InnerContext.todoCount (ctx : InnerContext ρ) : Nat := ctx.submission.elim 0 (fun sub => sub.todo.length)
def InnerContext.sentCount (ctx : InnerContext ρ) : Nat := (ctx.innerTxns.map List.length).sum

/-- How many transactions a program may still see performed, with so many of them under way. -/
def InnerContext.unsent (ctx : InnerContext ρ) (underway : Nat) : Nat :=
  consensus.maxInnerTransactions * ctx.groupLen - ctx.sentCount - ctx.doneCount - underway

def Frame.phase (f : Frame ρ) : Nat := if f.ctx.submission.isSome then 3 else if f.machine.finished then 1 else 2

def Frame.weight (pools : Bool) (underway : Nat) (f : Frame ρ) : Nat :=
  f.phase + if pools then callWeight consensus * f.ctx.todoCount
    else tokenWeight consensus (maxAppCallDepth - f.ctx.depth) * f.ctx.unsent consensus underway

/-- The budget and the allowance that the program on top holds. -/
def Frame.means (pools : Bool) (f : Frame ρ) : Nat :=
  3 * f.held.toNat + (if f.clears then 3 * f.machine.data.budget.toNat else 0) +
    if pools then callWeight consensus * f.ctx.pooledInners.getD 0 else 0

/-- **The weight of a state.** -/
def GroupRun.weight (g : GroupRun ρ) : Nat :=
  match g.frames with
  | [] => 3 * g.pool.toNat + if pools consensus g.shared then callWeight consensus * g.pooledInners.getD 0 else 0
  | f :: frames => f.means consensus (pools consensus g.shared) + f.weight consensus (pools consensus g.shared) 0 +
      (frames.map (Frame.weight consensus (pools consensus g.shared) 1)).sum

/-! ## What keeps the weights meaningful -/

/-- The group a program has submitted, with so many of its transactions under way, is within every limit. -/
structure InnerContext.Fits (shared : Bool) (underway : Nat) (ctx : InnerContext ρ) : Prop where
  pooled : ctx.pooledInners.isSome = shared
  size : ctx.submission.isSome → ctx.doneCount + ctx.todoCount + underway ≤ consensus.maxTxGroupSize
  allowance : pools consensus shared = false → ctx.submission.isSome →
    ctx.sentCount + ctx.doneCount + ctx.todoCount + underway ≤ consensus.maxInnerTransactions * ctx.groupLen
  depth : ∀ sub, ctx.submission = some sub → ∀ stx ∈ sub.todo, stx.txn.txnType.is "appl" = true → ctx.depth < maxAppCallDepth

/-- The programs below the top have one transaction under way. -/
def GroupRun.Fits (g : GroupRun ρ) : Prop :=
  match g.frames with
  | [] => True
  | f :: frames => f.ctx.Fits consensus g.shared 0 ∧ ∀ caller ∈ frames, caller.ctx.Fits consensus g.shared 1

end Weights

section Fits

variable {env : Surroundings ρ} {consensus : ConsensusParams} {g g' : GroupRun ρ} {shared : Bool}
  {ctx : InnerContext ρ}

theorem GroupRun.fits_cons {f : Frame ρ} {frames : List (Frame ρ)} (h : g.frames = f :: frames) :
    g.Fits consensus ↔ f.ctx.Fits consensus g.shared 0 ∧ ∀ caller ∈ frames, caller.ctx.Fits consensus g.shared 1 := by
  unfold GroupRun.Fits
  rw [h]

/-- Where no group is submitted there is nothing to fit but the allowance. -/
theorem InnerContext.Fits.of_none {underway : Nat}
    (hpooled : ctx.pooledInners.isSome = shared) (hsub : ctx.submission = none) : ctx.Fits consensus shared underway where
  pooled := hpooled
  size := fun h => by rw [hsub] at h; cases h
  allowance := fun _ h => by rw [hsub] at h; cases h
  depth := fun sub h => by rw [hsub] at h; cases h

/-- The allowance of a program that shares none. -/
theorem remainingInners_of_not_pools {underway : Nat}
    (h : ctx.Fits consensus shared underway) (hpools : pools consensus shared = false) :
    ctx.remainingInners consensus = consensus.maxInnerTransactions * ctx.groupLen - ctx.sentCount := by
  unfold InnerContext.remainingInners InnerContext.sentCount
  by_cases henabled : consensus.enableInnerTransactionPooling = true
  · have hnone : ctx.pooledInners.isSome = false := by
      rw [h.pooled]
      unfold pools at hpools
      rw [henabled, Bool.true_and] at hpools
      exact hpools
    rw [Option.isSome_eq_false_iff, Option.isNone_iff_eq_none] at hnone
    simp only [henabled, if_true, hnone, Option.getD_none]
  · simp only [henabled, Bool.false_eq_true, if_false]

theorem remainingInners_of_pools {underway : Nat}
    (h : ctx.Fits consensus shared underway) (hpools : pools consensus shared = true) :
      ctx.remainingInners consensus = ctx.pooledInners.getD 0 := by
  unfold pools at hpools
  rw [Bool.and_eq_true] at hpools
  have hsome := h.pooled.trans hpools.2
  obtain ⟨left, hleft⟩ := Option.isSome_iff_exists.1 hsome
  unfold InnerContext.remainingInners
  simp only [hpools.1, if_true, hleft, Option.getD_some]

theorem Handled.fits {budget : Int} {ctx ctx' : InnerContext ρ} (h : Handled env consensus budget ctx ctx')
    (hsub : ctx.submission = none) (hfits : ctx.Fits consensus shared 0) : ctx'.Fits consensus shared 0 := by
  cases h with
  | other rest => exact .of_none hfits.pooled hsub
  | build building hbarren => exact .of_none hfits.pooled hsub
  | submit hsubmit =>
    obtain ⟨txns, charge, hne, -, hremaining, hsize, -, hdepth, rfl⟩ := itxnSubmit_eq_ok hsubmit
    have hpos : 0 < txns.length := List.length_pos_iff.2 hne
    constructor
    · rw [Option.isSome_map]
      exact hfits.pooled
    · intro _
      simp only [InnerContext.doneCount, InnerContext.todoCount, Option.elim_some, List.length_nil]
      omega
    · intro hpools _
      have heq := remainingInners_of_not_pools hfits hpools
      have hsame : InnerContext.remainingInners consensus { ctx with opcodeBudget := budget } =
        ctx.remainingInners consensus := rfl
      rw [hsame, heq] at hremaining
      simp only [InnerContext.doneCount, InnerContext.todoCount, InnerContext.sentCount, Option.elim_some,
        List.length_nil] at hremaining ⊢
      omega
    · intro sub hsome stx hstx
      obtain rfl := Option.some.inj hsome
      exact hdepth stx hstx

/-- A submitted group moves on within the limits: no transaction is added, and none is lost. -/
theorem InnerContext.Fits.moved {ctx ctx' : InnerContext ρ} {sub sub' : Submission} {underway underway' : Nat}
    (h : ctx.Fits consensus shared underway) (hsub : ctx.submission = some sub) (hsub' : ctx'.submission = some sub')
    (hpooled : ctx'.pooledInners.isSome = shared)
    (hsame : ctx'.depth = ctx.depth ∧ ctx'.groupLen = ctx.groupLen ∧ ctx'.innerTxns = ctx.innerTxns)
    (hcount : sub'.done.length + sub'.todo.length + underway' = sub.done.length + sub.todo.length + underway)
    (htodo : sub'.todo ⊆ sub.todo) : ctx'.Fits consensus shared underway' := by
  obtain ⟨hdepth, hlen, hsent⟩ := hsame
  have hsome : ctx.submission.isSome = true := by rw [hsub]; rfl
  have hcounts : ctx'.doneCount + ctx'.todoCount + underway' = ctx.doneCount + ctx.todoCount + underway := by
    simpa only [InnerContext.doneCount, InnerContext.todoCount, hsub, hsub', Option.elim_some] using hcount
  refine ⟨hpooled, fun _ => ?_, fun hpools _ => ?_, fun sub₁ h₁ stx hstx happl => ?_⟩
  · have hsize := h.size hsome
    omega
  · have hallowance := h.allowance hpools hsome
    have hcaller : ctx'.sentCount = ctx.sentCount := by rw [InnerContext.sentCount, hsent]; rfl
    rw [hlen]
    omega
  · obtain rfl := Option.some.inj (hsub'.symm.trans h₁)
    rw [hdepth]
    exact h.depth sub hsub stx (htodo hstx) happl

/-- **A step keeps what was submitted within the limits.** -/
theorem Stepped.fits (h : Stepped env consensus g g') (hg : g.Fits consensus) : g'.Fits consensus := by
  cases h with
  | startOuter rest appAddress machine hframes hcalls hbudget =>
    exact ⟨.of_none rfl rfl, fun caller hcaller => by cases hcaller⟩
  | skipOuter rest hframes hcalls =>
    unfold GroupRun.Fits
    simp only [hframes]
  | instruction hframes hsub hrunning hstep =>
    obtain ⟨hf, hframes'⟩ := (GroupRun.fits_cons hframes).1 hg
    exact ⟨(step_handled hstep).fits hsub hf, hframes'⟩
  | perform rest stx' hframes hsub htodo =>
    obtain ⟨hf, hframes'⟩ := (GroupRun.fits_cons hframes).1 hg
    refine ⟨hf.moved hsub rfl hf.pooled ⟨rfl, rfl, rfl⟩ ?_ ?_, hframes'⟩
    · simp [htodo]
      omega
    · simp [htodo]
  | startInner rest stx' appAddress machine hframes hsub htodo happl htxn hbudget =>
    obtain ⟨hf, hframes'⟩ := (GroupRun.fits_cons hframes).1 hg
    refine ⟨.of_none hf.pooled rfl, fun caller hcaller => ?_⟩
    rcases List.mem_cons.1 hcaller with rfl | hcaller
    · exact hf.moved hsub rfl hf.pooled ⟨rfl, rfl, rfl⟩ (by simp [htodo]; omega) (by simp [htodo])
    · exact hframes' caller hcaller
  | finishSubmit hframes hsub htodo =>
    obtain ⟨hf, hframes'⟩ := (GroupRun.fits_cons hframes).1 hg
    exact ⟨.of_none hf.pooled rfl, hframes'⟩
  | endOuter rest hframes hsub => exact trivial
  | endInner rest stx hframes hsub hcaller =>
    obtain ⟨hf, hframes'⟩ := (GroupRun.fits_cons hframes).1 hg
    refine ⟨(hframes' _ List.mem_cons_self).moved hcaller rfl hf.pooled ⟨rfl, rfl, rfl⟩ (by simp; omega) (fun _ h => h),
      fun other hother => hframes' other (List.mem_cons_of_mem _ hother)⟩

end Fits

/-! ## Steps make it lighter -/

section Lighter

variable {env : Surroundings ρ} {consensus : ConsensusParams} {g g' : GroupRun ρ} {shared : Bool} {f : Frame ρ}

theorem callWeight_le_tokenWeight (consensus : ConsensusParams) (levels : Nat) :
    callWeight consensus ≤ tokenWeight consensus levels := by
  cases levels with
  | zero => exact Nat.le_refl _
  | succ levels => exact Nat.le_add_right _ _

theorem tokenWeight_pos (consensus : ConsensusParams) (levels : Nat) : 0 < tokenWeight consensus levels :=
  Nat.lt_of_lt_of_le (Nat.succ_pos _) (callWeight_le_tokenWeight consensus levels)

theorem GroupRun.weight_nil (h : g'.frames = []) (hpooled : g'.pooledInners.isSome = g.pooledInners.isSome) :
    g'.weight consensus =
      3 * g'.pool.toNat + if pools consensus g.shared then callWeight consensus * g'.pooledInners.getD 0 else 0 := by
  have hshared : g'.shared = g.shared := hpooled
  unfold GroupRun.weight
  simp only [h, hshared]

theorem GroupRun.weight_cons {frames : List (Frame ρ)} (h : g.frames = f :: frames) :
    g.weight consensus = f.means consensus (pools consensus g.shared) + f.weight consensus (pools consensus g.shared) 0 +
      (frames.map (Frame.weight consensus (pools consensus g.shared) 1)).sum := by
  unfold GroupRun.weight
  rw [h]

theorem GroupRun.weight_shared {frames : List (Frame ρ)} (h : g'.frames = f :: frames)
    (hpooled : g'.pooledInners.isSome = g.pooledInners.isSome) :
    g'.weight consensus = f.means consensus (pools consensus g.shared) + f.weight consensus (pools consensus g.shared) 0 +
      (frames.map (Frame.weight consensus (pools consensus g.shared) 1)).sum := by
  have hshared : g'.shared = g.shared := hpooled
  rw [GroupRun.weight_cons h, hshared]

theorem Frame.phase_of_none (h : f.ctx.submission = none) : f.phase = if f.machine.finished then 1 else 2 := by
  unfold Frame.phase
  rw [h]
  rfl

theorem Frame.phase_of_some {sub : Submission} (h : f.ctx.submission = some sub) : f.phase = 3 := by
  unfold Frame.phase
  rw [h]
  rfl

theorem Frame.weight_pos (consensus : ConsensusParams) (f : Frame ρ) (pooling : Bool) (underway : Nat) :
    0 < f.weight consensus pooling underway := by
  have hphase : 0 < f.phase := by
    unfold Frame.phase
    split
    · decide
    · split <;> decide
  exact Nat.lt_of_lt_of_le hphase (Nat.le_add_right _ _)

/-- An instruction that submits nothing leaves the allowances alone. -/
theorem Handled.quiet_weight {f f' : Frame ρ} (hsub : f.ctx.submission = none) (hsub' : f'.ctx.submission = none)
    (hsame : f'.ctx.depth = f.ctx.depth ∧ f'.ctx.groupLen = f.ctx.groupLen ∧ f'.ctx.innerTxns = f.ctx.innerTxns)
    (hrunning : f.machine.finished = false) (pooling : Bool) :
    f'.weight consensus pooling 0 + 2 = f.weight consensus pooling 0 + if f'.machine.finished then 1 else 2 := by
  unfold Frame.weight InnerContext.todoCount InnerContext.unsent InnerContext.sentCount InnerContext.doneCount
  rw [Frame.phase_of_none hsub, Frame.phase_of_none hsub', hsub, hsub', hsame.1, hsame.2.1, hsame.2.2, hrunning]
  simp only [Bool.false_eq_true, if_false]
  omega

/-- **An instruction makes it lighter**: it costs something, or it ends the program. -/
theorem instruction_lighter {machine : Machine} {ctx : InnerContext ρ} (horderly : f.Orderly)
    (hfits : f.ctx.Fits consensus shared 0) (hsub : f.ctx.submission = none) (hrunning : f.machine.finished = false)
    (hspends : Spends f.machine.data machine.data)
    (hpaid : (machine.finished = true ∧ ctx = f.ctx) ∨ machine.data.budget < f.machine.data.budget)
    (hhandled : Handled env consensus machine.data.budget f.ctx ctx) :
    let f' : Frame ρ := ⟨machine, ctx, f.groupBudget⟩
    f'.means consensus (pools consensus shared) + f'.weight consensus (pools consensus shared) 0 <
      f.means consensus (pools consensus shared) + f.weight consensus (pools consensus shared) 0 := by
  intro f'
  have hclears : f'.clears = f.clears := congrArg SignedTransaction.clearsState hhandled.stx
  unfold Spends at hspends
  -- an instruction other than one that submits
  have hquiet : ctx.submission = none → ctx.depth = f.ctx.depth ∧ ctx.groupLen = f.ctx.groupLen ∧
      ctx.innerTxns = f.ctx.innerTxns → ctx.pooledInners = f.ctx.pooledInners →
      f'.means consensus (pools consensus shared) + f'.weight consensus (pools consensus shared) 0 <
        f.means consensus (pools consensus shared) + f.weight consensus (pools consensus shared) 0 := by
    intro hsub' hsame hpooled
    have hweight := @Handled.quiet_weight ρ consensus f f' hsub hsub' hsame hrunning (pools consensus shared)
    have hpooled' : f'.ctx.pooledInners = f.ctx.pooledInners := hpooled
    have hfinished : f'.machine.finished = machine.finished := rfl
    have hbudget : f'.machine.data.budget = machine.data.budget := rfl
    unfold Frame.means
    rw [hpooled', hclears, hbudget]
    rw [hfinished] at hweight
    by_cases hc : f.clears = true
    · have hheld : f'.held = f.held := by
        unfold Frame.held
        rw [hclears, hc]
        rfl
      rw [hheld, if_pos hc, if_pos hc]
      rcases hpaid with ⟨hfin, -⟩ | hlt
      · rw [hfin, if_pos rfl] at hweight
        omega
      · split at hweight <;> omega
    · have hheld : f'.held = machine.data.budget := hhandled.held hsub (Bool.eq_false_iff.2 hc)
      have hbefore : f.held = f.machine.data.budget := by
        rw [Frame.held_of_none hsub, Frame.leftover, if_neg hc]
      rw [hheld, hbefore, if_neg hc, if_neg hc]
      rcases hpaid with ⟨hfin, -⟩ | hlt
      · rw [hfin, if_pos rfl] at hweight
        omega
      · split at hweight <;> omega
  cases hhandled with
  | other rest => exact hquiet hsub ⟨rfl, rfl, rfl⟩ rfl
  | build building hbarren => exact hquiet hsub ⟨rfl, rfl, rfl⟩ rfl
  | submit hsubmit =>
    have hheld : f'.held = machine.data.budget ∨ f.clears = true := by
      by_cases hc : f.clears = true
      · exact .inr hc
      · exact .inl (Handled.held hsub (Bool.eq_false_iff.2 hc) (.submit hsubmit))
    obtain ⟨txns, charge, hne, hlength, hremaining, -, -, -, hctx⟩ := itxnSubmit_eq_ok hsubmit
    have hc : f.clears = false := by
      cases hc : f.clears with
      | false => rfl
      | true =>
        have hnil : txns.length = 0 := by
          rw [hlength]
          exact congrArg List.length (horderly hc).1
        exact (hne (List.length_eq_zero_iff.1 hnil)).elim
    have hlt : machine.data.budget < f.machine.data.budget := by
      rcases hpaid with ⟨-, heq⟩ | hlt
      · rw [heq] at hctx
        have hnone := congrArg InnerContext.submission hctx
        rw [hsub] at hnone
        cases hnone
      · exact hlt
    have hheld : f'.held = machine.data.budget := hheld.resolve_right (by rw [hc]; exact Bool.false_ne_true)
    have hbefore : f.held = f.machine.data.budget := by
      rw [Frame.held_of_none hsub, Frame.leftover, hc]
      rfl
    have hphase : f.phase = 2 := by
      rw [Frame.phase_of_none hsub, hrunning]
      rfl
    have hphase' : f'.phase = 3 := by
      have hsome : f'.ctx.submission = some ⟨charge.usage, charge.required, [], txns⟩ := congrArg InnerContext.submission hctx
      exact Frame.phase_of_some hsome
    -- the transactions are still to be performed: what leaves the allowance is in the group
    have htokens : (if pools consensus shared then callWeight consensus * f'.ctx.pooledInners.getD 0 else 0) +
        (if pools consensus shared then callWeight consensus * f'.ctx.todoCount
          else tokenWeight consensus (maxAppCallDepth - f'.ctx.depth) * f'.ctx.unsent consensus 0) =
        (if pools consensus shared then callWeight consensus * f.ctx.pooledInners.getD 0 else 0) +
        (if pools consensus shared then callWeight consensus * f.ctx.todoCount
          else tokenWeight consensus (maxAppCallDepth - f.ctx.depth) * f.ctx.unsent consensus 0) := by
      have hf' : f'.ctx = ctx := rfl
      rw [hf', hctx]
      by_cases hpools : pools consensus shared = true
      · have hleft := remainingInners_of_pools hfits hpools
        have hsame : InnerContext.remainingInners consensus { f.ctx with opcodeBudget := machine.data.budget } =
          f.ctx.remainingInners consensus := rfl
        rw [hsame, hleft] at hremaining
        rw [if_pos hpools, if_pos hpools, if_pos hpools, if_pos hpools]
        simp only [InnerContext.todoCount, hsub, Option.elim_some, Option.elim_none, Nat.mul_zero, Nat.add_zero]
        cases hpooled : f.ctx.pooledInners with
        | none =>
          rw [hpooled, Option.getD_none] at hremaining
          exact (hne (List.length_eq_zero_iff.1 (Nat.le_zero.1 hremaining))).elim
        | some left =>
          rw [hpooled, Option.getD_some] at hremaining
          simp only [Option.map_some, Option.getD_some]
          rw [← Nat.mul_add, Nat.sub_add_cancel hremaining]
      · rw [if_neg hpools, if_neg hpools, if_neg hpools, if_neg hpools]
        simp only [InnerContext.unsent, InnerContext.sentCount, InnerContext.doneCount, hsub, Option.elim_some,
          Option.elim_none, List.length_nil]
    unfold Frame.means Frame.weight
    rw [hheld, hbefore, hclears, hc, hphase, hphase']
    simp only [Bool.false_eq_true, if_false]
    omega

/-- How heavy a submitted transaction is. -/
def InnerContext.share (consensus : ConsensusParams) (pooling : Bool) (ctx : InnerContext ρ) : Nat :=
  if pooling then callWeight consensus else tokenWeight consensus (maxAppCallDepth - ctx.depth)

/-- Once a transaction was performed, or is under way, the program is lighter by one share. -/
theorem Frame.weight_consumed {f f' : Frame ρ} {sub sub' : Submission} {underway : Nat}
    (hfits : f.ctx.Fits consensus shared 0)
    (hsub : f.ctx.submission = some sub) (hsub' : f'.ctx.submission = some sub')
    (hsame : f'.ctx.depth = f.ctx.depth ∧ f'.ctx.groupLen = f.ctx.groupLen ∧ f'.ctx.innerTxns = f.ctx.innerTxns)
    (htodo : sub.todo.length = sub'.todo.length + 1) (hdone : sub'.done.length + underway = sub.done.length + 1) :
    f'.weight consensus (pools consensus shared) underway + f.ctx.share consensus (pools consensus shared) =
      f.weight consensus (pools consensus shared) 0 := by
  unfold Frame.weight InnerContext.share
  rw [Frame.phase_of_some hsub, Frame.phase_of_some hsub', hsame.1]
  by_cases hpools : pools consensus shared = true
  · simp only [hpools, if_true, InnerContext.todoCount, hsub, hsub', Option.elim_some, htodo, Nat.mul_succ, Nat.add_assoc]
  · have hallowance := hfits.allowance (Bool.eq_false_iff.2 hpools) (by rw [hsub]; rfl)
    have hunsent : f.ctx.unsent consensus 0 = f'.ctx.unsent consensus underway + 1 := by
      unfold InnerContext.unsent InnerContext.sentCount InnerContext.doneCount at *
      simp only [InnerContext.todoCount, hsub, Option.elim_some] at hallowance
      simp only [hsub, hsub', hsame.2.1, hsame.2.2, Option.elim_some]
      omega
    rw [if_neg hpools, if_neg hpools, if_neg hpools, hunsent, Nat.mul_succ, Nat.add_assoc]

/-- A call that is started is lighter than the transaction that makes it. -/
theorem Frame.weight_started {child : Frame ρ} {ctx : InnerContext ρ} (hsub : child.ctx.submission = none)
    (hlen : child.ctx.groupLen ≤ consensus.maxTxGroupSize)
    (hdepth : child.ctx.depth = ctx.depth + 1) (hlimit : ctx.depth < maxAppCallDepth) (pooling : Bool) :
    child.weight consensus pooling 0 + 3 * consensus.maxAppProgramCost < ctx.share consensus pooling := by
  have hphase : child.phase ≤ 2 := by
    rw [Frame.phase_of_none hsub]
    split <;> decide
  unfold Frame.weight InnerContext.share
  by_cases hpooling : pooling = true
  · simp only [hpooling, if_true, InnerContext.todoCount, hsub, Option.elim_none, Nat.mul_zero, callWeight]
    omega
  · have hunsent : child.ctx.unsent consensus 0 ≤ consensus.maxInnerTransactions * consensus.maxTxGroupSize := by
      unfold InnerContext.unsent
      exact Nat.le_trans (by omega) (Nat.mul_le_mul_left _ hlen)
    have hlevels : maxAppCallDepth - ctx.depth = (maxAppCallDepth - child.ctx.depth) + 1 := by omega
    have hmul := Nat.mul_le_mul_left (tokenWeight consensus (maxAppCallDepth - child.ctx.depth)) hunsent
    rw [if_neg hpooling, if_neg hpooling, hlevels, tokenWeight, callWeight,
      Nat.mul_comm (consensus.maxInnerTransactions * consensus.maxTxGroupSize)]
    omega

theorem Frame.means_of_submission {sub : Submission} (h : f.Orderly) (hsub : f.ctx.submission = some sub) (pooling : Bool) :
    f.means consensus pooling = 3 * f.ctx.opcodeBudget.toNat +
      if pooling then callWeight consensus * f.ctx.pooledInners.getD 0 else 0 := by
  unfold Frame.means
  rw [Frame.held_of_submission h hsub, h.not_clears hsub]
  rfl

/-- A call starts with the means of its caller and the cost of a program. -/
theorem Frame.means_started {machine : Machine} {ctx : InnerContext ρ} {caller : InnerContext ρ}
    (hsub : ctx.submission = none)
    (hpooled : ctx.pooledInners = caller.pooledInners)
    (hbudget : machine.data.budget = if ctx.stx.clearsState then (consensus.maxAppProgramCost : Int)
      else callBudget consensus caller ctx.stx) (pooling : Bool) :
    (⟨machine, ctx, callBudget consensus caller ctx.stx⟩ : Frame ρ).means consensus pooling ≤
      3 * caller.opcodeBudget.toNat + 3 * consensus.maxAppProgramCost +
        if pooling then callWeight consensus * caller.pooledInners.getD 0 else 0 := by
  unfold Frame.means
  rw [Frame.held_started hsub hbudget]
  simp only [Frame.clears, hpooled, hbudget, callBudget]
  by_cases hclears : ctx.stx.clearsState = true
  · simp only [hclears, if_true]
    omega
  · simp only [hclears, Bool.false_eq_true, if_false]
    omega

/-- A frame whose submission is finished is lighter and has as much left. -/
theorem Frame.finished_lighter {f f' : Frame ρ} {sub : Submission} (hf : f.Orderly) (hsub : f.ctx.submission = some sub)
    (htodo : sub.todo = []) (hf' : { f with
      machine := { f.machine with data := { f.machine.data with budget := f.ctx.opcodeBudget } }
      ctx := { f.ctx with innerTxns := f.ctx.innerTxns ++ [sub.done], submission := none } } = f') (pooled : Bool) :
    f'.weight consensus pooled 0 < f.weight consensus pooled 0 ∧
      f'.means consensus pooled = f.means consensus pooled := by
  constructor
  · have hphase : f'.phase < f.phase := by
      rw [Frame.phase_of_some hsub, Frame.phase_of_none (by rw [← hf'])]
      split <;> decide
    have htokens : f'.ctx.todoCount = f.ctx.todoCount ∧ f'.ctx.unsent consensus 0 = f.ctx.unsent consensus 0 ∧
        f'.ctx.depth = f.ctx.depth := by
      rw [← hf']
      simp only [InnerContext.todoCount, InnerContext.unsent, InnerContext.sentCount, InnerContext.doneCount, hsub, htodo,
        Option.elim_some, Option.elim_none, List.length_nil, List.map_append, List.sum_append, List.map_cons, List.map_nil,
        List.sum_singleton]
      refine ⟨trivial, ?_, trivial⟩
      omega
    unfold Frame.weight
    rw [htokens.1, htokens.2.1, htokens.2.2]
    exact Nat.add_lt_add_right hphase _
  · have hclears : f'.clears = false := by
      rw [← hf']
      exact hf.not_clears hsub
    have hheld : f'.held = f.ctx.opcodeBudget := by
      rw [Frame.held_of_none (by rw [← hf']), Frame.leftover, hclears, ← hf']
      rfl
    rw [Frame.means_of_submission hf hsub, Frame.means, hheld, hclears, ← hf']
    rfl

/-- A caller that goes on weighs what it weighed with the call under way, and takes over what the call has left. -/
theorem Frame.resumed_weight {f caller f' : Frame ρ} {sub : Submission} {rest : ρ} {stx : SignedTransaction}
    (hsub : f.ctx.submission = none) (hcaller : caller.Orderly) (hsub₀ : caller.ctx.submission = some sub)
    (hf' : { caller with ctx := { caller.ctx with
        rest := rest, opcodeBudget := f.leftover, feeCredit := f.ctx.feeCredit, feeResidue := f.ctx.feeResidue
        pooledInners := f.ctx.pooledInners, submission := some { sub with done := sub.done ++ [stx] } } } = f')
    (pooled : Bool) :
    f'.weight consensus pooled 0 = caller.weight consensus pooled 1 ∧
      f'.means consensus pooled ≤ f.means consensus pooled := by
  have hsub' : f'.ctx.submission = some { sub with done := sub.done ++ [stx] } := by rw [← hf']
  constructor
  · unfold Frame.weight
    rw [Frame.phase_of_some hsub', Frame.phase_of_some hsub₀, ← hf']
    simp only [InnerContext.todoCount, InnerContext.unsent, InnerContext.sentCount, InnerContext.doneCount, hsub₀,
      Option.elim_some, List.length_append, List.length_singleton, Nat.sub_sub, Nat.add_zero, Nat.add_assoc]
  · rw [Frame.means_of_submission (hcaller.keep hsub₀ (by rw [← hf'])) hsub', Frame.means, Frame.held_of_none hsub,
      ← hf']
    simp only
    omega

/-- **A step starts a call of the group or makes the state lighter.** -/
theorem Stepped.lighter (hfrugal : env.Frugal) (hfree : env.NoFreeOpcode) (h : Stepped env consensus g g') (hg : g.Orderly)
    (hfits : g.Fits consensus) :
    g'.calls.length < g.calls.length ∨ (g'.calls.length = g.calls.length ∧ g'.weight consensus < g.weight consensus) := by
  have htop : ∀ {f : Frame ρ} {frames : List (Frame ρ)}, g.frames = f :: frames → f.Orderly :=
    fun hframes => hg _ (by rw [hframes]; exact List.mem_cons_self)
  cases h with
  | startOuter rest appAddress machine hframes hcalls hbudget =>
    left
    rw [hcalls]
    exact Nat.lt_succ_self _
  | skipOuter rest hframes hcalls =>
    left
    rw [hcalls]
    exact Nat.lt_succ_self _
  | @instruction f frames machine ctx hframes hsub hrunning hstep =>
    refine .inr ⟨rfl, ?_⟩
    obtain ⟨hspends, hpaid⟩ := Avm.step_spends (innerHandlers_frugal hfrugal) hstep
    have hlighter := instruction_lighter (htop hframes) ((GroupRun.fits_cons hframes).1 hfits).1 hsub hrunning hspends
      (hpaid (innerHandlers_noFreeOpcode hfree)) (step_handled hstep)
    rw [GroupRun.weight_cons hframes]
    exact Nat.add_lt_add_right hlighter _
  | @perform f frames sub stx todo rest stx' hframes hsub htodo =>
    refine .inr ⟨rfl, ?_⟩
    have hf := htop hframes
    generalize hf' : ({ f with ctx := { f.ctx with
      rest := rest, submission := some { sub with done := sub.done ++ [stx'], todo := todo } } } : Frame ρ) = f'
    have hsub' : f'.ctx.submission = some { sub with done := sub.done ++ [stx'], todo := todo } := by rw [← hf']
    have hweight := @Frame.weight_consumed ρ consensus g.shared f f' _ _ 0 ((GroupRun.fits_cons hframes).1 hfits).1 hsub hsub'
      (by rw [← hf']; exact ⟨rfl, rfl, rfl⟩) (by rw [htodo]; rfl) (by simp)
    have hmeans : f'.means consensus (pools consensus g.shared) = f.means consensus (pools consensus g.shared) := by
      rw [Frame.means_of_submission hf hsub, Frame.means_of_submission (hf.keep hsub (by rw [← hf'])) hsub', ← hf']
    have hshare : 0 < f.ctx.share consensus (pools consensus g.shared) := by
      unfold InnerContext.share
      split
      · exact Nat.succ_pos _
      · exact tokenWeight_pos _ _
    rw [GroupRun.weight_cons hframes, @GroupRun.weight_shared ρ consensus g
      { g with frames := f' :: frames } f' frames rfl rfl]
    omega
  | @startInner f frames sub stx todo rest stx' appAddress machine hframes hsub htodo happl htxn hbudget =>
    refine .inr ⟨rfl, ?_⟩
    have hf := htop hframes
    have hffits := ((GroupRun.fits_cons hframes).1 hfits).1
    generalize hf' : ({ f with ctx := { f.ctx with
      rest := rest, opcodeBudget := callBudget consensus f.ctx stx',
      submission := some { sub with todo := todo } } } : Frame ρ) = f'
    have hsub' : f'.ctx.submission = some { sub with todo := todo } := by rw [← hf']
    have hweight := @Frame.weight_consumed ρ consensus g.shared f f' _ _ 1 hffits hsub hsub'
      (by rw [← hf']; exact ⟨rfl, rfl, rfl⟩) (by rw [htodo]; rfl) rfl
    have hlimit := hffits.depth sub hsub stx (by rw [htodo]; exact List.mem_cons_self) happl
    have hsize := hffits.size (by rw [hsub]; rfl)
    simp only [InnerContext.doneCount, InnerContext.todoCount, hsub, Option.elim_some, Nat.add_zero] at hsize
    have hchild := @Frame.weight_started ρ consensus
      ⟨machine, GroupRun.innerContext f.ctx sub rest stx' appAddress,
        callBudget consensus f.ctx stx'⟩ f.ctx rfl hsize rfl hlimit
      (pools consensus g.shared)
    have hmeans := @Frame.means_started ρ consensus machine (GroupRun.innerContext f.ctx sub rest stx' appAddress) f.ctx rfl rfl
      hbudget (pools consensus g.shared)
    have hbefore := @Frame.means_of_submission ρ consensus f sub hf hsub (pools consensus g.shared)
    rw [GroupRun.weight_cons hframes]
    refine lt_of_eq_of_lt (@GroupRun.weight_shared ρ consensus g _ _ _ rfl rfl) ?_
    rw [List.map_cons, List.sum_cons]
    simp only [GroupRun.innerContext] at hchild hmeans ⊢
    omega
  | @finishSubmit f frames sub hframes hsub htodo =>
    refine .inr ⟨rfl, ?_⟩
    have hf := htop hframes
    generalize hf' : ({ f with
      machine := { f.machine with data := { f.machine.data with budget := f.ctx.opcodeBudget } }
      ctx := { f.ctx with innerTxns := f.ctx.innerTxns ++ [sub.done], submission := none } } : Frame ρ) = f'
    obtain ⟨hweight, hmeans⟩ := @Frame.finished_lighter ρ consensus f f' sub hf hsub htodo hf'
      (pools consensus g.shared)
    rw [GroupRun.weight_cons hframes, @GroupRun.weight_shared ρ consensus g (g.finishSubmit f frames sub) f' frames
      (by rw [← hf']; rfl) rfl]
    omega
  | @endOuter f rest hframes hsub =>
    refine .inr ⟨rfl, ?_⟩
    have hpooled : f.ctx.pooledInners.isSome = g.shared := ((GroupRun.fits_cons hframes).1 hfits).1.pooled
    have hpos := Frame.weight_pos consensus f (pools consensus g.shared) 0
    rw [GroupRun.weight_cons hframes, @GroupRun.weight_nil ρ consensus g _ rfl hpooled, Frame.means, Frame.held_of_none hsub]
    simp only
    omega
  | @endInner f caller frames sub rest stx hframes hsub hcaller =>
    refine .inr ⟨rfl, ?_⟩
    have hcaller' : caller.Orderly := hg caller (by rw [hframes]; simp)
    generalize hf' : ({ caller with ctx := { caller.ctx with
        rest := rest, opcodeBudget := f.leftover, feeCredit := f.ctx.feeCredit, feeResidue := f.ctx.feeResidue
        pooledInners := f.ctx.pooledInners, submission := some { sub with done := sub.done ++ [stx] } } } : Frame ρ) = f'
    obtain ⟨hweight, hmeans⟩ := @Frame.resumed_weight ρ consensus f caller f' sub rest stx hsub hcaller' hcaller hf'
      (pools consensus g.shared)
    have hpos := Frame.weight_pos consensus f (pools consensus g.shared) 0
    rw [GroupRun.weight_cons hframes, @GroupRun.weight_shared ρ consensus g
      { g with frames := f' :: frames } f' frames rfl rfl, List.map_cons, List.sum_cons]
    omega

end Lighter

/-! ## Runs -/

section Runs

variable {env : Surroundings ρ} {consensus : ConsensusParams} {g g' : GroupRun ρ}

/-- **A group of calls comes to an end.** -/
theorem GroupRun.halts (hfrugal : env.Frugal) (hfree : env.NoFreeOpcode) (g : GroupRun ρ) (hg : g.Orderly)
    (hfits : g.Fits consensus) : ∃ steps r, g.run env consensus steps = some r := by
  match hnext : g.next env consensus with
  | none =>
    refine ⟨0, .ok g, ?_⟩
    simp [GroupRun.run, hnext]
  | some (.error e) =>
    refine ⟨1, .error e, ?_⟩
    simp [GroupRun.run, hnext]
  | some (.ok g') =>
    have hstepped := next_stepped hnext
    have hlighter := hstepped.lighter hfrugal hfree hg hfits
    obtain ⟨steps, r, hrun⟩ := GroupRun.halts hfrugal hfree g' (hstepped.orderly hg) (hstepped.fits hfits)
    refine ⟨steps + 1, r, ?_⟩
    simp [GroupRun.run, hnext, hrun]
termination_by (g.calls.length, g.weight consensus)
decreasing_by
  rcases hlighter with hcalls | ⟨hcalls, hweight⟩
  · exact Prod.Lex.left _ _ hcalls
  · rw [hcalls]
    exact Prod.Lex.right _ hweight

/-- What a program hands back when it returns: to the group, or to the program that called it. -/
def GroupRun.returned (g : GroupRun ρ) : Int :=
  match g.frames with
  | [] => g.pool
  | f :: _ => f.ctx.opcodeBudget

/-- The call that the next step starts, runs or ends. -/
def GroupRun.turn (g : GroupRun ρ) : Option SignedTransaction :=
  match g.frames with
  | [] => g.calls.head?
  | f :: _ =>
    match f.ctx.submission with
    | none => some f.ctx.stx
    | some sub => sub.todo.head?

/-- A step that starts, runs or ends a call that clears state. -/
def ClearStep (env : Surroundings ρ) (consensus : ConsensusParams) (g g' : GroupRun ρ) : Prop :=
  g.turn.any SignedTransaction.clearsState = true ∧ g.next env consensus = some (.ok g')

theorem Stepped.returned (h : Stepped env consensus g g') (hg : g.Orderly) (hless : g'.frames.length < g.frames.length) :
    g'.returned = g'.heldBudget := by
  cases h with
  | startOuter rest appAddress machine hframes hcalls hbudget =>
    rw [hframes] at hless
    exact (Nat.not_lt_zero _ hless).elim
  | skipOuter rest hframes hcalls => exact (Nat.lt_irrefl _ hless).elim
  | instruction hframes hsub hrunning hstep =>
    rw [hframes] at hless
    exact (Nat.lt_irrefl _ hless).elim
  | perform rest stx' hframes hsub htodo =>
    rw [hframes] at hless
    exact (Nat.lt_irrefl _ hless).elim
  | startInner rest stx' appAddress machine hframes hsub htodo happl htxn hbudget =>
    rw [hframes] at hless
    simp only [List.length_cons] at hless
    omega
  | finishSubmit hframes hsub htodo =>
    rw [hframes] at hless
    exact (Nat.lt_irrefl _ hless).elim
  | endOuter rest hframes hsub => rfl
  | @endInner f caller frames sub rest stx hframes hsub hcaller =>
    have horderly : caller.Orderly := hg caller (by rw [hframes]; simp)
    generalize hcaller' : ({ caller with ctx := { caller.ctx with
      rest := rest, opcodeBudget := f.leftover, feeCredit := f.ctx.feeCredit, feeResidue := f.ctx.feeResidue
      pooledInners := f.ctx.pooledInners, submission := some { sub with done := sub.done ++ [stx] } } } : Frame ρ) = f'
    have hsub' : f'.ctx.submission = some { sub with done := sub.done ++ [stx] } := by rw [← hcaller']
    exact (Frame.held_of_submission (horderly.keep hcaller (by rw [← hcaller'])) hsub').symm

/-- A step of a call that clears state is charged to nobody and adds nothing. -/
theorem ClearStep.uncharged (h : ClearStep env consensus g g') :
    g'.charged = g.charged ∧ g'.started = g.started := by
  obtain ⟨hturn, hnext⟩ := h
  cases next_stepped hnext with
  | startOuter rest appAddress machine hframes hcalls hbudget => exact ⟨rfl, rfl⟩
  | skipOuter rest hframes hcalls => exact ⟨rfl, rfl⟩
  | @instruction f frames machine ctx hframes hsub hrunning hstep =>
    unfold GroupRun.turn at hturn
    simp only [hframes, hsub, Option.any_some] at hturn
    exact ⟨if_pos hturn, rfl⟩
  | perform rest stx' hframes hsub htodo => exact ⟨rfl, rfl⟩
  | startInner rest stx' appAddress machine hframes hsub htodo happl htxn hbudget =>
    unfold GroupRun.turn at hturn
    simp only [hframes, hsub, htodo, List.head?_cons, Option.any_some] at hturn
    have hclears : stx'.clearsState = true := by
      unfold SignedTransaction.clearsState at hturn ⊢
      rw [htxn]
      exact hturn
    exact ⟨rfl, if_pos hclears⟩
  | finishSubmit hframes hsub htodo => exact ⟨rfl, rfl⟩
  | endOuter rest hframes hsub => exact ⟨rfl, rfl⟩
  | endInner rest stx hframes hsub hcaller => exact ⟨rfl, rfl⟩

/-- Steps of calls that clear state leave the budget as it is. -/
theorem clearSteps_budget (hfrugal : env.Frugal) (h : Relation.ReflTransGen (ClearStep env consensus) g g') (hg : g.Orderly) :
    g'.Orderly ∧ g'.heldBudget = g.heldBudget ∧ g'.charged = g.charged ∧ g'.started = g.started := by
  induction h with
  | refl => exact ⟨hg, rfl, rfl, rfl⟩
  | tail _ hstep ih =>
    obtain ⟨horderly, hheld, hcharged, hstarted⟩ := ih
    obtain ⟨hcharged', hstarted'⟩ := hstep.uncharged
    have hstepped := next_stepped hstep.2
    obtain ⟨hsum, -⟩ := hstepped.budget hfrugal horderly
    rw [hcharged', hstarted', sub_self, mul_zero, add_zero] at hsum
    exact ⟨hstepped.orderly horderly, by omega, hcharged'.trans hcharged, hstarted'.trans hstarted⟩

/-- A group of some calls before the first of them. -/
structure GroupRun.Begins (g : GroupRun ρ) (numAppCalls : Nat) : Prop where
  calls : g.calls.length = numAppCalls
  frames : g.frames = []
  pool : g.pool = groupBudgetNew numAppCalls
  charged : g.charged = 0
  started : g.started = 0

theorem GroupRun.Begins.orderly {numAppCalls : Nat} (h : g.Begins numAppCalls) : g.Orderly := by
  intro f hf
  rw [h.frames] at hf
  cases hf

theorem GroupRun.Begins.budget {start : GroupRun ρ} {numAppCalls : Nat} (hfrugal : env.Frugal)
    (hcost : consensus.maxAppProgramCost = appBudgetPerCall) (hbegins : start.Begins numAppCalls)
    (hbound : appBudgetPerCall * numAppCalls < i64Bound) (h : Reached env consensus start g) :
    g.heldBudget = appBudgetPerCall * ((numAppCalls : Int) + g.started) - g.charged ∧ 0 ≤ g.heldBudget := by
  have hpool : start.heldBudget = appBudgetPerCall * (numAppCalls : Int) := by
    unfold GroupRun.heldBudget
    rw [hbegins.frames]
    simp only [hbegins.pool, groupBudgetNew]
    omega
  obtain ⟨hsum, hnonneg⟩ := h.budget hfrugal hbegins.orderly
  rw [hpool, hbegins.charged, hbegins.started, hcost] at hsum
  refine ⟨?_, hnonneg (by rw [hpool]; omega)⟩
  rw [Nat.cast_zero, sub_zero] at hsum
  rw [mul_add]
  omega

/-- **The budget that a group of calls pools.**  At every moment approval programs were charged no more than the cost of
the calls of the group and of the inner calls that were started; a program that returns hands back all that is left
of it; calls that clear state leave it as it is.  Where every opcode costs something, every group of calls ends. -/
theorem pooledBudget_exact {start : GroupRun ρ} {numAppCalls : Nat} (hfrugal : env.Frugal)
    (hcost : consensus.maxAppProgramCost = appBudgetPerCall) (hbegins : start.Begins numAppCalls)
    (hbound : appBudgetPerCall * numAppCalls < i64Bound) :
    (∀ g, Reached env consensus start g →
      g.charged ≤ appBudgetPerCall * ((numAppCalls : Int) + g.started) ∧
      (∀ g', g.next env consensus = some (.ok g') → g'.frames.length < g.frames.length →
        g'.returned = appBudgetPerCall * ((numAppCalls : Int) + g'.started) - g'.charged) ∧
      (∀ g', Relation.ReflTransGen (ClearStep env consensus) g g' →
        g'.heldBudget = g.heldBudget ∧ g'.charged = g.charged ∧ g'.started = g.started)) ∧
    (env.NoFreeOpcode → ∃ steps r, start.run env consensus steps = some r) := by
  refine ⟨fun g hreached => ⟨?_, fun g' hnext hless => ?_, fun g' hclear => ?_⟩, fun hfree => ?_⟩
  · obtain ⟨hheld, hnonneg⟩ := hbegins.budget hfrugal hcost hbound hreached
    omega
  · have horderly := hreached.orderly hbegins.orderly
    rw [(next_stepped hnext).returned horderly hless]
    exact (hbegins.budget hfrugal hcost hbound (hreached.tail hnext)).1
  · exact (clearSteps_budget hfrugal hclear (hreached.orderly hbegins.orderly)).2
  · have hfits : start.Fits consensus := by
      unfold GroupRun.Fits
      rw [hbegins.frames]
      trivial
    exact GroupRun.halts hfrugal hfree start hbegins.orderly hfits

set_option maxRecDepth 20000 in
/-- A call that makes a call that pays and one that clears state. -/
theorem payingRun_budget : ∃ g', Reached payingSurroundings payingConsensus (payingRun 2 2500 600000000000) g' ∧
    g'.started = 1 ∧ g'.charged = 22 ∧ g'.charged ≤ appBudgetPerCall * ((1 : Int) + g'.started) ∧
    ∃ steps r, (payingRun 2 2500 600000000000).run payingSurroundings payingConsensus steps = some r := by
  obtain ⟨g', hreached, htest⟩ := @GroupRun.reached_of_endsWith _ payingSurroundings payingConsensus
    (payingRun 2 2500 600000000000) 60 (fun g' => decide (g'.started = 1 ∧ g'.charged = 22)) (by decide)
  obtain ⟨hstarted, hcharged⟩ := of_decide_eq_true htest
  have hpooled := @pooledBudget_exact _ payingSurroundings payingConsensus _ _ payingSurroundings_frugal rfl
    (⟨rfl, rfl, rfl, rfl, rfl⟩ : (payingRun 2 2500 600000000000).Begins 1) (by decide)
  exact ⟨g', hreached, hstarted, hcharged, (hpooled.1 g' hreached).1, hpooled.2 payingSurroundings_noFreeOpcode⟩

end Runs

end Ledger
end Algod
