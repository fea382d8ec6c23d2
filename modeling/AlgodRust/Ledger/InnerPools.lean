import AlgodRust.Avm.Effects
import AlgodRust.Ledger.InnerCalls
import Mathlib.Logic.Relation
/-!
# InnerPools — what the calls of a group share is neither lost nor made

A step of a group of calls is one of nine things (`Stepped`).  Each of them moves what is shared from one holder to the
next, and only two change it: an instruction that is charged takes from the budget and one that submits a group settles
its fee; the start of an inner call adds to the budget.  So after any run, whatever programs call, the budget is what
was put in less what was charged, and the credit and the residue account for all fees.
-/
namespace Algod
namespace Ledger

open Msgpack (Bytes)
open Avm (AvmError Data ExecMode Instruction Machine Spends)
open Validate (feeForUsage feeForUsage_exact feeResidueScale feesPaid oneMicros summarizeFees summarizeFees_paid)

variable {ρ : Type}

/-- Opcodes are charged for and never give anything back. -/
def Surroundings.Frugal (env : Surroundings ρ) : Prop :=
  ∀ mode version instr ctx d r d' r', env.handle mode version instr ctx (d, r) = .ok () (d', r') → Spends d d'

/-- An opcode without a fixed cost charges something. -/
def Surroundings.NoFreeOpcode (env : Surroundings ρ) : Prop :=
  ∀ mode version instr ctx d r d' r', Avm.staticCost version instr = none →
    env.handle mode version instr ctx (d, r) = .ok () (d', r') → d'.budget < d.budget

/-! ## Instructions -/

section Instructions

variable {env : Surroundings ρ} {consensus : ConsensusParams} {ctx ctx' : InnerContext ρ} {e : AvmError}

theorem pushInnerBuilder_eq_ok (h : pushInnerBuilder consensus ctx = .ok ctx') :
    ∃ building, ctx' = { ctx with innerBuilding := building } := by
  unfold pushInnerBuilder at h
  simp only at h
  split at h
  · cases h
  · cases h
    exact ⟨_, rfl⟩

/-- A program that clears state cannot begin a group, so it never has one. -/
def Barren (ctx : InnerContext ρ) : Prop := ctx.stx.clearsState = true ∧ ctx.innerBuilding = []

theorem itxnBegin_eq_ok (h : itxnBegin consensus ctx = .ok ctx') :
    ¬ Barren ctx ∧ ∃ building, ctx' = { ctx with innerBuilding := building } := by
  unfold itxnBegin at h
  split at h
  · cases h
  split at h
  · cases h
  · rename_i hclears
    exact ⟨fun hbarren => hclears hbarren.1, pushInnerBuilder_eq_ok h⟩

theorem itxnNext_eq_ok (h : itxnNext consensus ctx = .ok ctx') :
    ¬ Barren ctx ∧ ∃ building, ctx' = { ctx with innerBuilding := building } := by
  unfold itxnNext at h
  simp only at h
  split at h
  · cases h
  rename_i hempty
  split at h
  · cases h
  split at h
  · cases h
  · refine ⟨fun hbarren => hempty ?_, pushInnerBuilder_eq_ok h⟩
    rw [hbarren.2]
    rfl

theorem itxnField_eq_ok {version : Nat} {instr : Instruction} {d d' : Data}
    (h : itxnField env version instr d ctx = .ok (d', ctx')) :
    ¬ Barren ctx ∧ d'.budget = d.budget ∧ ∃ building, ctx' = { ctx with innerBuilding := building } := by
  unfold itxnField at h
  split at h
  · cases h
  · cases h
  rename_i value stx _ hlast
  split at h
  · cases h
  · obtain ⟨rfl, rfl⟩ := Prod.mk.inj (Except.ok.inj h)
    refine ⟨fun hbarren => ?_, rfl, _, rfl⟩
    rw [hbarren.2] at hlast
    cases hlast

/-- A submitted group: it is not empty, it is within the allowance, its fee is settled, and its calls are not too deep. -/
theorem itxnSubmit_eq_ok (h : itxnSubmit env consensus ctx = .ok ctx') :
    ∃ (txns : List SignedTransaction) (charge : FeeCharge), txns ≠ [] ∧ txns.length = ctx.innerBuilding.length ∧
      txns.length ≤ ctx.remainingInners consensus ∧ txns.length ≤ consensus.maxTxGroupSize ∧
      chargeFees consensus ctx.feeCredit ctx.feeResidue txns = .ok charge ∧
      (∀ stx ∈ txns, stx.txn.txnType.is "appl" = true → ctx.depth < maxAppCallDepth) ∧
      ctx' = { ctx with
        innerBuilding := []
        pooledInners := ctx.pooledInners.map (fun left => left - txns.length)
        feeCredit := charge.credit
        feeResidue := charge.residue
        submission := some ⟨charge.usage, charge.required, [], txns⟩ } := by
  unfold itxnSubmit at h
  simp only at h
  split at h
  · cases h
  rename_i hempty
  split at h
  · cases h
  rename_i hcount
  obtain ⟨charge, hcharge, h⟩ := Run.bind_eq_ok.1 h
  obtain ⟨u, hchecks, h⟩ := Run.bind_eq_ok.1 h
  cases h
  have hlength : (ctx.innerBuilding.map ctx.complete).length = ctx.innerBuilding.length := List.length_map _
  refine ⟨ctx.innerBuilding.map ctx.complete, charge, ?_, hlength, ?_, ?_, hcharge, ?_, by rw [hlength]⟩
  · intro hnil
    rw [List.map_eq_nil_iff] at hnil
    rw [hnil] at hempty
    exact hempty rfl
  · omega
  · omega
  · intro stx hstx happl
    have hcheck := Run.forM_eq_ok.1 hchecks stx hstx
    unfold checkInner at hcheck
    have hplain : innerTypes.any stx.txn.txnType.is = false := by
      have htype : stx.txn.txnType.asStr = "appl" := of_decide_eq_true happl
      unfold TxnType.is
      rw [htype]
      decide
    rw [hplain] at hcheck
    simp only [Bool.false_eq_true, if_false, happl, if_true] at hcheck
    split at hcheck
    · cases hcheck
    · rename_i hdepth
      exact Nat.lt_of_not_le hdepth

/-- What an instruction can do to the context of its program, whose budget it leaves as `budget`. -/
inductive Handled (env : Surroundings ρ) (consensus : ConsensusParams) (budget : Int) (ctx : InnerContext ρ) :
    InnerContext ρ → Prop
  | other (rest : ρ) : Handled env consensus budget ctx { ctx with rest := rest }
  | build (building : List SignedTransaction) (hbarren : ¬ Barren ctx) :
      Handled env consensus budget ctx { ctx with innerBuilding := building }
  | submit {ctx' : InnerContext ρ} (h : itxnSubmit env consensus { ctx with opcodeBudget := budget } = .ok ctx') :
      Handled env consensus budget ctx ctx'

theorem orFail_eq_ok {α : Type} {s s' : α} {x : Except AvmError α} : orFail s x = .ok () s' ↔ x = .ok s' := by
  cases x with
  | error e =>
    constructor
    · intro h; cases h
    · intro h; cases h
  | ok a =>
    constructor
    · intro h; cases h; rfl
    · intro h; cases h; rfl

/-- An opcode other than the four: it works on the data and the rest of the context. -/
theorem handle_rest {mode : ExecMode} {version : Nat} {instr : Instruction} {s s' : Data × InnerContext ρ}
    (h : Run.zoom (fun s : Data × InnerContext ρ => (s.1, s.2.rest)) (fun t s => (t.1, { s.2 with rest := t.2 }))
      (env.handle mode version instr s.2) s = .ok () s') :
    env.handle mode version instr s.2 (s.1, s.2.rest) = .ok () (s'.1, s'.2.rest) ∧
      s'.2 = { s.2 with rest := s'.2.rest } := by
  obtain ⟨t, ht, rfl⟩ := Run.zoom_eq_ok.1 h
  exact ⟨ht, rfl⟩

theorem handle_handled {mode : ExecMode} {version : Nat} {instr : Instruction} {s s' : Data × InnerContext ρ}
    (h : (innerHandlers env consensus).handle mode version instr s = .ok () s') :
    Handled env consensus s'.1.budget s.2 s'.2 := by
  obtain ⟨d, ctx⟩ := s
  unfold innerHandlers at h
  simp only at h
  split at h
  · obtain ⟨c, hc, rfl⟩ := Run.map_eq_ok.1 (orFail_eq_ok.1 h)
    obtain ⟨hbarren, building, rfl⟩ := itxnBegin_eq_ok hc
    exact .build building hbarren
  · obtain ⟨d', c⟩ := s'
    obtain ⟨hbarren, -, building, rfl⟩ := itxnField_eq_ok (orFail_eq_ok.1 h)
    exact .build building hbarren
  · obtain ⟨c, hc, rfl⟩ := Run.map_eq_ok.1 (orFail_eq_ok.1 h)
    exact .submit hc
  · obtain ⟨c, hc, rfl⟩ := Run.map_eq_ok.1 (orFail_eq_ok.1 h)
    obtain ⟨hbarren, building, rfl⟩ := itxnNext_eq_ok hc
    exact .build building hbarren
  · obtain ⟨-, hrest⟩ := @handle_rest ρ env mode version instr (d, ctx) s' h
    exact hrest ▸ .other _

theorem innerHandlers_frugal (hfrugal : env.Frugal) : Avm.Frugal (innerHandlers env consensus) := by
  intro mode version instr s s' h
  obtain ⟨d, ctx⟩ := s
  unfold innerHandlers at h
  simp only at h
  split at h
  · obtain ⟨c, -, rfl⟩ := Run.map_eq_ok.1 (orFail_eq_ok.1 h)
    exact .of_eq rfl
  · obtain ⟨d', c⟩ := s'
    exact .of_eq (itxnField_eq_ok (orFail_eq_ok.1 h)).2.1
  · obtain ⟨c, -, rfl⟩ := Run.map_eq_ok.1 (orFail_eq_ok.1 h)
    exact .of_eq rfl
  · obtain ⟨c, -, rfl⟩ := Run.map_eq_ok.1 (orFail_eq_ok.1 h)
    exact .of_eq rfl
  · exact hfrugal _ _ _ _ _ _ _ _ (@handle_rest ρ env mode version instr (d, ctx) s' h).1

/-- An opcode with a fixed cost in the table, other than the three hashes whose cost changed between versions. -/
def hasFixedCost (byte : UInt8) : Bool :=
  (Avm.lookup byte).any (fun spec => spec.cost != .dynamic && !spec.hasSubOps && spec.opcode == byte) &&
    byte != 0x01 && byte != 0x02 && byte != 0x03

theorem staticCost_of_fixed (version : Nat) {instr : Instruction} (h : hasFixedCost instr.opcode = true) :
    Avm.staticCost version instr ≠ none := by
  unfold hasFixedCost at h
  simp only [Bool.and_eq_true, Option.any_eq_true, bne_iff_ne, ne_eq, Bool.not_eq_true', beq_iff_eq] at h
  obtain ⟨⟨⟨⟨spec, hspec, ⟨hcost, hsub⟩, hopcode⟩, h1⟩, h2⟩, h3⟩ := h
  unfold Avm.staticCost Avm.resolveSpec
  rw [hspec]
  cases hkind : spec.cost with
  | dynamic => exact (hcost hkind).elim
  | static cost => simp [hsub, Avm.effectiveCost, hopcode, h1, h2, h3, hkind]

theorem innerHandlers_noFreeOpcode (hfree : env.NoFreeOpcode) : Avm.NoFreeOpcode (innerHandlers env consensus) := by
  intro mode version instr s s' hcost h
  have hitxn : ∀ {n : Nat}, instr.opcode.toNat = n → hasFixedCost (UInt8.ofNat n) = true → False := by
    intro n hn hfixed
    rw [← hn, UInt8.ofNat_toNat] at hfixed
    exact staticCost_of_fixed version hfixed hcost
  obtain ⟨d, ctx⟩ := s
  unfold innerHandlers at h
  simp only at h
  split at h
  · rename_i hop; exact (hitxn hop (by decide)).elim
  · rename_i hop; exact (hitxn hop (by decide)).elim
  · rename_i hop; exact (hitxn hop (by decide)).elim
  · rename_i hop; exact (hitxn hop (by decide)).elim
  · exact hfree _ _ _ _ _ _ _ _ hcost (@handle_rest ρ env mode version instr (d, ctx) s' h).1

/-- An instruction does one of the three things to the context. -/
theorem step_handled {m m' : Machine} (h : Avm.step (innerHandlers env consensus) (m, ctx) = .ok () (m', ctx')) :
    Handled env consensus m'.data.budget ctx ctx' := by
  obtain ⟨-, ⟨-, m₁, -, heq⟩ | ⟨instr, m₂, m₃, s₄, m₅, -, -, -, hdispatch, hadvance, heq⟩⟩ := Avm.step_eq_ok h
  · obtain ⟨rfl, rfl⟩ := Prod.mk.inj heq
    exact .other _
  · obtain ⟨rfl, rfl⟩ := Prod.mk.inj heq
    have hbudget : m'.data.budget = s₄.1.data.budget := (Avm.advanceFrom_steady _ _ _ _ hadvance).budget
    rw [hbudget]
    obtain ⟨f, m, -, -, rfl⟩ | ⟨-, t, ht, rfl⟩ := Avm.dispatch_eq_ok hdispatch
    · exact .other _
    · exact handle_handled ht

theorem handle_eq_error {mode : ExecMode} {version : Nat} {instr : Instruction} {s s' : Data × InnerContext ρ}
    (h : (innerHandlers env consensus).handle mode version instr s = .error e s') :
    ∃ rest, s'.2 = { s.2 with rest := rest } := by
  have hfail : ∀ {x : Except AvmError (Data × InnerContext ρ)}, orFail s x = .error e s' → s' = s := by
    intro x hx
    cases x with
    | ok t => cases hx
    | error e' => cases hx; rfl
  unfold innerHandlers at h
  simp only at h
  split at h
  · exact ⟨s.2.rest, by rw [hfail h]⟩
  · exact ⟨s.2.rest, by rw [hfail h]⟩
  · exact ⟨s.2.rest, by rw [hfail h]⟩
  · exact ⟨s.2.rest, by rw [hfail h]⟩
  · obtain ⟨t, rfl⟩ := Run.zoom_eq_error h
    exact ⟨t.2, rfl⟩

theorem onMachine_eq_error {α : Type} {x : Avm.Flow α} {s s' : Machine × InnerContext ρ}
    (h : Avm.onMachine x s = .error e s') : s'.2 = s.2 := by
  obtain ⟨t, rfl⟩ := Run.zoom_eq_error h
  rfl

theorem dispatch_eq_error {instr : Instruction} {s s' : Machine × InnerContext ρ}
    (h : Avm.dispatch (innerHandlers env consensus) instr s = .error e s') :
    ∃ rest, s'.2 = { s.2 with rest := rest } := by
  unfold Avm.dispatch at h
  rcases Run.state_bind_eq_error.1 h with hget | ⟨s₀, s₁, hget, h⟩
  · cases hget
  cases hget
  rcases Run.state_bind_eq_error.1 h with hmode | ⟨_, s₂, hmode, h⟩
  · exact ⟨s.2.rest, onMachine_eq_error hmode⟩
  obtain ⟨m₂, -, rfl⟩ := Avm.onMachine_eq_ok.1 hmode
  cases hflow : Avm.flowOp instr with
  | some f =>
    simp only [hflow] at h
    have hsame : s'.2 = (m₂, s.2).2 := onMachine_eq_error h
    exact ⟨s.2.rest, hsame⟩
  | none =>
    simp only [hflow] at h
    unfold Avm.onHandled Run.zoom at h
    simp only at h
    split at h
    · cases h
    · rename_i e' t ht
      obtain ⟨-, rfl⟩ := EStateM.Result.error.inj h
      exact handle_eq_error ht

/-- An instruction that fails leaves all of the context but its rest. -/
theorem step_eq_error {m : Machine} {s' : Machine × InnerContext ρ}
    (h : Avm.step (innerHandlers env consensus) (m, ctx) = .error e s') : ∃ rest, s'.2 = { ctx with rest := rest } := by
  unfold Avm.step at h
  rcases Run.state_bind_eq_error.1 h with hget | ⟨s₀, s₁, hget, h⟩
  · cases hget
  cases hget
  by_cases hfin : m.finished = true
  · simp only [hfin, if_true] at h
    cases h
    exact ⟨ctx.rest, rfl⟩
  simp only [hfin, Bool.false_eq_true, if_false] at h
  cases hinstr : m.program.instructions[m.pc]? with
  | none =>
    simp only [hinstr] at h
    exact ⟨ctx.rest, onMachine_eq_error h⟩
  | some instr =>
    simp only [hinstr] at h
    rcases Run.state_bind_eq_error.1 h with hhit | ⟨_, s₂, hhit, h⟩
    · exact ⟨ctx.rest, onMachine_eq_error hhit⟩
    obtain ⟨m₂, -, rfl⟩ := Avm.onMachine_eq_ok.1 hhit
    rcases Run.state_bind_eq_error.1 h with hargs | ⟨_, s₃, hargs, h⟩
    · exact ⟨ctx.rest, onMachine_eq_error hargs⟩
    obtain ⟨m₃, -, rfl⟩ := Avm.onMachine_eq_ok.1 hargs
    rcases Run.state_bind_eq_error.1 h with hcharge | ⟨_, s₄, hcharge, h⟩
    · exact ⟨ctx.rest, onMachine_eq_error hcharge⟩
    obtain ⟨m₄, -, rfl⟩ := Avm.onMachine_eq_ok.1 hcharge
    rcases Run.state_bind_eq_error.1 h with hdispatch | ⟨_, s₅, -, hadvance⟩
    · exact dispatch_eq_error hdispatch
    · cases hadvance

end Instructions

/-! ## Steps -/

section Steps

variable (env : Surroundings ρ) (consensus : ConsensusParams) {frames : List (Frame ρ)} {stx : SignedTransaction}

/-- What a program leaves of the budget it was started on. -/
def Frame.leftover (f : Frame ρ) : Int := if f.clears then f.groupBudget else f.machine.data.budget

/-- The budget that a call a program makes is started on. -/
def callBudget (caller : InnerContext ρ) (stx : SignedTransaction) : Int :=
  if stx.clearsState then caller.opcodeBudget else caller.opcodeBudget + consensus.maxAppProgramCost

/-- **What a step of a group of calls can be.** -/
inductive Stepped (g : GroupRun ρ) : GroupRun ρ → Prop
  | startOuter {stx : SignedTransaction} {calls : List SignedTransaction} (rest : ρ) (appAddress : Address)
      (machine : Machine) (hframes : g.frames = []) (hcalls : g.calls = stx :: calls)
      (hbudget : machine.data.budget = if stx.clearsState then (consensus.maxAppProgramCost : Int) else g.pool) :
      Stepped g { g with
        rest := rest, calls := calls, frames := [⟨machine, g.outerContext rest stx appAddress, g.pool⟩] }
  | skipOuter {stx : SignedTransaction} {calls : List SignedTransaction} (rest : ρ) (hframes : g.frames = [])
      (hcalls : g.calls = stx :: calls) : Stepped g { g with rest := rest, calls := calls }
  | instruction {f : Frame ρ} {frames : List (Frame ρ)} {machine : Machine} {ctx : InnerContext ρ}
      (hframes : g.frames = f :: frames) (hsub : f.ctx.submission = none) (hrunning : f.machine.finished = false)
      (hstep : Avm.step (innerHandlers env consensus) (f.machine, f.ctx) = .ok () (machine, ctx)) :
      Stepped g (g.afterStep f frames machine ctx)
  | perform {f : Frame ρ} {frames : List (Frame ρ)} {sub : Submission} {stx : SignedTransaction}
      {todo : List SignedTransaction} (rest : ρ) (stx' : SignedTransaction) (hframes : g.frames = f :: frames)
      (hsub : f.ctx.submission = some sub) (htodo : sub.todo = stx :: todo) :
      Stepped g { g with frames := { f with ctx := { f.ctx with
        rest := rest, submission := some { sub with done := sub.done ++ [stx'], todo := todo } } } :: frames }
  | startInner {f : Frame ρ} {frames : List (Frame ρ)} {sub : Submission} {stx : SignedTransaction}
      {todo : List SignedTransaction} (rest : ρ) (stx' : SignedTransaction) (appAddress : Address) (machine : Machine)
      (hframes : g.frames = f :: frames) (hsub : f.ctx.submission = some sub) (htodo : sub.todo = stx :: todo)
      (happl : stx.txn.txnType.is "appl" = true) (htxn : stx'.txn = stx.txn)
      (hbudget : machine.data.budget = if stx'.clearsState then (consensus.maxAppProgramCost : Int)
        else callBudget consensus f.ctx stx') :
      Stepped g { g with
        frames := ⟨machine, GroupRun.innerContext f.ctx sub rest stx' appAddress, callBudget consensus f.ctx stx'⟩ ::
          { f with ctx := { f.ctx with
            rest := rest, opcodeBudget := callBudget consensus f.ctx stx',
            submission := some { sub with todo := todo } } } ::
          frames
        started := if stx'.clearsState then g.started else g.started + 1 }
  | finishSubmit {f : Frame ρ} {frames : List (Frame ρ)} {sub : Submission} (hframes : g.frames = f :: frames)
      (hsub : f.ctx.submission = some sub) (htodo : sub.todo = []) : Stepped g (g.finishSubmit f frames sub)
  | endOuter {f : Frame ρ} (rest : ρ) (hframes : g.frames = [f]) (hsub : f.ctx.submission = none) :
      Stepped g { g with
        rest := rest, pool := f.leftover, feeCredit := f.ctx.feeCredit, feeResidue := f.ctx.feeResidue
        pooledInners := f.ctx.pooledInners, frames := [] }
  | endInner {f caller : Frame ρ} {frames : List (Frame ρ)} {sub : Submission} (rest : ρ) (stx : SignedTransaction)
      (hframes : g.frames = f :: caller :: frames) (hsub : f.ctx.submission = none)
      (hcaller : caller.ctx.submission = some sub) :
      Stepped g { g with frames := { caller with ctx := { caller.ctx with
        rest := rest, opcodeBudget := f.leftover, feeCredit := f.ctx.feeCredit, feeResidue := f.ctx.feeResidue
        pooledInners := f.ctx.pooledInners, submission := some { sub with done := sub.done ++ [stx] } } } :: frames }

variable {env consensus} {g g' : GroupRun ρ}

theorem startProgram_eq_ok {ctx : InnerContext ρ} {program : Bytes} {budget : Int} {started : Option (Frame ρ)}
    (h : startProgram env consensus ctx program budget = .ok started) :
    (started = none ∧ ctx.stx.clearsState = true) ∨
      ∃ machine, started = some ⟨machine, ctx, budget⟩ ∧
        machine.data.budget = if ctx.stx.clearsState then (consensus.maxAppProgramCost : Int) else budget := by
  unfold startProgram at h
  by_cases hclears : ctx.stx.clearsState = true
  · rw [if_pos hclears] at h
    rw [if_pos hclears]
    split at h
    · cases h; exact .inl ⟨rfl, hclears⟩
    split at h
    · cases h; exact .inl ⟨rfl, hclears⟩
    · cases h
    · cases h; exact .inr ⟨_, rfl, rfl⟩
  · rw [if_neg hclears] at h
    rw [if_neg hclears]
    split at h
    · cases h
    split at h
    · cases h
    · cases h
    · cases h; exact .inr ⟨_, rfl, rfl⟩

theorem remainingBudget_eq_ok {f : Frame ρ} {approved : Bool} {budget : Int}
    (h : remainingBudget f approved = .ok budget) : budget = f.leftover := by
  unfold remainingBudget at h
  unfold Frame.leftover
  by_cases hclears : f.clears = true
  · rw [if_pos hclears] at h ⊢
    exact (Except.ok.inj h).symm
  · rw [if_neg hclears] at h ⊢
    split at h
    · unfold Avm.consume at h
      split at h
      · cases h
      · rw [← Except.ok.inj h]
        omega
    · cases h

theorem endProgram_stepped {f f' : Frame ρ} {approved : Bool} (hframes : g.frames = f :: frames)
    (hsub : f.ctx.submission = none) (hleft : f'.leftover = f.leftover)
    (hctx : ∃ rest, f'.ctx = { f.ctx with rest := rest })
    (h : GroupRun.endProgram env g f' frames approved = .ok g') : Stepped env consensus g g' := by
  obtain ⟨rest₀, hctx⟩ := hctx
  unfold GroupRun.endProgram at h
  split at h
  · cases h
  rename_i budget hbudget
  have hbudget' := (remainingBudget_eq_ok hbudget).trans hleft
  subst hbudget'
  split at h
  · unfold GroupRun.endOuter at h
    obtain ⟨rest, -, h⟩ := Run.bind_eq_ok.1 h
    cases h
    rw [hctx]
    exact .endOuter rest hframes hsub
  · split at h
    · cases h
    rename_i sub hcaller
    split at h
    · cases h
    rename_i hend
    unfold GroupRun.endInner at hend
    obtain ⟨left, -, hend⟩ := Run.bind_eq_ok.1 hend
    cases hend
    cases h
    rw [hctx]
    exact .endInner left.2 left.1 hframes hsub hcaller

theorem startOuter_stepped {calls : List SignedTransaction} (hframes : g.frames = [])
    (hcalls : g.calls = stx :: calls) (h : GroupRun.startOuter env consensus g stx calls = .ok g') :
    Stepped env consensus g g' := by
  -- a call that does not run leaves all that is shared as it was
  have hskip : ∀ {rest : ρ} {a : Address}, GroupRun.endOuter env { g with rest := rest, calls := calls }
      (g.outerContext rest stx a) g.pool false = .ok g' → Stepped env consensus g g' := by
    intro rest a hend
    unfold GroupRun.endOuter at hend
    obtain ⟨rest', -, hend⟩ := Run.bind_eq_ok.1 hend
    cases hend
    have hskipped := @Stepped.skipOuter ρ env consensus g stx calls rest' hframes hcalls
    rw [← hframes]
    exact hskipped
  unfold GroupRun.startOuter at h
  obtain ⟨rest, -, h⟩ := Run.bind_eq_ok.1 h
  obtain ⟨loaded, -, h⟩ := Run.bind_eq_ok.1 h
  simp only at h
  split at h
  · exact hskip h
  split at h
  · cases h
  · exact hskip h
  · rename_i f hstart
    obtain ⟨hnone, -⟩ | ⟨machine, hsome, hbudget⟩ := startProgram_eq_ok hstart
    · cases hnone
    · obtain rfl := Option.some.inj hsome
      cases h
      exact .startOuter rest loaded.2 machine hframes hcalls hbudget

theorem startInner_stepped {f : Frame ρ} {sub : Submission}
    {todo : List SignedTransaction} (rest₀ : ρ) (stx₀ : SignedTransaction) (hframes : g.frames = f :: frames)
    (hsub : f.ctx.submission = some sub)
    (htodo : sub.todo = stx :: todo) (htxn : stx₀.txn = stx.txn) (happl : stx.txn.txnType.is "appl" = true)
    (h : GroupRun.startInner env consensus g { f with ctx := { f.ctx with rest := rest₀ } } frames sub stx₀ todo =
      .ok g') :
    Stepped env consensus g g' := by
  unfold GroupRun.startInner at h
  obtain ⟨entered, -, h⟩ := Run.bind_eq_ok.1 h
  simp only at h
  have hrecorded : (GroupRun.recorded stx₀ entered.1).txn = stx.txn := htxn
  generalize GroupRun.recorded stx₀ entered.1 = stx' at h hrecorded
  split at h
  · cases h
  obtain ⟨loaded, -, h⟩ := Run.bind_eq_ok.1 h
  split at h
  · cases h
  · rename_i hstart
    obtain ⟨-, hclears⟩ | ⟨machine, hsome, -⟩ := startProgram_eq_ok hstart
    · have hclears' : stx'.clearsState = true := hclears
      split at h
      · cases h
      rename_i hend
      unfold GroupRun.endInner at hend
      obtain ⟨left, -, hend⟩ := Run.bind_eq_ok.1 hend
      cases hend
      cases h
      rw [if_pos hclears']
      exact @Stepped.perform ρ env consensus g f frames sub stx todo left.2 left.1 hframes hsub htodo
    · cases hsome
  · rename_i child hstart
    obtain ⟨hnone, -⟩ | ⟨machine, hsome, hbudget⟩ := startProgram_eq_ok hstart
    · cases hnone
    · obtain rfl := Option.some.inj hsome
      cases h
      exact .startInner entered.2 stx' loaded.2 machine hframes hsub htodo happl hrecorded hbudget

theorem performNext_stepped {f : Frame ρ} {sub : Submission}
    {todo : List SignedTransaction} (hframes : g.frames = f :: frames) (hsub : f.ctx.submission = some sub)
    (htodo : sub.todo = stx :: todo) (h : GroupRun.performNext env consensus g f frames sub stx todo = .ok g') :
    Stepped env consensus g g' := by
  unfold GroupRun.performNext at h
  obtain ⟨prepared, -, h⟩ := Run.bind_eq_ok.1 h
  simp only at h
  split at h
  · rename_i happl
    exact startInner_stepped prepared.2 (GroupRun.recorded stx prepared.1) hframes hsub htodo rfl happl h
  · obtain ⟨performed, -, h⟩ := Run.bind_eq_ok.1 h
    cases h
    exact .perform performed.2 performed.1 hframes hsub htodo

/-- **A step is one of these.** -/
theorem next_stepped (h : g.next env consensus = some (.ok g')) : Stepped env consensus g g' := by
  unfold GroupRun.next at h
  split at h
  · rename_i hframes
    split at h
    · cases h
    · rename_i stx calls hcalls
      exact startOuter_stepped hframes hcalls (Option.some.inj h)
  · rename_i f frames hframes
    split at h
    · rename_i sub hsub
      split at h
      · rename_i htodo
        cases h
        exact .finishSubmit hframes hsub htodo
      · rename_i stx todo htodo
        exact performNext_stepped hframes hsub htodo (Option.some.inj h)
    · rename_i hsub
      split at h
      · exact endProgram_stepped hframes hsub rfl ⟨f.ctx.rest, rfl⟩ (Option.some.inj h)
      · rename_i hrunning
        replace h := Option.some.inj h
        unfold GroupRun.stepProgram at h
        split at h
        · rename_i s hstep
          cases h
          exact .instruction hframes hsub (Bool.eq_false_iff.2 hrunning) hstep
        · rename_i e s hstep
          split at h
          · rename_i hclears
            obtain ⟨rest, hctx⟩ := step_eq_error hstep
            have hclears' : s.2.stx.clearsState = true := by
              rw [hctx]
              exact hclears
            refine endProgram_stepped hframes hsub ?_ ⟨rest, hctx⟩ h
            have hf : f.ctx.stx.clearsState = true := hclears
            simp only [Frame.leftover, Frame.clears, hclears', hf, if_true]
          · cases h

end Steps

/-! ## The budget -/

/-- The budget as the program holds it that runs.  One that clears state only keeps it for its caller. -/
def Frame.held (f : Frame ρ) : Int :=
  if f.clears then f.groupBudget else if f.ctx.submission.isSome then f.ctx.opcodeBudget else f.machine.data.budget

def GroupRun.heldBudget (g : GroupRun ρ) : Int :=
  match g.frames with
  | [] => g.pool
  | f :: _ => f.held

/-- A program that clears state has not begun any group. -/
def Frame.Orderly (f : Frame ρ) : Prop := f.clears = true → f.ctx.innerBuilding = [] ∧ f.ctx.submission = none

def GroupRun.Orderly (g : GroupRun ρ) : Prop := ∀ f ∈ g.frames, f.Orderly

section Budget

variable {env : Surroundings ρ} {consensus : ConsensusParams} {g g' : GroupRun ρ} {f : Frame ρ} {ctx : InnerContext ρ}
  {machine : Machine}

theorem Frame.Orderly.not_clears {sub : Submission} (h : f.Orderly) (hsub : f.ctx.submission = some sub) :
    f.clears = false := by
  cases hclears : f.clears with
  | false => rfl
  | true =>
    rw [(h hclears).2] at hsub
    cases hsub

/-- A program that has submitted a group does not clear state. -/
theorem Frame.Orderly.keep {f f' : Frame ρ} {sub : Submission} (h : f.Orderly) (hsub : f.ctx.submission = some sub)
    (hstx : f'.ctx.stx = f.ctx.stx) : f'.Orderly := by
  intro hclears
  have hf : f.clears = true := by
    unfold Frame.clears at hclears ⊢
    rw [← hstx]
    exact hclears
  rw [h.not_clears hsub] at hf
  cases hf

theorem Handled.stx {budget : Int} {ctx ctx' : InnerContext ρ} (h : Handled env consensus budget ctx ctx') :
    ctx'.stx = ctx.stx := by
  cases h with
  | other rest => rfl
  | build building hbarren => rfl
  | submit h =>
    obtain ⟨txns, charge, -, -, -, -, -, -, rfl⟩ := itxnSubmit_eq_ok h
    rfl

theorem Handled.orderly {budget : Int} {f f' : Frame ρ} (h : Handled env consensus budget f.ctx f'.ctx)
    (hf : f.Orderly) :
    f'.Orderly := by
  intro hclears
  have hclears' : f.clears = true := by
    unfold Frame.clears at hclears ⊢
    rw [← h.stx]
    exact hclears
  obtain ⟨hbuilding, hsub⟩ := hf hclears'
  generalize f'.ctx = ctx' at h
  cases h with
  | other rest => exact ⟨hbuilding, hsub⟩
  | build building hbarren => exact (hbarren ⟨hclears', hbuilding⟩).elim
  | submit h =>
    obtain ⟨txns, charge, hne, hlength, -⟩ := itxnSubmit_eq_ok h
    have hnil : txns.length = 0 := by
      rw [hlength]
      exact congrArg List.length hbuilding
    exact (hne (List.length_eq_zero_iff.1 hnil)).elim

theorem Stepped.orderly (h : Stepped env consensus g g') (hg : g.Orderly) : g'.Orderly := by
  have hnew : ∀ {f : Frame ρ}, f.ctx.innerBuilding = [] → f.ctx.submission = none → f.Orderly :=
    fun hbuilding hsub _ => ⟨hbuilding, hsub⟩
  have hcons : ∀ {f f' : Frame ρ} {frames : List (Frame ρ)}, g.frames = f :: frames → f'.Orderly →
      ∀ f'' ∈ f' :: frames, f''.Orderly := by
    intro f f' frames hframes hf' f'' hmem
    rcases List.mem_cons.1 hmem with rfl | hmem
    · exact hf'
    · exact hg f'' (by rw [hframes]; exact List.mem_cons_of_mem _ hmem)
  have htop : ∀ {f : Frame ρ} {frames : List (Frame ρ)}, g.frames = f :: frames → f.Orderly :=
    fun hframes => hg _ (by rw [hframes]; exact List.mem_cons_self)
  cases h with
  | startOuter rest appAddress machine hframes hcalls hbudget =>
    intro f hf
    obtain rfl := List.mem_singleton.1 hf
    exact hnew rfl rfl
  | skipOuter rest hframes hcalls => exact hg
  | instruction hframes hsub hrunning hstep =>
    exact hcons hframes ((step_handled hstep).orderly (htop hframes))
  | perform rest stx' hframes hsub htodo => exact hcons hframes ((htop hframes).keep hsub rfl)
  | startInner rest stx' appAddress machine hframes hsub htodo happl htxn hbudget =>
    intro f' hf'
    rcases List.mem_cons.1 hf' with rfl | hf'
    · exact hnew rfl rfl
    · refine hcons hframes ?_ f' hf'
      exact (htop hframes).keep hsub rfl
  | finishSubmit hframes hsub htodo => exact hcons hframes ((htop hframes).keep hsub rfl)
  | endOuter rest hframes hsub => exact fun f hf => by cases hf
  | @endInner f caller frames sub rest stx hframes hsub hcaller =>
    have hcaller' : caller.Orderly := hg caller (by rw [hframes]; simp)
    intro f' hf'
    rcases List.mem_cons.1 hf' with rfl | hf'
    · exact hcaller'.keep hcaller rfl
    · exact hg f' (by rw [hframes]; simp [hf'])

theorem Frame.held_of_submission {sub : Submission} (h : f.Orderly) (hsub : f.ctx.submission = some sub) :
    f.held = f.ctx.opcodeBudget := by
  unfold Frame.held
  rw [h.not_clears hsub, hsub]
  rfl

theorem Frame.held_of_none (hsub : f.ctx.submission = none) : f.held = f.leftover := by
  unfold Frame.held Frame.leftover
  rw [hsub]
  rfl

theorem GroupRun.heldBudget_cons {frames : List (Frame ρ)} (h : g.frames = f :: frames) :
    g.heldBudget = f.held := by
  unfold GroupRun.heldBudget
  rw [h]

/-- After an instruction of an approval program the budget is with its machine or, where it submitted a group, with its
context, and the same in both. -/
theorem Handled.held (hsub : f.ctx.submission = none)
    (hclears : f.clears = false) (hhandled : Handled env consensus machine.data.budget f.ctx ctx) :
    (⟨machine, ctx, f.groupBudget⟩ : Frame ρ).held = machine.data.budget := by
  have hclears' : (⟨machine, ctx, f.groupBudget⟩ : Frame ρ).clears = false :=
    (congrArg SignedTransaction.clearsState hhandled.stx).trans hclears
  unfold Frame.held
  rw [hclears', if_neg Bool.false_ne_true]
  cases hhandled with
  | other rest => simp only [hsub]; rfl
  | build building hbarren => simp only [hsub]; rfl
  | submit h =>
    obtain ⟨txns, charge, -, -, -, -, -, -, rfl⟩ := itxnSubmit_eq_ok h
    rfl

/-- An instruction of an approval program takes what it costs from the budget, one that clears state nothing. -/
theorem afterStep_held (frames : List (Frame ρ))
    (hsub : f.ctx.submission = none) (hspends : Spends f.machine.data machine.data)
    (hhandled : Handled env consensus machine.data.budget f.ctx ctx) :
    let f' : Frame ρ := { f with machine := machine, ctx := ctx }
    f'.held + (g.afterStep f frames machine ctx).charged = f.held + g.charged ∧ (0 ≤ f.held → 0 ≤ f'.held) := by
  have hclears : (⟨machine, ctx, f.groupBudget⟩ : Frame ρ).clears = f.clears :=
    congrArg SignedTransaction.clearsState hhandled.stx
  unfold Spends at hspends
  simp only [GroupRun.afterStep]
  by_cases hc : f.clears = true
  · unfold Frame.held
    simp only [hclears, hc, if_true]
    exact ⟨trivial, id⟩
  · have hheld := hhandled.held hsub (Bool.eq_false_iff.2 hc)
    have hbefore : f.held = f.machine.data.budget := by
      rw [Frame.held_of_none hsub, Frame.leftover, if_neg hc]
    rw [hheld, hbefore, if_neg hc]
    omega

/-- A program that is started holds the budget it is started on. -/
theorem Frame.held_started {budget cost : Int} (hsub : ctx.submission = none)
    (hbudget : machine.data.budget = if ctx.stx.clearsState then cost else budget) :
    (⟨machine, ctx, budget⟩ : Frame ρ).held = budget := by
  rw [Frame.held_of_none hsub]
  unfold Frame.leftover Frame.clears
  by_cases hc : ctx.stx.clearsState = true
  · simp only [hc, if_true]
  · simp only [hc] at hbudget ⊢
    exact hbudget

/-- **A step keeps the books of the budget**: what is held and what was charged is what was there and what was added. -/
theorem Stepped.budget (hfrugal : env.Frugal) (h : Stepped env consensus g g') (hg : g.Orderly) :
    g'.heldBudget + g'.charged = g.heldBudget + g.charged +
      consensus.maxAppProgramCost * ((g'.started : Int) - g.started) ∧
      (0 ≤ g.heldBudget → 0 ≤ g'.heldBudget) := by
  have htop : ∀ {f : Frame ρ} {frames : List (Frame ρ)}, g.frames = f :: frames → f.Orderly :=
    fun hframes => hg _ (by rw [hframes]; exact List.mem_cons_self)
  cases h with
  | @startOuter stx calls rest appAddress machine hframes hcalls hbudget =>
    have hheld : (⟨machine, g.outerContext rest stx appAddress, g.pool⟩ : Frame ρ).held = g.pool :=
      Frame.held_started rfl hbudget
    have hpool : g.heldBudget = g.pool := by
      unfold GroupRun.heldBudget
      rw [hframes]
    rw [hpool]
    simp only [GroupRun.heldBudget, hheld]
    exact ⟨by omega, id⟩
  | skipOuter rest hframes hcalls =>
    unfold GroupRun.heldBudget
    simp only [hframes]
    exact ⟨by omega, id⟩
  | @instruction f frames machine ctx hframes hsub hrunning hstep =>
    have hspends := (Avm.step_spends (innerHandlers_frugal hfrugal) hstep).1
    obtain ⟨hsum, hnonneg⟩ := afterStep_held (g := g) frames hsub hspends (step_handled hstep)
    rw [GroupRun.heldBudget_cons hframes]
    have hstarted : (g.afterStep f frames machine ctx).started = g.started := rfl
    rw [hstarted, sub_self, mul_zero, add_zero]
    exact ⟨hsum, hnonneg⟩
  | @perform f frames sub stx todo rest stx' hframes hsub htodo =>
    have hf := htop hframes
    have hf' : (⟨f.machine, { f.ctx with
        rest := rest, submission := some { sub with done := sub.done ++ [stx'], todo := todo } }, f.groupBudget⟩ :
          Frame ρ).held =
          f.ctx.opcodeBudget := Frame.held_of_submission (hf.keep hsub rfl) rfl
    rw [GroupRun.heldBudget_cons hframes, Frame.held_of_submission hf hsub]
    simp only [GroupRun.heldBudget, hf']
    exact ⟨by omega, id⟩
  | @startInner f frames sub stx todo rest stx' appAddress machine hframes hsub htodo happl htxn hbudget =>
    have hchild : (⟨machine, GroupRun.innerContext f.ctx sub rest stx' appAddress, callBudget consensus f.ctx stx'⟩ :
        Frame ρ).held = callBudget consensus f.ctx stx' := Frame.held_started rfl hbudget
    rw [GroupRun.heldBudget_cons hframes, Frame.held_of_submission (htop hframes) hsub]
    simp only [GroupRun.heldBudget, hchild]
    unfold callBudget
    by_cases hc : stx'.clearsState = true
    · simp only [hc, if_true]
      exact ⟨by omega, id⟩
    · simp only [hc, Bool.false_eq_true, if_false]
      refine ⟨?_, fun h => by omega⟩
      push_cast
      ring
  | @finishSubmit f frames sub hframes hsub htodo =>
    have hf := htop hframes
    have hf' : (⟨{ f.machine with data := { f.machine.data with budget := f.ctx.opcodeBudget } },
        { f.ctx with innerTxns := f.ctx.innerTxns ++ [sub.done], submission := none }, f.groupBudget⟩ : Frame ρ).held =
          f.ctx.opcodeBudget := by
      rw [Frame.held_of_none rfl]
      unfold Frame.leftover
      exact if_neg (Bool.eq_false_iff.1 (hf.not_clears hsub))
    rw [GroupRun.heldBudget_cons hframes, Frame.held_of_submission hf hsub]
    simp only [GroupRun.finishSubmit, GroupRun.heldBudget, hf']
    exact ⟨by omega, id⟩
  | endOuter rest hframes hsub =>
    rw [GroupRun.heldBudget_cons hframes, Frame.held_of_none hsub]
    simp only [GroupRun.heldBudget]
    exact ⟨by omega, id⟩
  | @endInner f caller frames sub rest stx hframes hsub hcaller =>
    have hcaller' : caller.Orderly := hg caller (by rw [hframes]; simp)
    have hf' : (⟨caller.machine, { caller.ctx with
        rest := rest, opcodeBudget := f.leftover, feeCredit := f.ctx.feeCredit, feeResidue := f.ctx.feeResidue
        pooledInners := f.ctx.pooledInners, submission := some { sub with done := sub.done ++ [stx] } },
        caller.groupBudget⟩ : Frame ρ).held = f.leftover :=
      Frame.held_of_submission (hcaller'.keep hcaller rfl) rfl
    rw [GroupRun.heldBudget_cons hframes, Frame.held_of_none hsub]
    simp only [GroupRun.heldBudget, hf']
    exact ⟨by omega, id⟩

end Budget

/-! ## Fees -/

section Fees

variable {env : Surroundings ρ} {consensus : ConsensusParams} {g g' : GroupRun ρ}

/-- What some groups owe, what their transactions pay, and what they use. -/
def requiredFees (groups : List GroupCharge) : Nat := (groups.map GroupCharge.required).sum
def paidFees (groups : List GroupCharge) : Nat := (groups.map (fun c => feesPaid c.txns)).sum
def totalUsage (groups : List GroupCharge) : Nat := (groups.map GroupCharge.usage).sum

def GroupRun.heldCredit (g : GroupRun ρ) : Nat :=
  match g.frames with
  | [] => g.feeCredit
  | f :: _ => f.ctx.feeCredit

def GroupRun.heldResidue (g : GroupRun ρ) : Nat :=
  match g.frames with
  | [] => g.feeResidue
  | f :: _ => f.ctx.feeResidue

/-- The fees of some groups, from one credit and residue to another. -/
structure Settled (consensus : ConsensusParams) (groups : List GroupCharge)
    (credit residue credit' residue' : Nat) : Prop where
  balance : (∀ c ∈ groups, c.saturated = false) → credit' + requiredFees groups = credit + paidFees groups
  usage : feeResidueScale * requiredFees groups + residue =
    oneMicros * consensus.minTxnFee * totalUsage groups + residue'
  fraction : residue < feeResidueScale → residue' < feeResidueScale

theorem Settled.none (credit residue : Nat) : Settled consensus [] credit residue credit residue :=
  ⟨fun _ => rfl, rfl, id⟩

theorem Settled.append {groups groups' : List GroupCharge} {credit residue credit₁ residue₁ credit' residue' : Nat}
    (h : Settled consensus groups credit residue credit₁ residue₁)
    (h' : Settled consensus groups' credit₁ residue₁ credit' residue') :
    Settled consensus (groups ++ groups') credit residue credit' residue' := by
  have hrequired : requiredFees (groups ++ groups') = requiredFees groups + requiredFees groups' := by
    simp [requiredFees]
  have hpaid : paidFees (groups ++ groups') = paidFees groups + paidFees groups' := by simp [paidFees]
  have husage : totalUsage (groups ++ groups') = totalUsage groups + totalUsage groups' := by simp [totalUsage]
  refine ⟨fun hsat => ?_, ?_, fun hlt => h'.fraction (h.fraction hlt)⟩
  · have h₁ := h.balance (fun c hc => hsat c (List.mem_append_left _ hc))
    have h₂ := h'.balance (fun c hc => hsat c (List.mem_append_right _ hc))
    rw [hrequired, hpaid]
    omega
  · have h₁ := h.usage
    have h₂ := h'.usage
    rw [hrequired, husage, Nat.mul_add, Nat.mul_add]
    omega

/-- **One group**: its transactions and the credit pay what it owes, and what it owes is its usage but for the residue. -/
theorem chargeFees_settled {credit residue : Nat} {txns : List SignedTransaction} {charge : FeeCharge}
    (h : chargeFees consensus credit residue txns = .ok charge) :
    Settled consensus [⟨txns, charge.usage, charge.required, GroupRun.saturates credit charge.required txns⟩]
      credit residue charge.credit charge.residue := by
  unfold chargeFees at h
  simp only at h
  rcases hfee : feeForUsage consensus.minTxnFee (summarizeFees txns consensus).1 oneMicros residue with
    ⟨fee, left, overflow⟩
  rw [hfee] at h
  simp only at h
  cases overflow with
  | true => cases h
  | false =>
    obtain ⟨hexact, hfraction⟩ := feeForUsage_exact hfee
    have hresidue : feeResidueScale * fee + residue =
        oneMicros * consensus.minTxnFee * (summarizeFees txns consensus).1 + left := by
      rw [hexact]
      ring
    have hpaid : GroupRun.saturates credit fee txns = false →
        (summarizeFees txns consensus).2 = feesPaid txns ∧ credit + (feesPaid txns - fee) < u64Bound := by
      intro hsat
      unfold GroupRun.saturates at hsat
      rw [Bool.or_eq_false_iff, decide_eq_false_iff_not, decide_eq_false_iff_not] at hsat
      exact ⟨summarizeFees_paid (Nat.lt_of_not_le hsat.1), Nat.lt_of_not_le hsat.2⟩
    simp only [Bool.false_eq_true, if_false] at h
    split at h
    · rename_i hshort
      split at h
      · cases h
      rename_i hcovered
      obtain rfl := (Except.ok.inj h).symm
      refine ⟨fun hsat => ?_, by simpa [requiredFees, totalUsage] using hresidue, hfraction⟩
      obtain ⟨heq, -⟩ := hpaid (hsat _ List.mem_cons_self)
      simp only [requiredFees, paidFees, List.map_cons, List.map_nil, List.sum_singleton]
      omega
    · rename_i henough
      obtain rfl := (Except.ok.inj h).symm
      refine ⟨fun hsat => ?_, by simpa [requiredFees, totalUsage] using hresidue, hfraction⟩
      obtain ⟨heq, hlt⟩ := hpaid (hsat _ List.mem_cons_self)
      simp only [requiredFees, paidFees, List.map_cons, List.map_nil, List.sum_singleton]
      rw [heq] at henough ⊢
      rw [satAdd_of_lt hlt]
      omega

/-- **A step settles the group it submits**, and moves the credit and the residue otherwise. -/
theorem Stepped.settled (h : Stepped env consensus g g') : ∃ groups, g'.groups = g.groups ++ groups ∧
    Settled consensus groups g.heldCredit g.heldResidue g'.heldCredit g'.heldResidue := by
  have hcredit : ∀ {f : Frame ρ} {frames : List (Frame ρ)}, g.frames = f :: frames →
      g.heldCredit = f.ctx.feeCredit ∧ g.heldResidue = f.ctx.feeResidue := by
    intro f frames hframes
    unfold GroupRun.heldCredit GroupRun.heldResidue
    rw [hframes]
    exact ⟨rfl, rfl⟩
  have hempty : g.frames = [] → g.heldCredit = g.feeCredit ∧ g.heldResidue = g.feeResidue := by
    intro hframes
    unfold GroupRun.heldCredit GroupRun.heldResidue
    rw [hframes]
    exact ⟨rfl, rfl⟩
  have hmoved : g'.groups = g.groups → g'.heldCredit = g.heldCredit → g'.heldResidue = g.heldResidue →
      ∃ groups, g'.groups = g.groups ++ groups ∧
        Settled consensus groups g.heldCredit g.heldResidue g'.heldCredit g'.heldResidue := by
    intro hgroups hc hr
    refine ⟨[], by rw [hgroups, List.append_nil], ?_⟩
    rw [hc, hr]
    exact .none _ _
  cases h with
  | startOuter rest appAddress machine hframes hcalls hbudget =>
    exact hmoved rfl (hempty hframes).1.symm (hempty hframes).2.symm
  | skipOuter rest hframes hcalls => exact hmoved rfl rfl rfl
  | @instruction f frames machine ctx hframes hsub hrunning hstep =>
    obtain ⟨hc, hr⟩ := hcredit hframes
    have hhandled := step_handled hstep
    cases hhandled with
    | other rest =>
      refine hmoved ?_ hc.symm hr.symm
      simp only [GroupRun.afterStep, hsub]
    | build building hbarren =>
      refine hmoved ?_ hc.symm hr.symm
      simp only [GroupRun.afterStep, hsub]
    | submit hsubmit =>
      obtain ⟨txns, charge, -, -, -, -, hcharge, -, rfl⟩ := itxnSubmit_eq_ok hsubmit
      refine ⟨_, rfl, ?_⟩
      rw [hc, hr]
      exact chargeFees_settled hcharge
  | perform rest stx' hframes hsub htodo => exact hmoved rfl (hcredit hframes).1.symm (hcredit hframes).2.symm
  | startInner rest stx' appAddress machine hframes hsub htodo happl htxn hbudget =>
    exact hmoved rfl (hcredit hframes).1.symm (hcredit hframes).2.symm
  | finishSubmit hframes hsub htodo => exact hmoved rfl (hcredit hframes).1.symm (hcredit hframes).2.symm
  | endOuter rest hframes hsub => exact hmoved rfl (hcredit hframes).1.symm (hcredit hframes).2.symm
  | endInner rest stx hframes hsub hcaller => exact hmoved rfl (hcredit hframes).1.symm (hcredit hframes).2.symm

end Fees

/-! ## Runs -/

/-- A state that a group of calls reaches from another while nothing fails. -/
def Reached (env : Surroundings ρ) (consensus : ConsensusParams) (g g' : GroupRun ρ) : Prop :=
  Relation.ReflTransGen (fun a b => GroupRun.next env consensus a = some (.ok b)) g g'

section Runs

variable {env : Surroundings ρ} {consensus : ConsensusParams} {g g' : GroupRun ρ}

theorem Reached.settled (h : Reached env consensus g g') : ∃ groups, g'.groups = g.groups ++ groups ∧
    Settled consensus groups g.heldCredit g.heldResidue g'.heldCredit g'.heldResidue := by
  induction h with
  | refl => exact ⟨[], by rw [List.append_nil], .none _ _⟩
  | tail _ hnext ih =>
    obtain ⟨groups, hgroups, hsettled⟩ := ih
    obtain ⟨groups', hgroups', hsettled'⟩ := (next_stepped hnext).settled
    exact ⟨groups ++ groups', by rw [hgroups', hgroups, List.append_assoc], hsettled.append hsettled'⟩

theorem Reached.orderly (h : Reached env consensus g g') (hg : g.Orderly) : g'.Orderly := by
  induction h with
  | refl => exact hg
  | tail _ hnext ih => exact (next_stepped hnext).orderly ih

theorem Reached.budget (hfrugal : env.Frugal) (h : Reached env consensus g g') (hg : g.Orderly) :
    g'.heldBudget + g'.charged = g.heldBudget + g.charged +
      consensus.maxAppProgramCost * ((g'.started : Int) - g.started) ∧
      (0 ≤ g.heldBudget → 0 ≤ g'.heldBudget) := by
  induction h with
  | refl => exact ⟨by rw [sub_self, mul_zero, add_zero], id⟩
  | tail hreached hnext ih =>
    obtain ⟨hsum, hnonneg⟩ := ih
    obtain ⟨hsum', hnonneg'⟩ := (next_stepped hnext).budget hfrugal (Reached.orderly hreached hg)
    refine ⟨?_, fun h => hnonneg' (hnonneg h)⟩
    rw [hsum', hsum]
    ring

theorem Reached.of_run : ∀ {steps : Nat} {g g' : GroupRun ρ}, g.run env consensus steps = some (.ok g') →
    Reached env consensus g g'
  | 0, g, g', h => by
    unfold GroupRun.run at h
    split at h
    · cases h; exact .refl
    · cases h
  | steps + 1, g, g', h => by
    unfold GroupRun.run at h
    split at h
    · cases h; exact .refl
    · cases h
    · rename_i hnext
      exact .head hnext (Reached.of_run h)

/-- A run that ends well in a state that passes a test. -/
def GroupRun.endsWith (env : Surroundings ρ) (consensus : ConsensusParams) (g : GroupRun ρ) (steps : Nat)
    (p : GroupRun ρ → Bool) : Bool :=
  match g.run env consensus steps with
  | some (.ok g') => p g'
  | _ => false

theorem GroupRun.reached_of_endsWith {steps : Nat} {p : GroupRun ρ → Bool}
    (h : g.endsWith env consensus steps p = true) :
    ∃ g', Reached env consensus g g' ∧ p g' = true := by
  unfold GroupRun.endsWith at h
  split at h
  · rename_i g' hrun
    exact ⟨g', .of_run hrun, h⟩
  · cases h

/-- **The fees of calls and of all calls their programs make are exact.**  The credit and the fees of the inner
transactions pay what their groups owe; what the groups owe is their usage, rounded up once for all of them.  So the
transactions pay no less than their usage less the credit and the fraction that was paid ahead. -/
theorem innerFees_exact (h : Reached env consensus g g') (hframes : g.frames = []) (hgroups : g.groups = [])
    (hend : g'.frames = []) (hresidue : g.feeResidue < feeResidueScale) (hsat : ∀ c ∈ g'.groups, c.saturated = false) :
    g'.feeCredit + requiredFees g'.groups = g.feeCredit + paidFees g'.groups ∧
      feeResidueScale * requiredFees g'.groups + g.feeResidue =
        oneMicros * consensus.minTxnFee * totalUsage g'.groups + g'.feeResidue ∧
      g'.feeResidue < feeResidueScale ∧
      oneMicros * consensus.minTxnFee * totalUsage g'.groups ≤
        feeResidueScale * (paidFees g'.groups + g.feeCredit) + g.feeResidue ∧
      feeResidueScale * requiredFees g'.groups <
        oneMicros * consensus.minTxnFee * totalUsage g'.groups + feeResidueScale := by
  obtain ⟨groups, heq, hsettled⟩ := h.settled
  rw [hgroups, List.nil_append] at heq
  have hheld : g.heldCredit = g.feeCredit ∧ g.heldResidue = g.feeResidue := by
    unfold GroupRun.heldCredit GroupRun.heldResidue
    rw [hframes]
    exact ⟨rfl, rfl⟩
  have hheld' : g'.heldCredit = g'.feeCredit ∧ g'.heldResidue = g'.feeResidue := by
    unfold GroupRun.heldCredit GroupRun.heldResidue
    rw [hend]
    exact ⟨rfl, rfl⟩
  rw [hheld.1, hheld.2, hheld'.1, hheld'.2, ← heq] at hsettled
  have hcredit := hsettled.balance hsat
  have hfraction := hsettled.fraction hresidue
  have hexact := hsettled.usage
  refine ⟨hcredit, hexact, hfraction, ?_, by omega⟩
  have hle : requiredFees g'.groups ≤ paidFees g'.groups + g.feeCredit := by omega
  have hmul := Nat.mul_le_mul_left feeResidueScale hle
  omega

end Runs

/-! ## A payment with a long note -/

/-- The opcodes and the fields that the programs below use. -/
def payingSurroundings : Surroundings Unit where
  handle _ _ instr _ := fun (d, r) =>
    match instr.opcode.toNat, instr.immediates, d.stack.getLast? with
    | 0x81, .varuint n, _ => .ok () ({ d with stack := d.stack ++ [.uint n] }, r)
    | 0xaf, _, some (.uint n) => .ok () ({ d with stack := d.stack.dropLast ++ [.bytes (List.replicate n 0)] }, r)
    | _, _, _ => .error (.other "opcode") (d, r)
  setField _ _ instr value stx :=
    match instr.immediates, value with
    | .uint8 5, .bytes note => .ok { stx with txn := { stx.txn with note := note } }
    | .uint8 16, .uint 1 => .ok { stx with txn := { stx.txn with txnType := .pay } }
    | .uint8 16, .uint 6 => .ok { stx with txn := { stx.txn with txnType := .appl } }
    | .uint8 24, .uint id => .ok { stx with txn := { stx.txn with applicationId := id } }
    | .uint8 25, .uint n => .ok { stx with txn := { stx.txn with onCompletion := n } }
    | _, _ => .error (.other "field")
  checkCall _ _ := .ok ()
  prepare _ stx := .ok (stx, ())
  perform _ stx := .ok (stx, ())
  enter _ stx := .ok (stx, ())
  load _ stx := .ok (match stx.txn.applicationId with
    -- begin; type pay; a note of 1029 bytes; submit
    | 1 => [6, 0xb1, 0x81, 1, 0xb2, 16, 0x81, 0x85, 0x08, 0xaf, 0xb2, 5, 0xb3, 0x81, 1]
    -- begin; call application 1; next; call application 3 to clear state; submit
    | 2 => [6, 0xb1, 0x81, 6, 0xb2, 16, 0x81, 1, 0xb2, 24, 0xb6, 0x81, 6, 0xb2, 16, 0x81, 3, 0xb2, 24, 0x81, 3,
        0xb2, 25,
        0xb3, 0x81, 1]
    | _ => [6, 0x81, 1], ⟨stx.txn.applicationId⟩)
  screen _ _ _ := .ok ()
  leave caller ctx _ := .ok (ctx.stx, caller.rest)
  enterOuter r _ := .ok r
  leaveOuter r _ _ := .ok r

theorem payingSurroundings_handle {mode : ExecMode} {version : Nat} {instr : Instruction} {ctx : InnerContext Unit}
    {d d' : Data} {r r' : Unit} (h : payingSurroundings.handle mode version instr ctx (d, r) = .ok () (d', r')) :
    d'.budget = d.budget ∧ hasFixedCost instr.opcode = true := by
  have hfixed : ∀ {n : Nat}, instr.opcode.toNat = n → hasFixedCost (UInt8.ofNat n) = true →
      hasFixedCost instr.opcode = true := by
    intro n hn hfixed
    rw [← hn, UInt8.ofNat_toNat] at hfixed
    exact hfixed
  simp only [payingSurroundings] at h
  split at h
  · rename_i hop _
    cases h
    exact ⟨rfl, hfixed hop (by decide)⟩
  · rename_i hop _
    cases h
    exact ⟨rfl, hfixed hop (by decide)⟩
  · cases h

theorem payingSurroundings_frugal : payingSurroundings.Frugal :=
  fun _ _ _ _ _ _ _ _ h => .of_eq (payingSurroundings_handle h).1

theorem payingSurroundings_noFreeOpcode : payingSurroundings.NoFreeOpcode :=
  fun _ version _ _ _ _ _ _ hcost h => (staticCost_of_fixed version (payingSurroundings_handle h).2 hcost).elim

def payingConsensus : ConsensusParams :=
  { (default : ConsensusParams) with
    minTxnFee := 1000, perByteTxnSurcharge := 100, maxTxnNoteBytes := 1024, maxAppProgramCost := 700,
    maxTxGroupSize := 16, maxInnerTransactions := 16, enableInnerTransactionPooling := true }

/-- A group of one call of an application. -/
def payingRun (id credit residue : Nat) : GroupRun Unit where
  rest := ()
  pool := groupBudgetNew 1
  feeCredit := credit
  feeResidue := residue
  pooledInners := some 256
  groupLen := 1
  calls := [{ (default : SignedTransaction) with
    txn := { (default : Transaction) with txnType := .appl, applicationId := id } }]
  frames := []
  charged := 0
  started := 0
  groups := []

set_option maxRecDepth 20000 in
/-- The called application pays 500 for a note that makes it 1000.5; half a microAlgo was paid ahead. -/
theorem payingRun_fees : ∃ g', Reached payingSurroundings payingConsensus (payingRun 2 2500 600000000000) g' ∧
    g'.groups.length = 2 ∧ g'.started = 1 ∧ g'.feeCredit = 0 ∧ g'.feeResidue = 100000000000 ∧ paidFees g'.groups = 500 ∧
    g'.feeCredit + requiredFees g'.groups = 2500 + paidFees g'.groups := by
  obtain ⟨g', hreached, htest⟩ := @GroupRun.reached_of_endsWith _ payingSurroundings payingConsensus
    (payingRun 2 2500 600000000000) 60
    (fun g' => g'.frames.isEmpty && g'.groups.all (fun c => !c.saturated) &&
      decide (g'.groups.length = 2 ∧ g'.started = 1 ∧ g'.feeCredit = 0 ∧ g'.feeResidue = 100000000000 ∧
        paidFees g'.groups = 500))
    (by decide)
  simp only [Bool.and_eq_true, List.isEmpty_iff, List.all_eq_true, Bool.not_eq_true', decide_eq_true_eq] at htest
  obtain ⟨⟨hend, hsat⟩, hgroups, hstarted, hcredit, hresidue, hpaid⟩ := htest
  refine ⟨g', hreached, hgroups, hstarted, hcredit, hresidue, hpaid, ?_⟩
  exact (innerFees_exact hreached rfl rfl hend (by decide) hsat).1

set_option maxRecDepth 20000 in
/-- Without any credit, the payment that uses 1000.5 costs 1000: what the group had overpaid is counted. -/
theorem payingRun_short : ∃ g', Reached payingSurroundings payingConsensus (payingRun 1 0 500000000000) g' ∧
    g'.frames = [] ∧ (∀ c ∈ g'.groups, c.saturated = false) ∧
    feeResidueScale * (paidFees g'.groups + 0) < oneMicros * payingConsensus.minTxnFee * totalUsage g'.groups := by
  obtain ⟨g', hreached, htest⟩ := @GroupRun.reached_of_endsWith _ payingSurroundings payingConsensus
    (payingRun 1 0 500000000000) 60
    (fun g' => g'.frames.isEmpty && g'.groups.all (fun c => !c.saturated) &&
      decide (feeResidueScale * (paidFees g'.groups + 0) <
        oneMicros * payingConsensus.minTxnFee * totalUsage g'.groups))
    (by decide)
  simp only [Bool.and_eq_true, List.isEmpty_iff, List.all_eq_true, Bool.not_eq_true', decide_eq_true_eq] at htest
  exact ⟨g', hreached, htest.1.1, htest.1.2, htest.2⟩

end Ledger
end Algod
