import AlgodRust.Avm.ValueSizes
import AlgodRust.Avm.Layout
/-!
# StaticCost — old programs that were paid for in advance

Before branches could go back, the cost of all instructions together had to fit the budget.  A program of such a version
that goes forward pays for each instruction at most once, and no opcode of these versions charges anything else: it
never runs out of budget (`forwardRun_paid`).  Nothing makes it go forward: the machine takes a branch back in any
version, and a loop that passed the check runs out of budget (`oldLoop_exhausted`).
-/
namespace Algod
namespace Avm

open Msgpack (Bytes)
open Run (Fine Path)

/-! ## The sum of the costs -/

section Sums

variable {version : Nat} {max : Int}

/-- What an instruction adds to the cost of a program. -/
def instructionCost (version : Nat) (instr : Instruction) : Nat := (staticCost version instr).getD 0

/-- The cost of the first instructions of a program. -/
def Program.costBefore (p : Program) (n : Nat) : Nat := ((p.instructions.take n).map (instructionCost p.version)).sum

/-- The cost of all instructions of a program together. -/
def Program.linearCost (p : Program) : Nat := (p.instructions.map (instructionCost p.version)).sum

/-- The check goes through every sum on the way. -/
theorem staticCostFrom_prefixes : ∀ {instrs : List Instruction} {sum : Int}, staticCostFrom version max instrs sum = .ok () →
    ∀ n < instrs.length, sum + ((instrs.take (n + 1)).map (instructionCost version)).sum ≤ max
  | [], _, _, n, hn => absurd hn (Nat.not_lt_zero n)
  | instr :: instrs, sum, h, n, hn => by
    unfold staticCostFrom at h
    simp only at h
    split at h
    · cases h
    · next hfits =>
      rw [List.take_succ_cons, List.map_cons, List.sum_cons]
      unfold instructionCost at *
      cases n with
      | zero =>
        simp only [List.take_zero, List.map_nil, List.sum_nil]
        omega
      | succ n =>
        have hrest := staticCostFrom_prefixes h n (by simpa using hn)
        unfold instructionCost at hrest
        omega

theorem costBefore_mono (p : Program) {n k : Nat} (h : n ≤ k) : p.costBefore n ≤ p.costBefore k := by
  unfold Program.costBefore
  obtain ⟨d, rfl⟩ := Nat.exists_eq_add_of_le h
  rw [List.take_add, List.map_append, List.sum_append]
  exact Nat.le_add_right _ _

theorem costBefore_le_linearCost (p : Program) (n : Nat) : p.costBefore n ≤ p.linearCost := by
  have hall : p.linearCost = p.costBefore p.instructions.length := by
    unfold Program.costBefore
    rw [List.take_length]
    rfl
  rw [hall]
  by_cases hn : n ≤ p.instructions.length
  · exact costBefore_mono p hn
  · unfold Program.costBefore
    rw [List.take_of_length_le (Nat.le_of_not_le hn), List.take_length]

theorem costBefore_succ {p : Program} {n : Nat} {instr : Instruction} (h : p.instructions[n]? = some instr) :
    p.costBefore (n + 1) = p.costBefore n + instructionCost p.version instr := by
  unfold Program.costBefore
  rw [List.take_add_one, h, List.map_append, List.sum_append]
  simp

end Sums

/-! ## The opcodes of old programs -/

section Old

variable {σ : Type} {limit : Nat} {spent : Option (Int × Nat)} (prims : Primitives) (ctx : Context σ)
  {instr : Instruction}

/-- The bytes of the opcodes that charge for what they do, and of those of applications. -/
def laterBytes : List Nat :=
  (costlyOps noPrimitives 0 ⟨0, none, 0, .none⟩).map Prod.fst ++
    (appOps (nullContext fun _ => "") 0 ⟨0, none, 0, .none⟩).map Prod.fst

theorem costlyOps_bytes (version : Nat) (instr : Instruction) :
    ∀ e ∈ costlyOps prims version instr, e.1 ∈ laterBytes := by
  intro e he
  have hkeys : (costlyOps prims version instr).map Prod.fst =
    (costlyOps noPrimitives 0 ⟨0, none, 0, .none⟩).map Prod.fst := by
      simp only [costlyOps, List.map_cons, List.map_nil]
  exact List.mem_append_left _ (hkeys ▸ List.mem_map_of_mem he)

theorem appOps_bytes (version : Nat) (instr : Instruction) : ∀ e ∈ appOps ctx version instr, e.1 ∈ laterBytes := by
  intro e he
  have hkeys : (appOps ctx version instr).map Prod.fst =
    (appOps (nullContext fun _ => "") 0 ⟨0, none, 0, .none⟩).map Prod.fst := by
      simp only [appOps, List.map_cons, List.map_nil]
  exact List.mem_append_right _ (hkeys ▸ List.mem_map_of_mem he)

/-- None of them is one that an old logic signature can run. -/
theorem old_not_later : ∀ spec ∈ opcodeTable, spec.version < backBranchEnabledVersion → spec.mode ≠ .application →
    spec.opcode.toNat ∉ laterBytes := by
  have hall : (opcodeTable.all fun spec => decide (spec.version < backBranchEnabledVersion → spec.mode ≠ .application →
    spec.opcode.toNat ∉ laterBytes)) = true := by decide
  intro spec hspec
  exact of_decide_eq_true (List.all_eq_true.1 hall spec hspec)

theorem subOps_new : ∀ s ∈ appBoxSubOps, ¬ s.2.version < backBranchEnabledVersion := by decide

/-- The opcodes of an old program have been there since its version. -/
theorem parse_old {raw : Bytes} {program : Program} (hparse : parse raw = .ok program)
    (hversion : program.version < backBranchEnabledVersion) (hmem : instr ∈ program.instructions) :
    ∃ spec, lookup instr.opcode = some spec ∧ spec.version < backBranchEnabledVersion := by
  obtain ⟨vlen, -, hreads⟩ := parse_eq_ok hparse
  obtain ⟨byte, next, hbyte, hinstr⟩ := hreads.mem hmem
  obtain ⟨spec, headerLen, _, hopens, -, -, hopcode, -, -, -⟩ := parseInstruction_eq_ok hbyte hinstr
  have hold : spec.version < backBranchEnabledVersion := by
    have hallowed := hopens.allowed
    unfold backBranchEnabledVersion at hversion ⊢
    omega
  have hresolved := hopens.resolved
  unfold resolve at hresolved
  rw [hopcode]
  cases hlookup : lookup byte with
  | none => rw [hlookup] at hresolved; cases hresolved
  | some top =>
    rw [hlookup] at hresolved
    simp only at hresolved
    split at hresolved
    · split at hresolved
      · cases hresolved
      · split at hresolved
        · next subSpec hsub =>
          cases hresolved
          obtain ⟨entry, hentry, hspec⟩ := Option.map_eq_some_iff.1 hsub
          rw [← hspec] at hold
          exact absurd hold (subOps_new _ (List.mem_of_find?_eq_some hentry))
        · cases hresolved
    · cases hresolved
      exact ⟨_, rfl, hold⟩

theorem notLater_of_allowed {spec : OpSpec} (hlookup : lookup instr.opcode = some spec)
    (hversion : spec.version < backBranchEnabledVersion) (hmode : checkRuntimeMode .logicSig instr.opcode = .ok ()) :
    instr.opcode.toNat ∉ laterBytes := by
  have hopcode : spec.opcode = instr.opcode := by
    have hfound := List.find?_some hlookup
    exact beq_iff_eq.1 hfound
  have happ : spec.mode ≠ .application := by
    intro happ
    unfold checkRuntimeMode at hmode
    simp only [hlookup, happ] at hmode
    cases hmode
  rw [← hopcode]
  exact old_not_later spec (List.mem_of_find?_eq_some hlookup) hversion happ

/-- **The opcodes of old logic signatures charge nothing themselves.** -/
theorem handlerOf_keeps_old (hlimit : maxStringSize ≤ limit) (mode : ExecMode) (version : Nat)
    (hlater : instr.opcode.toNat ∉ laterBytes) : (handlerOf prims ctx mode version instr).Keeps limit spent := by
  unfold handlerOf
  split
  · next x hx =>
    rcases List.mem_append.1 (mem_of_lookup hx) with hmem | hmem
    · exact plainOps_tame prims instr hlimit _ hmem
    · exact absurd (costlyOps_bytes prims version instr _ hmem) hlater
  · split
    · next x hx =>
      rcases List.mem_append.1 (mem_of_lookup hx) with hmem | hmem
      · exact readOps_fetches prims instr ctx mode version _ hmem
      · exact absurd (appOps_bytes ctx version instr _ hmem) hlater
    · exact Run.Upholds.throw (Harmless.of_eq rfl)

end Old

/-! ## Steps -/

section Step

variable {σ : Type} (prims : Primitives) (ctx : Context σ) {s s' : Machine × σ} {limit : Nat} {e : AvmError}
  {instr : Instruction}

/-- The instruction of a machine does not transfer control back. -/
def GoesForward (m : Machine) : Prop :=
  ∀ instr, m.program.instructions[m.pc]? = some instr → ∀ target, transferTarget m instr = some target → m.pc ≤ target

theorem step_forward {handlers : Handlers σ} (hforward : GoesForward s.1) (h : step handlers s = .ok () s') :
    s'.1.finished = true ∨ s.1.pc < s'.1.pc := by
  cases hinstr : s.1.program.instructions[s.1.pc]? with
  | none =>
    obtain ⟨-, ⟨-, m, hfinish, rfl⟩ | ⟨instr, _, _, hsome, _⟩⟩ := step_runs h
    · rw [finishImplicit_data hfinish]
      exact .inl rfl
    · rw [hinstr] at hsome
      cases hsome
  | some instr =>
    obtain ⟨hrunning, m, hmoves, hs'⟩ := step_moves hinstr h
    rw [hs']
    cases hfinished : m.finished with
    | true => exact .inl (by simp [hfinished])
    | false =>
      refine .inr ?_
      cases htarget : transferTarget s.1 instr with
      | some target =>
        rw [htarget] at hmoves
        have hle := hforward instr hinstr target htarget
        have hpc : m.pc = target := hmoves.1
        by_cases hself : m.pc = s.1.pc
        · simp [hself]
        · simp only [Bool.not_false, Bool.true_and, beq_iff_eq, hself, if_false]
          omega
      | none =>
        rw [htarget] at hmoves
        rcases hmoves with hpc | hpc
        · simp [hpc]
        · simp [hpc]

/-- A program of old opcodes only. -/
def Program.Old (p : Program) : Prop :=
  ∀ instr ∈ p.instructions, ∃ spec, lookup instr.opcode = some spec ∧ spec.version < backBranchEnabledVersion

theorem charged_costs (version : Nat) (instr : Instruction) (d : Data) :
    (d.charged version instr).budget = d.budget - instructionCost version instr ∧
      (d.charged version instr).cost ≤ d.cost + instructionCost version instr := by
  unfold Data.charged instructionCost
  cases staticCost version instr with
  | none => exact ⟨by simp, by simp⟩
  | some cost => exact ⟨rfl, Nat.min_le_left _ _⟩

theorem finishImplicit_harmless (h : onMachine finishImplicit s = .error e s') : e.isBudget = false := by
  unfold onMachine Run.zoom at h
  cases hr : finishImplicit s.1 with
  | ok _ m => rw [hr] at h; cases h
  | error e₁ m =>
    rw [hr] at h
    cases h
    unfold finishImplicit at hr
    rcases Run.state_bind_eq_error.1 hr with hmodify | ⟨_, m₁, hmodify, hr⟩
    · cases hmodify
    cases hmodify
    rcases Run.state_bind_eq_error.1 hr with hget | ⟨m₂, _, hget, hr⟩
    · cases hget
    cases hget
    rcases hstack : s.1.data.stack with _ | ⟨v, _ | ⟨w, vs⟩⟩
    · simp only [hstack] at hr; cases hr; rfl
    · cases v with
      | uint n => simp only [hstack] at hr; cases hr
      | bytes bs => simp only [hstack] at hr; cases hr; rfl
    · simp only [hstack] at hr; cases hr; rfl

theorem firstWrong_harmless {name : String} : ∀ {i : Nat} {wants : List ArgType} {vs : List AvmValue} {e : AvmError},
    firstWrong name i wants vs = some e → e.isBudget = false
  | _, [], _, _, h => by simp [firstWrong] at h
  | _, _ :: _, [], _, h => by simp [firstWrong] at h
  | i, want :: wants, v :: vs, e, h => by
    unfold firstWrong at h
    split at h
    · exact firstWrong_harmless h
    · cases h; rfl

theorem checkArguments_harmless (h : onMachine (checkArguments instr) s = .error e s') : e.isBudget = false := by
  unfold onMachine Run.zoom at h
  cases hr : checkArguments instr s.1 with
  | ok _ m => rw [hr] at h; cases h
  | error e₁ m =>
    rw [hr] at h
    cases h
    unfold checkArguments at hr
    rcases Run.state_bind_eq_error.1 hr with hget | ⟨m₂, _, hget, hr⟩
    · cases hget
    cases hget
    cases hgate : argGate instr s.1.data.stack with
    | none => simp only [hgate] at hr; cases hr
    | some e₂ =>
      simp only [hgate] at hr
      cases hr
      unfold argGate at hgate
      split at hgate
      · cases hgate
      · split at hgate
        · cases hgate
        · split at hgate
          · cases hgate; rfl
          · exact firstWrong_harmless hgate

/-- Only a want of budget stops the payment. -/
theorem chargeStatic_short (h : onMachine (chargeStatic instr) s = .error e s') :
    s.1.data.budget < instructionCost s.1.program.version instr := by
  unfold onMachine Run.zoom at h
  cases hr : chargeStatic instr s.1 with
  | ok _ m => rw [hr] at h; cases h
  | error e₁ m =>
    unfold chargeStatic at hr
    rcases Run.state_bind_eq_error.1 hr with hget | ⟨m₂, _, hget, hr⟩
    · cases hget
    cases hget
    unfold instructionCost
    cases hcost : staticCost s.1.program.version instr with
    | none => simp only [hcost] at hr; cases hr
    | some cost =>
      simp only [hcost] at hr
      unfold onData Run.zoom at hr
      by_cases hshort : (cost : Int) > s.1.data.budget
      · exact hshort
      · have hpays : chargeCost instr.name cost s.1.data =
            .ok () { s.1.data with cost := min (s.1.data.cost + cost) (u64Bound - 1), budget := s.1.data.budget - cost } := by
          show (if (cost : Int) > s.1.data.budget then _ else _ : OnData Unit) s.1.data = _
          rw [if_neg hshort]
          rfl
        rw [hpays] at hr
        cases hr

variable {program : Program} (hold : program.Old) (hs : Healthy limit none program .logicSig s.1)

include hold hs

/-- The instruction of an old logic signature neither charges anything nor wants for budget. -/
theorem oldDispatch_fine (hinstr : s.1.program.instructions[s.1.pc]? = some instr) :
    ∃ spent limit, spent = ((s.1.readied instr).data.budget, (s.1.readied instr).data.cost) ∧
      Fine (fun t : Machine × σ => Healthy limit (some spent) program .logicSig t.1) (Harmless (some spent)) (fun _ => True)
        (dispatch (operations prims ctx) instr (s.1.readied instr, s.2)) := by
  have hdepth : (s.1.readied instr).data.stack.length ≤ maxStackDepth := (hs.data.charged _ _).depth
  obtain ⟨limit', hlimit', hinside, hfetched⟩ := exists_inside hdepth (fetchedAt prims ctx s)
  simp only [fetchedAt, hinstr] at hfetched
  rw [hs.program] at hinstr
  obtain ⟨spec, hlookup, hversion⟩ := hold instr (List.mem_of_getElem? hinstr)
  refine ⟨_, limit', rfl, dispatch_healthy prims ctx ⟨hinside, hs.program, hs.mode, hs.frames⟩ (fun hmode => ?_) hfetched⟩
  exact handlerOf_keeps_old prims ctx hlimit' _ _ (notLater_of_allowed hlookup hversion hmode)

/-- **A step of an old logic signature charges the cost of its instruction.** -/
theorem oldStep_charges (h : step (operations prims ctx) s = .ok () s') :
    s.1.data.budget + program.costBefore s.1.pc ≤ s'.1.data.budget + program.costBefore (s.1.pc + 1) ∧
      s'.1.data.cost + program.costBefore s.1.pc ≤ s.1.data.cost + program.costBefore (s.1.pc + 1) := by
  obtain ⟨-, ⟨-, m, hfinish, rfl⟩ | ⟨instr, s₂, m, hinstr, -, hdispatch, hadvance, rfl⟩⟩ := step_runs h
  · have hmono := costBefore_mono program (Nat.le_add_right s.1.pc 1)
    rw [finishImplicit_data hfinish]
    show s.1.data.budget + _ ≤ s.1.data.budget + _ ∧ s.1.data.cost + _ ≤ s.1.data.cost + _
    exact ⟨by omega, by omega⟩
  · obtain ⟨spent, limit', hspent, hfine⟩ := oldDispatch_fine prims ctx hold hs hinstr
    rw [hdispatch] at hfine
    have hkept : (m.data.budget, m.data.cost) = spent := by
      rw [advanceFrom_data hadvance]
      exact hfine.1.data.spent spent rfl
    obtain ⟨hbudget, hcost⟩ := Prod.ext_iff.1 (hkept.trans hspent)
    rw [hs.program] at hinstr
    have hsucc := costBefore_succ hinstr
    obtain ⟨hcharged, hless⟩ := charged_costs s.1.program.version instr s.1.data
    rw [hs.program] at hcharged hless
    have hready : (s.1.readied instr).data = s.1.data.charged program.version instr := by rw [← hs.program]; rfl
    rw [hready] at hbudget hcost
    simp only at hbudget hcost ⊢
    rw [hbudget, hcost, hcharged]
    exact ⟨by omega, by omega⟩

/-- **A step of an old logic signature that can be paid for does not fail for want of budget.** -/
theorem oldStep_harmless (hpaid : ∀ instr, s.1.program.instructions[s.1.pc]? = some instr →
      (instructionCost program.version instr : Int) ≤ s.1.data.budget)
    (h : step (operations prims ctx) s = .error e s') : e.isBudget = false := by
  unfold step at h
  rcases Run.state_bind_eq_error.1 h with hget | ⟨s₀, s₁, hget, h⟩
  · cases hget
  cases hget
  by_cases hfin : s.1.finished = true
  · simp only [hfin, if_true] at h
    cases h
    rfl
  simp only [hfin, Bool.false_eq_true, if_false] at h
  cases hinstr : s.1.program.instructions[s.1.pc]? with
  | none =>
    simp only [hinstr] at h
    exact finishImplicit_harmless h
  | some instr =>
    simp only [hinstr] at h
    rcases Run.state_bind_eq_error.1 h with hhit | ⟨_, s₂, hhit, h⟩
    · cases hhit
    cases hhit
    rcases Run.state_bind_eq_error.1 h with hargs | ⟨_, s₃, hargs, h⟩
    · exact checkArguments_harmless hargs
    obtain ⟨m₃, hm₃, rfl⟩ := onMachine_eq_ok.1 hargs
    cases checkArguments_eq_ok hm₃
    rcases Run.state_bind_eq_error.1 h with hcharge | ⟨_, s₄, hcharge, h⟩
    · have hcost := hpaid instr hinstr
      rw [← hs.program] at hcost
      have hshort := chargeStatic_short hcharge
      exact absurd hcost (Int.not_le_of_gt hshort)
    obtain ⟨m₄, hm₄, rfl⟩ := onMachine_eq_ok.1 hcharge
    obtain ⟨-, rfl⟩ := chargeStatic_pays hm₄
    rcases Run.state_bind_eq_error.1 h with hop | ⟨_, s₅, hop, h⟩
    · obtain ⟨spent, limit', -, hfine⟩ := oldDispatch_fine prims ctx hold hs hinstr
      have hsame : dispatch (operations prims ctx) instr (s.1.readied instr, s.2) = .error e s' := hop
      rw [hsame] at hfine
      exact hfine rfl
    · cases h

end Step

/-! ## Runs -/

section Run

variable {σ : Type} (prims : Primitives) (ctx : Context σ)

/-- What a run that goes forward has passed: the states it has left lie before a point up to which everything is paid,
and it has not paid for anything beyond. -/
def PaidUpTo (program : Program) (budget : Int) (visited : List (Machine × σ)) (m : Machine) (n : Nat) : Prop :=
  (∀ t ∈ visited, t.1.pc < n) ∧ m.data.cost ≤ program.costBefore n ∧ budget ≤ m.data.budget + program.costBefore n ∧
    (m.finished = false → n ≤ m.pc)

theorem run_paidUpTo {program : Program} {budget : Int} {c : σ} {visited : List (Machine × σ)} {s : Machine × σ}
    (hold : program.Old) (hrun : Visits (operations prims ctx) (Machine.new program .logicSig budget, c) visited s)
    (hforward : ∀ t ∈ visited, GoesForward t.1) :
    (visited.map (fun t => t.1.pc)).Pairwise (· < ·) ∧ ∃ n, PaidUpTo program budget visited s.1 n := by
  induction hrun with
  | nil =>
    refine ⟨List.Pairwise.nil, 0, fun t ht => (by cases ht), Nat.zero_le _, ?_, fun _ => Nat.zero_le _⟩
    exact Int.le_add_of_nonneg_right (Int.natCast_nonneg _)
  | snoc hbefore hstep ih =>
    rename_i before started s₁ s₂ _
    obtain ⟨hstep, rfl⟩ := hstep
    obtain ⟨hpairwise, n, hpassed, hcost, hbudget, hpc⟩ := ih fun t ht => hforward t (List.mem_append_left _ ht)
    obtain ⟨_, -, hhealthy⟩ := run_healthy prims ctx hbefore
    obtain ⟨hspent, hcharged⟩ := oldStep_charges prims ctx hold hhealthy hstep
    have hle := hpc (step_runs hstep).1
    have hmono := costBefore_mono program hle
    have hlater : ∀ t ∈ before, t.1.pc < s₁.1.pc := fun t ht => Nat.lt_of_lt_of_le (hpassed t ht) hle
    refine ⟨?_, s₁.1.pc + 1, ?_, by omega, by omega, ?_⟩
    · rw [List.map_append, List.pairwise_append]
      refine ⟨hpairwise, List.pairwise_singleton _ _, fun a ha b hb => ?_⟩
      obtain ⟨t, ht, rfl⟩ := List.mem_map.1 ha
      rw [List.map_singleton, List.mem_singleton] at hb
      rw [hb]
      exact hlater t ht
    · intro t ht
      rcases List.mem_append.1 ht with hmem | hmem
      · exact Nat.lt_succ_of_lt (hlater t hmem)
      · rw [List.mem_singleton.1 hmem]
        exact Nat.lt_succ_self _
    · intro hrunning
      rcases step_forward (hforward s₁ (List.mem_append_right _ (List.mem_singleton.2 rfl))) hstep with hfinished | hlt
      · rw [hrunning] at hfinished
        cases hfinished
      · exact hlt

/-- No branch of the program points to an instruction before it. -/
def Program.BranchesForward (p : Program) : Prop :=
  ∀ e ∈ p.instructions.zipIdx, ∀ target ∈ (branchTarget p e.1).toOption, e.2 ≤ target

theorem Program.Old.branchTarget {m : Machine} {instr : Instruction} {target : Nat} (hold : m.program.Old)
    (hmem : instr ∈ m.program.instructions) (h : transferTarget m instr = some target) :
    (Avm.branchTarget m.program instr).toOption = some target := by
  -- subroutines and labels came later
  have hlater : ∀ byte : UInt8, byte = 0x89 ∨ byte = 0x8d ∨ byte = 0x8e → instr.opcode.toNat ≠ byte.toNat := by
    intro byte hbyte hopcode
    obtain ⟨spec, hspec, hversion⟩ := hold instr hmem
    rw [UInt8.toNat_inj.1 hopcode] at hspec
    rcases hbyte with rfl | rfl | rfl <;> cases hspec <;> exact absurd hversion (by decide)
  unfold transferTarget at h
  split at h
  · split at h
    · split at h
      · exact h
      · cases h
    · cases h
  · split at h
    · split at h
      · exact h
      · cases h
    · cases h
  · exact h
  · exact h
  · exact absurd ‹_› (hlater 0x89 (by decide))
  · exact absurd ‹_› (hlater 0x8d (by decide))
  · exact absurd ‹_› (hlater 0x8e (by decide))
  · cases h

/-- **A run of an old program whose branches point forward goes forward.** -/
theorem run_goesForward {program : Program} {budget : Int} {c : σ} {visited : List (Machine × σ)} {s : Machine × σ}
    (hold : program.Old) (hbranches : program.BranchesForward)
    (hrun : Visits (operations prims ctx) (Machine.new program .logicSig budget, c) visited s) :
    ∀ t ∈ visited, GoesForward t.1 := by
  induction hrun with
  | nil => exact fun t ht => (by cases ht)
  | snoc hbefore hstep ih =>
    obtain ⟨-, rfl⟩ := hstep
    obtain ⟨_, -, hhealthy⟩ := run_healthy prims ctx hbefore
    intro t ht
    rcases List.mem_append.1 ht with hmem | hmem
    · exact ih t hmem
    · obtain rfl := List.mem_singleton.1 hmem
      intro instr hinstr target htarget
      rw [← hhealthy.program] at hold hbranches
      exact hbranches (instr, _) (List.mk_mem_zipIdx_iff_getElem?.2 hinstr) target
        (hold.branchTarget (List.mem_of_getElem? hinstr) htarget)

/-- **An old program that goes forward is paid for in advance**: where the check of the costs has succeeded and no step
of a run goes back, the indices of the executed instructions increase, the cost is at most the sum that was checked, and
the next step does not fail for want of budget. -/
theorem forwardRun_paid (raw : Bytes) (program : Program) (budget : Int) (c : σ) (visited : List (Machine × σ))
    (s : Machine × σ) (hparse : parse raw = .ok program) (hversion : program.version < backBranchEnabledVersion)
    (hcheck : staticCostCheck program budget = .ok ())
    (hrun : Visits (operations prims ctx) (Machine.new program .logicSig budget, c) visited s)
    (hforward : ∀ t ∈ visited, GoesForward t.1) :
    (visited.map (fun t => t.1.pc)).Pairwise (· < ·) ∧ s.1.data.cost ≤ program.linearCost ∧
      ∀ e s', step (operations prims ctx) s = .error e s' → e.isBudget = false := by
  have hold : program.Old := fun instr hmem => parse_old hparse hversion hmem
  obtain ⟨hpairwise, n, -, hcost, hbudget, hpc⟩ := run_paidUpTo prims ctx hold hrun hforward
  obtain ⟨_, -, hhealthy⟩ := run_healthy prims ctx hrun
  refine ⟨hpairwise, Nat.le_trans hcost (costBefore_le_linearCost program n), fun e s' hfails => ?_⟩
  by_cases hfinished : s.1.finished = true
  · -- a program that has ended takes no step
    have hstop : step (operations prims ctx) s = .error .alreadyFinished s := by
      show (if s.1.finished then throw .alreadyFinished else _ : EStateM AvmError (Machine × σ) Unit) s = _
      rw [if_pos hfinished]
      rfl
    rw [hstop] at hfails
    cases hfails
    rfl
  · refine oldStep_harmless prims ctx hold hhealthy (fun instr hinstr => ?_) hfails
    rw [hhealthy.program] at hinstr
    have hle := hpc (by simpa using hfinished)
    have hmono := costBefore_mono program hle
    have hsucc := costBefore_succ hinstr
    unfold staticCostCheck at hcheck
    rw [if_neg (Nat.not_le_of_lt hversion)] at hcheck
    have hfits := staticCostFrom_prefixes hcheck s.1.pc (List.getElem?_eq_some_iff.1 hinstr).1
    have hsame : ((program.instructions.take (s.1.pc + 1)).map (instructionCost program.version)).sum =
      program.costBefore (s.1.pc + 1) := rfl
    rw [hsame] at hfits
    omega

/-- Over an `err` to a branch to the end. -/
def skippingProgram : Program :=
  ⟨2, [⟨0x42, none, 0, .int16 1⟩, ⟨0x00, none, 3, .none⟩, ⟨0x42, none, 4, .int16 0⟩]⟩

set_option maxRecDepth 20000 in
/-- Two instructions of three run, each once, and the end of the program is no want of budget. -/
theorem forwardRun_paid_skipping :
    ∃ s₁ s, Visits bareOperations (Machine.new skippingProgram .logicSig 3, ())
        [(Machine.new skippingProgram .logicSig 3, ()), s₁] s ∧ s₁.1.pc = 2 ∧ s.1.pc = 3 ∧ s.1.data.cost ≤ 3 ∧
      ∀ e s', step bareOperations s = .error e s' → e.isBudget = false := by
  obtain ⟨_, s₁, hfirst, hs₁⟩ := @Run.ok_of_okAnd _ _ _
    (step bareOperations (Machine.new skippingProgram .logicSig 3, ()))
    (fun s₁ => decide (s₁.1.pc = 2 ∧ Run.okAnd (fun s => decide (s.1.pc = 3)) (step bareOperations s₁) = true))
    (by decide)
  obtain ⟨hpc₁, hsecond⟩ := of_decide_eq_true hs₁
  obtain ⟨_, s, hsecond, hs⟩ := Run.ok_of_okAnd hsecond
  have hrun : Visits bareOperations (Machine.new skippingProgram .logicSig 3, ())
      (([] ++ [(Machine.new skippingProgram .logicSig 3, ())]) ++ [s₁]) s :=
    (Path.nil.snoc (e := ()) ⟨hfirst, rfl⟩).snoc (e := ()) ⟨hsecond, rfl⟩
  have hparse : parse [2, 0x42, 0x00, 0x01, 0x00, 0x42, 0x00, 0x00] = .ok skippingProgram := by decide
  have hbranches : skippingProgram.BranchesForward := by unfold Program.BranchesForward; decide
  have hpaid := forwardRun_paid noPrimitives (nullContext fun _ => "") _ skippingProgram 3 () _ s hparse (by decide)
    (by decide) hrun (run_goesForward _ _ (fun _ => parse_old hparse (by decide)) hbranches hrun)
  exact ⟨s₁, s, hrun, hpc₁, of_decide_eq_true hs, hpaid.2.1, hpaid.2.2⟩

/-- A run ended for want of budget. -/
def exhausted : Option (EStateM.Result AvmError (Machine × σ) Bool) → Bool
  | some (.error e _) => e.isBudget
  | _ => false

set_option maxRecDepth 20000 in
/-- **An old program can go back, and run out of a budget that was enough for the check**: a branch to the next
instruction and one from there back to the first. -/
theorem oldLoop_exhausted :
    parse [2, 0x42, 0x00, 0x00, 0x42, 0xff, 0xfa] =
        .ok ⟨2, [⟨0x42, none, 0, .int16 0⟩, ⟨0x42, none, 3, .int16 (-6)⟩]⟩ ∧
      staticCostCheck ⟨2, [⟨0x42, none, 0, .int16 0⟩, ⟨0x42, none, 3, .int16 (-6)⟩]⟩ 2 = .ok () ∧
      exhausted (run bareOperations 3
        (Machine.new ⟨2, [⟨0x42, none, 0, .int16 0⟩, ⟨0x42, none, 3, .int16 (-6)⟩]⟩ .logicSig 2, ())) = true :=
  ⟨by decide, by decide, by decide⟩

end Run

end Avm
end Algod
