import AlgodRust.Avm.Effects
import AlgodRust.Avm.Eval
/-!
# Tracing — what a tracer changes

The step function and the runs of the traced entry points are, seen without the tracer, those of the originals
(`stepWithTracer_erases`, `runWithTracer_erases`), and so is everything that follows a run.  The LogicSig entry points
agree on every program.  The ones for applications agree unless the check that the copies leave out is the one that
decides: that a program older than shared resources is not called with an access list.
-/
namespace Algod
namespace Avm

open Msgpack (Bytes)

/-! ## The opcodes that ran -/

section Hits

/-- The opcodes that have run are the same. -/
def SameHits (m m' : Machine) : Prop := m'.opcodeHits = m.opcodeHits

/-- Flow control that leaves the record of the opcodes alone. -/
abbrev Quiet {α : Type} (x : Flow α) : Prop := Run.Respects SameHits x

variable {σ : Type} {handlers : Handlers σ} {s s' : Machine × σ}

theorem SameHits.trans (m₁ m₂ m₃ : Machine) (h₁ : SameHits m₁ m₂) (h₂ : SameHits m₂ m₃) : SameHits m₁ m₃ :=
  Eq.trans h₂ h₁

theorem Steady.quiet {α : Type} {x : Flow α} (h : Steady x) : Quiet x := fun m a m' hx => (h m a m' hx).hits

theorem dispatch_quiet {instr : Instruction} (h : dispatch handlers instr s = .ok () s') : SameHits s.1 s'.1 := by
  obtain ⟨f, m, hflow, hf, rfl⟩ | ⟨-, t, -, rfl⟩ := dispatch_eq_ok h
  · exact (flowOp_steady instr hflow).quiet _ _ _ hf
  · rfl

/-- A step adds the opcode that it executes to the record.  At the end of the instructions something is on the stack. -/
theorem step_opcodeHits (h : step handlers s = .ok () s') :
    (∃ opcode : UInt8, s'.1.opcodeHits = s.1.opcodeHits.set opcode.toNat true) ∨
      (s.1.data.stack ≠ [] ∧ SameHits s.1 s'.1) := by
  obtain ⟨-, ⟨-, m, hfinish, rfl⟩ | ⟨instr, m₂, m₃, s₄, m₅, -, hargs, hcharge, hdispatch, hadvance, rfl⟩⟩ := step_eq_ok h
  · obtain ⟨hstack, -, huntouched⟩ := finishImplicit_eq_ok hfinish
    exact .inr ⟨hstack, huntouched.hits⟩
  · have hprepared : SameHits _ m₃ :=
      ((checkArguments_steady instr).quiet _ _ _ hargs).trans _ _ _ (chargeStatic_eq_ok hcharge).2.2.1
    have hdone : SameHits m₃ m₅ := (dispatch_quiet hdispatch).trans _ _ _ ((advanceFrom_steady _).quiet _ _ _ hadvance)
    exact .inl ⟨instr.opcode, hprepared.trans _ _ _ hdone⟩

theorem mem_set_true {hits : List Bool} (h : true ∈ hits) (i : Nat) : true ∈ hits.set i true := by
  by_cases hi : i < hits.length
  · exact List.mem_set hi true
  · rw [List.set_eq_of_length_le (Nat.le_of_not_lt hi)]
    exact h

/-- An opcode that has run stays in the record. -/
theorem run_keeps_hit : ∀ {steps : Nat} {s s' : Machine × σ} {pass : Bool},
    run handlers steps s = some (.ok pass s') → true ∈ s.1.opcodeHits → true ∈ s'.1.opcodeHits
  | 0, s, s', pass, h, hhit => by
    unfold run at h
    cases hfin : s.1.finished with
    | true => simp only [hfin, if_true] at h; cases h; exact hhit
    | false => simp only [hfin, Bool.false_eq_true, if_false] at h; cases h
  | steps + 1, s, s', pass, h, hhit => by
    unfold run at h
    cases hfin : s.1.finished with
    | true => simp only [hfin, if_true] at h; cases h; exact hhit
    | false =>
      simp only [hfin, Bool.false_eq_true, if_false] at h
      cases hstep : step handlers s with
      | error e s₁ => simp only [hstep] at h; cases h
      | ok _ s₁ =>
        simp only [hstep] at h
        apply run_keeps_hit h
        rcases step_opcodeHits hstep with ⟨opcode, hset⟩ | ⟨-, hsame⟩
        · rw [hset]; exact mem_set_true hhit _
        · rw [hsame]; exact hhit

/-- **A program that ran to its end executed an opcode.** -/
theorem run_new_hit {steps : Nat} {program : Program} {mode : ExecMode} {budget : Int} {c : σ} {pass : Bool}
    (h : run handlers steps (Machine.new program mode budget, c) = some (.ok pass s')) : true ∈ s'.1.opcodeHits := by
  cases steps with
  | zero => cases h
  | succ steps =>
    have hfresh : (Machine.new program mode budget).finished = false := rfl
    unfold run at h
    simp only [hfresh, Bool.false_eq_true, if_false] at h
    cases hstep : step handlers (Machine.new program mode budget, c) with
    | error e s₁ => simp only [hstep] at h; cases h
    | ok _ s₁ =>
      simp only [hstep] at h
      apply run_keeps_hit h
      rcases step_opcodeHits hstep with ⟨opcode, hset⟩ | ⟨hstack, -⟩
      · rw [hset]
        apply List.mem_set
        show opcode.toNat < (List.replicate 256 false).length
        rw [List.length_replicate]
        exact opcode.toNat_lt
      · exact absurd rfl hstack

end Hits

/-! ## Seen without the tracer -/

section Erasure

variable {σ τ : Type} (ops : AvmContext σ) (tracer : EvalTracer τ) (hash : Bytes → Bytes) {program : Bytes} {c : σ}

/-- **A traced step is a step.** -/
theorem stepWithTracer_erases (handlers : Handlers σ) :
    Run.Erases (stepWithTracer tracer handlers) (step handlers) := by
  unfold stepWithTracer step
  apply Run.Erases.get_bind
  intro s t
  cases s.1.finished with
  | true => exact fun _ _ => rfl
  | false =>
    simp only [Bool.false_eq_true, if_false]
    cases s.1.program.instructions[s.1.pc]? with
    | none => exact Run.Erases.beside _
    | some instr =>
      apply Run.Erases.bind (Run.Erases.beside _)
      intro _
      apply Run.Erases.observe_bind
      apply Run.Erases.bind ((Run.Erases.beside _).onFailure _)
      intro _
      apply Run.Erases.bind ((Run.Erases.beside _).onFailure _)
      intro _
      apply Run.Erases.bind ((Run.Erases.beside _).onFailure _)
      intro _
      apply Run.Erases.observe_bind
      apply Run.Erases.observe_bind
      exact Run.Erases.beside _

/-- **A traced run is a run.** -/
theorem runWithTracer_erases (handlers : Handlers σ) :
    ∀ (steps : Nat) (s : Machine × σ) (t : τ),
      (runWithTracer tracer handlers steps (s, t)).map Run.erase = run handlers steps s
  | 0, s, t => by
    unfold runWithTracer run
    cases s.1.finished <;> rfl
  | steps + 1, s, t => by
    unfold runWithTracer run
    cases s.1.finished with
    | true => rfl
    | false =>
      simp only [Bool.false_eq_true, if_false]
      rw [← stepWithTracer_erases tracer handlers s t]
      cases stepWithTracer tracer handlers (s, t) with
      | ok _ s' => exact runWithTracer_erases handlers steps s'.1 s'.2
      | error e s' => rfl

theorem erase_attach {ε ρ α : Type} (t : τ) (r : EStateM.Result ε ρ α) : Run.erase (attach t r) = r := by
  cases r <;> rfl

/-- An outcome that is computed from the run alone does not depend on the tracer. -/
theorem map_erase_attach {ε ρ α : Type} (handlers : Handlers σ) (steps : Nat) (s : Machine × σ) (t : τ)
    (f : EStateM.Result AvmError ((Machine × σ) × τ) Bool → τ)
    (outcome : EStateM.Result AvmError (Machine × σ) Bool → EStateM.Result ε ρ α) :
    ((runWithTracer tracer handlers steps (s, t)).map (fun r => attach (f r) (outcome (Run.erase r)))).map Run.erase =
      (run handlers steps s).map outcome := by
  rw [Option.map_map, ← runWithTracer_erases tracer handlers steps s t, Option.map_map]
  apply congrArg (fun g => Option.map g (runWithTracer tracer handlers steps (s, t)))
  funext r
  exact erase_attach _ _

/-! ## Agreement -/

/-- Calls that return, after some number of steps, a result. -/
def Returns {ρ : Type} (f : Nat → Option ρ) (r : ρ) : Prop := ∃ steps, f steps = some r

/-- Seen without the tracer, the traced calls return what the plain ones do. -/
def Agree {ε ρ α : Type} (traced : Nat → Option (EStateM.Result ε (ρ × τ) α))
    (plain : Nat → Option (EStateM.Result ε ρ α)) : Prop :=
  ∀ r, Returns (fun steps => (traced steps).map Run.erase) r ↔ Returns plain r

theorem Agree.of_eq {ε ρ α : Type} {traced : Nat → Option (EStateM.Result ε (ρ × τ) α)}
    {plain : Nat → Option (EStateM.Result ε ρ α)} (h : ∀ steps, (traced steps).map Run.erase = plain steps) :
    Agree traced plain := by
  intro r
  unfold Returns
  simp only [h]

/-- A program from before shared resources that is called with an access list. -/
def PredatesAccess (program : Bytes) (c : σ) : Prop :=
  ∃ version, peekVersion program = some version ∧ version < sharedResourcesVersion ∧ ops.txnHasAccess c = true

/-- The approval programs that only the plain entry point refuses: the ceiling lets them through. -/
def ApprovalUnchecked (program : Bytes) (c : σ) : Prop :=
  checkCeiling program (ops.consensusLogicSigVersion c) = .ok () ∧ PredatesAccess ops program c

/-- The clear-state programs that only the plain entry point refuses: no other check does. -/
def ClearStateUnchecked (program : Bytes) (c : σ) (consensus : ConsensusParams) : Prop :=
  onVersion program (fun version => checkProgramVersionAllowed version consensus.logicSigVersion) = .ok () ∧
    PredatesAccess ops program c ∧
    onVersion program (fun version => checkMinAvmVersion version (ops.minAvmVersion c)) = .ok () ∧
    ∀ e, parse program ≠ .error (.error e)

theorem onVersion_access_of_predates (h : PredatesAccess ops program c) :
    onVersion program (fun version => checkPreSharedResourcesAccess version (ops.txnHasAccess c)) =
      .error .preSharedResourcesAccess := by
  obtain ⟨version, hversion, hold, haccess⟩ := h
  unfold onVersion checkPreSharedResourcesAccess
  simp only [hversion]
  exact if_pos ⟨hold, haccess⟩

theorem onVersion_access_of_not (h : ¬ PredatesAccess ops program c) :
    onVersion program (fun version => checkPreSharedResourcesAccess version (ops.txnHasAccess c)) = .ok () := by
  unfold onVersion checkPreSharedResourcesAccess
  cases hversion : peekVersion program with
  | none => rfl
  | some version =>
    simp only
    apply if_neg
    rintro ⟨hold, haccess⟩
    exact h ⟨version, hversion, hold, haccess⟩

theorem logicSig_agree (program : Bytes) (c : σ) (budget : Int) (t : τ) :
    Agree (fun steps => runLogicSigProgramWithTracer ops tracer hash steps program c budget t)
      (fun steps => runLogicSigProgram ops steps program c budget) := by
  apply Agree.of_eq
  intro steps
  unfold runLogicSigProgramWithTracer runLogicSigProgram
  cases checkCeiling program (ops.consensusLogicSigVersion c) with
  | error e => rfl
  | ok _ =>
    simp only
    cases onVersion program (fun version => checkMinAvmVersion version (ops.minAvmVersion c)) with
    | error e => rfl
    | ok _ =>
      simp only
      rcases parse program with (e | _) | parsed
      · rfl
      · rfl
      · simp only
        cases staticCostCheck parsed budget with
        | error e => rfl
        | ok _ => exact map_erase_attach tracer ops.handlers steps _ _ _ _

/-- Where the access list is not what decides, the approval entry points agree. -/
theorem approval_agree (budget : Int) (t : τ) (h : ¬ ApprovalUnchecked ops program c) :
    Agree (fun steps => runApprovalProgramWithTracer ops tracer hash steps program c budget t)
      (fun steps => runApprovalProgram ops steps program c budget) := by
  apply Agree.of_eq
  intro steps
  unfold runApprovalProgramWithTracer runApprovalProgram
  cases hceiling : checkCeiling program (ops.consensusLogicSigVersion c) with
  | error e => rfl
  | ok _ =>
    have haccess : ¬ PredatesAccess ops program c := fun hold => h ⟨hceiling, hold⟩
    simp only [onVersion_access_of_not ops haccess]
    cases onVersion program (fun version => checkMinAvmVersion version (ops.minAvmVersion c)) with
    | error e => rfl
    | ok _ =>
      simp only
      rcases parse program with (e | _) | parsed
      · rfl
      · rfl
      · exact map_erase_attach tracer ops.handlers steps _ _ _ _

/-- No run ends with the error of an access list. -/
theorem approvalOutcome_ne_access (budget : Int) (r : EStateM.Result AvmError (Machine × σ) Bool) (s : σ × Int) :
    approvalOutcome ops budget r ≠ .error (.error .preSharedResourcesAccess) s := by
  intro h
  obtain ⟨pass, m, c⟩ | ⟨e, m, c⟩ := r
  · unfold approvalOutcome consume at h
    simp only at h
    split at h
    · rename_i hconsume
      split at hconsume
      · cases hconsume; cases h
      · cases hconsume
    · cases h
  · cases h

theorem onVersion_min_ne_access (program : Bytes) (min : Nat) :
    onVersion program (fun version => checkMinAvmVersion version min) ≠ .error .preSharedResourcesAccess := by
  intro h
  unfold onVersion checkMinAvmVersion at h
  split at h
  · simp only at h
    split at h <;> cases h
  · cases h

theorem approval_disagree (budget : Int) (t : τ) (h : ApprovalUnchecked ops program c) :
    ¬ Agree (fun steps => runApprovalProgramWithTracer ops tracer hash steps program c budget t)
      (fun steps => runApprovalProgram ops steps program c budget) := by
  obtain ⟨hceiling, hold⟩ := h
  intro hagree
  -- the plain entry point refuses the program at once
  have hplain : Returns (fun steps => runApprovalProgram ops steps program c budget)
      (.error (.error .preSharedResourcesAccess) (c, budget)) := by
    refine ⟨0, ?_⟩
    simp only [runApprovalProgram, hceiling, onVersion_access_of_predates ops hold]
  obtain ⟨steps, htraced⟩ := (hagree _).2 hplain
  simp only [runApprovalProgramWithTracer, hceiling] at htraced
  cases hmin : onVersion program (fun version => checkMinAvmVersion version (ops.minAvmVersion c)) with
  | error e =>
    simp only [hmin] at htraced
    cases htraced
    exact onVersion_min_ne_access program _ hmin
  | ok _ =>
    simp only [hmin] at htraced
    rcases hparse : parse program with (e | _) | parsed
    · simp only [hparse] at htraced
      cases htraced
      exact parse_ne_access program hparse
    · simp only [hparse] at htraced
      cases htraced
    · simp only [hparse] at htraced
      rw [map_erase_attach, Option.map_eq_some_iff] at htraced
      obtain ⟨r, -, houtcome⟩ := htraced
      exact approvalOutcome_ne_access ops budget r _ houtcome

/-- Where the access list is not what decides, the clear-state entry points agree. -/
theorem clearState_agree {consensus : ConsensusParams} (t : τ) (h : ¬ ClearStateUnchecked ops program c consensus) :
    Agree (fun steps => runClearStateProgramWithTracer ops tracer hash steps program c consensus t)
      (fun steps => runClearStateProgram ops steps program c consensus) := by
  apply Agree.of_eq
  intro steps
  unfold runClearStateProgramWithTracer runClearStateProgram
  cases hceiling : onVersion program (fun version => checkProgramVersionAllowed version consensus.logicSigVersion) with
  | error e => rfl
  | ok _ =>
    simp only
    by_cases hold : PredatesAccess ops program c
    · -- another check refuses the program, and every refusal is the same
      simp only [onVersion_access_of_predates ops hold]
      cases hmin : onVersion program (fun version => checkMinAvmVersion version (ops.minAvmVersion c)) with
      | error e => rfl
      | ok _ =>
        rcases hparse : parse program with (e | _) | parsed
        · rfl
        · exact absurd ⟨hceiling, hold, hmin, fun e he => by rw [hparse] at he; cases he⟩ h
        · exact absurd ⟨hceiling, hold, hmin, fun e he => by rw [hparse] at he; cases he⟩ h
    · simp only [onVersion_access_of_not ops hold]
      cases onVersion program (fun version => checkMinAvmVersion version (ops.minAvmVersion c)) with
      | error e => rfl
      | ok _ =>
        simp only
        rcases parse program with (e | _) | parsed
        · rfl
        · rfl
        · exact map_erase_attach tracer ops.handlers steps _ _ _ _

/-- The result of a clear-state program that ran differs from that of one that did not. -/
theorem clearStateOutcome_ne_empty {steps : Nat} {program : Program} {budget : Int} {c c' : σ}
    {r : EStateM.Result AvmError (Machine × σ) Bool}
    (hrun : run ops.handlers steps (Machine.new program .application budget, c) = some r) :
    clearStateOutcome ops r ≠ .ok AvmResult.empty c' := by
  intro h
  obtain ⟨pass, m, d⟩ | ⟨e, m, d⟩ := r
  · cases pass with
    | true =>
      have happroved : (collect ops m d true none).1 = AvmResult.empty := by injection h
      have htrue : (collect ops m d true none).1.approved = true := rfl
      rw [happroved] at htrue
      cases htrue
    | false =>
      have hcleared : AvmResult.cleared m none = AvmResult.empty := by injection h
      have hhits : m.opcodeHits = List.replicate 256 false := congrArg AvmResult.coverage hcleared
      have hhit := run_new_hit hrun
      simp only [hhits] at hhit
      cases List.eq_of_mem_replicate hhit
  · have hcleared : AvmResult.cleared m (some (e, evalErrorDetail m (ops.groupIndex d) (some (ops.currentAppId d)))) =
        AvmResult.empty := by injection h
    cases congrArg AvmResult.error hcleared

theorem clearState_disagree {consensus : ConsensusParams} (t : τ) (h : ClearStateUnchecked ops program c consensus) :
    ¬ Agree (fun steps => runClearStateProgramWithTracer ops tracer hash steps program c consensus t)
      (fun steps => runClearStateProgram ops steps program c consensus) := by
  obtain ⟨hceiling, hold, hmin, hparses⟩ := h
  intro hagree
  have hplain : Returns (fun steps => runClearStateProgram ops steps program c consensus)
      (.ok AvmResult.empty c) := by
    refine ⟨0, ?_⟩
    simp only [runClearStateProgram, hceiling, onVersion_access_of_predates ops hold]
  obtain ⟨steps, htraced⟩ := (hagree _).2 hplain
  simp only [runClearStateProgramWithTracer, hceiling, hmin] at htraced
  rcases hparse : parse program with (e | _) | parsed
  · exact hparses e hparse
  · simp only [hparse] at htraced
    cases htraced
  · simp only [hparse] at htraced
    rw [map_erase_attach, Option.map_eq_some_iff] at htraced
    obtain ⟨r, hrun, houtcome⟩ := htraced
    exact clearStateOutcome_ne_empty ops hrun houtcome

/-- **What a tracer changes.**  A LogicSig returns the same with it and without.  An approval or a clear-state program
does unless it predates shared resources, is called with an access list and no other check refuses it first. -/
theorem tracing_agrees_iff (program : Bytes) (c : σ) (budget : Int) (consensus : ConsensusParams) (t : τ) :
    (Agree (fun steps => runApprovalProgramWithTracer ops tracer hash steps program c budget t)
        (fun steps => runApprovalProgram ops steps program c budget) ↔ ¬ ApprovalUnchecked ops program c) ∧
      (Agree (fun steps => runClearStateProgramWithTracer ops tracer hash steps program c consensus t)
        (fun steps => runClearStateProgram ops steps program c consensus) ↔
          ¬ ClearStateUnchecked ops program c consensus) ∧
      Agree (fun steps => runLogicSigProgramWithTracer ops tracer hash steps program c budget t)
        (fun steps => runLogicSigProgram ops steps program c budget) := by
  refine ⟨⟨?_, approval_agree ops tracer hash budget t⟩, ⟨?_, clearState_agree ops tracer hash t⟩,
    logicSig_agree ops tracer hash program c budget t⟩
  · intro hagree hmisses
    exact approval_disagree ops tracer hash budget t hmisses hagree
  · intro hagree hmisses
    exact clearState_disagree ops tracer hash t hmisses hagree

end Erasure

/-- Integer literals beside flow control. -/
def literals : Handlers Unit where
  handle _ _ instr :=
    match instr.immediates with
    | .varuint n => Run.zoom Prod.fst (fun d s => (d, s.2)) (push (.uint n))
    | _ => throw (.other instr.name)

/-- A call with an access list. -/
def accessCall : AvmContext Unit where
  handlers := literals
  consensusLogicSigVersion _ := some 12
  minAvmVersion _ := 0
  txnHasAccess _ := true
  groupIndex _ := 0
  currentAppId _ := 1
  takeGlobalDelta c := (∅, c)
  takeLocalDeltas c := (∅, c)
  takeLocalDeltaOrder c := ([], c)
  takeInnerTransactions c := ([], c)
  takeLogs c := ([], c)

/-- A tracer that counts the opcodes it sees. -/
def opcodeCounter : EvalTracer Nat where
  beforeProgram _ _ t := t
  afterProgram _ _ _ t := t
  recordProgramCost _ _ t := t
  beforeOpcode _ _ t := t + 1
  afterOpcode _ _ _ _ _ t := t
  recordScratchWrite _ t := t

/-- **The traced copy approves what the original refuses**: `pushint 1; return` in version 8, called with an access
list. -/
theorem access_onlyTracedApproves :
    runApprovalProgram accessCall 2 [8, 0x81, 0x01, 0x43] () 700 =
        some (.error (.error .preSharedResourcesAccess) ((), 700)) ∧
      (∃ r s, runApprovalProgramWithTracer accessCall opcodeCounter id 2 [8, 0x81, 0x01, 0x43] () 700 0 =
        some (.ok r s) ∧ r.approved = true) ∧
      ¬ Agree (fun steps => runApprovalProgramWithTracer accessCall opcodeCounter id steps [8, 0x81, 0x01, 0x43] () 700 0)
        (fun steps => runApprovalProgram accessCall steps [8, 0x81, 0x01, 0x43] () 700) := by
  refine ⟨rfl, ?_, ?_⟩
  · have happroved : (runApprovalProgramWithTracer accessCall opcodeCounter id 2 [8, 0x81, 0x01, 0x43] () 700 0).any
        (fun | .ok r _ => r.approved | .error _ _ => false) = true := by decide
    cases hrun : runApprovalProgramWithTracer accessCall opcodeCounter id 2 [8, 0x81, 0x01, 0x43] () 700 0 with
    | none => rw [hrun] at happroved; cases happroved
    | some result =>
      rw [hrun] at happroved
      cases result with
      | ok r s => exact ⟨r, s, rfl, happroved⟩
      | error e s => cases happroved
  · exact approval_disagree accessCall opcodeCounter id 700 0 ⟨rfl, 8, rfl, by decide, rfl⟩

end Avm
end Algod
