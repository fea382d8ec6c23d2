import AlgodRust.Avm.ValueSizes
/-!
# Frames — what a subroutine reaches through its frame

A subroutine that has declared its arguments should reach them and what it has pushed itself, and nothing of its caller
below.  The index of a frame access is checked against the stack only: a subroutine reads and overwrites what lies below
its arguments as far down as a signed byte goes, and the least such byte reaches nothing at all
(`frameAccess_confined_iff`).
-/
namespace Algod
namespace Avm

open Msgpack (Bytes)
open Run (Path)

/-- A byte, read as a signed one. -/
def signedByte (raw : UInt8) : Int := if raw.toNat < 128 then raw.toNat else (raw.toNat : Int) - 256

section Access

variable {m m' : Machine} {instr : Instruction} {raw : UInt8} {frame : CallFrame} {frames : List CallFrame}

/-- `frame_dig` reaches the arguments that were declared and what lies above them, and pushes the value there. -/
def DigConfined (m : Machine) (frame : CallFrame) (instr : Instruction) (i : Int) : Prop :=
  ((∃ m', opFrameDig instr m = .ok () m') ↔
      -(frame.args : Int) ≤ i ∧ frame.framePointer + i < m.data.stack.length ∧ m.data.stack.length < maxStackDepth) ∧
    ∀ m', opFrameDig instr m = .ok () m' →
      ∃ v, m.data.stack[(frame.framePointer + i).toNat]? = some v ∧
        m' = { m with data := { m.data with stack := m.data.stack ++ [v] } }

/-- `frame_bury` reaches the same of what is left when its value has been popped, and writes the value there. -/
def BuryConfined (m : Machine) (frame : CallFrame) (instr : Instruction) (i : Int) : Prop :=
  ((∃ m', opFrameBury instr m = .ok () m') ↔
      -(frame.args : Int) ≤ i ∧ frame.framePointer + i < (m.data.stack.length - 1 : Nat)) ∧
    ∀ m', opFrameBury instr m = .ok () m' →
      ∃ v, m.data.stack.getLast? = some v ∧
        m' = { m with data := { m.data with stack := m.data.stack.dropLast.set (frame.framePointer + i).toNat v } }

theorem signedByte_bounds (raw : UInt8) : -128 ≤ signedByte raw ∧ signedByte raw < 128 := by
  have hlt := raw.toNat_lt
  unfold signedByte
  split <;> omega

/-- The index of an access: it is not below the stack, and the least byte has none. -/
theorem frameIndex_eq_ok {framePointer idx : Nat} (hpointer : framePointer ≤ maxStackDepth) :
    frameIndex framePointer raw = .ok idx ↔ signedByte raw ≠ -128 ∧ (idx : Int) = framePointer + signedByte raw := by
  unfold maxStackDepth at hpointer
  have hbounds := signedByte_bounds raw
  unfold frameIndex
  show (if 0 ≤ signedByte raw then Except.ok (framePointer + (signedByte raw).toNat) else
    if (if signedByte raw = -128 then u64Bound - 128 else (-signedByte raw).toNat) ≤ framePointer then
      Except.ok (framePointer - if signedByte raw = -128 then u64Bound - 128 else (-signedByte raw).toNat)
    else Except.error (AvmError.frameIndexOverflow framePointer (signedByte raw))) = _ ↔ _
  generalize signedByte raw = i at hbounds
  by_cases hpos : 0 ≤ i
  · rw [if_pos hpos, Except.ok.injEq]
    omega
  · rw [if_neg hpos]
    by_cases hleast : i = -128
    · have hfar : ¬ u64Bound - 128 ≤ framePointer := by
        unfold u64Bound
        omega
      simp only [hleast, if_true, hfar, if_false, reduceCtorEq, ne_eq, not_true_eq_false, false_and]
    · simp only [hleast, if_false, ne_eq, not_false_eq_true, true_and]
      by_cases hbelow : (-i).toNat ≤ framePointer
      · rw [if_pos hbelow, Except.ok.injEq]
        omega
      · rw [if_neg hbelow]
        constructor
        · intro h; cases h
        · intro h; omega

theorem frameAccess_of_frame (himm : instr.immediates = .uint8 raw) (hcalls : m.callStack = frame :: frames) :
    frameAccess instr m = .ok (raw, frame) m := by
  refine Run.state_bind_eq_ok.2 ⟨m, m, rfl, ?_⟩
  rw [himm, hcalls]
  rfl

theorem push_eq_ok {v : AvmValue} {d d' : Data} :
    push v d = .ok () d' ↔ d.stack.length < maxStackDepth ∧ d' = { d with stack := d.stack ++ [v] } := by
  show (if d.stack.length ≥ maxStackDepth then throw .stackOverflow else set { d with stack := d.stack ++ [v] } :
    OnData Unit) d = _ ↔ _
  by_cases hfull : d.stack.length ≥ maxStackDepth
  · rw [if_pos hfull]
    constructor
    · intro h; cases h
    · rintro ⟨h, -⟩; omega
  · rw [if_neg hfull]
    constructor
    · intro h; cases h; exact ⟨by omega, rfl⟩
    · rintro ⟨-, rfl⟩; rfl

/-- **What `frame_dig` does**: its index has to be on the stack, which must not be full. -/
theorem opFrameDig_eq_ok (himm : instr.immediates = .uint8 raw) (hcalls : m.callStack = frame :: frames)
    (hlies : frame.Lies) :
    opFrameDig instr m = .ok () m' ↔
      signedByte raw ≠ -128 ∧ 0 ≤ frame.framePointer + signedByte raw ∧ m.data.stack.length < maxStackDepth ∧
        ∃ v, m.data.stack[(frame.framePointer + signedByte raw).toNat]? = some v ∧
          m' = { m with data := { m.data with stack := m.data.stack ++ [v] } } := by
  unfold opFrameDig
  rw [Run.state_bind_eq_ok]
  constructor
  · rintro ⟨r, m₁, haccess, h⟩
    rw [frameAccess_of_frame himm hcalls] at haccess
    cases haccess
    rw [Run.state_bind_eq_ok] at h
    obtain ⟨idx, m₂, hindex, h⟩ := h
    obtain ⟨hidx, rfl⟩ := ofExcept_eq_ok.1 hindex
    rw [Run.state_bind_eq_ok] at h
    obtain ⟨m₀, m₃, hget, h⟩ := h
    cases hget
    obtain ⟨hleast, hsum⟩ := (frameIndex_eq_ok hlies.1).1 hidx
    have hnat : (frame.framePointer + signedByte raw).toNat = idx := by omega
    cases hval : m₂.data.stack[idx]? with
    | none => simp only [hval] at h; cases h
    | some v =>
      simp only [hval] at h
      obtain ⟨d, hd, rfl⟩ := onData_eq_ok.1 h
      obtain ⟨hroom, rfl⟩ := push_eq_ok.1 hd
      exact ⟨hleast, by omega, hroom, v, by rw [hnat, hval], rfl⟩
  · rintro ⟨hleast, hsum, hroom, v, hval, rfl⟩
    refine ⟨_, m, frameAccess_of_frame himm hcalls, ?_⟩
    refine Run.state_bind_eq_ok.2 ⟨(frame.framePointer + signedByte raw).toNat, m, ?_, ?_⟩
    · exact ofExcept_eq_ok.2 ⟨(frameIndex_eq_ok hlies.1).2 ⟨hleast, by omega⟩, rfl⟩
    · refine Run.state_bind_eq_ok.2 ⟨m, m, rfl, ?_⟩
      simp only [hval]
      exact onData_eq_ok.2 ⟨_, push_eq_ok.2 ⟨hroom, rfl⟩, rfl⟩

/-- **What `frame_bury` does**: its index has to be on the stack from which its value has been popped. -/
theorem opFrameBury_eq_ok (himm : instr.immediates = .uint8 raw) (hcalls : m.callStack = frame :: frames)
    (hlies : frame.Lies) :
    opFrameBury instr m = .ok () m' ↔
      signedByte raw ≠ -128 ∧ 0 ≤ frame.framePointer + signedByte raw ∧
        frame.framePointer + signedByte raw < (m.data.stack.length - 1 : Nat) ∧
        ∃ v, m.data.stack.getLast? = some v ∧ m' = { m with data := { m.data with
          stack := m.data.stack.dropLast.set (frame.framePointer + signedByte raw).toNat v } } := by
  unfold opFrameBury
  rw [Run.state_bind_eq_ok]
  constructor
  · rintro ⟨r, m₁, haccess, h⟩
    rw [frameAccess_of_frame himm hcalls] at haccess
    cases haccess
    rw [Run.state_bind_eq_ok] at h
    obtain ⟨v, m₂, hpop, h⟩ := h
    obtain ⟨d, hd, rfl⟩ := onData_eq_ok.1 hpop
    obtain ⟨hlast, rfl⟩ := pop_eq_ok hd
    rw [Run.state_bind_eq_ok] at h
    obtain ⟨idx, m₃, hindex, h⟩ := h
    obtain ⟨hidx, rfl⟩ := ofExcept_eq_ok.1 hindex
    rw [Run.state_bind_eq_ok] at h
    obtain ⟨m₀, m₄, hget, h⟩ := h
    cases hget
    obtain ⟨hleast, hsum⟩ := (frameIndex_eq_ok hlies.1).1 hidx
    have hnat : (frame.framePointer + signedByte raw).toNat = idx := by omega
    by_cases hrange : idx ≥ m.data.stack.dropLast.length
    · simp only [hrange, if_true] at h; cases h
    · simp only [hrange, if_false] at h
      cases h
      rw [List.length_dropLast] at hrange
      refine ⟨hleast, by omega, by omega, v, hlast, ?_⟩
      rw [hnat]
  · rintro ⟨hleast, hsum, hrange, v, hlast, rfl⟩
    let popped : Machine := { m with data := { m.data with stack := m.data.stack.dropLast } }
    refine ⟨_, m, frameAccess_of_frame himm hcalls, ?_⟩
    refine Run.state_bind_eq_ok.2 ⟨v, popped, ?_, ?_⟩
    · refine onData_eq_ok.2 ⟨_, ?_, rfl⟩
      refine Run.state_bind_eq_ok.2 ⟨m.data, m.data, rfl, ?_⟩
      rw [hlast]
      rfl
    · refine Run.state_bind_eq_ok.2 ⟨(frame.framePointer + signedByte raw).toNat, popped, ?_, ?_⟩
      · exact ofExcept_eq_ok.2 ⟨(frameIndex_eq_ok hlies.1).2 ⟨hleast, by omega⟩, rfl⟩
      · refine Run.state_bind_eq_ok.2 ⟨popped, popped, rfl, ?_⟩
        have hin : ¬ (frame.framePointer + signedByte raw).toNat ≥ popped.data.stack.length := by
          show ¬ (frame.framePointer + signedByte raw).toNat ≥ m.data.stack.dropLast.length
          rw [List.length_dropLast]
          omega
        rw [if_neg hin]
        rfl

theorem opFrameDig_succeeds (himm : instr.immediates = .uint8 raw) (hcalls : m.callStack = frame :: frames)
    (hlies : frame.Lies) :
    (∃ m', opFrameDig instr m = .ok () m') ↔ signedByte raw ≠ -128 ∧ 0 ≤ frame.framePointer + signedByte raw ∧
      frame.framePointer + signedByte raw < m.data.stack.length ∧ m.data.stack.length < maxStackDepth := by
  constructor
  · rintro ⟨m', h⟩
    obtain ⟨hleast, hsum, hroom, v, hval, -⟩ := (opFrameDig_eq_ok himm hcalls hlies).1 h
    have hlt := (List.getElem?_eq_some_iff.1 hval).1
    exact ⟨hleast, hsum, by omega, hroom⟩
  · rintro ⟨hleast, hsum, hlt, hroom⟩
    have hin : (frame.framePointer + signedByte raw).toNat < m.data.stack.length := by omega
    exact ⟨_, (opFrameDig_eq_ok himm hcalls hlies).2 ⟨hleast, hsum, hroom, _, List.getElem?_eq_getElem hin, rfl⟩⟩

theorem opFrameBury_succeeds (himm : instr.immediates = .uint8 raw) (hcalls : m.callStack = frame :: frames)
    (hlies : frame.Lies) :
    (∃ m', opFrameBury instr m = .ok () m') ↔ signedByte raw ≠ -128 ∧ 0 ≤ frame.framePointer + signedByte raw ∧
      frame.framePointer + signedByte raw < (m.data.stack.length - 1 : Nat) := by
  constructor
  · rintro ⟨m', h⟩
    obtain ⟨hleast, hsum, hlt, -⟩ := (opFrameBury_eq_ok himm hcalls hlies).1 h
    exact ⟨hleast, hsum, hlt⟩
  · rintro ⟨hleast, hsum, hlt⟩
    have hne : m.data.stack ≠ [] := by
      intro hnil
      rw [hnil] at hlt
      simp at hlt
      omega
    exact ⟨_, (opFrameBury_eq_ok himm hcalls hlies).2 ⟨hleast, hsum, hlt, _, List.getLast?_eq_some_getLast hne, rfl⟩⟩

end Access

/-! ## Runs -/

section Run

variable {σ : Type} (prims : Primitives) (ctx : Context σ)

/-- An offset that a frame access takes exactly where it lies above the declared arguments. -/
def CallFrame.Tells (frame : CallFrame) (i : Int) : Prop := i ≠ -128 ↔ -(frame.args : Int) ≤ i

/-- **Frame access is confined exactly where the stack happens to confine it**: in every state that a run of any program
reaches, within a subroutine that has declared its arguments, the accesses through the frame reach what they should
exactly if the slot is not on the stack, or the offset is not below the arguments and not the least byte, or it is both. -/
theorem frameAccess_confined_iff (program : Program) (mode : ExecMode) (budget : Int) (c : σ)
    (visited : List (Machine × σ)) (s : Machine × σ)
    (hrun : Visits (operations prims ctx) (Machine.new program mode budget, c) visited s)
    (frame : CallFrame) (frames : List CallFrame) (hcalls : s.1.callStack = frame :: frames) (hclear : frame.clear = true)
    (instr : Instruction) (raw : UInt8) (himm : instr.immediates = .uint8 raw) :
    (DigConfined s.1 frame instr (signedByte raw) ↔
      (0 ≤ frame.framePointer + signedByte raw → frame.framePointer + signedByte raw < s.1.data.stack.length →
        s.1.data.stack.length < maxStackDepth → frame.Tells (signedByte raw))) ∧
    (BuryConfined s.1 frame instr (signedByte raw) ↔
      (0 ≤ frame.framePointer + signedByte raw →
        frame.framePointer + signedByte raw < (s.1.data.stack.length - 1 : Nat) → frame.Tells (signedByte raw))) := by
  obtain ⟨_, -, hhealthy⟩ := run_healthy prims ctx hrun
  have hlies : frame.Lies := hhealthy.frames frame (by rw [hcalls]; exact List.mem_cons_self)
  have hargs := hlies.2 hclear
  have hvalue : ∀ m', opFrameDig instr s.1 = .ok () m' →
      ∃ v, s.1.data.stack[(frame.framePointer + signedByte raw).toNat]? = some v ∧
        m' = { s.1 with data := { s.1.data with stack := s.1.data.stack ++ [v] } } := by
    intro m' h
    obtain ⟨-, -, -, hval⟩ := (opFrameDig_eq_ok himm hcalls hlies).1 h
    exact hval
  have hslot : ∀ m', opFrameBury instr s.1 = .ok () m' → ∃ v, s.1.data.stack.getLast? = some v ∧
      m' = { s.1 with data := { s.1.data with
        stack := s.1.data.stack.dropLast.set (frame.framePointer + signedByte raw).toNat v } } := by
    intro m' h
    obtain ⟨-, -, -, hval⟩ := (opFrameBury_eq_ok himm hcalls hlies).1 h
    exact hval
  have hdig := opFrameDig_succeeds himm hcalls hlies
  have hbury := opFrameBury_succeeds himm hcalls hlies
  unfold DigConfined BuryConfined CallFrame.Tells
  rw [hdig, hbury]
  constructor
  · constructor
    · rintro ⟨hiff, -⟩ hsum hlt hroom
      omega
    · intro htells
      refine ⟨?_, hvalue⟩
      omega
  · constructor
    · rintro ⟨hiff, -⟩ hsum hlt
      omega
    · intro htells
      refine ⟨?_, hslot⟩
      omega

/-- A caller pushes a value and calls a subroutine, which declares its arguments and reads what lies below its frame. -/
def readingProgram (args : UInt8) : Program :=
  ⟨8, [⟨0x81, none, 0, .varuint 7⟩, ⟨0x88, none, 2, .int16 0⟩, ⟨0x8a, none, 5, .uint8Pair args 0⟩,
    ⟨0x8b, none, 8, .uint8 0xff⟩]⟩

/-- The state in which the subroutine has declared its arguments. -/
theorem readingProgram_declares (args : UInt8) (hargs : args ∈ [0, 1]) :
    ∃ visited s, Visits bareOperations (Machine.new (readingProgram args) .application 700, ()) visited s ∧
      s.1.callStack = [⟨2, 1, true, args.toNat, 0⟩] ∧ s.1.data.stack = [.uint 7] := by
  have hsteps : Run.okAnd (fun s₁ => Run.okAnd (fun s₂ => Run.okAnd (fun s =>
      decide (s.1.callStack = [⟨2, 1, true, args.toNat, 0⟩] ∧ s.1.data.stack = [.uint 7]))
      (step bareOperations s₂)) (step bareOperations s₁))
      (step bareOperations (Machine.new (readingProgram args) .application 700, ())) = true := by
    revert args
    decide +kernel
  obtain ⟨_, s₁, hfirst, hsteps⟩ := Run.ok_of_okAnd hsteps
  obtain ⟨_, s₂, hsecond, hsteps⟩ := Run.ok_of_okAnd hsteps
  obtain ⟨_, s, hthird, hs⟩ := Run.ok_of_okAnd hsteps
  exact ⟨_, s, ((Path.nil.snoc (e := ()) ⟨hfirst, rfl⟩).snoc (e := ()) ⟨hsecond, rfl⟩).snoc (e := ()) ⟨hthird, rfl⟩,
    of_decide_eq_true hs⟩

set_option maxRecDepth 20000 in
/-- A subroutine reads its own argument. -/
theorem frameAccess_confined_iff_argument :
    parse [8, 0x81, 7, 0x88, 0, 0, 0x8a, 1, 0, 0x8b, 0xff] = .ok (readingProgram 1) ∧
      ∃ visited s, Visits bareOperations (Machine.new (readingProgram 1) .application 700, ()) visited s ∧
        s.1.callStack = [⟨2, 1, true, 1, 0⟩] ∧ s.1.data.stack = [.uint 7] ∧
        DigConfined s.1 ⟨2, 1, true, 1, 0⟩ ⟨0x8b, none, 8, .uint8 0xff⟩ (-1) := by
  obtain ⟨visited, s, hrun, hcalls, hstack⟩ := readingProgram_declares 1 (by decide)
  refine ⟨by decide, visited, s, hrun, hcalls, hstack, ?_⟩
  have hiff := frameAccess_confined_iff noPrimitives (nullContext fun _ => "") (readingProgram 1) .application 700 ()
    visited s hrun _ _ hcalls rfl ⟨0x8b, none, 8, .uint8 0xff⟩ 0xff rfl
  refine hiff.1.2 fun _ _ _ => ?_
  unfold CallFrame.Tells
  decide

set_option maxRecDepth 20000 in
/-- **A subroutine without arguments reads the value of its caller.** -/
theorem subroutine_reads_caller :
    parse [8, 0x81, 7, 0x88, 0, 0, 0x8a, 0, 0, 0x8b, 0xff] = .ok (readingProgram 0) ∧
      ∃ visited s, Visits bareOperations (Machine.new (readingProgram 0) .application 700, ()) visited s ∧
        s.1.callStack = [⟨2, 1, true, 0, 0⟩] ∧ s.1.data.stack = [.uint 7] ∧
        (∃ m, opFrameDig ⟨0x8b, none, 8, .uint8 0xff⟩ s.1 = .ok () m ∧ m.data.stack = [.uint 7, .uint 7]) ∧
        ¬ DigConfined s.1 ⟨2, 1, true, 0, 0⟩ ⟨0x8b, none, 8, .uint8 0xff⟩ (-1) := by
  obtain ⟨visited, s, hrun, hcalls, hstack⟩ := readingProgram_declares 0 (by decide)
  have hlies : CallFrame.Lies ⟨2, 1, true, 0, 0⟩ := ⟨by decide, fun _ => Nat.zero_le _⟩
  have hdig : opFrameDig ⟨0x8b, none, 8, .uint8 0xff⟩ s.1 =
      .ok () { s.1 with data := { s.1.data with stack := s.1.data.stack ++ [.uint 7] } } := by
    refine (opFrameDig_eq_ok rfl hcalls hlies).2 ⟨by decide, by decide, by rw [hstack]; decide, .uint 7, ?_, rfl⟩
    rw [hstack]
    decide
  refine ⟨by decide, visited, s, hrun, hcalls, hstack, ⟨_, hdig, by rw [hstack]; rfl⟩, ?_⟩
  rintro ⟨hiff, -⟩
  exact absurd (hiff.1 ⟨_, hdig⟩).1 (by decide)

end Run

end Avm
end Algod
