import AlgodRust.Avm.Layout
/-!
# BranchTargets — the layout of a program and the targets of its branches

The validator, the machine and the branches each compute the size of an instruction from its decoded immediate
arguments.  `LayoutAgrees` is that these sizes are the ones the instructions have in the program, that both computations
of its end give its length, and that a branch is accepted if and only if it leads to an instruction or to the end.
-/
namespace Algod
namespace Avm

open Msgpack (Bytes)

/-! ## The validator -/

section Validator

inductive TargetFault
  | notBoundary (offset target : Nat)
  | outside (target : Int)
deriving DecidableEq, Repr

/-- The number of bytes of an opcode. -/
def Instruction.headerLen (instr : Instruction) : Nat := if instr.subOpcode.isSome then 2 else 1

/-- The end of a program as the validator computes it. -/
def checkedEnd (p : Program) : Nat :=
  match p.instructions.getLast? with
  | none => 0
  | some last => last.offset + last.headerLen + immediateByteLen last.immediates

def resolveBranchOffset (instr : Instruction) (offset : Int) (validOffsets : List Nat) (endOffset : Nat) :
    Except TargetFault Nat :=
  let target := instr.relative offset
  if target ∉ validOffsets ∧ target ≠ endOffset then .error (.notBoundary instr.offset target) else .ok target

def resolveVarintBranchOffset (instr : Instruction) (offset : Int) (varintLen : Nat) (validOffsets : List Nat)
    (endOffset : Nat) : Except TargetFault Nat :=
  let target := varintBranchTarget instr.offset varintLen offset
  if target < 0 ∨ target > endOffset then .error (.outside target)
  else if target.toNat ∉ validOffsets ∧ target.toNat ≠ endOffset then .error (.notBoundary instr.offset target.toNat)
  else .ok target.toNat

/-- All branches of a program lead to an instruction or to its end. -/
def checkBranchTargets (p : Program) : Except TargetFault Unit :=
  let validOffsets := p.instructions.map Instruction.offset
  p.instructions.forM fun instr =>
    match instr.immediates with
    | .int16 offset => (resolveBranchOffset instr offset validOffsets (checkedEnd p)).map fun _ => ()
    | .labels offsets =>
      offsets.forM fun offset => (resolveBranchOffset instr offset validOffsets (checkedEnd p)).map fun _ => ()
    | .branchVarint offset varintLen =>
      (resolveVarintBranchOffset instr offset varintLen validOffsets (checkedEnd p)).map fun _ => ()
    | _ => .ok ()

end Validator

/-! ## Branches -/

section Branches

/-- A distance that an instruction may branch over. -/
inductive Branch
  | int16 (offset : Int)
  | label (offset : Int)
  | varint (offset : Int) (length : Nat)
deriving DecidableEq, Repr

def Instruction.branches (instr : Instruction) : List Branch :=
  match instr.immediates with
  | .int16 offset => [.int16 offset]
  | .labels offsets => offsets.map .label
  | .branchVarint offset length => [.varint offset length]
  | _ => []

/-- The byte that a branch leads to.  The immediate arguments of an instruction with `int16` distances have a fixed
length. -/
def Branch.target (instr : Instruction) : Branch → Int
  | .int16 offset | .label offset => (instr.offset + 1 + immediateByteLen instr.immediates : Nat) + offset
  | .varint offset length => varintBranchTarget instr.offset length offset

/-- A branch as the validator resolves it. -/
def Branch.validate (p : Program) (instr : Instruction) : Branch → Except TargetFault Nat
  | .int16 offset | .label offset =>
    resolveBranchOffset instr offset (p.instructions.map Instruction.offset) (checkedEnd p)
  | .varint offset length =>
    resolveVarintBranchOffset instr offset length (p.instructions.map Instruction.offset) (checkedEnd p)

/-- A branch as the machine resolves it. -/
def Branch.resolve (p : Program) (instr : Instruction) : Branch → Except AvmError Nat
  | .int16 offset => getBranchTarget p instr offset
  | .label offset => resolveLabel p instr offset
  | .varint offset length => getVarintBranchTarget p instr offset length

/-- A byte of a program of some size is the start of an instruction, or the end after the last one. -/
def Program.LandsOn (p : Program) (size : Nat) (target : Int) (j : Nat) : Prop :=
  (∃ i, p.instructions[j]? = some i ∧ (i.offset : Int) = target) ∨ j = p.instructions.length ∧ target = size

theorem checkBranchTargets_eq_ok {p : Program} :
    checkBranchTargets p = .ok () ↔ ∀ i ∈ p.instructions, ∀ b ∈ i.branches, ∃ t, b.validate p i = .ok t := by
  unfold checkBranchTargets
  rw [Run.forM_eq_ok]
  apply forall_congr'
  intro i
  apply imp_congr_right
  intro _
  have hmap : ∀ x : Except TargetFault Nat, x.map (fun _ => ()) = .ok () ↔ ∃ t, x = .ok t := by
    intro x
    rw [Run.map_eq_ok]
    simp
  unfold Instruction.branches
  split
  · simp [hmap, Branch.validate]
  · rw [Run.forM_eq_ok]
    simp [hmap, Branch.validate]
  · simp [hmap, Branch.validate]
  · simp

end Branches

/-! ## The layout -/

section Layout

/-- Instructions that start at a position, each after the size that is computed for the one before, and end at
another. -/
def Layout : Nat → List Instruction → Nat → Prop
  | pc, [], stop => pc = stop
  | pc, i :: is, stop => i.offset = pc ∧ Layout (pc + i.headerLen + immediateByteLen i.immediates) is stop

theorem headerLen_pos (i : Instruction) : 1 ≤ i.headerLen := by
  unfold Instruction.headerLen
  split
  · decide
  · decide

theorem Layout.le : ∀ {is : List Instruction} {pc stop : Nat}, Layout pc is stop → pc ≤ stop
  | [], _, _, h => Nat.le_of_eq h
  | _ :: _, _, _, h => by
    have := h.2.le
    omega

theorem Layout.size : ∀ {is : List Instruction} {pc stop : Nat} {i : Instruction}, Layout pc is stop → i ∈ is →
    pc ≤ i.offset ∧ i.offset + i.headerLen + immediateByteLen i.immediates ≤ stop
  | first :: is, pc, stop, i, h, hi => by
    obtain rfl | hi := List.mem_cons.mp hi
    · have := h.2.le
      have := h.1
      omega
    · have := h.2.size hi
      omega

theorem Layout.index_inj : ∀ {is : List Instruction} {pc stop j k : Nat} {a b : Instruction}, Layout pc is stop →
    is[j]? = some a → is[k]? = some b → a.offset = b.offset → j = k
  | [], _, _, _, _, _, _, _, ha, _, _ => nomatch ha
  | first :: is, pc, stop, j, k, a, b, h, ha, hb, hab => by
    have hpos := headerLen_pos first
    have hlater : ∀ {c : Instruction}, c ∈ is → first.offset < c.offset := by
      intro c hc
      have := (h.2.size hc).1
      have := h.1
      omega
    cases j with
    | zero =>
      rw [List.getElem?_cons_zero, Option.some.injEq] at ha
      cases k with
      | zero => rfl
      | succ k =>
        rw [List.getElem?_cons_succ] at hb
        have := hlater (List.mem_of_getElem? hb)
        rw [ha] at this
        omega
    | succ j =>
      rw [List.getElem?_cons_succ] at ha
      cases k with
      | zero =>
        rw [List.getElem?_cons_zero, Option.some.injEq] at hb
        have := hlater (List.mem_of_getElem? ha)
        rw [hb] at this
        omega
      | succ k =>
        rw [List.getElem?_cons_succ] at hb
        rw [h.2.index_inj ha hb hab]

theorem Layout.last : ∀ {is : List Instruction} {pc stop : Nat} {i : Instruction}, Layout pc is stop →
    is.getLast? = some i → i.offset + i.headerLen + immediateByteLen i.immediates = stop
  | [], _, _, _, _, hlast => nomatch hlast
  | [first], pc, stop, i, h, hlast => by
    rw [List.getLast?_singleton, Option.some.injEq] at hlast
    subst hlast
    rw [h.1]
    exact h.2
  | _ :: second :: is, pc, stop, i, h, hlast => by
    rw [List.getLast?_cons_cons] at hlast
    exact h.2.last hlast

variable {p : Program} {size : Nat}

theorem Layout.checkedEnd (h : Layout 0 p.instructions size) : checkedEnd p = size := by
  unfold Avm.checkedEnd
  split
  · next hnone =>
    rw [List.getLast?_eq_none_iff.mp hnone] at h
    exact h
  · next last hlast => exact h.last hlast

theorem offsetToIndex_eq_some {t j : Nat} (h : Layout 0 p.instructions size) :
    p.offsetToIndex t = some j ↔ ∃ i, p.instructions[j]? = some i ∧ i.offset = t := by
  have hsound : ∀ {j}, p.offsetToIndex t = some j → ∃ i, p.instructions[j]? = some i ∧ i.offset = t := by
    intro j hj
    have hfound := List.find?_some hj
    rw [Option.any_eq_true] at hfound
    obtain ⟨i, hi, hoffset⟩ := hfound
    exact ⟨i, hi, by simpa using hoffset⟩
  refine ⟨hsound, ?_⟩
  rintro ⟨i, hi, rfl⟩
  cases hfind : p.offsetToIndex i.offset with
  | none =>
    unfold Program.offsetToIndex at hfind
    rw [List.find?_eq_none] at hfind
    have hlt := (List.getElem?_eq_some_iff.mp hi).1
    have hno := hfind j (List.mem_reverse.mpr (List.mem_range.mpr hlt))
    rw [hi] at hno
    simp at hno
  | some k =>
    obtain ⟨i', hi', hoffset⟩ := hsound hfind
    rw [h.index_inj hi' hi hoffset]

theorem instructionAt_eq_some {t j : Nat} (h : Layout 0 p.instructions size) (hend : p.endOffset = size) :
    p.instructionAt t = some j ↔ p.LandsOn size t j := by
  have hindex : ∀ k, p.offsetToIndex t = some k ↔ _ := fun k => offsetToIndex_eq_some h
  unfold Program.instructionAt Program.LandsOn
  simp only [Nat.cast_inj]
  cases hfind : p.offsetToIndex t with
  | none =>
    simp only [hfind, reduceCtorEq, false_iff] at hindex
    simp only [hindex j, false_or, hend]
    split
    · next ht => simp [ht, eq_comm]
    · next ht => simp [ht]
  | some k =>
    have hk := (hindex k).mp hfind
    rw [hfind] at hindex
    simp only [Option.some.injEq]
    constructor
    · rintro rfl
      exact .inl hk
    · rintro (hj | ⟨-, ht⟩)
      · exact Option.some.inj ((hindex j).mpr hj)
      · obtain ⟨i, hi, hoffset⟩ := hk
        have := (h.size (List.mem_of_getElem? hi)).2
        have := headerLen_pos i
        omega

/-- No byte outside the program is a boundary. -/
theorem Program.LandsOn.range {target : Int} {j : Nat} (hlayout : Layout 0 p.instructions size)
    (h : p.LandsOn size target j) : 0 ≤ target ∧ target ≤ size := by
  obtain ⟨i, hi, rfl⟩ | ⟨-, rfl⟩ := h
  · have := (hlayout.size (List.mem_of_getElem? hi)).2
    omega
  · omega

variable {i : Instruction} {offset : Int}

/-- A distance of 16 bits leads to the byte it should, or far past the end. -/
theorem relative_cases (hlayout : Layout 0 p.instructions size)
    (hi : i ∈ p.instructions) (hsize : size < 2 ^ 63) (hmin : -32768 ≤ offset) (hmax : offset < 32768) :
    (i.relative offset : Int) = (i.offset + 1 + immediateByteLen i.immediates : Nat) + offset ∨
      size < i.relative offset ∧ ((i.offset + 1 + immediateByteLen i.immediates : Nat) : Int) + offset < 0 := by
  have hend := (hlayout.size hi).2
  have hheader := headerLen_pos i
  unfold Instruction.relative
  generalize hafter : i.offset + 1 + immediateByteLen i.immediates = after
  rw [show (u64Bound : Int) = 18446744073709551616 from rfl]
  by_cases hneg : (after : Int) + offset < 0
  · right
    omega
  · left
    omega

theorem lands_relative {j : Nat} (hlayout : Layout 0 p.instructions size)
    (hi : i ∈ p.instructions) (hsize : size < 2 ^ 63) (hmin : -32768 ≤ offset) (hmax : offset < 32768) :
    p.LandsOn size (i.relative offset) j ↔
      p.LandsOn size ((i.offset + 1 + immediateByteLen i.immediates : Nat) + offset) j := by
  obtain heq | ⟨hpast, hneg⟩ := relative_cases hlayout hi hsize hmin hmax
  · rw [heq]
  · constructor
    · intro h
      have := h.range hlayout
      omega
    · intro h
      have := h.range hlayout
      omega

/-- The validator accepts a byte if and only if it is a boundary. -/
theorem boundary_iff (hlayout : Layout 0 p.instructions size) {t : Nat} :
    (t ∈ p.instructions.map Instruction.offset ∨ t = checkedEnd p) ↔ ∃ j, p.LandsOn size t j := by
  rw [hlayout.checkedEnd]
  unfold Program.LandsOn
  simp only [Nat.cast_inj, exists_or, exists_eq_left, List.mem_map]
  apply or_congr_left
  constructor
  · rintro ⟨i, hi, hoffset⟩
    obtain ⟨j, hj⟩ := List.mem_iff_getElem?.mp hi
    exact ⟨j, i, hj, hoffset⟩
  · rintro ⟨j, i, hj, hoffset⟩
    exact ⟨i, List.mem_of_getElem? hj, hoffset⟩

theorem resolveBranchOffset_eq_ok {t : Nat} (hlayout : Layout 0 p.instructions size)
    (hi : i ∈ p.instructions) (hsize : size < 2 ^ 63) (hmin : -32768 ≤ offset) (hmax : offset < 32768) :
    resolveBranchOffset i offset (p.instructions.map Instruction.offset) (checkedEnd p) = .ok t ↔
      (t : Int) = (i.offset + 1 + immediateByteLen i.immediates : Nat) + offset ∧
        ∃ j, p.LandsOn size ((i.offset + 1 + immediateByteLen i.immediates : Nat) + offset) j := by
  have hlands := fun j => lands_relative (j := j) hlayout hi hsize hmin hmax
  simp only [← hlands, ← boundary_iff hlayout]
  unfold resolveBranchOffset
  simp only
  by_cases hboundary : i.relative offset ∈ p.instructions.map Instruction.offset ∨ i.relative offset = checkedEnd p
  · obtain ⟨j, hj⟩ := (boundary_iff hlayout).mp hboundary
    have hrange := ((hlands j).mp hj).range hlayout
    obtain heq | ⟨-, hneg⟩ := relative_cases hlayout hi hsize hmin hmax
    · rw [if_neg (by tauto), ← heq, Nat.cast_inj, Except.ok.injEq]
      simp only [hboundary, and_true]
      exact eq_comm
    · omega
  · rw [if_pos (by tauto)]
    simp only [hboundary, and_false, reduceCtorEq]

theorem resolveVarintBranchOffset_eq_ok {length t : Nat} (hlayout : Layout 0 p.instructions size) :
    resolveVarintBranchOffset i offset length (p.instructions.map Instruction.offset) (checkedEnd p) = .ok t ↔
      (t : Int) = varintBranchTarget i.offset length offset ∧
        ∃ j, p.LandsOn size (varintBranchTarget i.offset length offset) j := by
  unfold resolveVarintBranchOffset
  simp only [hlayout.checkedEnd]
  generalize varintBranchTarget i.offset length offset = target
  by_cases hout : target < 0 ∨ target > size
  · rw [if_pos hout]
    simp only [reduceCtorEq, false_iff]
    rintro ⟨-, j, hj⟩
    have := hj.range hlayout
    omega
  · have hcast : (target.toNat : Int) = target := by omega
    have hboundary := boundary_iff hlayout (t := target.toNat)
    rw [hlayout.checkedEnd, hcast] at hboundary
    rw [if_neg hout, ← hboundary]
    by_cases hmem : target.toNat ∈ p.instructions.map Instruction.offset ∨ target.toNat = size
    · rw [if_neg (by tauto), Except.ok.injEq]
      simp only [hmem, and_true]
      omega
    · rw [if_pos (by tauto)]
      simp only [hmem, and_false, reduceCtorEq]

end Layout

/-! ## What the parser reads -/

section Parsed

/-- A distance of 16 bits. -/
def Branch.Small : Branch → Prop
  | .int16 offset | .label offset => -32768 ≤ offset ∧ offset < 32768
  | .varint _ _ => True

variable {instr : Instruction}

theorem parseImmediates_small {code : Bytes} {pos : Nat} {kind : ImmKind} {name : String} {version : Nat} {consumed : Nat}
    (h : parseImmediates code pos kind name version = .ok (instr.immediates, consumed)) :
    ∀ b ∈ instr.branches, b.Small := by
  unfold Instruction.branches
  generalize instr.immediates = immediates at h ⊢
  cases kind with
  | int16 =>
    obtain ⟨v, hv, h⟩ := Run.bind_eq_ok.mp h
    cases h
    have := (readInt16_eq_ok (liftError_eq_ok.mp hv)).2
    simpa [Branch.Small] using this
  | labels =>
    obtain ⟨⟨offsets, n⟩, hr, h⟩ := Run.bind_eq_ok.mp h
    cases h
    have := (readLabels_eq_ok (liftError_eq_ok.mp hr)).2.2
    simpa [Branch.Small] using this
  | none =>
    cases h
    simp
  | uint8 =>
    obtain ⟨a, -, h⟩ := Run.bind_eq_ok.mp h
    cases h
    simp
  | uint8Uint8 =>
    obtain ⟨a, -, h⟩ := Run.bind_eq_ok.mp h
    obtain ⟨b, -, h⟩ := Run.bind_eq_ok.mp h
    cases h
    simp
  | uint8Uint8Uint8 =>
    obtain ⟨a, -, h⟩ := Run.bind_eq_ok.mp h
    obtain ⟨b, -, h⟩ := Run.bind_eq_ok.mp h
    obtain ⟨c, -, h⟩ := Run.bind_eq_ok.mp h
    cases h
    simp
  | varuintBytes =>
    obtain ⟨r, -, h⟩ := Run.bind_eq_ok.mp h
    obtain ⟨bs, -, h⟩ := Run.bind_eq_ok.mp h
    cases h
    simp
  | branchVarint =>
    obtain ⟨r, -, h⟩ := Run.bind_eq_ok.mp h
    cases h
    simp [Branch.Small]
  | varuint | intcBlock | bytecBlock | pushInts | pushBytess =>
    obtain ⟨r, -, h⟩ := Run.bind_eq_ok.mp h
    cases h
    simp

variable {version : Nat} {code : Bytes}

/-- An instruction that was read: the size computed for it is the number of its bytes, unless a number is padded. -/
theorem parseInstruction_measured {pc next : Nat} {byte : UInt8} (hbyte : code[pc]? = some byte)
    (h : parseInstruction version code pc byte = .ok (instr, next)) :
    ∃ spec headerLen, Opens version code pc byte spec headerLen ∧ instr.offset = pc ∧ instr.headerLen = headerLen ∧
      Measured code (numbersAt code (pc + headerLen) (immKind version byte spec))
        (pc + headerLen + immediateByteLen instr.immediates) next := by
  obtain ⟨spec, headerLen, consumed, hopens, -, htaken, -, hoffset, hsub, rfl⟩ := parseInstruction_eq_ok hbyte h
  refine ⟨spec, headerLen, hopens, hoffset, ?_, (Measured.plain _).append htaken.measured⟩
  unfold Instruction.headerLen
  rw [hsub]
  obtain ⟨rfl, -⟩ | ⟨rfl, -, -, sub, hsecond⟩ := hopens.header
  · rfl
  · simp [hsecond]

/-- No instruction from a position on has a padded number. -/
def Unpadded (version : Nat) (code : Bytes) (pc : Nat) : Prop :=
  ∀ instructions pc' byte spec headerLen, Reads version code pc instructions pc' →
    Opens version code pc' byte spec headerLen →
      ∀ q ∈ numbersAt code (pc' + headerLen) (immKind version byte spec), ¬ Padded code q

theorem Opens.unique {pc : Nat} {byte byte' : UInt8} {spec spec' : OpSpec} {headerLen headerLen' : Nat}
    (h : Opens version code pc byte spec headerLen) (h' : Opens version code pc byte' spec' headerLen') :
    byte = byte' ∧ spec = spec' ∧ headerLen = headerLen' := by
  have hbyte := h.first.symm.trans h'.first
  cases hbyte
  have hresolved := h.resolved.symm.trans h'.resolved
  cases hresolved
  exact ⟨rfl, rfl, rfl⟩

/-- Padding is absent from an instruction and from those after it. -/
theorem unpadded_cons {pc next : Nat} {byte : UInt8} {spec : OpSpec} {headerLen : Nat}
    (hparse : parseInstruction version code pc byte = .ok (instr, next))
    (hopens : Opens version code pc byte spec headerLen) :
    Unpadded version code pc ↔
      (∀ q ∈ numbersAt code (pc + headerLen) (immKind version byte spec), ¬ Padded code q) ∧
        Unpadded version code next := by
  constructor
  · intro h
    refine ⟨h [] pc byte spec headerLen (.nil pc) hopens, ?_⟩
    intro instructions pc' byte' spec' headerLen' hreads
    exact h (instr :: instructions) pc' byte' spec' headerLen' (.cons hopens.first hparse hreads)
  · rintro ⟨hhere, hafter⟩ instructions pc' byte' spec' headerLen' hreads hopens'
    cases hreads with
    | nil =>
      obtain ⟨rfl, rfl, rfl⟩ := hopens.unique hopens'
      exact hhere
    | cons hfirst hparse' hreads =>
      have hbyte := hopens.first.symm.trans hfirst
      cases hbyte
      rw [hparse] at hparse'
      cases hparse'
      exact hafter _ pc' byte' spec' headerLen' hreads hopens'

variable {is : List Instruction}

theorem Layout.start {pc pc' stop : Nat} (h : Layout pc is stop)
    (hreads : Reads version code pc' is stop) : pc = pc' := by
  cases hreads with
  | nil => exact h
  | cons hfirst hparse _ =>
    obtain ⟨_, _, _, hoffset, _, _⟩ := parseInstruction_measured hfirst hparse
    rw [← hoffset]
    exact h.1.symm

/-- **The computed sizes are right** if and only if no number of the instructions is padded. -/
theorem Reads.layout_iff {pc : Nat} (h : Reads version code pc is code.length) :
    Layout pc is code.length ↔ Unpadded version code pc := by
  generalize hstop : code.length = stop at h
  induction h with
  | nil pc =>
    subst hstop
    simp only [Layout, true_iff]
    intro instructions pc' byte spec headerLen hreads hopens
    have hlt := (List.getElem?_eq_some_iff.mp hopens.first).1
    cases hreads with
    | nil => omega
    | cons hfirst _ _ =>
      have := (List.getElem?_eq_some_iff.mp hfirst).1
      omega
  | @cons pc next stop byte instr rest hfirst hparse hafter ih =>
    obtain ⟨spec, headerLen, hopens, hoffset, hheader, hmeasured⟩ := parseInstruction_measured hfirst hparse
    rw [unpadded_cons hparse hopens, ← hmeasured.eq_iff, ← ih hstop]
    show instr.offset = pc ∧ Layout (pc + instr.headerLen + immediateByteLen instr.immediates) rest stop ↔ _
    rw [hheader]
    constructor
    · rintro ⟨-, hlayout⟩
      have hsize := hlayout.start hafter
      rw [hsize] at hlayout ⊢
      exact ⟨rfl, hlayout⟩
    · rintro ⟨hsize, hlayout⟩
      rw [hsize]
      exact ⟨hoffset, hlayout⟩

/-- The parser accepts only one sequence of instructions. -/
theorem Reads.split {before is : List Instruction} {pc pc' : Nat} (h : Reads version code pc before pc')
    (hall : Reads version code pc is code.length) : ∃ rest, is = before ++ rest ∧
      Reads version code pc' rest code.length := by
  induction h generalizing is with
  | nil pc => exact ⟨is, rfl, hall⟩
  | @cons pc next pc' byte instr before hfirst hparse _ ih =>
    have hlt := (List.getElem?_eq_some_iff.mp hfirst).1
    generalize hstop : code.length = stop at hall
    cases hall with
    | nil => omega
    | cons hfirst' hparse' hafter =>
      have hbyte := hfirst.symm.trans hfirst'
      cases hbyte
      rw [hparse] at hparse'
      cases hparse'
      obtain ⟨rest, rfl, hrest⟩ := ih (by rw [hstop]; exact hafter)
      exact ⟨rest, rfl, by rwa [← hstop]⟩

theorem Reads.last {pc stop : Nat} {i : Instruction} (h : Reads version code pc is stop)
    (hlast : is.getLast? = some i) :
    ∃ before byte, Reads version code pc before i.offset ∧ code[i.offset]? = some byte ∧
      parseInstruction version code i.offset byte = .ok (i, stop) := by
  induction h with
  | nil => cases hlast
  | @cons pc next stop byte instr rest hfirst hparse hafter ih =>
    cases rest with
    | nil =>
      rw [List.getLast?_singleton, Option.some.injEq] at hlast
      subst hlast
      obtain ⟨_, _, _, hoffset, _, _⟩ := parseInstruction_measured hfirst hparse
      cases hafter
      rw [hoffset]
      exact ⟨[], byte, .nil _, hfirst, hparse⟩
    | cons second rest =>
      rw [List.getLast?_cons_cons] at hlast
      obtain ⟨before, byte', hreads, hbyte, hlast⟩ := ih hlast
      exact ⟨instr :: before, byte', .cons hfirst hparse hreads, hbyte, hlast⟩

/-- An instruction of two bytes is a prefix, and nothing follows them. -/
theorem parseInstruction_prefix_iff {pc next : Nat} {byte : UInt8} (hbyte : code[pc]? = some byte)
    (h : parseInstruction version code pc byte = .ok (instr, next)) :
    (instr.headerLen = 1 ↔ byte ≠ 0xd4) ∧ (byte = 0xd4 → next = pc + 2) := by
  obtain ⟨spec, headerLen, hopens, -, hheader, -⟩ := parseInstruction_measured hbyte h
  obtain ⟨spec', headerLen', consumed, hopens', himm, -, -, -, -, rfl⟩ := parseInstruction_eq_ok hbyte h
  obtain ⟨-, rfl, rfl⟩ := hopens.unique hopens'
  rw [hheader]
  obtain ⟨rfl, hplain⟩ | ⟨rfl, hsub, hkind, -⟩ := hopens.header
  · exact ⟨by simp [hplain], fun h => absurd h hplain⟩
  · rw [hkind] at himm
    have hconsumed : consumed = 0 := (Prod.ext_iff.mp (Except.ok.inj himm)).2.symm
    exact ⟨by simp [hsub], fun _ => by rw [hconsumed]⟩

/-- The last instruction of a program is not a prefix with its second byte. -/
def EndsPlain (version : Nat) (code : Bytes) : Prop :=
  ∀ instructions, Reads version code 0 instructions (code.length - 2) → code[code.length - 2]? ≠ some 0xd4

/-- The machine computes the end of a program without looking for a prefix. -/
theorem Reads.endOffset_iff {p : Program} (h : Reads version code 0 p.instructions code.length)
    (hlayout : Layout 0 p.instructions code.length) : p.endOffset = code.length ↔ EndsPlain version code := by
  have hend : p.endOffset = code.length ↔ ∀ last, p.instructions.getLast? = some last → last.headerLen = 1 := by
    unfold Program.endOffset
    split
    · next hnone =>
      rw [List.getLast?_eq_none_iff.mp hnone] at hlayout
      simp only [hnone, reduceCtorEq, false_implies, implies_true, iff_true]
      exact hlayout
    · next last hlast =>
      have := hlayout.last hlast
      simp only [hlast, Option.some.injEq, forall_eq']
      omega
  rw [hend]
  constructor
  · intro hplain instructions hreads hbyte
    obtain ⟨rest, hsplit, hrest⟩ := hreads.split h
    have hlt := (List.getElem?_eq_some_iff.mp hbyte).1
    generalize hstop : code.length = stop at hrest
    generalize hpc : code.length - 2 = pc at hbyte hlt
    rw [← hstop, hpc, hstop] at hrest
    cases hrest with
    | nil => omega
    | @cons _ next _ byte' instr rest hfirst hparse hafter =>
      have hsame := hbyte.symm.trans hfirst
      cases hsame
      obtain ⟨hheader, hnext⟩ := parseInstruction_prefix_iff hfirst hparse
      have hfits := (parseInstruction_next hfirst hparse).2
      have hnil : rest = [] := by
        cases hafter with
        | nil => rfl
        | cons hfirst' _ _ =>
          have := (List.getElem?_eq_some_iff.mp hfirst').1
          have := hnext rfl
          omega
      have hone := hplain instr (by rw [hsplit, hnil, List.getLast?_concat])
      exact hheader.mp hone rfl
  · intro hplain last hlast
    obtain ⟨before, byte, hreads, hbyte, hparse⟩ := h.last hlast
    obtain ⟨hheader, hnext⟩ := parseInstruction_prefix_iff hbyte hparse
    rw [hheader]
    rintro rfl
    have hoffset : last.offset = code.length - 2 := by
      have := hnext rfl
      omega
    rw [hoffset] at hreads hbyte
    exact hplain before hreads hbyte

end Parsed

/-! ## Layout and branches -/

section Agrees

/-- The layout of a program and the targets of its branches agree with its bytes. -/
structure LayoutAgrees (p : Program) (code : Bytes) : Prop where
  layout : Layout 0 p.instructions code.length
  ends : p.endOffset = code.length
  validates : ∀ i ∈ p.instructions, ∀ b ∈ i.branches, ∀ t : Nat,
    b.validate p i = .ok t ↔ (t : Int) = b.target i ∧ ∃ j, p.LandsOn code.length (b.target i) j
  checks : checkBranchTargets p = .ok () ↔
    ∀ i ∈ p.instructions, ∀ b ∈ i.branches, ∃ j, p.LandsOn code.length (b.target i) j
  resolves : ∀ i ∈ p.instructions, ∀ b ∈ i.branches, ∀ j,
    b.resolve p i = .ok j ↔ p.LandsOn code.length (b.target i) j

variable {p : Program} {size : Nat} {i : Instruction} {b : Branch}

theorem Branch.validate_eq_ok {t : Nat} (hlayout : Layout 0 p.instructions size) (hi : i ∈ p.instructions)
    (hsize : size < 2 ^ 63) (hsmall : b.Small) :
    b.validate p i = .ok t ↔ (t : Int) = b.target i ∧ ∃ j, p.LandsOn size (b.target i) j := by
  cases b with
  | int16 offset => exact resolveBranchOffset_eq_ok hlayout hi hsize hsmall.1 hsmall.2
  | label offset => exact resolveBranchOffset_eq_ok hlayout hi hsize hsmall.1 hsmall.2
  | varint offset length => exact resolveVarintBranchOffset_eq_ok hlayout

theorem Branch.resolve_eq_ok {j : Nat} (hlayout : Layout 0 p.instructions size) (hend : p.endOffset = size)
    (hi : i ∈ p.instructions) (hsize : size < 2 ^ 63) (hsmall : b.Small) :
    b.resolve p i = .ok j ↔ p.LandsOn size (b.target i) j := by
  cases b with
  | int16 offset =>
    show getBranchTarget p i offset = .ok j ↔ p.LandsOn size ((i.offset + 1 + immediateByteLen i.immediates : Nat) + offset) j
    rw [← lands_relative hlayout hi hsize hsmall.1 hsmall.2, ← instructionAt_eq_some hlayout hend]
    unfold getBranchTarget
    cases p.instructionAt (i.relative offset) with
    | none => simp
    | some k => simp
  | label offset =>
    show resolveLabel p i offset = .ok j ↔ p.LandsOn size ((i.offset + 1 + immediateByteLen i.immediates : Nat) + offset) j
    rw [← lands_relative hlayout hi hsize hsmall.1 hsmall.2, ← instructionAt_eq_some hlayout hend]
    unfold resolveLabel
    cases p.instructionAt (i.relative offset) with
    | none => simp
    | some k => simp
  | varint offset length =>
    show getVarintBranchTarget p i offset length = .ok j ↔ p.LandsOn size (varintBranchTarget i.offset length offset) j
    unfold getVarintBranchTarget
    simp only [hend]
    generalize varintBranchTarget i.offset length offset = target
    by_cases hout : target < 0 ∨ target > size
    · rw [if_pos hout]
      simp only [reduceCtorEq, false_iff]
      intro hj
      have := hj.range hlayout
      omega
    · have hcast : (target.toNat : Int) = target := by omega
      have hat := instructionAt_eq_some (t := target.toNat) (j := j) hlayout hend
      rw [hcast] at hat
      rw [if_neg hout, ← hat]
      cases p.instructionAt target.toNat with
      | none => simp
      | some k => simp

/-- **The layout and the branch targets of a parsed program agree with its bytes** if and only if none of its numbers
is padded and its last instruction is not a prefix with its second byte. -/
theorem layoutAgrees_iff {raw : Bytes} {vlen : Nat} (hsize : raw.length < 2 ^ 63) (hparse : parse raw = .ok p)
    (hversion : parseVersionPrefix raw = .ok (p.version, vlen)) :
    LayoutAgrees p (raw.drop vlen) ↔
      Unpadded p.version (raw.drop vlen) 0 ∧ EndsPlain p.version (raw.drop vlen) := by
  obtain ⟨vlen', hversion', hreads⟩ := parse_eq_ok hparse
  rw [hversion] at hversion'
  cases hversion'
  have hsize : (raw.drop vlen).length < 2 ^ 63 := by
    rw [List.length_drop]
    omega
  constructor
  · intro h
    exact ⟨hreads.layout_iff.mp h.layout, (hreads.endOffset_iff h.layout).mp h.ends⟩
  · rintro ⟨hunpadded, hplain⟩
    have hlayout := hreads.layout_iff.mpr hunpadded
    have hend := (hreads.endOffset_iff hlayout).mpr hplain
    have hsmall : ∀ i ∈ p.instructions, ∀ b ∈ i.branches, b.Small := by
      intro i hi
      obtain ⟨byte, next, hbyte, hinstr⟩ := hreads.mem hi
      obtain ⟨_, _, _, -, himm, -⟩ := parseInstruction_eq_ok hbyte hinstr
      exact parseImmediates_small himm
    have hvalidates : ∀ i ∈ p.instructions, ∀ b ∈ i.branches, ∀ t : Nat, b.validate p i = .ok t ↔ _ :=
      fun i hi b hb t => b.validate_eq_ok hlayout hi hsize (hsmall i hi b hb)
    refine ⟨hlayout, hend, hvalidates, ?_, fun i hi b hb j => b.resolve_eq_ok hlayout hend hi hsize (hsmall i hi b hb)⟩
    rw [checkBranchTargets_eq_ok]
    apply forall_congr'
    intro i
    apply forall_congr'
    intro hi
    apply forall_congr'
    intro b
    apply forall_congr'
    intro hb
    simp only [hvalidates i hi b hb]
    constructor
    · rintro ⟨t, -, hj⟩
      exact hj
    · rintro ⟨j, hj⟩
      have := hj.range hlayout
      exact ⟨(b.target i).toNat, by omega, j, hj⟩

/-- The integer five and a return, in version three. -/
theorem layoutAgrees_iff_returnFive :
    LayoutAgrees ⟨3, [⟨0x81, none, 0, .varuint 5⟩, ⟨0x43, none, 2, .none⟩]⟩ [0x81, 5, 0x43] ↔
      Unpadded 3 [0x81, 5, 0x43] 0 ∧ EndsPlain 3 [0x81, 5, 0x43] :=
  @layoutAgrees_iff ⟨3, [⟨0x81, none, 0, .varuint 5⟩, ⟨0x43, none, 2, .none⟩]⟩ [3, 0x81, 5, 0x43] 1 (by decide)
    (by decide) (by decide)

/-- The integer five with a second, empty group; and the length of a box of another application, whose opcode has two
bytes. -/
theorem not_layoutAgrees_padded_or_prefixed :
    parse [3, 0x81, 0x85, 0] = .ok ⟨3, [⟨0x81, none, 0, .varuint 5⟩]⟩ ∧
      ¬ LayoutAgrees ⟨3, [⟨0x81, none, 0, .varuint 5⟩]⟩ [0x81, 0x85, 0] ∧
    parse [13, 0xd4, 5] = .ok ⟨13, [⟨0xd4, some 5, 0, .none⟩]⟩ ∧
      ¬ LayoutAgrees ⟨13, [⟨0xd4, some 5, 0, .none⟩]⟩ [0xd4, 5] := by
  refine ⟨by decide, ?_, by decide, ?_⟩
  · intro h
    exact absurd h.ends (by decide)
  · intro h
    exact absurd h.ends (by decide)

end Agrees

end Avm
end Algod
