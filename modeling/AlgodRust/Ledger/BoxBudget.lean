import AlgodRust.Ledger.BoxAccounting
import AlgodRust.Ledger.Applications
import Mathlib.Logic.Relation
/-!
# BoxBudget — the bytes a group writes are counted exactly

The operations on boxes and the programs that a group stores draw on one budget.  The context does not keep the sum of
what was written: it keeps a running count, changed by the length that a box had before an operation or has after it,
by a flag for the box and with subtraction that does not check.  `Budgeted` is what ties the count to the flags, to the
store and to the programs; every step keeps it (`BudgetStep.budgeted`), and so does every run.
-/
namespace Algod
namespace Ledger

open Msgpack (Bytes)
open Validate (largeProgramExtraBytes)

/-! ## The tracker of a simulation -/

def satMul (a b : Nat) : Nat := min (a * b) (u64Bound - 1)

/-- What a tracker of resources that the group does not name is asked, as the code asks it. -/
structure TrackerOps (τ : Type) where
  setStartingBoxRefs : Nat → τ → τ
  noteNamedReadSurplus : (surplus : Int) → (bytesPerBoxRef : Nat) → τ → Option Int × τ
  addBox : (isNewApp : Bool) → (key : Nat × Bytes) → (readSize bytesPerBoxRef : Nat) → τ → Bool × τ
  reconcileWriteBudget : (dirtyBytes bytesPerBoxRef : Nat) → τ → Option Nat × τ

/-- The budget grows by the references that the tracker adds. -/
def growByRefs (delta : Int) (bytesPerBoxRef ioBudget : Nat) : Nat :=
  if delta = 0 then ioBudget else satAdd ioBudget (satMul (delta % u64Bound).toNat bytesPerBoxRef)

def TrackerOps.capacityOps {τ : Type} (ops : TrackerOps τ) : CapacityOps τ where
  setStartingBoxRefs := ops.setStartingBoxRefs
  noteNamedReadSurplus surplus bytesPerBoxRef ioBudget t :=
    let outcome := ops.noteNamedReadSurplus surplus bytesPerBoxRef t
    (outcome.1.map (fun delta => growByRefs delta bytesPerBoxRef ioBudget), outcome.2)
  addBox := ops.addBox
  reconcileWriteBudget := ops.reconcileWriteBudget

/-! ## Charges for programs -/

/-- A context with the bytes above the usual size that the programs of each application take. -/
structure WriteContext (τ : Type) where
  context : BoxContext τ
  updateBytes : FinMap Nat Nat

inductive ProgramWriteError
  | budgetExceeded (dirty budget : Nat) (updating : Bool) (app : Nat)
  | panic
deriving DecidableEq, Repr

section Steps

variable {τ : Type} (ops : TrackerOps τ) (appAddress : Nat → Address)

def considerBudgetProgramWrites (w : WriteContext τ) : Except ProgramWriteError (WriteContext τ) :=
  match w.context.group[w.context.groupIndex]? with
  | none => .error .panic
  | some stx =>
    let creating : Bool := stx.txn.applicationId = 0
    let updating : Bool := stx.txn.onCompletion = onCompletionUpdate
    let deleting : Bool := stx.txn.onCompletion = onCompletionDelete
    if !creating && !updating && !deleting then .ok w
    else if creating && deleting then .ok w
    else
      let c := ensureBoxesInitialized ops.capacityOps w.context
      let oldSize := (w.updateBytes.lookup c.appId).getD 0
      let newSize := largeProgramExtraBytes c.consensus
        ((stx.txn.approvalProgram.getD []).length + (stx.txn.clearStateProgram.getD []).length)
      let c := reconcileWriteBudgetAndGrowIo ops.capacityOps
        { c with dirtyBytes := satAdd (c.dirtyBytes - oldSize) newSize }
      if c.dirtyBytes > c.ioBudget then .error (.budgetExceeded c.dirtyBytes c.ioBudget updating c.appId)
      else .ok ⟨c, w.updateBytes.insert c.appId newSize⟩

/-- The bytes of all programs that were charged. -/
def programBytes (w : WriteContext τ) : Nat := FinMap.total (fun _ size => size) w.updateBytes

/-- The boxes and the programs that were charged are held at once, in memory that is addressed with 64 bits. -/
def InMemory (w : WriteContext τ) : Prop :=
  FinMap.total boxFootprint w.context.store.boxes + programBytes w < u64Bound

instance (w : WriteContext τ) : Decidable (InMemory w) := inferInstanceAs (Decidable (_ < _))

/-- What everything else in a group leaves as it is, the change to another of its calls included. -/
structure SameBudget (c c' : BoxContext τ) : Prop where
  boxes : c'.store.boxes = c.store.boxes
  available : c'.availableBoxes = c.availableBoxes
  dirty : c'.dirtyBytes = c.dirtyBytes
  io : c'.ioBudget = c.ioBudget
  initialized : c'.boxesInitialized = c.boxesInitialized
  checked : c.readBudgetChecked = true → c'.readBudgetChecked = true

/-- One step of a group: an operation on a box, a charge for a program, or anything else. -/
inductive BudgetStep : WriteContext τ → WriteContext τ → Prop
  | box {w : WriteContext τ} {r : BoxRequest} {answer : BoxAnswer} {c : BoxContext τ}
      (hdone : perform ops.capacityOps appAddress w.context r = .ok (answer, c)) (hfits : InMemory ⟨c, w.updateBytes⟩) :
      BudgetStep w ⟨c, w.updateBytes⟩
  | charge {w w' : WriteContext τ} (hdone : considerBudgetProgramWrites ops w = .ok w') (hfits : InMemory w') :
      BudgetStep w w'
  | other {w : WriteContext τ} {c : BoxContext τ} (hsame : SameBudget w.context c) : BudgetStep w ⟨c, w.updateBytes⟩

/-- The part of an access before the bytes it writes are counted: the contents found, and whether the box is dirty. -/
def reachBox (c : BoxContext τ) (appId : Nat) (name : Bytes) (operation : BoxOperation) :
    Except BoxError ((Option Bytes × Bool) × BoxContext τ) :=
  match c.group[c.groupIndex]? with
  | none => .error .panic
  | some stx =>
    if stx.txn.onCompletion = 3 then .error .inClearState
    else do
      let c ← checkReadBudget ops.capacityOps (ensureBoxesInitialized ops.capacityOps c)
      let (newAppAccess, c) ← findAccess ops.capacityOps c (appId, name)
      let c ← authorizeBoxAccess c appId operation
      .ok ((foundBox c (appId, name) newAppAccess,
        !newAppAccess && (c.availableBoxes.lookup (appId, name)).getD false), c)

/-- The rest of an access: a box that exists is not created again, and everything else is counted. -/
def countBytes (key : Nat × Bytes) (operation : BoxOperation) (createSize : Nat) (found : Option Bytes) (dirty : Bool)
    (c : BoxContext τ) : Except BoxError (Option Bytes × BoxContext τ) :=
  if operation = .create ∧ found.isSome then
    if createSize ≠ (found.getD []).length then .error (.sizeMismatch (found.getD []).length createSize)
    else .ok (found, c)
  else do
    let c ← trackDirty ops.capacityOps c key operation createSize (found.getD []) found.isSome dirty
    .ok (found, c)

theorem availableAppBox_eq (c : BoxContext τ) (appId : Nat) (name : Bytes) (operation : BoxOperation) (createSize : Nat) :
    availableAppBox ops.capacityOps c appId name operation createSize =
      reachBox ops c appId name operation >>= fun p =>
        countBytes ops (appId, name) operation createSize p.1.1 p.1.2 p.2 := by
  unfold availableAppBox reachBox
  cases c.group[c.groupIndex]? with
  | none => rfl
  | some stx =>
    by_cases hclear : stx.txn.onCompletion = 3
    · simp only [if_pos hclear]
      rfl
    · simp only [if_neg hclear, bind_assoc]
      rfl

end Steps

/-! ## What the count is -/

/-- The current lengths of the boxes that are flagged dirty, added up. -/
def flaggedLengths (boxes : FinMap (Nat × Bytes) Bytes) (available : FinMap (Nat × Bytes) Bool) : Nat :=
  FinMap.total (fun key dirty => if dirty then ((boxes.lookup key).getD []).length else 0) available

section Lengths

variable {boxes boxes' : FinMap (Nat × Bytes) Bytes} {available available' : FinMap (Nat × Bytes) Bool}

/-- Only the flags that are set count. -/
theorem flaggedLengths_congr (h : ∀ key, available'.lookup key = some true ↔ available.lookup key = some true) :
    flaggedLengths boxes available' = flaggedLengths boxes available := by
  have hle : ∀ a a' : FinMap (Nat × Bytes) Bool, (∀ key, a.lookup key = some true → a'.lookup key = some true) →
      flaggedLengths boxes a ≤ flaggedLengths boxes a' := by
    intro a a' himp
    apply FinMap.total_le_total _ _ Function.injective_id
    intro key dirty hkey
    cases dirty with
    | false => simp
    | true => simp [himp key hkey]
  exact Nat.le_antisymm (hle _ _ fun key => (h key).1) (hle _ _ fun key => (h key).2)

/-- A box that changes, and its flag with it, replaces its summand. -/
theorem flaggedLengths_insert (available : FinMap (Nat × Bytes) Bool) {key : Nat × Bytes}
    (hsame : ∀ key', key' ≠ key → boxes'.lookup key' = boxes.lookup key')
    (dirty : Bool) :
    flaggedLengths boxes' (available.insert key dirty) +
        (if available.lookup key = some true then ((boxes.lookup key).getD []).length else 0) =
      flaggedLengths boxes available + (if dirty then ((boxes'.lookup key).getD []).length else 0) := by
  have hrest : flaggedLengths boxes' (available.erase key) = flaggedLengths boxes (available.erase key) := by
    apply FinMap.total_congr
    intro key' flag hkey'
    rw [FinMap.lookup_erase_eq] at hkey'
    by_cases heq : key' = key
    · rw [if_pos heq] at hkey'
      cases hkey'
    · rw [hsame key' heq]
  have hinsert : flaggedLengths boxes' (available.insert key dirty) =
      (if dirty then ((boxes'.lookup key).getD []).length else 0) + flaggedLengths boxes' (available.erase key) :=
    List.sum_cons
  have herase := FinMap.total_erase (fun key dirty => if dirty then ((boxes.lookup key).getD []).length else 0) available key
  have hold : (available.lookup key).elim 0 (fun dirty => if dirty then ((boxes.lookup key).getD []).length else 0) =
      if available.lookup key = some true then ((boxes.lookup key).getD []).length else 0 := by
    cases available.lookup key with
    | none => rfl
    | some dirty => cases dirty <;> simp
  rw [hold] at herase
  unfold flaggedLengths at hrest hinsert ⊢
  rw [hinsert, hrest, herase]
  omega

theorem le_flaggedLengths {key : Nat × Bytes} (h : available.lookup key = some true) :
    ((boxes.lookup key).getD []).length ≤ flaggedLengths boxes available := by
  have hle := FinMap.le_total (fun key dirty => if dirty then ((boxes.lookup key).getD []).length else 0) h
  rwa [if_pos rfl] at hle

/-- What is flagged fits into the bytes that the boxes take. -/
theorem flaggedLengths_le (boxes : FinMap (Nat × Bytes) Bytes) (available : FinMap (Nat × Bytes) Bool) :
    flaggedLengths boxes available ≤ FinMap.total boxFootprint boxes := by
  apply FinMap.total_le_total _ _ Function.injective_id
  intro key dirty _
  cases dirty with
  | false => simp
  | true =>
    cases hbox : boxes.lookup key with
    | none => simp [hbox]
    | some contents => simp [hbox, boxFootprint]

end Lengths

/-- The count of a context, where programs account for `programs` bytes of it. -/
structure Budgeted {τ : Type} (programs : Nat) (c : BoxContext τ) : Prop where
  count : c.dirtyBytes = flaggedLengths c.store.boxes c.availableBoxes + programs
  present : ∀ key, c.availableBoxes.lookup key = some true → (c.store.boxes.lookup key).isSome
  within : c.dirtyBytes ≤ c.ioBudget
  small : c.dirtyBytes < u64Bound
  idle : c.boxesInitialized = false → c.dirtyBytes = 0
  unread : c.readBudgetChecked = false → ∀ key, c.availableBoxes.lookup key ≠ some true

/-! ## Reaching a box -/

section Reaching

variable {τ : Type} {ops : TrackerOps τ} {programs : Nat} {c c' : BoxContext τ} {key : Nat × Bytes}

/-- Where boxes, count and the flags that are set stay, only the budget and the two checks matter. -/
theorem Budgeted.same (h : Budgeted programs c) (hboxes : c'.store.boxes = c.store.boxes)
    (hflags : ∀ key, c'.availableBoxes.lookup key = some true ↔ c.availableBoxes.lookup key = some true)
    (hdirty : c'.dirtyBytes = c.dirtyBytes) (hio : c.dirtyBytes ≤ c'.ioBudget)
    (hinit : c'.boxesInitialized = false → c.boxesInitialized = false)
    (hchecked : c'.readBudgetChecked = false → c.readBudgetChecked = false) : Budgeted programs c' where
  count := by rw [hdirty, hboxes, flaggedLengths_congr hflags, h.count]
  present key hkey := by
    rw [hboxes]
    exact h.present key ((hflags key).1 hkey)
  within := by rw [hdirty]; exact hio
  small := by rw [hdirty]; exact h.small
  idle hidle := by rw [hdirty]; exact h.idle (hinit hidle)
  unread hfalse key hkey := h.unread (hchecked hfalse) key ((hflags key).1 hkey)

/-- The part of a context that the steps before the count leave alone. -/
structure Prepared (c c' : BoxContext τ) : Prop where
  store : c'.store = c.store
  initialized : c.boxesInitialized = true → c'.boxesInitialized = true
  checked : c.readBudgetChecked = true → c'.readBudgetChecked = true

theorem Prepared.refl (c : BoxContext τ) : Prepared c c := ⟨rfl, id, id⟩

theorem Prepared.trans {c₁ c₂ c₃ : BoxContext τ} (h : Prepared c₁ c₂) (h' : Prepared c₂ c₃) : Prepared c₁ c₃ :=
  ⟨h'.store.trans h.store, fun hi => h'.initialized (h.initialized hi), fun hc => h'.checked (h.checked hc)⟩

theorem flag_insert_false {available : FinMap (Nat × Bytes) Bool}
    (hkey : available.lookup key ≠ some true) (key' : Nat × Bytes) :
    (available.insert key false).lookup key' = some true ↔ available.lookup key' = some true := by
  rw [FinMap.lookup_insert_eq]
  by_cases heq : key' = key
  · rw [if_pos heq, heq]
    simp [hkey]
  · rw [if_neg heq]

theorem flag_noteTarget (available : FinMap (Nat × Bytes) Bool) (t : RefTarget) (key : Nat × Bytes) :
    (noteTarget available t).lookup key = some true ↔ available.lookup key = some true := by
  unfold noteTarget
  split
  · split
    · exact Iff.rfl
    · rename_i hnone
      apply flag_insert_false
      intro hsome
      rw [hsome] at hnone
      exact hnone rfl
  · exact Iff.rfl

theorem flag_foldl_noteTarget (targets : List RefTarget) (available : FinMap (Nat × Bytes) Bool) (key : Nat × Bytes) :
    (targets.foldl noteTarget available).lookup key = some true ↔ available.lookup key = some true := by
  induction targets generalizing available with
  | nil => exact Iff.rfl
  | cons t targets ih => exact (ih _).trans (flag_noteTarget available t key)

theorem Budgeted.ensureBoxesInitialized (cap : CapacityOps τ) (h : Budgeted programs c) :
    Budgeted programs (ensureBoxesInitialized cap c) ∧ (Ledger.ensureBoxesInitialized cap c).boxesInitialized = true ∧
      Prepared c (Ledger.ensureBoxesInitialized cap c) := by
  unfold Ledger.ensureBoxesInitialized
  by_cases hinit : c.boxesInitialized = true
  · rw [if_pos hinit]
    exact ⟨h, hinit, Prepared.refl c⟩
  · rw [if_neg hinit]
    -- nothing has been written before the budget is known
    have hzero : c.dirtyBytes = 0 := h.idle (Bool.eq_false_iff.2 hinit)
    refine ⟨h.same rfl (flag_foldl_noteTarget _ _) rfl ?_ (fun hf => by cases hf) id, rfl, rfl, fun _ => rfl, id⟩
    rw [hzero]
    exact Nat.zero_le _

/-- Reconciling changes the budget, which does not shrink, and what the tracker remembers. -/
theorem reconcileWriteBudgetAndGrowIo_eq (cap : CapacityOps τ) (c : BoxContext τ) :
    ∃ t ioBudget, c.ioBudget ≤ ioBudget ∧
      reconcileWriteBudgetAndGrowIo cap c = { c with unnamedCapacity := t, ioBudget := ioBudget } := by
  unfold reconcileWriteBudgetAndGrowIo
  split
  · exact ⟨c.unnamedCapacity, c.ioBudget, Nat.le_refl _, rfl⟩
  · split
    · exact ⟨_, c.ioBudget, Nat.le_refl _, rfl⟩
    · exact ⟨_, _, Nat.le_max_left _ _, rfl⟩

theorem le_growByRefs (delta : Int) (bytesPerBoxRef : Nat) {ioBudget : Nat} {n : Nat} (hn : n ≤ ioBudget)
    (hlt : n < u64Bound) :
    n ≤ growByRefs delta bytesPerBoxRef ioBudget := by
  unfold growByRefs satAdd
  split <;> omega

theorem flag_foldl_insert_false (keys : List (Nat × Bytes)) {available : FinMap (Nat × Bytes) Bool}
    (hnone : ∀ key, available.lookup key ≠ some true) (key : Nat × Bytes) :
    (keys.foldl (fun boxes key => boxes.insert key false) available).lookup key ≠ some true := by
  induction keys generalizing available with
  | nil => exact hnone key
  | cons k keys ih => exact ih (fun key' hkey' => hnone key' ((flag_insert_false (hnone k) key').1 hkey'))

theorem Budgeted.checkReadBudget (h : Budgeted programs c) (hdone : checkReadBudget ops.capacityOps c = .ok c') :
    Budgeted programs c' ∧ c'.readBudgetChecked = true ∧ Prepared c c' := by
  unfold Ledger.checkReadBudget at hdone
  by_cases hchecked : c.readBudgetChecked = true
  · rw [if_pos hchecked] at hdone
    cases hdone
    exact ⟨h, hchecked, Prepared.refl c⟩
  rw [if_neg hchecked] at hdone
  by_cases hinner : c.callerAppId ≠ 0
  · rw [if_pos hinner] at hdone
    cases hdone
    exact ⟨h.same rfl (fun _ => Iff.rfl) rfl h.within id (fun hf => by cases hf), rfl, rfl, id, fun _ => rfl⟩
  rw [if_neg hinner] at hdone
  -- before this check no box is dirty, so the flags it clears were not set
  have hclear := h.unread (Bool.eq_false_iff.2 hchecked)
  have hflags : ∀ (keys : List (Nat × Bytes)) key,
      (keys.foldl (fun boxes key => boxes.insert key false) c.availableBoxes).lookup key = some true ↔
        c.availableBoxes.lookup key = some true := fun keys key =>
    ⟨fun hkey => absurd hkey (flag_foldl_insert_false keys hclear key), fun hkey => absurd hkey (hclear key)⟩
  simp only at hdone
  cases hcap : c.unnamedCapacity with
  | none =>
    rw [hcap] at hdone
    simp only at hdone
    split at hdone
    · cases hdone
    · cases hdone
      exact ⟨h.same rfl (hflags _) rfl h.within id (fun hf => by cases hf), rfl, rfl, id, fun _ => rfl⟩
  | some t =>
    rw [hcap] at hdone
    simp only [TrackerOps.capacityOps] at hdone
    split at hdone
    · cases hdone
    · rename_i ioBudget t' houtcome
      cases hdone
      obtain ⟨delta, -, hio⟩ := Option.map_eq_some_iff.1 (congrArg Prod.fst houtcome)
      have hgrow : c.dirtyBytes ≤ ioBudget := by
        rw [← hio]
        exact le_growByRefs delta _ h.within h.small
      exact ⟨h.same rfl (hflags _) rfl hgrow id (fun hf => by cases hf), rfl, rfl, id, fun _ => rfl⟩

/-- A box that takes up a spare reference is not available; every other one is from now on. -/
theorem Budgeted.findAccess {newAppAccess : Bool} (h : Budgeted programs c)
    (hdone : findAccess ops.capacityOps c key = .ok (newAppAccess, c')) :
    Budgeted programs c' ∧ (newAppAccess = true → c'.availableBoxes.lookup key = none) ∧ Prepared c c' := by
  unfold Ledger.findAccess at hdone
  by_cases hsome : (c.availableBoxes.lookup key).isSome = true
  · rw [if_pos hsome] at hdone
    cases hdone
    exact ⟨h, (fun hf => by cases hf), Prepared.refl c⟩
  rw [if_neg hsome] at hdone
  have hnone : c.availableBoxes.lookup key = none := by simpa using hsome
  split at hdone
  · cases hdone
    exact ⟨h.same rfl (fun _ => Iff.rfl) rfl h.within id id, fun _ => hnone, rfl, id, id⟩
  split at hdone
  · have hclear : c.availableBoxes.lookup key ≠ some true := by
      rw [hnone]
      exact nofun
    have hflags := flag_insert_false hclear
    simp only at hdone
    split at hdone
    · cases hdone
      exact ⟨h.same rfl hflags rfl h.within id id, (fun hf => by cases hf), rfl, id, id⟩
    · split at hdone
      · cases hdone
      · rename_i t' _
        cases hdone
        have hlisted : Budgeted programs
            { c with availableBoxes := c.availableBoxes.insert key false, unnamedCapacity := some t' } :=
          h.same rfl hflags rfl h.within id id
        obtain ⟨t, ioBudget, hgrow, heq⟩ := reconcileWriteBudgetAndGrowIo_eq ops.capacityOps
          { c with availableBoxes := c.availableBoxes.insert key false, unnamedCapacity := some t' }
        rw [heq]
        exact ⟨hlisted.same rfl (fun _ => Iff.rfl) rfl (Nat.le_trans h.within hgrow) id id, (fun hf => by cases hf),
          rfl, id, id⟩
  · cases hdone

/-- Authorisation reads the context and records that shared state was touched. -/
theorem authorizeBoxAccess_same {owner : Nat} {operation : BoxOperation}
    (hdone : authorizeBoxAccess c owner operation = .ok c') :
    SameBudget c c' ∧ Prepared c c' := by
  have hrefl : ∀ c : BoxContext τ, SameBudget c c := fun c => ⟨rfl, rfl, rfl, rfl, rfl, id⟩
  unfold authorizeBoxAccess at hdone
  split at hdone
  · cases hdone
  split at hdone
  · cases hdone
  split at hdone
  · unfold touchFamilyShared at hdone
    split at hdone
    · cases hdone
      exact ⟨⟨rfl, rfl, rfl, rfl, rfl, id⟩, rfl, id, id⟩
    · obtain ⟨c₁, hfamily, rfl⟩ := Run.map_eq_ok.1 hdone
      unfold checkFamilyReentrancy at hfamily
      split at hfamily
      · cases hfamily
        exact ⟨⟨rfl, rfl, rfl, rfl, rfl, id⟩, rfl, id, id⟩
      · split at hfamily
        · cases hfamily
        · cases hfamily
          exact ⟨⟨rfl, rfl, rfl, rfl, rfl, id⟩, rfl, id, id⟩
  · cases hdone
    exact ⟨hrefl c, Prepared.refl c⟩

theorem Budgeted.sameBudget (h : Budgeted programs c) (hsame : SameBudget c c') : Budgeted programs c' := by
  apply h.same hsame.boxes
  · intro key
    rw [hsame.available]
  · exact hsame.dirty
  · rw [hsame.io]
    exact h.within
  · intro hfalse
    rw [← hsame.initialized]
    exact hfalse
  · intro hfalse
    by_contra htrue
    rw [hsame.checked (by simpa using htrue)] at hfalse
    cases hfalse

/-- What is known of a box when the bytes that an operation writes are counted. -/
structure BoxReached (programs : Nat) (c c' : BoxContext τ) (key : Nat × Bytes) (found : Option Bytes) (dirty : Bool) :
    Prop where
  budgeted : Budgeted programs c'
  store : c'.store = c.store
  initialized : c'.boxesInitialized = true
  checked : c'.readBudgetChecked = true
  flag : dirty = true ↔ c'.availableBoxes.lookup key = some true
  found_eq : ∀ contents, found = some contents → c'.store.boxes.lookup key = some contents
  found_dirty : dirty = true → found = c'.store.boxes.lookup key

theorem Budgeted.reachBox (h : Budgeted programs c) {appId : Nat} {name : Bytes} {operation : BoxOperation}
    {found : Option Bytes} {dirty : Bool} (hdone : reachBox ops c appId name operation = .ok ((found, dirty), c')) :
    BoxReached programs c c' (appId, name) found dirty := by
  unfold Ledger.reachBox at hdone
  split at hdone
  · cases hdone
  split at hdone
  · cases hdone
  obtain ⟨c₁, h₁, hdone⟩ := Run.bind_eq_ok.1 hdone
  obtain ⟨⟨newAppAccess, c₂⟩, h₂, hdone⟩ := Run.bind_eq_ok.1 hdone
  obtain ⟨c₃, h₃, hdone⟩ := Run.bind_eq_ok.1 hdone
  cases hdone
  obtain ⟨hb₀, hinit, hr₀⟩ := h.ensureBoxesInitialized ops.capacityOps
  obtain ⟨hb₁, hchecked, hr₁⟩ := hb₀.checkReadBudget h₁
  obtain ⟨hb₂, hnew, hr₂⟩ := hb₁.findAccess h₂
  obtain ⟨hsame, hr₃⟩ := authorizeBoxAccess_same h₃
  have hlater := hr₂.trans hr₃
  have hall := (hr₀.trans hr₁).trans hlater
  refine ⟨hb₂.sameBudget hsame, hall.store, (hr₁.trans hlater).initialized hinit, hlater.checked hchecked, ?_, ?_, ?_⟩
  · cases newAppAccess with
    | true =>
      rw [hsame.available, hnew rfl]
      simp
    | false =>
      cases c'.availableBoxes.lookup (appId, name) with
      | none => simp
      | some flag => cases flag <;> simp
  · intro contents hcontents
    cases newAppAccess with
    | true => cases hcontents
    | false => exact hcontents
  · intro hdirty
    cases newAppAccess with
    | true => cases hdirty
    | false => rfl

/-- **No subtraction underflows**: a box that is dirty when it is reached is part of the count. -/
theorem BoxReached.length_le {found : Option Bytes} {dirty : Bool}
    (h : BoxReached programs c c' key found dirty) (hdirty : dirty = true) :
    (found.getD []).length ≤ c'.dirtyBytes := by
  rw [h.found_dirty hdirty, h.budgeted.count]
  exact Nat.le_trans (le_flaggedLengths (h.flag.1 hdirty)) (Nat.le_add_right _ _)

end Reaching

/-! ## Counting what is written -/

section Counting

variable {τ : Type} {ops : TrackerOps τ} {appAddress : Nat → Address} {programs : Nat} {c c₁ c₂ c' : BoxContext τ}
  {key : Nat × Bytes} {found : Option Bytes} {dirty : Bool} {operation : BoxOperation} {account : AccountData}

/-- The context once the bytes of an operation are counted, before the box itself is written. -/
structure Counted (c c' : BoxContext τ) (key : Nat × Bytes) (after : Nat × Bool) : Prop where
  store : c'.store = c.store
  available : c'.availableBoxes = c.availableBoxes.insert key after.2
  dirty : c'.dirtyBytes = after.1
  within : c'.dirtyBytes ≤ c'.ioBudget
  initialized : c'.boxesInitialized = c.boxesInitialized
  checked : c'.readBudgetChecked = c.readBudgetChecked

theorem trackDirty_counted {createSize : Nat} {contents : Bytes} {present : Bool}
    (hdone : trackDirty ops.capacityOps c key operation createSize contents present dirty = .ok c') :
    Counted c c' key (dirtyAfter operation createSize contents present dirty c.dirtyBytes) := by
  unfold trackDirty at hdone
  simp only at hdone
  split at hdone
  · cases hdone
  · rename_i hwithin
    cases hdone
    obtain ⟨t, ioBudget, -, heq⟩ := reconcileWriteBudgetAndGrowIo_eq ops.capacityOps
      { c with
        dirtyBytes := (dirtyAfter operation createSize contents present dirty c.dirtyBytes).1
        availableBoxes := c.availableBoxes.insert key
          (dirtyAfter operation createSize contents present dirty c.dirtyBytes).2 }
    rw [heq] at hwithin ⊢
    exact ⟨rfl, rfl, rfl, Nat.le_of_not_lt hwithin, rfl, rfl⟩

/-- An access that succeeds has counted its bytes, or found the box that was to be created. -/
theorem availableAppBox_counted (h : Budgeted programs c) {appId : Nat} {name : Bytes}
    {createSize : Nat} (hdone : availableAppBox ops.capacityOps c appId name operation createSize = .ok (found, c')) :
    ∃ c₁ dirty, BoxReached programs c c₁ (appId, name) found dirty ∧
      (operation = .create ∧ found.isSome ∧ c' = c₁ ∨ ¬(operation = .create ∧ found.isSome) ∧
        Counted c₁ c' (appId, name) (dirtyAfter operation createSize (found.getD []) found.isSome dirty c₁.dirtyBytes)) := by
  rw [availableAppBox_eq] at hdone
  obtain ⟨⟨⟨found₁, dirty⟩, c₁⟩, hreach, hcount⟩ := Run.bind_eq_ok.1 hdone
  have hreached := h.reachBox hreach
  unfold countBytes at hcount
  by_cases hcreate : operation = .create ∧ found₁.isSome
  · rw [if_pos hcreate] at hcount
    split at hcount
    · cases hcount
    · cases hcount
      exact ⟨c₁, dirty, hreached, .inl ⟨hcreate.1, hcreate.2, rfl⟩⟩
  · rw [if_neg hcreate] at hcount
    obtain ⟨c₂, htrack, hcount⟩ := Run.bind_eq_ok.1 hcount
    cases hcount
    exact ⟨c₁, dirty, hreached, .inr ⟨hcreate, trackDirty_counted htrack⟩⟩

/-- A dirty box exists, so one that is not found is not dirty. -/
theorem BoxReached.not_dirty (h : BoxReached programs c c₁ key none dirty) : dirty = false := by
  by_contra htrue
  have hdirty : dirty = true := by simpa using htrue
  have hpresent := h.budgeted.present key (h.flag.1 hdirty)
  rw [← h.found_dirty hdirty] at hpresent
  cases hpresent

/-- Writing one box keeps the count exact where the count has moved by the difference of the lengths.  The numbers of
the source wrap around; what is in memory does not. -/
theorem BoxReached.write (h : BoxReached programs c c₁ key found dirty) {after : Nat × Bool}
    (hcounted : Counted c₁ c₂ key after) {store : Store} (contents : Bytes)
    (hother : ∀ key', key' ≠ key → store.boxes.lookup key' = c₁.store.boxes.lookup key')
    (hkey : after.2 = true → store.boxes.lookup key = some contents) (hsmall : after.1 < u64Bound)
    (hmoved : (after.1 + if dirty then (found.getD []).length else 0) % u64Bound =
      (c₁.dirtyBytes + if after.2 then contents.length else 0) % u64Bound)
    (hfits : FinMap.total boxFootprint store.boxes + programs < u64Bound) :
    Budgeted programs { c₂ with store := store } := by
  have hbefore : (if c₁.availableBoxes.lookup key = some true then ((c₁.store.boxes.lookup key).getD []).length else 0) =
      if dirty then (found.getD []).length else 0 := by
    by_cases hdirty : dirty = true
    · rw [if_pos (h.flag.1 hdirty), if_pos hdirty, h.found_dirty hdirty]
    · rw [if_neg (fun hflag => hdirty (h.flag.2 hflag)), if_neg hdirty]
  have hafter : (if after.2 then ((store.boxes.lookup key).getD []).length else 0) =
      if after.2 then contents.length else 0 := by
    by_cases hflag : after.2 = true
    · rw [if_pos hflag, if_pos hflag, hkey hflag]
      rfl
    · rw [if_neg hflag, if_neg hflag]
  have hlengths := flaggedLengths_insert c₁.availableBoxes hother after.2
  rw [hbefore, hafter, ← hcounted.available] at hlengths
  have hle := flaggedLengths_le store.boxes c₂.availableBoxes
  have hcount := h.budgeted.count
  refine ⟨?_, ?_, hcounted.within, ?_, ?_, ?_⟩
  · show c₂.dirtyBytes = flaggedLengths store.boxes c₂.availableBoxes + programs
    rw [hcounted.dirty]
    simp only [u64Bound] at hmoved hfits hsmall
    omega
  · intro key' hflag
    show (store.boxes.lookup key').isSome
    change c₂.availableBoxes.lookup key' = some true at hflag
    rw [hcounted.available, FinMap.lookup_insert_eq] at hflag
    by_cases heq : key' = key
    · rw [if_pos heq] at hflag
      rw [heq, hkey (Option.some.inj hflag)]
      rfl
    · rw [if_neg heq] at hflag
      rw [hother key' heq]
      exact h.budgeted.present key' hflag
  · show c₂.dirtyBytes < u64Bound
    rw [hcounted.dirty]
    exact hsmall
  · intro hfalse
    rw [hcounted.initialized, h.initialized] at hfalse
    cases hfalse
  · intro hfalse
    rw [hcounted.checked, h.checked] at hfalse
    cases hfalse

theorem lookup_insert_other (boxes : FinMap (Nat × Bytes) Bytes) (key : Nat × Bytes) (contents : Bytes) (key' : Nat × Bytes)
    (hne : key' ≠ key) : (boxes.insert key contents).lookup key' = boxes.lookup key' := by
  rw [FinMap.lookup_insert_eq, if_neg hne]

theorem lookup_insert_same (boxes : FinMap (Nat × Bytes) Bytes) (key : Nat × Bytes) (contents : Bytes) :
    (boxes.insert key contents).lookup key = some contents := by
  rw [FinMap.lookup_insert_eq, if_pos rfl]

variable {appId : Nat} {name : Bytes}

/-- What the store holds and the programs of the group fit into memory. -/
abbrev Fits (programs : Nat) (c : BoxContext τ) : Prop :=
  FinMap.total boxFootprint c.store.boxes + programs < u64Bound

theorem Budgeted.read (h : Budgeted programs c)
    (hdone : availableAppBox ops.capacityOps c appId name .read 0 = .ok (found, c')) (hfits : Fits programs c') :
    Budgeted programs c' := by
  obtain ⟨c₁, dirty, hreached, ⟨hop, -⟩ | ⟨-, hcounted⟩⟩ := availableAppBox_counted h hdone
  · cases hop
  · have hstore := hcounted.store
    apply hreached.write hcounted (found.getD [])
    · intro key' _
      rw [hstore]
    · intro hdirty
      obtain ⟨contents, hbox⟩ := Option.isSome_iff_exists.1 (hreached.budgeted.present _ (hreached.flag.1 hdirty))
      rw [hstore, hreached.found_dirty hdirty, hbox]
      rfl
    · exact hreached.budgeted.small
    · rfl
    · exact hfits

/-- Contents of the same length are written over a box. -/
theorem Budgeted.rewrite (h : Budgeted programs c) {size : Nat} {old contents : Bytes}
    (hdone : availableAppBox ops.capacityOps c appId name .write size = .ok (some old, c₂))
    (hlen : contents.length = old.length) {store : Store} (hset : c₂.store.setBox appId name contents = .ok store)
    (hfits : Fits programs { c₂ with store := store }) : Budgeted programs { c₂ with store := store } := by
  obtain ⟨c₁, dirty, hreached, ⟨hop, -⟩ | ⟨-, hcounted⟩⟩ := availableAppBox_counted h hdone
  · cases hop
  · obtain ⟨-, rfl⟩ := setBox_eq_ok hset
    apply hreached.write hcounted contents
    · intro key' hne
      rw [hcounted.store]
      exact lookup_insert_other _ _ _ key' hne
    · intro _
      exact lookup_insert_same _ _ _
    · have hsmall := hreached.budgeted.small
      cases dirty with
      | true => exact hsmall
      | false => exact Nat.mod_lt _ (by decide)
    · cases dirty with
      | true => simp [dirtyAfter, hlen]
      | false => simp [dirtyAfter, hlen, wrapAdd]
    · exact hfits

theorem writeBox_eq_ok {owner : Address} {contents : Bytes}
    (hwrite : writeBox c owner account appId name contents = .ok c') :
    ∃ store : Store, c' = { c with store := store } ∧ store.boxes = c.store.boxes.insert (appId, name) contents := by
  obtain ⟨store, hset, hwrite⟩ := Run.bind_eq_ok.1 hwrite
  cases hwrite
  obtain ⟨-, rfl⟩ := setBox_eq_ok hset
  exact ⟨_, rfl, rfl⟩

/-- A box that was not found is written. -/
theorem Budgeted.newBox (h : Budgeted programs c) (hop : operation = .create ∨ operation = .write)
    {size : Nat} (hdone : availableAppBox ops.capacityOps c appId name operation size = .ok (none, c₂)) {contents : Bytes}
    (hlen : contents.length = size) {owner : Address}
    (hwrite : writeBox c₂ owner account appId name contents = .ok c') (hfits : Fits programs c') : Budgeted programs c' := by
  obtain ⟨c₁, dirty, hreached, ⟨-, hsome, -⟩ | ⟨-, hcounted⟩⟩ := availableAppBox_counted h hdone
  · cases hsome
  · obtain ⟨store, rfl, hboxes⟩ := writeBox_eq_ok hwrite
    obtain rfl := hreached.not_dirty
    have hafter : dirtyAfter operation size ((none : Option Bytes).getD []) (none : Option Bytes).isSome false c₁.dirtyBytes =
        (wrapAdd c₁.dirtyBytes size, true) := by
      rcases hop with rfl | rfl <;> rfl
    rw [hafter] at hcounted
    apply hreached.write hcounted contents
    · intro key' hne
      rw [hboxes, hcounted.store]
      exact lookup_insert_other _ _ _ key' hne
    · intro _
      rw [hboxes]
      exact lookup_insert_same _ _ _
    · exact Nat.mod_lt _ (by decide)
    · simp [wrapAdd, hlen]
    · exact hfits

theorem wrapSub_add (a b : Nat) : (wrapSub a b + b) % u64Bound = a % u64Bound := by
  simp only [wrapSub, u64Bound]
  omega

theorem Budgeted.resize (h : Budgeted programs c) {newSize : Nat} {old contents : Bytes}
    (hdone : availableAppBox ops.capacityOps c appId name .resize newSize = .ok (some old, c₂))
    (hlen : contents.length = newSize) {owner : Address}
    (hwrite : writeBox c₂ owner account appId name contents = .ok c') (hfits : Fits programs c') : Budgeted programs c' := by
  obtain ⟨c₁, dirty, hreached, ⟨hop, -⟩ | ⟨-, hcounted⟩⟩ := availableAppBox_counted h hdone
  · cases hop
  · obtain ⟨store, rfl, hboxes⟩ := writeBox_eq_ok hwrite
    apply hreached.write hcounted contents
    · intro key' hne
      rw [hboxes, hcounted.store]
      exact lookup_insert_other _ _ _ key' hne
    · intro _
      rw [hboxes]
      exact lookup_insert_same _ _ _
    · exact Nat.mod_lt _ (by decide)
    · have hsub := wrapSub_add c₁.dirtyBytes old.length
      cases dirty with
      | true =>
        simp only [dirtyAfter, wrapAdd, if_true, Option.getD_some, hlen, u64Bound] at hsub ⊢
        omega
      | false => simp [dirtyAfter, wrapAdd, hlen]
    · exact hfits

/-- A box is deleted, or there was none. -/
theorem Budgeted.delete (h : Budgeted programs c)
    (hdone : availableAppBox ops.capacityOps c appId name .delete 0 = .ok (found, c₂)) {store : Store}
    (hother : ∀ key', key' ≠ (appId, name) → store.boxes.lookup key' = c₂.store.boxes.lookup key')
    (hfits : Fits programs { c₂ with store := store }) : Budgeted programs { c₂ with store := store } := by
  obtain ⟨c₁, dirty, hreached, ⟨hop, -⟩ | ⟨-, hcounted⟩⟩ := availableAppBox_counted h hdone
  · cases hop
  · apply hreached.write hcounted []
    · intro key' hne
      rw [hother key' hne, hcounted.store]
    · exact nofun
    · have hsmall := hreached.budgeted.small
      cases dirty with
      | true => exact Nat.mod_lt _ (by decide)
      | false => exact hsmall
    · cases dirty with
      | true => exact wrapSub_add _ _
      | false => rfl
    · exact hfits

end Counting

/-! ## Steps -/

section Requests

variable {τ : Type} {ops : TrackerOps τ} {appAddress : Nat → Address} {programs : Nat} {c c' : BoxContext τ}

/-- **Every operation on a box keeps the count.** -/
theorem Budgeted.perform (h : Budgeted programs c) {r : BoxRequest} {answer : BoxAnswer}
    (hdone : perform ops.capacityOps appAddress c r = .ok (answer, c')) (hfits : Fits programs c') :
    Budgeted programs c' := by
  cases perform_effect hdone with
  | read haccess => exact h.read haccess hfits
  | found haccess =>
    obtain ⟨c₁, dirty, hreached, ⟨-, -, rfl⟩ | ⟨hnot, -⟩⟩ := availableAppBox_counted h haccess
    · exact hreached.budgeted
    · exact absurd ⟨rfl, rfl⟩ hnot
  | rewrite haccess hlen hset => exact h.rewrite haccess hlen hset hfits
  | newBox hop haccess hlen hwrite => exact h.newBox hop haccess hlen hwrite hfits
  | resize haccess hlen hwrite => exact h.resize haccess hlen hwrite hfits
  | delete haccess =>
    refine h.delete haccess (fun key' hne => ?_) hfits
    exact (FinMap.lookup_erase_eq _ _ _).trans (if_neg hne)
  | absent haccess => exact h.delete haccess (fun _ _ => rfl) hfits

/-- **A charge for programs replaces the one for the same application.** -/
theorem Budgeted.charge {w w' : WriteContext τ} (h : Budgeted (programBytes w) w.context)
    (hdone : considerBudgetProgramWrites ops w = .ok w') (hfits : InMemory w') :
    Budgeted (programBytes w') w'.context := by
  unfold considerBudgetProgramWrites at hdone
  split at hdone
  · cases hdone
  rename_i stx _
  simp only at hdone
  split at hdone
  · cases hdone
    exact h
  split at hdone
  · cases hdone
    exact h
  obtain ⟨hb, hinit, -⟩ := h.ensureBoxesInitialized ops.capacityOps
  generalize Ledger.ensureBoxesInitialized ops.capacityOps w.context = c at hdone hb hinit
  generalize hold : (w.updateBytes.lookup c.appId).getD 0 = oldSize at hdone
  generalize largeProgramExtraBytes c.consensus _ = newSize at hdone
  obtain ⟨t, ioBudget, -, heq⟩ := reconcileWriteBudgetAndGrowIo_eq ops.capacityOps
    { c with dirtyBytes := satAdd (c.dirtyBytes - oldSize) newSize }
  rw [heq] at hdone
  split at hdone
  · cases hdone
  rename_i hwithin
  cases hdone
  have hinsert := FinMap.total_insert (fun _ size => size) w.updateBytes c.appId newSize
  have herase := FinMap.total_erase (fun _ size => size) w.updateBytes c.appId
  have helim : (w.updateBytes.lookup c.appId).elim 0 (fun size => size) = oldSize := by
    rw [← hold]
    cases w.updateBytes.lookup c.appId <;> rfl
  rw [helim] at hinsert herase
  have hle := flaggedLengths_le c.store.boxes c.availableBoxes
  have hcount := hb.count
  -- what was charged before is part of the count, and the new total is in memory
  have hexact : satAdd (c.dirtyBytes - oldSize) newSize =
      flaggedLengths c.store.boxes c.availableBoxes + FinMap.total (fun _ size => size)
        (w.updateBytes.insert c.appId newSize) := by
    simp only [InMemory, programBytes] at hfits hcount
    rw [satAdd_of_lt (by omega)]
    omega
  refine ⟨hexact, hb.present, Nat.le_of_not_lt hwithin, ?_, ?_, hb.unread⟩
  · show satAdd (c.dirtyBytes - oldSize) newSize < u64Bound
    simp only [InMemory, programBytes] at hfits
    omega
  · intro hfalse
    rw [show c.boxesInitialized = false from hfalse] at hinit
    cases hinit

end Requests

/-! ## Runs -/

section Runs

variable {τ : Type} {ops : TrackerOps τ} {appAddress : Nat → Address} {w w' : WriteContext τ}

theorem BudgetStep.budgeted (hstep : BudgetStep ops appAddress w w') (h : Budgeted (programBytes w) w.context) :
    Budgeted (programBytes w') w'.context := by
  cases hstep with
  | box hdone hfits => exact h.perform hdone hfits
  | charge hdone hfits => exact h.charge hdone hfits
  | other hsame => exact h.sameBudget hsame

/-- Nothing is counted before anything is written. -/
theorem budgeted_of_fresh (hdirty : w.context.dirtyBytes = 0)
    (hflags : ∀ key, w.context.availableBoxes.lookup key ≠ some true) (hbytes : w.updateBytes = ∅) :
    Budgeted (programBytes w) w.context where
  count := by
    have hnone : flaggedLengths w.context.store.boxes w.context.availableBoxes = flaggedLengths w.context.store.boxes ∅ :=
      flaggedLengths_congr fun key => ⟨fun hkey => absurd hkey (hflags key), fun hkey => by cases hkey⟩
    rw [hdirty, hnone, programBytes, hbytes]
    rfl
  present key hkey := absurd hkey (hflags key)
  within := by rw [hdirty]; exact Nat.zero_le _
  small := by rw [hdirty]; decide
  idle _ := hdirty
  unread _ := hflags

theorem budgeted_of_run (h : Budgeted (programBytes w) w.context)
    (hrun : Relation.ReflTransGen (BudgetStep ops appAddress) w w') : Budgeted (programBytes w') w'.context := by
  induction hrun with
  | refl => exact h
  | tail _ hstep ih => exact hstep.budgeted ih

/-- **The count of written bytes is exact in every run**: it is the current lengths of the boxes flagged dirty and the
charges for programs, every flagged box exists, the count stays in the budget, and no box that is reached with its flag
set is longer than the count, so that what is taken off for it does not underflow. -/
theorem dirtyBytes_exact (hdirty : w.context.dirtyBytes = 0)
    (hflags : ∀ key, w.context.availableBoxes.lookup key ≠ some true) (hbytes : w.updateBytes = ∅)
    (hrun : Relation.ReflTransGen (BudgetStep ops appAddress) w w') :
    w'.context.dirtyBytes = flaggedLengths w'.context.store.boxes w'.context.availableBoxes + programBytes w' ∧
      (∀ key, w'.context.availableBoxes.lookup key = some true → (w'.context.store.boxes.lookup key).isSome) ∧
      w'.context.dirtyBytes ≤ w'.context.ioBudget ∧
      ∀ (appId : Nat) (name : Bytes) (operation : BoxOperation) (found : Option Bytes) (dirty : Bool) (c : BoxContext τ),
        reachBox ops w'.context appId name operation = .ok ((found, dirty), c) → dirty = true →
          (found.getD []).length ≤ c.dirtyBytes := by
  have h := budgeted_of_run (budgeted_of_fresh hdirty hflags hbytes) hrun
  refine ⟨h.count, h.present, h.within, ?_⟩
  intro appId name operation found dirty c hreach hset
  exact (h.reachBox hreach).length_le hset

/-- One step that is computed: an operation on a box, or a charge where none is given. -/
def budgetStep (ops : TrackerOps τ) (appAddress : Nat → Address) (w : WriteContext τ) (r : Option BoxRequest) :
    Option (WriteContext τ) :=
  let after : Option (WriteContext τ) := match r with
    | some r => (perform ops.capacityOps appAddress w.context r).toOption.map (fun p => ⟨p.2, w.updateBytes⟩)
    | none => (considerBudgetProgramWrites ops w).toOption
  after.filter (fun w => InMemory w)

theorem budgetStep_sound {r : Option BoxRequest} (h : budgetStep ops appAddress w r = some w') :
    BudgetStep ops appAddress w w' := by
  obtain ⟨hafter, hfits⟩ := Option.filter_eq_some_iff.1 h
  have hfits := of_decide_eq_true hfits
  cases r with
  | none =>
    cases hdone : considerBudgetProgramWrites ops w with
    | error e =>
      rw [hdone] at hafter
      cases hafter
    | ok w₁ =>
      rw [hdone] at hafter
      cases hafter
      exact .charge hdone hfits
  | some r =>
    obtain ⟨⟨answer, c⟩, hsome, rfl⟩ := Option.map_eq_some_iff.1 hafter
    cases hdone : perform ops.capacityOps appAddress w.context r with
    | error e =>
      rw [hdone] at hsome
      cases hsome
    | ok p =>
      rw [hdone] at hsome
      cases hsome
      exact .box hdone hfits

theorem foldlM_budgetStep_sound {rs : List (Option BoxRequest)} (h : rs.foldlM (budgetStep ops appAddress) w = some w') :
    Relation.ReflTransGen (BudgetStep ops appAddress) w w' := by
  induction rs generalizing w with
  | nil =>
    cases h
    exact .refl
  | cons r rs ih =>
    rw [List.foldlM_cons] at h
    obtain ⟨w₁, hstep, hrest⟩ := Option.bind_eq_some_iff.1 h
    exact .head (budgetStep_sound hstep) (ih hrest)

end Runs

/-- A group that updates an application with nine bytes of programs, none of which are free. -/
def budgetSample : WriteContext Unit where
  context := { boxSampleContext with
    group := [{ boxSampleCall with txn := { boxSampleCall.txn with
      onCompletion := onCompletionUpdate
      approvalProgram := some [10, 0x81, 1, 0x43]
      clearStateProgram := some [10, 0x81, 1, 0x43, 0x43] } }] }
  updateBytes := ∅

def noTracker : TrackerOps Unit :=
  ⟨fun _ t => t, fun _ _ t => (some 0, t), fun _ _ _ _ t => (false, t), fun _ _ t => (none, t)⟩

/-- A box is created, made shorter and at last deleted, two others are written, and the programs are charged on the
way. -/
def budgetSampleSteps : List (Option BoxRequest) :=
  [boxSampleRequests[0]?, none, boxSampleRequests[3]?, boxSampleRequests[5]?, boxSampleRequests[7]?, boxSampleRequests[9]?]

/-- Nine bytes for the programs and three for the boxes that are left are counted. -/
theorem dirtyBytes_exact_budgetSample : ∃ w', Relation.ReflTransGen (BudgetStep noTracker boxSampleAddress) budgetSample w' ∧
    w'.context.dirtyBytes = 12 ∧
    w'.context.dirtyBytes = flaggedLengths w'.context.store.boxes w'.context.availableBoxes + programBytes w' := by
  have htest : (budgetSampleSteps.foldlM (budgetStep noTracker boxSampleAddress) budgetSample).any
      (fun w => w.context.dirtyBytes = 12) = true := by decide
  obtain ⟨w', hsteps, hcount⟩ := (Option.any_eq_true _ _).1 htest
  have hrun := foldlM_budgetStep_sound hsteps
  exact ⟨w', hrun, of_decide_eq_true hcount, (dirtyBytes_exact rfl (fun _ h => by cases h) rfl hrun).1⟩

end Ledger
end Algod
