import AlgodRust.Ledger.Schemas
/-!
# StateWrites — what one write of a program changes

A put or a deletion writes one key of one state of the program's application, and the context records the change where
it is one.
-/
namespace Algod
namespace Ledger

open Msgpack (Bytes)

namespace StateOp

/-- The account whose local state an operation writes. -/
def account : StateOp → Option Address
  | .localPut a _ _ => some a
  | .localDel a _ => some a
  | _ => none

def key : StateOp → Bytes
  | .localPut _ key _ => key
  | .localDel _ key => key
  | .globalPut key _ => key
  | .globalDel key => key

/-- What an operation leaves under its key. -/
def change : StateOp → Option TealValue
  | .localPut _ _ value => some value
  | .globalPut _ value => some value
  | _ => none

end StateOp

section Steps

variable {c c' : StateContext} {op : StateOp}

/-- A state with one key written. -/
def Wrote (state state' : FinMap Bytes TealValue) (key : Bytes) (change : Option TealValue) : Prop :=
  ∀ k, state'.lookup k = if k = key then change else state.lookup k

theorem wrote_insert (state : FinMap Bytes TealValue) (key : Bytes) (value : TealValue) :
    Wrote state (state.insert key value) key (some value) := fun k => FinMap.lookup_insert_eq state key k value

theorem wrote_erase (state : FinMap Bytes TealValue) (key : Bytes) : Wrote state (state.erase key) key none :=
  fun k => FinMap.lookup_erase_eq state key k

/-- What a step leaves as it is. -/
structure SameCall (c c' : StateContext) : Prop where
  appId : c'.appId = c.appId
  touched : c'.localDeltaTouched = c.localDeltaTouched

theorem noteLocalDeltaOrder_same (c : StateContext) (a : Address) :
    SameCall c (c.noteLocalDeltaOrder a) ∧ (c.noteLocalDeltaOrder a).localDeltaTracker = c.localDeltaTracker ∧
      (c.noteLocalDeltaOrder a).globalDeltaTracker = c.globalDeltaTracker := by
  unfold StateContext.noteLocalDeltaOrder
  split <;> exact ⟨⟨rfl, rfl⟩, rfl, rfl⟩

/-- **A write to a local state is recorded where it changes something.** -/
theorem StateOp.perform_local {a : Address} (ha : op.account = some a) (h : op.perform c = .ok c') :
    ∃ ls kv, c.store.getAppLocalState a c.appId = some ls ∧ Wrote ls.keyValue kv op.key op.change ∧
      c'.store = c.store.setAppLocalState a c.appId { ls with keyValue := kv } ∧
      (ls.keyValue.lookup op.key = op.change ∧ c'.localDeltaTracker = c.localDeltaTracker ∨
        c'.localDeltaTracker = c.localDeltaTracker.insert (a, op.key) op.change) ∧
      c'.globalDeltaTracker = c.globalDeltaTracker ∧ SameCall c c' := by
  cases op with
  | localPut a' key value =>
    obtain rfl := Option.some.inj ha
    obtain ⟨⟨⟩, -, h⟩ := Run.bind_eq_ok.1 h
    split at h
    · cases h
    rename_i ls hget
    obtain ⟨kv, hput, h⟩ := Run.bind_eq_ok.1 h
    obtain ⟨rfl, -⟩ := putChecked_ok hput
    refine ⟨ls, ls.keyValue.insert key value, hget, wrote_insert _ _ _, ?_⟩
    simp only [StateOp.key, StateOp.change, true_and] at h ⊢
    by_cases hsame : ls.keyValue.lookup key = some value
    · rw [if_neg (not_not_intro hsame)] at h
      cases h
      exact ⟨rfl, .inl ⟨hsame, rfl⟩, rfl, rfl, rfl⟩
    · rw [if_pos hsame] at h
      cases h
      obtain ⟨hcall, hlocal, hglobal⟩ := noteLocalDeltaOrder_same
        { c with store := c.store.setAppLocalState a' c.appId { ls with keyValue := ls.keyValue.insert key value } } a'
      refine ⟨store_trackLocal _ _ _ _, .inr ?_, hglobal, hcall.appId, hcall.touched⟩
      exact congrArg (fun m => AList.insert (a', key) (some value) m) hlocal
  | localDel a' key =>
    obtain rfl := Option.some.inj ha
    simp only [StateOp.perform, StateContext.appLocalDel] at h
    split at h
    · cases h
    rename_i ls hget
    refine ⟨ls, ls.keyValue.erase key, hget, wrote_erase _ _, ?_⟩
    simp only [StateOp.key, StateOp.change, true_and] at h ⊢
    by_cases hsame : ls.keyValue.lookup key = none
    · rw [hsame, if_neg (by simp)] at h
      cases h
      exact ⟨rfl, .inl ⟨hsame, rfl⟩, rfl, rfl, rfl⟩
    · rw [if_pos (by simpa [Option.isSome_iff_ne_none] using hsame)] at h
      cases h
      obtain ⟨hcall, hlocal, hglobal⟩ := noteLocalDeltaOrder_same
        { c with store := c.store.setAppLocalState a' c.appId { ls with keyValue := ls.keyValue.erase key } } a'
      refine ⟨store_trackLocal _ _ _ _, .inr ?_, hglobal, hcall.appId, hcall.touched⟩
      exact congrArg (fun m => AList.insert (a', key) none m) hlocal
  | globalPut key value => cases ha
  | globalDel key => cases ha

theorem StateOp.perform_global (ha : op.account = none) (h : op.perform c = .ok c') :
    c' = c ∨ ∃ app state, c.store.getAppParams c.appId = some app ∧ Wrote app.globalState state op.key op.change ∧
      c'.store = c.store.setAppParams c.appId { app with globalState := state } ∧
      (app.globalState.lookup op.key = op.change ∧ c'.globalDeltaTracker = c.globalDeltaTracker ∨
        c'.globalDeltaTracker = c.globalDeltaTracker.insert op.key op.change) ∧
      c'.localDeltaTracker = c.localDeltaTracker ∧ SameCall c c' := by
  cases op with
  | localPut a key value => cases ha
  | localDel a key => cases ha
  | globalPut key value =>
    right
    obtain ⟨⟨⟩, -, h⟩ := Run.bind_eq_ok.1 h
    split at h
    · cases h
    rename_i app hget
    obtain ⟨state, hput, h⟩ := Run.bind_eq_ok.1 h
    obtain ⟨rfl, -⟩ := putChecked_ok hput
    refine ⟨app, app.globalState.insert key value, hget, wrote_insert _ _ _, ?_⟩
    simp only [StateOp.key, StateOp.change, true_and] at h ⊢
    by_cases hsame : app.globalState.lookup key = some value
    · rw [if_neg (not_not_intro hsame)] at h
      cases h
      exact ⟨rfl, .inl ⟨hsame, rfl⟩, rfl, rfl, rfl⟩
    · rw [if_pos hsame] at h
      cases h
      exact ⟨rfl, .inr rfl, rfl, rfl, rfl⟩
  | globalDel key =>
    cases h
    unfold StateContext.appGlobalDel
    split
    · exact .inl rfl
    · rename_i app hget
      refine .inr ⟨app, app.globalState.erase key, hget, wrote_erase _ _, ?_⟩
      simp only [StateOp.key, StateOp.change, true_and]
      by_cases hsame : app.globalState.lookup key = none
      · rw [if_neg (by rw [hsame]; exact Bool.false_ne_true)]
        exact ⟨rfl, .inl ⟨hsame, rfl⟩, rfl, rfl, rfl⟩
      · rw [if_pos (by simpa [Option.isSome_iff_ne_none] using hsame)]
        exact ⟨rfl, .inr rfl, rfl, rfl, rfl⟩

/-- The values of the application's global state, where there is one. -/
def globalValues (s : Store) (id : Nat) : Option (Bytes → Option TealValue) :=
  (s.getAppParams id).map (fun app key => app.globalState.lookup key)

/-- The values of a local state, where there is one. -/
def localValues (s : Store) (a : Address) (id : Nat) : Option (Bytes → Option TealValue) :=
  (s.getAppLocalState a id).map (fun ls key => ls.keyValue.lookup key)

theorem StateOp.appId_perform (hdone : op.perform c = .ok c') : c'.appId = c.appId := by
  cases ha : op.account with
  | none =>
    rcases StateOp.perform_global ha hdone with rfl | ⟨-, -, -, -, -, -, -, hcall⟩
    · rfl
    · exact hcall.appId
  | some a =>
    obtain ⟨-, -, -, -, -, -, -, hcall⟩ := StateOp.perform_local ha hdone
    exact hcall.appId

end Steps

/-- The record of an application that a change is recorded for and that is not there. -/
def placeholderApp (sender : Address) : AppParams where
  creator := sender
  approvalProgram := []
  clearStateProgram := []
  globalState := ∅
  localStateSchema := default
  globalStateSchema := default
  extraProgramPages := 0
  version := 0
  sizeSponsor := .zero
  foreignBoxReads := false
  familyBoxAccess := false

def deltaSampleApp : AppParams :=
  { placeholderApp ⟨1⟩ with
    globalState := (∅ : FinMap Bytes TealValue).insert [97] (.uint 7)
    globalStateSchema := ⟨2, 2⟩
    localStateSchema := ⟨2, 1⟩ }

def deltaSampleStore : Store :=
  (((default : Store).setAppParams 1 deltaSampleApp).setAppLocalState ⟨2⟩ 1 ⟨⟨2, 1⟩, ∅⟩).setAppLocalState ⟨9⟩ 1
    ⟨⟨2, 1⟩, (∅ : FinMap Bytes TealValue).insert [99] (.bytes [1])⟩

end Ledger
end Algod
