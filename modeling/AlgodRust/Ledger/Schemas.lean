import AlgodRust.Ledger.AppCounters
import AlgodRust.Ledger.AppState
import AlgodRust.Ledger.Rollback
import Mathlib.Logic.Relation
/-!
# Schemas — the state of an application stays within its schema

A schema bounds how many integers and how many byte strings a state holds.  Puts are checked when they are made, and
an update that changes the schema of an application is checked against what its program has left.  Between the two
nothing ties the records of a ledger to one another: each record of an application and each local state is within its
own schema (`SchemasKept`), so a rollback that mixes old records with new ones keeps it too.
-/
namespace Algod
namespace Ledger

open Msgpack (Bytes)

/-- A state has no more entries of each kind than a schema allows. -/
structure WithinSchema (state : FinMap Bytes TealValue) (schema : StateSchema) : Prop where
  uints : state.values.countP TealValue.isUint ≤ schema.numUint
  byteSlices : state.values.countP (fun v => !v.isUint) ≤ schema.numByteSlice

/-- Every application of a ledger is within its global schema, and every local state within its own. -/
structure SchemasKept (s : Store) : Prop where
  globals : ∀ id app, s.getAppParams id = some app → WithinSchema app.globalState app.globalStateSchema
  locals : ∀ a id ls, s.getAppLocalState a id = some ls → WithinSchema ls.keyValue ls.schema

theorem withinSchema_empty (schema : StateSchema) : WithinSchema ∅ schema := ⟨Nat.zero_le _, Nat.zero_le _⟩

theorem WithinSchema.erase {state : FinMap Bytes TealValue} {schema : StateSchema} (h : WithinSchema state schema)
    (key : Bytes) : WithinSchema (state.erase key) schema := by
  have hsub : (FinMap.values (state.erase key)).Sublist state.values := by
    unfold FinMap.values
    exact (List.kerase_sublist key state.entries).map _
  exact ⟨hsub.countP_le.trans h.uints, hsub.countP_le.trans h.byteSlices⟩

theorem checkStateSchemaCounts_ok {state : FinMap Bytes TealValue} {schema : StateSchema} {u : Unit}
    (h : checkStateSchemaCounts state schema = .ok u) : WithinSchema state schema := by
  unfold checkStateSchemaCounts at h
  simp only at h
  split at h
  · cases h
  rename_i huints
  split at h
  · cases h
  rename_i hbytes
  exact ⟨Nat.le_of_not_lt huints, Nat.le_of_not_lt hbytes⟩

/-! ## Records -/

section Records

variable {s s' : Store}

theorem SchemasKept.setAppParams (h : SchemasKept s) (id : Nat) {app : AppParams}
    (happ : WithinSchema app.globalState app.globalStateSchema) : SchemasKept (s.setAppParams id app) where
  globals id' app' hget := by
    rw [getAppParams_setAppParams] at hget
    by_cases heq : id' = id
    · rw [if_pos heq] at hget
      cases hget
      exact happ
    · rw [if_neg heq] at hget
      exact h.globals id' app' hget
  locals := h.locals

theorem SchemasKept.removeAppParams (h : SchemasKept s) (id : Nat) : SchemasKept (s.removeAppParams id) where
  globals id' app' hget := by
    rw [getAppParams_removeAppParams] at hget
    by_cases heq : id' = id
    · rw [if_pos heq] at hget
      cases hget
    · rw [if_neg heq] at hget
      exact h.globals id' app' hget
  locals := h.locals

theorem getAppLocalState_setAppLocalState (s : Store) (a a' : Address) (id id' : Nat) (ls : AppLocalState) :
    (s.setAppLocalState a id ls).getAppLocalState a' id' =
      if (a', id') = (a, id) then some ls else s.getAppLocalState a' id' :=
  FinMap.lookup_insert_eq s.appLocalStates (a, id) (a', id') ls

theorem SchemasKept.setAppLocalState (h : SchemasKept s) (a : Address) (id : Nat) {ls : AppLocalState}
    (hls : WithinSchema ls.keyValue ls.schema) : SchemasKept (s.setAppLocalState a id ls) where
  globals := h.globals
  locals a' id' ls' hget := by
    rw [getAppLocalState_setAppLocalState] at hget
    by_cases heq : (a', id') = (a, id)
    · rw [if_pos heq] at hget
      cases hget
      exact hls
    · rw [if_neg heq] at hget
      exact h.locals a' id' ls' hget

theorem SchemasKept.removeAppLocalState (h : SchemasKept s) (a : Address) (id : Nat) :
    SchemasKept (s.removeAppLocalState a id) where
  globals := h.globals
  locals a' id' ls' hget := by
    have hlookup : (s.removeAppLocalState a id).getAppLocalState a' id' =
        if (a', id') = (a, id) then none else s.getAppLocalState a' id' :=
      FinMap.lookup_erase_eq s.appLocalStates (a, id) (a', id')
    rw [hlookup] at hget
    by_cases heq : (a', id') = (a, id)
    · rw [if_pos heq] at hget
      cases hget
    · rw [if_neg heq] at hget
      exact h.locals a' id' ls' hget

theorem SchemasKept.setAccount (h : SchemasKept s) (a : Address) (account : AccountData) :
    SchemasKept (s.setAccount a account) := ⟨h.globals, h.locals⟩

/-- Where every record is one of either store, schemas are kept as in both. -/
theorem SchemasKept.mixed {s₁ s₂ : Store} (h₁ : SchemasKept s₁) (h₂ : SchemasKept s₂)
    (happs : ∀ id, s'.getAppParams id = s₁.getAppParams id ∨ s'.getAppParams id = s₂.getAppParams id)
    (hlocals : ∀ a id, s'.getAppLocalState a id = s₁.getAppLocalState a id ∨
      s'.getAppLocalState a id = s₂.getAppLocalState a id) : SchemasKept s' where
  globals id app hget := by
    rcases happs id with heq | heq
    · exact h₁.globals id app (heq ▸ hget)
    · exact h₂.globals id app (heq ▸ hget)
  locals a id ls hget := by
    rcases hlocals a id with heq | heq
    · exact h₁.locals a id ls (heq ▸ hget)
    · exact h₂.locals a id ls (heq ▸ hget)

/-- **Putting a snapshot back keeps schemas**, whatever it covers. -/
theorem SchemasKept.restoreSnapshot {s₁ s₂ : Store} (h₁ : SchemasKept s₁) (h₂ : SchemasKept s₂) (addrs : List Address)
    (assetIds appIds : List Nat) : SchemasKept (s₂.restoreSnapshot (s₁.snapshotWithIds addrs assetIds appIds)) := by
  apply h₁.mixed h₂
  · intro id
    have hlookup : (s₂.restoreSnapshot (s₁.snapshotWithIds addrs assetIds appIds)).getAppParams id =
        if id ∈ appIds then s₁.getAppParams id else s₂.getAppParams id :=
      lookup_appParams_restoreSnapshot s₁ s₂ addrs assetIds appIds id
    rw [hlookup]
    by_cases hid : id ∈ appIds
    · rw [if_pos hid]
      exact .inl rfl
    · rw [if_neg hid]
      exact .inr rfl
  · intro a id
    have hlookup : (s₂.restoreSnapshot (s₁.snapshotWithIds addrs assetIds appIds)).getAppLocalState a id =
        if a ∈ addrs then s₁.getAppLocalState a id else s₂.getAppLocalState a id :=
      lookup_appLocalStates_restoreSnapshot s₁ s₂ addrs assetIds appIds (a, id)
    rw [hlookup]
    by_cases ha : a ∈ addrs
    · rw [if_pos ha]
      exact .inl rfl
    · rw [if_neg ha]
      exact .inr rfl

end Records

/-! ## What a program writes -/

section Writes

theorem putChecked_ok {c : StateContext} {state state' : FinMap Bytes TealValue} {schema : StateSchema} {key : Bytes}
    {value : TealValue} (h : c.putChecked state schema key value = .ok state') :
    state' = state.insert key value ∧ WithinSchema state' schema := by
  obtain ⟨⟨⟩, -, h⟩ := Run.bind_eq_ok.1 h
  split at h
  · cases h
  · rename_i hcheck
    cases h
    exact ⟨rfl, checkStateSchemaCounts_ok hcheck⟩

@[simp] theorem store_noteLocalDeltaOrder (c : StateContext) (a : Address) : (c.noteLocalDeltaOrder a).store = c.store := by
  unfold StateContext.noteLocalDeltaOrder
  split <;> rfl

@[simp] theorem store_trackLocal (c : StateContext) (a : Address) (key : Bytes) (change : Option TealValue) :
    (c.trackLocal a key change).store = c.store := store_noteLocalDeltaOrder c a

variable {c c' : StateContext}

/-- What an operation does to the store: it writes the values of one record, checked against its schema. -/
theorem StateOp.perform_store {op : StateOp} (h : op.perform c = .ok c') :
    c'.store = c.store ∨
      (∃ a ls kv, c.store.getAppLocalState a c.appId = some ls ∧
        (WithinSchema kv ls.schema ∨ ∃ key, kv = ls.keyValue.erase key) ∧
        c'.store = c.store.setAppLocalState a c.appId { ls with keyValue := kv }) ∨
      ∃ app state, c.store.getAppParams c.appId = some app ∧
        (WithinSchema state app.globalStateSchema ∨ ∃ key, state = app.globalState.erase key) ∧
        c'.store = c.store.setAppParams c.appId { app with globalState := state } := by
  cases op with
  | localPut a key value =>
    obtain ⟨⟨⟩, -, h⟩ := Run.bind_eq_ok.1 h
    split at h
    · cases h
    rename_i ls hget
    obtain ⟨kv, hput, h⟩ := Run.bind_eq_ok.1 h
    refine .inr (.inl ⟨a, ls, kv, hget, .inl (putChecked_ok hput).2, ?_⟩)
    split at h <;> cases h <;> simp
  | localDel a key =>
    simp only [StateOp.perform, StateContext.appLocalDel] at h
    split at h
    · cases h
    rename_i ls hget
    refine .inr (.inl ⟨a, ls, ls.keyValue.erase key, hget, .inr ⟨key, rfl⟩, ?_⟩)
    split at h <;> cases h <;> simp
  | globalPut key value =>
    obtain ⟨⟨⟩, -, h⟩ := Run.bind_eq_ok.1 h
    split at h
    · cases h
    rename_i app hget
    obtain ⟨state, hput, h⟩ := Run.bind_eq_ok.1 h
    refine .inr (.inr ⟨app, state, hget, .inl (putChecked_ok hput).2, ?_⟩)
    split at h <;> cases h <;> rfl
  | globalDel key =>
    cases h
    unfold StateContext.appGlobalDel
    split
    · exact .inl rfl
    · rename_i app hget
      refine .inr (.inr ⟨app, app.globalState.erase key, hget, .inr ⟨key, rfl⟩, ?_⟩)
      simp only
      split <;> rfl

theorem StateOp.schemasKept {op : StateOp} (h : op.perform c = .ok c') (hkept : SchemasKept c.store) :
    SchemasKept c'.store := by
  rcases StateOp.perform_store h with heq | ⟨a, ls, kv, hget, hkv, heq⟩ | ⟨app, state, hget, hstate, heq⟩
  · rw [heq]
    exact hkept
  · rw [heq]
    refine hkept.setAppLocalState a c.appId ?_
    rcases hkv with hwithin | ⟨key, rfl⟩
    · exact hwithin
    · exact (hkept.locals a c.appId ls hget).erase key
  · rw [heq]
    refine hkept.setAppParams c.appId ?_
    rcases hstate with hwithin | ⟨key, rfl⟩
    · exact hwithin
    · exact (hkept.globals c.appId app hget).erase key

/-- Neither the entries of a state nor its schema are flags. -/
theorem setFlags_schemas {f : AppParams → AppParams} (h : c.setFlags f = .ok c')
    (hf : ∀ app, (f app).globalState = app.globalState ∧ (f app).globalStateSchema = app.globalStateSchema)
    (hkept : SchemasKept c.store) : SchemasKept c'.store := by
  unfold StateContext.setFlags at h
  split at h <;> cases h
  rename_i app hget
  refine hkept.setAppParams c.appId ?_
  rw [(hf app).1, (hf app).2]
  exact hkept.globals c.appId app hget

theorem AppWrite.schemasKept {w : AppWrite} (h : w.perform c = .ok c')
    (hkept : SchemasKept c.store) : SchemasKept c'.store := by
  cases w with
  | state op => exact StateOp.schemasKept h hkept
  | setForeignBoxReads enable => exact setFlags_schemas h (fun _ => ⟨rfl, rfl⟩) hkept
  | setFamilyBoxAccess enable => exact setFlags_schemas h (fun _ => ⟨rfl, rfl⟩) hkept

end Writes

/-! ## What a call does around its program -/

section Calls

variable {s s' : Store} {consensus : ConsensusParams} {ctx : ApplErrorContext} {txn : Transaction} {id : Nat}

theorem createApplication_schemas (hkept : SchemasKept s)
    (h : createApplication s txn id ctx consensus = .ok s') : SchemasKept s' := by
  unfold createApplication at h
  split at h
  · cases h
  split at h
  · cases h
  rw [← Except.ok.inj h]
  exact (hkept.setAppParams id (withinSchema_empty _)).setAccount _ _

theorem applyApplOptInPreProgram_schemas {sender : Address} (hkept : SchemasKept s)
    (h : applyApplOptInPreProgram s sender id ctx consensus = .ok s') : SchemasKept s' := by
  unfold applyApplOptInPreProgram at h
  split at h
  · cases h
  split at h
  · cases h
  split at h
  · cases h
  rw [← Except.ok.inj h]
  exact (hkept.setAppLocalState sender id (withinSchema_empty _)).setAccount _ _

theorem leaveApplication_schemas {notOptedIn : ApplError} {sender : Address} (hkept : SchemasKept s)
    (h : leaveApplication notOptedIn s sender id = .ok s') : SchemasKept s' := by
  unfold leaveApplication at h
  split at h
  · cases h
  rw [← Except.ok.inj h]
  exact (hkept.removeAppLocalState sender id).setAccount _ _

theorem deleteApplication_schemas (hkept : SchemasKept s) (id : Nat) : SchemasKept (deleteApplication s id consensus) := by
  unfold deleteApplication
  split
  · exact hkept
  · exact ((hkept.removeAppParams id).setAccount _ _).setAccount _ _

/-- An update checks a new schema against the entries there are, and otherwise leaves entries and schema alone. -/
theorem updateApplication_schemas (hkept : SchemasKept s)
    (h : updateApplication s txn id consensus = .ok s') : SchemasKept s' := by
  unfold updateApplication at h
  split at h
  · rw [← Except.ok.inj h]
    exact hkept
  rename_i app hget
  obtain ⟨⟨⟩, -, h⟩ := Run.bind_eq_ok.1 h
  obtain ⟨⟨⟩, -, h⟩ := Run.bind_eq_ok.1 h
  split at h
  · obtain ⟨⟨⟩, hcheck, h⟩ := Run.bind_eq_ok.1 h
    rw [← Except.ok.inj h]
    exact ((hkept.setAccount _ _).setAccount _ _).setAppParams id (checkStateSchemaCounts_ok hcheck)
  · obtain ⟨⟨⟩, -, h⟩ := Run.bind_eq_ok.1 h
    rw [← Except.ok.inj h]
    exact hkept.setAppParams id (hkept.globals id app hget)

theorem applyApplOnCompletion_schemas (hkept : SchemasKept s)
    (h : applyApplOnCompletion s txn id ctx consensus = .ok s') : SchemasKept s' := by
  unfold applyApplOnCompletion at h
  split at h
  · rw [← Except.ok.inj h]
    exact hkept
  split at h
  · exact leaveApplication_schemas hkept h
  split at h
  · exact leaveApplication_schemas hkept h
  split at h
  · rw [← Except.ok.inj h]
    exact deleteApplication_schemas hkept id
  split at h
  · exact updateApplication_schemas hkept h
  · cases h

theorem createIfAsked_schemas {newId id : Nat} (hkept : SchemasKept s)
    (h : createIfAsked s txn newId ctx consensus = .ok (id, s')) : SchemasKept s' := by
  unfold createIfAsked at h
  split at h
  · obtain ⟨s₁, hcreate, heq⟩ := Run.map_eq_ok.1 h
    obtain ⟨-, rfl⟩ := Prod.mk.inj heq
    exact createApplication_schemas hkept hcreate
  · obtain ⟨-, rfl⟩ := Prod.mk.inj (Except.ok.inj h)
    exact hkept

theorem optInIfAsked_schemas (hkept : SchemasKept s)
    (h : optInIfAsked s txn id ctx consensus = .ok s') : SchemasKept s' := by
  unfold optInIfAsked at h
  split at h
  · exact applyApplOptInPreProgram_schemas hkept h
  · rw [← Except.ok.inj h]
    exact hkept

theorem beginOuter_schemas {stx : SignedTransaction} {n id : Nat} (hkept : SchemasKept s)
    (h : beginOuter s stx n consensus = .ok (id, s')) : SchemasKept s' := by
  unfold beginOuter at h
  split at h
  · cases h
  obtain ⟨⟨id₁, s₁⟩, hcreate, h⟩ := Run.bind_eq_ok.1 h
  have hkept₁ := createIfAsked_schemas hkept hcreate
  simp only at h
  split at h
  · split at h
    · obtain ⟨-, rfl⟩ := Prod.mk.inj (Except.ok.inj h)
      exact hkept₁
    · cases h
  · obtain ⟨s₂, hopt, h⟩ := Run.bind_eq_ok.1 h
    split at h
    · cases h
    · obtain ⟨-, rfl⟩ := Prod.mk.inj (Except.ok.inj h)
      exact optInIfAsked_schemas hkept₁ hopt

end Calls

/-! ## Runs -/

/-- The accounts whose records are saved before a clear state program runs. -/
def clearStateAddrs (txn : Transaction) : List Address :=
  (txn.accounts.getD []).foldl (fun addrs a => if a.isZero || addrs.contains a then addrs else addrs ++ [a]) [txn.sender]

/-- **One thing that happens to the ledger while a program runs**: it writes the state or the flags of its application,
one of the calls it makes creates an application, joins one or completes, or something else happens that leaves the
applications alone.  A program that fails stops between two of these. -/
inductive ProgramEvent : Store → Store → Prop
  | write {c c' : StateContext} {w : AppWrite} (hdone : w.perform c = .ok c') : ProgramEvent c.store c'.store
  | create {s s' : Store} {txn : Transaction} {id : Nat} {consensus : ConsensusParams}
      (hdone : createApplication s txn id .inner consensus = .ok s') : ProgramEvent s s'
  | optIn {s s' : Store} {sender : Address} {id : Nat} {consensus : ConsensusParams}
      (hdone : applyApplOptInPreProgram s sender id .inner consensus = .ok s') : ProgramEvent s s'
  | complete {s s' : Store} {txn : Transaction} {id : Nat} {consensus : ConsensusParams}
      (hdone : applyApplOnCompletion s txn id .inner consensus = .ok s') : ProgramEvent s s'
  | other {s s' : Store} (happs : s'.appParams = s.appParams) (hlocals : s'.appLocalStates = s.appLocalStates) :
      ProgramEvent s s'

/-- What a failed group of calls wrote is put back, and what it created is dropped. -/
def rollbackInnerGroup (s : Store) (snapshot : StateSnapshot) (extraCreatedAssetIds extraCreatedAppIds : List Nat) : Store :=
  let s := extraCreatedAssetIds.foldl (fun s id =>
    { s.removeAssetParams id with assetHoldings := FinMap.retain (fun k _ => k.2 ≠ id) s.assetHoldings })
    (s.restoreSnapshot snapshot)
  extraCreatedAppIds.foldl (fun s id =>
    { s.removeAppParams id with appLocalStates := FinMap.retain (fun k _ => k.2 ≠ id) s.appLocalStates }) s

/-- **What has happened when a program stops**: events one after the other, of which those of a failed group of calls are
rolled back, as far as its snapshot goes. -/
inductive ProgramRan : Store → Store → Prop
  | start (s : Store) : ProgramRan s s
  | event {s s₁ s₂ : Store} (hran : ProgramRan s s₁) (hevent : ProgramEvent s₁ s₂) : ProgramRan s s₂
  | rolledBack {s s₁ s₂ : Store} (hran : ProgramRan s s₁) (hgroup : ProgramRan s₁ s₂) (addrs : List Address)
      (assetIds appIds extraCreatedAssetIds extraCreatedAppIds : List Nat) :
      ProgramRan s (rollbackInnerGroup s₂ (s₁.snapshotWithIds addrs assetIds appIds) extraCreatedAssetIds extraCreatedAppIds)

/-- **One step of the ledger**: a call succeeds, its program approving, or a clear state program that fails being put
back; or something else happens that leaves the applications alone. -/
inductive ExecutedCall : Store → Store → Prop
  | approved {s s₁ s₂ s₃ : Store} {stx : SignedTransaction} {n id : Nat} {consensus : ConsensusParams}
      (hbegin : beginOuter s stx n consensus = .ok (id, s₁)) (hran : ProgramRan s₁ s₂)
      (hend : applyApplOnCompletion s₂ stx.txn id .outer consensus = .ok s₃) : ExecutedCall s s₃
  | cleared {s s₁ s₂ s₃ : Store} {stx : SignedTransaction} {n id : Nat} {consensus : ConsensusParams}
      (hclear : stx.txn.onCompletion = onCompletionClearState)
      (hbegin : beginOuter s stx n consensus = .ok (id, s₁)) (hran : ProgramRan s₁ s₂)
      (hend : applyApplOnCompletion (s₂.restoreSnapshot (s₁.snapshotWithIds (clearStateAddrs stx.txn) [] [id])) stx.txn id
        .outer consensus = .ok s₃) : ExecutedCall s s₃
  | other {s s' : Store} (happs : s'.appParams = s.appParams) (hlocals : s'.appLocalStates = s.appLocalStates) :
      ExecutedCall s s'

section Runs

variable {s s' : Store}

theorem SchemasKept.same (hkept : SchemasKept s) (happs : s'.appParams = s.appParams)
    (hlocals : s'.appLocalStates = s.appLocalStates) : SchemasKept s' :=
  hkept.mixed hkept (fun id => .inl (congrArg (fun m => m.lookup id) happs))
    (fun a id => .inl (congrArg (fun m => m.lookup (a, id)) hlocals))

theorem ProgramEvent.schemasKept (h : ProgramEvent s s') (hkept : SchemasKept s) : SchemasKept s' := by
  cases h with
  | write hdone => exact AppWrite.schemasKept hdone hkept
  | create hdone => exact createApplication_schemas hkept hdone
  | optIn hdone => exact applyApplOptInPreProgram_schemas hkept hdone
  | complete hdone => exact applyApplOnCompletion_schemas hkept hdone
  | other happs hlocals => exact hkept.same happs hlocals

/-- Dropping records keeps schemas. -/
theorem SchemasKept.dropped (hkept : SchemasKept s) (happs : ∀ id app, s'.getAppParams id = some app →
    s.getAppParams id = some app)
    (hlocals : ∀ a id ls, s'.getAppLocalState a id = some ls → s.getAppLocalState a id = some ls) : SchemasKept s' :=
  ⟨fun id app hget => hkept.globals id app (happs id app hget),
    fun a id ls hget => hkept.locals a id ls (hlocals a id ls hget)⟩

theorem SchemasKept.rollbackInnerGroup {snapshot : StateSnapshot} (hkept : SchemasKept (s.restoreSnapshot snapshot))
    (assetIds appIds : List Nat) : SchemasKept (rollbackInnerGroup s snapshot assetIds appIds) := by
  unfold Ledger.rollbackInnerGroup
  simp only
  generalize s.restoreSnapshot snapshot = s₁ at hkept
  have hassets : SchemasKept (assetIds.foldl (fun s id =>
      { s.removeAssetParams id with assetHoldings := FinMap.retain (fun k _ => k.2 ≠ id) s.assetHoldings }) s₁) := by
    induction assetIds generalizing s₁ with
    | nil => exact hkept
    | cons id ids ih => exact ih _ (hkept.same rfl rfl)
  generalize List.foldl _ s₁ assetIds = s₂ at hassets
  induction appIds generalizing s₂ with
  | nil => exact hassets
  | cons id ids ih =>
    apply ih
    apply (hassets.removeAppParams id).dropped
    · exact fun _ _ hget => hget
    · intro a id' ls hget
      have hlookup : (FinMap.retain (fun k _ => decide (k.2 ≠ id)) s₂.appLocalStates).lookup (a, id') = some ls := hget
      rw [FinMap.lookup_retain] at hlookup
      exact (Option.filter_eq_some_iff.1 hlookup).1

/-- By induction on what has happened. -/
theorem SchemasKept.ran (hkept : SchemasKept s) (hran : ProgramRan s s') : SchemasKept s' := by
  induction hran with
  | start s => exact hkept
  | event _ hevent ih => exact hevent.schemasKept (ih hkept)
  | rolledBack _ _ addrs assetIds appIds extraAssets extraApps ih ihgroup =>
    have hbefore := ih hkept
    exact (hbefore.restoreSnapshot (ihgroup hbefore) addrs assetIds appIds).rollbackInnerGroup extraAssets extraApps

/-- The schema that a call installs is checked after the writes of its program. -/
theorem ExecutedCall.schemasKept (h : ExecutedCall s s') (hkept : SchemasKept s) : SchemasKept s' := by
  cases h with
  | approved hbegin hran hend =>
    exact applyApplOnCompletion_schemas ((beginOuter_schemas hkept hbegin).ran hran) hend
  | cleared _ hbegin hran hend =>
    have hstart := beginOuter_schemas hkept hbegin
    exact applyApplOnCompletion_schemas (hstart.restoreSnapshot (hstart.ran hran) _ _ _) hend
  | other happs hlocals => exact hkept.same happs hlocals

/-- **Application state never outgrows its schema**: from a ledger where it holds, after any sequence of application
calls that succeed, every application has at most as many integers and byte strings in its global state as its global
schema says, and every local state at most as many as its own. -/
theorem schemas_never_outgrown (hkept : SchemasKept s) (hrun : Relation.ReflTransGen ExecutedCall s s') :
    (∀ id app, s'.getAppParams id = some app →
      app.globalState.values.countP TealValue.isUint ≤ app.globalStateSchema.numUint ∧
        app.globalState.values.countP (fun v => !v.isUint) ≤ app.globalStateSchema.numByteSlice) ∧
    ∀ a id ls, s'.getAppLocalState a id = some ls →
      ls.keyValue.values.countP TealValue.isUint ≤ ls.schema.numUint ∧
        ls.keyValue.values.countP (fun v => !v.isUint) ≤ ls.schema.numByteSlice := by
  have hall : SchemasKept s' := by
    induction hrun with
    | refl => exact hkept
    | tail _ hcall ih => exact hcall.schemasKept ih
  constructor
  · intro id app hget
    exact ⟨(hall.globals id app hget).uints, (hall.globals id app hget).byteSlices⟩
  · intro a id ls hget
    exact ⟨(hall.locals a id ls hget).uints, (hall.locals a id ls hget).byteSlices⟩

end Runs

/-! ## A run

An application is created with room for two integers and a byte string, and its program puts one of each.  The update
that follows deletes the byte string in its program, and then leaves room for one integer only. -/

/-- A call whose program only writes state. -/
def writingCall (consensus : ConsensusParams) (s : Store) (call : Transaction × List StateOp) : Except ApplError Store := do
  let r ← beginOuter s { (default : SignedTransaction) with txn := call.1 } 0 consensus
  match call.2.foldlM StateOp.perform (StateContext.new r.2 consensus r.1) with
  | .error _ => .error .panic
  | .ok c => applyApplOnCompletion c.store call.1 r.1 .outer consensus

theorem ran_of_ops {ops : List StateOp} {c c' : StateContext} {s : Store} (hran : ProgramRan s c.store)
    (h : ops.foldlM StateOp.perform c = .ok c') : ProgramRan s c'.store := by
  induction ops generalizing c with
  | nil =>
    cases h
    exact hran
  | cons op ops ih =>
    rw [List.foldlM_cons] at h
    obtain ⟨c₁, hop, hrest⟩ := Run.bind_eq_ok.1 h
    exact ih (hran.event (.write (w := .state op) hop)) hrest

theorem executed_of_writingCall {consensus : ConsensusParams} {calls : List (Transaction × List StateOp)} {s s' : Store}
    (h : calls.foldlM (writingCall consensus) s = .ok s') : Relation.ReflTransGen ExecutedCall s s' := by
  induction calls generalizing s with
  | nil =>
    cases h
    exact .refl
  | cons call calls ih =>
    rw [List.foldlM_cons] at h
    obtain ⟨s₁, hcall, hrest⟩ := Run.bind_eq_ok.1 h
    unfold writingCall at hcall
    obtain ⟨⟨id, s₂⟩, hbegin, hcall⟩ := Run.bind_eq_ok.1 hcall
    split at hcall
    · cases hcall
    · rename_i c hops
      exact .head (.approved hbegin (ran_of_ops (.start s₂) hops) hcall) (ih hrest)

def sampleConsensus : ConsensusParams :=
  { (default : ConsensusParams) with
    enableProperExtraPageAccounting := true, maxAppProgramLen := 2048, maxAppTotalProgramLen := 2048,
    maxExtraAppProgramPages := 3, minInnerApplVersion := 4 }

/-- A call of an application by an account, of the creation of one where the identifier is zero. -/
def sampleCall (sender : Address) (id onCompletion : Nat) : Transaction :=
  { (default : Transaction) with txnType := .appl, sender := sender, applicationId := id, onCompletion := onCompletion }

def sampleProgram : Bytes := [6, 0x81, 1]

def sampleCreation (sender : Address) (pages : Nat) : Transaction :=
  { sampleCall sender 0 onCompletionNoop with
    approvalProgram := some sampleProgram, clearStateProgram := some sampleProgram,
    globalStateSchema := some ⟨2, 1⟩, localStateSchema := some ⟨1, 3⟩, extraProgramPages := pages }

def schemaSampleConsensus : ConsensusParams :=
  { sampleConsensus with maxAppKeyLen := 64, maxAppBytesValueLen := 128, maxAppSumKeyValueLens := 128 }

def schemaSampleCalls : List (Transaction × List StateOp) :=
  [(sampleCreation ⟨1⟩ 0, [.globalPut [97] (.uint 7), .globalPut [98] (.bytes [1, 2])]),
   ({ sampleCall ⟨1⟩ 1 onCompletionUpdate with
      approvalProgram := some sampleProgram, clearStateProgram := some sampleProgram, globalStateSchema := some ⟨1, 0⟩ },
    [.globalDel [98]])]

theorem schemas_never_outgrown_sample : ∃ s', Relation.ReflTransGen ExecutedCall default s' ∧
    ((s'.getAppParams 1).map fun app => (app.globalState.values, app.globalStateSchema)) = some ([.uint 7], ⟨1, 0⟩) ∧
    ∀ id app, s'.getAppParams id = some app →
      app.globalState.values.countP TealValue.isUint ≤ app.globalStateSchema.numUint := by
  obtain ⟨s', hrun, hresult⟩ := @Run.ok_of_any _ _ (schemaSampleCalls.foldlM (writingCall schemaSampleConsensus) default)
    (fun s' => decide (((s'.getAppParams 1).map fun app => (app.globalState.values, app.globalStateSchema)) =
      some ([.uint 7], ⟨1, 0⟩))) (by decide)
  have hcalls := executed_of_writingCall hrun
  have hstart : SchemasKept (default : Store) := ⟨(fun _ _ h => by cases h), (fun _ _ _ h => by cases h)⟩
  exact ⟨s', hcalls, of_decide_eq_true hresult, fun id app hget => ((schemas_never_outgrown hstart hcalls).1 id app hget).1⟩

end Ledger
end Algod
