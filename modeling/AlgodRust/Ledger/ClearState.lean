import AlgodRust.Ledger.Apply
import AlgodRust.Ledger.StateWrites
/-!
# ClearState — what is left of a clear state program that fails

An account leaves an application by a call that always succeeds: where the program of the call fails, its writes are to
be dropped and the account leaves all the same.  Such a program neither touches boxes nor issues transactions, so all it
writes is the state of its own application and two of its flags.  A call in a block saves the records of the sender and of
the accounts the transaction lists; the local states of others stay as the program left them.  A call that a program
makes saves nothing.
-/
namespace Algod
namespace Ledger

open Msgpack (Bytes)

/-- The context when a program stops: after its writes, or at the first that fails. -/
def stoppedAt (c : StateContext) : List AppWrite → StateContext
  | [] => c
  | w :: ws =>
    match w.perform c with
    | .ok c' => stoppedAt c' ws
    | .error _ => c

/-- A run of a clear state program. -/
structure ClearRun where
  writes : List AppWrite
  approves : Bool

/-- The store after the program, which starts in `s`. -/
def ClearRun.leaves (run : ClearRun) (s : Store) (consensus : ConsensusParams) (appId : Nat) : Store :=
  (stoppedAt (StateContext.new s consensus appId) run.writes).store

/-- A call in a block, up to its program: the fee is paid first. -/
def beginApplyAppl (ctx : ApplyContext) (stx : SignedTransaction) (st : Store × Cells) :
    Except (ApplyError ⊕ ApplError) (Nat × Store) := do
  let st ← (applyFee ctx stx.txn.sender stx.txn.fee st).mapError .inl
  (beginOuter st.1 stx st.2.txnCounter ctx.consensus).mapError .inr

/-- The program of a call that clears state. -/
def clearProgramOf (s : Store) (appId : Nat) : Bytes := ((s.getAppParams appId).map AppParams.clearStateProgram).getD []

/-- **A call in a block that clears state**, when it is executed. -/
def applyApplClearState (ctx : ApplyContext) (stx : SignedTransaction) (st : Store × Cells) (run : ClearRun) :
    Except (ApplyError ⊕ ApplError) Store := do
  let (appId, s) ← beginApplyAppl ctx stx st
  let s' :=
    if clearProgramOf s appId = [] then s
    else
      let left := run.leaves s ctx.consensus appId
      if run.approves then left else left.restoreSnapshot (s.snapshotWithIds (clearStateAddrs stx.txn) [] [appId])
  (applyApplOnCompletion s' stx.txn appId .outer ctx.consensus).mapError .inr

/-- **A call that a program makes and that clears state**; its caller has paid the fee and left it a budget. -/
def executeInnerClearState (consensus : ConsensusParams) (txn : Transaction) (txnCounter : Nat) (s : Store)
    (run : ClearRun) : Except ApplError Store := do
  let (appId, s) ← beginInner s txn txnCounter consensus
  applyApplOnCompletion (run.leaves s consensus appId) txn appId .inner consensus

/-! ## Records -/

/-- The record of an application without its state. -/
def AppParams.bare (app : AppParams) : AppParams := { app with globalState := ∅ }

/-- A store without the records of its maps. -/
def Store.withoutRecords (s : Store) : Store :=
  { s with accounts := ∅, assetParams := ∅, assetHoldings := ∅, appParams := ∅, appLocalStates := ∅, boxes := ∅ }

/-- **No record differs**: states are compared by their values, in whatever order they were written. -/
structure SameRecords (s s' : Store) : Prop where
  accounts : ∀ a, s'.getAccount a = s.getAccount a
  assetHoldings : ∀ k, s'.assetHoldings.lookup k = s.assetHoldings.lookup k
  assetParams : ∀ id, s'.assetParams.lookup id = s.assetParams.lookup id
  boxes : ∀ k, s'.boxes.lookup k = s.boxes.lookup k
  apps : ∀ id, (s'.getAppParams id).map AppParams.bare = (s.getAppParams id).map AppParams.bare
  globals : ∀ id, globalValues s' id = globalValues s id
  schemas : ∀ a id, (s'.getAppLocalState a id).map AppLocalState.schema =
    (s.getAppLocalState a id).map AppLocalState.schema
  locals : ∀ a id, localValues s' a id = localValues s a id
  rest : s'.withoutRecords = s.withoutRecords

theorem SameRecords.symm {s s' : Store} (h : SameRecords s s') : SameRecords s' s where
  accounts a := (h.accounts a).symm
  assetHoldings k := (h.assetHoldings k).symm
  assetParams id := (h.assetParams id).symm
  boxes k := (h.boxes k).symm
  apps id := (h.apps id).symm
  globals id := (h.globals id).symm
  schemas a id := (h.schemas a id).symm
  locals a id := (h.locals a id).symm
  rest := h.rest.symm

theorem SameRecords.trans {s s' s'' : Store} (h : SameRecords s s') (h' : SameRecords s' s'') : SameRecords s s'' where
  accounts a := (h'.accounts a).trans (h.accounts a)
  assetHoldings k := (h'.assetHoldings k).trans (h.assetHoldings k)
  assetParams id := (h'.assetParams id).trans (h.assetParams id)
  boxes k := (h'.boxes k).trans (h.boxes k)
  apps id := (h'.apps id).trans (h.apps id)
  globals id := (h'.globals id).trans (h.globals id)
  schemas a id := (h'.schemas a id).trans (h.schemas a id)
  locals a id := (h'.locals a id).trans (h.locals a id)
  rest := h'.rest.trans h.rest

/-- What the writes of an application's program leave alone. -/
structure OwnStateOnly (appId : Nat) (s s' : Store) : Prop where
  accounts : ∀ a, s'.getAccount a = s.getAccount a
  assetHoldings : ∀ k, s'.assetHoldings.lookup k = s.assetHoldings.lookup k
  assetParams : ∀ id, s'.assetParams.lookup id = s.assetParams.lookup id
  boxes : ∀ k, s'.boxes.lookup k = s.boxes.lookup k
  apps : ∀ id, id ≠ appId → s'.getAppParams id = s.getAppParams id
  locals : ∀ a id, id ≠ appId → s'.getAppLocalState a id = s.getAppLocalState a id
  schemas : ∀ a, (s'.getAppLocalState a appId).map AppLocalState.schema =
    (s.getAppLocalState a appId).map AppLocalState.schema
  rest : s'.withoutRecords = s.withoutRecords

namespace OwnStateOnly

variable {appId : Nat} {s s₁ s₂ : Store}

theorem refl (s : Store) : OwnStateOnly appId s s := by
  constructor <;> intros <;> rfl

theorem trans (h : OwnStateOnly appId s s₁) (h' : OwnStateOnly appId s₁ s₂) : OwnStateOnly appId s s₂ where
  accounts a := (h'.accounts a).trans (h.accounts a)
  assetHoldings k := (h'.assetHoldings k).trans (h.assetHoldings k)
  assetParams id := (h'.assetParams id).trans (h.assetParams id)
  boxes k := (h'.boxes k).trans (h.boxes k)
  apps id hid := (h'.apps id hid).trans (h.apps id hid)
  locals a id hid := (h'.locals a id hid).trans (h.locals a id hid)
  schemas a := (h'.schemas a).trans (h.schemas a)
  rest := h'.rest.trans h.rest

theorem setAppParams (s : Store) (app : AppParams) : OwnStateOnly appId s (s.setAppParams appId app) where
  accounts _ := rfl
  assetHoldings _ := rfl
  assetParams _ := rfl
  boxes _ := rfl
  apps id hid := by rw [getAppParams_setAppParams, if_neg hid]
  locals _ _ _ := rfl
  schemas _ := rfl
  rest := rfl

theorem setAppLocalState {a : Address} {ls : AppLocalState} (hget : s.getAppLocalState a appId = some ls)
    (kv : FinMap Bytes TealValue) : OwnStateOnly appId s (s.setAppLocalState a appId { ls with keyValue := kv }) where
  accounts _ := rfl
  assetHoldings _ := rfl
  assetParams _ := rfl
  boxes _ := rfl
  apps _ _ := rfl
  locals a' id hid := by rw [getAppLocalState_setAppLocalState, if_neg fun hk => hid (Prod.mk.inj hk).2]
  schemas a' := by
    rw [getAppLocalState_setAppLocalState]
    by_cases hk : (a', appId) = (a, appId)
    · rw [if_pos hk, (Prod.mk.inj hk).1, hget]
      rfl
    · rw [if_neg hk]
  rest := rfl

/-- A write of a program is one of its own state. -/
theorem perform {w : AppWrite} {c c' : StateContext} (h : w.perform c = .ok c') :
    OwnStateOnly c.appId c.store c'.store ∧ c'.appId = c.appId := by
  cases w with
  | state op =>
    refine ⟨?_, StateOp.appId_perform h⟩
    rcases StateOp.perform_store h with heq | ⟨a, ls, kv, hget, -, heq⟩ | ⟨app, state, -, -, heq⟩
    · rw [heq]
      exact refl _
    · rw [heq]
      exact setAppLocalState hget kv
    · rw [heq]
      exact setAppParams _ _
  | setForeignBoxReads enable =>
    simp only [AppWrite.perform, StateContext.setFlags] at h
    split at h <;> cases h
    exact ⟨setAppParams _ _, rfl⟩
  | setFamilyBoxAccess enable =>
    simp only [AppWrite.perform, StateContext.setFlags] at h
    split at h <;> cases h
    exact ⟨setAppParams _ _, rfl⟩

/-- By induction on the writes of a run. -/
theorem stoppedAt (ws : List AppWrite) (c : StateContext) : OwnStateOnly c.appId c.store (stoppedAt c ws).store := by
  induction ws generalizing c with
  | nil => exact refl _
  | cons w ws ih =>
    unfold Ledger.stoppedAt
    cases hw : w.perform c with
    | error e => exact refl _
    | ok c' =>
      obtain ⟨hstep, happ⟩ := perform hw
      have hrest := ih c'
      rw [happ] at hrest
      exact hstep.trans hrest

theorem leaves (run : ClearRun) (s : Store) (consensus : ConsensusParams) (appId : Nat) :
    OwnStateOnly appId s (run.leaves s consensus appId) := stoppedAt run.writes (StateContext.new s consensus appId)

end OwnStateOnly

/-! ## Leaving -/

/-- What leaving does to the records of a store. -/
structure LeftApplication (sender : Address) (appId : Nat) (ls : AppLocalState) (s t : Store) : Prop where
  accounts : ∀ a, t.getAccount a =
    if a = sender then some { s.getOrDefaultAccount sender with
      totalAppsOptedIn := (s.getOrDefaultAccount sender).totalAppsOptedIn - 1
      totalAppSchema := (s.getOrDefaultAccount sender).totalAppSchema.subSchema ls.schema }
    else s.getAccount a
  assetHoldings : t.assetHoldings = s.assetHoldings
  assetParams : t.assetParams = s.assetParams
  boxes : t.boxes = s.boxes
  apps : t.appParams = s.appParams
  locals : ∀ a id, t.getAppLocalState a id = if (a, id) = (sender, appId) then none else s.getAppLocalState a id
  rest : t.withoutRecords = s.withoutRecords

section Leaving

variable {e : ApplError} {s s' t t' : Store} {sender : Address} {appId : Nat} {ls ls' : AppLocalState}

theorem leaveApplication_spec (hget : s.getAppLocalState sender appId = some ls) :
    ∃ t, leaveApplication e s sender appId = .ok t ∧ LeftApplication sender appId ls s t := by
  unfold leaveApplication
  rw [hget]
  refine ⟨_, rfl, ?_⟩
  constructor
  · intro a
    rw [Store.getAccount_setAccount]
    rfl
  · rfl
  · rfl
  · rfl
  · rfl
  · exact fun a id => FinMap.lookup_erase_eq s.appLocalStates (sender, appId) (a, id)
  · rfl

theorem LeftApplication.localValues (h : LeftApplication sender appId ls s t) (a : Address) (id : Nat) :
    localValues t a id = if (a, id) = (sender, appId) then none else localValues s a id := by
  unfold Ledger.localValues
  rw [h.locals]
  by_cases hk : (a, id) = (sender, appId)
  · rw [if_pos hk, if_pos hk]
    rfl
  · rw [if_neg hk, if_neg hk]

theorem LeftApplication.getAppParams (h : LeftApplication sender appId ls s t) (id : Nat) :
    t.getAppParams id = s.getAppParams id := by
  unfold Store.getAppParams
  rw [h.apps]

theorem LeftApplication.globalValues (h : LeftApplication sender appId ls s t) (id : Nat) :
    globalValues t id = globalValues s id := by
  unfold Ledger.globalValues
  rw [h.getAppParams]

/-- The state of an application and its record are the same, and so are the local states of all but the sender. -/
structure SameState (sender : Address) (appId : Nat) (s s' : Store) : Prop where
  app : (s'.getAppParams appId).map AppParams.bare = (s.getAppParams appId).map AppParams.bare
  globals : globalValues s' appId = globalValues s appId
  locals : ∀ a, a ≠ sender → localValues s' a appId = localValues s a appId

/-- **After the sender has left, what is left of the writes is what they left in the states of others.** -/
theorem LeftApplication.sameRecords_iff (h : LeftApplication sender appId ls s t)
    (h' : LeftApplication sender appId ls' s' t')
    (hown : OwnStateOnly appId s s') (hschema : ls'.schema = ls.schema) :
    SameRecords t t' ↔ SameState sender appId s s' := by
  have haccount : s'.getOrDefaultAccount sender = s.getOrDefaultAccount sender := by
    unfold Store.getOrDefaultAccount
    rw [hown.accounts]
  constructor
  · intro hsame
    constructor
    · rw [← h.getAppParams, ← h'.getAppParams]
      exact hsame.apps appId
    · rw [← h.globalValues, ← h'.globalValues]
      exact hsame.globals appId
    · intro a ha
      have hlocals := hsame.locals a appId
      rw [h.localValues, h'.localValues, if_neg fun hk => ha (Prod.mk.inj hk).1,
        if_neg fun hk => ha (Prod.mk.inj hk).1] at hlocals
      exact hlocals
  · intro hstate
    constructor
    · intro a
      rw [h.accounts, h'.accounts, haccount, hschema, hown.accounts]
    · intro k
      rw [h.assetHoldings, h'.assetHoldings, hown.assetHoldings]
    · intro id
      rw [h.assetParams, h'.assetParams, hown.assetParams]
    · intro k
      rw [h.boxes, h'.boxes, hown.boxes]
    · intro id
      rw [h.getAppParams, h'.getAppParams]
      by_cases hid : id = appId
      · rw [hid]
        exact hstate.app
      · rw [hown.apps id hid]
    · intro id
      rw [h.globalValues, h'.globalValues]
      by_cases hid : id = appId
      · rw [hid]
        exact hstate.globals
      · unfold Ledger.globalValues
        rw [hown.apps id hid]
    · intro a id
      rw [h.locals, h'.locals]
      by_cases hk : (a, id) = (sender, appId)
      · rw [if_pos hk, if_pos hk]
      rw [if_neg hk, if_neg hk]
      by_cases hid : id = appId
      · rw [hid]
        exact hown.schemas a
      · rw [hown.locals a id hid]
    · intro a id
      rw [h.localValues, h'.localValues]
      by_cases hk : (a, id) = (sender, appId)
      · rw [if_pos hk, if_pos hk]
      rw [if_neg hk, if_neg hk]
      by_cases hid : id = appId
      · rw [hid]
        exact hstate.locals a fun ha => hk (by rw [ha, hid])
      · unfold Ledger.localValues
        rw [hown.locals a id hid]
    · rw [h.rest, h'.rest, hown.rest]

/-- Two stores that differ in the state of an application at most are left alike. -/
theorem leave_sameRecords_iff (hown : OwnStateOnly appId s s') (hsome : (s.getAppLocalState sender appId).isSome) :
    ∃ t t', leaveApplication e s sender appId = .ok t ∧ leaveApplication e s' sender appId = .ok t' ∧
      (SameRecords t t' ↔ SameState sender appId s s') := by
  obtain ⟨ls, hls⟩ := Option.isSome_iff_exists.1 hsome
  have hschemas := hown.schemas sender
  rw [hls] at hschemas
  obtain ⟨ls', hls', hschema⟩ := Option.map_eq_some_iff.1 hschemas
  obtain ⟨t, hleave, hleft⟩ := leaveApplication_spec (e := e) hls
  obtain ⟨t', hleave', hleft'⟩ := leaveApplication_spec (e := e) hls'
  exact ⟨t, t', hleave, hleave', hleft.sameRecords_iff hleft' hown hschema⟩

end Leaving

/-! ## Putting back -/

section PuttingBack

variable {s s' : Store} {addrs : List Address} {appId : Nat}

theorem lookup_boxes_restoreSnapshot (k : Nat × Bytes) :
    (s'.restoreSnapshot (s.snapshotWithIds addrs [] [appId])).boxes.lookup k =
      if k.1 = appId then s.boxes.lookup k else s'.boxes.lookup k := by
  have hkeys : (fun k : Nat × Bytes => decide (k.1 ∈ [appId])) = fun k => decide (k.1 = appId) := by
    funext k
    simp
  show (putBackOnly (fun k => decide (k.1 ∈ [appId])) s'.boxes
    ([appId].flatMap fun id => saveEntries s.boxes fun k => decide (k.1 = id))).lookup k = _
  rw [hkeys, List.flatMap_singleton, lookup_putBackOnly]
  simp

theorem getAppParams_putBack (hown : OwnStateOnly appId s s') (id : Nat) :
    (s'.restoreSnapshot (s.snapshotWithIds addrs [] [appId])).getAppParams id = s.getAppParams id := by
  unfold Store.getAppParams
  rw [lookup_appParams_restoreSnapshot]
  by_cases hid : id ∈ [appId]
  · rw [if_pos hid]
  · rw [if_neg hid]
    exact hown.apps id fun heq => hid (List.mem_singleton.2 heq)

theorem getAppLocalState_putBack (s s' : Store) (addrs : List Address) (appId : Nat) (a : Address) (id : Nat) :
    (s'.restoreSnapshot (s.snapshotWithIds addrs [] [appId])).getAppLocalState a id =
      if a ∈ addrs then s.getAppLocalState a id else s'.getAppLocalState a id :=
  lookup_appLocalStates_restoreSnapshot s s' addrs [] [appId] (a, id)

theorem localValues_putBack (s s' : Store) (addrs : List Address) (appId : Nat) (a : Address) (id : Nat) :
    localValues (s'.restoreSnapshot (s.snapshotWithIds addrs [] [appId])) a id =
      if a ∈ addrs then localValues s a id else localValues s' a id := by
  unfold localValues
  rw [getAppLocalState_putBack]
  by_cases ha : a ∈ addrs
  · rw [if_pos ha, if_pos ha]
  · rw [if_neg ha, if_neg ha]

/-- **What a failed program has written is put back, but for the local states of accounts that are not listed.** -/
theorem OwnStateOnly.putBack (hown : OwnStateOnly appId s s') (addrs : List Address) :
    OwnStateOnly appId s (s'.restoreSnapshot (s.snapshotWithIds addrs [] [appId])) where
  accounts a := by
    unfold Store.getAccount
    rw [lookup_accounts_restoreSnapshot]
    by_cases ha : a ∈ addrs
    · rw [if_pos ha]
    · rw [if_neg ha]
      exact hown.accounts a
  assetHoldings k := by
    rw [lookup_assetHoldings_restoreSnapshot]
    by_cases hk : k.1 ∈ addrs
    · rw [if_pos hk]
    · rw [if_neg hk]
      exact hown.assetHoldings k
  assetParams id := by
    rw [lookup_assetParams_restoreSnapshot, if_neg (by simp)]
    exact hown.assetParams id
  boxes k := by
    rw [lookup_boxes_restoreSnapshot]
    by_cases hk : k.1 = appId
    · rw [if_pos hk]
    · rw [if_neg hk]
      exact hown.boxes k
  apps id _ := getAppParams_putBack hown id
  locals a id hid := by
    rw [getAppLocalState_putBack]
    by_cases ha : a ∈ addrs
    · rw [if_pos ha]
    · rw [if_neg ha]
      exact hown.locals a id hid
  schemas a := by
    rw [getAppLocalState_putBack]
    by_cases ha : a ∈ addrs
    · rw [if_pos ha]
    · rw [if_neg ha]
      exact hown.schemas a
  rest := hown.rest

theorem sameState_putBack_iff {sender : Address} (hown : OwnStateOnly appId s s') (hsender : sender ∈ addrs) :
    SameState sender appId s (s'.restoreSnapshot (s.snapshotWithIds addrs [] [appId])) ↔
      ∀ a ∉ addrs, localValues s' a appId = localValues s a appId := by
  constructor
  · intro hsame a ha
    have hlocals := hsame.locals a fun heq => ha (by rw [heq]; exact hsender)
    rw [localValues_putBack, if_neg ha] at hlocals
    exact hlocals
  · intro hlocals
    constructor
    · rw [getAppParams_putBack hown]
    · unfold globalValues
      rw [getAppParams_putBack hown]
    · intro a _
      rw [localValues_putBack]
      by_cases ha : a ∈ addrs
      · rw [if_pos ha]
      · rw [if_neg ha]
        exact hlocals a ha

end PuttingBack

/-! ## Calls that clear state -/

theorem sender_mem_clearStateAddrs (txn : Transaction) : txn.sender ∈ clearStateAddrs txn := by
  have hkeep : ∀ (accounts addrs : List Address), txn.sender ∈ addrs →
      txn.sender ∈ accounts.foldl
        (fun addrs a => if a.isZero || addrs.contains a then addrs else addrs ++ [a]) addrs := by
    intro accounts
    induction accounts with
    | nil => exact fun _ h => h
    | cons a accounts ih =>
      intro addrs h
      apply ih
      simp only
      split
      · exact h
      · exact List.mem_append_left _ h
  exact hkeep _ _ List.mem_cons_self

theorem applyApplOnCompletion_clear {s : Store} {txn : Transaction} (hclear : txn.onCompletion = onCompletionClearState)
    (appId : Nat) (ctx : ApplErrorContext) (consensus : ConsensusParams) :
    applyApplOnCompletion s txn appId ctx consensus =
      leaveApplication (.clearStateNotOptedIn ctx txn.sender appId) s txn.sender appId := by
  unfold applyApplOnCompletion
  rw [hclear]
  rfl

/-- A call that clears state is begun for a sender that has joined. -/
theorem beginOuter_clear {s s₁ : Store} {stx : SignedTransaction} {n appId : Nat} {consensus : ConsensusParams}
    (hclear : stx.txn.onCompletion = onCompletionClearState) (h : beginOuter s stx n consensus = .ok (appId, s₁)) :
    (s₁.getAppLocalState stx.txn.sender appId).isSome := by
  unfold beginOuter at h
  split at h
  · cases h
  obtain ⟨⟨id, s₂⟩, -, h⟩ := Run.bind_eq_ok.1 h
  simp only at h
  split at h
  · rename_i hjoined
    cases h
    exact hjoined
  · cases h

theorem beginInner_clear {s s₁ : Store} {txn : Transaction} {n appId : Nat} {consensus : ConsensusParams}
    (hclear : txn.onCompletion = onCompletionClearState) (h : beginInner s txn n consensus = .ok (appId, s₁)) :
    (s₁.getAppLocalState txn.sender appId).isSome := by
  obtain ⟨⟨id, s₂⟩, -, h⟩ := Run.bind_eq_ok.1 h
  obtain ⟨s₃, -, h⟩ := Run.bind_eq_ok.1 h
  split at h
  · cases h
  rename_i hjoined
  split at h
  · cases h
  cases h
  by_contra hnone
  exact hjoined ⟨hclear, by simpa [Store.hasAppLocalState] using hnone⟩

/-- The store that a failed program of a call in a block leaves behind. -/
def putBackAfter (ctx : ApplyContext) (txn : Transaction) (appId : Nat) (s : Store) (writes : List AppWrite) : Store :=
  if clearProgramOf s appId = [] then s
  else (ClearRun.leaves ⟨writes, false⟩ s ctx.consensus appId).restoreSnapshot
    (s.snapshotWithIds (clearStateAddrs txn) [] [appId])

theorem applyApplClearState_failed {ctx : ApplyContext} {stx : SignedTransaction} {st : Store × Cells} {appId : Nat}
    {s : Store} (hclear : stx.txn.onCompletion = onCompletionClearState)
    (hbegin : beginApplyAppl ctx stx st = .ok (appId, s)) (writes : List AppWrite) :
    applyApplClearState ctx stx st ⟨writes, false⟩ =
      (leaveApplication (.clearStateNotOptedIn .outer stx.txn.sender appId) (putBackAfter ctx stx.txn appId s writes)
        stx.txn.sender appId).mapError .inr := by
  unfold applyApplClearState
  rw [hbegin, Run.ok_bind]
  simp only [applyApplOnCompletion_clear hclear]
  rfl

/-- What is put back differs from the start in the states of the application at most. -/
theorem ownStateOnly_putBackAfter (ctx : ApplyContext) (txn : Transaction) (appId : Nat) (s : Store)
    (writes : List AppWrite) :
    OwnStateOnly appId s (putBackAfter ctx txn appId s writes) := by
  unfold putBackAfter
  split
  · exact .refl s
  · exact (OwnStateOnly.leaves _ s ctx.consensus appId).putBack _

theorem sameState_putBackAfter_iff (ctx : ApplyContext) (txn : Transaction) (appId : Nat) (s : Store)
    (writes : List AppWrite) :
    SameState txn.sender appId s (putBackAfter ctx txn appId s writes) ↔ clearProgramOf s appId = [] ∨
      ∀ a ∉ clearStateAddrs txn,
        localValues (ClearRun.leaves ⟨writes, false⟩ s ctx.consensus appId) a appId = localValues s a appId := by
  unfold putBackAfter
  by_cases hprogram : clearProgramOf s appId = []
  · rw [if_pos hprogram]
    exact ⟨fun _ => .inl hprogram, fun _ => ⟨rfl, rfl, fun _ _ => rfl⟩⟩
  · rw [if_neg hprogram, sameState_putBack_iff (OwnStateOnly.leaves _ s ctx.consensus appId)
      (sender_mem_clearStateAddrs txn)]
    exact ⟨.inr, fun h => h.resolve_left hprogram⟩

/-- **When a failed clear state program has no effect.**  In a block: exactly when it leaves the local values of all
accounts as they were, except those of the sender and of the accounts that the transaction lists.  Called by a program:
exactly when it leaves the record and the global values of the application and the local values of all accounts but the
sender as they were.  Without effect, the sender has left and nothing else has changed since the program started. -/
theorem failed_clearState_noEffect_iff (writes : List AppWrite) (appId : Nat) :
    (∀ (ctx : ApplyContext) (stx : SignedTransaction) (st : Store × Cells) (s : Store),
      stx.txn.onCompletion = onCompletionClearState → beginApplyAppl ctx stx st = .ok (appId, s) →
        ∃ left rejected t,
          leaveApplication (.clearStateNotOptedIn .outer stx.txn.sender appId) s stx.txn.sender appId = .ok left ∧
          applyApplClearState ctx stx st ⟨[], false⟩ = .ok rejected ∧ SameRecords left rejected ∧
          applyApplClearState ctx stx st ⟨writes, false⟩ = .ok t ∧
          (SameRecords rejected t ↔ clearProgramOf s appId = [] ∨ ∀ a ∉ clearStateAddrs stx.txn,
            localValues (ClearRun.leaves ⟨writes, false⟩ s ctx.consensus appId) a appId = localValues s a appId)) ∧
    ∀ (consensus : ConsensusParams) (txn : Transaction) (txnCounter : Nat) (s₀ s : Store),
      txn.onCompletion = onCompletionClearState → beginInner s₀ txn txnCounter consensus = .ok (appId, s) →
        ∃ rejected t, leaveApplication (.clearStateNotOptedIn .inner txn.sender appId) s txn.sender appId =
          .ok rejected ∧
          executeInnerClearState consensus txn txnCounter s₀ ⟨[], false⟩ = .ok rejected ∧
          executeInnerClearState consensus txn txnCounter s₀ ⟨writes, false⟩ = .ok t ∧
          (SameRecords rejected t ↔
            SameState txn.sender appId s (ClearRun.leaves ⟨writes, false⟩ s consensus appId)) := by
  constructor
  · intro ctx stx st s hclear hbegin
    obtain ⟨st₁, -, hbegin'⟩ := Run.bind_eq_ok.1 hbegin
    have hjoined := beginOuter_clear hclear (Run.mapError_eq_ok.1 hbegin')
    have hown := ownStateOnly_putBackAfter ctx stx.txn appId s
    -- where the program rejects at once, putting back changes nothing
    have hsame : SameState stx.txn.sender appId s (putBackAfter ctx stx.txn appId s []) :=
      (sameState_putBackAfter_iff ctx stx.txn appId s []).2 (.inr fun _ _ => rfl)
    obtain ⟨left, rejected, hleft, hrejected, hiff⟩ := @leave_sameRecords_iff
      (.clearStateNotOptedIn .outer stx.txn.sender appId) _ _ _ _ (hown []) hjoined
    obtain ⟨left', t, hleft', ht, hiff'⟩ := @leave_sameRecords_iff
      (.clearStateNotOptedIn .outer stx.txn.sender appId) _ _ _ _ (hown writes) hjoined
    refine ⟨left, rejected, t, hleft, ?_, hiff.2 hsame, ?_, ?_⟩
    · rw [applyApplClearState_failed hclear hbegin, hrejected]
      rfl
    · rw [applyApplClearState_failed hclear hbegin, ht]
      rfl
    · obtain rfl := Except.ok.inj (hleft.symm.trans hleft')
      rw [← sameState_putBackAfter_iff, ← hiff']
      exact ⟨fun h => (hiff.2 hsame).trans h, fun h => (hiff.2 hsame).symm.trans h⟩
  · intro consensus txn txnCounter s₀ s hclear hbegin
    have hinner : ∀ run, executeInnerClearState consensus txn txnCounter s₀ run =
        leaveApplication (.clearStateNotOptedIn .inner txn.sender appId)
          (run.leaves s consensus appId) txn.sender appId := by
      intro run
      unfold executeInnerClearState
      rw [hbegin, Run.ok_bind]
      exact applyApplOnCompletion_clear hclear appId .inner consensus
    obtain ⟨rejected, t, hrejected, ht, hiff⟩ := @leave_sameRecords_iff
      (.clearStateNotOptedIn .inner txn.sender appId) _ _ _ _
      (OwnStateOnly.leaves ⟨writes, false⟩ s consensus appId) (beginInner_clear hclear hbegin)
    exact ⟨rejected, t, hrejected, (hinner _).trans hrejected, (hinner _).trans ht, hiff⟩

def clearSampleStore : Store := deltaSampleStore.setAppParams 1
    { deltaSampleApp with clearStateProgram := sampleProgram }

def clearSampleCall : SignedTransaction :=
  { (default : SignedTransaction) with txn := sampleCall ⟨2⟩ 1 onCompletionClearState }

def clearSampleContext : ApplyContext := ⟨0, ⟨8⟩, 1, .execute, false, false, schemaSampleConsensus⟩

/-- The program writes the local state of an account that the transaction does not list, and rejects. -/
def clearSampleRun : ClearRun := ⟨[.state (.localPut ⟨9⟩ [98] (.uint 5))], false⟩

/-- The program writes the global state of its application, and rejects. -/
def clearSampleInnerRun : ClearRun := ⟨[.state (.globalPut [97] (.uint 8))], false⟩

/-- The value that a failed program wrote stays, in a block and in a call of another program. -/
theorem failed_clearState_leaves_values :
    (∃ rejected t, applyApplClearState clearSampleContext clearSampleCall (clearSampleStore, default) ⟨[], false⟩ =
      .ok rejected ∧
      applyApplClearState clearSampleContext clearSampleCall (clearSampleStore, default) clearSampleRun = .ok t ∧
      ¬ SameRecords rejected t) ∧
    ∃ rejected t, executeInnerClearState schemaSampleConsensus clearSampleCall.txn 0 clearSampleStore ⟨[], false⟩ =
      .ok rejected ∧
      executeInnerClearState schemaSampleConsensus clearSampleCall.txn 0 clearSampleStore clearSampleInnerRun = .ok t ∧
      ¬ SameRecords rejected t := by
  constructor
  · obtain ⟨rejected, hrejected, hbefore⟩ := @Run.ok_of_any _ _
      (applyApplClearState clearSampleContext clearSampleCall (clearSampleStore, default) ⟨[], false⟩)
      (fun s => decide ((localValues s ⟨9⟩ 1).map (fun f => f [98]) = some none)) (by decide)
    obtain ⟨t, ht, hafter⟩ := @Run.ok_of_any _ _
      (applyApplClearState clearSampleContext clearSampleCall (clearSampleStore, default) clearSampleRun)
      (fun s => decide ((localValues s ⟨9⟩ 1).map (fun f => f [98]) = some (some (.uint 5)))) (by decide)
    refine ⟨rejected, t, hrejected, ht, fun hsame => ?_⟩
    have hvalue := of_decide_eq_true hafter
    rw [hsame.locals, of_decide_eq_true hbefore] at hvalue
    cases hvalue
  · obtain ⟨rejected, hrejected, hbefore⟩ := @Run.ok_of_any _ _
      (executeInnerClearState schemaSampleConsensus clearSampleCall.txn 0 clearSampleStore ⟨[], false⟩)
      (fun s => decide ((globalValues s 1).map (fun f => f [97]) = some (some (.uint 7)))) (by decide)
    obtain ⟨t, ht, hafter⟩ := @Run.ok_of_any _ _
      (executeInnerClearState schemaSampleConsensus clearSampleCall.txn 0 clearSampleStore clearSampleInnerRun)
      (fun s => decide ((globalValues s 1).map (fun f => f [97]) = some (some (.uint 8)))) (by decide)
    refine ⟨rejected, t, hrejected, ht, fun hsame => ?_⟩
    have hvalue := of_decide_eq_true hafter
    rw [hsame.globals, of_decide_eq_true hbefore] at hvalue
    cases hvalue

/-- In a block a failed program may write global values, and in a call of another program it may repeat one. -/
theorem failed_clearState_noEffect_sample :
    (∃ rejected t, applyApplClearState clearSampleContext clearSampleCall (clearSampleStore, default) ⟨[], false⟩ =
      .ok rejected ∧
      applyApplClearState clearSampleContext clearSampleCall (clearSampleStore, default) clearSampleInnerRun = .ok t ∧
      SameRecords rejected t) ∧
    ∃ rejected t, executeInnerClearState schemaSampleConsensus clearSampleCall.txn 0 clearSampleStore ⟨[], false⟩ =
      .ok rejected ∧
      executeInnerClearState schemaSampleConsensus clearSampleCall.txn 0 clearSampleStore
        ⟨[.state (.globalPut [97] (.uint 7))], false⟩ = .ok t ∧ SameRecords rejected t := by
  constructor
  · obtain ⟨⟨appId, s⟩, hbegin, -⟩ := @Run.ok_of_any _ _
      (beginApplyAppl clearSampleContext clearSampleCall (clearSampleStore, default)) (fun _ => true) (by decide)
    obtain ⟨-, rejected, t, -, hrejected, -, ht, hiff⟩ :=
      (failed_clearState_noEffect_iff clearSampleInnerRun.writes appId).1
      clearSampleContext clearSampleCall (clearSampleStore, default) s rfl hbegin
    refine ⟨rejected, t, hrejected, ht, hiff.2 (.inr fun a _ => ?_)⟩
    obtain ⟨rfl, rfl⟩ := Prod.mk.inj (Except.ok.inj hbegin)
    rfl
  · have hbegin : beginInner clearSampleStore clearSampleCall.txn 0 schemaSampleConsensus =
      .ok (1, clearSampleStore) := rfl
    obtain ⟨rejected, t, -, hrejected, ht, hiff⟩ := (failed_clearState_noEffect_iff
      [.state (.globalPut [97] (.uint 7))] 1).2
      schemaSampleConsensus clearSampleCall.txn 0 clearSampleStore clearSampleStore rfl hbegin
    exact ⟨rejected, t, hrejected, ht, hiff.2 ⟨rfl, rfl, fun _ _ => rfl⟩⟩

end Ledger
end Algod
