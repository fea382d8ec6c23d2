import AlgodRust.Ledger.BoxAccounting
import AlgodRust.Ledger.ClearState
import AlgodRust.Ledger.Conservation
/-!
# CounterRuns — the counters of applications over runs of calls

A call is one of a block or one that a program makes, and its program writes values and boxes and issues transactions
in turn.  Of all this only the operations on applications change sizes and counters, and they change them together
(`AppCounters`), with three exceptions: a creation under an identifier in use, a resizing by the zero address, and a
payment that closes an account which still answers for the size of an application.  A run without these keeps the
counters in step with the ledger; the first of them is open to every call in a block, since the identifier that a block
records is used in every mode.
-/
namespace Algod
namespace Ledger

open Msgpack (Bytes)

/-! ## What keeps sizes -/

section Records

variable {s s' : Store}

theorem SizesKept.setAccount {a : Address} {account : AccountData}
    (h : ∀ c, account.counter c = (s.getOrDefaultAccount a).counter c) : SizesKept s (s.setAccount a account) :=
  ⟨fun b c => counter_setAccount_same (h c) b, fun _ _ _ => rfl, fun _ _ => rfl⟩

theorem SizesKept.setAppParams {id : Nat} {app app' : AppParams} (hget : s.getAppParams id = some app)
    (hshare : ∀ a c, app'.share a c = app.share a c) : SizesKept s (s.setAppParams id app') := by
  refine ⟨fun _ _ => rfl, fun id' a c => ?_, fun _ _ => rfl⟩
  rw [getAppParams_setAppParams]
  split
  · rename_i heq
    rw [heq, hget, Option.map_some, Option.map_some, hshare]
  · rfl

theorem SizesKept.setAppLocalState {a : Address} {id : Nat} {ls : AppLocalState}
    (hget : s.getAppLocalState a id = some ls) (kv : FinMap Bytes TealValue) :
    SizesKept s (s.setAppLocalState a id { ls with keyValue := kv }) := by
  refine ⟨fun _ _ => rfl, fun _ _ _ => rfl, fun a' id' => ?_⟩
  rw [getAppLocalState_setAppLocalState]
  split
  · rename_i heq
    obtain ⟨rfl, rfl⟩ := Prod.mk.inj heq
    rw [hget]
    rfl
  · rfl

/-- Balances, rewards and keys are not sizes. -/
theorem Settles.sizesKept (h : Settles s s') : SizesKept s s' := by
  refine ⟨fun a c => ?_, fun id a c => ?_, fun a id => ?_⟩
  · have heq := congrArg (fun d => d.counter c) (h.account a)
    cases c <;> exact heq
  · unfold Store.getAppParams
    rw [h.appParams]
  · unfold Store.getAppLocalState
    rw [h.appLocalStates]

/-- Neither are assets. -/
theorem assetStable_sizesKept (s : Store) : AssetStable (SizesKept s) where
  assets _ _ h := ⟨h.counter, h.app, h.localState⟩
  counts _ _ _ h := h.trans (.setAccount (fun c => by cases c <;> rfl))

theorem applyKeyreg_sizesKept {txn : Transaction} {round : Nat} {consensus : ConsensusParams}
    (h : applyKeyreg s txn round consensus = .ok s') : SizesKept s s' := by
  obtain ⟨-, d, rfl, hd⟩ := applyKeyreg_registers h
  refine .setAccount (fun c => ?_)
  have heq := congrArg (fun d => d.counter c) hd
  cases c <;> exact heq

/-- A snapshot of a store with the same sizes has them too, whatever it covers. -/
theorem SizesKept.restoreSnapshot (h : SizesKept s s') (addrs : List Address) (assetIds appIds : List Nat) :
    SizesKept s (s'.restoreSnapshot (s.snapshotWithIds addrs assetIds appIds)) := by
  refine ⟨fun a c => ?_, fun id a c => ?_, fun a id => ?_⟩
  · have hcounter := h.counter a c
    unfold Store.getOrDefaultAccount Store.getAccount at hcounter ⊢
    rw [lookup_accounts_restoreSnapshot]
    split
    · rfl
    · exact hcounter
  · have happ := h.app id a c
    unfold Store.getAppParams at happ ⊢
    rw [lookup_appParams_restoreSnapshot]
    split
    · rfl
    · exact happ
  · have hlocal := h.localState a id
    unfold Store.getAppLocalState at hlocal ⊢
    rw [lookup_appLocalStates_restoreSnapshot]
    split
    · rfl
    · exact hlocal

end Records

/-! ## What a program writes -/

section Writes

theorem setFlags_sizesKept {c c' : StateContext} {f : AppParams → AppParams} (h : c.setFlags f = .ok c')
    (hf : ∀ app a i, (f app).share a i = app.share a i) : SizesKept c.store c'.store := by
  unfold StateContext.setFlags at h
  split at h <;> cases h
  rename_i app hget
  exact .setAppParams hget (hf app)

theorem AppWrite.sizesKept {c c' : StateContext} {w : AppWrite} (h : w.perform c = .ok c') :
    SizesKept c.store c'.store := by
  cases w with
  | state op =>
    rcases StateOp.perform_store h with heq | ⟨a, ls, kv, hget, -, heq⟩ | ⟨app, state, hget, -, heq⟩
    · rw [heq]
      exact .refl _
    · rw [heq]
      exact .setAppLocalState hget kv
    · rw [heq]
      exact .setAppParams hget (fun a i => by cases i <;> rfl)
  | setForeignBoxReads enable => exact setFlags_sizesKept h (fun app a i => by cases i <;> rfl)
  | setFamilyBoxAccess enable => exact setFlags_sizesKept h (fun app a i => by cases i <;> rfl)

/-- By induction on the writes. -/
theorem stoppedAt_sizesKept (writes : List AppWrite) (c : StateContext) :
    SizesKept c.store (stoppedAt c writes).store := by
  induction writes generalizing c with
  | nil => exact .refl _
  | cons w writes ih =>
    unfold stoppedAt
    cases hw : w.perform c with
    | error e => exact .refl _
    | ok c' => exact (AppWrite.sizesKept hw).trans (ih c')

variable {τ : Type} {cap : CapacityOps τ} {appAddress : Nat → Address} {c c' : BoxContext τ} {app : Nat} {name : Bytes}

/-- Finding out about a box leaves the store as it is. -/
theorem availableAppBox_store {operation : BoxOperation} {createSize : Nat} {found : Option Bytes}
    (h : availableAppBox cap c app name operation createSize = .ok (found, c')) : c'.store = c.store := by
  unfold availableAppBox at h
  split at h
  · cases h
  split at h
  · cases h
  obtain ⟨c₁, h₁, h⟩ := Run.bind_eq_ok.1 h
  obtain ⟨⟨newAppAccess, c₂⟩, h₂, h⟩ := Run.bind_eq_ok.1 h
  obtain ⟨c₃, h₃, h⟩ := Run.bind_eq_ok.1 h
  have hg : Grants c c₃ := (((ensureBoxesInitialized_grants c).trans (checkReadBudget_grants h₁)).trans
    (findAccess_spec h₂).1).trans (authorizeBoxAccess_grants h₃)
  simp only at h
  split at h
  · split at h <;> cases h
    exact hg.store
  · obtain ⟨c₄, h₄, h⟩ := Run.bind_eq_ok.1 h
    cases h
    exact (hg.trans (trackDirty_grants h₄).1).store

theorem setBox_sizesKept {s s' : Store} {contents : Bytes} (h : s.setBox app name contents = .ok s') : SizesKept s s' := by
  rw [(setBox_eq_ok h).2]
  exact ⟨fun _ _ => rfl, fun _ _ _ => rfl, fun _ _ => rfl⟩

theorem writeBox_sizesKept {owner : Address} {account : AccountData} {contents : Bytes}
    (h : writeBox c owner account app name contents = .ok c')
    (hcounter : ∀ i, account.counter i = (c.store.getOrDefaultAccount owner).counter i) : SizesKept c.store c'.store := by
  obtain ⟨s, hs, h⟩ := Run.bind_eq_ok.1 h
  cases h
  exact (SizesKept.setAccount hcounter).trans (setBox_sizesKept hs)

/-- **An operation on a box leaves applications, local states and their counters alone.** -/
theorem perform_sizesKept {r : BoxRequest} {answer : BoxAnswer} (h : perform cap appAddress c r = .ok (answer, c')) :
    SizesKept c.store c'.store := by
  cases perform_effect h with
  | read haccess | found haccess | absent haccess =>
    rw [availableAppBox_store haccess]
    exact .refl _
  | rewrite haccess hlen hset =>
    rw [← availableAppBox_store haccess]
    exact setBox_sizesKept hset
  | newBox hop haccess hlen hwrite | resize haccess hlen hwrite =>
    rw [← availableAppBox_store haccess]
    exact writeBox_sizesKept hwrite (fun i => by cases i <;> rfl)
  | delete haccess =>
    rw [← availableAppBox_store haccess]
    exact (SizesKept.setAccount (fun i => by cases i <;> rfl)).trans ⟨fun _ _ => rfl, fun _ _ _ => rfl, fun _ _ => rfl⟩

end Writes

/-! ## Transactions that a program issues -/

inductive InnerTxnError
  | unauthorized (authorizer : Address)
  | noFeeSink
  | ledger (e : ApplyError)

/-- What happens to the store before a transaction that a program issues is dispatched: the program's application must
be the one that may sign for the sender, rewards are claimed, the fee is paid and the sender is rekeyed. -/
def prepareInner (ctx : ApplyContext) (appAddress : Address) (txn : Transaction) (st : Store × Cells) :
    Except InnerTxnError (Store × Cells) :=
  let authorizer := (st.1.getOrDefaultAccount txn.sender).authAddr.getD txn.sender
  if authorizer ≠ appAddress then .error (.unauthorized authorizer)
  else do
    let pass ← (applyRewardsPass txn ctx.rewardsLevel ctx.consensus st.1 (rewardParticipants txn)).mapError .ledger
    let st ← if txn.fee = 0 then .ok (pass.1, st.2)
      else if ctx.feeSink.isZero then .error .noFeeSink
      else (applyFee ctx txn.sender txn.fee (pass.1, st.2)).mapError .ledger
    .ok (applyRekey st.1 txn, st.2)

/-- Whether a transaction closes its sender's account. -/
def closesAccount (txn : Transaction) : Bool := txn.txnType.is "pay" && !txn.closeRemainderTo.isZero

section Inner

variable {ctx : ApplyContext} {stx : SignedTransaction} {st st' : Store × Cells} {s' : Store}

theorem prepareInner_settles {appAddress : Address} {txn : Transaction}
    (h : prepareInner ctx appAddress txn st = .ok st') : Settles st.1 st'.1 := by
  unfold prepareInner at h
  simp only at h
  split at h
  · cases h
  obtain ⟨pass, hpass, h⟩ := Run.bind_eq_ok.1 h
  have hclaimed := applyRewardsPass_settles (Run.mapError_eq_ok.1 hpass)
  split at h
  · cases h
    exact hclaimed.trans (applyRekey_settles _ _)
  split at h
  · cases h
  obtain ⟨st₁, hfee, h⟩ := Run.bind_eq_ok.1 h
  cases h
  exact (hclaimed.trans (applyFee_settles (Run.mapError_eq_ok.1 hfee))).trans (applyRekey_settles _ _)

/-- Closing an account resets its counters, so they must have been zero. -/
theorem payClose_sizesKept {s : Store} {txn : Transaction} {level : Nat} {consensus : ConsensusParams} {r : Store × Nat}
    (hzero : txn.closeRemainderTo.isZero = false → ∀ c, (s.getOrDefaultAccount txn.sender).counter c = 0)
    (h : payClose s txn level consensus = .ok r) : SizesKept s r.1 := by
  unfold payClose at h
  split at h
  · cases h
    exact .refl _
  rename_i hcloses
  have hreset : SizesKept s (s.setAccount txn.sender default) := by
    refine .setAccount (fun c => ?_)
    rw [hzero (Bool.eq_false_iff.2 hcloses)]
    cases c <;> rfl
  obtain ⟨_, -, h⟩ := Run.bind_eq_ok.1 h
  simp only at h
  split at h
  · obtain ⟨s₁, hs, h⟩ := Run.bind_eq_ok.1 h
    cases h
    exact hreset.trans (credit_settles hs).sizesKept
  · cases h
    exact hreset

/-- **A transaction other than an application call keeps sizes** where it closes no account with counters. -/
theorem PlainEffect.sizesKept (h : PlainEffect ctx stx st s')
    (hzero : closesAccount stx.txn = true → ∀ c, (st.1.getOrDefaultAccount stx.txn.sender).counter c = 0) :
    SizesKept st.1 s' := by
  cases h with
  | pay htype hr =>
    obtain ⟨s₁, hs, hr⟩ := Run.bind_eq_ok.1 hr
    have hpaid := (payTransfer_settles hs).sizesKept
    refine hpaid.trans (payClose_sizesKept (fun hcloses c => ?_) hr)
    rw [hpaid.counter]
    exact hzero (by rw [closesAccount, htype, hcloses]; rfl) c
  | acfg _ hr => exact (assetStable_sizesKept st.1).applyAcfg (.refl _) hr
  | axfer _ hr => exact (assetStable_sizesKept st.1).applyAxfer (.refl _) hr
  | afrz _ hs => exact (assetStable_sizesKept st.1).applyAfrz (.refl _) hs
  | keyreg _ hs => exact applyKeyreg_sizesKept hs

end Inner

/-! ## Runs -/

/-- What a run does to applications and could do to counters alone. -/
inductive AppStep
  | create (txn : Transaction) (id : Nat)
  | complete (txn : Transaction) (id : Nat)
  | pay (txn : Transaction)

/-- **The steps after which counters still match**: an application is created under a new identifier, it is not resized
by the zero address unless that created it, and no account is closed that counts applications. -/
def AppStep.Sound (s : Store) : AppStep → Prop
  | .create txn id => txn.applicationId = 0 → s.getAppParams id = none
  | .complete txn id => txn.onCompletion = onCompletionUpdate → ResizesSoundly s txn id
  | .pay txn => closesAccount txn = true → ∀ c, (s.getOrDefaultAccount txn.sender).counter c = 0

section Runs

variable (appAddress : Nat → Address) (ok : Store → AppStep → Prop)

/-- **What a program does**, from a store and a counter of transactions to another: it writes state, flags and boxes and
issues transactions, of which application calls run programs of their own.  Every step meets `ok`; no counter
overflows.  A program whose transactions fail does not approve, so nothing of it is left. -/
inductive Ran (ctx : ApplyContext) : (app : Nat) → Store → Nat → Store → Nat → Prop
  | done (app : Nat) (s : Store) (n : Nat) : Ran ctx app s n s n
  | write {s' : Store} {n n' : Nat} {c c' : StateContext} {w : AppWrite} (hdone : w.perform c = .ok c')
      (hrest : Ran ctx c.appId c'.store n s' n') : Ran ctx c.appId c.store n s' n'
  | box {s' : Store} {n n' : Nat} {τ : Type} {cap : CapacityOps τ} {c c' : BoxContext τ} {r : BoxRequest}
      {answer : BoxAnswer} (hdone : perform cap appAddress c r = .ok (answer, c'))
      (hrest : Ran ctx c.appId c'.store n s' n') : Ran ctx c.appId c.store n s' n'
  | issue {app n n' : Nat} {s s₁ s' : Store} {cells : Cells} {st : Store × Cells} (stx : SignedTransaction)
      (hprepare : prepareInner ctx (appAddress app) stx.txn (s, cells) = .ok st) (hok : ok st.1 (.pay stx.txn))
      (heffect : PlainEffect ctx stx (st.1, { st.2 with txnCounter := wrapAdd n 1 }) s₁)
      (hrest : Ran ctx app s₁ (wrapAdd n 1) s' n') : Ran ctx app s n s' n'
  | call {app n n₁ n' id : Nat} {s s₁ s₂ s₃ s' : Store} {cells : Cells} {st : Store × Cells} (txn : Transaction)
      (hprepare : prepareInner ctx (appAddress app) txn (s, cells) = .ok st)
      (hcreate : ok st.1 (.create txn (wrapAdd (wrapAdd n 1) 1)))
      (hbegin : beginInner st.1 txn (wrapAdd n 1) ctx.consensus = .ok (id, s₁)) (hfit : CountersFit s₁)
      (hran : Ran ctx id s₁ (wrapAdd n 1) s₂ n₁) (hok : ok s₂ (.complete txn id))
      (hend : applyApplOnCompletion s₂ txn id .inner ctx.consensus = .ok s₃) (hfit' : CountersFit s₃)
      (hrest : Ran ctx app s₃ n₁ s' n') : Ran ctx app s n s' n'

/-- **What a successful `apply_appl` does in Execute mode**: the fee is paid, an application is created or joined as the
transaction asks, the approval program runs and the call completes.  A program that clears state writes only state and
flags; where it fails its writes are put back and the call completes all the same. -/
inductive ApplCall (ctx : ApplyContext) (stx : SignedTransaction) (st : Store × Cells) : Store × Cells → Prop
  | approved {id n : Nat} {s₁ s₂ s₃ : Store} {cells : Cells} (hclear : stx.txn.onCompletion ≠ onCompletionClearState)
      (hcreate : ok st.1 (.create stx.txn (newOuterId stx st.2.txnCounter)))
      (hbegin : beginApplyAppl ctx stx st = .ok (id, s₁)) (hfit : CountersFit s₁)
      (hran : Ran appAddress ok ctx id s₁ st.2.txnCounter s₂ n) (hok : ok s₂ (.complete stx.txn id))
      (hend : applyApplOnCompletion s₂ stx.txn id .outer ctx.consensus = .ok s₃) (hfit' : CountersFit s₃)
      (hcells : cells.txnCounter = n) : ApplCall ctx stx st (s₃, cells)
  | cleared {s₁ s₃ : Store} {id : Nat} {cells : Cells} (run : ClearRun)
      (hclear : stx.txn.onCompletion = onCompletionClearState)
      (hcreate : ok st.1 (.create stx.txn (newOuterId stx st.2.txnCounter)))
      (hbegin : beginApplyAppl ctx stx st = .ok (id, s₁)) (hfit : CountersFit s₁)
      (hdone : applyApplClearState ctx stx st run = .ok s₃) (hfit' : CountersFit s₃)
      (hcells : cells.txnCounter = st.2.txnCounter) : ApplCall ctx stx st (s₃, cells)

/-- **A sequence of application calls in Execute mode that all succeed**, each a transaction of a block. -/
inductive AppliedCalls : Store × Cells → Store × Cells → Prop
  | done (st : Store × Cells) : AppliedCalls st st
  | call {st st₁ st' : Store × Cells} {ext : Externals} {ctx : ApplyContext} {stx : SignedTransaction} {ad : ApplyData}
      (hmode : ctx.mode = .execute) (hpages : ctx.consensus.enableProperExtraPageAccounting = true)
      (htype : stx.txn.txnType.is "appl" = true) (hdone : applyTransaction ext ctx 0 st stx = .ok (st₁, ad))
      (hcall : ∀ pass r, applyRewardsPass stx.txn ctx.rewardsLevel ctx.consensus st.1 (rewardParticipants stx.txn) =
        .ok pass →
        ext.applyAppl ctx 0 stx (applyRekey pass.1 stx.txn, st.2) = .ok r →
        ApplCall appAddress ok ctx stx (applyRekey pass.1 stx.txn, st.2) r.1)
      (hrest : AppliedCalls st₁ st') : AppliedCalls st st'

end Runs

section Preserved

variable {appAddress : Nat → Address} {ctx : ApplyContext} {stx : SignedTransaction} {st st' : Store × Cells}

/-- By induction on what the program does. -/
theorem Ran.counters {app n n' : Nat} {s s' : Store} (hpages : ctx.consensus.enableProperExtraPageAccounting = true)
    (h : Ran appAddress AppStep.Sound ctx app s n s' n') (hmatch : CountersMatch s) : CountersMatch s' := by
  induction h with
  | done app s n => exact hmatch
  | write hdone _ ih => exact ih ((AppWrite.sizesKept hdone).counters hmatch)
  | box hdone _ ih => exact ih ((perform_sizesKept hdone).counters hmatch)
  | issue stx hprepare hok heffect _ ih =>
    have hprepared := (prepareInner_settles hprepare).sizesKept
    exact ih ((hprepared.trans (heffect.sizesKept hok)).counters hmatch)
  | call txn hprepare hcreate hbegin hfit _ hok hend hfit' _ ihran ih =>
    have hprepared := (prepareInner_settles hprepare).sizesKept.counters hmatch
    have hbegun := beginInner_counters hcreate hprepared hbegin hfit
    exact ih (applyApplOnCompletion_counters hpages hok (ihran hbegun) hend hfit')

theorem beginApplyAppl_counters {st : Store × Cells} {id : Nat} {s₁ : Store}
    (hsound : AppStep.Sound st.1 (.create stx.txn (newOuterId stx st.2.txnCounter))) (hmatch : CountersMatch st.1)
    (h : beginApplyAppl ctx stx st = .ok (id, s₁)) (hfit : CountersFit s₁) : CountersMatch s₁ := by
  obtain ⟨st₁, hfee, h⟩ := Run.bind_eq_ok.1 h
  have hfee := Run.mapError_eq_ok.1 hfee
  have hsettles := applyFee_settles hfee
  refine beginOuter_counters (fun hcreates => ?_) (hsettles.sizesKept.counters hmatch) (Run.mapError_eq_ok.1 h) hfit
  rw [applyFee_txnCounter hfee, Store.getAppParams, hsettles.appParams]
  exact hsound hcreates

theorem ApplCall.counters (hpages : ctx.consensus.enableProperExtraPageAccounting = true)
    (h : ApplCall appAddress AppStep.Sound ctx stx st st') (hmatch : CountersMatch st.1) : CountersMatch st'.1 := by
  cases h with
  | approved _ hcreate hbegin hfit hran hok hend hfit' _ =>
    have hbegun := beginApplyAppl_counters hcreate hmatch hbegin hfit
    exact applyApplOnCompletion_counters hpages hok (hran.counters hpages hbegun) hend hfit'
  | @cleared s₁ _ id _ run hclear hcreate hbegin hfit hdone hfit' _ =>
    have hbegun := beginApplyAppl_counters hcreate hmatch hbegin hfit
    unfold applyApplClearState at hdone
    rw [hbegin] at hdone
    have hend := Run.mapError_eq_ok.1 hdone
    refine applyApplOnCompletion_counters hpages (fun hupdate => ?_) (SizesKept.counters ?_ hbegun) hend hfit'
    · rw [hclear] at hupdate
      cases hupdate
    · split
      · exact .refl _
      · have hleft := stoppedAt_sizesKept run.writes (StateContext.new s₁ ctx.consensus id)
        simp only
        split
        · exact hleft
        · exact SizesKept.restoreSnapshot hleft _ _ _

/-- What surrounds an application call. -/
theorem applyTransaction_appl {ext : Externals} {depth : Nat} {ad : ApplyData}
    (htype : stx.txn.txnType.is "appl" = true) (h : applyTransaction ext ctx depth st stx = .ok (st', ad)) :
    ∃ pass r ad₁, applyRewardsPass stx.txn ctx.rewardsLevel ctx.consensus st.1 (rewardParticipants stx.txn) = .ok pass ∧
      ext.applyAppl ctx depth stx (applyRekey pass.1 stx.txn, st.2) = .ok r ∧
      finishTransaction ext ctx depth stx.txn (snapshotAddrs ctx st.1 stx.txn) r.1 ad₁ = .ok (st', ad) := by
  have hno : ∀ {name : String}, name ≠ "appl" → stx.txn.txnType.is name = false := fun hne =>
    Bool.eq_false_iff.2 (fun hname => hne (TxnType.is_eq hname htype))
  unfold applyTransaction applyByType applyRecordedDelta at h
  simp only [hno (show "stpf" ≠ "appl" by decide), hno (show "pay" ≠ "appl" by decide), hno (show "acfg" ≠ "appl" by decide),
    hno (show "axfer" ≠ "appl" by decide), hno (show "afrz" ≠ "appl" by decide), htype, Bool.false_eq_true, if_false,
    if_true] at h
  obtain ⟨pass, hpass, h⟩ := Run.bind_eq_ok.1 h
  obtain ⟨⟨st₂, ad₂⟩, hcall, h⟩ := Run.bind_eq_ok.1 h
  obtain ⟨r, hr, heq⟩ := Run.bind_eq_ok.1 hcall
  obtain ⟨rfl, -⟩ := Prod.mk.inj (Except.ok.inj heq)
  exact ⟨pass, r, _, hpass, hr, h⟩

/-- By induction on the calls. -/
theorem AppliedCalls.counters (h : AppliedCalls appAddress AppStep.Sound st st')
    (hmatch : CountersMatch st.1) : CountersMatch st'.1 := by
  induction h with
  | done st => exact hmatch
  | @call _ _ _ _ _ stx _ _ hpages htype hdone hcall _ ih =>
    obtain ⟨pass, r, ad₁, hpass, hr, hfinish⟩ := applyTransaction_appl htype hdone
    have hrekeyed := (applyRewardsPass_settles hpass).trans (applyRekey_settles pass.1 stx.txn)
    have hclaimed := hrekeyed.sizesKept.counters hmatch
    have hcalled := (hcall pass r hpass hr).counters hpages hclaimed
    exact ih ((finishTransaction_settles hfinish).sizesKept.counters hcalled)

/-- **Application resource counters match the ledger** after any sequence of successful application calls, whatever
their programs do, where they matched before it, and every application was created under a new identifier, none was
resized by the zero address but its creator, and no program closed an account that counted applications. -/
theorem AppliedCalls.resourceCounters {st st' : Store × Cells} (h : AppliedCalls appAddress AppStep.Sound st st')
    (hmatch : ∀ a, ResourceCounters st.1 a) (a : Address) : ResourceCounters st'.1 a :=
  (countersMatch_iff st'.1).1 (h.counters ((countersMatch_iff st.1).2 hmatch)) a

end Preserved

/-! ## Calls whose programs only make calls

These are executed, and every step that `ok` is about is checked on the way. -/

/-- More than any counter stands for. -/
def totalSize (s : Store) : Nat :=
  FinMap.total (fun _ app => 1 + app.globalStateSchema.numUint + app.globalStateSchema.numByteSlice + app.extraProgramPages)
      s.appParams +
    FinMap.total (fun _ ls => 1 + ls.schema.numUint + ls.schema.numByteSlice) s.appLocalStates

theorem CountersFit.of_totalSize {s : Store} (h : totalSize s < u32Bound) : CountersFit s := by
  intro a c
  have hbound : u32Bound ≤ c.bound := by cases c <;> decide
  refine lt_of_lt_of_le (lt_of_le_of_lt (Nat.add_le_add ?_ ?_) h) hbound
  · refine FinMap.total_le_total _ _ Function.injective_id _ _ (fun id app hid => ?_)
    rw [id_eq, hid, Option.elim_some]
    cases c <;> simp only [AppParams.share, AppParams.size] <;> split <;> omega
  · refine FinMap.total_le_total _ _ Function.injective_id _ _ (fun key ls hkey => ?_)
    rw [id_eq, hkey, Option.elim_some]
    cases c <;> simp only [localShare, AppLocalState.size] <;> split <;> omega

def sampleAddress (id : Nat) : Address := if id = 1 then ⟨101⟩ else ⟨102⟩

section Quiet

variable (check : Store → AppStep → Bool) (ctx : ApplyContext)

def require (b : Bool) : Except ApplyError Unit := if b then .ok () else .error (.external 0)

/-- A call that a program makes whose own program does nothing. -/
def quietInner (app : Nat) (st : Store × Nat) (txn : Transaction) : Except ApplyError (Store × Nat) := do
  let p ← (prepareInner ctx (sampleAddress app) txn (st.1, default)).mapError (fun _ => .external 0)
  require (check p.1 (.create txn (wrapAdd (wrapAdd st.2 1) 1)))
  let r ← (beginInner p.1 txn (wrapAdd st.2 1) ctx.consensus).mapError (fun _ => .external 0)
  require (totalSize r.2 < u32Bound && check r.2 (.complete txn r.1))
  let s ← (applyApplOnCompletion r.2 txn r.1 .inner ctx.consensus).mapError (fun _ => .external 0)
  require (totalSize s < u32Bound)
  .ok (s, wrapAdd st.2 1)

def quietAppl (inner : List Transaction) (stx : SignedTransaction) (st : Store × Cells) :
    Except ApplyError (Store × Cells) := do
  require (stx.txn.onCompletion ≠ onCompletionClearState && check st.1 (.create stx.txn (newOuterId stx st.2.txnCounter)))
  let r ← (beginApplyAppl ctx stx st).mapError (fun _ => .external 0)
  require (totalSize r.2 < u32Bound)
  let p ← inner.foldlM (quietInner check ctx r.1) (r.2, st.2.txnCounter)
  require (check p.1 (.complete stx.txn r.1))
  let s ← (applyApplOnCompletion p.1 stx.txn r.1 .outer ctx.consensus).mapError (fun _ => .external 0)
  require (totalSize s < u32Bound)
  .ok (s, { st.2 with txnCounter := p.2 })

def quietExternals (inner : List Transaction) : Externals :=
  { noExternals with applyAppl := fun ctx _ stx st => (quietAppl check ctx inner stx st).map (fun st => (st, none)) }

def quietCall (st : Store × Cells) (call : SignedTransaction × List Transaction) : Except ApplyError (Store × Cells) := do
  require (ctx.mode = .execute && ctx.consensus.enableProperExtraPageAccounting && call.1.txn.txnType.is "appl")
  let r ← applyTransaction (quietExternals check call.2) ctx 0 st call.1
  .ok r.1

variable {check ctx} {ok : Store → AppStep → Prop} (hcheck : ∀ s step, check s step = true → ok s step)

theorem require_ok {b : Bool} {u : Unit} (h : require b = .ok u) : b = true := by
  unfold require at h
  split at h
  · assumption
  · cases h

include hcheck

theorem ran_of_quietInner {app : Nat} {txns : List Transaction} {st st' : Store × Nat}
    (h : txns.foldlM (quietInner check ctx app) st = .ok st') : Ran sampleAddress ok ctx app st.1 st.2 st'.1 st'.2 := by
  induction txns generalizing st with
  | nil =>
    cases h
    exact .done _ _ _
  | cons txn txns ih =>
    rw [List.foldlM_cons] at h
    obtain ⟨st₁, hcall, hrest⟩ := Run.bind_eq_ok.1 h
    obtain ⟨p, hprepare, hcall⟩ := Run.bind_eq_ok.1 hcall
    obtain ⟨_, hcreate, hcall⟩ := Run.bind_eq_ok.1 hcall
    obtain ⟨⟨id, s₁⟩, hbegin, hcall⟩ := Run.bind_eq_ok.1 hcall
    obtain ⟨_, hbegun, hcall⟩ := Run.bind_eq_ok.1 hcall
    obtain ⟨s₃, hend, hcall⟩ := Run.bind_eq_ok.1 hcall
    obtain ⟨_, hfit, hcall⟩ := Run.bind_eq_ok.1 hcall
    cases hcall
    have hbegun := Bool.and_eq_true_iff.1 (require_ok hbegun)
    exact .call txn (Run.mapError_eq_ok.1 hprepare) (hcheck _ _ (require_ok hcreate)) (Run.mapError_eq_ok.1 hbegin)
      (.of_totalSize (of_decide_eq_true hbegun.1)) (.done _ _ _) (hcheck _ _ hbegun.2) (Run.mapError_eq_ok.1 hend)
      (.of_totalSize (of_decide_eq_true (require_ok hfit))) (ih hrest)

theorem applCall_of_quietAppl {inner : List Transaction} {stx : SignedTransaction} {st st' : Store × Cells}
    (h : quietAppl check ctx inner stx st = .ok st') : ApplCall sampleAddress ok ctx stx st st' := by
  obtain ⟨_, hcreate, h⟩ := Run.bind_eq_ok.1 h
  obtain ⟨⟨id, s₁⟩, hbegin, h⟩ := Run.bind_eq_ok.1 h
  obtain ⟨_, hbegun, h⟩ := Run.bind_eq_ok.1 h
  obtain ⟨p, hran, h⟩ := Run.bind_eq_ok.1 h
  obtain ⟨_, hcomplete, h⟩ := Run.bind_eq_ok.1 h
  obtain ⟨s₃, hend, h⟩ := Run.bind_eq_ok.1 h
  obtain ⟨_, hfit, h⟩ := Run.bind_eq_ok.1 h
  cases h
  have hcreate := Bool.and_eq_true_iff.1 (require_ok hcreate)
  exact .approved (of_decide_eq_true hcreate.1) (hcheck _ _ hcreate.2) (Run.mapError_eq_ok.1 hbegin)
    (.of_totalSize (of_decide_eq_true (require_ok hbegun))) (ran_of_quietInner hcheck hran)
    (hcheck _ _ (require_ok hcomplete)) (Run.mapError_eq_ok.1 hend)
    (.of_totalSize (of_decide_eq_true (require_ok hfit))) rfl

theorem applied_of_quietCall {calls : List (SignedTransaction × List Transaction)} {st st' : Store × Cells}
    (h : calls.foldlM (quietCall check ctx) st = .ok st') : AppliedCalls sampleAddress ok st st' := by
  induction calls generalizing st with
  | nil =>
    cases h
    exact .done _
  | cons call calls ih =>
    rw [List.foldlM_cons] at h
    obtain ⟨st₁, hcall, hrest⟩ := Run.bind_eq_ok.1 h
    obtain ⟨_, hguard, hcall⟩ := Run.bind_eq_ok.1 hcall
    obtain ⟨⟨st₂, ad⟩, hdone, hcall⟩ := Run.bind_eq_ok.1 hcall
    cases hcall
    obtain ⟨hguard, htype⟩ := Bool.and_eq_true_iff.1 (require_ok hguard)
    obtain ⟨hmode, hpages⟩ := Bool.and_eq_true_iff.1 hguard
    refine .call (of_decide_eq_true hmode) hpages htype hdone (fun pass r _ hr => ?_) (ih hrest)
    obtain ⟨st₃, hquiet, rfl⟩ := Run.map_eq_ok.1 hr
    exact applCall_of_quietAppl hcheck hquiet

end Quiet

/-! ## Two runs

Account 1 creates an application with two pages, account 2 joins it; account 3 calls it, and its program creates
another one.  Then account 5 resizes the first one, account 2 leaves it and account 1 deletes it.  In the other run the
block records the same identifier for two creations. -/

def fund (s : Store) (a : Nat) : Store := s.setAccount ⟨a⟩ { (default : AccountData) with microAlgos := 10000000 }

def fundedStore : Store := [1, 2, 3, 5, 101].foldl fund default

/-- Counters match where there is no application and all of them are zero. -/
theorem fundedStore_counters (a : Address) : ResourceCounters fundedStore a := by
  have hzero : ∀ (s : Store) (b : Nat), s.getAccount ⟨b⟩ = none → SizesKept s (fund s b) := fun s b hget =>
    .setAccount (fun c => by
      unfold Store.getOrDefaultAccount
      rw [hget]
      cases c <;> rfl)
  have hkept : SizesKept default fundedStore :=
    ((((hzero _ 1 (by decide)).trans (hzero _ 2 (by decide))).trans (hzero _ 3 (by decide))).trans
      (hzero _ 5 (by decide))).trans (hzero _ 101 (by decide))
  exact (countersMatch_iff _).1 (hkept.counters ((countersMatch_iff default).2 (fun a => ⟨rfl, rfl, rfl, rfl, rfl⟩))) a

def sampleContext : ApplyContext where
  rewardsLevel := 0
  feeSink := ⟨50⟩
  round := 1
  mode := .execute
  callerTracksLeases := true
  generate := false
  consensus := sampleConsensus

def sampleResize : Transaction :=
  { sampleCall ⟨5⟩ 1 onCompletionUpdate with
    approvalProgram := some sampleProgram, clearStateProgram := some sampleProgram,
    globalStateSchema := some ⟨4, 0⟩, extraProgramPages := 1 }

def sampleCalls : List (SignedTransaction × List Transaction) :=
  ([(sampleCreation ⟨1⟩ 2, []), (sampleCall ⟨2⟩ 1 onCompletionOptIn, []),
    (sampleCall ⟨3⟩ 1 onCompletionNoop, [sampleCreation ⟨101⟩ 0]), (sampleResize, []),
    (sampleCall ⟨2⟩ 1 onCompletionCloseOut, []), (sampleCall ⟨1⟩ 1 onCompletionDelete, [])]).map
      (fun call => ({ (default : SignedTransaction) with txn := call.1 }, call.2))

/-- A test for the steps of the first run. -/
def soundCheck (s : Store) : AppStep → Bool
  | .create txn id => txn.applicationId ≠ 0 || (s.getAppParams id).isNone
  | .complete txn _ => txn.sender ≠ .zero
  | .pay _ => false

theorem soundCheck_sound (s : Store) (step : AppStep) (h : soundCheck s step = true) : step.Sound s := by
  cases step with
  | create txn id =>
    intro hcreates
    simpa [soundCheck, hcreates] using h
  | complete txn id => exact fun _ _ => .inl (of_decide_eq_true h)
  | pay txn => cases h

/-- The counters of an account, in the order of their fields. -/
def countersOf (s : Store) (a : Address) : List Nat :=
  [Counter.created, .optedIn, .uints, .byteSlices, .pages].map (s.getOrDefaultAccount a).counter

/-- After the resizing the second account has joined and the fifth answers for the size. -/
theorem sampleCalls_applied : ∃ st st', AppliedCalls sampleAddress AppStep.Sound (fundedStore, default) st ∧
    [⟨1⟩, ⟨2⟩, ⟨5⟩, ⟨101⟩].map (countersOf st.1) = [[1, 0, 0, 0, 0], [0, 1, 1, 3, 0], [0, 0, 4, 0, 1], [1, 0, 2, 1, 0]] ∧
    AppliedCalls sampleAddress AppStep.Sound st st' ∧
    [⟨1⟩, ⟨2⟩, ⟨5⟩, ⟨101⟩].map (countersOf st'.1) = [[0, 0, 0, 0, 0], [0, 0, 0, 0, 0], [0, 0, 0, 0, 0], [1, 0, 2, 1, 0]] ∧
    ∀ a, ResourceCounters st.1 a ∧ ResourceCounters st'.1 a := by
  obtain ⟨⟨st, st'⟩, hrun, hcounters⟩ := @Run.ok_of_any _ _
    (do let st ← (sampleCalls.take 4).foldlM (quietCall soundCheck sampleContext) (fundedStore, default)
        let st' ← (sampleCalls.drop 4).foldlM (quietCall soundCheck sampleContext) st
        .ok (st, st'))
    (fun p => [⟨1⟩, ⟨2⟩, ⟨5⟩, ⟨101⟩].map (countersOf p.1.1) ==
        [[1, 0, 0, 0, 0], [0, 1, 1, 3, 0], [0, 0, 4, 0, 1], [1, 0, 2, 1, 0]] &&
      [⟨1⟩, ⟨2⟩, ⟨5⟩, ⟨101⟩].map (countersOf p.2.1) ==
        [[0, 0, 0, 0, 0], [0, 0, 0, 0, 0], [0, 0, 0, 0, 0], [1, 0, 2, 1, 0]])
    (by decide)
  obtain ⟨st₁, hfirst, hrun⟩ := Run.bind_eq_ok.1 hrun
  obtain ⟨st₂, hrest, hrun⟩ := Run.bind_eq_ok.1 hrun
  obtain ⟨rfl, rfl⟩ := Prod.mk.inj (Except.ok.inj hrun)
  rw [Bool.and_eq_true, beq_iff_eq, beq_iff_eq] at hcounters
  have hfirst := applied_of_quietCall soundCheck_sound hfirst
  have hrest := applied_of_quietCall soundCheck_sound hrest
  have hmiddle := hfirst.resourceCounters fundedStore_counters
  exact ⟨st₁, st₂, hfirst, hcounters.1, hrest, hcounters.2, fun a => ⟨hmiddle a, hrest.resourceCounters hmiddle a⟩⟩

/-- **An identifier that the block records takes the place of another application**: account 2 still counts one, and
there is none. -/
theorem recordedCreations_drift : ∃ st, AppliedCalls sampleAddress (fun _ _ => True) (fundedStore, default) st ∧
    (∀ a, ResourceCounters fundedStore a) ∧ (st.1.getOrDefaultAccount ⟨2⟩).totalCreatedApps = 1 ∧
    sumApps st.1 (·.creator = ⟨2⟩) (fun _ => 1) = 0 ∧ ¬ ResourceCounters st.1 ⟨2⟩ := by
  obtain ⟨st, hrun, hresult⟩ := @Run.ok_of_any _ _
    (([⟨2⟩, ⟨1⟩].map (fun sender => ({ (default : SignedTransaction) with
      txn := sampleCreation sender 0, applyDataApplicationId := 9 }, []))).foldlM
        (quietCall (fun _ _ => true) sampleContext) (fundedStore, default))
    (fun st => (st.1.getOrDefaultAccount ⟨2⟩).totalCreatedApps == 1 &&
      sumApps st.1 (·.creator = ⟨2⟩) (fun _ => 1) == 0) (by decide)
  rw [Bool.and_eq_true, beq_iff_eq, beq_iff_eq] at hresult
  refine ⟨st, applied_of_quietCall (fun _ _ _ => trivial) hrun, fundedStore_counters, hresult.1, hresult.2, ?_⟩
  intro h
  have heq := h.totalCreatedApps
  rw [hresult.1, hresult.2] at heq
  cases heq

end Ledger
end Algod
