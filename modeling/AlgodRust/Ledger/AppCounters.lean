import AlgodRust.Ledger.Applications
/-!
# AppCounters — what accounts count of applications is what there is

An account counts the applications it created, those it joined, the storage they reserve and the pages it answers for.
Each of the five counters is a sum over the applications and the local states of the ledger (`owed`).  Every operation
on applications changes the counters as it changes the sums, with two exceptions: an application created under an
identifier in use takes the place of another that stays counted, and what the zero address resizes is counted for it
while the creator answers for it.
-/
namespace Algod
namespace Ledger

open Msgpack (Bytes)

/-! ## Counters and what they count -/

inductive Counter
  | created
  | optedIn
  | uints
  | byteSlices
  | pages
deriving DecidableEq, Repr

/-- The number of pages is an unsigned 32-bit integer. -/
def Counter.bound : Counter → Nat
  | .pages => u32Bound
  | _ => u64Bound

def AccountData.counter (account : AccountData) : Counter → Nat
  | .created => account.totalCreatedApps
  | .optedIn => account.totalAppsOptedIn
  | .uints => account.totalAppSchema.numUint
  | .byteSlices => account.totalAppSchema.numByteSlice
  | .pages => account.totalExtraAppPages

/-- The account that counts an application: its creator, and whoever answers for its size. -/
def AppParams.bearer (app : AppParams) : Counter → Address
  | .created => app.creator
  | _ => app.sponsor

/-- What an application counts for. -/
def AppParams.size (app : AppParams) : Counter → Nat
  | .created => 1
  | .optedIn => 0
  | .uints => app.globalStateSchema.numUint
  | .byteSlices => app.globalStateSchema.numByteSlice
  | .pages => app.extraProgramPages

/-- What a local state counts for. -/
def AppLocalState.size (ls : AppLocalState) : Counter → Nat
  | .created => 0
  | .optedIn => 1
  | .uints => ls.schema.numUint
  | .byteSlices => ls.schema.numByteSlice
  | .pages => 0

/-- What an application adds to a counter of an account. -/
def AppParams.share (app : AppParams) (a : Address) (c : Counter) : Nat := if app.bearer c = a then app.size c else 0

/-- What a local state adds to a counter of an account. -/
def localShare (a : Address) (key : Address × Nat) (ls : AppLocalState) (c : Counter) : Nat :=
  if key.1 = a then ls.size c else 0

/-- What a counter of an account stands for. -/
def owed (s : Store) (a : Address) (c : Counter) : Nat :=
  FinMap.total (fun _ app => app.share a c) s.appParams + FinMap.total (fun key ls => localShare a key ls c) s.appLocalStates

def CountersMatch (s : Store) : Prop := ∀ a c, (s.getOrDefaultAccount a).counter c = owed s a c

/-- No counter overflows: what it stands for fits into it. -/
def CountersFit (s : Store) : Prop := ∀ a c, owed s a c < c.bound

section Owed

variable (s : Store) (a : Address) (c : Counter)

@[simp] theorem owed_setAccount (b : Address) (account : AccountData) : owed (s.setAccount b account) a c = owed s a c := rfl

theorem owed_setAppParams (id : Nat) (app : AppParams) :
    owed (s.setAppParams id app) a c + (s.getAppParams id).elim 0 (fun old => old.share a c) =
      owed s a c + app.share a c := by
  have h := FinMap.total_insert (fun _ (app : AppParams) => app.share a c) s.appParams id app
  simp only [owed, Store.setAppParams, Store.getAppParams]
  omega

theorem owed_removeAppParams (id : Nat) :
    owed s a c = owed (s.removeAppParams id) a c + (s.getAppParams id).elim 0 (fun old => old.share a c) := by
  have h := FinMap.total_erase (fun _ (app : AppParams) => app.share a c) s.appParams id
  simp only [owed, Store.removeAppParams, Store.getAppParams]
  omega

theorem owed_setAppLocalState (b : Address) (id : Nat) (ls : AppLocalState) :
    owed (s.setAppLocalState b id ls) a c + (s.getAppLocalState b id).elim 0 (fun old => localShare a (b, id) old c) =
      owed s a c + localShare a (b, id) ls c := by
  have h := FinMap.total_insert (fun key ls => localShare a key ls c) s.appLocalStates (b, id) ls
  simp only [owed, Store.setAppLocalState, Store.getAppLocalState]
  omega

theorem owed_removeAppLocalState (b : Address) (id : Nat) :
    owed s a c = owed (s.removeAppLocalState b id) a c +
      (s.getAppLocalState b id).elim 0 (fun old => localShare a (b, id) old c) := by
  have h := FinMap.total_erase (fun key ls => localShare a key ls c) s.appLocalStates (b, id)
  simp only [owed, Store.removeAppLocalState, Store.getAppLocalState]
  omega

end Owed

/-! ## Operations -/

section Operations

variable {s s' : Store} {consensus : ConsensusParams} {ctx : ApplErrorContext} {id : Nat} {sender : Address}
  {account : AccountData} {b : Address} {txn : Transaction}

/-- A change of the record of one account, and of what its counters stand for, keeps them in step. -/
theorem CountersMatch.change (hmatch : CountersMatch s)
    (hrecord : ∀ a, s'.getOrDefaultAccount a = if a = b then account else s.getOrDefaultAccount a)
    (hself : ∀ c, account.counter c = owed s' b c) (hother : ∀ a c, a ≠ b → owed s' a c = owed s a c) :
    CountersMatch s' := by
  intro a c
  rw [hrecord]
  by_cases h : a = b
  · rw [if_pos h, h]
    exact hself c
  · rw [if_neg h, hother a c h]
    exact hmatch a c

/-- What one account is owed more is added to its record. -/
theorem CountersMatch.add (size : Counter → Nat) (hmatch : CountersMatch s)
    (hfit : CountersFit s') (howed : ∀ a c, owed s' a c = owed s a c + if b = a then size c else 0)
    (hrecord : ∀ a, s'.getOrDefaultAccount a = if a = b then account else s.getOrDefaultAccount a)
    (hadd : ∀ c, (s.getOrDefaultAccount b).counter c + size c < c.bound →
      account.counter c = (s.getOrDefaultAccount b).counter c + size c) : CountersMatch s' := by
  refine hmatch.change hrecord (fun c => ?_) (fun a c hne => ?_)
  · have hf := hfit b c
    rw [howed, if_pos rfl, ← hmatch] at hf ⊢
    exact hadd c hf
  · rw [howed, if_neg hne.symm, Nat.add_zero]

/-- **A created application is counted**, where its identifier is new. -/
theorem createApplication_counters (hmatch : CountersMatch s)
    (hfresh : s.getAppParams id = none) (h : createApplication s txn id ctx consensus = .ok s') (hfit : CountersFit s') :
    CountersMatch s' := by
  unfold createApplication at h
  split at h
  · cases h
  split at h
  · cases h
  obtain rfl := (Except.ok.inj h).symm
  refine hmatch.add (createdParams txn).size hfit (fun a c => ?_) (fun a => Store.getOrDefaultAccount_setAccount _ _ _ _)
    (fun c hc => ?_)
  · have howed := owed_setAppParams s a c id (createdParams txn)
    have hbearer : (createdParams txn).bearer c = txn.sender := by cases c <;> rfl
    rw [hfresh, AppParams.share, hbearer] at howed
    exact howed
  · cases c with
    | created => exact wrapAdd_of_lt hc
    | optedIn => rfl
    | uints => exact satAdd_of_lt hc
    | byteSlices => exact satAdd_of_lt hc
    | pages => exact Nat.mod_eq_of_lt hc

/-- Joining is possible once, and adds a local state. -/
theorem owed_optIn (hnone : ¬ s.hasAppLocalState sender id = true) (ls : AppLocalState) (a : Address) (c : Counter) :
    owed (s.setAppLocalState sender id ls) a c = owed s a c + if sender = a then ls.size c else 0 := by
  have hlocal : s.getAppLocalState sender id = none := by simpa [Store.hasAppLocalState] using hnone
  have howed := owed_setAppLocalState s a c sender id ls
  rw [hlocal] at howed
  exact howed

/-- **An account that joins an application counts it.** -/
theorem applyApplOptInPreProgram_counters (hmatch : CountersMatch s)
    (h : applyApplOptInPreProgram s sender id ctx consensus = .ok s') (hfit : CountersFit s') : CountersMatch s' := by
  unfold applyApplOptInPreProgram at h
  split at h
  · cases h
  rename_i hnone
  split at h
  · cases h
  split at h
  · cases h
  rename_i app _
  obtain rfl := (Except.ok.inj h).symm
  refine hmatch.add (⟨app.localStateSchema, ∅⟩ : AppLocalState).size hfit (owed_optIn hnone _)
    (fun a => Store.getOrDefaultAccount_setAccount _ _ _ _) (fun c hc => ?_)
  cases c with
  | created => rfl
  | optedIn => exact wrapAdd_of_lt hc
  | uints => exact satAdd_of_lt hc
  | byteSlices => exact satAdd_of_lt hc
  | pages => rfl

/-- **An account that leaves an application no longer counts it**, whether the application still exists or not. -/
theorem leaveApplication_counters {err : ApplError} (hmatch : CountersMatch s)
    (h : leaveApplication err s sender id = .ok s') : CountersMatch s' := by
  unfold leaveApplication at h
  split at h
  · cases h
  rename_i ls hlocal
  obtain rfl := (Except.ok.inj h).symm
  have howed : ∀ a c, owed s a c = owed (s.removeAppLocalState sender id) a c + if sender = a then ls.size c else 0 := by
    intro a c
    have h := owed_removeAppLocalState s a c sender id
    rw [hlocal] at h
    exact h
  refine hmatch.change (fun a => Store.getOrDefaultAccount_setAccount _ _ _ _) (fun c => ?_) (fun a c hne => ?_)
  · have hc := howed sender c
    rw [if_pos rfl, ← hmatch] at hc
    cases c with
    | created => exact hc
    | optedIn => exact Nat.sub_eq_of_eq_add hc
    | uints => exact Nat.sub_eq_of_eq_add hc
    | byteSlices => exact Nat.sub_eq_of_eq_add hc
    | pages => exact hc
  · rw [owed_setAccount, howed a c, if_neg hne.symm, Nat.add_zero]

/-- Where one account's counter is written as a function of what it was, so is everyone's, the others' unchanged. -/
theorem counter_setAccount {c : Counter} (f : Nat → Nat)
    (h : account.counter c = f ((s.getOrDefaultAccount b).counter c)) (a : Address) :
    ((s.setAccount b account).getOrDefaultAccount a).counter c =
      if a = b then f ((s.getOrDefaultAccount a).counter c) else (s.getOrDefaultAccount a).counter c := by
  rw [Store.getOrDefaultAccount_setAccount]
  by_cases hab : a = b
  · rw [if_pos hab, if_pos hab, hab]
    exact h
  · rw [if_neg hab, if_neg hab]

theorem counter_setAccount_same {c : Counter}
    (h : account.counter c = (s.getOrDefaultAccount b).counter c) (a : Address) :
    ((s.setAccount b account).getOrDefaultAccount a).counter c = (s.getOrDefaultAccount a).counter c :=
  Store.keep_setAccount (AccountData.counter · c) h a

theorem ite_sub_eq {a b : Address} (n m : Nat) : (if a = b then n - m else n) = n - (if b = a then m else 0) := by
  by_cases h : a = b
  · rw [if_pos h, if_pos h.symm]
  · rw [if_neg h, if_neg (fun heq => h heq.symm), Nat.sub_zero]

/-- The counters after a deletion, account by account.  The creator's record is written first, the sponsor's over it. -/
theorem deleteApplication_counter {app : AppParams} (hpages : consensus.enableProperExtraPageAccounting = true)
    (happ : s.getAppParams id = some app) (a : Address) (c : Counter) :
    ((deleteApplication s id consensus).getOrDefaultAccount a).counter c =
      (s.getOrDefaultAccount a).counter c - app.share a c := by
  unfold deleteApplication
  rw [happ, AppParams.share, ← ite_sub_eq]
  simp only [hpages, if_true]
  cases c with
  | created => rw [counter_setAccount_same (by rfl), counter_setAccount (· - 1) (by rfl)]; rfl
  | optedIn => rw [counter_setAccount (· - 0) (by rfl), counter_setAccount_same (by rfl)]; rfl
  | uints => rw [counter_setAccount (· - app.globalStateSchema.numUint) (by rfl), counter_setAccount_same (by rfl)]; rfl
  | byteSlices => rw [counter_setAccount (· - app.globalStateSchema.numByteSlice) (by rfl),
      counter_setAccount_same (by rfl)]; rfl
  | pages => rw [counter_setAccount (· - app.extraProgramPages) (by rfl), counter_setAccount_same (by rfl)]; rfl

theorem deleteApplication_counters (hpages : consensus.enableProperExtraPageAccounting = true)
    (hmatch : CountersMatch s) : CountersMatch (deleteApplication s id consensus) := by
  cases happ : s.getAppParams id with
  | none =>
    unfold deleteApplication
    rw [happ]
    exact hmatch
  | some app =>
    intro a c
    have howed := owed_removeAppParams s a c id
    rw [happ] at howed
    rw [deleteApplication_counter hpages happ, hmatch, howed, deleteApplication, happ]
    exact Nat.add_sub_cancel _ _

/-- The record of an application after its size was changed. -/
def resizedParams (sender : Address) (app : AppParams) (schema : StateSchema) (pages : Nat) : AppParams :=
  { app with
    globalStateSchema := schema
    extraProgramPages := pages
    sizeSponsor := if sender = app.creator then .zero else sender }

/-- Whoever resizes an application answers for it: the record of a sponsor is zero where the creator answers, so the
zero address cannot be recorded as one. -/
theorem resizedParams_sponsor {app : AppParams} (hsender : sender ≠ .zero ∨ app.creator = .zero)
    (schema : StateSchema) (pages : Nat) : (resizedParams sender app schema pages).sponsor = sender := by
  unfold AppParams.sponsor resizedParams
  by_cases hcreator : sender = app.creator
  · simp [hcreator, Address.isZero]
  · have hne : sender ≠ .zero := hsender.elim id (fun hzero heq => hcreator (heq.trans hzero.symm))
    simp [hcreator, Address.isZero, hne]

theorem owed_resizeApplication (sender : Address) (app : AppParams) (schema : StateSchema) (pages : Nat)
    {old : AppParams} (hold : s.getAppParams id = some old) (a : Address) (c : Counter) :
    owed (resizeApplication s sender id app schema pages) a c + old.share a c =
      owed s a c + (resizedParams sender app schema pages).share a c := by
  have h := owed_setAppParams s a c id (resizedParams sender app schema pages)
  rw [hold] at h
  exact h

/-- A counter from which the old sponsor's share is taken and to which the updater's is added. -/
theorem move_share {x oldShare newShare bound : Nat} {a sponsor sender : Address} (add : Nat → Nat)
    (hle : (if sponsor = a then oldShare else 0) ≤ x)
    (hlt : x - (if sponsor = a then oldShare else 0) + (if sender = a then newShare else 0) < bound)
    (hadd : ∀ y, y + newShare < bound → add y = y + newShare) :
    (if a = sender then add (if a = sponsor then x - oldShare else x) else if a = sponsor then x - oldShare else x) +
      (if sponsor = a then oldShare else 0) = x + (if sender = a then newShare else 0) := by
  rw [ite_sub_eq]
  generalize (if sponsor = a then oldShare else 0) = old at *
  by_cases h : a = sender
  · rw [if_pos h.symm] at hlt
    rw [if_pos h, if_pos h.symm, hadd _ hlt]
    omega
  · rw [if_neg h, if_neg (fun heq => h heq.symm)]
    omega

/-- The counters after a resizing, account by account. -/
theorem resizeApplication_counter {app old : AppParams} {schema : StateSchema} {pages : Nat}
    (hsender : sender ≠ .zero ∨ app.creator = .zero) (hmatch : CountersMatch s) (hold : s.getAppParams id = some old)
    (hshare : ∀ a c, app.share a c = old.share a c)
    (hfit : CountersFit (resizeApplication s sender id app schema pages)) (a : Address) (c : Counter) :
    ((resizeApplication s sender id app schema pages).getOrDefaultAccount a).counter c + app.share a c =
      (s.getOrDefaultAccount a).counter c + (resizedParams sender app schema pages).share a c := by
  have hle : app.share a c ≤ (s.getOrDefaultAccount a).counter c := by
    have h := owed_removeAppParams s a c id
    rw [hold] at h
    rw [hmatch, h, hshare]
    exact Nat.le_add_left _ _
  have hlt : (s.getOrDefaultAccount a).counter c - app.share a c + (resizedParams sender app schema pages).share a c <
      c.bound := by
    have h := owed_resizeApplication sender app schema pages hold a c
    have hf := hfit a c
    rw [← hshare, ← hmatch] at h
    omega
  have hset : ∀ (t : Store) (app : AppParams), (t.setAppParams id app).getOrDefaultAccount a = t.getOrDefaultAccount a :=
    fun _ _ => rfl
  have hnew : c ≠ .created → (resizedParams sender app schema pages).bearer c = sender := by
    intro hc
    cases c with
    | created => exact absurd rfl hc
    | _ => exact resizedParams_sponsor hsender schema pages
  unfold AppParams.share at hle hlt ⊢
  unfold resizeApplication
  rw [hset]
  cases c with
  | created => rw [counter_setAccount_same (by rfl), counter_setAccount_same (by rfl)]; rfl
  | optedIn =>
    rw [hnew (by decide)] at hlt ⊢
    rw [counter_setAccount (· + 0) (by rfl), counter_setAccount (· - 0) (by rfl)]
    exact move_share (· + 0) hle hlt (fun _ _ => rfl)
  | uints =>
    rw [hnew (by decide)] at hlt ⊢
    rw [counter_setAccount (fun x => satAdd x schema.numUint) (by rfl),
      counter_setAccount (· - app.globalStateSchema.numUint) (by rfl)]
    exact move_share _ hle hlt (fun _ => satAdd_of_lt)
  | byteSlices =>
    rw [hnew (by decide)] at hlt ⊢
    rw [counter_setAccount (fun x => satAdd x schema.numByteSlice) (by rfl),
      counter_setAccount (· - app.globalStateSchema.numByteSlice) (by rfl)]
    exact move_share _ hle hlt (fun _ => satAdd_of_lt)
  | pages =>
    rw [hnew (by decide)] at hlt ⊢
    rw [counter_setAccount (fun x => min (x + pages) (u32Bound - 1)) (by rfl),
      counter_setAccount (· - app.extraProgramPages) (by rfl)]
    exact move_share _ hle hlt (fun _ h => Nat.min_eq_left (Nat.le_sub_one_of_lt h))

theorem withPrograms_share (consensus : ConsensusParams) (app : AppParams) (txn : Transaction) (a : Address) (c : Counter) :
    (withPrograms app txn consensus).share a c = app.share a c := by
  cases c <;> rfl

/-- A transaction resizes an application only for someone who can be recorded to answer for it. -/
def ResizesSoundly (s : Store) (txn : Transaction) (id : Nat) : Prop :=
  updatesSize txn = true → txn.sender ≠ .zero ∨ ∀ app, s.getAppParams id = some app → app.creator = .zero

/-- **An update moves what it resizes from one account to another.** -/
theorem updateApplication_counters (hsound : ResizesSoundly s txn id)
    (hmatch : CountersMatch s) (h : updateApplication s txn id consensus = .ok s') (hfit : CountersFit s') :
    CountersMatch s' := by
  unfold updateApplication at h
  cases hold : s.getAppParams id with
  | none =>
    rw [hold] at h
    obtain rfl := Except.ok.inj h
    exact hmatch
  | some app =>
    rw [hold] at h
    obtain ⟨-, -, h⟩ := Run.bind_eq_ok.1 h
    obtain ⟨-, -, h⟩ := Run.bind_eq_ok.1 h
    have hshare := withPrograms_share consensus app txn
    split at h
    · rename_i hsize
      obtain ⟨-, -, h⟩ := Run.bind_eq_ok.1 h
      obtain rfl := (Except.ok.inj h).symm
      intro a c
      have hsender : txn.sender ≠ .zero ∨ (withPrograms app txn consensus).creator = .zero :=
        (hsound hsize).imp_right (fun hcreator => hcreator app hold)
      have hcounter := resizeApplication_counter hsender hmatch hold hshare hfit a c
      have howed := owed_resizeApplication txn.sender (withPrograms app txn consensus)
        (txn.globalStateSchema.getD default) txn.extraProgramPages hold a c
      rw [hshare, hmatch] at hcounter
      omega
    · obtain ⟨-, -, h⟩ := Run.bind_eq_ok.1 h
      obtain rfl := (Except.ok.inj h).symm
      intro a c
      have howed := owed_setAppParams s a c id (withPrograms app txn consensus)
      rw [hold, hshare] at howed
      have hsame : ((s.setAppParams id (withPrograms app txn consensus)).getOrDefaultAccount a).counter c = owed s a c :=
        hmatch a c
      rw [hsame]
      simp only [Option.elim_some] at howed
      omega

/-- **What a call does after its program keeps the counters in step**, whoever makes it. -/
theorem applyApplOnCompletion_counters (hpages : consensus.enableProperExtraPageAccounting = true)
    (hsound : txn.onCompletion = onCompletionUpdate → ResizesSoundly s txn id) (hmatch : CountersMatch s)
    (h : applyApplOnCompletion s txn id ctx consensus = .ok s') (hfit : CountersFit s') : CountersMatch s' := by
  unfold applyApplOnCompletion at h
  split at h
  · obtain rfl := Except.ok.inj h
    exact hmatch
  split at h
  · exact leaveApplication_counters hmatch h
  split at h
  · exact leaveApplication_counters hmatch h
  split at h
  · obtain rfl := (Except.ok.inj h).symm
    exact deleteApplication_counters hpages hmatch
  split at h
  · rename_i hupdate
    exact updateApplication_counters (hsound hupdate) hmatch h hfit
  · cases h

end Operations

/-! ## Records of applications -/

theorem getAppParams_setAppParams (s : Store) (id id' : Nat) (app : AppParams) :
    (s.setAppParams id app).getAppParams id' = if id' = id then some app else s.getAppParams id' :=
  FinMap.lookup_insert_eq s.appParams id id' app

theorem getAppParams_removeAppParams (s : Store) (id id' : Nat) :
    (s.removeAppParams id).getAppParams id' = if id' = id then none else s.getAppParams id' :=
  FinMap.lookup_erase_eq s.appParams id id'

/-! ## What programs write

A program writes values, not sizes: the keys of the application's state, of local states and of boxes. -/

/-- The counters, the sizes of applications and those of local states are the same in both stores. -/
structure SizesKept (s s' : Store) : Prop where
  counter : ∀ a c, (s'.getOrDefaultAccount a).counter c = (s.getOrDefaultAccount a).counter c
  app : ∀ id a c, (s'.getAppParams id).map (fun app => app.share a c) = (s.getAppParams id).map (fun app => app.share a c)
  localState : ∀ a id, (s'.getAppLocalState a id).map AppLocalState.schema =
    (s.getAppLocalState a id).map AppLocalState.schema

section Writes

variable {s s' : Store}

theorem SizesKept.refl (s : Store) : SizesKept s s := ⟨fun _ _ => rfl, fun _ _ _ => rfl, fun _ _ => rfl⟩

theorem SizesKept.trans {s'' : Store} (h : SizesKept s s') (h' : SizesKept s' s'') : SizesKept s s'' :=
  ⟨fun a c => (h'.counter a c).trans (h.counter a c), fun id a c => (h'.app id a c).trans (h.app id a c),
    fun a id => (h'.localState a id).trans (h.localState a id)⟩

theorem SizesKept.symm (h : SizesKept s s') : SizesKept s' s :=
  ⟨fun a c => (h.counter a c).symm, fun id a c => (h.app id a c).symm, fun a id => (h.localState a id).symm⟩

theorem SizesKept.owed_le (h : SizesKept s s') (a : Address) (c : Counter) : owed s a c ≤ owed s' a c := by
  refine Nat.add_le_add ?_ ?_
  · refine FinMap.total_le_total _ _ Function.injective_id _ _ (fun id app hid => ?_)
    have happ := h.app id a c
    have hget : s.getAppParams id = some app := hid
    rw [hget] at happ
    obtain ⟨app', hget', hshare⟩ := Option.map_eq_some_iff.1 happ
    have hlookup : s'.appParams.lookup id = some app' := hget'
    rw [id_eq, hlookup]
    exact hshare.ge
  · refine FinMap.total_le_total _ _ Function.injective_id _ _ (fun key ls hkey => ?_)
    have hlocal := h.localState key.1 key.2
    have hget : s.getAppLocalState key.1 key.2 = some ls := hkey
    rw [hget] at hlocal
    obtain ⟨ls', hget', hschema⟩ := Option.map_eq_some_iff.1 hlocal
    have hlookup : s'.appLocalStates.lookup key = some ls' := hget'
    rw [id_eq, hlookup]
    cases c <;> simp [localShare, AppLocalState.size, hschema]

theorem SizesKept.owed_eq (h : SizesKept s s') (a : Address) (c : Counter) : owed s' a c = owed s a c :=
  le_antisymm (h.symm.owed_le a c) (h.owed_le a c)

theorem SizesKept.counters (h : SizesKept s s') (hmatch : CountersMatch s) : CountersMatch s' := by
  intro a c
  rw [h.counter, h.owed_eq]
  exact hmatch a c

end Writes

/-! ## Calls -/

section Calls

variable {consensus : ConsensusParams} {ctx : ApplErrorContext} {s s' : Store} {txn : Transaction}

theorem createIfAsked_counters {newId id : Nat}
    (hfresh : txn.applicationId = 0 → s.getAppParams newId = none) (hmatch : CountersMatch s)
    (h : createIfAsked s txn newId ctx consensus = .ok (id, s')) (hfit : CountersFit s') : CountersMatch s' := by
  unfold createIfAsked at h
  split at h
  · rename_i hcreates
    obtain ⟨s₁, hcreate, heq⟩ := Run.map_eq_ok.1 h
    obtain ⟨-, rfl⟩ := Prod.mk.inj heq
    exact createApplication_counters hmatch (hfresh hcreates) hcreate hfit
  · obtain ⟨-, rfl⟩ := Prod.mk.inj (Except.ok.inj h)
    exact hmatch

/-- Joining only adds to what counters stand for. -/
theorem applyApplOptInPreProgram_owed {sender : Address} {id : Nat}
    (h : applyApplOptInPreProgram s sender id ctx consensus = .ok s') (a : Address) (c : Counter) :
    owed s a c ≤ owed s' a c := by
  unfold applyApplOptInPreProgram at h
  split at h
  · cases h
  rename_i hnone
  split at h
  · cases h
  split at h
  · cases h
  obtain rfl := (Except.ok.inj h).symm
  rw [owed_setAccount, owed_optIn hnone]
  exact Nat.le_add_right _ _

theorem optInIfAsked_counters {id : Nat} (hmatch : CountersMatch s)
    (h : optInIfAsked s txn id ctx consensus = .ok s') (hfit : CountersFit s') : CountersMatch s' := by
  unfold optInIfAsked at h
  split at h
  · exact applyApplOptInPreProgram_counters hmatch h hfit
  · obtain rfl := Except.ok.inj h
    exact hmatch

theorem optInIfAsked_fit {id : Nat}
    (h : optInIfAsked s txn id ctx consensus = .ok s') (hfit : CountersFit s') : CountersFit s := by
  unfold optInIfAsked at h
  split at h
  · exact fun a c => (applyApplOptInPreProgram_owed h a c).trans_lt (hfit a c)
  · obtain rfl := Except.ok.inj h
    exact hfit

/-- **Up to its program, a call keeps the counters in step** where it creates nothing under an identifier in use. -/
theorem beginOuter_counters {stx : SignedTransaction} {n id : Nat}
    (hfresh : stx.txn.applicationId = 0 → s.getAppParams (newOuterId stx n) = none) (hmatch : CountersMatch s)
    (h : beginOuter s stx n consensus = .ok (id, s')) (hfit : CountersFit s') : CountersMatch s' := by
  unfold beginOuter at h
  split at h
  · cases h
  obtain ⟨⟨id₁, s₁⟩, hcreate, h⟩ := Run.bind_eq_ok.1 h
  simp only at h
  split at h
  · split at h
    · obtain ⟨rfl, rfl⟩ := Prod.mk.inj (Except.ok.inj h)
      exact createIfAsked_counters hfresh hmatch hcreate hfit
    · cases h
  · obtain ⟨s₂, hopt, h⟩ := Run.bind_eq_ok.1 h
    split at h
    · cases h
    · obtain ⟨rfl, rfl⟩ := Prod.mk.inj (Except.ok.inj h)
      have hmatch₁ := createIfAsked_counters hfresh hmatch hcreate (optInIfAsked_fit hopt hfit)
      exact optInIfAsked_counters hmatch₁ hopt hfit

theorem beginInner_counters {n id : Nat}
    (hfresh : txn.applicationId = 0 → s.getAppParams (wrapAdd n 1) = none) (hmatch : CountersMatch s)
    (h : beginInner s txn n consensus = .ok (id, s')) (hfit : CountersFit s') : CountersMatch s' := by
  unfold beginInner at h
  obtain ⟨⟨id₁, s₁⟩, hcreate, h⟩ := Run.bind_eq_ok.1 h
  simp only at h
  obtain ⟨s₂, hopt, h⟩ := Run.bind_eq_ok.1 h
  split at h
  · cases h
  split at h
  · cases h
  · obtain ⟨rfl, rfl⟩ := Prod.mk.inj (Except.ok.inj h)
    have hmatch₁ := createIfAsked_counters hfresh hmatch hcreate (optInIfAsked_fit hopt hfit)
    exact optInIfAsked_counters hmatch₁ hopt hfit

end Calls

/-! ## In plain terms -/

/-- The sum of `f` over the applications that meet `p`. -/
def sumApps (s : Store) (p : AppParams → Prop) [DecidablePred p] (f : AppParams → Nat) : Nat :=
  FinMap.total (fun _ app => if p app then f app else 0) s.appParams

/-- The sum of `f` over the local states of an account. -/
def sumLocals (s : Store) (a : Address) (f : AppLocalState → Nat) : Nat :=
  FinMap.total (fun key ls => if key.1 = a then f ls else 0) s.appLocalStates

/-- The counters of an account are what the ledger has. -/
structure ResourceCounters (s : Store) (a : Address) : Prop where
  totalCreatedApps : (s.getOrDefaultAccount a).totalCreatedApps = sumApps s (·.creator = a) (fun _ => 1)
  totalAppsOptedIn : (s.getOrDefaultAccount a).totalAppsOptedIn = sumLocals s a (fun _ => 1)
  numUint : (s.getOrDefaultAccount a).totalAppSchema.numUint =
    sumLocals s a (·.schema.numUint) + sumApps s (·.sponsor = a) (·.globalStateSchema.numUint)
  numByteSlice : (s.getOrDefaultAccount a).totalAppSchema.numByteSlice =
    sumLocals s a (·.schema.numByteSlice) + sumApps s (·.sponsor = a) (·.globalStateSchema.numByteSlice)
  totalExtraAppPages : (s.getOrDefaultAccount a).totalExtraAppPages = sumApps s (·.sponsor = a) (·.extraProgramPages)

theorem total_zero {κ α : Type} [DecidableEq κ] (m : FinMap κ α) : FinMap.total (fun _ _ => 0) m = 0 := by
  refine List.sum_eq_zero (fun n hn => ?_)
  obtain ⟨_, _, rfl⟩ := List.mem_map.1 hn
  rfl

theorem countersMatch_iff (s : Store) : CountersMatch s ↔ ∀ a, ResourceCounters s a := by
  have hcreated : ∀ a, owed s a .created = sumApps s (·.creator = a) (fun _ => 1) := fun a => by
    simp only [owed, AppParams.share, AppParams.size, localShare, AppLocalState.size, ite_self, total_zero, Nat.add_zero]
    rfl
  have hoptedIn : ∀ a, owed s a .optedIn = sumLocals s a (fun _ => 1) := fun a => by
    simp [owed, sumLocals, AppParams.share, AppParams.size, localShare, AppLocalState.size, total_zero]
  have hpages : ∀ a, owed s a .pages = sumApps s (·.sponsor = a) (·.extraProgramPages) := fun a => by
    simp only [owed, AppParams.share, AppParams.size, localShare, AppLocalState.size, ite_self, total_zero, Nat.add_zero]
    rfl
  constructor
  · intro h a
    exact ⟨(h a .created).trans (hcreated a), (h a .optedIn).trans (hoptedIn a),
      (h a .uints).trans (Nat.add_comm _ _), (h a .byteSlices).trans (Nat.add_comm _ _), (h a .pages).trans (hpages a)⟩
  · intro h a c
    cases c with
    | created => exact (h a).totalCreatedApps.trans (hcreated a).symm
    | optedIn => exact (h a).totalAppsOptedIn.trans (hoptedIn a).symm
    | uints => exact (h a).numUint.trans (Nat.add_comm _ _)
    | byteSlices => exact (h a).numByteSlice.trans (Nat.add_comm _ _)
    | pages => exact (h a).totalExtraAppPages.trans (hpages a).symm

end Ledger
end Algod
