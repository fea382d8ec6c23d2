import AlgodRust.Avm.Bytecode
import AlgodRust.Ledger.BlockHeader
/-!
# Applications — creating, joining, leaving, changing and deleting them

What an application call does to the ledger besides running its program: before the program an application is created
and the sender opts in, after it the sender leaves or the application is changed or deleted.  An account counts the
applications it created, the ones it has joined, their storage and the program pages it answers for: its creator
answers for the size of an application until someone else resizes it.
-/
namespace Algod
namespace Ledger

open Msgpack (Bytes)

def onCompletionNoop : Nat := 0
def onCompletionOptIn : Nat := 1
def onCompletionCloseOut : Nat := 2
def onCompletionClearState : Nat := 3
def onCompletionUpdate : Nat := 4
def onCompletionDelete : Nat := 5

/-- Whether a call stands in the block or is made by a program. -/
inductive ApplErrorContext
  | outer
  | inner
deriving DecidableEq, Repr

inductive ApplError
  | createZeroId (ctx : ApplErrorContext)
  | createTooMany (ctx : ApplErrorContext) (sender : Address) (max : Nat)
  | optInTwice (ctx : ApplErrorContext) (sender : Address) (app : Nat)
  | optInTooMany (app : Nat) (sender : Address) (max : Nat)
  | optInNoApp (ctx : ApplErrorContext) (app : Nat)
  | closeOutNotOptedIn (ctx : ApplErrorContext) (sender : Address) (app : Nat)
  | clearStateNotOptedIn (ctx : ApplErrorContext) (sender : Address) (app : Nat)
  | approvalDowngrade (version previous : Nat)
  | clearStateDowngrade (version previous : Nat)
  | approvalTooLong (length max : Nat)
  | clearStateTooLong (length max : Nat)
  | programsTooLong (approval clear max : Nat)
  | globalSchemaInts (count max : Nat)
  | globalSchemaBytes (count max : Nat)
  | unknownOnCompletion (ctx : ApplErrorContext) (value : Nat)
  | noSuchApp (app : Nat)
  | cannotClear (sender : Address) (app : Nat)
  | emptyApproval (app : Nat)
  | panic
deriving DecidableEq, Repr

def u32Bound : Nat := 2 ^ 32

namespace StateSchema

def addSchema (a b : StateSchema) : StateSchema := ⟨satAdd a.numUint b.numUint, satAdd a.numByteSlice b.numByteSlice⟩
def subSchema (a b : StateSchema) : StateSchema := ⟨a.numUint - b.numUint, a.numByteSlice - b.numByteSlice⟩
def isEmpty (a : StateSchema) : Bool := a.numUint == 0 && a.numByteSlice == 0

end StateSchema

namespace Store

def setAppParams (s : Store) (id : Nat) (app : AppParams) : Store := { s with appParams := s.appParams.insert id app }
def removeAppParams (s : Store) (id : Nat) : Store := { s with appParams := s.appParams.erase id }

def getAppLocalState (s : Store) (a : Address) (id : Nat) : Option AppLocalState := s.appLocalStates.lookup (a, id)
def setAppLocalState (s : Store) (a : Address) (id : Nat) (ls : AppLocalState) : Store :=
  { s with appLocalStates := s.appLocalStates.insert (a, id) ls }
def removeAppLocalState (s : Store) (a : Address) (id : Nat) : Store :=
  { s with appLocalStates := s.appLocalStates.erase (a, id) }
def hasAppLocalState (s : Store) (a : Address) (id : Nat) : Bool := (s.getAppLocalState a id).isSome

end Store

/-- The account that answers for the size of an application. -/
def AppParams.sponsor (app : AppParams) : Address := if app.sizeSponsor.isZero then app.creator else app.sizeSponsor

/-! ## Before the program -/

/-- The record of an application that a transaction creates. -/
def createdParams (txn : Transaction) : AppParams where
  creator := txn.sender
  approvalProgram := txn.approvalProgram.getD []
  clearStateProgram := txn.clearStateProgram.getD []
  globalState := ∅
  localStateSchema := txn.localStateSchema.getD default
  globalStateSchema := txn.globalStateSchema.getD default
  extraProgramPages := txn.extraProgramPages
  version := 0
  sizeSponsor := .zero
  foreignBoxReads := false
  familyBoxAccess := false

def createApplication (s : Store) (txn : Transaction) (appId : Nat) (ctx : ApplErrorContext)
    (consensus : ConsensusParams) : Except ApplError Store :=
  if appId = 0 then .error (.createZeroId ctx)
  else if consensus.maxAppsCreated > 0 ∧
      (s.getOrDefaultAccount txn.sender).totalCreatedApps ≥ consensus.maxAppsCreated then
    .error (.createTooMany ctx txn.sender consensus.maxAppsCreated)
  else
    let s := s.setAppParams appId (createdParams txn)
    let sender := s.getOrDefaultAccount txn.sender
    .ok (s.setAccount txn.sender { sender with
      totalCreatedApps := wrapAdd sender.totalCreatedApps 1
      totalExtraAppPages := (sender.totalExtraAppPages + txn.extraProgramPages) % u32Bound
      totalAppSchema := sender.totalAppSchema.addSchema (txn.globalStateSchema.getD default) })

def applyApplOptInPreProgram (s : Store) (sender : Address) (appId : Nat) (ctx : ApplErrorContext)
    (consensus : ConsensusParams) : Except ApplError Store :=
  if s.hasAppLocalState sender appId then .error (.optInTwice ctx sender appId)
  else if consensus.maxAppsOptedIn > 0 ∧ (s.getOrDefaultAccount sender).totalAppsOptedIn ≥ consensus.maxAppsOptedIn then
    .error (.optInTooMany appId sender consensus.maxAppsOptedIn)
  else
    match s.getAppParams appId with
    | none => .error (.optInNoApp ctx appId)
    | some app =>
      let s := s.setAppLocalState sender appId ⟨app.localStateSchema, ∅⟩
      let account := s.getOrDefaultAccount sender
      .ok (s.setAccount sender { account with
        totalAppsOptedIn := wrapAdd account.totalAppsOptedIn 1
        totalAppSchema := account.totalAppSchema.addSchema app.localStateSchema })

/-! ## After the program -/

/-- Leave an application: the local state goes, and what it counted for.  The application itself may be gone. -/
def leaveApplication (notOptedIn : ApplError) (s : Store) (sender : Address) (appId : Nat) : Except ApplError Store :=
  match s.getAppLocalState sender appId with
  | none => .error notOptedIn
  | some localState =>
    let s := s.removeAppLocalState sender appId
    let account := s.getOrDefaultAccount sender
    .ok (s.setAccount sender { account with
      totalAppsOptedIn := account.totalAppsOptedIn - 1
      totalAppSchema := account.totalAppSchema.subSchema localState.schema })

def deleteApplication (s : Store) (appId : Nat) (consensus : ConsensusParams) : Store :=
  match s.getAppParams appId with
  | none => s
  | some existing =>
    let s := s.removeAppParams appId
    let creator := s.getOrDefaultAccount existing.creator
    let s := s.setAccount existing.creator { creator with totalCreatedApps := creator.totalCreatedApps - 1 }
    -- the sponsor may be the creator, whose record has just been written
    let sponsor := s.getOrDefaultAccount existing.sponsor
    s.setAccount existing.sponsor { sponsor with
      totalExtraAppPages := if consensus.enableProperExtraPageAccounting
        then sponsor.totalExtraAppPages - existing.extraProgramPages else sponsor.totalExtraAppPages
      totalAppSchema := sponsor.totalAppSchema.subSchema existing.globalStateSchema }

/-- The version of a program, zero where it cannot be parsed. -/
def versionOf (program : Bytes) : Except ApplError Nat :=
  match Avm.parse program with
  | .ok parsed => .ok parsed.version
  | .error (.error _) => .ok 0
  | .error .panic => .error .panic

/-- A program that inner calls can reach is not replaced by one of a lower version. -/
def checkDowngrade (consensus : ConsensusParams) (old : Bytes) (new : Option Bytes) (downgrade : Nat → Nat → ApplError) :
    Except ApplError Unit :=
  match new with
  | none => .ok ()
  | some new => do
    let previous ← versionOf old
    let version ← versionOf new
    if previous ≥ consensus.minInnerApplVersion ∧ version < previous then .error (downgrade version previous) else .ok ()

/-- The programs fit into the pages the application has. -/
def checkProgramSizes (consensus : ConsensusParams) (app : AppParams) (txn : Transaction) : Except ApplError Unit :=
  let approval := (txn.approvalProgram.getD app.approvalProgram).length
  let clear := (txn.clearStateProgram.getD app.clearStateProgram).length
  let pages := 1 + app.extraProgramPages
  if approval > pages * consensus.maxAppProgramLen then .error (.approvalTooLong approval
    (pages * consensus.maxAppProgramLen))
  else if clear > pages * consensus.maxAppProgramLen then .error (.clearStateTooLong clear
    (pages * consensus.maxAppProgramLen))
  else if approval + clear > pages * consensus.maxAppTotalProgramLen then
    .error (.programsTooLong approval clear (pages * consensus.maxAppTotalProgramLen))
  else .ok ()

def TealValue.isUint : TealValue → Bool
  | .uint _ => true
  | .bytes _ => false

def checkStateSchemaCounts (state : FinMap Bytes TealValue) (schema : StateSchema) : Except ApplError Unit :=
  let numUint := state.values.countP TealValue.isUint
  let numByteSlice := state.values.countP (fun v => !v.isUint)
  if numUint > schema.numUint then .error (.globalSchemaInts numUint schema.numUint)
  else if numByteSlice > schema.numByteSlice then .error (.globalSchemaBytes numByteSlice schema.numByteSlice)
  else .ok ()

/-- Move the size of an application from the account that answers for it to the sender, who answers for the new one. -/
def resizeApplication (s : Store) (sender : Address) (appId : Nat) (app : AppParams) (schema : StateSchema) (pages : Nat) :
    Store :=
  let sponsor := s.getOrDefaultAccount app.sponsor
  let s := s.setAccount app.sponsor { sponsor with
    totalAppSchema := sponsor.totalAppSchema.subSchema app.globalStateSchema
    totalExtraAppPages := sponsor.totalExtraAppPages - app.extraProgramPages }
  let app := { app with
    globalStateSchema := schema
    extraProgramPages := pages
    sizeSponsor := if sender = app.creator then .zero else sender }
  -- the updater may be the sponsor, whose record has just been written
  let updater := s.getOrDefaultAccount sender
  let s := s.setAccount sender { updater with
    totalAppSchema := updater.totalAppSchema.addSchema schema
    totalExtraAppPages := min (updater.totalExtraAppPages + pages) (u32Bound - 1) }
  s.setAppParams appId app

/-- The record with the programs of a transaction. -/
def withPrograms (app : AppParams) (txn : Transaction) (consensus : ConsensusParams) : AppParams :=
  { app with
    approvalProgram := txn.approvalProgram.getD app.approvalProgram
    clearStateProgram := txn.clearStateProgram.getD app.clearStateProgram
    version := if consensus.enableAppVersioning then wrapAdd app.version 1 else app.version }

/-- Whether an update changes the size of the application. -/
def updatesSize (txn : Transaction) : Bool := txn.extraProgramPages ≠ 0 || !(txn.globalStateSchema.getD default).isEmpty

def updateApplication (s : Store) (txn : Transaction) (appId : Nat) (consensus : ConsensusParams) :
    Except ApplError Store :=
  match s.getAppParams appId with
  | none => .ok s
  | some app => do
    checkDowngrade consensus app.approvalProgram txn.approvalProgram .approvalDowngrade
    checkDowngrade consensus app.clearStateProgram txn.clearStateProgram .clearStateDowngrade
    if updatesSize txn then do
      checkStateSchemaCounts app.globalState (txn.globalStateSchema.getD default)
      .ok (resizeApplication s txn.sender appId (withPrograms app txn consensus) (txn.globalStateSchema.getD default)
        txn.extraProgramPages)
    else do
      checkProgramSizes consensus app txn
      .ok (s.setAppParams appId (withPrograms app txn consensus))

def applyApplOnCompletion (s : Store) (txn : Transaction) (appId : Nat) (ctx : ApplErrorContext)
    (consensus : ConsensusParams) : Except ApplError Store :=
  if txn.onCompletion = onCompletionNoop ∨ txn.onCompletion = onCompletionOptIn then .ok s
  else if txn.onCompletion = onCompletionCloseOut then
    leaveApplication (.closeOutNotOptedIn ctx txn.sender appId) s txn.sender appId
  else if txn.onCompletion = onCompletionClearState then
    leaveApplication (.clearStateNotOptedIn ctx txn.sender appId) s txn.sender appId
  else if txn.onCompletion = onCompletionDelete then .ok (deleteApplication s appId consensus)
  else if txn.onCompletion = onCompletionUpdate then updateApplication s txn appId consensus
  else .error (.unknownOnCompletion ctx txn.onCompletion)

/-! ## Calls -/

def createIfAsked (s : Store) (txn : Transaction) (newId : Nat) (ctx : ApplErrorContext) (consensus : ConsensusParams) :
    Except ApplError (Nat × Store) :=
  if txn.applicationId = 0 then (createApplication s txn newId ctx consensus).map (fun s => (newId, s))
  else .ok (txn.applicationId, s)

def optInIfAsked (s : Store) (txn : Transaction) (appId : Nat) (ctx : ApplErrorContext) (consensus : ConsensusParams) :
    Except ApplError Store :=
  if txn.onCompletion = onCompletionOptIn then applyApplOptInPreProgram s txn.sender appId ctx consensus else .ok s

/-- The identifier of an application that a call in a block creates: the one the block records, in every mode, and the
next one of the counter where it records none. -/
def newOuterId (stx : SignedTransaction) (txnCounter : Nat) : Nat :=
  if stx.applyDataApplicationId ≠ 0 then stx.applyDataApplicationId else wrapAdd txnCounter 1

/-- A call that stands in a block, up to its program: the application it is about and the store the program starts in. -/
def beginOuter (s : Store) (stx : SignedTransaction) (txnCounter : Nat) (consensus : ConsensusParams) :
    Except ApplError (Nat × Store) :=
  if stx.txn.applicationId ≠ 0 ∧ stx.txn.onCompletion ≠ onCompletionClearState ∧
      (s.getAppParams stx.txn.applicationId).isNone then
    .error (.noSuchApp stx.txn.applicationId)
  else do
    let (appId, s) ← createIfAsked s stx.txn (newOuterId stx txnCounter) .outer consensus
    if stx.txn.onCompletion = onCompletionClearState then
      if s.hasAppLocalState stx.txn.sender appId then .ok (appId, s) else .error (.cannotClear stx.txn.sender appId)
    else do
      let s' ← optInIfAsked s stx.txn appId .outer consensus
      if (((s.getAppParams appId).map AppParams.approvalProgram).getD []).isEmpty then .error (.emptyApproval appId)
      else .ok (appId, s')

/-- A call that a program makes, up to its own program.  The counter has already counted it. -/
def beginInner (s : Store) (txn : Transaction) (txnCounter : Nat) (consensus : ConsensusParams) :
    Except ApplError (Nat × Store) := do
  let (appId, s) ← createIfAsked s txn (wrapAdd txnCounter 1) .inner consensus
  let s ← optInIfAsked s txn appId .inner consensus
  if txn.onCompletion = onCompletionClearState ∧ !s.hasAppLocalState txn.sender appId then
    .error (.cannotClear txn.sender appId)
  else if (s.getAppParams appId).isNone then .error (.noSuchApp appId)
  else .ok (appId, s)

end Ledger
end Algod
