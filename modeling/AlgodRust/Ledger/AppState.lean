import AlgodRust.Ledger.Applications
/-!
# AppState — what a program writes to the state of its application

A program puts and deletes values under keys, in the global state of an application and in the local states of the
accounts that have joined it.  Every put is checked against the schema, on a copy, before it is stored.  Beside the
store the context keeps what changed: for every key the last change, where a write that repeats the current value and
a deletion of what is not there are no change.
-/
namespace Algod
namespace Ledger

open Msgpack (Bytes)

inductive StateVerb
  | set
  | del
deriving DecidableEq, Repr

inductive StateError
  | keyTooLong (length max : Nat)
  | notOptedIn (verb : StateVerb) (account : Address) (app : Nat)
  | valueTooLong (key : Bytes) (length : Nat)
  | totalTooLong (key : Bytes) (sum : Nat)
  | schema (e : ApplError)
  | noSuchApp (app : Nat)
deriving DecidableEq, Repr

/-- The part of a program's context that these operations use. -/
structure StateContext where
  store : Store
  consensus : ConsensusParams
  appId : Nat
  globalDeltaTracker : FinMap Bytes (Option TealValue)
  localDeltaTracker : FinMap (Address × Bytes) (Option TealValue)
  localDeltaTouched : List Address
  localDeltaSeq : FinMap Address Nat

namespace StateContext

def new (store : Store) (consensus : ConsensusParams) (appId : Nat) : StateContext where
  store := store
  consensus := consensus
  appId := appId
  globalDeltaTracker := ∅
  localDeltaTracker := ∅
  localDeltaTouched := []
  localDeltaSeq := ∅

/-- Remember when an account got its first change. -/
def noteLocalDeltaOrder (c : StateContext) (a : Address) : StateContext :=
  if (c.localDeltaSeq.lookup a).isSome then c
  else { c with localDeltaSeq := c.localDeltaSeq.insert a c.localDeltaSeq.keys.length }

def checkKey (c : StateContext) (key : Bytes) : Except StateError Unit :=
  if key.length > c.consensus.maxAppKeyLen then .error (.keyTooLong key.length c.consensus.maxAppKeyLen) else .ok ()

def checkValue (c : StateContext) (key : Bytes) : TealValue → Except StateError Unit
  | .uint _ => .ok ()
  | .bytes bs =>
    if bs.length > c.consensus.maxAppBytesValueLen then .error (.valueTooLong key bs.length)
    else if key.length + bs.length > c.consensus.maxAppSumKeyValueLens then .error (.totalTooLong key
      (key.length + bs.length))
    else .ok ()

/-- The state with a value put, where the schema has room for it. -/
def putChecked (c : StateContext) (state : FinMap Bytes TealValue) (schema : StateSchema) (key : Bytes) (value : TealValue) :
    Except StateError (FinMap Bytes TealValue) := do
  c.checkValue key value
  match checkStateSchemaCounts (state.insert key value) schema with
  | .error e => .error (.schema e)
  | .ok _ => .ok (state.insert key value)

def trackLocal (c : StateContext) (a : Address) (key : Bytes) (change : Option TealValue) : StateContext :=
  let c := c.noteLocalDeltaOrder a
  { c with localDeltaTracker := c.localDeltaTracker.insert (a, key) change }

def trackGlobal (c : StateContext) (key : Bytes) (change : Option TealValue) : StateContext :=
  { c with globalDeltaTracker := c.globalDeltaTracker.insert key change }

def appLocalPut (c : StateContext) (a : Address) (appId : Nat) (key : Bytes) (value : TealValue) :
    Except StateError StateContext := do
  c.checkKey key
  match c.store.getAppLocalState a appId with
  | none => .error (.notOptedIn .set a appId)
  | some localState =>
    let keyValue ← c.putChecked localState.keyValue localState.schema key value
    let stored := { c with store := c.store.setAppLocalState a appId { localState with keyValue := keyValue } }
    if appId = c.appId ∧ localState.keyValue.lookup key ≠ some value then .ok (stored.trackLocal a key (some value))
    else .ok stored

def appLocalDel (c : StateContext) (a : Address) (appId : Nat) (key : Bytes) : Except StateError StateContext :=
  match c.store.getAppLocalState a appId with
  | none => .error (.notOptedIn .del a appId)
  | some localState =>
    let stored := { c with
      store := c.store.setAppLocalState a appId { localState with keyValue := localState.keyValue.erase key } }
    if appId = c.appId ∧ (localState.keyValue.lookup key).isSome then .ok (stored.trackLocal a key none) else .ok stored

def appGlobalPut (c : StateContext) (appId : Nat) (key : Bytes) (value : TealValue) : Except StateError StateContext := do
  c.checkKey key
  match c.store.getAppParams appId with
  | none => .error (.noSuchApp appId)
  | some app =>
    let state ← c.putChecked app.globalState app.globalStateSchema key value
    let stored := { c with store := c.store.setAppParams appId { app with globalState := state } }
    if appId = c.appId ∧ app.globalState.lookup key ≠ some value then .ok (stored.trackGlobal key (some value))
    else .ok stored

/-- Deleting from an application that is not there does nothing. -/
def appGlobalDel (c : StateContext) (appId : Nat) (key : Bytes) : StateContext :=
  match c.store.getAppParams appId with
  | none => c
  | some app =>
    let stored := { c with store := c.store.setAppParams appId { app with globalState := app.globalState.erase key } }
    if appId = c.appId ∧ (app.globalState.lookup key).isSome then stored.trackGlobal key none else stored

end StateContext

/-! ## Operations of a program -/

inductive StateOp
  | localPut (account : Address) (key : Bytes) (value : TealValue)
  | localDel (account : Address) (key : Bytes)
  | globalPut (key : Bytes) (value : TealValue)
  | globalDel (key : Bytes)
deriving DecidableEq, Repr

/-- A program writes the state of the application it belongs to. -/
def StateOp.perform (c : StateContext) : StateOp → Except StateError StateContext
  | .localPut a key value => c.appLocalPut a c.appId key value
  | .localDel a key => c.appLocalDel a c.appId key
  | .globalPut key value => c.appGlobalPut c.appId key value
  | .globalDel key => .ok (c.appGlobalDel c.appId key)

/-- Change the flags of the program's application. -/
def StateContext.setFlags (c : StateContext) (f : AppParams → AppParams) : Except StateError StateContext :=
  match c.store.getAppParams c.appId with
  | none => .error (.noSuchApp c.appId)
  | some app => .ok { c with store := c.store.setAppParams c.appId (f app) }

/-- What a program writes of its own application: its state and two of its flags. -/
inductive AppWrite
  | state (op : StateOp)
  | setForeignBoxReads (enable : Bool)
  | setFamilyBoxAccess (enable : Bool)
deriving DecidableEq, Repr

def AppWrite.perform (w : AppWrite) (c : StateContext) : Except StateError StateContext :=
  match w with
  | .state op => op.perform c
  | .setForeignBoxReads enable => c.setFlags (fun app => { app with foreignBoxReads := enable })
  | .setFamilyBoxAccess enable => c.setFlags (fun app => { app with familyBoxAccess := enable })

end Ledger
end Algod
