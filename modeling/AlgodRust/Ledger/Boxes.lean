import AlgodRust.Ledger.Store
import AlgodRust.Validate.Fee
/-!
# Boxes — the byte strings applications store under names

A program reaches a box through a reference in its transaction group, or, for an application that the group has
created, through a spare one; the group's references also bound how many bytes it may read and write.  The account of
an application counts its boxes and their bytes, which decide its minimum balance.  Where a simulation allows resources
that the group does not name, a tracker that is arbitrary here (`CapacityOps`) decides which.
-/
namespace Algod
namespace Ledger

open Msgpack (Bytes Value)
open Validate (fieldOf uintUnder bytesUnder largeProgramExtraBytes)

inductive BoxOperation
  | create
  | read
  | write
  | delete
  | resize
deriving DecidableEq, Repr

inductive BoxError
  | inClearState
  | readBudgetExceeded (used budget : Nat)
  | readBudgetExceededDespitePolicy (budget : Nat)
  | invalidReference (name : Bytes)
  | noSuchApp (id : Nat)
  | denied (inFamily : Bool) (app : Nat) (isRead : Bool) (owner : Nat)
  | familyReentrancy (app reliant : Nat)
  | sizeMismatch (size wanted : Nat)
  | writeBudgetExceeded (dirty budget : Nat) (operation : BoxOperation) (name : Bytes)
  | emptyName
  | nameTooLong (length max : Nat)
  | sizeTooLarge (size max : Nat)
  | wrongPutSize (size put : Nat)
  | noSuchBox (name : Bytes)
  | extractionEnd (position length : Nat)
  | replacementEnd (position length : Nat)
  | replacementStart (position length : Nat)
  | spliceEndOverflow
  | spliceEnd (position length : Nat)
  | spliceTooLong
  | panic
deriving DecidableEq, Repr

/-- A caller of the current application, as it was when the call was made. -/
structure FamilyFrame where
  appId : Nat
  creator : Address
  touchedFamilyShared : Bool
deriving DecidableEq, Repr

/-- The part of a program's context that the operations on boxes use. -/
structure BoxContext (τ : Type) where
  store : Store
  consensus : ConsensusParams
  group : List SignedTransaction
  groupIndex : Nat
  appId : Nat
  creator : Address
  callerAppId : Nat
  sharedApps : List Nat
  createdApps : List Nat
  availableBoxes : FinMap (Nat × Bytes) Bool
  boxesInitialized : Bool
  readBudgetChecked : Bool
  ioBudget : Nat
  dirtyBytes : Nat
  unnamedAccess : Nat
  unnamedTracking : Bool
  unnamedCapacity : Option τ
  familyChain : List FamilyFrame
  familyReentrancyChecked : Bool
  touchedFamilyShared : Bool

/-- What a simulation does to track resources that the group does not name. -/
structure CapacityOps (τ : Type) where
  setStartingBoxRefs : Nat → τ → τ
  noteNamedReadSurplus : (surplus : Int) → (bytesPerBoxRef ioBudget : Nat) → τ → Option Nat × τ
  addBox : (isNewApp : Bool) → (key : Nat × Bytes) → (readSize bytesPerBoxRef : Nat) → τ → Bool × τ
  reconcileWriteBudget : (dirtyBytes bytesPerBoxRef : Nat) → τ → Option Nat × τ

/-! ## Boxes of a store -/

/-- The bytes a box takes at least: its name, its contents and one for the entry. -/
def boxFootprint (key : Nat × Bytes) (contents : Bytes) : Nat := 1 + key.2.length + contents.length

namespace Store

def getBox (s : Store) (app : Nat) (name : Bytes) : Option Bytes := s.boxes.lookup (app, name)

/-- Store a box.  What a store holds is addressed with 64 bits: an allocation that does not fit aborts. -/
def setBox (s : Store) (app : Nat) (name contents : Bytes) : Except BoxError Store :=
  let boxes := s.boxes.insert (app, name) contents
  if FinMap.total boxFootprint boxes < u64Bound then .ok { s with boxes := boxes } else .error .panic

def deleteBox (s : Store) (app : Nat) (name : Bytes) : Store := { s with boxes := s.boxes.erase (app, name) }

end Store

/-! ## References to boxes -/

/-- What a reference to a box stands for. -/
inductive RefTarget
  | unnamed
  | box (key : Nat × Bytes)
  | nothing
deriving DecidableEq, Repr

def BoxRef.isEmpty (br : BoxRef) : Bool := br.index == 0 && (br.name.getD []).isEmpty

/-- The target of a reference that is not empty, where its application is found. -/
def namedTarget (br : BoxRef) (app : Option Nat) : RefTarget :=
  match br.name, app with
  | some name, some app => if name.isEmpty then .nothing else .box (app, name)
  | _, _ => .nothing

def foreignTarget (txnAppId : Nat) (foreignApps : List Nat) (br : BoxRef) : RefTarget :=
  if br.isEmpty then .unnamed
  else namedTarget br (if br.index = 0 then some txnAppId else foreignApps[br.index - 1]?)

def boxRefOf (v : Value) : BoxRef := ⟨uintUnder "i" v, (fieldOf "n" v).map Validate.bytesOf⟩

/-- An entry of an access list that asks for nothing in particular. -/
def resourceRefIsEmpty (v : Value) : Bool :=
  (bytesUnder "d" v).all (fun b => b == 0) && uintUnder "s" v == 0 && uintUnder "p" v == 0 &&
    (fieldOf "h" v).all (fun h => uintUnder "d" h == 0 && uintUnder "s" h == 0) &&
    (fieldOf "l" v).all (fun l => uintUnder "d" l == 0 && uintUnder "p" l == 0) &&
    (fieldOf "b" v).all (fun b => (boxRefOf b).isEmpty)

/-- What an entry of an access list stands for, and whether it counts as a reference to a box. -/
def accessTarget (txnAppId : Nat) (access : List Value) (v : Value) : RefTarget × Bool :=
  if resourceRefIsEmpty v then (.unnamed, true)
  else
    match ((fieldOf "b" v).map boxRefOf).filter (fun br => !br.isEmpty) with
    | none => (.nothing, false)
    | some br =>
      let app := if br.index = 0 then some txnAppId
        else ((access[br.index - 1]?).map (uintUnder "p")).filter (fun app => app ≠ 0)
      (namedTarget br app, true)

/-- The targets of a transaction's references; the flag says whether one counts. -/
def targetsOf (appId : Nat) (txn : Transaction) : List (RefTarget × Bool) :=
  let txnAppId := if txn.applicationId = 0 then appId else txn.applicationId
  let access := txn.access.getD []
  (txn.boxes.getD []).map (fun br => (foreignTarget txnAppId (txn.foreignApps.getD []) br, true)) ++
    access.map (accessTarget txnAppId access)

section Context

variable {τ : Type} (cap : CapacityOps τ)

/-- Make a box available, not dirty, unless it already is. -/
def noteTarget (boxes : FinMap (Nat × Bytes) Bool) : RefTarget → FinMap (Nat × Bytes) Bool
  | .box key => if (boxes.lookup key).isSome then boxes else boxes.insert key false
  | _ => boxes

def ensureBoxesInitialized (c : BoxContext τ) : BoxContext τ :=
  if c.boxesInitialized then c
  else
    let targets := c.group.flatMap (fun stx => targetsOf c.appId stx.txn)
    let numBoxRefs := targets.countP (fun t => t.2)
    { c with
      boxesInitialized := true
      availableBoxes := (targets.map Prod.fst).foldl noteTarget c.availableBoxes
      unnamedAccess := c.unnamedAccess + targets.countP (fun t => t.1 = .unnamed)
      ioBudget := min (numBoxRefs * c.consensus.bytesPerBoxReference) (u64Bound - 1)
      unnamedCapacity := c.unnamedCapacity.map (cap.setStartingBoxRefs numBoxRefs) }

/-- What a group reads in any case: the long programs and the boxes it names. -/
def namedReads (c : BoxContext τ) (stored : List (Nat × Bytes)) : Nat :=
  let programs := c.sharedApps.map (fun id => ((c.store.getAppParams id).map (fun app =>
    largeProgramExtraBytes c.consensus (app.approvalProgram.length + app.clearStateProgram.length))).getD 0)
  let boxes := stored.map (fun key => ((c.store.getBox key.1 key.2).getD []).length)
  (programs ++ boxes).foldl satAdd 0

/-- Check once, at the top level, that the group's references pay for what it reads. -/
def checkReadBudget (c : BoxContext τ) : Except BoxError (BoxContext τ) :=
  if c.readBudgetChecked then .ok c
  else if c.callerAppId ≠ 0 then .ok { c with readBudgetChecked := true }
  else
    let stored := c.availableBoxes.keys.filter (fun key => !key.2.isEmpty && (c.store.getBox key.1 key.2).isSome)
    let used := namedReads c stored
    let checked := { c with
      readBudgetChecked := true
      availableBoxes := stored.foldl (fun boxes key => boxes.insert key false) c.availableBoxes }
    match c.unnamedCapacity with
    | none => if used > c.ioBudget then .error (.readBudgetExceeded used c.ioBudget) else .ok checked
    | some t =>
      match cap.noteNamedReadSurplus ((c.ioBudget : Int) - used) c.consensus.bytesPerBoxReference c.ioBudget t with
      | (none, _) => .error (.readBudgetExceededDespitePolicy c.ioBudget)
      | (some ioBudget, t) => .ok { checked with ioBudget := ioBudget, unnamedCapacity := some t }

def reconcileWriteBudgetAndGrowIo (c : BoxContext τ) : BoxContext τ :=
  match c.unnamedCapacity with
  | none => c
  | some t =>
    match cap.reconcileWriteBudget c.dirtyBytes c.consensus.bytesPerBoxReference t with
    | (none, t) => { c with unnamedCapacity := some t }
    | (some required, t) => { c with unnamedCapacity := some t, ioBudget := max c.ioBudget required }

/-! ## Access to a box -/

/-- Find out how a box is reached.  The flag says that it belongs to a new application and takes up a spare
reference: no box of that name is expected in the store. -/
def findAccess (c : BoxContext τ) (key : Nat × Bytes) : Except BoxError (Bool × BoxContext τ) :=
  if (c.availableBoxes.lookup key).isSome then .ok (false, c)
  else if c.createdApps.contains key.1 ∧ c.unnamedAccess > 0 then
    .ok (true, { c with unnamedAccess := c.unnamedAccess - 1 })
  else if c.unnamedTracking then
    let isNewApp := c.createdApps.contains key.1
    let readSize := if isNewApp then 0 else ((c.store.getBox key.1 key.2).getD []).length
    let listed := { c with availableBoxes := c.availableBoxes.insert key false }
    match c.unnamedCapacity with
    | none => .ok (false, listed)
    | some t =>
      match cap.addBox isNewApp key readSize c.consensus.bytesPerBoxReference t with
      | (false, _) => .error (.invalidReference key.2)
      | (true, t) => .ok (false, reconcileWriteBudgetAndGrowIo cap { listed with unnamedCapacity := some t })
  else .error (.invalidReference key.2)

/-- The nearest caller of the same creator that relies on family state across a call by a stranger. -/
def reliantCaller (creator : Address) : List FamilyFrame → Bool → Option FamilyFrame
  | [], _ => none
  | f :: frames, seenForeign =>
    if f.creator ≠ creator then reliantCaller creator frames true
    else if seenForeign ∧ f.touchedFamilyShared then some f
    else reliantCaller creator frames seenForeign

def checkFamilyReentrancy (c : BoxContext τ) : Except BoxError (BoxContext τ) :=
  if c.familyReentrancyChecked then .ok c
  else
    match reliantCaller c.creator c.familyChain.reverse false with
    | some f => .error (.familyReentrancy c.appId f.appId)
    | none => .ok { c with familyReentrancyChecked := true }

/-- Whether a box behaves like state that a family of applications shares; an error where access is denied. -/
def familyShared (c : BoxContext τ) (owner : Nat) (params : AppParams) (operation : BoxOperation) :
    Except BoxError Bool :=
  if owner = c.appId then .ok params.familyBoxAccess
  else
    let inFamily := params.familyBoxAccess && decide (c.creator = params.creator)
    if (operation = .read ∧ params.foreignBoxReads) ∨ inFamily then .ok inFamily
    else .error (.denied (decide (c.creator = params.creator)) c.appId (operation = .read) owner)

/-- Shared state may be read at any time, and written where no caller relies on it. -/
def touchFamilyShared (c : BoxContext τ) (operation : BoxOperation) : Except BoxError (BoxContext τ) :=
  if operation = .read then .ok { c with touchedFamilyShared := true }
  else (checkFamilyReentrancy c).map (fun c => { c with touchedFamilyShared := true })

def authorizeBoxAccess (c : BoxContext τ) (owner : Nat) (operation : BoxOperation) :
    Except BoxError (BoxContext τ) :=
  match c.store.getAppParams owner with
  | none => .error (.noSuchApp owner)
  | some params =>
    match familyShared c owner params operation with
    | .error e => .error e
    | .ok shared => if shared then touchFamilyShared c operation else .ok c

def wrapSub (a b : Nat) : Nat := (a + (u64Bound - b % u64Bound)) % u64Bound

/-- The bytes a group has written and whether the box is dirty after an operation on it. -/
def dirtyAfter (operation : BoxOperation) (createSize : Nat) (contents : Bytes) (present dirty : Bool)
    (dirtyBytes : Nat) : Nat × Bool :=
  match operation with
  | .create => (if dirty then dirtyBytes else wrapAdd dirtyBytes createSize, true)
  | .write => (if dirty then dirtyBytes else wrapAdd dirtyBytes (if present then contents.length else createSize), true)
  | .resize => (wrapAdd (if dirty then wrapSub dirtyBytes contents.length else dirtyBytes) createSize, true)
  | .delete => (if dirty then wrapSub dirtyBytes contents.length else dirtyBytes, false)
  | .read => (dirtyBytes, dirty)

/-- Account for the bytes that an operation writes. -/
def trackDirty (c : BoxContext τ) (key : Nat × Bytes) (operation : BoxOperation) (createSize : Nat) (contents : Bytes)
    (present dirty : Bool) : Except BoxError (BoxContext τ) :=
  let after := dirtyAfter operation createSize contents present dirty c.dirtyBytes
  let c := reconcileWriteBudgetAndGrowIo cap
    { c with dirtyBytes := after.1, availableBoxes := c.availableBoxes.insert key after.2 }
  if c.dirtyBytes > c.ioBudget then .error (.writeBudgetExceeded c.dirtyBytes c.ioBudget operation key.2) else .ok c

/-- What an access finds: nothing where it is taken for the first one to a new application's box. -/
def foundBox (c : BoxContext τ) (key : Nat × Bytes) (newAppAccess : Bool) : Option Bytes :=
  if newAppAccess then none else c.store.getBox key.1 key.2

def availableAppBox (c : BoxContext τ) (appId : Nat) (name : Bytes) (operation : BoxOperation) (createSize : Nat) :
    Except BoxError (Option Bytes × BoxContext τ) :=
  match c.group[c.groupIndex]? with
  | none => .error .panic
  | some stx =>
    if stx.txn.onCompletion = 3 then .error .inClearState
    else do
      let c ← checkReadBudget cap (ensureBoxesInitialized cap c)
      let (newAppAccess, c) ← findAccess cap c (appId, name)
      let c ← authorizeBoxAccess c appId operation
      let dirty := !newAppAccess && (c.availableBoxes.lookup (appId, name)).getD false
      let found := foundBox c (appId, name) newAppAccess
      if operation = .create ∧ found.isSome then
        if createSize ≠ (found.getD []).length then .error (.sizeMismatch (found.getD []).length createSize)
        else .ok (found, c)
      else do
        let c ← trackDirty cap c (appId, name) operation createSize (found.getD []) found.isSome dirty
        .ok (found, c)

/-! ## Operations -/

def boxLengthChecks (c : BoxContext τ) (name : Bytes) (size : Nat) : Except BoxError Unit :=
  if name.isEmpty then .error .emptyName
  else if name.length > c.consensus.maxAppKeyLen then .error (.nameTooLong name.length c.consensus.maxAppKeyLen)
  else if size > c.consensus.maxBoxSize then .error (.sizeTooLarge size c.consensus.maxBoxSize)
  else .ok ()

/-- Write a box, with the totals that its owner's account then has. -/
def writeBox (c : BoxContext τ) (owner : Address) (account : AccountData) (appId : Nat) (name contents : Bytes) :
    Except BoxError (BoxContext τ) := do
  let store ← (c.store.setAccount owner account).setBox appId name contents
  .ok { c with store := store }

variable (appAddress : Nat → Address)

/-- The account of an application with one more box. -/
def countBox (c : BoxContext τ) (appId : Nat) (name : Bytes) (size : Nat) : AccountData :=
  let account := c.store.getOrDefaultAccount (appAddress appId)
  { account with
    totalBoxes := satAdd account.totalBoxes 1
    totalBoxBytes := satAdd account.totalBoxBytes (name.length + size) }

/-- The contents of a box, and whether there is one. -/
def boxGetImpl (c : BoxContext τ) (appId : Nat) (name : Bytes) : Except BoxError ((Bytes × Bool) × BoxContext τ) := do
  boxLengthChecks c name 0
  let (found, c) ← availableAppBox cap c appId name .read 0
  .ok ((found.getD [], found.isSome), c)

def boxPutImpl (c : BoxContext τ) (appId : Nat) (name value : Bytes) : Except BoxError (BoxContext τ) := do
  boxLengthChecks c name value.length
  let (found, c) ← availableAppBox cap c appId name .write value.length
  match found with
  | some contents =>
    if contents.length ≠ value.length then .error (.wrongPutSize contents.length value.length)
    else do
      let store ← c.store.setBox appId name value
      .ok { c with store := store }
  | none => writeBox c (appAddress appId) (countBox appAddress c appId name value.length) appId name value

/-- Delete a box, and whether there was one. -/
def boxDelImpl (c : BoxContext τ) (appId : Nat) (name : Bytes) : Except BoxError (Bool × BoxContext τ) := do
  boxLengthChecks c name 0
  let (found, c) ← availableAppBox cap c appId name .delete 0
  if found.isSome then
    let contentLen := ((c.store.getBox appId name).getD []).length
    let account := c.store.getOrDefaultAccount (appAddress appId)
    let account := { account with
      totalBoxes := account.totalBoxes - 1
      totalBoxBytes := account.totalBoxBytes - (name.length + contentLen) }
    .ok (true, { c with store := (c.store.setAccount (appAddress appId) account).deleteBox appId name })
  else .ok (false, c)

def boxLenImpl (c : BoxContext τ) (appId : Nat) (name : Bytes) : Except BoxError ((Nat × Bool) × BoxContext τ) := do
  boxLengthChecks c name 0
  let (found, c) ← availableAppBox cap c appId name .read 0
  .ok (((found.getD []).length, found.isSome), c)

/-- Create a box of zeros, and whether it is new. -/
def boxCreateImpl (c : BoxContext τ) (appId : Nat) (name : Bytes) (size : Nat) :
    Except BoxError (Bool × BoxContext τ) := do
  boxLengthChecks c name size
  let (found, c) ← availableAppBox cap c appId name .create size
  if found.isSome then .ok (false, c)
  else do
    let c ← writeBox c (appAddress appId) (countBox appAddress c appId name size) appId name (List.replicate size 0)
    .ok (true, c)

def boxExtractImpl (c : BoxContext τ) (appId : Nat) (name : Bytes) (offset length : Nat) :
    Except BoxError (Bytes × BoxContext τ) := do
  boxLengthChecks c name (satAdd offset length)
  let (found, c) ← availableAppBox cap c appId name .read 0
  match found with
  | none => .error (.noSuchBox name)
  | some contents =>
    if offset + length > contents.length then .error (.extractionEnd (offset + length) contents.length)
    else .ok ((contents.drop offset).take length, c)

/-- The bytes with a range overwritten. -/
def overwrite (contents : Bytes) (start : Nat) (value : Bytes) : Bytes :=
  contents.take start ++ value ++ contents.drop (start + value.length)

def boxReplaceImpl (c : BoxContext τ) (appId : Nat) (name : Bytes) (offset : Nat) (value : Bytes) :
    Except BoxError (BoxContext τ) := do
  boxLengthChecks c name (satAdd offset value.length)
  let (found, c) ← availableAppBox cap c appId name .write 0
  match found with
  | none => .error (.noSuchBox name)
  | some contents =>
    if offset + value.length > contents.length then
      .error (.replacementEnd (offset + value.length) contents.length)
    else do
      let store ← c.store.setBox appId name (overwrite contents offset value)
      .ok { c with store := store }

def boxResizeImpl (c : BoxContext τ) (appId : Nat) (name : Bytes) (newSize : Nat) :
    Except BoxError (BoxContext τ) := do
  boxLengthChecks c name newSize
  let (found, c) ← availableAppBox cap c appId name .resize newSize
  match found with
  | none => .error (.noSuchBox name)
  | some contents =>
    let account := c.store.getOrDefaultAccount (appAddress appId)
    let account := { account with
      totalBoxBytes := satAdd (account.totalBoxBytes - (name.length + contents.length)) (name.length + newSize) }
    let resized := if newSize > contents.length then overwrite (List.replicate newSize 0) 0 contents
      else contents.take newSize
    writeBox c (appAddress appId) account appId name resized

/-- The bytes with a range replaced by others, cut off or filled up with zeros to the length they had. -/
def spliced (contents : Bytes) (start stop : Nat) (value : Bytes) : Bytes :=
  let result := overwrite (overwrite (List.replicate contents.length 0) 0 (contents.take start)) start value
  let tailStart := start + value.length
  if tailStart < contents.length ∧ stop < contents.length then
    let copyLen := min (contents.length - tailStart) (contents.length - stop)
    overwrite result tailStart ((contents.drop stop).take copyLen)
  else result

def boxSpliceImpl (c : BoxContext τ) (appId : Nat) (name : Bytes) (start length : Nat) (value : Bytes) :
    Except BoxError (BoxContext τ) := do
  boxLengthChecks c name 0
  let (found, c) ← availableAppBox cap c appId name .write 0
  match found with
  | none => .error (.noSuchBox name)
  | some contents =>
    if start > contents.length then .error (.replacementStart start contents.length)
    else if wrapAdd start length < start then .error .spliceEndOverflow
    else if wrapAdd start length > contents.length then .error (.spliceEnd (wrapAdd start length) contents.length)
    else if value.length > contents.length - start then .error .spliceTooLong
    else do
      let store ← c.store.setBox appId name (spliced contents start (wrapAdd start length) value)
      .ok { c with store := store }

/-! ## Requests -/

inductive BoxCall
  | get
  | put (value : Bytes)
  | del
  | len
  | create (size : Nat)
  | extract (offset length : Nat)
  | replace (offset : Nat) (value : Bytes)
  | resize (newSize : Nat)
  | splice (start length : Nat) (value : Bytes)
deriving DecidableEq, Repr

/-- The numbers of a call are unsigned 64-bit integers. -/
def BoxCall.fits : BoxCall → Bool
  | .create size => size < u64Bound
  | .extract offset length => offset < u64Bound && length < u64Bound
  | .replace offset _ => offset < u64Bound
  | .resize newSize => newSize < u64Bound
  | .splice start length _ => start < u64Bound && length < u64Bound
  | _ => true

/-- An operation on a box of the program's own or of another application. -/
structure BoxRequest where
  appId : Nat
  name : Bytes
  call : BoxCall
  appId_lt : appId < u64Bound
  call_fits : call.fits = true

inductive BoxAnswer
  | done
  | flag (b : Bool)
  | bytes (bs : Bytes)
  | lookup (bs : Bytes) (present : Bool)
  | length (n : Nat) (present : Bool)
deriving DecidableEq, Repr

def perform (c : BoxContext τ) (r : BoxRequest) : Except BoxError (BoxAnswer × BoxContext τ) :=
  match r.call with
  | .get => (boxGetImpl cap c r.appId r.name).map (fun p => (.lookup p.1.1 p.1.2, p.2))
  | .put value => (boxPutImpl cap appAddress c r.appId r.name value).map (fun c => (.done, c))
  | .del => (boxDelImpl cap appAddress c r.appId r.name).map (fun p => (.flag p.1, p.2))
  | .len => (boxLenImpl cap c r.appId r.name).map (fun p => (.length p.1.1 p.1.2, p.2))
  | .create size => (boxCreateImpl cap appAddress c r.appId r.name size).map (fun p => (.flag p.1, p.2))
  | .extract offset length => (boxExtractImpl cap c r.appId r.name offset length).map (fun p => (.bytes p.1, p.2))
  | .replace offset value => (boxReplaceImpl cap c r.appId r.name offset value).map (fun c => (.done, c))
  | .resize newSize => (boxResizeImpl cap appAddress c r.appId r.name newSize).map (fun c => (.done, c))
  | .splice start length value => (boxSpliceImpl cap c r.appId r.name start length value).map (fun c => (.done, c))

/-- Perform requests one after the other, as long as they succeed. -/
def performAll (c : BoxContext τ) : List BoxRequest → Except BoxError (List BoxAnswer × BoxContext τ)
  | [] => .ok ([], c)
  | r :: rs => do
    let (answer, c) ← perform cap appAddress c r
    let (answers, c) ← performAll c rs
    .ok (answer :: answers, c)

end Context

end Ledger
end Algod
