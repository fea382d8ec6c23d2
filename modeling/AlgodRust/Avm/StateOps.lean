import AlgodRust.Avm.CryptoOps
import AlgodRust.Avm.Eval
/-!
# StateOps — transactions, accounts, applications, boxes and inner transactions

These opcodes ask a `Context`: what surrounds a program, which some of them change.  Each one takes its arguments from
the stack, asks, and pushes what it is told.  The values that come from outside the machine are the result of the
opcode and are pushed afterwards, in their order.
-/
namespace Algod
namespace Avm

open Msgpack (Bytes)
open Ledger (TealValue)

/-! ## The context -/

def tealToAvm : TealValue → AvmValue
  | .uint n => .uint n
  | .bytes bs => .bytes bs

/-- What surrounds a program.  Reads see the state of the context; the other functions may change it, also when they
fail.  Addresses are their 32 bytes. -/
structure Context (σ : Type) where
  txnField : σ → Nat → UInt8 → Option Nat → Except String TealValue
  groupIndex : σ → Nat
  globalField : σ → UInt8 → Except String TealValue
  arg : σ → Nat → Except String Bytes
  resolveAccount : σ → Nat → Except String Bytes
  resolveAsset : σ → Nat → Except String Nat
  directAssetRef : σ → Nat → Except String Nat
  directAppRef : σ → Nat → Except String Nat
  resolveApp : σ → Nat → Except String Nat
  appOptedIn : σ → Bytes → Nat → Except String Bool
  appLocalGet : σ → Bytes → Nat → Bytes → Except String (Option TealValue)
  appGlobalGet : σ → Nat → Bytes → Except String (Option TealValue)
  appLocalPut : Bytes → Nat → Bytes → TealValue → EStateM String σ Unit
  appLocalDel : Bytes → Nat → Bytes → EStateM String σ Unit
  appGlobalPut : Nat → Bytes → TealValue → EStateM String σ Unit
  appGlobalDel : Nat → Bytes → EStateM String σ Unit
  balance : σ → Bytes → Except String Nat
  minBalance : σ → Bytes → Except String Nat
  assetHoldingGet : σ → Bytes → Nat → UInt8 → Except String (TealValue × Bool)
  assetParamsGet : σ → Nat → UInt8 → Except String (TealValue × Bool)
  appParamsGet : σ → Nat → UInt8 → Except String (TealValue × Bool)
  acctParamsGet : σ → Bytes → UInt8 → Except String (TealValue × Bool)
  voterParamsGet : σ → Bytes → UInt8 → Except String (TealValue × Bool)
  onlineStake : σ → Except String Nat
  setForeignBoxReads : Nat → Bool → EStateM String σ Unit
  setFamilyBoxAccess : Nat → Bool → EStateM String σ Unit
  log : Bytes → EStateM String σ Unit
  gload : σ → String → Nat → Nat → Except String TealValue
  createdId : σ → Nat → Except String Nat
  blockField : σ → Nat → UInt8 → Except String AvmValue
  itxnBegin : EStateM String σ Unit
  itxnField : UInt8 → TealValue → EStateM String σ Unit
  itxnNext : EStateM String σ Unit
  itxnSubmit : EStateM String σ Unit
  setOpcodeBudget : Int → σ → σ
  getOpcodeBudget : σ → Int
  supportsBudgetPooling : σ → Bool
  lastItxnField : σ → UInt8 → Option Nat → Except String TealValue
  lastItxnGroupField : σ → Nat → UInt8 → Option Nat → Except String TealValue
  currentAppId : σ → Nat
  programHash : σ → Bytes
  callerAppId : σ → Nat
  callerAppAddress : σ → Bytes
  boxGet : Bytes → EStateM String σ (Bytes × Bool)
  boxPut : Bytes → Bytes → EStateM String σ Unit
  boxDel : Bytes → EStateM String σ Bool
  boxLen : Bytes → EStateM String σ (Nat × Bool)
  boxCreate : Bytes → Nat → EStateM String σ Bool
  boxExtract : Bytes → Nat → Nat → EStateM String σ Bytes
  boxReplace : Bytes → Nat → Bytes → EStateM String σ Unit
  boxResize : Bytes → Nat → EStateM String σ Unit
  boxSplice : Bytes → Nat → Nat → Bytes → EStateM String σ Unit
  appBoxGet : Nat → Bytes → EStateM String σ (Bytes × Bool)
  appBoxPut : Nat → Bytes → Bytes → EStateM String σ Unit
  appBoxDel : Nat → Bytes → EStateM String σ Bool
  appBoxLen : Nat → Bytes → EStateM String σ (Nat × Bool)
  appBoxCreate : Nat → Bytes → Nat → EStateM String σ Bool
  appBoxExtract : Nat → Bytes → Nat → Nat → EStateM String σ Bytes
  appBoxReplace : Nat → Bytes → Nat → Bytes → EStateM String σ Unit
  appBoxResize : Nat → Bytes → Nat → EStateM String σ Unit
  appBoxSplice : Nat → Bytes → Nat → Nat → Bytes → EStateM String σ Unit
  isAccountAvailable : σ → Bytes → Bool
  isNamedAccountForMutation : σ → Bytes → Bool
  isHoldingAvailable : σ → Bytes → Nat → Bool
  isLocalAvailable : σ → Bytes → Nat → Bool
  /-- An address as texts show it. -/
  addressText : Bytes → String

def unavailable (name : String) : String := s!"context unavailable: {name}"

/-- A context in which nothing can be found. -/
def nullContext (addressText : Bytes → String) : Context Unit where
  txnField _ _ _ _ := .error (unavailable "txn_field")
  groupIndex _ := 0
  globalField _ _ := .error (unavailable "global_field")
  arg _ _ := .error (unavailable "arg")
  resolveAccount _ _ := .error (unavailable "resolve_account")
  resolveAsset _ _ := .error (unavailable "resolve_asset")
  directAssetRef _ id := .ok id
  directAppRef _ id := .ok id
  resolveApp _ _ := .error (unavailable "resolve_app")
  appOptedIn _ _ _ := .error (unavailable "app_opted_in")
  appLocalGet _ _ _ _ := .error (unavailable "app_local_get")
  appGlobalGet _ _ _ := .error (unavailable "app_global_get")
  appLocalPut _ _ _ _ := throw (unavailable "app_local_put")
  appLocalDel _ _ _ := throw (unavailable "app_local_del")
  appGlobalPut _ _ _ := throw (unavailable "app_global_put")
  appGlobalDel _ _ := throw (unavailable "app_global_del")
  balance _ _ := .error (unavailable "balance")
  minBalance _ _ := .error (unavailable "min_balance")
  assetHoldingGet _ _ _ _ := .error (unavailable "asset_holding_get")
  assetParamsGet _ _ _ := .error (unavailable "asset_params_get")
  appParamsGet _ _ _ := .error (unavailable "app_params_get")
  acctParamsGet _ _ _ := .error (unavailable "acct_params_get")
  voterParamsGet _ _ _ := .error (unavailable "voter_params_get")
  onlineStake _ := .error (unavailable "online_stake")
  setForeignBoxReads _ _ := throw (unavailable "set_foreign_box_reads")
  setFamilyBoxAccess _ _ := throw (unavailable "set_family_box_access")
  log _ := throw (unavailable "log")
  gload _ _ _ _ := .error (unavailable "gload")
  createdId _ _ := .error (unavailable "created_id")
  blockField _ _ _ := .error (unavailable "block_field")
  itxnBegin := throw (unavailable "itxn_begin")
  itxnField _ _ := throw (unavailable "itxn_field")
  itxnNext := throw (unavailable "itxn_next")
  itxnSubmit := throw (unavailable "itxn_submit")
  setOpcodeBudget _ s := s
  getOpcodeBudget _ := 0
  supportsBudgetPooling _ := false
  lastItxnField _ _ _ := .error (unavailable "last_itxn_field")
  lastItxnGroupField _ _ _ _ := .error (unavailable "last_itxn_group_field")
  currentAppId _ := 0
  programHash _ := List.replicate 32 0
  callerAppId _ := 0
  callerAppAddress _ := List.replicate 32 0
  boxGet _ := throw (unavailable "box_get")
  boxPut _ _ := throw (unavailable "box_put")
  boxDel _ := throw (unavailable "box_del")
  boxLen _ := throw (unavailable "box_len")
  boxCreate _ _ := throw (unavailable "box_create")
  boxExtract _ _ _ := throw (unavailable "box_extract")
  boxReplace _ _ _ := throw (unavailable "box_replace")
  boxResize _ _ := throw (unavailable "box_resize")
  boxSplice _ _ _ _ := throw (unavailable "box_splice")
  appBoxGet _ _ := throw (unavailable "app_box_get")
  appBoxPut _ _ _ := throw (unavailable "app_box_put")
  appBoxDel _ _ := throw (unavailable "app_box_del")
  appBoxLen _ _ := throw (unavailable "app_box_len")
  appBoxCreate _ _ _ := throw (unavailable "app_box_create")
  appBoxExtract _ _ _ _ := throw (unavailable "app_box_extract")
  appBoxReplace _ _ _ _ := throw (unavailable "app_box_replace")
  appBoxResize _ _ _ := throw (unavailable "app_box_resize")
  appBoxSplice _ _ _ _ _ := throw (unavailable "app_box_splice")
  isAccountAvailable _ _ := true
  isNamedAccountForMutation _ _ := false
  isHoldingAvailable _ _ _ := true
  isLocalAvailable _ _ _ := true
  addressText := addressText

section Ops

variable {σ : Type}

/-- A computation on the data of a machine and the state of its context. -/
abbrev Op (σ : Type) := EStateM AvmError (Data × σ)

def onStack {α : Type} (x : OnData α) : Op σ α := Run.zoom Prod.fst (fun d s => (d, s.2)) x

/-- A read of the context. -/
def asks {α : Type} (f : σ → Except String α) : Op σ α := do
  let s ← get
  match f s.2 with
  | .ok a => return a
  | .error text => throw (.other text)

/-- A change of the context. -/
def acts {α : Type} (x : EStateM String σ α) : Op σ α := fun s =>
  match x s.2 with
  | .ok a t => .ok a (s.1, t)
  | .error text t => .error (.other text) (s.1, t)

variable (ctx : Context σ) (version : Nat) (instr : Instruction)

/-- The results of a read with a flag that says whether there was something to read. -/
def flagged (r : TealValue × Bool) : List AvmValue := [tealToAvm r.1, .uint (truth r.2)]

/-! ## Accounts and references -/

def directRefEnabledVersion : Nat := 4

def invalidReference : String := "invalid account reference: expected uint64 index or 32-byte address"

/-- The address of an account that a value refers to, where an address has to pass a test. -/
def resolveAccountWith (s : σ) (test : Bytes → Except String Unit) (value : AvmValue) : Except String Bytes :=
  match value with
  | .uint idx => ctx.resolveAccount s idx
  | .bytes addr =>
    if addr.length = 32 then (test addr).map fun _ => addr
    else .error invalidReference

def resolveAccountBytes (s : σ) (value : AvmValue) : Except String Bytes :=
  resolveAccountWith ctx s (fun _ => .ok ()) value

def resolveAccount (s : σ) (value : AvmValue) : Except String Bytes :=
  resolveAccountWith ctx s (fun addr =>
    if ctx.isAccountAvailable s addr then .ok () else .error s!"unavailable Account {ctx.addressText addr}") value

def resolveMutableAccount (s : σ) (value : AvmValue) : Except String Bytes :=
  resolveAccountWith ctx s (fun addr =>
    if ctx.isNamedAccountForMutation s addr ∨ (version ≥ sharedResourcesVersion ∧ ctx.isAccountAvailable s addr) then
      .ok ()
    else .error s!"invalid Account reference for mutation {ctx.addressText addr}") value

/-- An account and the asset of one of its holdings. -/
def holdingReference (s : σ) (acct : AvmValue) (assetRef : Nat) : Except String (Bytes × Nat) :=
  if version ≥ sharedResourcesVersion then do
    let addr ← resolveAccountBytes ctx s acct
    let text := ctx.addressText addr
    match ctx.resolveAsset s assetRef with
    | .ok asset =>
      if ctx.isHoldingAvailable s addr asset then return (addr, asset)
      else if ctx.isAccountAvailable s addr then .error s!"unavailable Holding {asset}+{text}"
      else .error s!"unavailable Account {text}"
    | .error e =>
      if ctx.isAccountAvailable s addr then .error e else .error s!"unavailable Account {text}, {e}"
  else do
    let addr ← resolveAccount ctx s acct
    let asset ← if version < directRefEnabledVersion then ctx.directAssetRef s assetRef else ctx.resolveAsset s assetRef
    return (addr, asset)

/-- An account and the application of one of its local states. -/
def localsReference (s : σ) (acct : AvmValue) (appRef : Nat) : Except String (Bytes × Nat) :=
  if version ≥ sharedResourcesVersion then do
    let addr ← resolveAccountBytes ctx s acct
    let text := ctx.addressText addr
    match ctx.resolveApp s appRef with
    | .ok app =>
      if ctx.isLocalAvailable s addr app then return (addr, app)
      else if ctx.isAccountAvailable s addr then .error s!"unavailable Local State {app}+{text}"
      else .error s!"unavailable Account {text}, unavailable Local State {app}+{text}"
    | .error e =>
      if ctx.isAccountAvailable s addr then .error e
      else .error s!"unavailable Account {text}, {e}, unavailable Local State 0+{text}"
  else do
    let addr ← resolveAccount ctx s acct
    let app ← if version < directRefEnabledVersion then ctx.directAppRef s appRef else ctx.resolveApp s appRef
    return (addr, app)

def checkLocalsAvailable (s : σ) (addr : Bytes) (app : Nat) : Except String Unit :=
  if version ≥ sharedResourcesVersion ∧ !ctx.isLocalAvailable s addr app then
    .error s!"unavailable Local State {app}+{ctx.addressText addr}"
  else .ok ()

/-! ## Application state -/

/-- A number of an account. -/
def accountNumber (f : σ → Bytes → Except String Nat) : Op σ (List AvmValue) := do
  let acct ← onStack (pop instr.name)
  let n ← asks fun s => resolveAccount ctx s acct >>= f s
  return [.uint n]

def opBalance : Op σ (List AvmValue) := accountNumber ctx instr ctx.balance
def opMinBalance : Op σ (List AvmValue) := accountNumber ctx instr ctx.minBalance

def opAppOptedIn : Op σ (List AvmValue) := do
  let app ← onStack (popUint instr.name)
  let acct ← onStack (pop instr.name)
  let optedIn ← asks fun s => localsReference ctx version s acct app >>= fun r => ctx.appOptedIn s r.1 r.2
  return [.uint (truth optedIn)]

/-- What a value that may be missing is pushed as. -/
def orZero (value : Option TealValue) : AvmValue := (value.map tealToAvm).getD (.uint 0)

def opAppLocalGet : Op σ (List AvmValue) := do
  let key ← onStack (popBytes instr.name)
  let acct ← onStack (pop instr.name)
  let value ← asks fun s => localsReference ctx version s acct 0 >>= fun r => ctx.appLocalGet s r.1 r.2 key
  return [orZero value]

def opAppLocalGetEx : Op σ (List AvmValue) := do
  let key ← onStack (popBytes instr.name)
  let app ← onStack (popUint instr.name)
  let acct ← onStack (pop instr.name)
  let value ← asks fun s => localsReference ctx version s acct app >>= fun r => ctx.appLocalGet s r.1 r.2 key
  return [orZero value, .uint (truth value.isSome)]

def opAppGlobalGet : Op σ (List AvmValue) := do
  let key ← onStack (popBytes instr.name)
  let value ← asks fun s => ctx.appGlobalGet s (ctx.currentAppId s) key
  return [orZero value]

def opAppGlobalGetEx : Op σ (List AvmValue) := do
  let key ← onStack (popBytes instr.name)
  let app ← onStack (popUint instr.name)
  let value ← asks fun s => ctx.resolveApp s app >>= fun app => ctx.appGlobalGet s app key
  return [orZero value, .uint (truth value.isSome)]

/-- The account and the application of a change of local state. -/
def mutableLocals (acct : AvmValue) (s : σ) : Except String (Bytes × Nat) := do
  let addr ← resolveMutableAccount ctx version s acct
  checkLocalsAvailable ctx version s addr (ctx.currentAppId s)
  return (addr, ctx.currentAppId s)

def opAppLocalPut : Op σ (List AvmValue) := do
  let value ← onStack (pop instr.name)
  let key ← onStack (popBytes instr.name)
  let acct ← onStack (pop instr.name)
  let (addr, app) ← asks (mutableLocals ctx version acct)
  acts (ctx.appLocalPut addr app key (toTealValue value))
  return []

def opAppGlobalPut : Op σ (List AvmValue) := do
  let value ← onStack (pop instr.name)
  let key ← onStack (popBytes instr.name)
  let app ← asks fun s => .ok (ctx.currentAppId s)
  acts (ctx.appGlobalPut app key (toTealValue value))
  return []

def opAppLocalDel : Op σ (List AvmValue) := do
  let key ← onStack (popBytes instr.name)
  let acct ← onStack (pop instr.name)
  let (addr, app) ← asks (mutableLocals ctx version acct)
  acts (ctx.appLocalDel addr app key)
  return []

def opAppGlobalDel : Op σ (List AvmValue) := do
  let key ← onStack (popBytes instr.name)
  let app ← asks fun s => .ok (ctx.currentAppId s)
  acts (ctx.appGlobalDel app key)
  return []

/-! ## Parameters -/

/-- The field an instruction names, which its version has to know. -/
def versionedField (enumeration : String) (fields : List (String × Nat)) : OnData UInt8 := do
  let byte ← immediate (getUint8 instr)
  let field ← ofText (fieldFromU8 enumeration fields byte)
  if field.2 > version then throw (.other s!"invalid {instr.name} field {byte.toNat}") else return byte

def opAssetHoldingGet : Op σ (List AvmValue) := do
  let byte ← onStack (immediate (getUint8 instr))
  let _ ← onStack (ofText (fieldFromU8 "AssetHoldingField" assetHoldingFields byte))
  let asset ← onStack (popUint instr.name)
  let acct ← onStack (pop instr.name)
  let r ← asks fun s => holdingReference ctx version s acct asset >>= fun r => ctx.assetHoldingGet s r.1 r.2 byte
  return flagged r

def opAssetParamsGet : Op σ (List AvmValue) := do
  let byte ← onStack (versionedField version instr "AssetParamsField" assetParamsFields)
  let asset ← onStack (popUint instr.name)
  let r ← asks fun s => ctx.resolveAsset s asset >>= fun asset => ctx.assetParamsGet s asset byte
  return flagged r

def opAppParamsGet : Op σ (List AvmValue) := do
  let byte ← onStack (versionedField version instr "AppParamsField" appParamsFields)
  let app ← onStack (popUint instr.name)
  let r ← asks fun s => ctx.resolveApp s app >>= fun app => ctx.appParamsGet s app byte
  return flagged r

def opAcctParamsGet : Op σ (List AvmValue) := do
  let byte ← onStack (versionedField version instr "AcctParamsField" acctParamsFields)
  let acct ← onStack (pop instr.name)
  let r ← asks fun s => resolveAccount ctx s acct >>= fun addr => ctx.acctParamsGet s addr byte
  return flagged r

/-- The name of the parameter an instruction sets, which its version has to be able to set. -/
def settableField : OnData String := do
  let byte ← immediate (getUint8 instr)
  match appParamsFields[byte.toNat]? with
  | some field =>
    if appParamsSetVersion field.1 ≠ 0 ∧ appParamsSetVersion field.1 ≤ version then return field.1
    else throw (.other s!"invalid app_params_set field {byte.toNat}")
  | none => throw (.other s!"invalid app_params_set field {byte.toNat}")

def opAppParamsSet : Op σ (List AvmValue) := do
  let field ← onStack (settableField version instr)
  let arg ← onStack (popUint instr.name)
  let app ← asks fun s => .ok (ctx.currentAppId s)
  if field = "AppForeignBoxReads" then acts (ctx.setForeignBoxReads app (decide (arg ≠ 0)))
  else if field = "AppFamilyBoxAccess" then acts (ctx.setFamilyBoxAccess app (decide (arg ≠ 0)))
  else onStack (throw (.other s!"immutable app_params_set field {field}"))
  return []

def opVoterParamsGet : Op σ (List AvmValue) := do
  let byte ← onStack (immediate (getUint8 instr))
  let acct ← onStack (pop instr.name)
  let r ← asks fun s => resolveAccount ctx s acct >>= fun addr => ctx.voterParamsGet s addr byte
  return flagged r

def opOnlineStake : Op σ (List AvmValue) := do
  let n ← asks ctx.onlineStake
  return [.uint n]

/-! ## The group and the chain -/

def opLog : Op σ (List AvmValue) := do
  let data ← onStack (popBytes instr.name)
  acts (ctx.log data)
  return []

def opGload : Op σ (List AvmValue) := do
  let (group, slot) ← onStack (immediate (getUint8Pair instr))
  let value ← asks fun s => ctx.gload s "gload" group.toNat slot.toNat
  return [tealToAvm value]

def opGloads : Op σ (List AvmValue) := do
  let slot ← onStack (immediate (getUint8 instr))
  let group ← onStack (popUint instr.name)
  let value ← asks fun s => ctx.gload s "gloads" group slot.toNat
  return [tealToAvm value]

def opGloadss : Op σ (List AvmValue) := do
  let slot ← onStack (popUint instr.name)
  let group ← onStack (popUint instr.name)
  let value ← asks fun s =>
    if slot ≥ 256 then .error s!"gloadss scratch index >= 256 ({slot})" else ctx.gload s "gloadss" group slot
  return [tealToAvm value]

def opGaid : Op σ (List AvmValue) := do
  let group ← onStack (immediate (getUint8 instr))
  let id ← asks fun s => ctx.createdId s group.toNat
  return [.uint id]

def opGaids : Op σ (List AvmValue) := do
  let group ← onStack (popUint instr.name)
  let id ← asks fun s => ctx.createdId s group
  return [.uint id]

def opBlock : Op σ (List AvmValue) := do
  let byte ← onStack (versionedField version instr "BlockField" blockFields)
  let round ← onStack (popUint instr.name)
  let value ← asks fun s => ctx.blockField s round byte
  return [value]

/-- The fields of `global` that a logic signature cannot read. -/
def isAppModeOnly (byte : UInt8) : Bool := [6, 7, 8, 9, 10, 13, 14].contains byte.toNat

def opGlobal (mode : ExecMode) : Op σ (List AvmValue) := do
  let byte ← onStack (versionedField version instr "GlobalField" globalFields)
  if isAppModeOnly byte ∧ mode = .logicSig then
    onStack (throw (.other s!"global[{byte.toNat}] not allowed in LogicSig mode"))
  else if byte = 12 then do
    -- what is left of the budget is the machine's to know
    let s ← get
    return [.uint s.1.budget.toNat]
  else if byte = 13 then do
    let id ← asks fun s => .ok (ctx.callerAppId s)
    return [.uint id]
  else if byte = 14 then do
    let addr ← asks fun s => .ok (ctx.callerAppAddress s)
    return [.bytes addr]
  else do
    let value ← asks fun s => ctx.globalField s byte
    return [tealToAvm value]

/-! ## Transactions -/

def checkTxnFieldAccess (byte : UInt8) (expectArray : Bool) : Except String Unit :=
  match TxnField.fromU8 byte with
  | .ok field =>
    if field.version > version then .error s!"invalid txn field {field.name}"
    else if field.isArray = expectArray then .ok ()
    else if expectArray then .error s!"unsupported array field {field.name}"
    else .error s!"invalid txn field {field.name}"
  | .error _ => .error s!"invalid txn field {TxnField.unknownDisplay byte}"

/-- A field of a transaction of the group, of the current one where none is given. -/
def readTxnField (group : Option Nat) (byte : UInt8) (index : Option Nat) : Op σ (List AvmValue) := do
  let value ← asks fun s => ctx.txnField s (group.getD (ctx.groupIndex s)) byte index
  return [tealToAvm value]

def opTxn : Op σ (List AvmValue) := do
  let field ← onStack (immediate (getUint8 instr))
  onStack (ofText (checkTxnFieldAccess version field false))
  readTxnField ctx none field none

def opGtxn : Op σ (List AvmValue) := do
  let (group, field) ← onStack (immediate (getUint8Pair instr))
  onStack (ofText (checkTxnFieldAccess version field false))
  readTxnField ctx (some group.toNat) field none

def opTxna : Op σ (List AvmValue) := do
  let (field, index) ← onStack (immediate (getUint8Pair instr))
  onStack (ofText (checkTxnFieldAccess version field true))
  readTxnField ctx none field (some index.toNat)

def opGtxna : Op σ (List AvmValue) := do
  let (group, field, index) ← onStack (immediate (getUint8Triple instr))
  onStack (ofText (checkTxnFieldAccess version field true))
  readTxnField ctx (some group.toNat) field (some index.toNat)

def opGtxns : Op σ (List AvmValue) := do
  let field ← onStack (immediate (getUint8 instr))
  onStack (ofText (checkTxnFieldAccess version field false))
  let group ← onStack (popUint instr.name)
  readTxnField ctx (some group) field none

def opGtxnsa : Op σ (List AvmValue) := do
  let (field, index) ← onStack (immediate (getUint8Pair instr))
  onStack (ofText (checkTxnFieldAccess version field true))
  let group ← onStack (popUint instr.name)
  readTxnField ctx (some group) field (some index.toNat)

def opTxnas : Op σ (List AvmValue) := do
  let field ← onStack (immediate (getUint8 instr))
  onStack (ofText (checkTxnFieldAccess version field true))
  let index ← onStack (popUint instr.name)
  readTxnField ctx none field (some index)

def opGtxnas : Op σ (List AvmValue) := do
  let (group, field) ← onStack (immediate (getUint8Pair instr))
  onStack (ofText (checkTxnFieldAccess version field true))
  let index ← onStack (popUint instr.name)
  readTxnField ctx (some group.toNat) field (some index)

def opGtxnsas : Op σ (List AvmValue) := do
  let field ← onStack (immediate (getUint8 instr))
  onStack (ofText (checkTxnFieldAccess version field true))
  let index ← onStack (popUint instr.name)
  let group ← onStack (popUint instr.name)
  readTxnField ctx (some group) field (some index)

/-- An argument of a logic signature. -/
def readArg (idx : Nat) : Op σ (List AvmValue) := do
  let value ← asks fun s => ctx.arg s idx
  return [.bytes value]

def opArg : Op σ (List AvmValue) := do
  let idx ← onStack (immediate (getUint8 instr))
  readArg ctx idx.toNat

def opArgN : Op σ (List AvmValue) := readArg ctx (instr.opcode.toNat - 0x2d)

def opArgs : Op σ (List AvmValue) := do
  let idx ← onStack (popUint instr.name)
  readArg ctx idx

/-! ## Inner transactions -/

def opItxnBegin : Op σ (List AvmValue) := do
  acts ctx.itxnBegin
  return []

def checkItxnField (byte : UInt8) : Except String Unit :=
  match TxnField.fromU8 byte with
  | .ok field =>
    if field.itxVersion = 0 ∨ field.itxVersion > version then .error s!"invalid itxn_field {field.name}" else .ok ()
  | .error _ => .error s!"invalid itxn_field {TxnField.unknownDisplay byte}"

def opItxnField : Op σ (List AvmValue) := do
  let byte ← onStack (immediate (getUint8 instr))
  onStack (ofText (checkItxnField version byte))
  let value ← onStack (pop instr.name)
  acts (ctx.itxnField byte (toTealValue value))
  return []

/-- Perform the inner transactions; they spend the budget of the program where the context pools budgets. -/
def opItxnSubmit : Op σ (List AvmValue) := do
  modify (fun s => (s.1, ctx.setOpcodeBudget s.1.budget s.2))
  acts ctx.itxnSubmit
  modify (fun s => if ctx.supportsBudgetPooling s.2 then ({ s.1 with budget := ctx.getOpcodeBudget s.2 }, s.2) else s)
  return []

def opItxnNext : Op σ (List AvmValue) := do
  acts ctx.itxnNext
  return []

/-- A field of the last inner transaction, or of one of its group. -/
def readItxnField (group : Option Nat) (byte : UInt8) (index : Option Nat) : Op σ (List AvmValue) := do
  let value ← asks fun s =>
    match group with
    | some group => ctx.lastItxnGroupField s group byte index
    | none => ctx.lastItxnField s byte index
  return [tealToAvm value]

def opItxn : Op σ (List AvmValue) := do
  let field ← onStack (immediate (getUint8 instr))
  readItxnField ctx none field none

def opItxna : Op σ (List AvmValue) := do
  let (field, index) ← onStack (immediate (getUint8Pair instr))
  readItxnField ctx none field (some index.toNat)

def opGitxn : Op σ (List AvmValue) := do
  let (group, field) ← onStack (immediate (getUint8Pair instr))
  readItxnField ctx (some group.toNat) field none

def opGitxna : Op σ (List AvmValue) := do
  let (group, field, index) ← onStack (immediate (getUint8Triple instr))
  readItxnField ctx (some group.toNat) field (some index.toNat)

def opItxnas : Op σ (List AvmValue) := do
  let field ← onStack (immediate (getUint8 instr))
  let index ← onStack (popUint instr.name)
  readItxnField ctx none field (some index)

def opGitxnas : Op σ (List AvmValue) := do
  let (group, field) ← onStack (immediate (getUint8Pair instr))
  let index ← onStack (popUint instr.name)
  readItxnField ctx (some group.toNat) field (some index)

/-! ## Boxes

Each opcode on a box of the current application has a counterpart that pops the application last. -/

/-- What an opcode on a box pushes of its result. -/
def boxFlag (b : Bool) : List AvmValue := [.uint (truth b)]

def opBoxCreate : Op σ (List AvmValue) := do
  let size ← onStack (popUint instr.name)
  let name ← onStack (popBytes instr.name)
  let created ← acts (ctx.boxCreate name size)
  return boxFlag created

def opBoxExtract : Op σ (List AvmValue) := do
  let length ← onStack (popUint instr.name)
  let offset ← onStack (popUint instr.name)
  let name ← onStack (popBytes instr.name)
  let bs ← acts (ctx.boxExtract name offset length)
  return [.bytes bs]

def opBoxReplace : Op σ (List AvmValue) := do
  let value ← onStack (popBytes instr.name)
  let offset ← onStack (popUint instr.name)
  let name ← onStack (popBytes instr.name)
  acts (ctx.boxReplace name offset value)
  return []

def opBoxDel : Op σ (List AvmValue) := do
  let name ← onStack (popBytes instr.name)
  let existed ← acts (ctx.boxDel name)
  return boxFlag existed

def opBoxLen : Op σ (List AvmValue) := do
  let name ← onStack (popBytes instr.name)
  let r ← acts (ctx.boxLen name)
  return .uint r.1 :: boxFlag r.2

def opBoxGet : Op σ (List AvmValue) := do
  let name ← onStack (popBytes instr.name)
  let r ← acts (ctx.boxGet name)
  return .bytes r.1 :: boxFlag r.2

def opBoxPut : Op σ (List AvmValue) := do
  let value ← onStack (popBytes instr.name)
  let name ← onStack (popBytes instr.name)
  acts (ctx.boxPut name value)
  return []

def opBoxSplice : Op σ (List AvmValue) := do
  let replacement ← onStack (popBytes instr.name)
  let length ← onStack (popUint instr.name)
  let start ← onStack (popUint instr.name)
  let name ← onStack (popBytes instr.name)
  acts (ctx.boxSplice name start length replacement)
  return []

def opBoxResize : Op σ (List AvmValue) := do
  let size ← onStack (popUint instr.name)
  let name ← onStack (popBytes instr.name)
  acts (ctx.boxResize name size)
  return []

def opAppBoxCreate : Op σ (List AvmValue) := do
  let size ← onStack (popUint instr.name)
  let name ← onStack (popBytes instr.name)
  let app ← onStack (popUint instr.name)
  let created ← acts (ctx.appBoxCreate app name size)
  return boxFlag created

def opAppBoxExtract : Op σ (List AvmValue) := do
  let length ← onStack (popUint instr.name)
  let offset ← onStack (popUint instr.name)
  let name ← onStack (popBytes instr.name)
  let app ← onStack (popUint instr.name)
  let bs ← acts (ctx.appBoxExtract app name offset length)
  return [.bytes bs]

def opAppBoxReplace : Op σ (List AvmValue) := do
  let value ← onStack (popBytes instr.name)
  let offset ← onStack (popUint instr.name)
  let name ← onStack (popBytes instr.name)
  let app ← onStack (popUint instr.name)
  acts (ctx.appBoxReplace app name offset value)
  return []

def opAppBoxDel : Op σ (List AvmValue) := do
  let name ← onStack (popBytes instr.name)
  let app ← onStack (popUint instr.name)
  let existed ← acts (ctx.appBoxDel app name)
  return boxFlag existed

def opAppBoxLen : Op σ (List AvmValue) := do
  let name ← onStack (popBytes instr.name)
  let app ← onStack (popUint instr.name)
  let r ← acts (ctx.appBoxLen app name)
  return .uint r.1 :: boxFlag r.2

def opAppBoxGet : Op σ (List AvmValue) := do
  let name ← onStack (popBytes instr.name)
  let app ← onStack (popUint instr.name)
  let r ← acts (ctx.appBoxGet app name)
  return .bytes r.1 :: boxFlag r.2

def opAppBoxPut : Op σ (List AvmValue) := do
  let value ← onStack (popBytes instr.name)
  let name ← onStack (popBytes instr.name)
  let app ← onStack (popUint instr.name)
  acts (ctx.appBoxPut app name value)
  return []

def opAppBoxSplice : Op σ (List AvmValue) := do
  let replacement ← onStack (popBytes instr.name)
  let length ← onStack (popUint instr.name)
  let start ← onStack (popUint instr.name)
  let name ← onStack (popBytes instr.name)
  let app ← onStack (popUint instr.name)
  acts (ctx.appBoxSplice app name start length replacement)
  return []

def opAppBoxResize : Op σ (List AvmValue) := do
  let size ← onStack (popUint instr.name)
  let name ← onStack (popBytes instr.name)
  let app ← onStack (popUint instr.name)
  acts (ctx.appBoxResize app name size)
  return []

end Ops

end Avm
end Algod
