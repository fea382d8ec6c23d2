import AlgodRust.Ledger.ApplyFrame
import AlgodRust.Codec.Canonical
/-!
# SignedExecuted — whether what was signed is what is executed

Two transactions with the same canonical encoding have the same id and the same signatures.  They agree on every field
that is encoded (`SameWire`), where an optional field that is absent agrees with one that holds zeros.  Most of what
executes a transaction reads optional fields in that sense; a few places look at whether the field is there, and
`SamePresence` says which, behind the checks that the code makes before it looks.
-/
namespace Algod
namespace Ledger

open Codec Msgpack

/-- Agreement on what an encoding shows of the fields that are read when a transaction is applied. -/
structure SameWire (t t' : Transaction) : Prop where
  txnType : t.txnType.asStr = t'.txnType.asStr
  sender : t.sender = t'.sender
  fee : t.fee = t'.fee
  lastValid : t.lastValid = t'.lastValid
  lease : t.lease = t'.lease
  rekeyTo : t.rekeyTo.getD Address.zero = t'.rekeyTo.getD Address.zero
  amount : t.amount = t'.amount
  receiver : t.receiver = t'.receiver
  closeRemainderTo : t.closeRemainderTo = t'.closeRemainderTo
  xaid : t.xaid = t'.xaid
  assetAmount : t.assetAmount = t'.assetAmount
  assetSender : t.assetSender.getD Address.zero = t'.assetSender.getD Address.zero
  assetReceiver : t.assetReceiver.getD Address.zero = t'.assetReceiver.getD Address.zero
  assetCloseTo : t.assetCloseTo.getD Address.zero = t'.assetCloseTo.getD Address.zero
  configAsset : t.configAsset = t'.configAsset
  assetParams : canonicalAssetParams (t.assetParams.getD default) = canonicalAssetParams (t'.assetParams.getD default)
  freezeAsset : t.freezeAsset = t'.freezeAsset
  freezeAccount : t.freezeAccount.getD Address.zero = t'.freezeAccount.getD Address.zero
  assetFrozen : t.assetFrozen = t'.assetFrozen
  applicationId : t.applicationId = t'.applicationId
  accounts : t.accounts.getD [] = t'.accounts.getD []
  votePk : t.votePk.getD 0 = t'.votePk.getD 0
  selectionPk : t.selectionPk.getD 0 = t'.selectionPk.getD 0
  stateProofPk : t.stateProofPk.getD 0 = t'.stateProofPk.getD 0
  voteFirst : t.voteFirst = t'.voteFirst
  voteLast : t.voteLast = t'.voteLast
  voteKeyDilution : t.voteKeyDilution = t'.voteKeyDilution
  nonParticipation : t.nonParticipation = t'.nonParticipation
  heartbeat : (t.heartbeat.map HeartbeatTxnFields.address).getD Address.zero =
    (t'.heartbeat.map HeartbeatTxnFields.address).getD Address.zero

theorem canonicalAssetParams_default : canonicalAssetParams default = .map [] :=
  canonicalMap_eq_empty rfl

theorem canonicalHeartbeat_address {hb hb' : Option HeartbeatTxnFields}
    (h : (hb.map canonicalHeartbeat).getD (.map []) = (hb'.map canonicalHeartbeat).getD (.map [])) :
    (hb.map HeartbeatTxnFields.address).getD Address.zero = (hb'.map HeartbeatTxnFields.address).getD Address.zero := by
  have hread : ∀ o : Option HeartbeatTxnFields,
      (o.map canonicalHeartbeat).getD (.map []) = canonicalHeartbeat (o.getD default) ∧
      (o.map HeartbeatTxnFields.address).getD Address.zero = (o.getD default).address := by
    intro o
    cases o with
    | none => exact ⟨(canonicalMap_eq_empty rfl).symm, rfl⟩
    | some hb => exact ⟨rfl, rfl⟩
  rw [(hread hb).1, (hread hb').1] at h
  rw [(hread hb).2, (hread hb').2]
  have hnodup : ((heartbeatFields (hb.getD default)).map Prod.fst).Nodup := by
    simp only [heartbeatFields, List.map_cons, List.map_nil]
    decide
  have hfields : heartbeatFields (hb.getD default) = heartbeatFields (hb'.getD default) := canonicalMap_inj rfl hnodup h
  simp only [heartbeatFields, List.cons.injEq, Prod.mk.injEq, true_and, and_true] at hfields
  exact addAddress_inj hfields.1

/-- **Transactions with the same encoding agree on every field that is read.** -/
theorem sameWire_of_encode {t t' : Transaction} (hv : Encodable t) (hv' : Encodable t')
    (h : canonicalEncodeTransaction t = canonicalEncodeTransaction t') : SameWire t t' := by
  have hfields := transactionFields_eq hv hv' h
  simp only [transactionFields, List.cons.injEq, Prod.mk.injEq, true_and, and_true] at hfields
  obtain ⟨haamt, -, haclose, hafrz, hamt, -, -, -, -, hapat, -, -, -, -, hapid, -, -, -, hapar, harcv, hasnd, hcaid,
    hclose, hfadd, hfaid, hfee, -, -, -, -, hhb, hlv, hlx, hnonpart, -, hrcv, hrekey, hselkey, hsnd, -, -, -, hsprfkey,
    htype, hvotefst, hvotekey, hvotekd, hvotelst, hxaid⟩ := hfields
  exact {
    txnType := addString_inj htype
    sender := addAddress_inj hsnd
    fee := addU64_inj hfee
    lastValid := addU64_inj hlv
    lease := addBytes_inj rfl hlx
    rekeyTo := addOptionAddress_inj hrekey
    amount := addU64_inj hamt
    receiver := addAddress_inj hrcv
    closeRemainderTo := addAddress_inj hclose
    xaid := addU64_inj hxaid
    assetAmount := addU64_inj haamt
    assetSender := addOptionAddress_inj hasnd
    assetReceiver := addOptionAddress_inj harcv
    assetCloseTo := addOptionAddress_inj haclose
    configAsset := addU64_inj hcaid
    assetParams := by
      have hparams : ∀ p : Option AssetParams,
          (p.map canonicalAssetParams).getD (.map []) = canonicalAssetParams (p.getD default) := by
        intro p
        cases p with
        | none => exact canonicalAssetParams_default.symm
        | some p => rfl
      rw [← hparams, ← hparams]
      exact addOptionMap_inj hapar
    freezeAsset := addU64_inj hfaid
    freezeAccount := addOptionAddress_inj hfadd
    assetFrozen := addBool_inj hafrz
    applicationId := addU64_inj hapid
    accounts := addOptionVecAddress_inj hapat
    votePk := addOptionFixedBytes_inj rfl hvotekey
    selectionPk := addOptionFixedBytes_inj rfl hselkey
    stateProofPk := addOptionFixedBytes_inj rfl hsprfkey
    voteFirst := addU64_inj hvotefst
    voteLast := addU64_inj hvotelst
    voteKeyDilution := addU64_inj hvotekd
    nonParticipation := addBool_inj hnonpart
    heartbeat := canonicalHeartbeat_address (addOptionMap_inj hhb) }

/-! ## Presence -/

/-- The presence of the optional fields of asset parameters. -/
structure AssetParams.SameRoles (p p' : AssetParams) : Prop where
  manager : p.manager.isSome = p'.manager.isSome
  reserve : p.reserve.isSome = p'.reserve.isSome
  freeze : p.freeze.isSome = p'.freeze.isSome
  clawback : p.clawback.isSome = p'.clawback.isSome

/-- The presence of new roles, of those roles that an asset has. -/
structure AssetParams.SameUpdates (existing p p' : AssetParams) : Prop where
  manager : existing.manager.any (fun a => !a.isZero) = true → p.manager.isSome = p'.manager.isSome
  reserve : existing.reserve.any (fun a => !a.isZero) = true → p.reserve.isSome = p'.reserve.isSome
  freeze : existing.freeze.any (fun a => !a.isZero) = true → p.freeze.isSome = p'.freeze.isSome
  clawback : existing.clawback.any (fun a => !a.isZero) = true → p.clawback.isSome = p'.clawback.isSome

/-- A registration goes online where both keys are there. -/
def Transaction.goesOnline (t : Transaction) : Bool := t.votePk.isSome && t.selectionPk.isSome

/-- The sender has a role, which is set. -/
def Transaction.actsAs (t : Transaction) (role : Option Address) : Prop :=
  (role.getD Address.zero).isZero = false ∧ t.sender = role.getD Address.zero

/-- A transaction gets to where it is rekeyed and to the function of its type: its rewards are claimed and it pays its
fee. -/
def Transaction.charged (ctx : ApplyContext) (s : Store) (t : Transaction) : Bool :=
  (applyRewardsPass t ctx.rewardsLevel ctx.consensus s (rewardParticipants t)).toOption.any
    (fun pass => decide (t.fee ≤ (pass.1.getOrDefaultAccount t.sender).microAlgos))

/-- The optional fields that a transaction's execution looks at by presence are present in both transactions or absent in
both.  Each is looked at behind the checks that stand before it. -/
structure SamePresence (ctx : ApplyContext) (s : Store) (t t' : Transaction) : Prop where
  rekeyTo : t.rekeyTo.isSome = t'.rekeyTo.isSome
  goesOnline : t.txnType.is "keyreg" = true → (s.getOrDefaultAccount t.sender).status ≠ .notParticipating →
    t.goesOnline = t'.goesOnline
  stateProofPk : t.txnType.is "keyreg" = true → (s.getOrDefaultAccount t.sender).status ≠ .notParticipating →
    t.goesOnline = true → (keyregOnline s t 0 0 ctx.round ctx.consensus).isOk = true →
    ctx.consensus.enableStateProofKeyregCheck = true → t.stateProofPk.isSome = t'.stateProofPk.isSome
  created : t.txnType.is "acfg" = true → t.configAsset = 0 →
    tooManyAssets (s.getOrDefaultAccount t.sender) ctx.consensus = false →
    (t.assetParams.getD default).SameRoles (t'.assetParams.getD default) ∧
      (t.assetParams.getD default).metadataHash.isSome = (t'.assetParams.getD default).metadataHash.isSome
  destroyed : t.txnType.is "acfg" = true → t.configAsset ≠ 0 → ∀ existing, s.getAssetParams t.configAsset = some existing →
    t.actsAs existing.params.manager → (t.assetParams.getD default = default ↔ t'.assetParams.getD default = default)
  reconfigured : t.txnType.is "acfg" = true → t.configAsset ≠ 0 → ∀ existing,
    s.getAssetParams t.configAsset = some existing → t.actsAs existing.params.manager →
    t.assetParams.getD default ≠ default →
    existing.params.SameUpdates (t.assetParams.getD default) (t'.assetParams.getD default)
  freezeAccount : t.txnType.is "afrz" = true → t.freezeAsset ≠ 0 → ∀ record,
    s.getAssetParams t.freezeAsset = some record → t.actsAs record.params.freeze →
    t.freezeAccount.isSome = t'.freezeAccount.isSome

/-- The fields that are looked at are the same before and after what is settled. -/
theorem SamePresence.settles {ctx : ApplyContext} {s s' : Store} {t t' : Transaction} (hp : SamePresence ctx s t t')
    (h : Settles s s') : SamePresence ctx s' t t' := by
  have hmany : tooManyAssets (s'.getOrDefaultAccount t.sender) ctx.consensus =
      tooManyAssets (s.getOrDefaultAccount t.sender) ctx.consensus := by
    unfold tooManyAssets
    rw [h.totalAssetsOptedIn]
  have honline : (keyregOnline s' t 0 0 ctx.round ctx.consensus).isOk =
    (keyregOnline s t 0 0 ctx.round ctx.consensus).isOk := by
    unfold keyregOnline
    split_ifs <;> rfl
  obtain ⟨hrekey, hgoes, hproof, hcreated, hdestroyed, hreconfigured, hfreeze⟩ := hp
  refine ⟨hrekey, ?_, ?_, ?_, ?_, ?_, ?_⟩
  · rw [h.status]
    exact hgoes
  · rw [h.status, honline]
    exact hproof
  · rw [hmany]
    exact hcreated
  · rw [h.getAssetParams]
    exact hdestroyed
  · rw [h.getAssetParams]
    exact hreconfigured
  · rw [h.getAssetParams]
    exact hfreeze

theorem eq_of_isSome_getD {α : Type} {a b : Option α} {d : α} (hp : a.isSome = b.isSome) (hd : a.getD d = b.getD d) :
    a = b := by
  cases a <;> cases b <;> simp_all

/-- What an encoding shows of asset parameters. -/
structure AssetParams.SameWire (p p' : AssetParams) : Prop where
  total : p.total = p'.total
  decimals : p.decimals = p'.decimals
  defaultFrozen : p.defaultFrozen = p'.defaultFrozen
  unitName : p.unitName = p'.unitName
  assetName : p.assetName = p'.assetName
  url : p.url = p'.url
  metadataHash : p.metadataHash.getD 0 = p'.metadataHash.getD 0
  manager : p.manager.getD Address.zero = p'.manager.getD Address.zero
  reserve : p.reserve.getD Address.zero = p'.reserve.getD Address.zero
  freeze : p.freeze.getD Address.zero = p'.freeze.getD Address.zero
  clawback : p.clawback.getD Address.zero = p'.clawback.getD Address.zero

theorem AssetParams.sameWire_of_canonical {p p' : AssetParams} (h : canonicalAssetParams p = canonicalAssetParams p') :
    p.SameWire p' := by
  have hnodup : ((assetParamsFields p).map Prod.fst).Nodup := by
    simp only [assetParamsFields, List.map_cons, List.map_nil]
    decide
  have hfields : assetParamsFields p = assetParamsFields p' := canonicalMap_inj rfl hnodup h
  simp only [assetParamsFields, List.cons.injEq, Prod.mk.injEq, true_and, and_true] at hfields
  obtain ⟨ham, han, hau, hc, hdc, hdf, hf, hm, hr, ht, hun⟩ := hfields
  exact {
    total := addU64_inj ht
    decimals := addU64_inj hdc
    defaultFrozen := addBool_inj hdf
    unitName := addStrBytes_inj hun
    assetName := addStrBytes_inj han
    url := addStrBytes_inj hau
    metadataHash := addOptionFixedBytes_inj rfl ham
    manager := addOptionAddress_inj hm
    reserve := addOptionAddress_inj hr
    freeze := addOptionAddress_inj hf
    clawback := addOptionAddress_inj hc }

/-- Parameters that agree on the wire and have the same optional fields are equal. -/
theorem AssetParams.SameWire.eq {p p' : AssetParams} (h : p.SameWire p') (hroles : p.SameRoles p')
    (hmeta : p.metadataHash.isSome = p'.metadataHash.isSome) : p = p' := by
  have hmetadata := eq_of_isSome_getD hmeta h.metadataHash
  have hmanager := eq_of_isSome_getD hroles.manager h.manager
  have hreserve := eq_of_isSome_getD hroles.reserve h.reserve
  have hfreeze := eq_of_isSome_getD hroles.freeze h.freeze
  have hclawback := eq_of_isSome_getD hroles.clawback h.clawback
  obtain ⟨htotal, hdecimals, hfrozen, hunit, hname, hurl⟩ := h
  cases p
  cases p'
  simp only [AssetParams.mk.injEq]
  exact ⟨htotal, hdecimals, hfrozen, hunit, hname, hurl, hmetadata, hmanager, hreserve, hfreeze, hclawback⟩

section Congr

variable {t t' : Transaction} {ctx : ApplyContext}

theorem SameWire.is (h : SameWire t t') (s : String) : t.txnType.is s = t'.txnType.is s := by
  unfold TxnType.is
  rw [h.txnType]

theorem pushSome_getD (addrs : List Address) (a : Option Address) :
    pushSome addrs a = pushSome addrs (some (a.getD Address.zero)) := by
  cases a <;> rfl

theorem pushSome_congr (addrs : List Address) {a b : Option Address} (h : a.getD Address.zero = b.getD Address.zero) :
    pushSome addrs a = pushSome addrs b := by
  rw [pushSome_getD, h, ← pushSome_getD]

theorem filter_nonzero_congr {a b : Option Address} (h : a.getD Address.zero = b.getD Address.zero) :
    a.filter (fun x => !x.isZero) = b.filter (fun x => !x.isZero) := by
  have key : ∀ o : Option Address, o.filter (fun x => !x.isZero) =
      (some (o.getD Address.zero)).filter (fun x => !x.isZero) := by
    intro o
    cases o <;> rfl
  rw [key, h, ← key]

theorem txnParticipants_congr (h : SameWire t t') : txnParticipants t = txnParticipants t' := by
  unfold txnParticipants
  simp only [List.foldl_cons, List.foldl_nil, h.sender, h.receiver, h.closeRemainderTo, pushSome_congr _ h.assetReceiver,
    pushSome_congr _ h.assetSender, pushSome_congr _ h.assetCloseTo, pushSome_congr _ h.freezeAccount]

theorem snapshotAddrs_congr (h : SameWire t t') (ctx : ApplyContext) (s : Store) :
    snapshotAddrs ctx s t = snapshotAddrs ctx s t' := by
  unfold snapshotAddrs
  simp only [txnParticipants_congr h, h.accounts, pushSome_congr _ h.heartbeat, h.is, h.configAsset, h.applicationId]

theorem rewardParticipants_congr (h : SameWire t t') : rewardParticipants t = rewardParticipants t' := by
  unfold rewardParticipants
  simp only [h.is, h.sender, h.receiver, h.closeRemainderTo]

theorem applyRewardsPass_congr (h : SameWire t t') (level : Nat) (consensus : ConsensusParams) (s : Store)
    (addrs : List Address) : applyRewardsPass t level consensus s addrs = applyRewardsPass t' level consensus s addrs := by
  have hstep : rewardsPassStep t level consensus = rewardsPassStep t' level consensus := by
    funext st addr
    unfold rewardsPassStep isPayCreditRole
    simp only [h.is, h.sender, h.fee, h.receiver, h.amount, h.closeRemainderTo]
  unfold applyRewardsPass
  rw [hstep]

theorem applyRekey_congr (h : SameWire t t') (hrekey : t.rekeyTo.isSome = t'.rekeyTo.isSome) (s : Store) :
    applyRekey s t = applyRekey s t' := by
  unfold applyRekey
  rw [eq_of_isSome_getD hrekey h.rekeyTo, h.sender]

theorem applyPay_congr (h : SameWire t t') (s : Store) (level : Nat) (consensus : ConsensusParams) :
    applyPay s t level consensus = applyPay s t' level consensus := by
  unfold applyPay payTransfer payClose
  simp only [h.sender, h.amount, h.receiver, h.closeRemainderTo]

theorem axferSource_congr (h : SameWire t t') : axferSource t = axferSource t' := by
  unfold axferSource
  rw [filter_nonzero_congr h.assetSender, h.sender]

theorem applyAxfer_congr (h : SameWire t t') (s : Store) (consensus : ConsensusParams) :
    applyAxfer s t consensus = applyAxfer s t' consensus := by
  unfold applyAxfer axferClawback axferOptIn axferTransfer axferClose
  simp only [h.xaid, h.sender, h.assetAmount, h.assetReceiver, axferSource_congr h, filter_nonzero_congr h.assetCloseTo]

theorem not_actsAs {role : Option Address} (h : ¬ t.actsAs role) :
    ((role.getD Address.zero).isZero || t.sender != role.getD Address.zero) = true := by
  rw [Bool.or_eq_true, bne_iff_ne]
  unfold Transaction.actsAs at h
  rw [not_and_or, Bool.not_eq_false] at h
  exact h

theorem applyAfrz_congr (h : SameWire t t') {s : Store} (hp : SamePresence ctx s t t')
    (hty : t.txnType.is "afrz" = true) : applyAfrz s t = applyAfrz s t' := by
  unfold applyAfrz
  rw [← h.freezeAsset, ← h.sender, ← h.assetFrozen]
  refine ite_congr rfl (fun _ => rfl) (fun hid => ?_)
  cases hrecord : s.getAssetParams t.freezeAsset with
  | none => rfl
  | some record =>
    by_cases hacts : t.actsAs record.params.freeze
    · rw [eq_of_isSome_getD (hp.freezeAccount hty hid record hrecord hacts) h.freezeAccount]
    · simp only [if_pos (not_actsAs hacts)]

theorem updateRole_congr {existing new new' : Option Address} (hp : existing.any (fun a => !a.isZero) = true →
    new.isSome = new'.isSome) (h : new.getD Address.zero = new'.getD Address.zero) :
    updateRole existing new = updateRole existing new' := by
  unfold updateRole
  by_cases hset : existing.any (fun a => !a.isZero) = true
  · rw [eq_of_isSome_getD (hp hset) h]
  · rw [Bool.not_eq_true] at hset
    rw [hset]
    rfl

theorem applyAcfg_congr (h : SameWire t t') {s : Store} (hp : SamePresence ctx s t t')
    (hty : t.txnType.is "acfg" = true) (counter : Nat) :
    applyAcfg s t counter ctx.consensus = applyAcfg s t' counter ctx.consensus := by
  have hparams := AssetParams.sameWire_of_canonical h.assetParams
  unfold applyAcfg
  rw [← h.configAsset, ← h.sender]
  refine ite_congr rfl (fun h₀ => ?_) (fun h₀ => ?_)
  · unfold acfgCreate
    rw [← h.sender]
    refine ite_congr rfl (fun _ => rfl) (fun hfew => ?_)
    obtain ⟨hroles, hmeta⟩ := hp.created hty h₀ (Bool.not_eq_true _ ▸ hfew)
    rw [hparams.eq hroles hmeta]
  · simp only
    cases hexisting : s.getAssetParams t.configAsset with
    | none => rfl
    | some existing =>
      by_cases hacts : t.actsAs existing.params.manager
      · have hdestroyed := hp.destroyed hty h₀ existing hexisting hacts
        by_cases hd : t.assetParams.getD default = default
        · simp only [hd, hdestroyed.1 hd]
        · have hroles := hp.reconfigured hty h₀ existing hexisting hacts hd
          simp only [if_neg hd, if_neg fun hd' => hd (hdestroyed.2 hd'), acfgReconfigure,
            updateRole_congr hroles.manager hparams.manager, updateRole_congr hroles.reserve hparams.reserve,
            updateRole_congr hroles.freeze hparams.freeze, updateRole_congr hroles.clawback hparams.clawback]
      · simp only [if_pos (not_actsAs hacts)]

theorem applyKeyreg_eq (s : Store) (t : Transaction) (round : Nat) (consensus : ConsensusParams) :
    applyKeyreg s t round consensus =
      if (s.getOrDefaultAccount t.sender).status = .notParticipating then .error (.keyregNotParticipating t.sender)
      else if t.goesOnline then keyregOnline s t (t.votePk.getD 0) (t.selectionPk.getD 0) round consensus
      else keyregOffline s t consensus := by
  unfold applyKeyreg Transaction.goesOnline
  cases t.votePk <;> cases t.selectionPk <;> rfl

/-- Where the checks of an online registration pass, only the state proof key is looked at by presence. -/
theorem keyregOnline_congr (h : SameWire t t') {consensus : ConsensusParams} {s : Store} {round : Nat}
    (hp : (keyregOnline s t 0 0 round consensus).isOk = true → consensus.enableStateProofKeyregCheck = true →
      t.stateProofPk.isSome = t'.stateProofPk.isSome) (votePk selectionPk : Bytes32) :
    keyregOnline s t votePk selectionPk round consensus = keyregOnline s t' votePk selectionPk round consensus := by
  unfold keyregOnline at hp ⊢
  rw [← h.voteKeyDilution, ← h.voteLast, ← h.voteFirst, ← h.sender, ← h.fee]
  refine ite_congr rfl (fun _ => rfl) (fun h₁ => ite_congr rfl (fun _ => rfl) (fun h₂ =>
    ite_congr rfl (fun _ => rfl) (fun h₃ => ite_congr rfl (fun _ => rfl) (fun h₄ => ?_))))
  rw [if_neg h₁, if_neg h₂, if_neg h₃, if_neg h₄] at hp
  by_cases hcheck : consensus.enableStateProofKeyregCheck = true
  · rw [eq_of_isSome_getD (hp rfl hcheck) h.stateProofPk]
  · simp only [if_neg hcheck]

theorem applyKeyreg_congr (h : SameWire t t') {s : Store} (hp : SamePresence ctx s t t')
    (hty : t.txnType.is "keyreg" = true) :
    applyKeyreg s t ctx.round ctx.consensus = applyKeyreg s t' ctx.round ctx.consensus := by
  rw [applyKeyreg_eq, applyKeyreg_eq, ← h.sender, ← h.votePk, ← h.selectionPk]
  refine ite_congr rfl (fun _ => rfl) (fun hnp => ?_)
  rw [← hp.goesOnline hty hnp]
  refine ite_congr rfl (fun honline => keyregOnline_congr h (hp.stateProofPk hty hnp honline) _ _) (fun _ => ?_)
  unfold keyregOffline
  rw [h.nonParticipation, h.sender]

/-- The transaction types whose execution is modelled here. -/
def Transaction.basic (t : Transaction) : Bool :=
  t.txnType.is "pay" || t.txnType.is "keyreg" || t.txnType.is "acfg" || t.txnType.is "axfer" || t.txnType.is "afrz"

theorem TxnType.is_ne {ty : TxnType} {a b : String} (h : ty.is a = true) (hne : a ≠ b) : ty.is b = false := by
  unfold TxnType.is at *
  rw [of_decide_eq_true h]
  exact decide_eq_false hne

theorem Transaction.basic_ne (hb : t.basic = true) {s : String} (hs : s ∉ ["pay", "keyreg", "acfg", "axfer", "afrz"]) :
    ¬ t.txnType.is s = true := by
  simp only [List.mem_cons, List.not_mem_nil, or_false, not_or] at hs
  obtain ⟨hpay, hkeyreg, hacfg, haxfer, hafrz⟩ := hs
  simp only [Transaction.basic, Bool.or_eq_true] at hb
  rw [Bool.not_eq_true]
  rcases hb with (((h | h) | h) | h) | h
  · exact TxnType.is_ne h (Ne.symm hpay)
  · exact TxnType.is_ne h (Ne.symm hkeyreg)
  · exact TxnType.is_ne h (Ne.symm hacfg)
  · exact TxnType.is_ne h (Ne.symm haxfer)
  · exact TxnType.is_ne h (Ne.symm hafrz)

theorem applyByType_congr (ext : Externals) (h : SameWire t t') (st : Store × Cells)
    (hp : SamePresence ctx st.1 t t') (hb : t.basic = true) (depth : Nat) (stx : SignedTransaction) (ad : ApplyData) :
    applyByType ext ctx depth { stx with txn := t } st ad = applyByType ext ctx depth { stx with txn := t' } st ad := by
  unfold applyByType closingRecord acfgCounter
  simp only [← h.is, ← h.sender, ← h.fee, ← h.closeRemainderTo, ← h.configAsset]
  cases hfee : applyFee ctx t.sender t.fee st with
  | error e =>
    have happl : ¬ t.txnType.is "appl" = true := Transaction.basic_ne hb (by decide)
    simp only [if_neg happl, Run.error_bind, h.txnType]
  | ok st₁ =>
    have hp₁ := hp.settles (applyFee_settles hfee)
    by_cases hpay : t.txnType.is "pay" = true
    · simp only [if_pos hpay, applyPay_congr h]
    by_cases hacfg : t.txnType.is "acfg" = true
    · simp only [if_neg hpay, if_pos hacfg, Run.ok_bind, applyAcfg_congr h hp₁ hacfg]
    by_cases haxfer : t.txnType.is "axfer" = true
    · simp only [if_neg hpay, if_neg hacfg, if_pos haxfer, applyAxfer_congr h]
    by_cases hafrz : t.txnType.is "afrz" = true
    · simp only [if_neg hpay, if_neg hacfg, if_neg haxfer, if_pos hafrz, Run.ok_bind, applyAfrz_congr h hp₁ hafrz]
    have hkeyreg : t.txnType.is "keyreg" = true := by
      simpa [Transaction.basic, hpay, hacfg, haxfer, hafrz] using hb
    have happl : ¬ t.txnType.is "appl" = true := Transaction.basic_ne hb (by decide)
    simp only [if_neg hpay, if_neg hacfg, if_neg haxfer, if_neg hafrz, if_neg happl, if_pos hkeyreg, Run.ok_bind,
      applyKeyreg_congr h hp₁ hkeyreg]

/-- A transaction that cannot pay its fee fails before anything of its type is looked at. -/
theorem applyByType_insufficient (ext : Externals) (hb : t.basic = true) {st : Store × Cells}
    (hlt : (st.1.getOrDefaultAccount t.sender).microAlgos < t.fee) (depth : Nat) (stx : SignedTransaction) (ad : ApplyData) :
    applyByType ext ctx depth { stx with txn := t } st ad =
      .error (.insufficientForFee t.sender (st.1.getOrDefaultAccount t.sender).microAlgos t.fee) := by
  have hfee : applyFee ctx t.sender t.fee st =
      .error (.insufficientForFee t.sender (st.1.getOrDefaultAccount t.sender).microAlgos t.fee) := by
    unfold applyFee
    simp only [if_pos hlt]
  have happl : ¬ t.txnType.is "appl" = true := Transaction.basic_ne hb (by decide)
  unfold applyByType
  simp only [hfee, Run.error_bind, if_neg happl]
  split_ifs with hpay hacfg haxfer hafrz hkeyreg
  · rfl
  · rfl
  · rfl
  · rfl
  · rfl
  · exact absurd hb (by simp [Transaction.basic, *])
  · exact absurd hb (by simp [Transaction.basic, *])
  · exact absurd hb (by simp [Transaction.basic, *])

theorem applyRekey_microAlgos (s : Store) (t : Transaction) (a : Address) :
    ((applyRekey s t).getOrDefaultAccount a).microAlgos = (s.getOrDefaultAccount a).microAlgos := by
  unfold applyRekey
  split
  · rfl
  · exact Store.keep_setAccount AccountData.microAlgos (by rfl) a

theorem applyRecordedDelta_congr (ext : Externals) (h : SameWire t t') (ctx : ApplyContext) (depth : Nat)
    (stx : SignedTransaction) (st : Store × Cells) :
    applyRecordedDelta ext ctx depth { stx with txn := t } st =
      applyRecordedDelta ext ctx depth { stx with txn := t' } st := by
  unfold applyRecordedDelta
  simp only [h.is, h.applicationId, h.sender, h.accounts]

theorem finishTransaction_congr (ext : Externals) (h : SameWire t t') (ctx : ApplyContext) (depth : Nat)
    (addrs : List Address) (st : Store × Cells) (ad : ApplyData) :
    finishTransaction ext ctx depth t addrs st ad = finishTransaction ext ctx depth t' addrs st ad := by
  have hcheck : checkMinBalance ctx t st.1 = checkMinBalance ctx t' st.1 := by
    funext addr
    unfold checkMinBalance
    simp only [h.is, h.amount, h.receiver, h.sender, h.closeRemainderTo]
  unfold finishTransaction
  simp only [hcheck, h.sender, h.lease, h.lastValid]

end Congr

/-- **Transactions with the same encoding and the same optional fields, where these are looked at, are executed the same
way**, whatever the store, the context and the components that execute recorded deltas. -/
theorem applyTransaction_same_encoding (ext : Externals) (t t' : Transaction) (hv : Encodable t) (hv' : Encodable t')
    (hb : t.basic = true) (henc : canonicalEncodeTransaction t = canonicalEncodeTransaction t')
    (ctx : ApplyContext) (depth : Nat) (st : Store × Cells) (stx : SignedTransaction)
    (hp : t.charged ctx st.1 = true → SamePresence ctx st.1 t t') :
    applyTransaction ext ctx depth st { stx with txn := t } = applyTransaction ext ctx depth st { stx with txn := t' } := by
  have h := sameWire_of_encode hv hv' henc
  have hb' : t'.basic = true := by
    unfold Transaction.basic at hb ⊢
    simp only [← h.is]
    exact hb
  have hstpf : ¬ t.txnType.is "stpf" = true := Transaction.basic_ne hb (by decide)
  unfold Transaction.charged at hp
  unfold applyTransaction
  simp only [← h.is, if_neg hstpf, ← snapshotAddrs_congr h, ← rewardParticipants_congr h, ← applyRewardsPass_congr h]
  cases hpass : applyRewardsPass t ctx.rewardsLevel ctx.consensus st.1 (rewardParticipants t) with
  | error e => rfl
  | ok pass =>
    rw [hpass] at hp
    simp only [Run.ok_bind]
    by_cases hfee : t.fee ≤ (pass.1.getOrDefaultAccount t.sender).microAlgos
    · have hp := hp (decide_eq_true hfee)
      have hp₁ := hp.settles ((applyRewardsPass_settles hpass).trans (applyRekey_settles pass.1 t))
      rw [← applyRekey_congr h hp.rekeyTo, applyByType_congr ext h (applyRekey pass.1 t, st.2) hp₁ hb]
      simp only [applyRecordedDelta_congr ext h, finishTransaction_congr ext h]
    · have hlt : ∀ t₀ : Transaction, ((applyRekey pass.1 t₀).getOrDefaultAccount t.sender).microAlgos < t.fee := by
        intro t₀
        rw [applyRekey_microAlgos]
        exact Nat.lt_of_not_le hfee
      rw [applyByType_insufficient ext hb (hlt t), applyByType_insufficient ext hb' (h.sender ▸ h.fee ▸ hlt t')]
      simp only [applyRekey_microAlgos, h.sender, h.fee, Run.error_bind]

/-! ## An absent and a zero field -/

def payment : Transaction :=
  { (default : Transaction) with
    txnType := .pay, sender := ⟨1⟩, receiver := ⟨2⟩, amount := 5, fee := 1000, firstValid := 1, lastValid := 9 }

/-- A store in which account 1 is rekeyed to account 9. -/
def rekeyedStore : Store :=
  { (default : Store) with
    accounts := ((∅ : FinMap Address AccountData).insert ⟨1⟩ { (default : AccountData) with
      microAlgos := 1000000, authAddr := some ⟨9⟩ }).insert ⟨2⟩ { (default : AccountData) with microAlgos := 1000000 }
    feeSink := ⟨3⟩
    rewardsPool := ⟨4⟩ }

def simpleContext : ApplyContext :=
  { rewardsLevel := 0, feeSink := ⟨3⟩, round := 5, mode := .replay, callerTracksLeases := false, generate := false,
    consensus := default }

/-- The same payment with the fields of other types holding zeros, and its type read from a string. -/
def paddedPayment : Transaction :=
  { payment with txnType := .unknown "pay", assetReceiver := some Address.zero, votePk := some 0, accounts := some [] }

theorem applyTransaction_paddedPayment :
    canonicalEncodeTransaction payment = canonicalEncodeTransaction paddedPayment ∧
      applyTransaction noExternals simpleContext 0 (rekeyedStore, default)
        { (default : SignedTransaction) with txn := payment } =
        applyTransaction noExternals simpleContext 0 (rekeyedStore, default)
          { (default : SignedTransaction) with txn := paddedPayment } := by
  have hfields : transactionFields payment payment.genesisId payment.genesisHash payment.group =
      transactionFields paddedPayment paddedPayment.genesisId paddedPayment.genesisHash paddedPayment.group := rfl
  have henc : canonicalEncodeTransaction payment = canonicalEncodeTransaction paddedPayment :=
    congrArg (fun fs => (canonicalMap fs).encode) hfields
  have hv : Encodable payment := canonicalMap_valid (by decide) (by decide)
  have hv' : Encodable paddedPayment := by
    unfold Codec.Encodable canonicalTransaction
    rw [← hfields]
    exact hv
  have hp : SamePresence simpleContext rekeyedStore payment paddedPayment :=
    ⟨rfl, fun h => absurd h (by decide), fun h => absurd h (by decide), fun h => absurd h (by decide),
      fun h => absurd h (by decide), fun h => absurd h (by decide), fun h => absurd h (by decide)⟩
  exact ⟨henc, applyTransaction_same_encoding noExternals payment paddedPayment hv hv' (by decide) henc simpleContext 0
    (rekeyedStore, default) default fun _ => hp⟩

/-- The payment with a rekey address that is there and zero. -/
def rekeyingPayment : Transaction := { payment with rekeyTo := some Address.zero }

/-- The key of account 1 after a transaction. -/
def keyAfter (t : Transaction) : Except ApplyError (Option (Option Address)) :=
  (applyTransaction noExternals simpleContext 0 (rekeyedStore, default) { (default : SignedTransaction) with txn := t }).map
    (fun r => (r.1.1.getAccount ⟨1⟩).map AccountData.authAddr)

theorem applyTransaction_rekeyingPayment :
    canonicalEncodeTransaction payment = canonicalEncodeTransaction rekeyingPayment ∧
      keyAfter payment = .ok (some (some ⟨9⟩)) ∧ keyAfter rekeyingPayment = .ok (some none) := by
  have hfields : transactionFields payment payment.genesisId payment.genesisHash payment.group =
      transactionFields rekeyingPayment rekeyingPayment.genesisId rekeyingPayment.genesisHash rekeyingPayment.group := rfl
  exact ⟨congrArg (fun fs => (canonicalMap fs).encode) hfields, by decide, by decide⟩

end Ledger
end Algod
