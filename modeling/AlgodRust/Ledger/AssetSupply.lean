import AlgodRust.Ledger.Conservation
/-!
# AssetSupply — the units of an asset and who holds them

The units of an existing asset that are held are its total, a destroyed asset has no units, and the counts of an account
record are the holdings and the assets it has (`SupplyConserved`).  `Sound` is that invariant with some units of one
asset on their way between two writes; each function of a transaction is taken through it write by write.  A transfer
that closes a holding with units left to the account itself destroys them (`closesToSelf_losesUnits`); every run without
one conserves supply (`assetSupply_conserved`).
-/
namespace Algod
namespace Ledger

/-! ## Holdings and counts -/

/-- The units of an asset that accounts hold. -/
def heldUnits (s : Store) (id : Nat) : Nat :=
  FinMap.total (fun k h => if k.2 = id then h.amount else 0) s.assetHoldings

/-- The number of holdings of an account. -/
def numHoldings (s : Store) (a : Address) : Nat := FinMap.total (fun k _ => if k.1 = a then 1 else 0) s.assetHoldings

/-- The number of existing assets that an account created. -/
def numCreated (s : Store) (a : Address) : Nat :=
  FinMap.total (fun _ r => if r.creator = a then 1 else 0) s.assetParams

/-- The units that should be held: none of an asset that does not exist. -/
def supplyOf (s : Store) (id : Nat) : Nat := (s.getAssetParams id).elim 0 (fun r => r.params.total)

/-- **Supply is conserved**, and the counts of the account records are right. -/
structure SupplyConserved (s : Store) : Prop where
  supply : ∀ id r, s.getAssetParams id = some r → heldUnits s id = r.params.total
  gone : ∀ id, s.getAssetParams id = none → ∀ a h, s.getAssetHolding a id = some h → h.amount = 0
  optedIn : ∀ a, (s.getOrDefaultAccount a).totalAssetsOptedIn = numHoldings s a
  created : ∀ a, (s.getOrDefaultAccount a).totalCreatedAssets = numCreated s a

/-- The invariant, where `n` units of the asset `id` are missing from the holdings. -/
structure Sound (id : Nat) (n : Int) (s : Store) : Prop where
  supply : ∀ id', (heldUnits s id' : Int) + (if id' = id then n else 0) = supplyOf s id'
  optedIn : ∀ a, (s.getOrDefaultAccount a).totalAssetsOptedIn = numHoldings s a
  created : ∀ a, (s.getOrDefaultAccount a).totalCreatedAssets = numCreated s a
  creatorHolds : ∀ id r, s.getAssetParams id = some r → ∃ h, s.getAssetHolding r.creator id = some h
  fits : ∀ id r, s.getAssetParams id = some r → r.params.total < u64Bound

section Lookups

variable {s : Store} {a : Address} {id : Nat}

theorem getAssetHolding_setAssetHolding (s : Store) (a b : Address) (id id' : Nat) (h : AssetHolding) :
    (s.setAssetHolding a id h).getAssetHolding b id' =
      if b = a ∧ id' = id then some h else s.getAssetHolding b id' := by
  have hlookup := FinMap.lookup_insert_eq s.assetHoldings (a, id) (b, id') h
  simp only [Prod.mk.injEq] at hlookup
  exact hlookup

theorem getAssetHolding_removeAssetHolding (s : Store) (a b : Address) (id id' : Nat) :
    (s.removeAssetHolding a id).getAssetHolding b id' = if b = a ∧ id' = id then none else s.getAssetHolding b id' := by
  have hlookup := FinMap.lookup_erase_eq s.assetHoldings (a, id) (b, id')
  simp only [Prod.mk.injEq] at hlookup
  exact hlookup

theorem getAssetParams_setAssetParams (s : Store) (id id' : Nat) (r : AssetParamsRecord) :
    (s.setAssetParams id r).getAssetParams id' = if id' = id then some r else s.getAssetParams id' :=
  FinMap.lookup_insert_eq s.assetParams id id' r

theorem getAssetParams_removeAssetParams (s : Store) (id id' : Nat) :
    (s.removeAssetParams id).getAssetParams id' = if id' = id then none else s.getAssetParams id' :=
  FinMap.lookup_erase_eq s.assetParams id id'

theorem heldUnits_setAssetHolding (s : Store) (a : Address) (id id' : Nat) (h : AssetHolding) :
    heldUnits (s.setAssetHolding a id h) id' +
        (if id = id' then (s.getAssetHolding a id).elim 0 AssetHolding.amount else 0) =
      heldUnits s id' + if id = id' then h.amount else 0 := by
  have htotal := FinMap.total_insert (fun k h => if k.2 = id' then h.amount else 0) s.assetHoldings (a, id) h
  by_cases hid : id = id'
  · subst hid
    simp only [if_true] at htotal ⊢
    exact htotal
  · simp only [hid, if_false] at htotal ⊢
    cases hget : s.assetHoldings.lookup (a, id) <;> rw [hget] at htotal <;> exact htotal

theorem heldUnits_removeAssetHolding (s : Store) (a : Address) (id id' : Nat) :
    heldUnits s id' = heldUnits (s.removeAssetHolding a id) id' +
      if id = id' then (s.getAssetHolding a id).elim 0 AssetHolding.amount else 0 := by
  have htotal := FinMap.total_erase (fun k h => if k.2 = id' then h.amount else 0) s.assetHoldings (a, id)
  by_cases hid : id = id'
  · subst hid
    simp only [if_true] at htotal ⊢
    exact htotal
  · simp only [hid, if_false] at htotal ⊢
    cases hget : s.assetHoldings.lookup (a, id) <;> rw [hget] at htotal <;> exact htotal

theorem numHoldings_setAssetHolding (s : Store) (a b : Address) (id : Nat) (h : AssetHolding) :
    numHoldings (s.setAssetHolding a id h) b =
      numHoldings s b + if a = b ∧ s.getAssetHolding a id = none then 1 else 0 := by
  have htotal := FinMap.total_insert (fun k _ => if k.1 = b then 1 else 0) s.assetHoldings (a, id) h
  unfold numHoldings Store.getAssetHolding
  cases hget : s.assetHoldings.lookup (a, id) with
  | none =>
    simp only [hget, Option.elim_none, Nat.add_zero, and_true] at htotal ⊢
    exact htotal
  | some old =>
    simp only [hget, Option.elim_some, reduceCtorEq, and_false, if_false, Nat.add_zero] at htotal ⊢
    exact Nat.add_right_cancel htotal

theorem numHoldings_removeAssetHolding (s : Store) (a b : Address) (id : Nat) :
    numHoldings s b = numHoldings (s.removeAssetHolding a id) b +
      if a = b ∧ (s.getAssetHolding a id).isSome then 1 else 0 := by
  have htotal := FinMap.total_erase (fun k _ => if k.1 = b then 1 else 0) s.assetHoldings (a, id)
  unfold numHoldings Store.getAssetHolding
  cases hget : s.assetHoldings.lookup (a, id) with
  | none =>
    simp only [hget, Option.elim_none, Option.isSome_none, Bool.false_eq_true, and_false, if_false] at htotal ⊢
    exact htotal
  | some old =>
    simp only [hget, Option.elim_some, Option.isSome_some, and_true] at htotal ⊢
    exact htotal

theorem numCreated_setAssetParams_new (r : AssetParamsRecord) (hnone : s.getAssetParams id = none) (b : Address) :
    numCreated (s.setAssetParams id r) b = numCreated s b + if r.creator = b then 1 else 0 := by
  have htotal := FinMap.total_insert (fun _ r => if r.creator = b then 1 else 0) s.assetParams id r
  have hnone' : s.assetParams.lookup id = none := hnone
  simp only [hnone', Option.elim_none, Nat.add_zero] at htotal
  exact htotal

theorem numCreated_setAssetParams_same {r r' : AssetParamsRecord} (hget : s.getAssetParams id = some r)
    (hcreator : r'.creator = r.creator) (b : Address) : numCreated (s.setAssetParams id r') b = numCreated s b := by
  have htotal := FinMap.total_insert (fun _ r => if r.creator = b then 1 else 0) s.assetParams id r'
  have hget' : s.assetParams.lookup id = some r := hget
  simp only [hget', hcreator, Option.elim_some] at htotal
  exact Nat.add_right_cancel htotal

theorem numCreated_removeAssetParams {r : AssetParamsRecord} (hget : s.getAssetParams id = some r) (b : Address) :
    numCreated s b = numCreated (s.removeAssetParams id) b + if r.creator = b then 1 else 0 := by
  have htotal := FinMap.total_erase (fun _ r => if r.creator = b then 1 else 0) s.assetParams id
  have hget' : s.assetParams.lookup id = some r := hget
  simp only [hget', Option.elim_some] at htotal
  exact htotal

theorem amount_le_heldUnits {h : AssetHolding} (hget : s.getAssetHolding a id = some h) :
    h.amount ≤ heldUnits s id := by
  have hle := FinMap.le_total (fun (k : Address × Nat) (h : AssetHolding) => if k.2 = id then h.amount else 0) hget
  rw [if_pos rfl] at hle
  exact hle

end Lookups

/-! ## What leaves assets alone -/

/-- The minimum balance of an account as a number without bound. -/
def owedBalance (account : AccountData) : Nat :=
  let schema := account.totalAppSchema
  let schemaCost := schemaMinBalancePerEntry * (schema.numUint + schema.numByteSlice) +
    schemaUintMinBalance * schema.numUint + schemaBytesMinBalance * schema.numByteSlice
  minBalanceBase + account.totalAssetsOptedIn * assetOptInMinBalance +
    account.totalCreatedApps * appFlatParamsMinBalance + account.totalAppsOptedIn * appFlatOptInMinBalance +
    account.totalExtraAppPages * appFlatParamsMinBalance + account.totalBoxes * boxFlatMinBalance +
    account.totalBoxBytes * boxByteMinBalance + schemaCost

theorem minBalance_eq (account : AccountData) : minBalance account = owedBalance account % u64Bound := rfl

theorem optedIn_le_owedBalance (account : AccountData) :
    minBalanceBase + account.totalAssetsOptedIn * assetOptInMinBalance ≤ owedBalance account := by
  simp only [owedBalance]
  omega

/-- The counts of an account record that the invariant and the checks of a closing payment read. -/
def counters (account : AccountData) : Nat × Nat × Nat :=
  (account.totalAssetsOptedIn, account.totalCreatedAssets, owedBalance account)

/-- Assets, holdings and counts are the same. -/
structure SameCounts (s s' : Store) : Prop where
  params : s'.assetParams = s.assetParams
  holdings : s'.assetHoldings = s.assetHoldings
  counters : ∀ a, counters (s'.getOrDefaultAccount a) = counters (s.getOrDefaultAccount a)

section Same

variable {s s' : Store} {id : Nat} {n : Int}

theorem SameCounts.setAccount (s : Store) {a : Address} {d : AccountData}
    (hd : Ledger.counters d = Ledger.counters (s.getOrDefaultAccount a)) : SameCounts s (s.setAccount a d) :=
  ⟨rfl, rfl, Store.keep_setAccount Ledger.counters hd⟩

theorem SameCounts.optedIn (h : SameCounts s s') (a : Address) :
    (s'.getOrDefaultAccount a).totalAssetsOptedIn = (s.getOrDefaultAccount a).totalAssetsOptedIn :=
  congrArg Prod.fst (h.counters a)

theorem SameCounts.created (h : SameCounts s s') (a : Address) :
    (s'.getOrDefaultAccount a).totalCreatedAssets = (s.getOrDefaultAccount a).totalCreatedAssets :=
  congrArg (fun c => c.2.1) (h.counters a)

theorem SameCounts.owedBalance (h : SameCounts s s') (a : Address) :
    Ledger.owedBalance (s'.getOrDefaultAccount a) = Ledger.owedBalance (s.getOrDefaultAccount a) :=
  congrArg (fun c => c.2.2) (h.counters a)

theorem SameCounts.getAssetParams (h : SameCounts s s') (id : Nat) : s'.getAssetParams id = s.getAssetParams id := by
  unfold Store.getAssetParams
  rw [h.params]

theorem SameCounts.getAssetHolding (h : SameCounts s s') (a : Address) (id : Nat) :
    s'.getAssetHolding a id = s.getAssetHolding a id := by
  unfold Store.getAssetHolding
  rw [h.holdings]

theorem Sound.of_same (h : Sound id n s) (hsame : SameCounts s s') : Sound id n s' where
  supply id' := by
    have hsupply := h.supply id'
    unfold heldUnits supplyOf at hsupply ⊢
    rw [hsame.holdings, hsame.getAssetParams]
    exact hsupply
  optedIn a := by
    rw [hsame.optedIn, h.optedIn, numHoldings, numHoldings, hsame.holdings]
  created a := by
    rw [hsame.created, h.created, numCreated, numCreated, hsame.params]
  creatorHolds id' r hr := by
    rw [hsame.getAssetParams] at hr
    rw [hsame.getAssetHolding]
    exact h.creatorHolds id' r hr
  fits id' r hr := by
    rw [hsame.getAssetParams] at hr
    exact h.fits id' r hr

theorem Settles.sameCounts (h : Settles s s') : SameCounts s s' := by
  refine ⟨h.assetParams, h.assetHoldings, fun a => ?_⟩
  have heq := congrArg Ledger.counters (h.account a)
  exact heq

theorem applyKeyreg_same {txn : Transaction} {round : Nat} {consensus : ConsensusParams}
    (h : applyKeyreg s txn round consensus = .ok s') : SameCounts s s' := by
  obtain ⟨-, d, rfl, hd⟩ := applyKeyreg_registers h
  have heq := congrArg Ledger.counters hd
  exact .setAccount s heq

end Same

/-! ## Holdings, written one at a time -/

section Writes

variable {s s' : Store} {a : Address} {id id' : Nat} {n m : Int} {old new : AssetHolding}

theorem Sound.supply_self (h : Sound id n s) : (heldUnits s id : Int) + n = supplyOf s id := by
  have hsupply := h.supply id
  rw [if_pos rfl] at hsupply
  exact hsupply

theorem Sound.supplyOf_lt (h : Sound id n s) (id' : Nat) : supplyOf s id' < u64Bound := by
  unfold supplyOf
  cases hr : s.getAssetParams id' with
  | none => decide
  | some r => exact h.fits id' r hr

/-- Where nothing is missing the asset that nothing is missing of does not matter. -/
theorem Sound.change (h : Sound id 0 s) (id' : Nat) : Sound id' 0 s := by
  refine ⟨fun i => ?_, h.optedIn, h.created, h.creatorHolds, h.fits⟩
  have hsupply := h.supply i
  simp only [ite_self] at hsupply ⊢
  exact hsupply

theorem Sound.conserved (h : Sound id 0 s) : SupplyConserved s where
  supply id' r hr := by
    have hsupply := h.supply id'
    unfold supplyOf at hsupply
    rw [ite_self, hr, Option.elim_some] at hsupply
    omega
  gone id' hr a hold hget := by
    have hsupply := h.supply id'
    have hle := amount_le_heldUnits hget
    unfold supplyOf at hsupply
    rw [ite_self, hr, Option.elim_none] at hsupply
    omega
  optedIn := h.optedIn
  created := h.created

/-- Write a holding that exists: what it lost is missing. -/
theorem Sound.setHolding (h : Sound id n s) (hget : s.getAssetHolding a id = some old)
    (hamount : (new.amount : Int) + m = old.amount + n) : Sound id m (s.setAssetHolding a id new) where
  supply id' := by
    have hwrite := heldUnits_setAssetHolding s a id id' new
    have hsupply := h.supply id'
    rw [hget, Option.elim_some] at hwrite
    show (heldUnits (s.setAssetHolding a id new) id' : Int) + _ = supplyOf s id'
    by_cases hid : id' = id
    · subst hid
      rw [if_pos rfl, if_pos rfl] at hwrite
      rw [if_pos rfl] at hsupply ⊢
      omega
    · rw [if_neg (Ne.symm hid), if_neg (Ne.symm hid)] at hwrite
      rw [if_neg hid] at hsupply ⊢
      omega
  optedIn b := by
    rw [numHoldings_setAssetHolding, hget]
    simp only [reduceCtorEq, and_false, if_false, Nat.add_zero]
    exact h.optedIn b
  created := h.created
  creatorHolds id' r hr := by
    rw [getAssetHolding_setAssetHolding]
    split
    · exact ⟨_, rfl⟩
    · exact h.creatorHolds id' r hr
  fits := h.fits

/-- A holding and what is missing make up a 64-bit number. -/
theorem Sound.amount_lt (h : Sound id n s) (hget : s.getAssetHolding a id = some old) :
    (old.amount : Int) + n < u64Bound := by
  have hsupply := h.supply_self
  have hlt := h.supplyOf_lt id
  have hle := amount_le_heldUnits hget
  omega

/-- A new holding, without units, is counted. -/
theorem Sound.optIn {frozen : Bool} (h : Sound id n s) (hget : s.getAssetHolding a id' = none) {d : AccountData}
    (hopted : d.totalAssetsOptedIn = (s.getOrDefaultAccount a).totalAssetsOptedIn + 1)
    (hcreated : d.totalCreatedAssets = (s.getOrDefaultAccount a).totalCreatedAssets) :
    Sound id n ((s.setAssetHolding a id' ⟨0, frozen⟩).setAccount a d) where
  supply i := by
    have hwrite := heldUnits_setAssetHolding s a id' i ⟨0, frozen⟩
    have hsupply := h.supply i
    rw [hget, Option.elim_none, ite_self] at hwrite
    show (heldUnits (s.setAssetHolding a id' ⟨0, frozen⟩) i : Int) + _ = supplyOf s i
    omega
  optedIn b := by
    have hcount := numHoldings_setAssetHolding s a b id' ⟨0, frozen⟩
    rw [hget] at hcount
    simp only [and_true] at hcount
    rw [Store.getOrDefaultAccount_setAccount]
    show _ = numHoldings (s.setAssetHolding a id' ⟨0, frozen⟩) b
    by_cases hb : b = a
    · subst hb
      rw [if_pos rfl] at hcount ⊢
      rw [hcount, hopted, h.optedIn]
    · rw [if_neg (Ne.symm hb)] at hcount
      rw [if_neg hb, hcount]
      exact h.optedIn b
  created b := (Store.keep_setAccount AccountData.totalCreatedAssets hcreated b).trans (h.created b)
  creatorHolds i r hr := by
    show ∃ hold, (s.setAssetHolding a id' ⟨0, frozen⟩).getAssetHolding r.creator i = some hold
    rw [getAssetHolding_setAssetHolding]
    split
    · exact ⟨_, rfl⟩
    · exact h.creatorHolds i r hr
  fits := h.fits

/-- A holding that is removed, of an account that did not create the asset: its units are missing. -/
theorem Sound.removeHolding (h : Sound id n s) (hget : s.getAssetHolding a id = some old)
    (hcreator : ∀ r, s.getAssetParams id = some r → r.creator ≠ a) {d : AccountData}
    (hopted : d.totalAssetsOptedIn = (s.getOrDefaultAccount a).totalAssetsOptedIn - 1)
    (hcreated : d.totalCreatedAssets = (s.getOrDefaultAccount a).totalCreatedAssets) :
    Sound id (n + old.amount) ((s.removeAssetHolding a id).setAccount a d) where
  supply i := by
    have hwrite := heldUnits_removeAssetHolding s a id i
    have hsupply := h.supply i
    rw [hget, Option.elim_some] at hwrite
    show (heldUnits (s.removeAssetHolding a id) i : Int) + _ = supplyOf s i
    by_cases hid : i = id
    · subst hid
      rw [if_pos rfl] at hwrite hsupply ⊢
      omega
    · rw [if_neg (Ne.symm hid)] at hwrite
      rw [if_neg hid] at hsupply ⊢
      omega
  optedIn b := by
    have hcount := numHoldings_removeAssetHolding s a b id
    rw [hget] at hcount
    simp only [Option.isSome_some, and_true] at hcount
    rw [Store.getOrDefaultAccount_setAccount]
    show _ = numHoldings (s.removeAssetHolding a id) b
    by_cases hb : b = a
    · subst hb
      rw [if_pos rfl] at hcount ⊢
      rw [hopted, h.optedIn, hcount, Nat.add_sub_cancel]
    · rw [if_neg (Ne.symm hb), Nat.add_zero] at hcount
      rw [if_neg hb, ← hcount]
      exact h.optedIn b
  created b := (Store.keep_setAccount AccountData.totalCreatedAssets hcreated b).trans (h.created b)
  creatorHolds i r hr := by
    show ∃ hold, (s.removeAssetHolding a id).getAssetHolding r.creator i = some hold
    have hne : ¬ (r.creator = a ∧ i = id) := by
      rintro ⟨hra, rfl⟩
      exact hcreator r hr hra
    rw [getAssetHolding_removeAssetHolding, if_neg hne]
    exact h.creatorHolds i r hr
  fits := h.fits

/-- An account has created at most as many assets as it holds. -/
theorem Sound.created_le (h : Sound id n s) (a : Address) :
    (s.getOrDefaultAccount a).totalCreatedAssets ≤ (s.getOrDefaultAccount a).totalAssetsOptedIn := by
  rw [h.created, h.optedIn]
  have hinj : Function.Injective (fun i : Nat => (a, i)) := fun i j hij => congrArg Prod.snd hij
  apply FinMap.total_le_total _ _ hinj
  intro i r hr
  by_cases hra : r.creator = a
  · obtain ⟨hold, hhold⟩ := h.creatorHolds i r hr
    rw [hra] at hhold
    have hlookup : s.assetHoldings.lookup (a, i) = some hold := hhold
    simp [hlookup, hra]
  · rw [if_neg hra]
    exact Nat.zero_le _

theorem Sound.setAccount (h : Sound id n s) {d : AccountData}
    (hopted : d.totalAssetsOptedIn = (s.getOrDefaultAccount a).totalAssetsOptedIn)
    (hcreated : d.totalCreatedAssets = (s.getOrDefaultAccount a).totalCreatedAssets) :
    Sound id n (s.setAccount a d) where
  supply := h.supply
  optedIn b := (Store.keep_setAccount AccountData.totalAssetsOptedIn hopted b).trans (h.optedIn b)
  created b := (Store.keep_setAccount AccountData.totalCreatedAssets hcreated b).trans (h.created b)
  creatorHolds := h.creatorHolds
  fits := h.fits

end Writes

/-! ## The functions of a transaction -/

/-- No sum of the minimum balance of an account overflows, with one more asset. -/
def CountsFit (s : Store) : Prop := ∀ a, owedBalance (s.getOrDefaultAccount a) + assetOptInMinBalance < u64Bound

/-- A transfer closes the sender's holding, with units left in it, to the sender. -/
def ClosesToSelf (s : Store) (txn : Transaction) : Prop :=
  txn.txnType.is "axfer" = true ∧ txn.assetCloseTo = some txn.sender ∧ txn.sender.isZero = false ∧
    ∃ h, s.getAssetHolding txn.sender txn.xaid = some h ∧ 0 < h.amount ∧
      (txn.assetReceiver.getD Address.zero = txn.sender ∨ txn.assetAmount < h.amount)

section Functions

variable {s s' : Store} {txn : Transaction} {consensus : ConsensusParams} {id : Nat} {r : Store × Nat} {assetId : Nat}

theorem CountsFit.of_same (h : CountsFit s) (hsame : SameCounts s s') : CountsFit s' := by
  intro a
  rw [hsame.owedBalance]
  exact h a

theorem CountsFit.wrapAdd_optedIn (h : CountsFit s) (a : Address) :
    wrapAdd (s.getOrDefaultAccount a).totalAssetsOptedIn 1 = (s.getOrDefaultAccount a).totalAssetsOptedIn + 1 := by
  have hfit := h a
  have hle := optedIn_le_owedBalance (s.getOrDefaultAccount a)
  apply Nat.mod_eq_of_lt
  unfold minBalanceBase assetOptInMinBalance at *
  omega

theorem CountsFit.wrapAdd_created (h : CountsFit s) (hs : Sound id 0 s) (a : Address) :
    wrapAdd (s.getOrDefaultAccount a).totalCreatedAssets 1 = (s.getOrDefaultAccount a).totalCreatedAssets + 1 := by
  have hfit := h a
  have hle := optedIn_le_owedBalance (s.getOrDefaultAccount a)
  have hcreated := hs.created_le a
  apply Nat.mod_eq_of_lt
  unfold minBalanceBase assetOptInMinBalance at *
  omega

/-- An account that may be closed holds and has created no asset. -/
theorem closeChecks_counts (hs : Sound id 0 s) (hfit : CountsFit s)
    (hbase : consensus.closeRequiresBaseMinBalance = true → consensus.minBalance = minBalanceBase) {a : Address}
    (h : closeChecks (s.getOrDefaultAccount a) consensus = .ok ()) :
    (s.getOrDefaultAccount a).totalAssetsOptedIn = 0 ∧ (s.getOrDefaultAccount a).totalCreatedAssets = 0 := by
  have hopted : (s.getOrDefaultAccount a).totalAssetsOptedIn = 0 := by
    unfold closeChecks at h
    split at h
    · rename_i hflag
      split at h
      · cases h
      · rename_i hmin
        have howed := hfit a
        have hle := optedIn_le_owedBalance (s.getOrDefaultAccount a)
        rw [not_not, hbase hflag, minBalance_eq, Nat.mod_eq_of_lt (by omega)] at hmin
        unfold assetOptInMinBalance at hle
        omega
    · unfold legacyCloseChecks at h
      split at h
      · cases h
      · omega
  have hle := hs.created_le a
  exact ⟨hopted, by omega⟩

theorem payClose_sound {level : Nat} (hs : Sound id 0 s) (hfit : CountsFit s)
    (hbase : consensus.closeRequiresBaseMinBalance = true → consensus.minBalance = minBalanceBase)
    (h : payClose s txn level consensus = .ok r) : Sound id 0 r.1 := by
  unfold payClose at h
  split at h
  · cases h
    exact hs
  · obtain ⟨_, hchecks, h⟩ := Run.bind_eq_ok.1 h
    obtain ⟨hopted, hcreated⟩ := closeChecks_counts hs hfit hbase hchecks
    have hreset : Sound id 0 (s.setAccount txn.sender default) := hs.setAccount hopted.symm hcreated.symm
    simp only at h
    split at h
    · obtain ⟨s₁, h₁, h⟩ := Run.bind_eq_ok.1 h
      cases h
      exact hreset.of_same (credit_settles h₁).sameCounts
    · cases h
      exact hreset

theorem acfgCreate_sound {counter : Nat} (hs : Sound id 0 s) (hfit : CountsFit s)
    (hfresh : s.getAssetParams (wrapAdd counter 1) = none) (hnone : s.getAssetHolding txn.sender (wrapAdd counter 1) = none)
    (htotal : (txn.assetParams.getD default).total < u64Bound)
    (h : acfgCreate s txn counter consensus = .ok r) : Sound id 0 r.1 := by
  have hopted := hfit.wrapAdd_optedIn txn.sender
  have hcreated := hfit.wrapAdd_created hs txn.sender
  unfold acfgCreate at h
  simp only at h
  split at h
  · cases h
  cases h
  generalize wrapAdd counter 1 = new at *
  generalize txn.assetParams.getD default = params at *
  have hget : ∀ b, ((s.setAssetParams new ⟨params, txn.sender⟩).setAssetHolding txn.sender new
      ⟨params.total, false⟩).getOrDefaultAccount b = s.getOrDefaultAccount b := fun _ => rfl
  refine ⟨fun i => ?_, fun b => ?_, fun b => ?_, fun i r hr => ?_, fun i r hr => ?_⟩
  · have hwrite := heldUnits_setAssetHolding s txn.sender new i ⟨params.total, false⟩
    have hsupply := hs.supply i
    rw [ite_self, Int.add_zero] at hsupply ⊢
    rw [hnone, Option.elim_none, ite_self] at hwrite
    unfold supplyOf at hsupply ⊢
    show (heldUnits (s.setAssetHolding txn.sender new ⟨params.total, false⟩) i : Int) =
      ((s.setAssetParams new ⟨params, txn.sender⟩).getAssetParams i).elim 0 (fun r => r.params.total)
    rw [getAssetParams_setAssetParams]
    by_cases hi : i = new
    · subst hi
      rw [hfresh, Option.elim_none] at hsupply
      rw [if_pos rfl] at hwrite ⊢
      simp only [Option.elim_some] at hwrite ⊢
      omega
    · rw [if_neg (Ne.symm hi)] at hwrite
      rw [if_neg hi]
      omega
  · have hcount := numHoldings_setAssetHolding s txn.sender b new ⟨params.total, false⟩
    rw [hnone] at hcount
    simp only [and_true] at hcount
    rw [Store.getOrDefaultAccount_setAccount, hget, hget]
    show _ = numHoldings (s.setAssetHolding txn.sender new ⟨params.total, false⟩) b
    by_cases hb : b = txn.sender
    · rw [if_pos hb.symm] at hcount
      rw [if_pos hb, hcount, hb]
      simp only [hopted]
      rw [hs.optedIn]
    · rw [if_neg (Ne.symm hb)] at hcount
      rw [if_neg hb, hcount]
      exact hs.optedIn b
  · have hcount := numCreated_setAssetParams_new ⟨params, txn.sender⟩ hfresh b
    rw [Store.getOrDefaultAccount_setAccount, hget, hget]
    show _ = numCreated (s.setAssetParams new ⟨params, txn.sender⟩) b
    by_cases hb : b = txn.sender
    · rw [if_pos hb.symm] at hcount
      rw [if_pos hb, hcount, hb]
      simp only [hcreated]
      rw [hs.created]
    · rw [if_neg (Ne.symm hb)] at hcount
      rw [if_neg hb, hcount]
      exact hs.created b
  · change (s.setAssetParams new ⟨params, txn.sender⟩).getAssetParams i = some r at hr
    show ∃ hold, (s.setAssetHolding txn.sender new ⟨params.total, false⟩).getAssetHolding r.creator i = some hold
    rw [getAssetParams_setAssetParams] at hr
    rw [getAssetHolding_setAssetHolding]
    split at hr
    · rename_i hi
      cases hr
      rw [if_pos ⟨rfl, hi⟩]
      exact ⟨_, rfl⟩
    · rename_i hi
      rw [if_neg (fun hand => hi hand.2)]
      exact hs.creatorHolds i r hr
  · change (s.setAssetParams new ⟨params, txn.sender⟩).getAssetParams i = some r at hr
    rw [getAssetParams_setAssetParams] at hr
    split at hr
    · cases hr
      exact htotal
    · exact hs.fits i r hr

theorem acfgDestroy_sound {existing : AssetParamsRecord} (hs : Sound id 0 s)
    (hparams : s.getAssetParams assetId = some existing) (h : acfgDestroy s existing assetId = .ok s') :
    Sound id 0 s' := by
  unfold acfgDestroy at h
  simp only at h
  split at h
  · cases h
  rename_i holding hget
  split at h
  · cases h
  rename_i hamount
  rw [not_not] at hamount
  cases h
  have haccount : ∀ b, ((s.removeAssetParams assetId).removeAssetHolding existing.creator assetId).getOrDefaultAccount b =
      s.getOrDefaultAccount b := fun _ => rfl
  refine ⟨fun i => ?_, fun b => ?_, fun b => ?_, fun i r hr => ?_, fun i r hr => ?_⟩
  · have hwrite := heldUnits_removeAssetHolding s existing.creator assetId i
    have hsupply := hs.supply i
    rw [ite_self, Int.add_zero] at hsupply ⊢
    rw [hget, Option.elim_some] at hwrite
    unfold supplyOf at hsupply ⊢
    show (heldUnits (s.removeAssetHolding existing.creator assetId) i : Int) =
      ((s.removeAssetParams assetId).getAssetParams i).elim 0 (fun r => r.params.total)
    rw [getAssetParams_removeAssetParams]
    by_cases hi : i = assetId
    · subst hi
      rw [hparams, Option.elim_some] at hsupply
      rw [if_pos rfl] at hwrite ⊢
      rw [Option.elim_none]
      omega
    · rw [if_neg (Ne.symm hi)] at hwrite
      rw [if_neg hi]
      omega
  · have hcount := numHoldings_removeAssetHolding s existing.creator b assetId
    rw [hget] at hcount
    simp only [Option.isSome_some, and_true] at hcount
    rw [Store.getOrDefaultAccount_setAccount, haccount, haccount]
    show _ = numHoldings (s.removeAssetHolding existing.creator assetId) b
    by_cases hb : b = existing.creator
    · rw [if_pos hb.symm] at hcount
      rw [if_pos hb, ← hb]
      show (s.getOrDefaultAccount b).totalAssetsOptedIn - 1 = _
      rw [hs.optedIn, hcount, Nat.add_sub_cancel, hb]
    · rw [if_neg (Ne.symm hb), Nat.add_zero] at hcount
      rw [if_neg hb, ← hcount]
      exact hs.optedIn b
  · have hcount := numCreated_removeAssetParams hparams b
    rw [Store.getOrDefaultAccount_setAccount, haccount, haccount]
    show _ = numCreated (s.removeAssetParams assetId) b
    by_cases hb : b = existing.creator
    · rw [if_pos hb.symm] at hcount
      rw [if_pos hb, ← hb]
      show (s.getOrDefaultAccount b).totalCreatedAssets - 1 = _
      rw [hs.created, hcount, Nat.add_sub_cancel]
    · rw [if_neg (Ne.symm hb), Nat.add_zero] at hcount
      rw [if_neg hb, ← hcount]
      exact hs.created b
  · change (s.removeAssetParams assetId).getAssetParams i = some r at hr
    show ∃ hold, (s.removeAssetHolding existing.creator assetId).getAssetHolding r.creator i = some hold
    rw [getAssetParams_removeAssetParams] at hr
    split at hr
    · cases hr
    · rename_i hi
      rw [getAssetHolding_removeAssetHolding, if_neg (fun hand => hi hand.2)]
      exact hs.creatorHolds i r hr
  · change (s.removeAssetParams assetId).getAssetParams i = some r at hr
    rw [getAssetParams_removeAssetParams] at hr
    split at hr
    · cases hr
    · exact hs.fits i r hr

/-- Reconfiguration keeps the total and the creator. -/
theorem Sound.reconfigure {existing : AssetParamsRecord} (hs : Sound id 0 s)
    (hparams : s.getAssetParams assetId = some existing) {record : AssetParamsRecord}
    (htotal : record.params.total = existing.params.total) (hcreator : record.creator = existing.creator) :
    Sound id 0 (s.setAssetParams assetId record) := by
  have hcases : ∀ {i r}, (s.setAssetParams assetId record).getAssetParams i = some r →
      ∃ r', s.getAssetParams i = some r' ∧ r.params.total = r'.params.total ∧ r.creator = r'.creator := by
    intro i r hr
    rw [getAssetParams_setAssetParams] at hr
    split at hr
    · rename_i hi
      subst hi
      cases hr
      exact ⟨existing, hparams, htotal, hcreator⟩
    · exact ⟨r, hr, rfl, rfl⟩
  refine ⟨fun i => ?_, hs.optedIn, fun b => ?_, fun i r hr => ?_, fun i r hr => ?_⟩
  · have hsupply := hs.supply i
    rw [ite_self] at hsupply ⊢
    unfold supplyOf at hsupply ⊢
    rw [getAssetParams_setAssetParams]
    by_cases hi : i = assetId
    · subst hi
      rw [hparams, Option.elim_some] at hsupply
      rw [if_pos rfl, Option.elim_some, htotal]
      exact hsupply
    · rw [if_neg hi]
      exact hsupply
  · rw [numCreated_setAssetParams_same hparams hcreator]
    exact hs.created b
  · obtain ⟨r', hr', -, hc⟩ := hcases hr
    rw [hc]
    exact hs.creatorHolds i r' hr'
  · obtain ⟨r', hr', ht, -⟩ := hcases hr
    rw [ht]
    exact hs.fits i r' hr'

theorem applyAcfg_sound {counter : Nat} (hs : Sound id 0 s) (hfit : CountsFit s) (hfresh : txn.configAsset = 0 →
      s.getAssetParams (wrapAdd counter 1) = none ∧ s.getAssetHolding txn.sender (wrapAdd counter 1) = none)
    (htotal : (txn.assetParams.getD default).total < u64Bound)
    (h : applyAcfg s txn counter consensus = .ok r) : Sound id 0 r.1 := by
  unfold applyAcfg at h
  simp only at h
  split at h
  · rename_i hcreate
    exact acfgCreate_sound hs hfit (hfresh hcreate).1 (hfresh hcreate).2 htotal h
  split at h
  · cases h
  rename_i existing hparams
  split at h
  · cases h
  split at h
  · obtain ⟨s₁, h₁, h⟩ := Run.bind_eq_ok.1 h
    cases h
    exact acfgDestroy_sound hs hparams h₁
  · cases h
    exact hs.reconfigure hparams rfl rfl

theorem applyAfrz_sound (hs : Sound id 0 s) (h : applyAfrz s txn = .ok s') : Sound id 0 s' := by
  unfold applyAfrz at h
  simp only at h
  split at h
  · cases h
  split at h
  · cases h
  split at h
  · cases h
  split at h
  · cases h
  rename_i target _
  split at h
  · cases h
  rename_i holding hget
  cases h
  have hs' := @Sound.setHolding s target txn.freezeAsset 0 0 holding { holding with frozen := txn.assetFrozen }
    (hs.change txn.freezeAsset) hget rfl
  exact hs'.change id

theorem axferOptIn_sound (hs : Sound id 0 s) (hfit : CountsFit s) (h : axferOptIn s txn consensus = .ok s') :
    Sound id 0 s' := by
  unfold axferOptIn at h
  simp only at h
  split at h
  · rename_i hnew
    simp only [Bool.and_eq_true, Bool.not_eq_true', Store.hasAssetHolding, Option.isSome_eq_false_iff,
      Option.isNone_iff_eq_none] at hnew
    split at h
    · cases h
    split at h
    · cases h
    · cases h
      exact hs.optIn hnew.2 (hfit.wrapAdd_optedIn _) rfl
  · cases h
    exact hs

/-- What the source's holding is after an opt-in. -/
theorem axferOptIn_holding (h : axferOptIn s txn consensus = .ok s') {held : AssetHolding}
    (hget : s'.getAssetHolding (axferSource txn).1 txn.xaid = some held) :
    s.getAssetHolding (axferSource txn).1 txn.xaid = some held ∨ held.amount = 0 := by
  unfold axferOptIn at h
  simp only at h
  split at h
  · split at h
    · cases h
    split at h
    · cases h
    · cases h
      change (s.setAssetHolding _ _ _).getAssetHolding _ _ = _ at hget
      rw [getAssetHolding_setAssetHolding, if_pos ⟨rfl, rfl⟩] at hget
      cases hget
      exact .inr rfl
  · cases h
    exact .inl hget

/-- What a transfer writes. -/
theorem axferTransfer_cases (h : axferTransfer s txn = .ok s') :
    (txn.assetAmount = 0 ∧ s' = s) ∨ ∃ held got,
      s.getAssetHolding (axferSource txn).1 txn.xaid = some held ∧ txn.assetAmount ≤ held.amount ∧
      (s.setAssetHolding (axferSource txn).1 txn.xaid
        { held with amount := held.amount - txn.assetAmount }).getAssetHolding
          (txn.assetReceiver.getD Address.zero) txn.xaid = some got ∧
      s' = (s.setAssetHolding (axferSource txn).1 txn.xaid
        { held with amount := held.amount - txn.assetAmount }).setAssetHolding
          (txn.assetReceiver.getD Address.zero) txn.xaid
          { got with amount := wrapAdd got.amount txn.assetAmount } := by
  unfold axferTransfer at h
  simp only at h
  split at h
  · split at h
    · cases h
    rename_i held hheld
    split at h
    · cases h
    split at h
    · cases h
    rename_i hle
    split at h
    · cases h
    rename_i got hgot
    split at h
    · cases h
    · cases h
      exact .inr ⟨held, got, hheld, Nat.le_of_not_lt hle, hgot, rfl⟩
  · rename_i hzero
    cases h
    exact .inl ⟨Nat.eq_zero_of_not_pos hzero, rfl⟩

theorem axferTransfer_sound (hs : Sound txn.xaid 0 s) (h : axferTransfer s txn = .ok s') : Sound txn.xaid 0 s' := by
  rcases axferTransfer_cases h with ⟨-, rfl⟩ | ⟨held, got, hheld, hle, hgot, rfl⟩
  · exact hs
  · have hout : Sound txn.xaid txn.assetAmount (s.setAssetHolding (axferSource txn).1 txn.xaid
        { held with amount := held.amount - txn.assetAmount }) := by
      apply hs.setHolding hheld
      simp only
      omega
    have hlt := hout.amount_lt hgot
    apply hout.setHolding hgot
    simp only
    unfold wrapAdd
    rw [Nat.mod_eq_of_lt (by omega)]
    omega

/-- A holding that a transfer leaves empty: the source had nothing, or sent all it had to another account. -/
theorem axferTransfer_left (hs : Sound txn.xaid 0 s) (h : axferTransfer s txn = .ok s') {left : AssetHolding}
    (hget : s'.getAssetHolding (axferSource txn).1 txn.xaid = some left)
    (hempty : ∀ held, s.getAssetHolding (axferSource txn).1 txn.xaid = some held → 0 < held.amount →
      txn.assetReceiver.getD Address.zero ≠ (axferSource txn).1 ∧ held.amount ≤ txn.assetAmount) :
    left.amount = 0 := by
  rcases axferTransfer_cases h with ⟨hzero, rfl⟩ | ⟨held, got, hheld, hle, hgot, rfl⟩
  · by_cases hpos : 0 < left.amount
    · obtain ⟨-, hall⟩ := hempty left hget hpos
      omega
    · omega
  · by_cases hpos : 0 < held.amount
    · obtain ⟨hne, hall⟩ := hempty held hheld hpos
      rw [getAssetHolding_setAssetHolding, if_neg (fun hand => hne hand.1.symm), getAssetHolding_setAssetHolding,
        if_pos ⟨rfl, rfl⟩] at hget
      cases hget
      simp only
      omega
    · have hamount : txn.assetAmount = 0 := by omega
      have hlt := hs.amount_lt hheld
      rw [getAssetHolding_setAssetHolding] at hget
      split at hget
      · rename_i hand
        rw [← hand.1, getAssetHolding_setAssetHolding, if_pos ⟨rfl, rfl⟩] at hgot
        cases hgot
        cases hget
        simp only [hamount, wrapAdd]
        rw [Nat.mod_eq_of_lt (by omega)]
        omega
      · rw [getAssetHolding_setAssetHolding, if_pos ⟨rfl, rfl⟩] at hget
        cases hget
        simp only
        omega

/-- What closing a holding writes: the units left go to another holding, and the source's holding is removed. -/
theorem axferCloseTo_cases {source closeTo : Address} (h : axferCloseTo s source closeTo assetId consensus = .ok r) :
    (∀ record, s.getAssetParams assetId = some record → record.creator ≠ source) ∧
      ∃ held s₁, s.getAssetHolding source assetId = some held ∧
        (held.amount = 0 ∧ s₁ = s ∨ ∃ got, 0 < held.amount ∧ s.getAssetHolding closeTo assetId = some got ∧
          s₁ = s.setAssetHolding closeTo assetId { got with amount := wrapAdd got.amount held.amount }) ∧
        r.1 = (s₁.removeAssetHolding source assetId).setAccount source
          { s₁.getOrDefaultAccount source with
            totalAssetsOptedIn := (s₁.getOrDefaultAccount source).totalAssetsOptedIn - 1 } := by
  unfold axferCloseTo at h
  simp only at h
  split at h
  · cases h
  rename_i hcreator
  have hother : ∀ record, s.getAssetParams assetId = some record → record.creator ≠ source := by
    rintro record hrecord rfl
    apply hcreator
    rw [hrecord]
    rfl
  refine ⟨hother, ?_⟩
  split at h
  · cases h
  rename_i held hheld
  split at h
  · cases h
  split at h
  · rename_i hpos
    split at h
    · cases h
    rename_i got hgot
    split at h
    · cases h
    · cases h
      exact ⟨held, _, hheld, .inr ⟨got, hpos, hgot, rfl⟩, rfl⟩
  · rename_i hpos
    cases h
    exact ⟨held, s, hheld, .inl ⟨Nat.eq_zero_of_not_pos hpos, rfl⟩, rfl⟩

theorem axferCloseTo_sound {source closeTo : Address} (hs : Sound assetId 0 s)
    (hself : closeTo = source → ∀ held, s.getAssetHolding source assetId = some held → held.amount = 0)
    (h : axferCloseTo s source closeTo assetId consensus = .ok r) : Sound assetId 0 r.1 := by
  obtain ⟨hcreator, held, s₁, hheld, hmove, hr⟩ := axferCloseTo_cases h
  rw [hr]
  rcases hmove with ⟨hzero, rfl⟩ | ⟨got, hpos, hgot, rfl⟩
  · have hremoved := hs.removeHolding hheld hcreator
      (d := { s₁.getOrDefaultAccount source with
        totalAssetsOptedIn := (s₁.getOrDefaultAccount source).totalAssetsOptedIn - 1 }) rfl rfl
    rw [hzero] at hremoved
    exact hremoved
  · have hne : closeTo ≠ source := fun heq => Nat.lt_irrefl 0 ((hself heq held hheld).subst hpos)
    -- both holdings count towards the total, so the credit does not wrap around
    have hfit : got.amount + held.amount < u64Bound := by
      have hwithout := heldUnits_removeAssetHolding s source assetId assetId
      have hgot' : (s.removeAssetHolding source assetId).getAssetHolding closeTo assetId = some got := by
        rw [getAssetHolding_removeAssetHolding, if_neg (fun hand => hne hand.1)]
        exact hgot
      have hle := amount_le_heldUnits hgot'
      have hsupply := hs.supply_self
      have hlt := hs.supplyOf_lt assetId
      rw [if_pos rfl, hheld, Option.elim_some] at hwithout
      omega
    have hcredit : Sound assetId (-held.amount) (s.setAssetHolding closeTo assetId
        { got with amount := wrapAdd got.amount held.amount }) := by
      apply hs.setHolding hgot
      simp only [wrapAdd]
      rw [Nat.mod_eq_of_lt hfit]
      omega
    have hheld₁ : (s.setAssetHolding closeTo assetId
        { got with amount := wrapAdd got.amount held.amount }).getAssetHolding source assetId = some held := by
      rw [getAssetHolding_setAssetHolding, if_neg (fun hand => hne hand.1.symm)]
      exact hheld
    have hremoved := hcredit.removeHolding hheld₁ hcreator
      (d := { s.getOrDefaultAccount source with
        totalAssetsOptedIn := (s.getOrDefaultAccount source).totalAssetsOptedIn - 1 }) rfl rfl
    rw [Int.add_left_neg] at hremoved
    exact hremoved

theorem applyAxfer_sound (hs : Sound id 0 s) (hfit : CountsFit s)
    (htype : txn.txnType.is "axfer" = true) (hself : ¬ ClosesToSelf s txn)
    (h : applyAxfer s txn consensus = .ok r) : Sound id 0 r.1 := by
  unfold applyAxfer at h
  split at h
  · cases h
  obtain ⟨_, -, h⟩ := Run.bind_eq_ok.1 h
  obtain ⟨s₁, h₁, h⟩ := Run.bind_eq_ok.1 h
  obtain ⟨s₂, h₂, h⟩ := Run.bind_eq_ok.1 h
  have hs₁ := axferOptIn_sound (hs.change txn.xaid) hfit h₁
  have hs₂ := axferTransfer_sound hs₁ h₂
  unfold axferClose at h
  split at h
  · cases h
    exact hs₂.change id
  rename_i closeTo hcloseTo
  simp only at h
  split at h
  · cases h
  rename_i hclawback
  obtain ⟨hclose, hnonzero⟩ := Option.filter_eq_some_iff.1 hcloseTo
  have hsource : (axferSource txn).1 = txn.sender := by
    unfold axferSource at hclawback ⊢
    split at hclawback <;> simp_all
  refine (axferCloseTo_sound hs₂ (fun heq left hleft => ?_) h).change id
  apply axferTransfer_left hs₁ h₂ hleft
  intro held hheld hpos
  rcases axferOptIn_holding h₁ hheld with hbefore | hzero
  · by_contra hcon
    apply hself
    subst heq
    rw [hsource] at hclose hnonzero hbefore hcon
    refine ⟨htype, hclose, by simpa using hnonzero, held, hbefore, hpos, ?_⟩
    by_contra hneither
    obtain ⟨hreceiver, hamount⟩ := not_or.1 hneither
    exact hcon ⟨hreceiver, Nat.le_of_not_lt hamount⟩
  · omega

end Functions

/-! ## Runs -/

/-- One transaction of a run, with the context it is applied in. -/
structure AssetTxn where
  ext : Externals
  ctx : ApplyContext
  depth : Nat
  stx : SignedTransaction

/-- No asset and no holding has the id. -/
def FreshAsset (s : Store) (id : Nat) : Prop := s.getAssetParams id = none ∧ ∀ a, s.getAssetHolding a id = none

/-- A plain transaction without a recorded delta.  A created asset has a fresh id and a 64-bit total, no count overflows,
and the protocols that require the base minimum balance of a closed account have the minimum balance the accounts are
checked with. -/
structure AssetOp (st : Store × Cells) (e : AssetTxn) : Prop where
  plain : e.stx.txn.txnType.asStr ∈ plainTypes
  noDelta : e.stx.evalDelta = none
  fresh : e.stx.txn.txnType.is "acfg" = true → e.stx.txn.configAsset = 0 →
    FreshAsset st.1 (wrapAdd (acfgCounter e.ctx st.2 e.stx) 1)
  total : (e.stx.txn.assetParams.getD default).total < u64Bound
  counts : CountsFit st.1
  base : e.ctx.consensus.closeRequiresBaseMinBalance = true → e.ctx.consensus.minBalance = minBalanceBase

/-- A successful transaction of a run. -/
def AssetStep (st : Store × Cells) (e : AssetTxn) (st' : Store × Cells) (ads : List ApplyData) : Prop :=
  AssetOp st e ∧ ∃ ad, ads = [ad] ∧ applyTransaction e.ext e.ctx e.depth st e.stx = .ok (st', ad)

/-- A step of a run in which no holding with units left is closed to its own account. -/
def SupplyStep (st : Store × Cells) (e : AssetTxn) (st' : Store × Cells) (ads : List ApplyData) : Prop :=
  AssetStep st e st' ads ∧ ¬ ClosesToSelf st.1 e.stx.txn

/-- A store without assets. -/
structure AssetFree (s : Store) : Prop where
  params : ∀ id, s.getAssetParams id = none
  holdings : ∀ a id, s.getAssetHolding a id = none
  counts : ∀ a, (s.getOrDefaultAccount a).totalAssetsOptedIn = 0 ∧ (s.getOrDefaultAccount a).totalCreatedAssets = 0

section Runs

theorem AssetFree.sound {s : Store} (h : AssetFree s) : Sound 0 0 s := by
  have hholdings : s.assetHoldings.entries = [] :=
    List.isEmpty_iff.1 (FinMap.isEmpty_iff.2 (fun k => h.holdings k.1 k.2))
  have hparams : s.assetParams.entries = [] := List.isEmpty_iff.1 (FinMap.isEmpty_iff.2 h.params)
  refine ⟨fun id => ?_, fun a => ?_, fun a => ?_, fun id r hr => ?_, fun id r hr => ?_⟩
  · simp [heldUnits, supplyOf, FinMap.total, hholdings, h.params]
  · simp [numHoldings, FinMap.total, hholdings, (h.counts a).1]
  · simp [numCreated, FinMap.total, hparams, (h.counts a).2]
  · rw [h.params] at hr
    cases hr
  · rw [h.params] at hr
    cases hr

/-- What a transaction does after its fee is taken keeps the invariant. -/
theorem PlainEffect.sound {ctx : ApplyContext} {stx : SignedTransaction} {st : Store × Cells} {s' : Store}
    (heffect : PlainEffect ctx stx st s') (hs : Sound 0 0 st.1) (hfit : CountsFit st.1)
    (hfresh : stx.txn.txnType.is "acfg" = true → stx.txn.configAsset = 0 →
      FreshAsset st.1 (wrapAdd (acfgCounter ctx st.2 stx) 1))
    (htotal : (stx.txn.assetParams.getD default).total < u64Bound)
    (hbase : ctx.consensus.closeRequiresBaseMinBalance = true → ctx.consensus.minBalance = minBalanceBase)
    (hself : ¬ ClosesToSelf st.1 stx.txn) : Sound 0 0 s' := by
  cases heffect with
  | pay _ hr =>
    unfold applyPay at hr
    obtain ⟨s₁, h₁, hr⟩ := Run.bind_eq_ok.1 hr
    have hsame := (payTransfer_settles h₁).sameCounts
    exact payClose_sound (hs.of_same hsame) (hfit.of_same hsame) hbase hr
  | acfg htype hr =>
    exact applyAcfg_sound hs hfit (fun hc => ⟨(hfresh htype hc).1, (hfresh htype hc).2 _⟩) htotal hr
  | axfer htype hr => exact applyAxfer_sound hs hfit htype hself hr
  | afrz _ hs' => exact applyAfrz_sound hs hs'
  | keyreg _ hs' => exact hs.of_same (applyKeyreg_same hs')

/-- One transaction keeps the invariant. -/
theorem SupplyStep.sound {st st' : Store × Cells} {e : AssetTxn} {ads : List ApplyData}
    (hstep : SupplyStep st e st' ads) (hs : Sound 0 0 st.1) : Sound 0 0 st'.1 := by
  obtain ⟨⟨h, ad, -, happlied⟩, hself⟩ := hstep
  obtain ⟨pass, st₁, st₂, st₃, ad₁, ad₂, hpass, hfee, heffect, hrec, hfinish⟩ := applyTransaction_plain h.plain happlied
  have hcounter := applyFee_txnCounter hfee
  have hsame : SameCounts st.1 st₁.1 :=
    (((applyRewardsPass_settles hpass).trans (applyRekey_settles _ _)).trans (applyFee_settles hfee)).sameCounts
  have hcounter' : acfgCounter e.ctx st₁.2 e.stx = acfgCounter e.ctx st.2 e.stx := by
    unfold acfgCounter
    rw [hcounter]
  have hs₂ : Sound 0 0 st₂.1 := by
    apply heffect.sound (hs.of_same hsame) (h.counts.of_same hsame) _ h.total h.base
    · rintro ⟨htype, hclose, hzero, held, hheld, hpos⟩
      rw [hsame.getAssetHolding] at hheld
      exact hself ⟨htype, hclose, hzero, held, hheld, hpos⟩
    · intro htype hcreate
      obtain ⟨hparams, hholding⟩ := h.fresh htype hcreate
      rw [hcounter']
      refine ⟨(hsame.getAssetParams _).trans hparams, fun a => (hsame.getAssetHolding _ _).trans (hholding a)⟩
  have hdelta : st₃ = st₂ := by
    unfold applyRecordedDelta at hrec
    rw [h.noDelta] at hrec
    split at hrec <;> cases hrec <;> rfl
  rw [hdelta] at hfinish
  exact hs₂.of_same (finishTransaction_settles hfinish).sameCounts

end Runs

/-- **Asset supply is conserved along every run** of payments, asset and key transactions from a store without assets, in
which no transfer closes a holding with units left to the account that holds it. -/
theorem assetSupply_conserved (st₀ : Store × Cells) (hfree : AssetFree st₀.1) (st : Store × Cells)
    (ads : List ApplyData) (h : Run.Path SupplyStep st₀ ads st) : SupplyConserved st.1 := by
  have hsound : Sound 0 0 st.1 := by
    apply Run.Path.invariant (fun _ st => Sound 0 0 st.1) hfree.sound _ h
    intro _ st₁ e st₂ _ hs hstep
    exact hstep.sound hs
  exact hsound.conserved

/-! ## Runs that can be evaluated -/

section Evaluation

theorem freshAsset_iff (s : Store) (id : Nat) :
    FreshAsset s id ↔ s.getAssetParams id = none ∧ ∀ k ∈ s.assetHoldings.keys, k.2 ≠ id := by
  constructor
  · rintro ⟨hparams, hholding⟩
    refine ⟨hparams, ?_⟩
    rintro ⟨a, _⟩ hk rfl
    exact AList.lookup_eq_none.1 (hholding a) hk
  · rintro ⟨hparams, hkeys⟩
    refine ⟨hparams, fun a => AList.lookup_eq_none.2 (fun hk => hkeys _ hk rfl)⟩

theorem countsFit_iff (s : Store) :
    CountsFit s ↔ ∀ d ∈ FinMap.values s.accounts, owedBalance d + assetOptInMinBalance < u64Bound := by
  constructor
  · intro h d hd
    obtain ⟨a, ha⟩ := FinMap.mem_values.1 hd
    have hfit := h a
    have hget : s.getAccount a = some d := ha
    unfold Store.getOrDefaultAccount at hfit
    rw [hget] at hfit
    exact hfit
  · intro h a
    unfold Store.getOrDefaultAccount
    cases ha : s.getAccount a with
    | none => decide
    | some d => exact h d (FinMap.mem_values.2 ⟨a, ha⟩)

instance (s : Store) (id : Nat) : Decidable (FreshAsset s id) := decidable_of_iff _ (freshAsset_iff s id).symm

instance (s : Store) : Decidable (CountsFit s) := decidable_of_iff _ (countsFit_iff s).symm

instance (st : Store × Cells) (e : AssetTxn) : Decidable (AssetOp st e) :=
  decidable_of_iff
    (e.stx.txn.txnType.asStr ∈ plainTypes ∧ e.stx.evalDelta.isNone = true ∧
      (e.stx.txn.txnType.is "acfg" = true → e.stx.txn.configAsset = 0 →
        FreshAsset st.1 (wrapAdd (acfgCounter e.ctx st.2 e.stx) 1)) ∧
      (e.stx.txn.assetParams.getD default).total < u64Bound ∧ CountsFit st.1 ∧
      (e.ctx.consensus.closeRequiresBaseMinBalance = true → e.ctx.consensus.minBalance = minBalanceBase))
    ⟨fun h => ⟨h.1, Option.isNone_iff_eq_none.1 h.2.1, h.2.2.1, h.2.2.2.1, h.2.2.2.2.1, h.2.2.2.2.2⟩,
      fun h => ⟨h.plain, Option.isNone_iff_eq_none.2 h.noDelta, h.fresh, h.total, h.counts, h.base⟩⟩

instance (s : Store) (txn : Transaction) : Decidable (ClosesToSelf s txn) :=
  decidable_of_iff
    (txn.txnType.is "axfer" = true ∧ txn.assetCloseTo = some txn.sender ∧ txn.sender.isZero = false ∧
      (s.getAssetHolding txn.sender txn.xaid).any (fun h => decide (0 < h.amount) &&
        decide (txn.assetReceiver.getD Address.zero = txn.sender ∨ txn.assetAmount < h.amount)) = true)
    (by simp only [ClosesToSelf, Option.any_eq_true, Bool.and_eq_true, decide_eq_true_eq])

/-- A step of a run as a function: it refuses a transaction that a guard refuses. -/
def assetStep (guard : Store × Cells → AssetTxn → Bool) (st : Store × Cells) (e : AssetTxn) :
    Except ApplyError ((Store × Cells) × List ApplyData) :=
  if guard st e then do
    let r ← applyTransaction e.ext e.ctx e.depth st e.stx
    return (r.1, [r.2])
  else .error (.external 0)

theorem assetStep_eq_ok {guard : Store × Cells → AssetTxn → Bool} {st st' : Store × Cells} {e : AssetTxn}
    {ads : List ApplyData} (h : assetStep guard st e = .ok (st', ads)) :
    guard st e = true ∧ ∃ ad, ads = [ad] ∧ applyTransaction e.ext e.ctx e.depth st e.stx = .ok (st', ad) := by
  unfold assetStep at h
  split at h
  · rename_i hguard
    obtain ⟨⟨st₁, ad⟩, h₁, h⟩ := Run.bind_eq_ok.1 h
    cases h
    exact ⟨hguard, ad, rfl, h₁⟩
  · cases h

end Evaluation

/-- Accounts 1 and 2 have Algos; account 3 is the fee sink. -/
def assetFreeStore : Store :=
  { (default : Store) with
    accounts := (((∅ : FinMap Address AccountData).insert ⟨1⟩ { (default : AccountData) with microAlgos := 5000000 }).insert
      ⟨2⟩ { (default : AccountData) with microAlgos := 5000000 }).insert
      ⟨3⟩ { (default : AccountData) with microAlgos := 100000, status := .notParticipating }
    feeSink := ⟨3⟩
    rewardsPool := ⟨4⟩ }

def assetTxn (txn : Transaction) : AssetTxn :=
  { ext := noExternals
    ctx := { closingContext with rewardsLevel := 0 }
    depth := 0
    stx := { (default : SignedTransaction) with txn := txn } }

/-- Account 1 creates ten units, account 2 opts in and receives seven. -/
def issueAsset : List AssetTxn :=
  [assetTxn { (default : Transaction) with
      txnType := .acfg, sender := ⟨1⟩, fee := 1000, assetParams := some { (default : AssetParams) with total := 10 } },
    assetTxn { (default : Transaction) with
      txnType := .axfer, sender := ⟨2⟩, fee := 1000, xaid := 1, assetReceiver := some ⟨2⟩ },
    assetTxn { (default : Transaction) with
      txnType := .axfer, sender := ⟨1⟩, fee := 1000, xaid := 1, assetReceiver := some ⟨2⟩, assetAmount := 7 }]

/-- Account 2 closes its holding. -/
def closeHolding (closeTo : Address) : AssetTxn :=
  assetTxn { (default : Transaction) with
    txnType := .axfer, sender := ⟨2⟩, fee := 1000, xaid := 1, assetCloseTo := some closeTo }

theorem assetFreeStore_free : AssetFree assetFreeStore := by
  refine ⟨fun _ => rfl, fun _ _ => rfl, fun a => ?_⟩
  have hvalues : ∀ d ∈ FinMap.values assetFreeStore.accounts, d.totalAssetsOptedIn = 0 ∧ d.totalCreatedAssets = 0 := by
    decide
  unfold Store.getOrDefaultAccount
  cases ha : assetFreeStore.getAccount a with
  | none => exact ⟨rfl, rfl⟩
  | some d => exact hvalues d (FinMap.mem_values.2 ⟨a, ha⟩)

/-- Account 2 closes its holding to the creator. -/
theorem assetSupply_conserved_closeToCreator :
    ∃ st ads, Run.Path SupplyStep (assetFreeStore, default) ads st ∧ SupplyConserved st.1 := by
  obtain ⟨⟨st, ads⟩, hrun, -⟩ := @Run.ok_of_any _ _
    (Run.run (assetStep (fun st e => decide (AssetOp st e) && !decide (ClosesToSelf st.1 e.stx.txn)))
      (assetFreeStore, default) (issueAsset ++ [closeHolding ⟨1⟩])) (fun _ => true) (by decide)
  have hpath : Run.Path SupplyStep (assetFreeStore, default) ads st := by
    refine Run.Path.of_run (P := fun _ => True) (fun st₁ e st₂ as _ h => ?_) (fun _ _ => trivial) hrun
    obtain ⟨hguard, happlied⟩ := assetStep_eq_ok h
    simp only [Bool.and_eq_true, Bool.not_eq_true', decide_eq_true_eq, decide_eq_false_iff_not] at hguard
    exact ⟨⟨hguard.1, happlied⟩, hguard.2⟩
  exact ⟨st, ads, hpath, assetSupply_conserved (assetFreeStore, default) assetFreeStore_free st ads hpath⟩

/-- **A holding closed to its own account loses its units**: seven of ten are gone, and the asset still exists. -/
theorem closesToSelf_losesUnits :
    ∃ st ads, Run.Path AssetStep (assetFreeStore, default) ads st ∧ AssetFree assetFreeStore ∧
      heldUnits st.1 1 = 3 ∧ ((st.1.getAssetParams 1).map fun r => r.params.total) = some 10 ∧
      ¬ SupplyConserved st.1 := by
  obtain ⟨⟨st, ads⟩, hrun, hst⟩ := @Run.ok_of_any _ _
    (Run.run (assetStep (fun st e => decide (AssetOp st e))) (assetFreeStore, default)
      (issueAsset ++ [closeHolding ⟨2⟩]))
    (fun r => decide (heldUnits r.1.1 1 = 3 ∧ ((r.1.1.getAssetParams 1).map fun r => r.params.total) = some 10))
    (by decide)
  obtain ⟨hheld, htotal⟩ := of_decide_eq_true hst
  have hpath : Run.Path AssetStep (assetFreeStore, default) ads st := by
    refine Run.Path.of_run (P := fun _ => True) (fun st₁ e st₂ as _ h => ?_) (fun _ _ => trivial) hrun
    obtain ⟨hguard, happlied⟩ := assetStep_eq_ok h
    exact ⟨of_decide_eq_true hguard, happlied⟩
  refine ⟨st, ads, hpath, assetFreeStore_free, hheld, htotal, fun hsupply => ?_⟩
  obtain ⟨r, hr, hten⟩ := Option.map_eq_some_iff.1 htotal
  have hall := hsupply.supply 1 r hr
  simp only at hheld hten
  omega

end Ledger
end Algod
