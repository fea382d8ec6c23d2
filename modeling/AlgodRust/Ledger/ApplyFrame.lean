import AlgodRust.Ledger.Apply
/-!
# ApplyFrame — what the steps of a transaction leave alone

Claiming rewards, rekeying, paying a fee and paying another account change balances and keys of accounts (`Settles`), a
key registration what an account registers; asset transactions change assets and how many of them an account counts
(`AssetStable`).  What ends a transaction records its lease and the round (`finishTransaction_keeps`).
-/
namespace Algod
namespace Ledger

/-! ## Balances and keys -/

/-- An account without what transactions settle: its balance, its rewards, its key and when it was written. -/
def AccountData.unsettled (a : AccountData) : AccountData :=
  { a with microAlgos := 0, rewardedMicroAlgos := 0, rewardsBase := 0, authAddr := none, updateRound := 0 }

/-- Only balances, rewards and keys of accounts differ. -/
structure Settles (s s' : Store) : Prop where
  account : ∀ a, (s'.getOrDefaultAccount a).unsettled = (s.getOrDefaultAccount a).unsettled
  assetParams : s'.assetParams = s.assetParams
  assetHoldings : s'.assetHoldings = s.assetHoldings
  appParams : s'.appParams = s.appParams
  appLocalStates : s'.appLocalStates = s.appLocalStates

section Settles

variable {s s' s₁ : Store} {level : Nat} {txn : Transaction} {consensus : ConsensusParams} {ctx : ApplyContext}
  {st st' : Store × Cells}

theorem Settles.refl (s : Store) : Settles s s := ⟨fun _ => rfl, rfl, rfl, rfl, rfl⟩

theorem Settles.trans (h : Settles s s₁) (h' : Settles s₁ s') : Settles s s' :=
  ⟨fun a => (h'.account a).trans (h.account a), h'.assetParams.trans h.assetParams,
    h'.assetHoldings.trans h.assetHoldings, h'.appParams.trans h.appParams, h'.appLocalStates.trans h.appLocalStates⟩

theorem Settles.status (h : Settles s s') (a : Address) :
    (s'.getOrDefaultAccount a).status = (s.getOrDefaultAccount a).status := by
  have heq := congrArg AccountData.status (h.account a)
  exact heq

theorem Settles.totalAssetsOptedIn (h : Settles s s') (a : Address) :
    (s'.getOrDefaultAccount a).totalAssetsOptedIn = (s.getOrDefaultAccount a).totalAssetsOptedIn := by
  have heq := congrArg AccountData.totalAssetsOptedIn (h.account a)
  exact heq

theorem Settles.getAssetParams (h : Settles s s') (id : Nat) : s'.getAssetParams id = s.getAssetParams id := by
  unfold Store.getAssetParams
  rw [h.assetParams]

theorem Settles.setAccount {a : Address} {d : AccountData} (h : d.unsettled = (s.getOrDefaultAccount a).unsettled) :
    Settles s (s.setAccount a d) :=
  ⟨Store.keep_setAccount AccountData.unsettled h, rfl, rfl, rfl, rfl⟩

theorem withRewards_settles {a : AccountData} {r : AccountData × Nat} (h : withRewards a level = .ok r) :
    r.1.unsettled = a.unsettled := by
  unfold withRewards at h
  split at h
  · cases h
  rename_i hr
  cases h
  unfold applyRewards at hr
  split at hr
  · cases hr
    rfl
  split at hr
  · cases hr
    rfl
  obtain ⟨pending, -, hr⟩ := Option.bind_eq_some_iff.1 hr
  split at hr
  · split at hr <;> cases hr
    rfl
  · cases hr
    rfl

theorem rewardsPassStep_settles {st st' : Store × RewardsPassOutcome} {a : Address}
    (h : rewardsPassStep txn level consensus st a = .ok st') : Settles st.1 st'.1 := by
  unfold rewardsPassStep at h
  obtain ⟨r, hr, h⟩ := Run.bind_eq_ok.1 h
  cases h
  simp only
  split
  · exact .refl _
  · exact .setAccount (withRewards_settles hr)

/-- By induction on the accounts of the pass. -/
theorem applyRewardsPass_settles {addrs : List Address} {r : Store × RewardsPassOutcome}
    (h : applyRewardsPass txn level consensus s addrs = .ok r) : Settles s r.1 := by
  have hfold : ∀ (addrs : List Address) (st st' : Store × RewardsPassOutcome),
      addrs.foldlM (rewardsPassStep txn level consensus) st = .ok st' → Settles st.1 st'.1 := by
    intro addrs
    induction addrs with
    | nil =>
      intro st st' h
      cases h
      exact .refl _
    | cons a addrs ih =>
      intro st st' h
      rw [List.foldlM_cons] at h
      obtain ⟨st₁, h₁, h⟩ := Run.bind_eq_ok.1 h
      exact (rewardsPassStep_settles h₁).trans (ih _ _ h)
  exact hfold addrs _ _ h

theorem applyRekey_settles (s : Store) (txn : Transaction) : Settles s (applyRekey s txn) := by
  unfold applyRekey
  split
  · exact .refl _
  · exact .setAccount rfl

theorem applyFee_settles {sender : Address} {fee : Nat}
    (h : applyFee ctx sender fee st = .ok st') : Settles st.1 st'.1 := by
  unfold applyFee at h
  simp only at h
  split at h
  · cases h
  · cases h
    refine Settles.trans ?_ (Settles.setAccount rfl)
    split
    · exact .refl _
    · exact .setAccount rfl

theorem credit_settles {a : Address} {amount : Nat} (h : credit s a amount level = .ok s') : Settles s s' := by
  unfold credit at h
  obtain ⟨r, hr, h⟩ := Run.bind_eq_ok.1 h
  cases h
  exact .setAccount (withRewards_settles hr)

theorem payTransfer_settles (h : payTransfer s txn level = .ok s') : Settles s s' := by
  unfold payTransfer at h
  simp only at h
  split at h
  · split at h
    · cases h
    have hdebit : Settles s (if (decide (txn.amount > 0) || (s.getAccount txn.sender).isSome) = true
        then s.setAccount txn.sender { s.getOrDefaultAccount txn.sender with
          microAlgos := (s.getOrDefaultAccount txn.sender).microAlgos - txn.amount } else s) := by
      split
      · exact .setAccount rfl
      · exact .refl _
    split at h
    · exact hdebit.trans (credit_settles h)
    · cases h
      exact hdebit
  · cases h
    exact .refl _

theorem applyFee_txnCounter {sender : Address} {fee : Nat}
    (h : applyFee ctx sender fee st = .ok st') : st'.2.txnCounter = st.2.txnCounter := by
  unfold applyFee at h
  simp only at h
  split at h <;> cases h
  simp only
  split <;> rfl

/-- **What ends a transaction keeps a property** that neither the lists of recent transactions nor the round recorded in
an account matter to.  By induction on the accounts that are stamped. -/
theorem finishTransaction_keeps {P : Store → Prop} (htail : ∀ s tail, P s → P { s with tail := tail })
    (hstamp : ∀ s a round, P s → P (s.setAccount a { s.getOrDefaultAccount a with updateRound := round }))
    {ext : Externals} {depth : Nat} {addrs : List Address} {st st' : Store × Cells} {ad ad' : ApplyData}
    (h : finishTransaction ext ctx depth txn addrs st ad = .ok (st', ad')) (hs : P st.1) : P st'.1 ∧ ad' = ad := by
  have hlease : P (if ctx.callerTracksLeases then st.1 else st.1.recordLease txn.sender txn.lease txn.lastValid) := by
    split
    · exact hs
    · exact htail _ _ hs
  have hstep : ∀ s a, P s → P (stampUpdateRound ctx s a) := by
    intro s a hs
    unfold stampUpdateRound
    split
    · exact hs
    rename_i account hget
    have hstamped := hstamp s a ctx.round hs
    rw [Store.getOrDefaultAccount, hget] at hstamped
    split
    · exact hs
    split
    · exact hstamped
    · exact hs
  have hstamps : ∀ (addrs : List Address) (s : Store), P s → P (addrs.foldl (stampUpdateRound ctx) s) := by
    intro addrs
    induction addrs with
    | nil => exact fun s hs => hs
    | cons a addrs ih => exact fun s hs => ih _ (hstep s a hs)
  unfold finishTransaction at h
  simp only at h
  split at h
  · obtain ⟨_, -, h⟩ := Run.bind_eq_ok.1 h
    cases h
    exact ⟨hstamps _ _ hlease, rfl⟩
  · cases h
    exact ⟨hstamps _ _ hlease, rfl⟩

theorem finishTransaction_settles {ext : Externals} {depth : Nat} {addrs : List Address}
    {ad ad' : ApplyData} (h : finishTransaction ext ctx depth txn addrs st ad = .ok (st', ad')) : Settles st.1 st'.1 :=
  (finishTransaction_keeps (P := Settles st.1) (fun _ _ hs => hs.trans ⟨fun _ => rfl, rfl, rfl, rfl, rfl⟩)
    (fun _ _ _ hs => hs.trans (.setAccount rfl)) h (.refl _)).1

end Settles

/-! ## Key registration -/

/-- An account without what it registers. -/
def AccountData.unregistered (a : AccountData) : AccountData :=
  { a with
    status := .offline, voteId := none, selectionId := none, stateProofId := none, voteFirstValid := 0, voteLastValid := 0
    voteKeyDilution := 0, lastHeartbeat := 0, incentiveEligible := false }

theorem applyKeyreg_registers {s s' : Store} {txn : Transaction} {round : Nat} {consensus : ConsensusParams}
    (h : applyKeyreg s txn round consensus = .ok s') : (s.getOrDefaultAccount txn.sender).status ≠ .notParticipating ∧
      ∃ d, s' = s.setAccount txn.sender d ∧ d.unregistered = (s.getOrDefaultAccount txn.sender).unregistered := by
  unfold applyKeyreg at h
  split at h
  · cases h
  rename_i hstatus
  refine ⟨hstatus, ?_⟩
  split at h
  · unfold keyregOnline at h
    iterate 4
      split at h
      · cases h
    cases h
    refine ⟨_, rfl, ?_⟩
    split <;> rfl
  · unfold keyregOffline at h
    split at h <;> cases h
    exact ⟨_, rfl, rfl⟩

/-! ## Assets -/

/-- A property that survives what asset transactions write: the assets and how many of them an account counts. -/
structure AssetStable (P : Store → Prop) : Prop where
  assets : ∀ {s : Store} (params : FinMap Nat AssetParamsRecord) (holdings : FinMap (Address × Nat) AssetHolding), P s →
    P { s with assetParams := params, assetHoldings := holdings }
  counts : ∀ {s : Store} (addr : Address) (optedIn created : Nat), P s →
    P (s.setAccount addr { s.getOrDefaultAccount addr with totalAssetsOptedIn := optedIn, totalCreatedAssets := created })

section Stable

variable {s s' : Store} {txn : Transaction} {consensus : ConsensusParams} {P : Store → Prop} (hP : AssetStable P)
  {r : Store × Nat}

include hP

theorem AssetStable.acfgCreate {counter : Nat} (hs : P s)
    (h : acfgCreate s txn counter consensus = .ok r) : P r.1 := by
  unfold Ledger.acfgCreate at h
  simp only at h
  split at h
  · cases h
  · cases h
    exact hP.counts _ _ _ (hP.assets _ _ (hP.assets _ _ hs))

theorem AssetStable.acfgDestroy {existing : AssetParamsRecord} {id : Nat} (hs : P s)
    (h : acfgDestroy s existing id = .ok s') : P s' := by
  unfold Ledger.acfgDestroy at h
  simp only at h
  split at h
  · cases h
  · split at h
    · cases h
    · cases h
      exact hP.counts _ _ _ (hP.assets _ _ (hP.assets _ _ hs))

theorem AssetStable.applyAcfg {counter : Nat} (hs : P s) (h : applyAcfg s txn counter consensus = .ok r) : P r.1 := by
  unfold Ledger.applyAcfg at h
  simp only at h
  split at h
  · exact hP.acfgCreate hs h
  · split at h
    · cases h
    · split at h
      · cases h
      · split at h
        · obtain ⟨s₁, h₁, h⟩ := Run.bind_eq_ok.1 h
          cases h
          exact hP.acfgDestroy hs h₁
        · cases h
          exact hP.assets _ _ hs

theorem AssetStable.axferOptIn (hs : P s) (h : axferOptIn s txn consensus = .ok s') : P s' := by
  unfold Ledger.axferOptIn at h
  simp only at h
  split at h
  · split at h
    · cases h
    · split at h
      · cases h
      · cases h
        exact hP.counts _ _ _ (hP.assets _ _ hs)
  · cases h
    exact hs

theorem AssetStable.axferTransfer (hs : P s) (h : axferTransfer s txn = .ok s') : P s' := by
  unfold Ledger.axferTransfer at h
  simp only at h
  split at h
  · split at h
    · cases h
    · split at h
      · cases h
      · split at h
        · cases h
        · split at h
          · cases h
          · split at h
            · cases h
            · cases h
              exact hP.assets _ _ (hP.assets _ _ hs)
  · cases h
    exact hs

theorem AssetStable.axferCloseTo {source closeTo : Address} {id : Nat} (hs : P s)
    (h : axferCloseTo s source closeTo id consensus = .ok r) : P r.1 := by
  unfold Ledger.axferCloseTo at h
  simp only at h
  split at h
  · cases h
  split at h
  · cases h
  split at h
  · cases h
  split at h
  · split at h
    · cases h
    · split at h
      · cases h
      · cases h
        exact hP.counts _ _ _ (hP.assets _ _ (hP.assets _ _ hs))
  · cases h
    exact hP.counts _ _ _ (hP.assets _ _ hs)

theorem AssetStable.applyAxfer (hs : P s) (h : applyAxfer s txn consensus = .ok r) : P r.1 := by
  unfold Ledger.applyAxfer at h
  split at h
  · cases h
  obtain ⟨_, -, h⟩ := Run.bind_eq_ok.1 h
  obtain ⟨s₁, h₁, h⟩ := Run.bind_eq_ok.1 h
  obtain ⟨s₂, h₂, h⟩ := Run.bind_eq_ok.1 h
  have hs₂ := hP.axferTransfer (hP.axferOptIn hs h₁) h₂
  unfold axferClose at h
  split at h
  · cases h
    exact hs₂
  · simp only at h
    split at h
    · cases h
    · exact hP.axferCloseTo hs₂ h

theorem AssetStable.applyAfrz (hs : P s) (h : applyAfrz s txn = .ok s') : P s' := by
  unfold Ledger.applyAfrz at h
  simp only at h
  split at h
  · cases h
  split at h
  · cases h
  split at h
  · cases h
  split at h
  · cases h
  split at h
  · cases h
  · cases h
    exact hP.assets _ _ hs

end Stable

end Ledger
end Algod
