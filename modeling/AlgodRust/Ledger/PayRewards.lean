import AlgodRust.Ledger.Conservation
/-!
# PayRewards — the rewards a payment records

The rewards of a payment are claimed in two places: by the pass over its participants, which records them, and where an
account is credited, which does not.  The second claims nothing where the first was there before.  It was not for two
kinds of accounts (`Missed`): the zero address, which is not a participant, and an empty account, which the pass does not
write.  What such an account earns, with a fee it may have been paid in between, is not recorded (`Loose`); otherwise the
Algos in the accounts grow by what the payment records (`applyTransaction_records_rewards`).
-/
namespace Algod
namespace Ledger

/-! ## Claiming rewards -/

/-- Crediting the account now would claim rewards. -/
def Earning (a : AccountData) (level : Nat) : Prop := ¬ UpToDate a level ∧ 0 < a.microAlgos / rewardUnits

section Account

variable {a b : AccountData} {level n : Nat}

theorem UpToDate.not_earning (h : UpToDate a level) : ¬ Earning a level := fun he => he.1 h

theorem not_earning_of_empty (h : a.microAlgos = 0) : ¬ Earning a level := by
  rintro ⟨-, he⟩
  rw [h] at he
  exact absurd he (by decide)

/-- What claiming adds to the balance, and when it is nothing. -/
theorem applyRewards_adds (h : applyRewards a level = some (b, n)) :
    b.microAlgos = a.microAlgos + n ∧ n < u64Bound ∧ (n = 0 ↔ ¬ Earning a level) := by
  unfold applyRewards at h
  split at h
  · rename_i hnp
    cases h
    exact ⟨rfl, by decide, fun _ => UpToDate.not_earning (.inl hnp), fun _ => rfl⟩
  rename_i hnp
  split at h
  · rename_i hbase
    cases h
    exact ⟨rfl, by decide, fun _ => UpToDate.not_earning (.inr hbase), fun _ => rfl⟩
  rename_i hbase
  obtain ⟨pending, hpending, h⟩ := Option.bind_eq_some_iff.1 h
  have hup : ¬ UpToDate a level := fun hup => hup.elim hnp hbase
  have hzero : pending < u64Bound ∧ (pending = 0 ↔ ¬ Earning a level) := by
    unfold computePendingRewards at hpending
    split at hpending
    · rename_i hz
      cases hpending
      exact ⟨by decide, fun _ => not_earning_of_empty (hz.resolve_left hnp), fun _ => rfl⟩
    split at hpending
    · cases hpending
    rename_i hlevel
    simp only at hpending
    split at hpending
    · rename_i hlt
      cases hpending
      have hpos : 0 < level - a.rewardsBase := by omega
      refine ⟨hlt, ?_⟩
      rw [Nat.mul_eq_zero]
      constructor
      · rintro (hz | hz) ⟨-, he⟩
        · omega
        · omega
      · intro hne
        refine .inr (Nat.eq_zero_of_not_pos fun he => hne ⟨hup, he⟩)
    · cases hpending
  split at h
  · split at h
    · cases h
      exact ⟨rfl, hzero⟩
    · cases h
  · rename_i hpos
    cases h
    exact ⟨by show a.microAlgos = a.microAlgos + n; omega, hzero⟩

end Account

/-! ## The Algos in the accounts -/

/-- The sum of all balances, without what is pending. -/
def algos (s : Store) : Nat := FinMap.total (fun _ a => a.microAlgos) s.accounts

def balance (s : Store) (addr : Address) : Nat := (s.getOrDefaultAccount addr).microAlgos

section Store

variable {s s' : Store} {addr x : Address} {level amount : Nat} {txn : Transaction} {consensus : ConsensusParams}

theorem algos_setAccount (s : Store) (addr : Address) (d : AccountData) :
    algos (s.setAccount addr d) + balance s addr = algos s + d.microAlgos := by
  have hold : balance s addr = (s.accounts.lookup addr).elim 0 AccountData.microAlgos := by
    unfold balance Store.getOrDefaultAccount Store.getAccount
    cases s.accounts.lookup addr <;> rfl
  rw [hold]
  exact FinMap.total_insert (fun _ a => a.microAlgos) s.accounts addr d

theorem algos_setAccount_same {d : AccountData} (h : d.microAlgos = balance s addr) :
    algos (s.setAccount addr d) = algos s := by
  have := algos_setAccount s addr d
  omega

theorem balance_setAccount (s : Store) (addr x : Address) (d : AccountData) :
    balance (s.setAccount addr d) x = if x = addr then d.microAlgos else balance s x := by
  unfold balance
  rw [Store.getOrDefaultAccount_setAccount]
  split <;> rfl

theorem balance_setAccount_same {d : AccountData} (h : d.microAlgos = balance s addr) (x : Address) :
    balance (s.setAccount addr d) x = balance s x :=
  Store.keep_setAccount AccountData.microAlgos h x

theorem getOrDefaultAccount_congr (h : s'.getAccount x = s.getAccount x) :
    s'.getOrDefaultAccount x = s.getOrDefaultAccount x := by
  unfold Store.getOrDefaultAccount
  rw [h]

theorem balance_congr (h : s'.getAccount x = s.getAccount x) : balance s' x = balance s x :=
  congrArg AccountData.microAlgos (getOrDefaultAccount_congr h)

/-! ## The pass -/

/-- The pass does not write the account: it is empty, and it is a sender without a fee, the receiver of nothing, or a
credited account that is not there yet. -/
def skipsWrite (txn : Transaction) (consensus : ConsensusParams) (s : Store) (addr : Address) : Bool :=
  let unwrittenSender := addr == txn.sender && txn.fee == 0
  let unwrittenPayReceiver := addr != txn.sender && addr == txn.receiver && txn.txnType.is "pay" && txn.amount == 0
  consensus.unfundedSenders && (unwrittenSender || isPayCreditRole txn addr) && balance s addr == 0 &&
    (unwrittenSender || unwrittenPayReceiver || (s.getAccount addr).all (fun a => a == default))

theorem skipsWrite_empty (h : skipsWrite txn consensus s addr = true) : balance s addr = 0 := by
  unfold skipsWrite at h
  simp only [Bool.and_eq_true, beq_iff_eq] at h
  exact h.1.2

theorem skipsWrite_congr (h : s'.getAccount addr = s.getAccount addr) :
    skipsWrite txn consensus s' addr = skipsWrite txn consensus s addr := by
  unfold skipsWrite
  rw [balance_congr h, h]

/-- An empty sender that the pass does not write pays no fee. -/
theorem fee_eq_zero_of_skipsWrite (h : skipsWrite txn consensus s txn.sender = true) : txn.fee = 0 := by
  unfold skipsWrite isPayCreditRole at h
  simp only [Bool.and_eq_true, Bool.or_eq_true, beq_iff_eq, bne_self_eq_false, Bool.and_false, Bool.false_and] at h
  rcases h.1.1.2 with hs | hs
  · exact hs.2
  · cases hs

/-- Record what an account earned under its role. -/
def recordReward (txn : Transaction) (addr : Address) (n : Nat) (out : RewardsPassOutcome) : RewardsPassOutcome :=
  if addr = txn.sender then { out with senderRewards := wrapAdd out.senderRewards n }
  else if addr = txn.receiver then { out with receiverRewards := wrapAdd out.receiverRewards n }
  else if addr = txn.closeRemainderTo then { out with closeRewards := wrapAdd out.closeRewards n }
  else out

/-- What the pass does at an account. -/
structure Claimed (txn : Transaction) (level : Nat) (consensus : ConsensusParams) (s s' : Store) (x : Address) (n : Nat) :
    Prop where
  fits : n < u64Bound
  balance : balance s' x = balance s x + n
  worth : Ledger.balance s' x = worth (s.getOrDefaultAccount x) level
  skipped : skipsWrite txn consensus s x = true → s'.getAccount x = s.getAccount x
  written : skipsWrite txn consensus s x = false → UpToDate (s'.getOrDefaultAccount x) level

theorem Claimed.congr {s₁ s₂ : Store} {n : Nat} (h : Claimed txn level consensus s s' x n)
    (h₁ : s₁.getAccount x = s.getAccount x) (h₂ : s₂.getAccount x = s'.getAccount x) :
    Claimed txn level consensus s₁ s₂ x n := by
  refine ⟨h.fits, ?_, ?_, fun hs => ?_, fun hs => ?_⟩
  · rw [balance_congr h₁, balance_congr h₂, h.balance]
  · rw [balance_congr h₂, getOrDefaultAccount_congr h₁, h.worth]
  · rw [skipsWrite_congr h₁] at hs
    rw [h₁, h₂, h.skipped hs]
  · rw [skipsWrite_congr h₁] at hs
    rw [getOrDefaultAccount_congr h₂]
    exact h.written hs

/-- **One account of the pass.** -/
theorem rewardsPassStep_claims {st st' : Store × RewardsPassOutcome} (hrecord : consensus.rewardsInApplyData = true)
    (h : rewardsPassStep txn level consensus st addr = .ok st') : ∃ n, Claimed txn level consensus st.1 st'.1 addr n ∧
      (∀ x, x ≠ addr → st'.1.getAccount x = st.1.getAccount x) ∧ algos st'.1 = algos st.1 + n ∧
        st'.2 = recordReward txn addr n st.2 := by
  unfold rewardsPassStep at h
  obtain ⟨⟨b, n⟩, hr, h⟩ := Run.bind_eq_ok.1 h
  cases h
  have hr := withRewards_eq_ok hr
  obtain ⟨hadd, hfits, hzero⟩ := applyRewards_adds hr
  obtain ⟨hup, hworth, -⟩ := applyRewards_spec hr
  simp only [hrecord, if_true]
  by_cases hskip : skipsWrite txn consensus st.1 addr = true
  · have hn : n = 0 := hzero.2 (not_earning_of_empty (skipsWrite_empty hskip))
    subst hn
    have hcode := hskip
    unfold skipsWrite balance at hcode
    simp only [Bool.and_eq_true, Bool.or_eq_true] at hcode
    simp only [Bool.and_eq_true, Bool.or_eq_true, beq_self_eq_true, and_true]
    rw [if_pos hcode]
    have hcurrent : Current (st.1.getOrDefaultAccount addr) level := .inl (skipsWrite_empty hskip)
    exact ⟨0, ⟨hfits, rfl, hcurrent.worth_eq.symm, fun _ => rfl, fun hno => absurd hskip (by rw [hno]; decide)⟩,
      fun _ _ => rfl, rfl, rfl⟩
  · have hcode := hskip
    unfold skipsWrite balance at hcode
    simp only [Bool.and_eq_true, Bool.or_eq_true] at hcode
    simp only [Bool.and_eq_true, Bool.or_eq_true]
    rw [if_neg fun hc => hcode ⟨hc.1.1, hc.2⟩]
    refine ⟨n, ⟨hfits, ?_, ?_, fun hs => absurd hs hskip, fun _ => ?_⟩, fun x hx => ?_, ?_, rfl⟩
    · rw [balance_setAccount, if_pos rfl]
      exact hadd
    · rw [balance_setAccount, if_pos rfl, ← hworth, hup.worth_eq]
    · rw [Store.getOrDefaultAccount_setAccount_self]
      exact hup
    · rw [Store.getAccount_setAccount, if_neg hx]
    · have halgos := algos_setAccount st.1 addr b
      have hbalance : balance st.1 addr = (st.1.getOrDefaultAccount addr).microAlgos := rfl
      omega

/-- **The accounts of the pass, one after the other.** -/
theorem foldlM_rewardsPassStep_claims (hrecord : consensus.rewardsInApplyData = true) :
    ∀ {addrs : List Address} {st st' : Store × RewardsPassOutcome}, addrs.Nodup →
      addrs.foldlM (rewardsPassStep txn level consensus) st = .ok st' → ∃ n : Address → Nat,
        (∀ x ∈ addrs, Claimed txn level consensus st.1 st'.1 x (n x)) ∧
        (∀ x ∉ addrs, st'.1.getAccount x = st.1.getAccount x) ∧ algos st'.1 = algos st.1 + (addrs.map n).sum ∧
          st'.2 = addrs.foldl (fun out x => recordReward txn x (n x) out) st.2
  | [], st, st', _, h => by
    cases h
    exact ⟨fun _ => 0, fun _ hx => absurd hx List.not_mem_nil, fun _ _ => rfl, rfl, rfl⟩
  | a :: addrs, st, st', hnodup, h => by
    obtain ⟨ha, hnodup⟩ := List.nodup_cons.1 hnodup
    rw [List.foldlM_cons] at h
    obtain ⟨st₁, h₁, h⟩ := Run.bind_eq_ok.1 h
    obtain ⟨k, hclaim, hother, halgos, hout⟩ := rewardsPassStep_claims hrecord h₁
    obtain ⟨n, hclaims, hrest, halgos', hout'⟩ := foldlM_rewardsPassStep_claims hrecord hnodup h
    have hne : ∀ x ∈ addrs, x ≠ a := fun x hx he => ha (he ▸ hx)
    obtain ⟨n', hself, hn'⟩ : ∃ n' : Address → Nat, n' a = k ∧ ∀ x, x ≠ a → n' x = n x :=
      ⟨fun x => if x = a then k else n x, if_pos rfl, fun x hx => if_neg hx⟩
    have hsame : ∀ x ∈ addrs, n' x = n x := fun x hx => hn' x (hne x hx)
    refine ⟨n', fun x hx => ?_, fun x hx => ?_, ?_, ?_⟩
    · by_cases hxa : x = a
      · rw [hxa, hself]
        exact hclaim.congr rfl (hrest a ha)
      · rw [hn' x hxa]
        exact (hclaims x ((List.mem_cons.1 hx).resolve_left hxa)).congr (hother x hxa).symm rfl
    · rw [List.mem_cons, not_or] at hx
      rw [hrest x hx.2, hother x hx.1]
    · rw [List.map_cons, List.sum_cons, hself, List.map_congr_left hsame, halgos', halgos]
      omega
    · rw [List.foldl_cons, hself, hout', hout]
      refine List.foldl_ext _ _ _ fun out x hx => ?_
      rw [hsame x hx]

/-- The pass leaves the account as it is: it is no participant, or it is not written. -/
def Missed (txn : Transaction) (consensus : ConsensusParams) (s : Store) (x : Address) : Prop :=
  x.isZero = true ∨ skipsWrite txn consensus s x = true

/-- What the pass does to an account that the payment credits, other than the sender. -/
structure Visited (txn : Transaction) (level : Nat) (consensus : ConsensusParams) (s s' : Store) (x : Address) (n : Nat) :
    Prop where
  balance : balance s' x = balance s x + n
  missed : Missed txn consensus s x → s'.getAccount x = s.getAccount x
  current : ¬ Missed txn consensus s x → UpToDate (s'.getOrDefaultAccount x) level

theorem Claimed.visited {n : Nat} (h : Claimed txn level consensus s s' x n) (hx : x.isZero = false) :
    Visited txn level consensus s s' x n := by
  refine ⟨h.balance, fun hm => ?_, fun hm => h.written ?_⟩
  · rcases hm with hm | hm
    · rw [hx] at hm
      cases hm
    · exact h.skipped hm
  · exact Bool.eq_false_iff.2 fun hs => hm (.inr hs)

theorem visited_of_zero (h : s'.getAccount x = s.getAccount x) (hx : x.isZero = true) :
    Visited txn level consensus s s' x 0 :=
  ⟨balance_congr h, fun _ => h, fun hm => absurd (.inl hx) hm⟩

/-- What the pass does for a payment, and what it records. -/
structure RewardsPassed (txn : Transaction) (level : Nat) (consensus : ConsensusParams) (s s' : Store)
  (out : RewardsPassOutcome) :
    Prop where
  algos : algos s' = algos s + (out.senderRewards + out.receiverRewards + out.closeRewards)
  sender : Claimed txn level consensus s s' txn.sender out.senderRewards
  receiver : txn.receiver ≠ txn.sender → Visited txn level consensus s s' txn.receiver out.receiverRewards
  closeTo : txn.closeRemainderTo.isZero = false → txn.closeRemainderTo ≠ txn.sender →
    txn.closeRemainderTo ≠ txn.receiver → Visited txn level consensus s s' txn.closeRemainderTo out.closeRewards

theorem wrapAdd_zero {n : Nat} (h : n < u64Bound) : wrapAdd 0 n = n := by
  unfold wrapAdd
  rw [Nat.zero_add, Nat.mod_eq_of_lt h]

/-- The receiver and the account a payment closes to, as participants of the pass. -/
def otherParticipants (txn : Transaction) : List Address :=
  (if txn.receiver.isZero = false ∧ txn.receiver ≠ txn.sender then [txn.receiver] else []) ++
    if txn.closeRemainderTo.isZero = false ∧ txn.closeRemainderTo ≠ txn.sender ∧ txn.closeRemainderTo ≠ txn.receiver
    then [txn.closeRemainderTo] else []

theorem rewardParticipants_pay (hpay : txn.txnType.is "pay" = true) :
    rewardParticipants txn = txn.sender :: otherParticipants txn := by
  unfold rewardParticipants otherParticipants
  simp only [hpay, if_true, Bool.and_eq_true, Bool.not_eq_true', bne_iff_ne, and_assoc]
  by_cases hr : txn.receiver.isZero = false ∧ txn.receiver ≠ txn.sender
  · by_cases hc : txn.closeRemainderTo.isZero = false ∧ txn.closeRemainderTo ≠ txn.sender ∧
        txn.closeRemainderTo ≠ txn.receiver
    · simp [hr, hc]
    · simp [hr, hc]
  · by_cases hc : txn.closeRemainderTo.isZero = false ∧ txn.closeRemainderTo ≠ txn.sender ∧
        txn.closeRemainderTo ≠ txn.receiver
    · simp [hr, hc]
    · simp [hr, hc]

/-- **The pass records what it pays.** -/
theorem applyRewardsPass_claims {pass : Store × RewardsPassOutcome} (hpay : txn.txnType.is "pay" = true)
    (hrecord : consensus.rewardsInApplyData = true)
    (h : applyRewardsPass txn level consensus s (rewardParticipants txn) = .ok pass) :
    RewardsPassed txn level consensus s pass.1 pass.2 := by
  have hzero : (default : RewardsPassOutcome) = ⟨0, 0, 0⟩ := rfl
  rw [rewardParticipants_pay hpay] at h
  unfold applyRewardsPass otherParticipants at h
  by_cases hr : txn.receiver.isZero = false ∧ txn.receiver ≠ txn.sender
  · rw [if_pos hr] at h
    by_cases hc : txn.closeRemainderTo.isZero = false ∧ txn.closeRemainderTo ≠ txn.sender ∧
        txn.closeRemainderTo ≠ txn.receiver
    · rw [if_pos hc] at h
      obtain ⟨n, hclaims, -, halgos, hout⟩ := foldlM_rewardsPassStep_claims hrecord
        (by simp [hr.2.symm, hc.2.1.symm, hc.2.2.symm]) h
      have hs := hclaims txn.sender (by simp)
      have hr' := hclaims txn.receiver (by simp)
      have hc' := hclaims txn.closeRemainderTo (by simp)
      simp [recordReward, hr.2, hc.2.1, hc.2.2, hzero, wrapAdd_zero hs.fits, wrapAdd_zero hr'.fits,
        wrapAdd_zero hc'.fits] at hout
      rw [hout]
      refine ⟨?_, hs, fun _ => hr'.visited hr.1, fun _ _ _ => hc'.visited hc.1⟩
      simp at halgos
      simp only
      omega
    · rw [if_neg hc] at h
      obtain ⟨n, hclaims, -, halgos, hout⟩ := foldlM_rewardsPassStep_claims hrecord (by simp [hr.2.symm]) h
      have hs := hclaims txn.sender (by simp)
      have hr' := hclaims txn.receiver (by simp)
      simp [recordReward, hr.2, hzero, wrapAdd_zero hs.fits, wrapAdd_zero hr'.fits] at hout
      rw [hout]
      refine ⟨?_, hs, fun _ => hr'.visited hr.1, fun h₁ h₂ h₃ => absurd ⟨h₁, h₂, h₃⟩ hc⟩
      simp at halgos
      simp only
      omega
  · rw [if_neg hr] at h
    have hunseen : txn.receiver ≠ txn.sender → txn.receiver.isZero = true := fun hne =>
      Bool.not_eq_false _ ▸ fun hz => hr ⟨hz, hne⟩
    by_cases hc : txn.closeRemainderTo.isZero = false ∧ txn.closeRemainderTo ≠ txn.sender ∧
        txn.closeRemainderTo ≠ txn.receiver
    · rw [if_pos hc] at h
      obtain ⟨n, hclaims, hrest, halgos, hout⟩ := foldlM_rewardsPassStep_claims hrecord (by simp [hc.2.1.symm]) h
      have hs := hclaims txn.sender (by simp)
      have hc' := hclaims txn.closeRemainderTo (by simp)
      simp [recordReward, hc.2.1, hc.2.2, hzero, wrapAdd_zero hs.fits, wrapAdd_zero hc'.fits] at hout
      rw [hout]
      refine ⟨?_, hs, fun hne => visited_of_zero (hrest _ ?_) (hunseen hne), fun _ _ _ => hc'.visited hc.1⟩
      · simp at halgos
        simp only
        omega
      · simp [hne, hc.2.2.symm]
    · rw [if_neg hc] at h
      obtain ⟨n, hclaims, hrest, halgos, hout⟩ := foldlM_rewardsPassStep_claims hrecord (by simp) h
      have hs := hclaims txn.sender (by simp)
      simp [recordReward, hzero, wrapAdd_zero hs.fits] at hout
      rw [hout]
      refine ⟨?_, hs, fun hne => visited_of_zero (hrest _ ?_) (hunseen hne), fun h₁ h₂ h₃ => absurd ⟨h₁, h₂, h₃⟩ hc⟩
      · simp at halgos
        simp only
        omega
      · simp [hne]

/-! ## Moving Algos -/

/-- No account's claim to rewards changes. -/
def SameTerms (level : Nat) (s s' : Store) : Prop :=
  ∀ x, UpToDate (s'.getOrDefaultAccount x) level ↔ UpToDate (s.getOrDefaultAccount x) level

theorem SameTerms.trans {s₁ : Store} (h : SameTerms level s s₁) (h' : SameTerms level s₁ s') : SameTerms level s s' :=
  fun x => (h' x).trans (h x)

/-- Changing a balance changes no terms. -/
theorem sameTerms_setAccount {d : AccountData} (hb : d.rewardsBase = (s.getOrDefaultAccount addr).rewardsBase)
    (hs : d.status = (s.getOrDefaultAccount addr).status) : SameTerms level s (s.setAccount addr d) := by
  intro x
  unfold UpToDate
  rw [Store.keep_setAccount AccountData.rewardsBase hb, Store.keep_setAccount AccountData.status hs]

theorem applyRekey_moves (level : Nat) (s : Store) (txn : Transaction) : algos (applyRekey s txn) = algos s ∧
    SameTerms level s (applyRekey s txn) ∧ ∀ x, balance (applyRekey s txn) x = balance s x := by
  unfold applyRekey
  split
  · exact ⟨rfl, fun _ => Iff.rfl, fun _ => rfl⟩
  · exact ⟨algos_setAccount_same rfl, sameTerms_setAccount rfl rfl, balance_setAccount_same rfl⟩

/-- What a fee adds to an account. -/
def feeTo (sink : Address) (fee : Nat) (x : Address) : Nat := if x = sink then fee else 0

/-- **A fee moves from the sender to the sink.** -/
theorem applyFee_moves (level : Nat) {ctx : ApplyContext} {sender : Address} {fee : Nat} {c : Cells} {st' : Store × Cells}
    (hfits : balance (feeDebited ctx sender fee s) ctx.feeSink + fee < u64Bound)
    (h : applyFee ctx sender fee (s, c) = .ok st') :
    algos st'.1 = algos s ∧ SameTerms level s st'.1 ∧ fee ≤ balance s sender ∧
      (∀ x, x ≠ sender → balance st'.1 x = balance s x + feeTo ctx.feeSink fee x) ∧
        balance st'.1 sender = balance s sender - fee + feeTo ctx.feeSink fee sender := by
  unfold applyFee at h
  simp only at h
  split at h
  · cases h
  rename_i hfee
  have hfee : fee ≤ balance s sender := Nat.le_of_not_lt hfee
  have hdebit : algos (feeDebited ctx sender fee s) + fee = algos s ∧ SameTerms level s (feeDebited ctx sender fee s) ∧
      ∀ x, balance (feeDebited ctx sender fee s) x = if x = sender then balance s sender - fee else balance s x := by
    unfold feeDebited
    simp only
    split
    · rename_i hskip
      simp only [Bool.and_eq_true, beq_iff_eq] at hskip
      refine ⟨by omega, fun _ => Iff.rfl, fun x => ?_⟩
      split
      · rename_i hx
        rw [hx]
        omega
      · rfl
    · refine ⟨?_, sameTerms_setAccount rfl rfl, fun x => balance_setAccount s sender x _⟩
      have := algos_setAccount s sender { s.getOrDefaultAccount sender with
        microAlgos := (s.getOrDefaultAccount sender).microAlgos - fee }
      unfold balance at this hfee
      simp only at this
      omega
  obtain ⟨halgos, hterms, hbalance⟩ := hdebit
  have hst : st'.1 = (feeDebited ctx sender fee s).setAccount ctx.feeSink
      { (feeDebited ctx sender fee s).getOrDefaultAccount ctx.feeSink with
        microAlgos := wrapAdd (balance (feeDebited ctx sender fee s) ctx.feeSink) fee } := by
    cases h
    rfl
  generalize feeDebited ctx sender fee s = s₁ at *
  have hadd : wrapAdd (balance s₁ ctx.feeSink) fee = balance s₁ ctx.feeSink + fee := Nat.mod_eq_of_lt hfits
  rw [hadd] at hst
  have hsum := algos_setAccount s₁ ctx.feeSink { s₁.getOrDefaultAccount ctx.feeSink with
    microAlgos := balance s₁ ctx.feeSink + fee }
  rw [← hst] at hsum
  simp only at hsum
  have hcredit : ∀ x, balance st'.1 x = balance s₁ x + feeTo ctx.feeSink fee x := by
    intro x
    rw [hst, balance_setAccount]
    unfold feeTo
    split
    · rename_i hx
      rw [hx]
    · rfl
  refine ⟨by omega, hterms.trans (hst ▸ sameTerms_setAccount rfl rfl), hfee, fun x hx => ?_, ?_⟩
  · rw [hcredit, hbalance, if_neg hx]
  · rw [hcredit, hbalance, if_pos rfl]

/-- **Crediting an account claims what it earns.** -/
theorem credit_moves (hfits : CreditFits s addr amount level) (h : credit s addr amount level = .ok s') :
    ∃ n, (n = 0 ↔ ¬ Earning (s.getOrDefaultAccount addr) level) ∧ algos s' = algos s + n + amount ∧
      UpToDate (s'.getOrDefaultAccount addr) level ∧ balance s' addr = balance s addr + n + amount ∧
        ∀ x, x ≠ addr → s'.getAccount x = s.getAccount x := by
  unfold credit at h
  obtain ⟨⟨b, n⟩, hr, h⟩ := Run.bind_eq_ok.1 h
  cases h
  obtain ⟨hadd, -, hzero⟩ := applyRewards_adds (withRewards_eq_ok hr)
  have hup := (applyRewards_spec (withRewards_eq_ok hr)).1
  have hwrap : wrapAdd b.microAlgos amount = b.microAlgos + amount := Nat.mod_eq_of_lt (hfits _ hr)
  simp only [hwrap]
  have hbalance : b.microAlgos = balance s addr + n := hadd
  refine ⟨n, hzero, ?_, ?_, ?_, fun x hx => ?_⟩
  · have := algos_setAccount s addr { b with microAlgos := b.microAlgos + amount }
    simp only at this
    omega
  · rw [Store.getOrDefaultAccount_setAccount_self]
    exact hup
  · rw [balance_setAccount, if_pos rfl, hbalance]
  · rw [Store.getAccount_setAccount, if_neg hx]

/-- What is taken from the sender of a payment. -/
theorem payDebited_moves (level : Nat) (hamount : txn.amount ≤ balance s txn.sender) :
    algos (payDebited s txn) + txn.amount = algos s ∧ SameTerms level s (payDebited s txn) ∧
      (∀ x, x ≠ txn.sender → (payDebited s txn).getAccount x = s.getAccount x) ∧
        balance (payDebited s txn) txn.sender = balance s txn.sender - txn.amount := by
  unfold payDebited
  simp only
  split
  · refine ⟨?_, sameTerms_setAccount rfl rfl, fun x hx => ?_, ?_⟩
    · have := algos_setAccount s txn.sender { s.getOrDefaultAccount txn.sender with
        microAlgos := (s.getOrDefaultAccount txn.sender).microAlgos - txn.amount }
      unfold balance at this hamount
      simp only at this
      omega
    · rw [Store.getAccount_setAccount, if_neg hx]
    · rw [balance_setAccount, if_pos rfl]
      rfl
  · rename_i hskip
    simp only [Bool.or_eq_true, decide_eq_true_eq, not_or] at hskip
    exact ⟨by omega, fun _ => Iff.rfl, fun _ _ => rfl, by omega⟩

/-- What the transfer of a payment claims for its receiver. -/
def transferClaims (s : Store) (txn : Transaction) (level : Nat) : Prop :=
  0 < txn.amount ∧ Earning ((payDebited s txn).getOrDefaultAccount txn.receiver) level

/-- **The transfer of a payment.** -/
theorem payTransfer_moves (hfits : CreditFits (payDebited s txn) txn.receiver txn.amount level)
    (h : payTransfer s txn level = .ok s') : txn.amount ≤ balance s txn.sender ∧ ∃ n,
      (n = 0 ↔ ¬ transferClaims s txn level) ∧ algos s' = algos s + n ∧
      (0 < txn.amount → UpToDate (s'.getOrDefaultAccount txn.receiver) level) ∧
      (∀ x, x ≠ txn.sender → x ≠ txn.receiver ∨ txn.amount = 0 → s'.getAccount x = s.getAccount x) ∧
      (txn.receiver ≠ txn.sender → balance s' txn.receiver = balance s txn.receiver + n + txn.amount) ∧
      balance s' txn.sender =
        balance s txn.sender - txn.amount + if txn.sender = txn.receiver then n + txn.amount else 0 := by
  unfold payTransfer at h
  simp only at h
  split at h
  · split at h
    · cases h
    rename_i hge
    have hamount : txn.amount ≤ balance s txn.sender := Nat.le_of_not_lt hge
    obtain ⟨halgos, hterms, hother, hsender⟩ := payDebited_moves level hamount
    have hdebit : (if (decide (txn.amount > 0) || (s.getAccount txn.sender).isSome) = true then
        s.setAccount txn.sender { s.getOrDefaultAccount txn.sender with
          microAlgos := (s.getOrDefaultAccount txn.sender).microAlgos - txn.amount } else s) = payDebited s txn := rfl
    rw [hdebit] at h
    refine ⟨hamount, ?_⟩
    split at h
    · rename_i hpos
      obtain ⟨n, hzero, halgos', hup, hbalance, hrest⟩ := credit_moves hfits h
      refine ⟨n, ?_, by omega, fun _ => hup, fun x hx hxr => ?_, fun hne => ?_, ?_⟩
      · rw [hzero]
        exact ⟨fun hn hc => hn hc.2, fun hn he => hn ⟨hpos, he⟩⟩
      · rw [hrest x (hxr.resolve_right (by omega)), hother x hx]
      · rw [hbalance, balance_congr (hother _ hne)]
      · by_cases hsr : txn.sender = txn.receiver
        · rw [if_pos hsr]
          rw [← hsr] at hbalance
          omega
        · rw [if_neg hsr, balance_congr (hrest _ hsr), hsender]
          omega
    · rename_i hnpos
      cases h
      have hz : txn.amount = 0 := by omega
      refine ⟨0, ⟨fun _ hc => hnpos hc.1, fun _ => rfl⟩, by omega, fun hp => absurd hp hnpos, fun x hx _ => hother x hx,
        fun hne => ?_, ?_⟩
      · rw [balance_congr (hother _ hne), hz]
        rfl
      · rw [hsender, hz]
        split <;> rfl
  · rename_i hnone
    cases h
    simp only [Bool.or_eq_true, decide_eq_true_eq, not_or] at hnone
    have hz : txn.amount = 0 := by omega
    refine ⟨by omega, 0, ⟨fun _ hc => hnone.1 hc.1, fun _ => rfl⟩, rfl, fun hp => absurd hp hnone.1, fun _ _ _ => rfl,
      fun _ => by omega, ?_⟩
    rw [hz]
    split <;> rfl

/-- What closing the sender's account claims for the account it is closed to. -/
def closeClaims (s : Store) (txn : Transaction) (level : Nat) : Prop :=
  txn.closeRemainderTo.isZero = false ∧ 0 < balance s txn.sender ∧
    Earning ((s.setAccount txn.sender default).getOrDefaultAccount txn.closeRemainderTo) level

/-- **Closing the sender's account.** -/
theorem payClose_moves {r : Store × Nat} (hfits : CreditFits (s.setAccount txn.sender default) txn.closeRemainderTo
      (s.getOrDefaultAccount txn.sender).microAlgos level) (h : payClose s txn level consensus = .ok r) :
    ∃ n, (n = 0 ↔ ¬ closeClaims s txn level) ∧ algos r.1 = algos s + n ∧
      (txn.closeRemainderTo.isZero = true → r.2 = 0) ∧
      (txn.closeRemainderTo.isZero = false → txn.closeRemainderTo ≠ txn.sender →
        balance r.1 txn.closeRemainderTo = balance s txn.closeRemainderTo + n + r.2) ∧
      (txn.closeRemainderTo.isZero = false → txn.closeRemainderTo = txn.sender → balance r.1 txn.sender = n + r.2) := by
  unfold payClose at h
  split at h
  · rename_i hz
    cases h
    refine ⟨0, ⟨fun _ hc => ?_, fun _ => rfl⟩, rfl, fun _ => rfl, fun hnz => ?_, fun hnz => ?_⟩
    · exact absurd (hz.symm.trans hc.1) (by decide)
    · exact absurd (hz.symm.trans hnz) (by decide)
    · exact absurd (hz.symm.trans hnz) (by decide)
  rename_i hz
  have hnz : txn.closeRemainderTo.isZero = false := Bool.eq_false_iff.2 hz
  obtain ⟨_, -, h⟩ := Run.bind_eq_ok.1 h
  simp only at h
  have hreset : algos (s.setAccount txn.sender default) + balance s txn.sender = algos s :=
    algos_setAccount s txn.sender default
  have hne : ∀ x, x ≠ txn.sender → balance (s.setAccount txn.sender default) x = balance s x := fun x hx => by
    rw [balance_setAccount, if_neg hx]
  have hsender : balance (s.setAccount txn.sender default) txn.sender = 0 := by
    rw [balance_setAccount, if_pos rfl]
    rfl
  split at h
  · rename_i hpos
    obtain ⟨s₂, h₂, h⟩ := Run.bind_eq_ok.1 h
    cases h
    obtain ⟨n, hzero, halgos, -, hbalance, -⟩ := credit_moves hfits h₂
    have hrest : balance s txn.sender = (s.getOrDefaultAccount txn.sender).microAlgos := rfl
    simp only
    refine ⟨n, ?_, by omega, fun hzz => absurd hzz hz, fun _ hx => ?_, fun _ hx => ?_⟩
    · rw [hzero]
      exact ⟨fun hn hc => hn hc.2.2, fun hn he => hn ⟨hnz, hpos, he⟩⟩
    · rw [hbalance, hne _ hx]
    · rw [hx, hsender] at hbalance
      rw [hbalance]
      omega
  · rename_i hnpos
    cases h
    have hempty : (s.getOrDefaultAccount txn.sender).microAlgos = 0 := by omega
    have hrest : balance s txn.sender = 0 := hempty
    simp only
    refine ⟨0, ⟨fun _ hc => ?_, fun _ => rfl⟩, by omega, fun hzz => absurd hzz hz, fun _ hx => ?_, fun _ hx => ?_⟩
    · rw [closeClaims, hrest] at hc
      exact Nat.lt_irrefl _ hc.2.1
    · rw [hne _ hx, hempty]
      rfl
    · rw [hsender, hempty]

end Store

/-! ## One payment -/

/-- Crediting the account claims rewards that nobody records: the pass misses it, and it earns on what it has with the
fee. -/
def Loose (ctx : ApplyContext) (txn : Transaction) (s : Store) (x : Address) : Prop :=
  Missed txn ctx.consensus s x ∧ ¬ UpToDate (s.getOrDefaultAccount x) ctx.rewardsLevel ∧
    0 < (balance s x + feeTo ctx.feeSink txn.fee x) / rewardUnits

/-- The transfer claims unrecorded rewards. -/
def LooseTransfer (ctx : ApplyContext) (txn : Transaction) (s : Store) : Prop :=
  0 < txn.amount ∧ txn.receiver ≠ txn.sender ∧ Loose ctx txn s txn.receiver

/-- Closing the sender's account, with something left in it, claims unrecorded rewards. -/
def LooseClose (ctx : ApplyContext) (txn : Transaction) (s : Store) : Prop :=
  txn.closeRemainderTo.isZero = false ∧ txn.closeRemainderTo ≠ txn.sender ∧
    (txn.closeRemainderTo = txn.receiver → txn.amount = 0) ∧
    txn.fee + (if txn.sender = txn.receiver then 0 else txn.amount) <
      worth (s.getOrDefaultAccount txn.sender) ctx.rewardsLevel ∧
    Loose ctx txn s txn.closeRemainderTo

/-- The closing amount is what the account it went to was credited, beside its recorded rewards and what it received as
receiver and as fee sink. -/
def CloseCredited (ctx : ApplyContext) (txn : Transaction) (s s' : Store) (ad : ApplyData) : Prop :=
  if txn.closeRemainderTo.isZero = true then ad.closingAmount = 0
  else if txn.closeRemainderTo = txn.sender then balance s' txn.sender = ad.closingAmount
  else balance s' txn.closeRemainderTo = balance s txn.closeRemainderTo +
    (if txn.closeRemainderTo = txn.receiver then ad.receiverRewards + txn.amount else ad.closeRewards) +
    feeTo ctx.feeSink txn.fee txn.closeRemainderTo + ad.closingAmount

section Payment

variable {ctx : ApplyContext} {txn : Transaction} {s : Store} {pass : Store × RewardsPassOutcome} {st : Store × Cells}
  {c : Cells} {x : Address} {out : RewardsPassOutcome}

/-- The accounts after the rewards of a payment were claimed, its sender rekeyed and its fee taken. -/
structure FeeTaken (ctx : ApplyContext) (txn : Transaction) (s s₁ : Store) (out : RewardsPassOutcome) : Prop where
  algos : algos s₁ = algos s + (out.senderRewards + out.receiverRewards + out.closeRewards)
  sender : balance s₁ txn.sender =
    worth (s.getOrDefaultAccount txn.sender) ctx.rewardsLevel - txn.fee + feeTo ctx.feeSink txn.fee txn.sender
  fee : txn.fee ≤ worth (s.getOrDefaultAccount txn.sender) ctx.rewardsLevel
  current : 0 < balance s₁ txn.sender → UpToDate (s₁.getOrDefaultAccount txn.sender) ctx.rewardsLevel
  receiver : txn.receiver ≠ txn.sender →
    balance s₁ txn.receiver = balance s txn.receiver + out.receiverRewards + feeTo ctx.feeSink txn.fee txn.receiver
  closeTo : txn.closeRemainderTo.isZero = false → txn.closeRemainderTo ≠ txn.sender →
    txn.closeRemainderTo ≠ txn.receiver → balance s₁ txn.closeRemainderTo =
      balance s txn.closeRemainderTo + out.closeRewards + feeTo ctx.feeSink txn.fee txn.closeRemainderTo
  earning : ∀ x, x ≠ txn.sender → x = txn.receiver ∨ x = txn.closeRemainderTo ∧ x.isZero = false →
    (Earning (s₁.getOrDefaultAccount x) ctx.rewardsLevel ↔ Loose ctx txn s x)

theorem RewardsPassed.feeTaken (hpass : RewardsPassed txn ctx.rewardsLevel ctx.consensus s pass.1 pass.2)
    (hfits : balance (feeDebited ctx txn.sender txn.fee (applyRekey pass.1 txn)) ctx.feeSink + txn.fee < u64Bound)
    (h : applyFee ctx txn.sender txn.fee (applyRekey pass.1 txn, c) = .ok st) : FeeTaken ctx txn s st.1 pass.2 := by
  obtain ⟨halgos₀, hterms₀, hbalance₀⟩ := applyRekey_moves ctx.rewardsLevel pass.1 txn
  obtain ⟨halgos, hterms, hfee, hother, hsender⟩ := applyFee_moves ctx.rewardsLevel hfits h
  have hterms := hterms₀.trans hterms
  have hworth := hpass.sender.worth
  rw [hbalance₀] at hfee hsender
  have hx : ∀ x, x ≠ txn.sender → balance st.1 x = balance pass.1 x + feeTo ctx.feeSink txn.fee x := fun x hx => by
    rw [hother x hx, hbalance₀]
  refine ⟨by rw [halgos, halgos₀, hpass.algos], by rw [hsender, hworth], by omega, fun hpos => ?_, fun hne => ?_,
    fun hz hs hr => ?_, fun x hxs hrole => ?_⟩
  · refine (hterms _).2 ?_
    by_cases hskip : skipsWrite txn ctx.consensus s txn.sender = true
    · exfalso
      have hzero := balance_congr (hpass.sender.skipped hskip)
      rw [skipsWrite_empty hskip] at hzero
      have hnofee := fee_eq_zero_of_skipsWrite hskip
      unfold feeTo at hsender
      rw [hzero, hnofee, ite_self] at hsender
      omega
    · exact hpass.sender.written (Bool.eq_false_iff.2 hskip)
  · rw [hx _ hne, (hpass.receiver hne).balance]
  · rw [hx _ hs, (hpass.closeTo hz hs hr).balance]
  · obtain ⟨n, hv⟩ : ∃ n, Visited txn ctx.rewardsLevel ctx.consensus s pass.1 x n := by
      by_cases hr : x = txn.receiver
      · rw [hr] at hxs ⊢
        exact ⟨_, hpass.receiver hxs⟩
      · obtain ⟨rfl, hz⟩ := hrole.resolve_left hr
        exact ⟨_, hpass.closeTo hz hxs hr⟩
    unfold Earning Loose
    rw [hterms x]
    by_cases hm : Missed txn ctx.consensus s x
    · have hsame := hv.missed hm
      have hbalance : (st.1.getOrDefaultAccount x).microAlgos = balance s x + feeTo ctx.feeSink txn.fee x := by
        rw [← balance_congr hsame]
        exact hx x hxs
      rw [getOrDefaultAccount_congr hsame, hbalance]
      exact ⟨fun he => ⟨hm, he⟩, And.right⟩
    · exact ⟨fun he => absurd (hv.current hm) he.1, fun hl => absurd hl.1 hm⟩

/-- The transfer claims what was said to be loose. -/
theorem FeeTaken.transferClaims_iff {s₁ : Store} (h : FeeTaken ctx txn s s₁ out)
    (hamount : txn.amount ≤ balance s₁ txn.sender) :
    transferClaims s₁ txn ctx.rewardsLevel ↔ LooseTransfer ctx txn s := by
  obtain ⟨-, hterms, hother, -⟩ := payDebited_moves ctx.rewardsLevel hamount
  unfold transferClaims LooseTransfer
  refine and_congr_right fun hpos => ?_
  by_cases hne : txn.receiver = txn.sender
  · have hup := (hterms txn.sender).2 (h.current (by omega))
    rw [hne]
    exact ⟨fun he => absurd hup he.1, fun hl => absurd rfl hl.1⟩
  · rw [getOrDefaultAccount_congr (hother _ hne), h.earning _ hne (.inl rfl)]
    exact ⟨fun hl => ⟨hne, hl⟩, And.right⟩

/-- A close that claims unrecorded rewards is to the fee sink. -/
theorem Loose.eq_feeSink (h : Loose ctx txn s x) (hx : x.isZero = false) : x = ctx.feeSink := by
  obtain ⟨hm, -, hpos⟩ := h
  have hempty := skipsWrite_empty (hm.resolve_left (by rw [hx]; decide))
  by_contra hne
  rw [hempty, feeTo, if_neg hne] at hpos
  exact absurd hpos (by decide)

/-- Closing claims what was said to be loose; `s₂` are the accounts after the transfer. -/
theorem FeeTaken.closeClaims_iff {s₁ s₂ : Store} {n : Nat} (h : FeeTaken ctx txn s s₁ out)
    (hamount : txn.amount ≤ balance s₁ txn.sender) (hself : txn.sender = txn.receiver → n = 0)
    (hup₂ : 0 < txn.amount → UpToDate (s₂.getOrDefaultAccount txn.receiver) ctx.rewardsLevel)
    (hother₂ : ∀ x, x ≠ txn.sender → x ≠ txn.receiver ∨ txn.amount = 0 → s₂.getAccount x = s₁.getAccount x)
    (hsender₂ : balance s₂ txn.sender =
      balance s₁ txn.sender - txn.amount + if txn.sender = txn.receiver then n + txn.amount else 0) :
    closeClaims s₂ txn ctx.rewardsLevel ↔ LooseClose ctx txn s := by
  unfold closeClaims LooseClose
  refine and_congr_right fun hz => ?_
  by_cases hne : txn.closeRemainderTo = txn.sender
  · rw [hne, Store.getOrDefaultAccount_setAccount_self]
    exact ⟨fun hc => absurd hc.2 (not_earning_of_empty rfl), fun hl => absurd rfl hl.1⟩
  rw [Store.getOrDefaultAccount_setAccount, if_neg hne]
  by_cases hpaid : txn.closeRemainderTo = txn.receiver ∧ 0 < txn.amount
  · -- the account was credited as receiver just before
    rw [hpaid.1]
    refine ⟨fun hc => absurd (hup₂ hpaid.2) hc.2.1, fun hl => ?_⟩
    have := hl.2.1 rfl
    omega
  · have hsame : s₂.getAccount txn.closeRemainderTo = s₁.getAccount txn.closeRemainderTo := by
      refine hother₂ _ hne ?_
      by_cases hcr : txn.closeRemainderTo = txn.receiver
      · exact .inr (Nat.eq_zero_of_not_pos fun hp => hpaid ⟨hcr, hp⟩)
      · exact .inl hcr
    rw [getOrDefaultAccount_congr hsame, h.earning _ hne (.inr ⟨rfl, hz⟩)]
    have hleft : Loose ctx txn s txn.closeRemainderTo → (0 < balance s₂ txn.sender ↔
        txn.fee + (if txn.sender = txn.receiver then 0 else txn.amount) <
          worth (s.getOrDefaultAccount txn.sender) ctx.rewardsLevel) := by
      intro hl
      have hsink : txn.sender ≠ ctx.feeSink := fun he => hne ((hl.eq_feeSink hz).trans he.symm)
      have hs₁ := h.sender
      rw [feeTo, if_neg hsink, Nat.add_zero] at hs₁
      have hfee := h.fee
      by_cases hsr : txn.sender = txn.receiver
      · rw [if_pos hsr, hself hsr] at hsender₂
        rw [if_pos hsr]
        omega
      · rw [if_neg hsr] at hsender₂ ⊢
        omega
    constructor
    · rintro ⟨hpos, hl⟩
      exact ⟨hne, fun hcr => Nat.eq_zero_of_not_pos fun hp => hpaid ⟨hcr, hp⟩, (hleft hl).1 hpos, hl⟩
    · rintro ⟨-, -, hpos, hl⟩
      exact ⟨(hleft hl).2 hpos, hl⟩

/-- The whole of a payment: what it moves, and when it claims rewards that are not recorded. -/
theorem FeeTaken.pay {s₁ : Store} {r : Store × Nat} (h : FeeTaken ctx txn s s₁ out)
    (hfits : CreditFits (payDebited s₁ txn) txn.receiver txn.amount ctx.rewardsLevel)
    (hclose : ∀ s₂, payTransfer s₁ txn ctx.rewardsLevel = .ok s₂ → CreditFits (s₂.setAccount txn.sender default)
      txn.closeRemainderTo (s₂.getOrDefaultAccount txn.sender).microAlgos ctx.rewardsLevel)
    (hr : applyPay s₁ txn ctx.rewardsLevel ctx.consensus = .ok r) : ∃ n m,
      (n = 0 ↔ ¬ LooseTransfer ctx txn s) ∧ (m = 0 ↔ ¬ LooseClose ctx txn s) ∧
      Ledger.algos r.1 = Ledger.algos s + (out.senderRewards + out.receiverRewards + out.closeRewards) + n + m ∧
      (n = 0 → m = 0 → ∀ ad : ApplyData, ad.receiverRewards = out.receiverRewards → ad.closeRewards = out.closeRewards →
        ad.closingAmount = r.2 → CloseCredited ctx txn s r.1 ad) := by
  obtain ⟨s₂, h₂, hr⟩ := Run.bind_eq_ok.1 hr
  obtain ⟨hamount, n, hn, halgos₂, hup₂, hother₂, hreceiver₂, hsender₂⟩ := payTransfer_moves hfits h₂
  obtain ⟨m, hm, halgos₃, hnone, hcredited, hself⟩ := payClose_moves (hclose s₂ h₂) hr
  have hclaims := h.transferClaims_iff hamount
  rw [hclaims] at hn
  have hloose := h.closeClaims_iff hamount (fun hsr => hn.2 fun hl => hl.2.1 hsr.symm) hup₂ hother₂ hsender₂
  rw [hloose] at hm
  refine ⟨n, m, hn, hm, ?_, ?_⟩
  · have := h.algos
    omega
  · intro hn0 hm0 ad hrr hcr hclosing
    unfold CloseCredited
    rw [hclosing, hrr, hcr]
    by_cases hz : txn.closeRemainderTo.isZero = true
    · rw [if_pos hz]
      exact hnone hz
    rw [if_neg hz]
    have hz := Bool.eq_false_iff.2 hz
    by_cases hne : txn.closeRemainderTo = txn.sender
    · rw [if_pos hne, hself hz hne, hm0, Nat.zero_add]
    rw [if_neg hne, hcredited hz hne, hm0]
    by_cases hreceiver : txn.closeRemainderTo = txn.receiver
    · rw [hreceiver] at hne
      have hb := h.receiver hne
      have hb' := hreceiver₂ hne
      rw [if_pos hreceiver, hreceiver]
      omega
    · have hsame := balance_congr (hother₂ _ hne (.inl hreceiver))
      have hb := h.closeTo hz hne hreceiver
      rw [if_neg hreceiver]
      omega

/-- No balance changes. -/
def SameBalances (s s' : Store) : Prop := algos s' = algos s ∧ ∀ x, balance s' x = balance s x

theorem SameBalances.trans {s s₁ s₂ : Store} (h : SameBalances s s₁) (h' : SameBalances s₁ s₂) : SameBalances s s₂ :=
  ⟨h'.1.trans h.1, fun x => (h'.2 x).trans (h.2 x)⟩

theorem finishTransaction_sameBalances {ext : Externals} {depth : Nat} {addrs : List Address} {st st' : Store × Cells}
    {ad ad' : ApplyData} (h : finishTransaction ext ctx depth txn addrs st ad = .ok (st', ad')) :
    SameBalances st.1 st'.1 ∧ ad' = ad :=
  finishTransaction_keeps (P := SameBalances st.1) (fun _ _ hs => hs)
    (fun _ _ _ hs => hs.trans ⟨algos_setAccount_same rfl, balance_setAccount_same rfl⟩) h ⟨rfl, fun _ => rfl⟩

/-- The steps of a payment that succeeds. -/
theorem applyTransaction_pay {ext : Externals} {depth : Nat} {stx : SignedTransaction} {st st' : Store × Cells}
    {ad : ApplyData} (hpay : stx.txn.txnType.is "pay" = true)
    (h : applyTransaction ext ctx depth st stx = .ok (st', ad)) : ∃ pass st₁ r st₂,
      applyRewardsPass stx.txn ctx.rewardsLevel ctx.consensus st.1 (rewardParticipants stx.txn) = .ok pass ∧
      applyFee ctx stx.txn.sender stx.txn.fee (applyRekey pass.1 stx.txn, st.2) = .ok st₁ ∧
      applyPay st₁.1 stx.txn ctx.rewardsLevel ctx.consensus = .ok r ∧
      applyRecordedDelta ext ctx depth stx (r.1, st₁.2) = .ok st₂ ∧ SameBalances st₂.1 st'.1 ∧
      ad.senderRewards = pass.2.senderRewards ∧ ad.receiverRewards = pass.2.receiverRewards ∧
      ad.closeRewards = pass.2.closeRewards ∧ ad.closingAmount = r.2 := by
  have hstpf : stx.txn.txnType.is "stpf" = false :=
    Bool.eq_false_iff.2 fun hn => absurd (TxnType.is_eq hn hpay) (by decide)
  unfold applyTransaction at h
  simp only [hstpf, Bool.false_eq_true, if_false] at h
  obtain ⟨pass, hpass, h⟩ := Run.bind_eq_ok.1 h
  obtain ⟨⟨st₂, ad₂⟩, htype, h⟩ := Run.bind_eq_ok.1 h
  obtain ⟨st₃, hdelta, h⟩ := Run.bind_eq_ok.1 h
  unfold applyByType at htype
  simp only [hpay, if_true] at htype
  obtain ⟨st₁, hfee, htype⟩ := Run.bind_eq_ok.1 htype
  obtain ⟨r, hr, htype⟩ := Run.bind_eq_ok.1 htype
  obtain ⟨_, -, htype⟩ := Run.bind_eq_ok.1 htype
  cases htype
  obtain ⟨hsame, hresult⟩ := finishTransaction_sameBalances h
  refine ⟨pass, st₁, r, st₃, hpass, hfee, hr, hdelta, hsame, ?_⟩
  rw [hresult]
  by_cases hmode : ctx.mode = .replay
  · rw [if_pos hmode]
    exact ⟨rfl, rfl, rfl, rfl⟩
  · rw [if_neg hmode]
    exact ⟨rfl, rfl, rfl, rfl⟩

end Payment

/-- **A payment records the rewards it pays** exactly where neither the account it credits nor the one it closes to is
one that the rewards pass missed and that earns something.  The additions of the payment do not wrap; a recorded delta of
a program, which a payment does not have, moves no Algos. -/
theorem applyTransaction_records_rewards (ext : Externals) (ctx : ApplyContext) (depth : Nat) (st st' : Store × Cells)
    (stx : SignedTransaction) (ad : ApplyData) (hpay : stx.txn.txnType.is "pay" = true)
    (hrecord : ctx.consensus.rewardsInApplyData = true) (hfits : NoOverflow ctx stx.txn st)
    (hdelta : ∀ st₁ st₂, stx.evalDelta ≠ none → applyRecordedDelta ext ctx depth stx st₁ = .ok st₂ →
      SameBalances st₁.1 st₂.1)
    (h : applyTransaction ext ctx depth st stx = .ok (st', ad)) :
    (algos st'.1 = algos st.1 + (ad.senderRewards + ad.receiverRewards + ad.closeRewards) ∧
      CloseCredited ctx stx.txn st.1 st'.1 ad) ↔
    ¬ LooseTransfer ctx stx.txn st.1 ∧ ¬ LooseClose ctx stx.txn st.1 := by
  obtain ⟨pass, st₁, r, st₂, hpass, hfee, hr, hrec, hsame, hsr, hrr, hcr, hclosing⟩ := applyTransaction_pay hpay h
  obtain ⟨hsink, hcredits⟩ := hfits pass hpass
  obtain ⟨hreceiver, hclose⟩ := hcredits hpay st₁ hfee
  have htaken := (applyRewardsPass_claims hpay hrecord hpass).feeTaken hsink hfee
  obtain ⟨n, m, hn, hm, halgos, hcredited⟩ := htaken.pay hreceiver hclose hr
  have hrest : SameBalances r.1 st'.1 := by
    refine SameBalances.trans ?_ hsame
    cases hnone : stx.evalDelta with
    | none =>
      unfold applyRecordedDelta at hrec
      rw [hnone] at hrec
      split at hrec
      · cases hrec
        exact ⟨rfl, fun _ => rfl⟩
      · cases hrec
        exact ⟨rfl, fun _ => rfl⟩
    | some dt => exact hdelta _ st₂ (by rw [hnone]; nofun) hrec
  rw [← hn, ← hm, hrest.1, hsr, hrr, hcr, halgos]
  constructor
  · rintro ⟨hsum, -⟩
    exact ⟨by omega, by omega⟩
  · rintro ⟨hn0, hm0⟩
    refine ⟨by omega, ?_⟩
    have := hcredited hn0 hm0 ad hrr hcr hclosing
    unfold CloseCredited at this ⊢
    rw [hrest.2, hrest.2]
    exact this

def recordingContext : ApplyContext :=
  { closingContext with consensus := { (default : ConsensusParams) with rewardsInApplyData := true } }

/-- A payment of account 1 to itself that closes it to account 2. -/
theorem applyTransaction_records_rewards_closingPayment : ∃ st' ad,
    applyTransaction noExternals recordingContext 0 (unclaimedStore, default) closingPayment = .ok (st', ad) ∧
      algos st'.1 = algos unclaimedStore + (ad.senderRewards + ad.receiverRewards + ad.closeRewards) ∧
        CloseCredited recordingContext closingPayment.txn unclaimedStore st'.1 ad := by
  obtain ⟨⟨st', ad⟩, h, -⟩ := @Run.ok_of_any _ _
    (applyTransaction noExternals recordingContext 0 (unclaimedStore, default) closingPayment) (fun _ => true)
    (by decide)
  have hbal : Balanced 10 6100056 unclaimedStore := (totalBalance_eq_some (by decide)).1 (by decide)
  have hfits := applyTransaction_noOverflow (by decide) hbal (by decide) (by decide) h
  refine ⟨st', ad, h, (applyTransaction_records_rewards noExternals recordingContext 0 (unclaimedStore, default) st'
    closingPayment ad rfl rfl hfits (fun _ _ hsome => absurd rfl hsome) h).2 ⟨?_, ?_⟩⟩
  · rintro ⟨-, hne, -⟩
    exact hne rfl
  · rintro ⟨-, -, -, -, hm, -⟩
    rcases hm with hm | hm
    · exact absurd hm (by decide)
    · exact absurd hm (by decide)

/-- Account 1 pays the zero address, which holds five Algos and has not claimed any rewards. -/
def burningStore : Store :=
  { (default : Store) with
    accounts := (((∅ : FinMap Address AccountData).insert ⟨1⟩
        { (default : AccountData) with microAlgos := 9000000, rewardsBase := 10 }).insert
      ⟨0⟩ { (default : AccountData) with microAlgos := 5000000 }).insert
      ⟨3⟩ { (default : AccountData) with microAlgos := 100000, status := .notParticipating }
    feeSink := ⟨3⟩
    rewardsPool := ⟨4⟩ }

def burningPayment : SignedTransaction :=
  { (default : SignedTransaction) with
    txn := { (default : Transaction) with txnType := .pay, sender := ⟨1⟩, receiver := ⟨0⟩, amount := 5, fee := 1000 } }

/-- The zero address earns 50, and nothing is recorded. -/
theorem applyTransaction_zeroAddress_unrecorded : ∃ st' ad,
    applyTransaction noExternals recordingContext 0 (burningStore, default) burningPayment = .ok (st', ad) ∧
      algos st'.1 = algos burningStore + 50 ∧ ad.senderRewards + ad.receiverRewards + ad.closeRewards = 0 := by
  obtain ⟨⟨st', ad⟩, h, hp⟩ := @Run.ok_of_any _ _
    (applyTransaction noExternals recordingContext 0 (burningStore, default) burningPayment)
    (fun r => decide (algos r.1.1 = algos burningStore + 50 ∧
      r.2.senderRewards + r.2.receiverRewards + r.2.closeRewards = 0)) (by decide)
  exact ⟨st', ad, h, of_decide_eq_true hp⟩

end Ledger
end Algod
