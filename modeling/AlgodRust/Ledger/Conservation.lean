import AlgodRust.Ledger.ApplyFrame
/-!
# Conservation — no transaction makes or loses Algos

The worth of an account is its balance with the rewards it has not claimed.  Claiming rewards keeps it; a balance may be
changed only where nothing is pending (`Current`), and then worth and balance change together.  Every transaction that is
not an application call conserves the total worth of the accounts (`applyTransaction_conserves`).  Units of an asset are
added without a check: there a sum can overflow.
-/
namespace Algod
namespace Ledger

/-! ## Worth -/

/-- The balance of an account with its pending rewards, as a number without bound. -/
def worth (a : AccountData) (level : Nat) : Nat :=
  a.microAlgos + if a.status = .notParticipating ∨ a.microAlgos = 0 then 0
    else (level - a.rewardsBase) * (a.microAlgos / rewardUnits)

/-- The account earns nothing, or its base is not above the level. -/
def Settleable (a : AccountData) (level : Nat) : Prop :=
  a.status = .notParticipating ∨ a.microAlgos = 0 ∨ a.rewardsBase ≤ level

/-- Nothing is pending, whatever the balance becomes. -/
def UpToDate (a : AccountData) (level : Nat) : Prop := a.status = .notParticipating ∨ a.rewardsBase = level

/-- Nothing is pending: the account is empty or up to date. -/
def Current (a : AccountData) (level : Nat) : Prop := a.microAlgos = 0 ∨ UpToDate a level

section Account

variable {a b : AccountData} {level : Nat}

@[simp] theorem worth_default (level : Nat) : worth default level = 0 := rfl

theorem UpToDate.worth_eq (h : UpToDate a level) : worth a level = a.microAlgos := by
  unfold worth
  rcases h with h | h
  · simp [h]
  · simp [h]

theorem Current.worth_eq (h : Current a level) : worth a level = a.microAlgos := by
  rcases h with h | h
  · simp [worth, h]
  · exact h.worth_eq

theorem Current.settleable (h : Current a level) : Settleable a level := by
  rcases h with h | h | h
  · exact .inr (.inl h)
  · exact .inl h
  · exact .inr (.inr (Nat.le_of_eq h))

/-- The rewards that the code computes for an account are those its worth counts. -/
theorem computePendingRewards_eq_some {n : Nat} (h : computePendingRewards a level = some n) :
    Settleable a level ∧ a.microAlgos + n = worth a level := by
  unfold computePendingRewards at h
  unfold worth Settleable
  by_cases hz : a.status = .notParticipating ∨ a.microAlgos = 0
  · rw [if_pos hz] at h ⊢
    cases h
    exact ⟨by tauto, rfl⟩
  · rw [if_neg hz] at h ⊢
    split at h
    · cases h
    rename_i hbase
    simp only at h
    split at h
    · cases h
      exact ⟨.inr (.inr (Nat.le_of_not_lt hbase)), rfl⟩
    · cases h

/-- **The balance the code computes** is the worth, where that is a 64-bit number. -/
theorem balanceWithRewards_eq_some {n : Nat} :
    balanceWithRewards a level = some n ↔ Settleable a level ∧ worth a level = n ∧ n < u64Bound := by
  unfold balanceWithRewards
  constructor
  · intro h
    obtain ⟨pending, hpending, h⟩ := Option.bind_eq_some_iff.1 h
    obtain ⟨hset, hworth⟩ := computePendingRewards_eq_some hpending
    split at h
    · rename_i hlt
      cases h
      exact ⟨hset, hworth.symm, hlt⟩
    · cases h
  · rintro ⟨hset, rfl, hlt⟩
    have hpending : ∃ pending, computePendingRewards a level = some pending := by
      unfold computePendingRewards
      by_cases hz : a.status = .notParticipating ∨ a.microAlgos = 0
      · exact ⟨0, if_pos hz⟩
      · have hbase : ¬ level < a.rewardsBase := by
          rcases hset with h | h | h
          · exact absurd (.inl h) hz
          · exact absurd (.inr h) hz
          · exact Nat.not_lt.2 h
        unfold worth at hlt
        rw [if_neg hz] at hlt
        rw [if_neg hz, if_neg hbase]
        simp only
        rw [if_pos (by omega)]
        exact ⟨_, rfl⟩
    obtain ⟨pending, hp⟩ := hpending
    have hworth := (computePendingRewards_eq_some hp).2
    rw [hp, Option.bind_eq_bind, Option.bind_some, hworth, if_pos hlt]

/-- Claiming rewards keeps the worth and leaves nothing pending. -/
theorem applyRewards_spec {n : Nat} (h : applyRewards a level = some (b, n)) :
    UpToDate b level ∧ worth b level = worth a level ∧ b.status = a.status ∧ (a.microAlgos = 0 → n = 0) := by
  unfold applyRewards at h
  split at h
  · rename_i hnp
    cases h
    exact ⟨.inl hnp, rfl, rfl, fun _ => rfl⟩
  split at h
  · rename_i hbase
    cases h
    exact ⟨.inr hbase, rfl, rfl, fun _ => rfl⟩
  obtain ⟨pending, hpending, h⟩ := Option.bind_eq_some_iff.1 h
  obtain ⟨-, hworth⟩ := computePendingRewards_eq_some hpending
  have hzero : a.microAlgos = 0 → pending = 0 := by
    intro hz
    simp [computePendingRewards, hz] at hpending
    exact hpending.symm
  split at h
  · split at h
    · cases h
      refine ⟨.inr rfl, ?_, rfl, hzero⟩
      rw [UpToDate.worth_eq (.inr rfl)]
      exact hworth
    · cases h
  · cases h
    refine ⟨.inr rfl, ?_, rfl, hzero⟩
    rw [UpToDate.worth_eq (.inr rfl)]
    show a.microAlgos = worth a level
    omega

theorem withRewards_eq_ok {r : AccountData × Nat} (h : withRewards a level = .ok r) : applyRewards a level = some r := by
  unfold withRewards at h
  split at h
  · cases h
  · rename_i hr
    cases h
    exact hr

end Account

/-! ## Stores -/

/-- The sum over all accounts of the balance with rewards; `none` where one of them has no such balance. -/
def totalBalance (s : Store) (level : Nat) : Option Nat :=
  ((FinMap.values s.accounts).mapM (fun a => balanceWithRewards a level)).map List.sum

def totalWorth (s : Store) (level : Nat) : Nat := FinMap.total (fun _ a => worth a level) s.accounts

/-- Every account can claim its rewards, and the accounts are worth `total` together. -/
structure Balanced (level total : Nat) (s : Store) : Prop where
  settleable : ∀ addr a, s.getAccount addr = some a → Settleable a level
  worth_eq : totalWorth s level = total

section Store

variable {level total : Nat} {s s' : Store}

theorem mapM_balance_eq_some {level : Nat} :
    ∀ {as : List AccountData} {ns : List Nat}, as.mapM (fun a => balanceWithRewards a level) = some ns →
      (∀ a ∈ as, Settleable a level) ∧ (as.map (fun a => worth a level)).sum = ns.sum
  | [], ns, h => by
    cases h
    exact ⟨fun _ ha => absurd ha List.not_mem_nil, rfl⟩
  | a :: as, ns, h => by
    rw [List.mapM_cons] at h
    obtain ⟨n, hn, h⟩ := Option.bind_eq_some_iff.1 h
    obtain ⟨ns', hns, h⟩ := Option.bind_eq_some_iff.1 h
    cases h
    obtain ⟨hset, hworth, -⟩ := balanceWithRewards_eq_some.1 hn
    obtain ⟨hall, hsum⟩ := mapM_balance_eq_some hns
    refine ⟨fun b hb => ?_, ?_⟩
    · rcases List.mem_cons.1 hb with rfl | hb
      · exact hset
      · exact hall b hb
    · rw [List.map_cons, List.sum_cons, List.sum_cons, hworth, hsum]

theorem mapM_balance_of_settleable {level : Nat} :
    ∀ {as : List AccountData}, (∀ a ∈ as, Settleable a level) → (as.map (fun a => worth a level)).sum < u64Bound →
      as.mapM (fun a => balanceWithRewards a level) = some (as.map (fun a => worth a level))
  | [], _, _ => rfl
  | a :: as, hall, hsum => by
    rw [List.map_cons, List.sum_cons] at hsum
    have ha : balanceWithRewards a level = some (worth a level) :=
      balanceWithRewards_eq_some.2 ⟨hall a List.mem_cons_self, rfl, by omega⟩
    have has := mapM_balance_of_settleable (fun b hb => hall b (List.mem_cons_of_mem _ hb))
      (show (as.map (fun a => worth a level)).sum < u64Bound by omega)
    rw [List.mapM_cons, ha, has]
    rfl

theorem totalWorth_eq_sum (s : Store) (level : Nat) :
    totalWorth s level = ((FinMap.values s.accounts).map (fun a => worth a level)).sum := by
  unfold totalWorth FinMap.total FinMap.values
  rw [List.map_map]
  rfl

/-- **The total the code computes**, below 2^64, is the total worth. -/
theorem totalBalance_eq_some (hlt : total < u64Bound) :
    totalBalance s level = some total ↔ Balanced level total s := by
  unfold totalBalance
  constructor
  · intro h
    obtain ⟨ns, hns, hsum⟩ := Option.map_eq_some_iff.1 h
    obtain ⟨hall, hworth⟩ := mapM_balance_eq_some hns
    refine ⟨fun addr a ha => hall a (FinMap.mem_values.2 ⟨addr, ha⟩), ?_⟩
    rw [totalWorth_eq_sum, hworth, hsum]
  · intro h
    have hall : ∀ a ∈ FinMap.values s.accounts, Settleable a level := by
      intro a ha
      obtain ⟨addr, haddr⟩ := FinMap.mem_values.1 ha
      exact h.settleable addr a haddr
    have hsum := h.worth_eq
    rw [totalWorth_eq_sum] at hsum
    rw [mapM_balance_of_settleable hall (by omega), Option.map_some, hsum]

theorem totalWorth_setAccount (s : Store) (addr : Address) (d : AccountData) (level : Nat) :
    totalWorth (s.setAccount addr d) level + worth (s.getOrDefaultAccount addr) level =
      totalWorth s level + worth d level := by
  have hold : worth (s.getOrDefaultAccount addr) level =
      (s.accounts.lookup addr).elim 0 (fun a => worth a level) := by
    unfold Store.getOrDefaultAccount Store.getAccount
    cases s.accounts.lookup addr <;> rfl
  rw [hold]
  exact FinMap.total_insert (fun _ a => worth a level) s.accounts addr d

theorem Balanced.settleable_getD (h : Balanced level total s) (addr : Address) :
    Settleable (s.getOrDefaultAccount addr) level := by
  unfold Store.getOrDefaultAccount
  cases ha : s.getAccount addr with
  | none => exact .inr (.inl rfl)
  | some a => exact h.settleable addr a ha

theorem Balanced.worth_le (h : Balanced level total s) (addr : Address) :
    worth (s.getOrDefaultAccount addr) level ≤ total := by
  have := totalWorth_setAccount s addr default level
  rw [worth_default, h.worth_eq] at this
  omega

/-- Writing an account moves the total by as much as the account's worth. -/
theorem Balanced.setAccount (h : Balanced level total s) {addr : Address} {d : AccountData}
    (hset : Settleable d level) {total' : Nat}
    (hworth : total' + worth (s.getOrDefaultAccount addr) level = total + worth d level) :
    Balanced level total' (s.setAccount addr d) := by
  constructor
  · intro b a hb
    rw [Store.getAccount_setAccount] at hb
    split at hb
    · cases hb
      exact hset
    · exact h.settleable b a hb
  · have := totalWorth_setAccount s addr d level
    rw [h.worth_eq] at this
    omega

/-- Writing an account of the same worth keeps the total. -/
theorem Balanced.setAccount_same (h : Balanced level total s) {addr : Address} {d : AccountData}
    (hset : Settleable d level) (hworth : worth d level = worth (s.getOrDefaultAccount addr) level) :
    Balanced level total (s.setAccount addr d) :=
  h.setAccount hset (by rw [hworth])

/-- What the total depends on. -/
theorem Balanced.of_accounts (h : Balanced level total s) (heq : s'.accounts = s.accounts) : Balanced level total s' := by
  constructor
  · intro addr a ha
    unfold Store.getAccount at ha
    rw [heq] at ha
    exact h.settleable addr a ha
  · unfold totalWorth
    rw [heq]
    exact h.worth_eq

/-- Every account but one is as it was, and that one differs in fields that its worth does not depend on. -/
theorem Balanced.setAccount_fields (h : Balanced level total s) {addr : Address} {d : AccountData}
    (hm : d.microAlgos = (s.getOrDefaultAccount addr).microAlgos)
    (hb : d.rewardsBase = (s.getOrDefaultAccount addr).rewardsBase)
    (hs : d.status = (s.getOrDefaultAccount addr).status) : Balanced level total (s.setAccount addr d) := by
  apply h.setAccount_same
  · have := h.settleable_getD addr
    unfold Settleable at this ⊢
    rw [hm, hb, hs]
    exact this
  · unfold worth
    rw [hm, hb, hs]

end Store

/-! ## Rewards and fees -/

/-- What a step of a transaction keeps besides the total: who participates, and whose rewards are claimed. -/
structure Keeps (level : Nat) (s s' : Store) : Prop where
  status : ∀ addr, (s'.getOrDefaultAccount addr).status = (s.getOrDefaultAccount addr).status
  current : ∀ addr, Current (s.getOrDefaultAccount addr) level → Current (s'.getOrDefaultAccount addr) level

section Steps

variable {level total : Nat} {s s' : Store} {addr : Address} {d : AccountData}

theorem Keeps.refl (level : Nat) (s : Store) : Keeps level s s := ⟨fun _ => rfl, fun _ h => h⟩

theorem Keeps.trans {s₁ : Store} (h : Keeps level s s₁) (h' : Keeps level s₁ s') : Keeps level s s' :=
  ⟨fun addr => (h'.status addr).trans (h.status addr), fun addr hc => h'.current addr (h.current addr hc)⟩

theorem Keeps.setAccount (hs : d.status = (s.getOrDefaultAccount addr).status)
    (hc : Current (s.getOrDefaultAccount addr) level → Current d level) : Keeps level s (s.setAccount addr d) := by
  constructor
  · exact Store.keep_setAccount AccountData.status hs
  · intro b hb
    rw [Store.getOrDefaultAccount_setAccount]
    split
    · rename_i heq
      rw [heq] at hb
      exact hc hb
    · exact hb

theorem Current.of_fields {a b : AccountData} (h : Current a level) (hm : b.microAlgos = a.microAlgos)
    (hb : b.rewardsBase = a.rewardsBase) (hs : b.status = a.status) : Current b level := by
  unfold Current UpToDate at h ⊢
  rw [hm, hb, hs]
  exact h

/-- A current account may be debited. -/
theorem Current.debit {a : AccountData} (h : Current a level) (n : Nat) :
    Current { a with microAlgos := a.microAlgos - n } level := by
  rcases h with h | h
  · exact .inl (by simp [h])
  · exact .inr h

/-- An up-to-date account may be credited. -/
theorem Balanced.add (hbal : Balanced level total s) (hup : UpToDate d level)
    (hworth : worth d level = worth (s.getOrDefaultAccount addr) level) (n : Nat) :
    Balanced level (total + n) (s.setAccount addr { d with microAlgos := d.microAlgos + n }) := by
  have hup' : UpToDate { d with microAlgos := d.microAlgos + n } level := hup
  apply hbal.setAccount (Current.settleable (.inr hup'))
  rw [← hworth, hup.worth_eq, hup'.worth_eq]
  simp only
  omega

theorem rewardsPassStep_spec {txn : Transaction} {consensus : ConsensusParams} {st st' : Store × RewardsPassOutcome}
    (hbal : Balanced level total st.1) (h : rewardsPassStep txn level consensus st addr = .ok st') :
    Balanced level total st'.1 ∧ Keeps level st.1 st'.1 ∧ Current (st'.1.getOrDefaultAccount addr) level := by
  unfold rewardsPassStep at h
  obtain ⟨r, hr, h⟩ := Run.bind_eq_ok.1 h
  cases h
  obtain ⟨hup, hworth, hstatus, -⟩ := applyRewards_spec (withRewards_eq_ok hr)
  simp only
  split
  · -- the account is empty and not written
    rename_i hskip
    simp only [Bool.and_eq_true, beq_iff_eq] at hskip
    exact ⟨hbal, Keeps.refl level _, .inl hskip.1.1.2⟩
  · refine ⟨hbal.setAccount_same (Current.settleable (.inr hup)) hworth, Keeps.setAccount hstatus fun _ => .inr hup, ?_⟩
    rw [Store.getOrDefaultAccount_setAccount_self]
    exact .inr hup

/-- The pass keeps the total and leaves nothing pending for the accounts it visits. -/
theorem foldlM_rewardsPassStep_spec {txn : Transaction} {consensus : ConsensusParams} :
    ∀ {addrs : List Address} {st st' : Store × RewardsPassOutcome}, Balanced level total st.1 →
      addrs.foldlM (rewardsPassStep txn level consensus) st = .ok st' →
      Balanced level total st'.1 ∧ Keeps level st.1 st'.1 ∧
        ∀ addr ∈ addrs, Current (st'.1.getOrDefaultAccount addr) level
  | [], st, st', hbal, h => by
    cases h
    exact ⟨hbal, Keeps.refl level _, fun _ ha => absurd ha List.not_mem_nil⟩
  | a :: addrs, st, st', hbal, h => by
    rw [List.foldlM_cons] at h
    obtain ⟨st₁, h₁, h⟩ := Run.bind_eq_ok.1 h
    obtain ⟨hbal₁, hkeep₁, hcur₁⟩ := rewardsPassStep_spec hbal h₁
    obtain ⟨hbal', hkeep', hcur'⟩ := foldlM_rewardsPassStep_spec hbal₁ h
    refine ⟨hbal', hkeep₁.trans hkeep', fun addr ha => ?_⟩
    rcases List.mem_cons.1 ha with rfl | ha
    · exact hkeep'.current _ hcur₁
    · exact hcur' addr ha

theorem sender_mem_rewardParticipants (txn : Transaction) : txn.sender ∈ rewardParticipants txn := by
  unfold rewardParticipants
  simp only
  split
  · split <;> split <;> simp
  · simp

theorem applyRekey_spec (txn : Transaction) (hbal : Balanced level total s) :
    Balanced level total (applyRekey s txn) ∧ Keeps level s (applyRekey s txn) := by
  unfold applyRekey
  split
  · exact ⟨hbal, Keeps.refl level s⟩
  · exact ⟨hbal.setAccount_fields rfl rfl rfl, Keeps.setAccount rfl fun h => h.of_fields rfl rfl rfl⟩

/-- The store after the fee was taken from the sender and before it is given to the sink. -/
def feeDebited (ctx : ApplyContext) (sender : Address) (fee : Nat) (s : Store) : Store :=
  let before := s.getOrDefaultAccount sender
  if ctx.consensus.unfundedSenders && fee == 0 && before.microAlgos == 0 then s
  else s.setAccount sender { before with microAlgos := before.microAlgos - fee }

theorem feeDebited_spec (ctx : ApplyContext) {sender : Address} {fee : Nat} (hbal : Balanced level total s)
    (hcur : Current (s.getOrDefaultAccount sender) level) (hfee : fee ≤ (s.getOrDefaultAccount sender).microAlgos) :
    Balanced level (total - fee) (feeDebited ctx sender fee s) ∧ Keeps level s (feeDebited ctx sender fee s) := by
  unfold feeDebited
  simp only
  split
  · rename_i hskip
    simp only [Bool.and_eq_true, beq_iff_eq] at hskip
    rw [hskip.1.2, Nat.sub_zero]
    exact ⟨hbal, Keeps.refl level s⟩
  · have hdebit := hcur.debit fee
    refine ⟨hbal.setAccount hdebit.settleable ?_, Keeps.setAccount rfl fun _ => hdebit⟩
    have hle := hbal.worth_le sender
    rw [hdebit.worth_eq, hcur.worth_eq]
    rw [hcur.worth_eq] at hle
    simp only
    omega

/-- **The fee moves from the sender to the sink.**  The sum does not overflow. -/
theorem applyFee_spec {ctx : ApplyContext} {sender : Address} {fee : Nat} {c c' : Cells} (hlt : total < u64Bound)
    (hbal : Balanced level total s) (hcur : Current (s.getOrDefaultAccount sender) level)
    (hsink : (s.getOrDefaultAccount ctx.feeSink).status = .notParticipating)
    (h : applyFee ctx sender fee (s, c) = .ok (s', c')) :
    Balanced level total s' ∧ Keeps level s s' ∧
      ((feeDebited ctx sender fee s).getOrDefaultAccount ctx.feeSink).microAlgos + fee < u64Bound := by
  unfold applyFee at h
  simp only at h
  split at h
  · cases h
  rename_i hfee
  have hfee := Nat.le_of_not_lt hfee
  obtain ⟨hbal₁, hkeep₁⟩ := feeDebited_spec ctx hbal hcur hfee
  have hfee' : fee ≤ total := by
    have hle := hbal.worth_le sender
    rw [hcur.worth_eq] at hle
    omega
  have hs' : s' = (feeDebited ctx sender fee s).setAccount ctx.feeSink
      { (feeDebited ctx sender fee s).getOrDefaultAccount ctx.feeSink with
        microAlgos := wrapAdd ((feeDebited ctx sender fee s).getOrDefaultAccount ctx.feeSink).microAlgos fee } := by
    simp only [Except.ok.injEq, Prod.mk.injEq] at h
    exact h.1.symm
  generalize feeDebited ctx sender fee s = s₁ at *
  have hnp : (s₁.getOrDefaultAccount ctx.feeSink).status = .notParticipating := by rw [hkeep₁.status, hsink]
  have hle := hbal₁.worth_le ctx.feeSink
  rw [UpToDate.worth_eq (.inl hnp)] at hle
  have hfits : (s₁.getOrDefaultAccount ctx.feeSink).microAlgos + fee < u64Bound := by omega
  have hadd : wrapAdd (s₁.getOrDefaultAccount ctx.feeSink).microAlgos fee =
      (s₁.getOrDefaultAccount ctx.feeSink).microAlgos + fee := Nat.mod_eq_of_lt hfits
  rw [hadd] at hs'
  subst hs'
  have hbal' := hbal₁.add (.inl hnp) rfl fee
  rw [Nat.sub_add_cancel hfee'] at hbal'
  exact ⟨hbal', hkeep₁.trans (Keeps.setAccount rfl fun _ => .inr (.inl hnp)), hfits⟩

end Steps

/-! ## Payments -/

/-- The sum that credits an account is a 64-bit number. -/
def CreditFits (s : Store) (addr : Address) (amount level : Nat) : Prop :=
  ∀ r, withRewards (s.getOrDefaultAccount addr) level = .ok r → r.1.microAlgos + amount < u64Bound

/-- The store after a payment was taken from the sender and before the receiver has it. -/
def payDebited (s : Store) (txn : Transaction) : Store :=
  let sender := s.getOrDefaultAccount txn.sender
  if txn.amount > 0 || (s.getAccount txn.sender).isSome
  then s.setAccount txn.sender { sender with microAlgos := sender.microAlgos - txn.amount } else s

section Payments

variable {level total amount : Nat} {s s' : Store} {addr : Address} {txn : Transaction} {consensus : ConsensusParams}

theorem Balanced.creditFits (hbal : Balanced level total s) (hlt : total + amount < u64Bound) (addr : Address) :
    CreditFits s addr amount level := by
  intro r hr
  obtain ⟨hup, hworth, -⟩ := applyRewards_spec (withRewards_eq_ok hr)
  have hle := hbal.worth_le addr
  rw [← hworth, hup.worth_eq] at hle
  omega

theorem credit_spec (hbal : Balanced level total s) (hlt : total + amount < u64Bound)
    (h : credit s addr amount level = .ok s') : Balanced level (total + amount) s' ∧ Keeps level s s' := by
  unfold credit at h
  obtain ⟨r, hr, h⟩ := Run.bind_eq_ok.1 h
  cases h
  obtain ⟨hup, hworth, hstatus, -⟩ := applyRewards_spec (withRewards_eq_ok hr)
  have hadd : wrapAdd r.1.microAlgos amount = r.1.microAlgos + amount :=
    Nat.mod_eq_of_lt (hbal.creditFits hlt addr r hr)
  rw [hadd]
  have hup' : UpToDate { r.1 with microAlgos := r.1.microAlgos + amount } level := hup
  exact ⟨hbal.add hup hworth amount, Keeps.setAccount hstatus fun _ => .inr hup'⟩

theorem payDebited_spec (hbal : Balanced level total s) (hcur : Current (s.getOrDefaultAccount txn.sender) level)
    (hamount : txn.amount ≤ (s.getOrDefaultAccount txn.sender).microAlgos) :
    Balanced level (total - txn.amount) (payDebited s txn) ∧ Keeps level s (payDebited s txn) := by
  unfold payDebited
  simp only
  split
  · have hdebit := hcur.debit txn.amount
    refine ⟨hbal.setAccount hdebit.settleable ?_, Keeps.setAccount rfl fun _ => hdebit⟩
    have hle := hbal.worth_le txn.sender
    rw [hdebit.worth_eq, hcur.worth_eq]
    rw [hcur.worth_eq] at hle
    simp only
    omega
  · rename_i hskip
    have hzero : txn.amount = 0 := by
      simp only [Bool.or_eq_true, decide_eq_true_eq, not_or] at hskip
      omega
    rw [hzero, Nat.sub_zero]
    exact ⟨hbal, Keeps.refl level s⟩

/-- **The payment moves from the sender to the receiver.** -/
theorem payTransfer_spec (hlt : total < u64Bound) (hbal : Balanced level total s)
    (hcur : Current (s.getOrDefaultAccount txn.sender) level) (h : payTransfer s txn level = .ok s') :
    Balanced level total s' ∧ Keeps level s s' ∧ CreditFits (payDebited s txn) txn.receiver txn.amount level := by
  have hamount : txn.amount ≤ (s.getOrDefaultAccount txn.sender).microAlgos := by
    unfold payTransfer at h
    simp only at h
    split at h
    · split at h
      · cases h
      · rename_i hge
        exact Nat.le_of_not_lt hge
    · rename_i hnone
      simp only [Bool.or_eq_true, decide_eq_true_eq, not_or] at hnone
      omega
  obtain ⟨hbal₁, hkeep₁⟩ := payDebited_spec hbal hcur hamount
  have hle : txn.amount ≤ total := by
    have hle := hbal.worth_le txn.sender
    rw [hcur.worth_eq] at hle
    omega
  have hfits : total - txn.amount + txn.amount < u64Bound := by omega
  unfold payTransfer at h
  simp only at h
  split at h
  · split at h
    · cases h
    have hdebit : (if (decide (txn.amount > 0) || (s.getAccount txn.sender).isSome) = true then
        s.setAccount txn.sender { s.getOrDefaultAccount txn.sender with
          microAlgos := (s.getOrDefaultAccount txn.sender).microAlgos - txn.amount } else s) = payDebited s txn := rfl
    rw [hdebit] at h
    split at h
    · obtain ⟨hbal', hkeep'⟩ := credit_spec hbal₁ hfits h
      rw [Nat.sub_add_cancel hle] at hbal'
      exact ⟨hbal', hkeep₁.trans hkeep', hbal₁.creditFits hfits _⟩
    · rename_i hzero
      have hzero : txn.amount = 0 := by omega
      cases h
      rw [hzero, Nat.sub_zero] at hbal₁
      rw [hzero]
      exact ⟨hbal₁, hkeep₁, hbal₁.creditFits (by omega) _⟩
  · cases h
    exact ⟨hbal, Keeps.refl level _, hbal₁.creditFits hfits _⟩

/-- Resetting an account whose rewards are claimed takes its balance out of the total. -/
theorem Balanced.reset (hbal : Balanced level total s) (hcur : Current (s.getOrDefaultAccount addr) level) :
    (s.getOrDefaultAccount addr).microAlgos ≤ total ∧
      Balanced level (total - (s.getOrDefaultAccount addr).microAlgos) (s.setAccount addr default) := by
  have hle := hbal.worth_le addr
  rw [hcur.worth_eq] at hle
  refine ⟨hle, hbal.setAccount (.inr (.inl rfl)) ?_⟩
  rw [hcur.worth_eq, worth_default]
  omega

/-- **What is left of the sender's balance moves to the account it closes to.** -/
theorem payClose_spec {r : Store × Nat} (hlt : total < u64Bound) (hbal : Balanced level total s)
    (hcur : Current (s.getOrDefaultAccount txn.sender) level) (h : payClose s txn level consensus = .ok r) :
    Balanced level total r.1 ∧ CreditFits (s.setAccount txn.sender default) txn.closeRemainderTo
      (s.getOrDefaultAccount txn.sender).microAlgos level := by
  obtain ⟨hle, hbal₁⟩ := hbal.reset hcur
  have hfits : total - (s.getOrDefaultAccount txn.sender).microAlgos +
      (s.getOrDefaultAccount txn.sender).microAlgos < u64Bound := by omega
  refine ⟨?_, hbal₁.creditFits hfits _⟩
  unfold payClose at h
  split at h
  · cases h
    exact hbal
  · obtain ⟨_, -, h⟩ := Run.bind_eq_ok.1 h
    simp only at h
    split at h
    · obtain ⟨s₂, h₂, h⟩ := Run.bind_eq_ok.1 h
      cases h
      have hbal' := (credit_spec hbal₁ hfits h₂).1
      rw [Nat.sub_add_cancel hle] at hbal'
      exact hbal'
    · rename_i hzero
      cases h
      have hzero : (s.getOrDefaultAccount txn.sender).microAlgos = 0 := by omega
      rw [hzero, Nat.sub_zero] at hbal₁
      exact hbal₁

end Payments

/-! ## Assets and keys -/

section Assets

variable {level total : Nat} {s s' : Store} {txn : Transaction} {consensus : ConsensusParams}

theorem assetStable_balanced (level total : Nat) : AssetStable (Balanced level total) :=
  ⟨fun _ _ hbal => hbal.of_accounts rfl, fun _ _ _ hbal => hbal.setAccount_fields rfl rfl rfl⟩

/-- An account whose rewards are claimed may change what it participates in. -/
theorem Balanced.setAccount_current (hbal : Balanced level total s) {addr : Address} {d : AccountData}
    (hcur : Current (s.getOrDefaultAccount addr) level)
    (hnp : (s.getOrDefaultAccount addr).status ≠ .notParticipating)
    (hm : d.microAlgos = (s.getOrDefaultAccount addr).microAlgos)
    (hb : d.rewardsBase = (s.getOrDefaultAccount addr).rewardsBase) : Balanced level total (s.setAccount addr d) := by
  have hcur' : Current d level := by
    rcases hcur with h | h | h
    · exact .inl (hm.trans h)
    · exact absurd h hnp
    · exact .inr (.inr (hb.trans h))
  apply hbal.setAccount_same hcur'.settleable
  rw [hcur'.worth_eq, hcur.worth_eq, hm]

theorem applyKeyreg_balanced {round : Nat} (hbal : Balanced level total s)
    (hcur : Current (s.getOrDefaultAccount txn.sender) level) (h : applyKeyreg s txn round consensus = .ok s') :
    Balanced level total s' := by
  obtain ⟨hnp, d, rfl, hd⟩ := applyKeyreg_registers h
  have hm := congrArg AccountData.microAlgos hd
  have hb := congrArg AccountData.rewardsBase hd
  exact hbal.setAccount_current hcur hnp hm hb

end Assets

/-! ## One transaction -/

/-- The transaction types that move Algos without executing a program or checking a proof. -/
def plainTypes : List String := ["pay", "keyreg", "acfg", "axfer", "afrz"]

/-- No sum of Algos that the transaction computes overflows: the fee the sink receives, the payment and the
remainder of a closed account. -/
def NoOverflow (ctx : ApplyContext) (txn : Transaction) (st : Store × Cells) : Prop :=
  ∀ pass, applyRewardsPass txn ctx.rewardsLevel ctx.consensus st.1 (rewardParticipants txn) = .ok pass →
    ((feeDebited ctx txn.sender txn.fee (applyRekey pass.1 txn)).getOrDefaultAccount ctx.feeSink).microAlgos + txn.fee <
      u64Bound ∧
    (txn.txnType.is "pay" = true → ∀ st₁, applyFee ctx txn.sender txn.fee (applyRekey pass.1 txn, st.2) = .ok st₁ →
      CreditFits (payDebited st₁.1 txn) txn.receiver txn.amount ctx.rewardsLevel ∧
      ∀ s₂, payTransfer st₁.1 txn ctx.rewardsLevel = .ok s₂ →
        CreditFits (s₂.setAccount txn.sender default) txn.closeRemainderTo
          (s₂.getOrDefaultAccount txn.sender).microAlgos ctx.rewardsLevel)

section Transaction

variable {ext : Externals} {ctx : ApplyContext} {depth total : Nat} {stx : SignedTransaction} {st st' : Store × Cells}

theorem finishTransaction_balanced {level : Nat} {txn : Transaction} {addrs : List Address}
    {ad ad' : ApplyData} (hbal : Balanced level total st.1)
    (h : finishTransaction ext ctx depth txn addrs st ad = .ok (st', ad')) : Balanced level total st'.1 :=
  (finishTransaction_keeps (fun _ _ hbal => hbal.of_accounts rfl) (fun _ _ _ hbal => hbal.setAccount_fields rfl rfl rfl) h
    hbal).1

/-- What a transaction of a plain type does after its fee is taken. -/
inductive PlainEffect (ctx : ApplyContext) (stx : SignedTransaction) (st : Store × Cells) : Store → Prop
  | pay {r : Store × Nat} : stx.txn.txnType.is "pay" = true →
      applyPay st.1 stx.txn ctx.rewardsLevel ctx.consensus = .ok r → PlainEffect ctx stx st r.1
  | acfg {r : Store × Nat} : stx.txn.txnType.is "acfg" = true →
      applyAcfg st.1 stx.txn (acfgCounter ctx st.2 stx) ctx.consensus = .ok r → PlainEffect ctx stx st r.1
  | axfer {r : Store × Nat} : stx.txn.txnType.is "axfer" = true →
      applyAxfer st.1 stx.txn ctx.consensus = .ok r → PlainEffect ctx stx st r.1
  | afrz {s : Store} : stx.txn.txnType.is "afrz" = true → applyAfrz st.1 stx.txn = .ok s → PlainEffect ctx stx st s
  | keyreg {s : Store} : stx.txn.txnType.is "keyreg" = true →
      applyKeyreg st.1 stx.txn ctx.round ctx.consensus = .ok s → PlainEffect ctx stx st s

theorem TxnType.is_eq {t : TxnType} {a b : String} (ha : t.is a = true) (hb : t.is b = true) : a = b :=
  (of_decide_eq_true ha).symm.trans (of_decide_eq_true hb)

theorem applyByType_plain {ad ad' : ApplyData} (htype : stx.txn.txnType.asStr ∈ plainTypes)
    (h : applyByType ext ctx depth stx st ad = .ok (st', ad')) :
    ∃ st₁, applyFee ctx stx.txn.sender stx.txn.fee st = .ok st₁ ∧ PlainEffect ctx stx st₁ st'.1 := by
  have hname : ∀ {name : String}, stx.txn.txnType.is name = true → name ∈ plainTypes := by
    intro name hn
    rw [← of_decide_eq_true hn]
    exact htype
  unfold applyByType at h
  simp only at h
  split at h
  · rename_i hpay
    obtain ⟨st₁, h₁, h⟩ := Run.bind_eq_ok.1 h
    obtain ⟨r, hr, h⟩ := Run.bind_eq_ok.1 h
    obtain ⟨_, -, h⟩ := Run.bind_eq_ok.1 h
    cases h
    exact ⟨st₁, h₁, .pay hpay hr⟩
  split at h
  · rename_i htype
    obtain ⟨st₁, h₁, h⟩ := Run.bind_eq_ok.1 h
    obtain ⟨r, hr, h⟩ := Run.bind_eq_ok.1 h
    cases h
    exact ⟨st₁, h₁, .acfg htype hr⟩
  split at h
  · rename_i htype
    obtain ⟨st₁, h₁, h⟩ := Run.bind_eq_ok.1 h
    obtain ⟨r, hr, h⟩ := Run.bind_eq_ok.1 h
    cases h
    exact ⟨st₁, h₁, .axfer htype hr⟩
  split at h
  · rename_i htype
    obtain ⟨st₁, h₁, h⟩ := Run.bind_eq_ok.1 h
    obtain ⟨s, hs, h⟩ := Run.bind_eq_ok.1 h
    cases h
    exact ⟨st₁, h₁, .afrz htype hs⟩
  split at h
  · rename_i happl
    exact absurd (hname happl) (by decide)
  split at h
  · rename_i htype
    obtain ⟨st₁, h₁, h⟩ := Run.bind_eq_ok.1 h
    obtain ⟨s, hs, h⟩ := Run.bind_eq_ok.1 h
    cases h
    exact ⟨st₁, h₁, .keyreg htype hs⟩
  split at h
  · rename_i hhb
    exact absurd (hname hhb) (by decide)
  · cases h

theorem PlainEffect.balanced {st : Store × Cells} {s' : Store} (h : PlainEffect ctx stx st s') (hlt : total < u64Bound)
    (hbal : Balanced ctx.rewardsLevel total st.1)
    (hcur : Current (st.1.getOrDefaultAccount stx.txn.sender) ctx.rewardsLevel) :
    Balanced ctx.rewardsLevel total s' := by
  cases h with
  | pay _ hr =>
    unfold applyPay at hr
    obtain ⟨s₁, h₁, hr⟩ := Run.bind_eq_ok.1 hr
    obtain ⟨hbal₁, hkeep₁, -⟩ := payTransfer_spec hlt hbal hcur h₁
    exact (payClose_spec hlt hbal₁ (hkeep₁.current _ hcur) hr).1
  | acfg _ hr => exact (assetStable_balanced _ _).applyAcfg hbal hr
  | axfer _ hr => exact (assetStable_balanced _ _).applyAxfer hbal hr
  | afrz _ hs => exact (assetStable_balanced _ _).applyAfrz hbal hs
  | keyreg _ hs => exact applyKeyreg_balanced hbal hcur hs

/-- A payment computes no sum that overflows. -/
theorem PlainEffect.pay_fits {st : Store × Cells} {s' : Store} (h : PlainEffect ctx stx st s')
    (hpay : stx.txn.txnType.is "pay" = true) (hlt : total < u64Bound) (hbal : Balanced ctx.rewardsLevel total st.1)
    (hcur : Current (st.1.getOrDefaultAccount stx.txn.sender) ctx.rewardsLevel) :
    CreditFits (payDebited st.1 stx.txn) stx.txn.receiver stx.txn.amount ctx.rewardsLevel ∧
      ∀ s₂, payTransfer st.1 stx.txn ctx.rewardsLevel = .ok s₂ →
        CreditFits (s₂.setAccount stx.txn.sender default) stx.txn.closeRemainderTo
          (s₂.getOrDefaultAccount stx.txn.sender).microAlgos ctx.rewardsLevel := by
  have hno : ∀ {name : String}, stx.txn.txnType.is name = true → name = "pay" := fun hn => TxnType.is_eq hn hpay
  cases h with
  | pay _ hr =>
    obtain ⟨s₁, h₁, -⟩ := Run.bind_eq_ok.1 hr
    obtain ⟨hbal₁, hkeep₁, hfits⟩ := payTransfer_spec hlt hbal hcur h₁
    refine ⟨hfits, fun s₂ h₂ => ?_⟩
    cases h₁.symm.trans h₂
    obtain ⟨hle, hclosed⟩ := hbal₁.reset (hkeep₁.current _ hcur)
    exact hclosed.creditFits (by omega) _
  | acfg htype _ => exact absurd (hno htype) (by decide)
  | axfer htype _ => exact absurd (hno htype) (by decide)
  | afrz htype _ => exact absurd (hno htype) (by decide)
  | keyreg htype _ => exact absurd (hno htype) (by decide)

/-- A plain transaction, up to the checks that end it. -/
theorem applyTransaction_plain {ad : ApplyData}
    (htype : stx.txn.txnType.asStr ∈ plainTypes) (h : applyTransaction ext ctx depth st stx = .ok (st', ad)) :
    ∃ pass st₁ st₂ st₃ ad₁ ad₂,
      applyRewardsPass stx.txn ctx.rewardsLevel ctx.consensus st.1 (rewardParticipants stx.txn) = .ok pass ∧
      applyFee ctx stx.txn.sender stx.txn.fee (applyRekey pass.1 stx.txn, st.2) = .ok st₁ ∧
      PlainEffect ctx stx st₁ st₂.1 ∧ applyRecordedDelta ext ctx depth stx st₂ = .ok st₃ ∧
      finishTransaction ext ctx depth stx.txn (snapshotAddrs ctx st.1 stx.txn) st₃ ad₁ = .ok (st', ad₂) := by
  have hstpf : stx.txn.txnType.is "stpf" = false := by
    rw [Bool.eq_false_iff]
    intro hn
    rw [of_decide_eq_true hn] at htype
    exact absurd htype (by decide)
  unfold applyTransaction at h
  simp only [hstpf, Bool.false_eq_true, if_false] at h
  obtain ⟨pass, hpass, h⟩ := Run.bind_eq_ok.1 h
  obtain ⟨⟨st₂, ad₂⟩, hr, h⟩ := Run.bind_eq_ok.1 h
  obtain ⟨st₃, hdelta, h⟩ := Run.bind_eq_ok.1 h
  obtain ⟨st₁, hfee, heffect⟩ := applyByType_plain htype hr
  exact ⟨pass, st₁, st₂, st₃, _, _, hpass, hfee, heffect, hdelta, h⟩

/-- The Algos after the fee of a plain transaction is taken, and what its sums are bounded by. -/
theorem applyTransaction_feeTaken {st st₁ : Store × Cells} {pass : Store × RewardsPassOutcome} (hlt : total < u64Bound)
    (hbal : Balanced ctx.rewardsLevel total st.1)
    (hsink : (st.1.getOrDefaultAccount ctx.feeSink).status = .notParticipating)
    (hpass : applyRewardsPass stx.txn ctx.rewardsLevel ctx.consensus st.1 (rewardParticipants stx.txn) = .ok pass)
    (hfee : applyFee ctx stx.txn.sender stx.txn.fee (applyRekey pass.1 stx.txn, st.2) = .ok st₁) :
    Balanced ctx.rewardsLevel total st₁.1 ∧ Current (st₁.1.getOrDefaultAccount stx.txn.sender) ctx.rewardsLevel ∧
      ((feeDebited ctx stx.txn.sender stx.txn.fee (applyRekey pass.1 stx.txn)).getOrDefaultAccount ctx.feeSink).microAlgos +
        stx.txn.fee < u64Bound := by
  obtain ⟨hbal₀, hkeep₀, hcur₀⟩ := foldlM_rewardsPassStep_spec hbal hpass
  obtain ⟨hbal₀, hkeep⟩ := applyRekey_spec stx.txn hbal₀
  have hcur := hkeep.current _ (hcur₀ _ (sender_mem_rewardParticipants stx.txn))
  have hsink' : ((applyRekey pass.1 stx.txn).getOrDefaultAccount ctx.feeSink).status = .notParticipating := by
    rw [hkeep.status, hkeep₀.status, hsink]
  obtain ⟨hbal₁, hkeep₁, hfits⟩ := applyFee_spec hlt hbal₀ hcur hsink' hfee
  exact ⟨hbal₁, hkeep₁.current _ hcur, hfits⟩

/-- No sum of a plain transaction overflows. -/
theorem applyTransaction_noOverflow {ad : ApplyData} (hlt : total < u64Bound)
    (hbal : Balanced ctx.rewardsLevel total st.1)
    (hsink : (st.1.getOrDefaultAccount ctx.feeSink).status = .notParticipating)
    (htype : stx.txn.txnType.asStr ∈ plainTypes) (h : applyTransaction ext ctx depth st stx = .ok (st', ad)) :
    NoOverflow ctx stx.txn st := by
  obtain ⟨pass, st₁, st₂, st₃, ad₁, ad₂, hpass, hfee, heffect, -, -⟩ := applyTransaction_plain htype h
  obtain ⟨hbal₁, hcur₁, hfits⟩ := applyTransaction_feeTaken hlt hbal hsink hpass hfee
  intro pass' hpass'
  cases hpass.symm.trans hpass'
  refine ⟨hfits, fun hpay st₁' hfee' => ?_⟩
  cases hfee.symm.trans hfee'
  exact heffect.pay_fits hpay hlt hbal₁ hcur₁

end Transaction

/-- **Algos are conserved by every transaction** that is not an application call, a heartbeat or a state proof, however
its addresses coincide, and no sum of Algos overflows.  A delta that the transaction records is applied by the evaluator
of programs; it is assumed to conserve Algos itself. -/
theorem applyTransaction_conserves (ext : Externals) (ctx : ApplyContext) (depth : Nat) (st st' : Store × Cells)
    (stx : SignedTransaction) (ad : ApplyData) (total : Nat) (hlt : total < u64Bound)
    (htotal : totalBalance st.1 ctx.rewardsLevel = some total)
    (hsink : (st.1.getOrDefaultAccount ctx.feeSink).status = .notParticipating)
    (htype : stx.txn.txnType.asStr ∈ plainTypes)
    (hdelta : ∀ st₁ st₂, stx.evalDelta ≠ none → applyRecordedDelta ext ctx depth stx st₁ = .ok st₂ →
      totalBalance st₁.1 ctx.rewardsLevel = some total → totalBalance st₂.1 ctx.rewardsLevel = some total)
    (h : applyTransaction ext ctx depth st stx = .ok (st', ad)) :
    totalBalance st'.1 ctx.rewardsLevel = some total ∧ NoOverflow ctx stx.txn st := by
  obtain ⟨pass, st₁, st₂, st₃, ad₁, ad₂, hpass, hfee, heffect, hrec, hfinish⟩ := applyTransaction_plain htype h
  have hbal := (totalBalance_eq_some hlt).1 htotal
  obtain ⟨hbal₁, hcur₁, -⟩ := applyTransaction_feeTaken hlt hbal hsink hpass hfee
  have hbal₂ := heffect.balanced hlt hbal₁ hcur₁
  refine ⟨?_, applyTransaction_noOverflow hlt hbal hsink htype h⟩
  have hbal₃ : Balanced ctx.rewardsLevel total st₃.1 := by
    cases hnone : stx.evalDelta with
    | none =>
      unfold applyRecordedDelta at hrec
      rw [hnone] at hrec
      split at hrec <;> cases hrec <;> exact hbal₂
    | some dt =>
      have hsome : stx.evalDelta ≠ none := by rw [hnone]; nofun
      exact (totalBalance_eq_some hlt).1 (hdelta st₂ st₃ hsome hrec ((totalBalance_eq_some hlt).2 hbal₂))
  exact (totalBalance_eq_some hlt).2 (finishTransaction_balanced hbal₃ hfinish)

/-- Account 1 has claimed no rewards yet; account 3 is the fee sink. -/
def unclaimedStore : Store :=
  { (default : Store) with
    accounts := (((∅ : FinMap Address AccountData).insert ⟨1⟩ { (default : AccountData) with microAlgos := 5000000 }).insert
      ⟨2⟩ { (default : AccountData) with microAlgos := 1000000, rewardsBase := 4 }).insert
      ⟨3⟩ { (default : AccountData) with microAlgos := 100000, status := .notParticipating }
    feeSink := ⟨3⟩
    rewardsPool := ⟨4⟩ }

/-- Account 1 pays itself and closes to account 2. -/
def closingPayment : SignedTransaction :=
  { (default : SignedTransaction) with
    txn := { (default : Transaction) with
      txnType := .pay, sender := ⟨1⟩, receiver := ⟨1⟩, amount := 5, fee := 1000, closeRemainderTo := ⟨2⟩ } }

def closingContext : ApplyContext :=
  { rewardsLevel := 10, feeSink := ⟨3⟩, round := 5, mode := .execute, callerTracksLeases := false, generate := false,
    consensus := default }

theorem applyTransaction_conserves_closingPayment :
    ∃ st' ad, applyTransaction noExternals closingContext 0 (unclaimedStore, default) closingPayment = .ok (st', ad) ∧
      totalBalance st'.1 10 = some 6100056 ∧ NoOverflow closingContext closingPayment.txn (unclaimedStore, default) := by
  obtain ⟨⟨st', ad⟩, h, -⟩ := @Run.ok_of_any _ _
    (applyTransaction noExternals closingContext 0 (unclaimedStore, default) closingPayment) (fun _ => true)
    (by decide)
  exact ⟨st', ad, h, applyTransaction_conserves noExternals closingContext 0 (unclaimedStore, default) st' closingPayment
    ad 6100056 (by decide) (by decide) (by decide) (by decide)
    (fun _ _ hsome => absurd rfl hsome) h⟩

/-- Accounts 1 and 2 hold one unit of an asset and all the units a holding can count. -/
def fullHoldingStore : Store :=
  { unclaimedStore with
    accounts := unclaimedStore.accounts.insert ⟨4⟩ { (default : AccountData) with status := .notParticipating }
    assetHoldings := ((∅ : FinMap (Address × Nat) AssetHolding).insert (⟨1⟩, 7) ⟨1, false⟩).insert (⟨2⟩, 7)
      ⟨u64Bound - 1, false⟩ }

def unitTransfer : SignedTransaction :=
  { (default : SignedTransaction) with
    txn := { (default : Transaction) with
      txnType := .axfer, sender := ⟨1⟩, fee := 1000, xaid := 7, assetAmount := 1, assetReceiver := some ⟨2⟩ } }

/-- The sum of a holding and what is transferred to it may overflow: the transfer succeeds and leaves zero. -/
theorem applyTransaction_unitTransfer_wraps :
    totalBalance fullHoldingStore 10 = some 6100056 ∧
      (fullHoldingStore.getOrDefaultAccount fullHoldingStore.feeSink).status = .notParticipating ∧
      (fullHoldingStore.getOrDefaultAccount fullHoldingStore.rewardsPool).status = .notParticipating ∧
      unitTransfer.txn.txnType.asStr ∈ plainTypes ∧
      ((fullHoldingStore.getAssetHolding ⟨2⟩ 7).map fun held => held.amount + unitTransfer.txn.assetAmount) = some u64Bound ∧
      ((applyTransaction noExternals closingContext 0 (fullHoldingStore, default) unitTransfer).map fun r =>
        (r.1.1.getAssetHolding ⟨2⟩ 7).map AssetHolding.amount) = .ok (some 0) := by
  refine ⟨by decide, by decide, by decide, by decide, by decide, by decide⟩

end Ledger
end Algod
