import AlgodRust.Ledger.CheckDup
/-!
# ReplayProtection — no transaction and no lease is used twice

Four records with different windows cover the past of a chain: the block's own transactions, the lease table, the rows
of the txtail and the rule that drops old rows.  `Covered` says what they hold together of everything a chain has
applied; a block that passes the checks extends it, and from it follows that ids and leases in force never repeat.
-/
namespace Algod
namespace Ledger

open Run (bind_eq_ok run run_cons_eq_ok Path)

/-- A transaction of a chain, with its genesis fields restored, its id and the round it was applied in. -/
structure Occurrence where
  round : Round
  id : Digest
  txn : Transaction

namespace Occurrence

def leaseKey (o : Occurrence) : LeaseKey := (o.txn.sender, o.txn.lease)

/-- The later transaction does not use a lease of the earlier one while that is in force. -/
def LeaseFree (o o' : Occurrence) : Prop :=
  o.leaseKey = o'.leaseKey → o.txn.lease ≠ 0 → ¬ o'.round ≤ o.txn.lastValid

end Occurrence

/-! ## Applying a block -/

inductive ApplyBlockError
  | unknownProtocol (protocol : String)
  | paysetTxn (index : Nat) (error : GenesisFieldError)
  | expectedRound (expected got : Round)
deriving DecidableEq, Repr

section Chain

variable (protocols : String → Option ConsensusParams) (txid : Transaction → Digest)
  (inner : SignedTransaction → List (LeaseKey × Round))

/-- An applied transaction records the leases of its inner transactions and its own; a state proof returns before. -/
def recordApplied (t : LeaseTable) (stx : SignedTransaction) : LeaseTable :=
  if stx.txn.txnType.is "stpf" then t
  else ((inner stx).foldl (fun t e => t.record e.1.1 e.1.2 e.2) t).record stx.txn.sender stx.txn.lease stx.txn.lastValid

/-- What committing a block leaves in the tail of the ledger. -/
def ChainTail.applyBlock (s : ChainTail) (block : Block) : Except ApplyBlockError ChainTail :=
  match protocols block.currentProtocol with
  | none => .error (.unknownProtocol block.currentProtocol)
  | some consensus =>
    let rule := GenesisRestoreRule.forParams consensus block
    match rule.checkPayset 0 block.payset with
    | .error e => .error (.paysetTxn e.1 e.2)
    | .ok _ =>
      if block.round ≠ s.currentRound + 1 then .error (.expectedRound (s.currentRound + 1) block.round)
      else
        let leases := (block.payset.foldl (recordApplied inner) s.leases).purgeExpired block.round
        let row := txtailFromBlockAndTxids block.payset (paysetTxidsWithRule txid block.payset rule)
        let s' := { s with currentRound := block.round, leases := leases }.putTxtail block.round row
        let forget := ChainTail.forgetBeforeRound s.retention consensus block.round
        .ok (if forget > 0 then s'.forgetBefore forget else s')

def Block.occurrences (rule : GenesisRestoreRule) (block : Block) : List Occurrence :=
  block.payset.map (fun stx => ⟨block.round, txid (rule.restoredTxn stx), rule.restoredTxn stx⟩)

inductive ExtendError
  | prepass (p : Prepass)
  | apply (e : ApplyBlockError)
deriving DecidableEq, Repr

/-- One more block of the chain: it is clean against the store its predecessors left, and is applied. -/
def extend (s : ChainTail) (block : Block) : Except ExtendError (ChainTail × List Occurrence) :=
  match prologuePrepass protocols txid s block, protocols block.currentProtocol with
  | .clean, some consensus =>
    match s.applyBlock protocols txid inner block with
    | .error e => .error (.apply e)
    | .ok s' => .ok (s', block.occurrences txid (.forParams consensus block))
  | p, _ => .error (.prepass p)

/-- The blocks of a chain under protocols with the lease fix and one life span of transactions.  State proofs are
injected by the protocol and carry no lease. -/
structure Admissible (life : Nat) (block : Block) : Prop where
  params : ∀ consensus, protocols block.currentProtocol = some consensus →
    consensus.supportTransactionLeases = true ∧ consensus.fixTransactionLeases = true ∧ consensus.maxTxnLife = life
  lifeSpan : ∀ stx ∈ block.payset, stx.txn.lastValid ≤ stx.txn.firstValid + life
  stateProof : ∀ stx ∈ block.payset, stx.txn.txnType.is "stpf" = true → stx.txn.lease = 0

end Chain

/-! ## The checks of one payset -/

/-- What the checks say of one transaction of a block evaluated after `d`. -/
structure Passed (s : ChainTail) (life : Nat) (ledger : LedgerDups) (d : BlockDups) (p : SignedTransaction × Digest) :
    Prop where
  window : p.1.txn.firstValid ≤ ledger.round ∧ ledger.round ≤ p.1.txn.lastValid
  fresh : p.2 ∉ d.txids
  unleased : p.1.txn.lease ≠ 0 → d.leases.lookup (p.1.txn.sender, p.1.txn.lease) = none
  table : p.1.txn.lease ≠ 0 → ¬ s.leases.InForce (p.1.txn.sender, p.1.txn.lease) ledger.round
  unconfirmed : p.2 ∉ s.txtailConfirmedTxids ledger.txids life

/-- **A checked payset repeats no id and no lease.**  The leases recorded on the way are all in force in the block's
round, since their transactions are alive in it, so the overwriting of an entry is never reached. -/
theorem checkPaysetFrom_eq_ok {s : ChainTail} {consensus : ConsensusParams} {rule : GenesisRestoreRule}
    {ledger : LedgerDups} (hleases : consensus.supportTransactionLeases = true)
    (hfix : consensus.fixTransactionLeases = true) (hround : s.currentRound < ledger.round) :
    ∀ {l : List (SignedTransaction × Digest)} {d : BlockDups},
      (∀ k e, d.leases.lookup k = some e → ledger.round ≤ e) → checkPaysetFrom s consensus rule ledger d l = .ok () →
      (∀ p ∈ l, Passed s consensus.maxTxnLife ledger d p) ∧ (l.map Prod.snd).Nodup ∧
        l.Pairwise (fun p q => p.1.txn.lease ≠ 0 →
          (p.1.txn.sender, p.1.txn.lease) ≠ (q.1.txn.sender, q.1.txn.lease))
  | [], _, _, _ => ⟨fun p hp => (by cases hp), List.nodup_nil, .nil⟩
  | (stx, id) :: rest, d, hd, h => by
    obtain ⟨_, halive, h⟩ := bind_eq_ok.1 h
    obtain ⟨_, hdup, hrest⟩ := bind_eq_ok.1 h
    obtain ⟨leased, hblock, hledger⟩ := bind_eq_ok.1 hdup
    have hwindow := alive_eq_ok halive
    obtain ⟨hfresh, hleased, hheld⟩ := BlockDups.check_eq_ok hblock
    obtain ⟨htable, hconfirmed⟩ := checkDupLedgerHalf_eq_ok hfix hround hledger
    have hset : stx.txn.lease ≠ 0 → leased = true := by
      intro hl
      rw [hleased, hleases, decide_eq_true hl]
      rfl
    have hhead : Passed s consensus.maxTxnLife ledger d (stx, id) := by
      refine ⟨hwindow, hfresh, fun hl => ?_, fun hl => ?_, hconfirmed⟩
      · cases he : d.leases.lookup (stx.txn.sender, stx.txn.lease) with
        | none => rfl
        | some e => exact absurd (hheld (hset hl) e he) (not_lt.2 (hd _ _ he))
      · rcases LeaseTable.check_eq_true.1 (htable (hset hl)) with h₀ | hn
        · exact absurd h₀ hl
        · exact hn
    have hd' : ∀ k e, (d.record stx.txn id).leases.lookup k = some e → ledger.round ≤ e := by
      intro k e hk
      simp only [BlockDups.record] at hk
      split at hk
      · rw [FinMap.lookup_insert_eq] at hk
        split at hk
        · cases hk
          exact hwindow.2
        · exact hd k e hk
      · exact hd k e hk
    obtain ⟨hall, hnodup, hpair⟩ := checkPaysetFrom_eq_ok hleases hfix hround hd' hrest
    refine ⟨?_, ?_, ?_⟩
    · intro p hp
      rcases List.mem_cons.1 hp with rfl | hp
      · exact hhead
      · have hpassed := hall p hp
        refine ⟨hpassed.window, fun hm => hpassed.fresh (Finset.mem_insert_of_mem hm), fun hl => ?_, hpassed.table,
          hpassed.unconfirmed⟩
        have hnone := hpassed.unleased hl
        simp only [BlockDups.record] at hnone
        split at hnone
        · rw [FinMap.lookup_insert_eq] at hnone
          split at hnone
          · cases hnone
          · exact hnone
        · exact hnone
    · rw [List.map_cons, List.nodup_cons]
      refine ⟨fun hm => ?_, hnodup⟩
      obtain ⟨p, hp, hpid⟩ := List.mem_map.1 hm
      exact (hall p hp).fresh (by rw [hpid]; exact Finset.mem_insert_self _ _)
    · refine List.pairwise_cons.2 ⟨fun p hp hl hkey => ?_, hpair⟩
      have hlp : p.1.txn.lease ≠ 0 := by
        rw [← (Prod.mk.inj hkey).2]
        exact hl
      have hnone := (hall p hp).unleased hlp
      simp only [BlockDups.record] at hnone
      rw [if_pos hl, ← hkey, AList.lookup_insert] at hnone
      cases hnone

/-! ## What the tail remembers -/

/-- The records of a store cover everything a chain has applied that can still clash. -/
structure Covered (txid : Transaction → Digest) (life : Nat) (occs : List Occurrence) (s : ChainTail) : Prop where
  hashed : ∀ o ∈ occs, o.id = txid o.txn
  past : ∀ o ∈ occs, 1 ≤ o.round ∧ o.round ≤ s.currentRound
  window : ∀ o ∈ occs, o.txn.firstValid ≤ o.round ∧ o.txn.lastValid ≤ o.txn.firstValid + life
  rows : ∀ o ∈ occs, s.currentRound < o.round + life →
    ∃ row, s.txtail.lookup o.round = some row ∧ o.id ∈ row.txnIds
  leases : ∀ o ∈ occs, o.txn.lease ≠ 0 → s.currentRound ≤ o.txn.lastValid →
    s.leases.InForce o.leaseKey o.txn.lastValid

section Recorded

variable {inner : SignedTransaction → List (LeaseKey × Round)} {k : LeaseKey} {round : Round}

theorem inForce_foldl_record : ∀ {es : List (LeaseKey × Round)} {t : LeaseTable}, t.InForce k round →
    (es.foldl (fun t e => t.record e.1.1 e.1.2 e.2) t).InForce k round
  | [], _, h => h
  | e :: es, t, h => by
    rw [List.foldl_cons]
    exact inForce_foldl_record (LeaseTable.inForce_record.2 (.inl h))

theorem inForce_recordApplied {t : LeaseTable} {stx : SignedTransaction} (h : t.InForce k round) :
    (recordApplied inner t stx).InForce k round := by
  unfold recordApplied
  split
  · exact h
  · exact LeaseTable.inForce_record.2 (.inl (inForce_foldl_record h))

theorem inForce_foldl_recordApplied : ∀ {payset : List SignedTransaction} {t : LeaseTable}, t.InForce k round →
    (payset.foldl (recordApplied inner) t).InForce k round
  | [], _, h => h
  | stx :: payset, t, h => by
    rw [List.foldl_cons]
    exact inForce_foldl_recordApplied (inForce_recordApplied h)

/-- Every applied transaction's lease is in the table, to its last valid round. -/
theorem inForce_of_applied {stx : SignedTransaction} (hl : stx.txn.lease ≠ 0)
    (hstpf : stx.txn.txnType.is "stpf" = true → stx.txn.lease = 0) :
    ∀ {payset : List SignedTransaction} {t : LeaseTable}, stx ∈ payset →
      (payset.foldl (recordApplied inner) t).InForce (stx.txn.sender, stx.txn.lease) stx.txn.lastValid
  | _ :: payset, t, h => by
    rw [List.foldl_cons]
    rcases List.mem_cons.1 h with rfl | h
    · apply inForce_foldl_recordApplied
      unfold recordApplied
      rw [if_neg (fun hs => hl (hstpf hs))]
      exact LeaseTable.inForce_record.2 (.inr ⟨rfl, hl, le_refl _⟩)
    · exact inForce_of_applied hl hstpf h

end Recorded

section Step

variable {protocols : String → Option ConsensusParams} {txid : Transaction → Digest}
  {inner : SignedTransaction → List (LeaseKey × Round)} {s s' : ChainTail} {block : Block}

/-- **What an applied block leaves**: the rows within the life span of transactions stay, with the block's own, and
the leases still in force from its round on. -/
theorem applyBlock_eq_ok {consensus : ConsensusParams} (hp : protocols block.currentProtocol = some consensus)
    (h : s.applyBlock protocols txid inner block = .ok s') :
    block.round = s.currentRound + 1 ∧ s'.currentRound = block.round ∧
      s'.leases = (block.payset.foldl (recordApplied inner) s.leases).purgeExpired block.round ∧
      ∀ r, block.round + 1 - consensus.maxTxnLife ≤ r → s'.txtail.lookup r =
        if r = block.round then some (txtailFromBlockAndTxids block.payset
          (paysetTxidsWithRule txid block.payset (.forParams consensus block))) else s.txtail.lookup r := by
  unfold ChainTail.applyBlock at h
  rw [hp] at h
  simp only at h
  split at h
  · cases h
  · split at h
    · cases h
    · rename_i hround
      cases h
      refine ⟨not_not.1 hround, ?_, ?_, fun r hr => ?_⟩
      · split <;> rfl
      · split <;> rfl
      · split
        · have hkept : ChainTail.forgetBeforeRound s.retention consensus block.round ≤ r :=
            le_trans (ChainTail.forgetBeforeRound_le _ _ _) hr
          simp only [ChainTail.forgetBefore, ChainTail.putTxtail]
          rw [FinMap.lookup_retain_of]
          · exact FinMap.lookup_insert_eq _ _ _ _
          · intro _
            exact decide_eq_true hkept
        · exact FinMap.lookup_insert_eq _ _ _ _

theorem extend_eq_ok {occs : List Occurrence} (h : extend protocols txid inner s block = .ok (s', occs)) :
    ∃ consensus, protocols block.currentProtocol = some consensus ∧ prologuePrepass protocols txid s block = .clean ∧
      s.applyBlock protocols txid inner block = .ok s' ∧ occs = block.occurrences txid (.forParams consensus block) := by
  unfold extend at h
  split at h
  · rename_i consensus hclean hp
    split at h
    · cases h
    · rename_i happly
      cases h
      exact ⟨consensus, hp, hclean, happly, rfl⟩
  · cases h

/-- What one more block adds to the transactions of a chain. -/
structure Extends (txid : Transaction → Digest) (life : Nat) (s : ChainTail) (occs : List Occurrence)
  (s' : ChainTail) : Prop where
  nodup : (occs.map Occurrence.id).Nodup
  leaseFree : occs.Pairwise Occurrence.LeaseFree
  hashed : ∀ o ∈ occs, o.id = txid o.txn
  window : ∀ o ∈ occs, o.txn.firstValid ≤ o.round ∧ o.round ≤ o.txn.lastValid ∧
    o.txn.lastValid ≤ o.txn.firstValid + life
  round : ∀ o ∈ occs, o.round = s.currentRound + 1
  unconfirmed : ∀ o ∈ occs, ∀ r row, s.currentRound - life ≤ r → 1 ≤ r → r ≤ s.currentRound →
    s.txtail.lookup r = some row → o.id ∉ row.txnIds
  table : ∀ o ∈ occs, o.txn.lease ≠ 0 → ¬ s.leases.InForce o.leaseKey o.round
  next : s'.currentRound = s.currentRound + 1
  oldRows : ∀ r, s'.currentRound + 1 - life ≤ r → r ≤ s.currentRound → s'.txtail.lookup r = s.txtail.lookup r
  newRow : 0 < life → ∀ o ∈ occs, ∃ row, s'.txtail.lookup o.round = some row ∧ o.id ∈ row.txnIds
  oldLeases : ∀ k r, s'.currentRound ≤ r → s.leases.InForce k r → s'.leases.InForce k r
  newLeases : ∀ o ∈ occs, o.txn.lease ≠ 0 → s'.leases.InForce o.leaseKey o.txn.lastValid

theorem mem_occurrences {rule : GenesisRestoreRule} {o : Occurrence} (h : o ∈ block.occurrences txid rule) :
    ∃ stx ∈ block.payset, o = ⟨block.round, txid (rule.restoredTxn stx), rule.restoredTxn stx⟩ := by
  obtain ⟨stx, hstx, rfl⟩ := List.mem_map.1 h
  exact ⟨stx, hstx, rfl⟩

theorem sub_life_le {round life : Nat} (h : 0 < life) : round + 1 - life ≤ round := by omega

theorem extends_of_extend {life : Nat} {occs : List Occurrence} (hadm : Admissible protocols life block)
    (h : extend protocols txid inner s block = .ok (s', occs)) : Extends txid life s occs s' := by
  obtain ⟨consensus, hp, hclean, happly, rfl⟩ := extend_eq_ok h
  obtain ⟨hsupport, hfix, rfl⟩ := hadm.params consensus hp
  obtain ⟨hround, hcurrent, hleases, hrows⟩ := applyBlock_eq_ok hp happly
  obtain ⟨consensus', hp', _, hcheck⟩ := prologuePrepass_eq_clean protocols txid hclean
  obtain rfl : consensus' = consensus := Option.some.inj (hp'.symm.trans hp)
  have hnext : s.currentRound < block.round := by
    rw [hround]
    exact Nat.lt_succ_self _
  rw [paysetTxidsWithRule, ← List.map_prod_left_eq_zip] at hcheck
  obtain ⟨hpassed, hnodup, hpair⟩ := checkPaysetFrom_eq_ok hsupport hfix hnext (fun k e hk => (by cases hk)) hcheck
  rw [List.map_map] at hnodup
  rw [List.pairwise_map] at hpair
  refine ⟨?_, ?_, ?_, ?_, ?_, ?_, ?_, hcurrent.trans hround, ?_, ?_, ?_, ?_⟩
  · rw [Block.occurrences, List.map_map]
    exact hnodup
  · rw [Block.occurrences, List.pairwise_map]
    exact hpair.imp (fun hne hkey hl => absurd hkey (hne hl))
  · intro o ho
    obtain ⟨stx, _, rfl⟩ := mem_occurrences ho
    rfl
  · intro o ho
    obtain ⟨stx, hstx, rfl⟩ := mem_occurrences ho
    have hw := (hpassed _ (List.mem_map_of_mem hstx)).window
    exact ⟨hw.1, hw.2, hadm.lifeSpan stx hstx⟩
  · intro o ho
    obtain ⟨stx, _, rfl⟩ := mem_occurrences ho
    exact hround
  · intro o ho r row h₁ h₂ h₃ hrow hid
    obtain ⟨stx, hstx, rfl⟩ := mem_occurrences ho
    refine (hpassed _ (List.mem_map_of_mem hstx)).unconfirmed (ChainTail.mem_txtailConfirmedTxids.2 ?_)
    exact ⟨List.mem_map_of_mem hstx, r, row, h₁, h₂, h₃, hrow, hid⟩
  · intro o ho hl
    obtain ⟨stx, hstx, rfl⟩ := mem_occurrences ho
    exact (hpassed _ (List.mem_map_of_mem hstx)).table hl
  · intro r hr hle
    rw [hcurrent] at hr
    rw [hrows r hr, if_neg (ne_of_lt (lt_of_le_of_lt hle hnext))]
  · intro hlife o ho
    obtain ⟨stx, hstx, rfl⟩ := mem_occurrences ho
    refine ⟨_, (hrows block.round (sub_life_le hlife)).trans (if_pos rfl), ?_⟩
    rw [txtailFromBlockAndTxids_txnIds (by rw [paysetTxidsWithRule, List.length_map])]
    exact List.mem_map_of_mem hstx
  · intro k r hr hk
    rw [hleases]
    rw [hcurrent] at hr
    exact (LeaseTable.inForce_purgeExpired hr).2 (inForce_foldl_recordApplied hk)
  · intro o ho hl
    obtain ⟨stx, hstx, rfl⟩ := mem_occurrences ho
    have hw := (hpassed _ (List.mem_map_of_mem hstx)).window
    rw [hleases]
    exact (LeaseTable.inForce_purgeExpired hw.2).2 (inForce_of_applied hl (hadm.stateProof stx hstx) hstx)

section Covered

variable {life : Nat} {occs new : List Occurrence}

theorem within_life {current round first last life : Nat} (h₁ : current + 1 ≤ last) (h₂ : last ≤ first + life)
    (h₃ : first ≤ round) : current < round + life ∧ current - life ≤ round := by omega

/-- An id of the chain's past is not accepted again: its row is still within the window that is searched. -/
theorem Covered.id_ne (hc : Covered txid life occs s) (he : Extends txid life s new s')
    (hinj : Set.InjOn txid {t | ∃ o ∈ occs ++ new, o.txn = t}) {o o' : Occurrence} (ho : o ∈ occs) (ho' : o' ∈ new) :
    o.id ≠ o'.id := by
  intro hid
  have htxn : o.txn = o'.txn := by
    rw [hc.hashed o ho, he.hashed o' ho'] at hid
    exact hinj ⟨o, List.mem_append_left _ ho, rfl⟩ ⟨o', List.mem_append_right _ ho', rfl⟩ hid
  obtain ⟨_, hlast, _⟩ := he.window o' ho'
  obtain ⟨hfirst, hlife⟩ := hc.window o ho
  rw [he.round o' ho', ← htxn] at hlast
  obtain ⟨hkept, hlo⟩ := within_life hlast hlife hfirst
  obtain ⟨row, hrow, hmem⟩ := hc.rows o ho hkept
  rw [hid] at hmem
  exact he.unconfirmed o' ho' o.round row hlo (hc.past o ho).1 (hc.past o ho).2 hrow hmem

/-- A lease of the chain's past is not accepted while it is in force: the table still holds it. -/
theorem Covered.leaseFree (hc : Covered txid life occs s) (he : Extends txid life s new s') {o o' : Occurrence}
    (ho : o ∈ occs) (ho' : o' ∈ new) : o.LeaseFree o' := by
  intro hkey hl hle
  have hl' : o'.txn.lease ≠ 0 := by
    rw [← (Prod.mk.inj hkey).2]
    exact hl
  have hcurrent : s.currentRound ≤ o.txn.lastValid := by
    rw [he.round o' ho'] at hle
    exact le_trans (Nat.le_succ _) hle
  obtain ⟨e, hentry, hlast⟩ := hc.leases o ho hl hcurrent
  exact he.table o' ho' hl' ⟨e, hkey ▸ hentry, le_trans hle hlast⟩

theorem Covered.step (hc : Covered txid life occs s) (he : Extends txid life s new s') :
    Covered txid life (occs ++ new) s' where
  hashed o ho := (List.mem_append.1 ho).elim (hc.hashed o) (he.hashed o)
  past o ho := by
    rw [he.next]
    rcases List.mem_append.1 ho with ho | ho
    · exact ⟨(hc.past o ho).1, le_trans (hc.past o ho).2 (Nat.le_succ _)⟩
    · rw [he.round o ho]
      exact ⟨Nat.succ_pos _, le_refl _⟩
  window o ho := by
    rcases List.mem_append.1 ho with ho | ho
    · exact hc.window o ho
    · exact ⟨(he.window o ho).1, (he.window o ho).2.2⟩
  rows o ho hkept := by
    rcases List.mem_append.1 ho with ho | ho
    · obtain ⟨row, hrow, hid⟩ := hc.rows o ho (by rw [he.next] at hkept; exact lt_trans (Nat.lt_succ_self _) hkept)
      refine ⟨row, ?_, hid⟩
      rw [he.oldRows o.round (Nat.sub_le_of_le_add hkept) (hc.past o ho).2]
      exact hrow
    · refine he.newRow ?_ o ho
      rw [he.next, he.round o ho] at hkept
      exact Nat.lt_add_right_iff_pos.1 hkept
  leases o ho hl hle := by
    rcases List.mem_append.1 ho with ho | ho
    · refine he.oldLeases _ _ hle (hc.leases o ho hl ?_)
      rw [he.next] at hle
      exact le_trans (Nat.le_succ _) hle
    · exact he.newLeases o ho hl

end Covered

/-- **No transaction id occurs twice in a chain, and no lease is used again while it is in force.** -/
theorem no_replay (life : Nat) (s₀ : ChainTail) (blocks : List Block) (occs : List Occurrence)
    (hadm : ∀ b ∈ blocks, Admissible protocols life b)
    (hrun : run (extend protocols txid inner) s₀ blocks = .ok (s', occs))
    (hinj : Set.InjOn txid {t | ∃ o ∈ occs, o.txn = t}) :
    (occs.map Occurrence.id).Nodup ∧ occs.Pairwise Occurrence.LeaseFree := by
  have hpath : Path (fun s (_ : Block) s' new => Extends txid life s new s') s₀ occs s' := by
    refine Path.of_run ?_ hadm hrun
    intro s block s' new hblock hstep
    exact extends_of_extend hblock hstep
  refine (Path.invariant (fun tr s => Set.InjOn txid {t | ∃ o ∈ tr, o.txn = t} →
    Covered txid life tr s ∧ (tr.map Occurrence.id).Nodup ∧ tr.Pairwise Occurrence.LeaseFree) ?_ ?_ hpath hinj).2
  · intro _
    refine ⟨⟨?_, ?_, ?_, ?_, ?_⟩, List.nodup_nil, .nil⟩ <;> exact fun o ho => absurd ho List.not_mem_nil
  · intro tr s _ s' new ih he hinj
    have hpast : {t | ∃ o ∈ tr, o.txn = t} ⊆ {t | ∃ o ∈ tr ++ new, o.txn = t} := by
      rintro t ⟨o, ho, rfl⟩
      exact ⟨o, List.mem_append_left _ ho, rfl⟩
    obtain ⟨hc, hnodup, hfree⟩ := ih (hinj.mono hpast)
    refine ⟨hc.step he, ?_, ?_⟩
    · rw [List.map_append, List.nodup_append]
      refine ⟨hnodup, he.nodup, ?_⟩
      intro a ha b hb
      obtain ⟨o, ho, rfl⟩ := List.mem_map.1 ha
      obtain ⟨o', ho', rfl⟩ := List.mem_map.1 hb
      exact hc.id_ne he hinj ho ho'
    · exact List.pairwise_append.2 ⟨hfree, he.leaseFree, fun o ho o' ho' => hc.leaseFree he ho ho'⟩

end Step

/-! ## A chain of three rounds -/

section ThreePayments

/-- A protocol in which a transaction lives for two rounds. -/
def shortLived : ConsensusParams :=
  { (default : ConsensusParams) with
    maxTxnLife := 2, supportTransactionLeases := true, fixTransactionLeases := true }

def leasedPayment (sender : Address) (lease : Bytes32) (first last : Round) : SignedTransaction :=
  { (default : SignedTransaction) with
    txn := { (default : Transaction) with
      txnType := .pay, sender := sender, lease := lease, firstValid := first, lastValid := last } }

def blockOf (round : Round) (payset : List SignedTransaction) : Block :=
  { (default : Block) with round := round, payset := payset }

/-- Two payments of one sender with different leases, and the first lease again once it has expired. -/
def threePayments : List Block :=
  [blockOf 1 [leasedPayment ⟨1⟩ 7 1 2, leasedPayment ⟨1⟩ 8 1 3], blockOf 2 [], blockOf 3 [leasedPayment ⟨1⟩ 7 3 5]]

def shortTxid (t : Transaction) : Digest := ⟨BitVec.ofNat 256 (t.lease.toNat + 256 * t.firstValid)⟩

theorem no_replay_threePayments : ∃ s' occs,
    run (extend (fun _ => some shortLived) shortTxid (fun _ => [])) (default : ChainTail) threePayments = .ok (s', occs) ∧
      occs.length = 3 ∧ (occs.map Occurrence.id).Nodup ∧ occs.Pairwise Occurrence.LeaseFree := by
  obtain ⟨⟨s', occs⟩, hrun, htest⟩ := @Run.ok_of_any _ _
    (run (extend (fun _ => some shortLived) shortTxid (fun _ => [])) (default : ChainTail) threePayments)
    (fun r => decide (r.2.length = 3 ∧ (r.2.map (fun o => shortTxid o.txn)).Nodup)) (by decide)
  obtain ⟨hlength, hnodup⟩ := of_decide_eq_true htest
  have hadm : ∀ b ∈ threePayments, Admissible (fun _ => some shortLived) 2 b := by
    have hpaysets : ∀ b ∈ threePayments, (∀ stx ∈ b.payset, stx.txn.lastValid ≤ stx.txn.firstValid + 2) ∧
        ∀ stx ∈ b.payset, stx.txn.txnType.is "stpf" = true → stx.txn.lease = 0 := by decide
    intro b hb
    refine ⟨fun consensus hp => ?_, (hpaysets b hb).1, (hpaysets b hb).2⟩
    cases hp
    exact ⟨rfl, rfl, rfl⟩
  have hinj : Set.InjOn shortTxid {t | ∃ o ∈ occs, o.txn = t} := by
    rintro _ ⟨o, ho, rfl⟩ _ ⟨o', ho', rfl⟩ hid
    rw [List.inj_on_of_nodup_map hnodup ho ho' hid]
  exact ⟨s', occs, hrun, hlength, no_replay 2 default threePayments occs hadm hrun hinj⟩

end ThreePayments

end Ledger
end Algod
