import AlgodRust.Pool.TransactionPool
/-!
# Consistency — the index of the pool and its list of groups

`Indexed` relates a list of groups and an index by id: the same ids, each in one place of one group.  It is kept by
storing a group none of whose ids is there, by appending the buffers and by removing groups with all their ids.  That a
group is new is the evaluator's doing: it has seen the ids of every pending group (`Consistent.judged`), and it refuses
what it has seen.
-/
namespace Algod
namespace Pool

open Ledger (Block SignedTransaction)
open TransactionPool

variable {ε : Type} {enc : TxnEncoding} {ev : BlockEvaluator ε} {seen : ε → Digest → Prop} {groups : List Group}
  {g : Group} {inner : PoolInner ε}

/-! ## Groups and their index -/

/-- The ids of some groups, in order. -/
def allIds (enc : TxnEncoding) (groups : List Group) : List Digest := groups.flatMap (groupIds enc)

@[simp] theorem allIds_append (groups groups' : List Group) :
    allIds enc (groups ++ groups') = allIds enc groups ++ allIds enc groups' := List.flatMap_append

@[simp] theorem allIds_single (g : Group) : allIds enc [g] = groupIds enc g := by simp [allIds]

structure Indexed (enc : TxnEncoding) (groups : List Group) (txids : FinMap Digest SignedTransaction) : Prop where
  keys : ∀ id, id ∈ txids ↔ id ∈ allIds enc groups
  once : (allIds enc groups).Nodup

theorem mem_foldl_insert {α β : Type} (key : β → Digest) (value : β → α) (id : Digest) : ∀ (l : List β) (m : FinMap Digest α),
    id ∈ l.foldl (fun m x => m.insert (key x) (value x)) m ↔ id ∈ m ∨ id ∈ l.map key
  | [], m => by simp
  | x :: l, m => by
    rw [List.foldl_cons, mem_foldl_insert key value id l, AList.mem_insert, List.map_cons, List.mem_cons]
    constructor
    · rintro ((h | h) | h)
      · exact .inr (.inl h)
      · exact .inl h
      · exact .inr (.inr h)
    · rintro (h | h | h)
      · exact .inl (.inr h)
      · exact .inl (.inl h)
      · exact .inr h

theorem mem_foldl_erase {α : Type} (id : Digest) : ∀ (l : List Digest) (m : FinMap Digest α),
    id ∈ l.foldl (fun m x => m.erase x) m ↔ id ∈ m ∧ id ∉ l
  | [], m => by simp
  | x :: l, m => by
    rw [List.foldl_cons, mem_foldl_erase id l, AList.mem_erase, List.mem_cons]
    tauto

theorem Indexed.nil : Indexed enc [] ∅ := ⟨fun id => by simp [allIds], List.nodup_nil⟩

/-- A group with new ids is stored. -/
theorem Indexed.store {txids : FinMap Digest SignedTransaction} (h : Indexed enc groups txids)
    (hg : (groupIds enc g).Nodup) (hnew : ∀ id ∈ groupIds enc g, id ∉ allIds enc groups) :
    Indexed enc (groups ++ [g]) (g.foldl (fun m stx => m.insert (enc.computeTxnId stx.txn) stx) txids) := by
  constructor
  · intro id
    rw [mem_foldl_insert (fun stx : SignedTransaction => enc.computeTxnId stx.txn) (fun stx => stx), h.keys, allIds_append,
      allIds_single, List.mem_append]
    rfl
  · rw [allIds_append, allIds_single]
    exact h.once.append hg (fun id hid hid' => hnew id hid' hid)

/-- The buffers are appended. -/
theorem Indexed.append {groups groups' : List Group} {txids txids' : FinMap Digest SignedTransaction}
    (h : Indexed enc groups txids) (h' : Indexed enc groups' txids')
    (hnew : ∀ id ∈ allIds enc groups', id ∉ allIds enc groups) :
    Indexed enc (groups ++ groups') (txids'.entries.foldl (fun m e => m.insert e.1 e.2) txids) := by
  constructor
  · intro id
    rw [mem_foldl_insert (fun e : Sigma (fun _ : Digest => SignedTransaction) => e.1) (fun e => e.2), h.keys, allIds_append,
      List.mem_append, ← h'.keys]
    rfl
  · rw [allIds_append]
    exact h.once.append h'.once (fun id hid hid' => hnew id hid' hid)

theorem mem_allIds_filter {P : Group → Bool} {id : Digest} (h : (allIds enc groups).Nodup) :
    id ∈ allIds enc (groups.filter (fun g => !P g)) ↔ id ∈ allIds enc groups ∧ id ∉ allIds enc (groups.filter P) := by
  induction groups with
  | nil => simp [allIds]
  | cons g groups ih =>
    have hsplit : allIds enc (g :: groups) = groupIds enc g ++ allIds enc groups := rfl
    rw [hsplit] at h ⊢
    obtain ⟨-, hgroups, hdisj⟩ := List.nodup_append.1 h
    have hne : ∀ id, id ∈ groupIds enc g → id ∉ allIds enc groups := fun id hid hid' => hdisj id hid id hid' rfl
    have hsub : ∀ {Q : Group → Bool} {id}, id ∈ allIds enc (groups.filter Q) → id ∈ allIds enc groups := by
      intro Q id hid
      obtain ⟨g', hg', hid'⟩ := List.mem_flatMap.1 hid
      exact List.mem_flatMap.2 ⟨g', (List.mem_filter.1 hg').1, hid'⟩
    cases hP : P g with
    | true =>
      rw [List.filter_cons_of_neg (by simp [hP]), List.filter_cons_of_pos hP, ih hgroups]
      have hsplit' : allIds enc (g :: groups.filter P) = groupIds enc g ++ allIds enc (groups.filter P) := rfl
      rw [hsplit', List.mem_append, List.mem_append]
      constructor
      · rintro ⟨hid, hout⟩
        exact ⟨.inr hid, fun hor => hor.elim (fun hin => hne id hin hid) hout⟩
      · rintro ⟨hid, hout⟩
        exact ⟨hid.resolve_left (fun hin => hout (.inl hin)), fun hin => hout (.inr hin)⟩
    | false =>
      rw [List.filter_cons_of_pos (by simp [hP]), List.filter_cons_of_neg (by simp [hP])]
      have hsplit' : allIds enc (g :: groups.filter (fun g => !P g)) =
          groupIds enc g ++ allIds enc (groups.filter (fun g => !P g)) := rfl
      rw [hsplit', List.mem_append, List.mem_append, ih hgroups]
      constructor
      · rintro (hid | ⟨hid, hout⟩)
        · exact ⟨.inl hid, fun hin => hne id hid (hsub hin)⟩
        · exact ⟨.inr hid, hout⟩
      · rintro ⟨hid | hid, hout⟩
        · exact .inl hid
        · exact .inr ⟨hid, hout⟩

/-- Some groups are removed, and all their ids. -/
theorem Indexed.evict {txids : FinMap Digest SignedTransaction} (h : Indexed enc groups txids)
    (P : Group → Bool) : Indexed enc (groups.filter (fun g => !P g))
      ((allIds enc (groups.filter P)).foldl (fun m id => m.erase id) txids) := by
  constructor
  · intro id
    rw [mem_foldl_erase, h.keys, mem_allIds_filter h.once]
  · refine h.once.sublist ?_
    exact List.filter_sublist.flatMap _

/-! ## The evaluator -/

/-- An evaluator refuses a group with an id twice or with one it has seen, and it has seen what it accepted. -/
structure Refuses (enc : TxnEncoding) (ev : BlockEvaluator ε) (seen : ε → Digest → Prop) : Prop where
  accepts : ∀ e g e', ev.transactionGroup e g = (.ok (), e') →
    (groupIds enc g).Nodup ∧ ∀ id ∈ groupIds enc g, ¬ seen e id ∧ seen e' id
  keeps : ∀ e g id, seen e id → seen (ev.transactionGroup e g).2 id
  generates : ∀ e id, seen e id → seen (ev.generateBlock e).2 id
  resets : ∀ e id, seen e id → seen (ev.resetTxnBytes e) id

/-- One evaluator has seen at least what another has. -/
def Grows (seen : ε → Digest → Prop) (o o' : Option ε) : Prop :=
  ∀ e', o' = some e' → ∃ e, o = some e ∧ ∀ id, seen e id → seen e' id

theorem Grows.refl (o : Option ε) : Grows seen o o := fun e h => ⟨e, h, fun _ h => h⟩

theorem Grows.trans {o o' o'' : Option ε} (h : Grows seen o o') (h' : Grows seen o' o'') : Grows seen o o'' := by
  intro e'' he''
  obtain ⟨e', he', hseen'⟩ := h' e'' he''
  obtain ⟨e, he, hseen⟩ := h e' he'
  exact ⟨e, he, fun id hid => hseen' id (hseen id hid)⟩

/-- What a call to the evaluator leaves of the rest of the pool: all but the evaluator and the count of full blocks. -/
structure Fed (seen : ε → Digest → Prop) (inner inner' : PoolInner ε) : Prop where
  same : ∃ o n, inner' = { inner with evaluator := o, numPendingWholeBlocks := n }
  grows : Grows seen inner.evaluator inner'.evaluator

theorem Fed.refl (inner : PoolInner ε) : Fed seen inner inner :=
  ⟨⟨inner.evaluator, inner.numPendingWholeBlocks, rfl⟩, .refl _⟩

theorem Fed.trans {inner inner' inner'' : PoolInner ε} (h : Fed seen inner inner') (h' : Fed seen inner' inner'') :
    Fed seen inner inner'' := by
  obtain ⟨⟨o, n, rfl⟩, hgrows⟩ := h
  obtain ⟨⟨o', n', rfl⟩, hgrows'⟩ := h'
  exact ⟨⟨o', n', rfl⟩, hgrows.trans hgrows'⟩

/-- A group is new to the evaluator before, and seen by the one after. -/
def Admitted (enc : TxnEncoding) (seen : ε → Digest → Prop) (g : Group) (o o' : Option ε) : Prop :=
  ∃ e e', o = some e ∧ o' = some e' ∧ (groupIds enc g).Nodup ∧ ∀ id ∈ groupIds enc g, ¬ seen e id ∧ seen e' id

theorem Admitted.of_grows {o o' o'' : Option ε} (h : Grows seen o o') (h' : Admitted enc seen g o' o'') :
    Admitted enc seen g o o'' := by
  obtain ⟨e', e'', he', he'', hnodup, hids⟩ := h'
  obtain ⟨e, he, hseen⟩ := h e' he'
  exact ⟨e, e'', he, he'', hnodup, fun id hid => ⟨fun hin => (hids id hid).1 (hseen id hin), (hids id hid).2⟩⟩

variable (hev : Refuses enc ev seen)

include hev

theorem once_spec (g : Group) (inner : PoolInner ε) :
    Fed seen inner (addToPendingBlockEvaluatorOnce ev g inner).2 ∧
      ((addToPendingBlockEvaluatorOnce ev g inner).1 = .ok () →
        Admitted enc seen g inner.evaluator (addToPendingBlockEvaluatorOnce ev g inner).2.evaluator) := by
  unfold addToPendingBlockEvaluatorOnce
  cases he : inner.evaluator with
  | none => exact ⟨.refl _, fun h => nomatch h⟩
  | some e =>
    simp only
    cases checkExpired (ev.round e + inner.numPendingWholeBlocks) g with
    | error err => exact ⟨.refl _, fun h => nomatch h⟩
    | ok u =>
      simp only
      have hkeeps := hev.keeps e g
      cases htxn : ev.transactionGroup e g with
      | mk r e' =>
        rw [htxn] at hkeeps
        have hfed : Fed seen inner { inner with evaluator := some e' } := by
          refine ⟨⟨some e', inner.numPendingWholeBlocks, rfl⟩, ?_⟩
          intro e'' he''
          cases he''
          exact ⟨e, he, hkeeps⟩
        cases r with
        | error err => exact ⟨hfed, fun h => nomatch h⟩
        | ok u =>
          refine ⟨hfed, fun _ => ?_⟩
          obtain ⟨hnodup, hids⟩ := hev.accepts e g e' htxn
          exact ⟨e, e', rfl, rfl, hnodup, hids⟩

theorem nextPendingBlock_fed (inner : PoolInner ε) : Fed seen inner (nextPendingBlock ev inner) := by
  refine ⟨⟨inner.evaluator.map ev.resetTxnBytes, inner.numPendingWholeBlocks + 1, rfl⟩, ?_⟩
  intro e' he'
  obtain ⟨e, he, rfl⟩ := Option.map_eq_some_iff.1 he'
  exact ⟨e, he, hev.resets e⟩

/-- A group that goes to the evaluator, at once or after a full block. -/
theorem add_spec (g : Group) (inner : PoolInner ε) :
    Fed seen inner (addToPendingBlockEvaluator ev g inner).2 ∧
      ((addToPendingBlockEvaluator ev g inner).1 = .ok () →
        Admitted enc seen g inner.evaluator (addToPendingBlockEvaluator ev g inner).2.evaluator) := by
  obtain ⟨hfed, hok⟩ := once_spec hev g inner
  unfold addToPendingBlockEvaluator
  cases honce : addToPendingBlockEvaluatorOnce ev g inner with
  | mk r inner' =>
    rw [honce] at hfed hok
    cases r with
    | ok u => exact ⟨hfed, fun _ => hok rfl⟩
    | error err =>
      simp only
      by_cases hspace : noSpace err = true
      · rw [if_pos hspace]
        have hnext := hfed.trans (nextPendingBlock_fed hev inner')
        obtain ⟨hfed', hok'⟩ := once_spec hev g (nextPendingBlock ev inner')
        exact ⟨hnext.trans hfed', fun h => (hok' h).of_grows hnext.grows⟩
      · rw [if_neg hspace]
        exact ⟨hfed, fun h => nomatch h⟩

omit hev

/-! ## Rebuilding -/

/-- The buffers while the pending groups are fed to a new evaluator. -/
structure Feeding (enc : TxnEncoding) (seen : ε → Digest → Prop) (groups : List Group) (inner : PoolInner ε) : Prop where
  index : Indexed enc inner.rememberedTxGroups inner.rememberedTxids
  whole : ∀ g ∈ inner.rememberedTxGroups, g ∈ groups
  judged : ∀ e, inner.evaluator = some e → ∀ id ∈ allIds enc inner.rememberedTxGroups, seen e id

theorem Feeding.fed {inner inner' : PoolInner ε} (h : Feeding enc seen groups inner)
    (hfed : Fed seen inner inner') : Feeding enc seen groups inner' := by
  obtain ⟨⟨o, n, rfl⟩, hgrows⟩ := hfed
  refine ⟨h.index, h.whole, ?_⟩
  intro e' he' id hid
  obtain ⟨e, he, hseen⟩ := hgrows e' he'
  exact hseen id (h.judged e he id hid)

/-- An admitted group has none of the ids in the buffers. -/
theorem Feeding.stored {inner inner' : PoolInner ε} (h : Feeding enc seen groups inner)
    (hfed : Fed seen inner inner') (hg : g ∈ groups) (hadmitted : Admitted enc seen g inner.evaluator inner'.evaluator) :
    Feeding enc seen groups (store enc g inner') := by
  obtain ⟨e, e', he, he', hnodup, hids⟩ := hadmitted
  obtain ⟨⟨o, n, rfl⟩, hgrows⟩ := hfed
  refine ⟨h.index.store hnodup (fun id hid hin => (hids id hid).1 (h.judged e he id hin)), ?_, ?_⟩
  · intro g' hg'
    rcases List.mem_append.1 hg' with hg' | hg'
    · exact h.whole g' hg'
    · rw [List.mem_singleton.1 hg']
      exact hg
  · intro e'' he'' id hid
    have heq : e'' = e' := Option.some.inj (he''.symm.trans he')
    have hid' : id ∈ allIds enc (inner.rememberedTxGroups ++ [g]) := hid
    rw [allIds_append, allIds_single, List.mem_append] at hid'
    obtain ⟨e₀, he₀, hseen⟩ := hgrows e' he'
    rw [heq]
    rcases hid' with hid' | hid'
    · exact hseen id (h.judged e₀ he₀ id hid')
    · exact (hids id hid').2

theorem Feeding.status (h : Feeding enc seen groups inner) (c : StatusCache) :
    Feeding enc seen groups { inner with statusCache := c } := ⟨h.index, h.whole, h.judged⟩

include hev

theorem refeed_feeding (committed : Finset Digest) (h : Feeding enc seen groups inner) (hg : g ∈ groups) :
    Feeding enc seen groups (refeed enc ev committed inner g) := by
  cases g with
  | nil => exact h
  | cons first rest =>
    unfold refeed
    simp only
    by_cases hcommitted : enc.computeTxnId first.txn ∈ committed
    · rw [if_pos hcommitted]
      exact h.status _
    · rw [if_neg hcommitted]
      obtain ⟨hfed, hok⟩ := add_spec hev (first :: rest) inner
      unfold addToBlockEvaluator
      cases hadd : addToPendingBlockEvaluator ev (first :: rest) inner with
      | mk r inner' =>
        rw [hadd] at hfed hok
        cases r with
        | error err => exact (h.fed hfed).status _
        | ok u => exact h.stored hfed hg (hok rfl)

theorem foldl_refeed (committed : Finset Digest) : ∀ (l : List Group) {inner : PoolInner ε},
    (∀ g ∈ l, g ∈ groups) → Feeding enc seen groups inner →
    Feeding enc seen groups (l.foldl (refeed enc ev committed) inner)
  | [], _, _, h => h
  | g :: l, _, hl, h => by
    rw [List.foldl_cons]
    exact foldl_refeed committed l (fun g' hg' => hl g' (List.mem_cons_of_mem _ hg'))
      (refeed_feeding hev committed h (hl g List.mem_cons_self))

omit hev

/-! ## The pool -/

/-- The index and the groups agree, every group was accepted once, nothing is left in the buffers, and the evaluator
has seen every id. -/
structure Consistent (enc : TxnEncoding) (seen : ε → Digest → Prop) (accepted : List Group)
  (p : TransactionPool ε) : Prop where
  index : Indexed enc p.pending.txGroups p.pending.txids
  whole : ∀ g ∈ p.pending.txGroups, g ∈ accepted
  groups : p.inner.rememberedTxGroups = []
  txids : p.inner.rememberedTxids = ∅
  judged : ∀ e, p.inner.evaluator = some e → ∀ id ∈ allIds enc p.pending.txGroups, seen e id

variable {accepted : List Group} {p : TransactionPool ε}

theorem consistent_new (config : PoolConfig) :
    Consistent enc seen accepted (TransactionPool.new config : TransactionPool ε) :=
  ⟨.nil, (fun _ hg => nomatch hg), rfl, rfl, (fun _ he => nomatch he)⟩

theorem Consistent.mono {accepted' : List Group} (h : Consistent enc seen accepted p) (hsub : accepted ⊆ accepted') :
    Consistent enc seen accepted' p := ⟨h.index, fun g hg => hsub (h.whole g hg), h.groups, h.txids, h.judged⟩

/-- Only the pending groups, the buffers and the evaluator count. -/
theorem Consistent.of_same {p' : TransactionPool ε} (h : Consistent enc seen accepted p) (hpending : p'.pending = p.pending)
    (hgroups : p'.inner.rememberedTxGroups = p.inner.rememberedTxGroups)
    (htxids : p'.inner.rememberedTxids = p.inner.rememberedTxids)
    (hevaluator : Grows seen p.inner.evaluator p'.inner.evaluator) : Consistent enc seen accepted p' := by
  refine ⟨hpending ▸ h.index, hpending ▸ h.whole, hgroups.trans h.groups, htxids.trans h.txids, ?_⟩
  intro e' he' id hid
  rw [hpending] at hid
  obtain ⟨e, he, hseen⟩ := hevaluator e' he'
  exact hseen id (h.judged e he id hid)

theorem Grows.none (o : Option ε) : Grows seen o none := fun _ h => nomatch h

/-- After a rebuild the buffers are the pending groups. -/
theorem Feeding.committed (h : Feeding enc seen groups p.inner) (hsub : ∀ g ∈ groups, g ∈ accepted) :
    Consistent enc seen accepted (rememberCommit true p) :=
  ⟨h.index, fun g hg => hsub g (h.whole g hg), rfl, rfl, h.judged⟩

include hev

theorem pregenerate_feeding (h : Feeding enc seen groups p.inner) :
    Feeding enc seen groups (pregenerate ev p).inner := by
  unfold pregenerate
  cases he : p.inner.evaluator with
  | none => exact h
  | some e =>
    simp only
    have hgen := hev.generates e
    split
    · cases hblock : ev.generateBlock e with
      | mk r e' =>
        rw [hblock] at hgen
        have hfed : Fed seen p.inner { p.inner with evaluator := some e' } := by
          refine ⟨⟨some e', p.inner.numPendingWholeBlocks, rfl⟩, ?_⟩
          intro e'' he''
          cases he''
          exact ⟨e, he, hgen⟩
        cases r with
        | error err => exact h.fed hfed
        | ok block => exact h.fed hfed
    · exact h

/-- **A rebuild keeps the pool consistent**, also where it stops early. -/
theorem Consistent.recompute (h : Consistent enc seen accepted p) (ledger : PoolLedger ε) (committed : Finset Digest) :
    Consistent enc seen accepted (recomputeBlockEvaluator enc ev ledger committed p) := by
  unfold recomputeBlockEvaluator
  simp only
  by_cases hpaused : p.inner.evaluatorPaused = true
  · rw [if_pos hpaused]
    exact h.of_same rfl rfl rfl (.none _)
  · rw [if_neg hpaused]
    cases ledger.blockHdr ledger.latest with
    | error e => exact h.of_same rfl rfl rfl (.none _)
    | ok hdr =>
      simp only
      cases ledger.startEvaluator hdr ((p.pending.txGroups.map List.length).sum -
          (p.inner.pausedCommitted.foldl (· ∪ ·) committed).card) 0 with
      | error e => exact h.of_same rfl rfl rfl (.none _)
      | ok e =>
        refine Feeding.committed (pregenerate_feeding hev (foldl_refeed hev _ p.pending.txGroups (fun g hg => hg) ?_)) h.whole
        exact ⟨.nil, (fun _ hg => nomatch hg), (fun _ _ _ hid => nomatch hid)⟩

theorem Consistent.reprime (h : Consistent enc seen accepted p) (m : Moment ε) :
    Consistent enc seen accepted (maybeReprime enc ev m p) := by
  unfold maybeReprime
  split
  · exact h
  · split
    · exact h
    · refine Consistent.recompute hev ?_ _ _
      exact h.of_same rfl rfl rfl (.refl _)

omit hev

/-! ## Calls -/

/-- The check of the capacity changes no more than the allowance of state proofs. -/
theorem checkPendingQueueSize_cases (p : TransactionPool ε) (g : Group) :
    (checkPendingQueueSize p g).2 = p ∨
      (checkPendingQueueSize p g).2 = { p with inner := { p.inner with stateproofOverflowed := true } } := by
  unfold checkPendingQueueSize
  split
  · split
    · split
      · exact .inr rfl
      · exact .inl rfl
    · exact .inl rfl
  · exact .inl rfl

theorem Consistent.checked (h : Consistent enc seen accepted p) (g : Group) :
    Consistent enc seen accepted (checkPendingQueueSize p g).2 := by
  rcases checkPendingQueueSize_cases p g with heq | heq <;> rw [heq]
  · exact h
  · exact h.of_same rfl rfl rfl (.refl _)

/-- A group in the buffers is put behind the pending ones. -/
theorem Consistent.commitGroup {e e' : ε} (h : Consistent enc seen accepted p)
    (hfed : Fed seen p.inner inner) (he : p.inner.evaluator = some e) (he' : inner.evaluator = some e')
    (hnodup : (groupIds enc g).Nodup) (hids : ∀ id ∈ groupIds enc g, ¬ seen e id ∧ seen e' id) :
    Consistent enc seen (g :: accepted) (rememberCommit false { p with inner := store enc g inner }) := by
  obtain ⟨⟨o, n, rfl⟩, hgrows⟩ := hfed
  have hbuffer := Indexed.nil.store hnodup (fun id _ hid => nomatch hid)
  have hnew : ∀ id ∈ allIds enc [g], id ∉ allIds enc p.pending.txGroups := by
    intro id hid hin
    rw [allIds_single] at hid
    exact (hids id hid).1 (h.judged e he id hin)
  unfold rememberCommit store
  simp only [Bool.false_eq_true, if_false, h.groups, h.txids, List.nil_append]
  refine ⟨h.index.append hbuffer hnew, ?_, rfl, rfl, ?_⟩
  · intro g' hg'
    rcases List.mem_append.1 hg' with hg' | hg'
    · exact List.mem_cons_of_mem _ (h.whole g' hg')
    · rw [List.mem_singleton.1 hg']
      exact List.mem_cons_self
  · intro e'' he'' id hid
    have heq : e'' = e' := Option.some.inj (he''.symm.trans he')
    simp only [allIds_append, allIds_single, List.mem_append] at hid
    obtain ⟨e₀, he₀, hseen⟩ := hgrows e' he'
    rw [heq]
    rcases hid with hid | hid
    · exact hseen id (h.judged e₀ he₀ id hid)
    · exact (hids id hid).2

include hev

/-- A group that is judged: the pool stays consistent where it is refused, and once it is committed where it is not. -/
theorem judge_spec (h : Consistent enc seen accepted p) (m : Moment ε) (g : Group) (e : ε) :
    match judge enc ev m g p e with
    | (.error _, p') => Consistent enc seen accepted p'
    | (.ok _, p') => Consistent enc seen (g :: accepted) (rememberCommit false p') := by
  unfold judge
  simp only
  have hp : Consistent enc seen accepted { p with feePerByte := recomputeFeePerByte p } := h.of_same rfl rfl rfl (.refl _)
  cases checkFees enc (recomputeFeePerByte p) g.length g with
  | error err => exact hp
  | ok u =>
    simp only
    generalize (if ev.checksDuplicates e = true then Except.ok () else
      checkDuplicate enc m.ledger { p with feePerByte := recomputeFeePerByte p } g) = dup
    cases dup with
    | error err => exact hp
    | ok u =>
      simp only
      obtain ⟨hfed, hok⟩ := add_spec hev g p.inner
      cases hadd : addToPendingBlockEvaluator ev g p.inner with
      | mk r inner =>
        rw [hadd] at hfed hok
        cases r with
        | error err =>
          obtain ⟨⟨o, n, rfl⟩, hgrows⟩ := hfed
          exact h.of_same rfl rfl rfl hgrows
        | ok u =>
          obtain ⟨e₀, e', he₀, he', hnodup, hids⟩ := hok rfl
          exact hp.commitGroup hfed he₀ he' hnodup hids

theorem ingest_spec (h : Consistent enc seen accepted p) (m : Moment ε) (g : Group) :
    match ingest enc ev m g p with
    | (.error _, p') => Consistent enc seen accepted p'
    | (.ok _, p') => Consistent enc seen (g :: accepted) (rememberCommit false p') := by
  unfold ingest
  by_cases hpaused : p.inner.evaluatorPaused = true
  · rw [if_pos hpaused]
    exact h
  · rw [if_neg hpaused]
    simp only
    have hprimed := h.reprime hev m
    cases (maybeReprime enc ev m p).inner.evaluator with
    | none => exact hprimed
    | some e => exact judge_spec hev hprimed m g e

theorem remember_spec (h : Consistent enc seen accepted p) (m : Moment ε) (g : Group) :
    match remember enc ev m g p with
    | (.error _, p') => Consistent enc seen accepted p'
    | (.ok _, p') => Consistent enc seen (g :: accepted) p' := by
  unfold remember
  cases rejectInBlockFlags 0 g with
  | error err => exact h
  | ok u =>
    simp only
    have hchecked := h.checked g
    cases hsize : checkPendingQueueSize p g with
    | mk r p₁ =>
      rw [hsize] at hchecked
      cases r with
      | error err => exact hchecked
      | ok u =>
        simp only
        by_cases hdown : p₁.shutdown = true
        · rw [if_pos hdown]
          exact hchecked
        · rw [if_neg hdown]
          have hingest := ingest_spec hev hchecked m g
          cases hin : ingest enc ev m g p₁ with
          | mk r p₂ =>
            rw [hin] at hingest
            cases r with
            | error err => exact hingest
            | ok u => exact hingest

theorem Consistent.test (h : Consistent enc seen accepted p) (m : Moment ε) (g : Group) :
    Consistent enc seen accepted (test enc ev m g p).2 := by
  unfold TransactionPool.test
  cases rejectInBlockFlags 0 g with
  | error err => exact h
  | ok u =>
    simp only
    have hchecked := h.checked g
    cases hsize : checkPendingQueueSize p g with
    | mk r p₁ =>
      rw [hsize] at hchecked
      cases r with
      | error err => exact hchecked
      | ok u =>
        simp only
        by_cases hpaused : p₁.inner.evaluatorPaused = true
        · rw [if_pos hpaused]
          exact hchecked
        · rw [if_neg hpaused]
          have hprimed := hchecked.reprime hev m
          cases (maybeReprime enc ev m p₁).inner.evaluator with
          | none => exact hprimed
          | some e =>
            simp only
            cases ev.testTransactionGroup e g with
            | error err => exact hprimed
            | ok u => exact hprimed

theorem Consistent.newBlock (h : Consistent enc seen accepted p) (m : Moment ε) (round : Round) (committed : Finset Digest) :
    Consistent enc seen accepted (onNewBlock enc ev m round committed p) := by
  unfold onNewBlock
  split
  · exact h
  split
  · split
    · exact h.of_same rfl rfl rfl (.refl _)
    · exact h
  split
  · refine Consistent.recompute hev ?_ _ _
    exact h.of_same rfl rfl rfl (.refl _)
  · exact h

theorem Consistent.evicted (h : Consistent enc seen accepted p) (m : Moment ε) (ids : List Digest) (error : AlgoError) :
    Consistent enc seen accepted (evictGroups enc ev m ids error p).2 := by
  unfold evictGroups
  simp only
  split
  · exact h
  · have hleft : ∀ c, Consistent enc seen accepted
        { p with
          pending := ⟨p.pending.txGroups.filter (fun g => !hit enc p ids g),
            ((p.pending.txGroups.filter (hit enc p ids)).flatMap (groupIds enc)).foldl
              (fun m id => m.erase id) p.pending.txids⟩
          inner := { p.inner with statusCache := c } } := by
      intro c
      refine ⟨h.index.evict (hit enc p ids), ?_, h.groups, h.txids, ?_⟩
      · intro g hg
        exact h.whole g (List.mem_filter.1 hg).1
      · intro e he id hid
        exact h.judged e he id ((mem_allIds_filter h.index.once).1 hid).1
    simp only
    split
    · exact Consistent.recompute hev (hleft _) _ _
    · exact hleft _

theorem Consistent.assembled (h : Consistent enc seen accepted p) (m : Moment ε) :
    Consistent enc seen accepted (assembleDevModeBlock enc ev m p).2 := by
  have hre := h.recompute hev m.ledger ∅
  unfold assembleDevModeBlock
  simp only
  cases (recomputeBlockEvaluator enc ev m.ledger ∅ p).inner.evaluator with
  | none => exact hre
  | some e =>
    simp only
    unfold assembleBlock
    simp only
    split
    · exact hre
    split
    · exact hre
    split
    · exact hre.of_same rfl rfl rfl (.refl _)
    · exact hre.of_same rfl rfl rfl (.refl _)

/-- **Every call keeps the pool consistent**, with the group it accepts added to those accepted. -/
theorem Consistent.perform (h : Consistent enc seen accepted p) (m : Moment ε) (c : Call) :
    Consistent enc seen (acceptedGroups enc ev [(m, c)] p ++ accepted) (perform enc ev m p c).2 := by
  cases c with
  | remember g =>
    have hspec := remember_spec hev h m g
    unfold acceptedGroups Pool.perform
    simp only
    cases hrem : TransactionPool.remember enc ev m g p with
    | mk r p' =>
      rw [hrem] at hspec
      cases r with
      | error err => exact hspec
      | ok u => exact hspec
  | test g => exact h.test hev m g
  | lookup id => exact h
  | onNewBlock round committed => exact h.newBlock hev m round committed
  | evictGroups ids error => exact h.evicted hev m ids error
  | pauseEvaluator => exact h.of_same rfl rfl rfl (.none _)
  | resumeEvaluator prime =>
    have hready : ∀ attempt, Consistent enc seen accepted
        { p with inner := { p.inner with evaluatorPaused := false, pausedLastRound := none, reprimeAttempt := attempt } } :=
      fun _ => h.of_same rfl rfl rfl (.refl _)
    cases prime with
    | true => exact (hready _).recompute hev m.ledger ∅
    | false => exact hready _
  | assembleDevModeBlock => exact h.assembled hev m
  | ensureEvaluatorPrimed =>
    show Consistent enc seen accepted (TransactionPool.ensureEvaluatorPrimed enc ev m p)
    unfold TransactionPool.ensureEvaluatorPrimed
    split
    · exact h.recompute hev _ _
    · exact h
  | reset => exact ⟨.nil, (fun _ hg => nomatch hg), rfl, rfl, (fun _ he => nomatch he)⟩
  | shutDown => exact h.of_same rfl rfl rfl (.refl _)

omit hev

/-- The accepted groups of a run are those of its first call and those of the others. -/
theorem acceptedGroups_cons (m : Moment ε) (c : Call) (calls : List (Moment ε × Call)) (p : TransactionPool ε) :
    acceptedGroups enc ev ((m, c) :: calls) p =
      acceptedGroups enc ev [(m, c)] p ++ acceptedGroups enc ev calls (perform enc ev m p c).2 := by
  simp only [acceptedGroups]
  split
  · rfl
  · rfl

include hev

theorem Consistent.performAll : ∀ (calls : List (Moment ε × Call)) {accepted : List Group} {p : TransactionPool ε},
    Consistent enc seen accepted p →
    Consistent enc seen (acceptedGroups enc ev calls p ++ accepted) (performAll enc ev calls p).2
  | [], _, _, h => h
  | (m, c) :: calls, accepted, p, h => by
    have hrest := Consistent.performAll calls (h.perform hev m c)
    rw [acceptedGroups_cons]
    refine hrest.mono ?_
    intro g hg
    simp only [List.mem_append] at hg ⊢
    tauto

/-- **The index and the list of groups describe the same set**, after every call of every run from a new pool: the keys
of the index are the ids of the members, each id stands in one place of one group, every group was accepted whole by
`remember`, and the buffers are empty. -/
theorem pool_indexed (config : PoolConfig) (calls : List (Moment ε × Call)) (p : TransactionPool ε)
    (hp : p = (Pool.performAll enc ev calls (TransactionPool.new config)).2) :
    (∀ id, id ∈ p.pending.txids ↔ ∃ g ∈ p.pending.txGroups, ∃ stx ∈ g, enc.computeTxnId stx.txn = id) ∧
    (p.pending.txGroups.flatMap (groupIds enc)).Nodup ∧
    (∀ g ∈ p.pending.txGroups, g ∈ acceptedGroups enc ev calls (TransactionPool.new config)) ∧
    p.inner.rememberedTxGroups = [] ∧ p.inner.rememberedTxids = ∅ := by
  have h := Consistent.performAll hev calls (@consistent_new _ _ _ [] config)
  rw [List.append_nil] at h
  subst hp
  refine ⟨?_, h.index.once, h.whole, h.groups, h.txids⟩
  intro id
  rw [h.index.keys]
  simp only [allIds, groupIds, List.mem_flatMap, List.mem_map]

omit hev

/-! ## A run with a refusal, a block and an eviction -/

/-- A signed payment of some amount. -/
def samplePayment (amount : Nat) : SignedTransaction :=
  { (default : SignedTransaction) with
    sig := 1
    txn := { (default : Ledger.Transaction) with
      txnType := .pay, sender := ⟨1⟩, fee := 1000, firstValid := 1, lastValid := 1000,
      genesisHash := 0x4863b518a4b3c84ec810f22d4f1081cb0f71f059a7ac20dec62f7f70e5093a22,
      amount := amount, receiver := ⟨2⟩ } }

/-- The ids of the payments of 1 and of 2, and of a bare state proof. -/
def sampleEncoding : TxnEncoding where
  computeTxnId txn :=
    if txn.amount = 1 then ⟨0x1ce4729b193b8cd0b64bbb3ac1f2a52ef108ed6c924f523ec6a26754320e4ecd⟩
    else if txn.amount = 2 then ⟨0x4be013d9beae29623ac000c74970804a93e4336b24ceb09984b887f4e21d907e⟩
    else ⟨0xac5df9739b66b613793389dcd8c87e6d79bf416b3485b2433fde76d655d74cd0⟩
  encodedLen _ := 220

/-- An evaluator that accepts every group with new ids. -/
def listingEvaluator (round : Round) : BlockEvaluator (List Digest) where
  round _ := round
  testTransactionGroup ids g :=
    if (ids ++ groupIds sampleEncoding g).Nodup then .ok () else .error (.ledger "transaction already in ledger")
  transactionGroup ids g :=
    if (ids ++ groupIds sampleEncoding g).Nodup then (.ok (), ids ++ groupIds sampleEncoding g)
    else (.error (.ledger "transaction already in ledger"), ids)
  generateBlock ids := (.ok default, ids)
  resetTxnBytes ids := ids
  checksDuplicates _ := true

theorem listingEvaluator_refuses (round : Round) :
    Refuses sampleEncoding (listingEvaluator round) (fun ids id => id ∈ ids) where
  accepts e g e' h := by
    simp only [listingEvaluator] at h
    split at h
    · rename_i hnodup
      cases h
      obtain ⟨-, hg, hdisj⟩ := List.nodup_append.1 hnodup
      exact ⟨hg, fun id hid => ⟨fun hin => hdisj id hin id hid rfl, List.mem_append_right _ hid⟩⟩
    · cases h
  keeps e g id h := by
    simp only [listingEvaluator]
    split
    · exact List.mem_append_left _ h
    · exact h
  generates _ _ h := h
  resets _ _ h := h

def sampleMoment : Moment (List Digest) where
  ledger := ⟨10, fun _ => .ok default, fun _ _ _ => .ok [], fun _ => false⟩
  now := 0

/-- Two payments are accepted and the first is refused when it comes again; a block has the first; the second is
evicted, and it is accepted once more. -/
def sampleCalls : List (Moment (List Digest) × Call) :=
  [.ensureEvaluatorPrimed, .remember [samplePayment 1], .remember [samplePayment 1], .remember [samplePayment 2],
    .onNewBlock 11 {sampleEncoding.computeTxnId (samplePayment 1).txn},
    .evictGroups [sampleEncoding.computeTxnId (samplePayment 2).txn] (.ledger "stuck"),
    .remember [samplePayment 2]].map (fun c => (sampleMoment, c))

def samplePool : TransactionPool (List Digest) :=
  (performAll sampleEncoding (listingEvaluator 11) sampleCalls (.new ⟨10, 2, 500⟩)).2

set_option maxRecDepth 20000 in
theorem pool_indexed_sample :
    samplePool.pending.txGroups.map (·.map (·.txn.amount)) = [[2]] ∧
    (∀ id, id ∈ samplePool.pending.txids ↔
      ∃ g ∈ samplePool.pending.txGroups, ∃ stx ∈ g, sampleEncoding.computeTxnId stx.txn = id) := by
  constructor
  · decide
  · exact (pool_indexed (listingEvaluator_refuses 11) ⟨10, 2, 500⟩ sampleCalls samplePool rfl).1

end Pool
end Algod
