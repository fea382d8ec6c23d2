import AlgodRust.Ledger.Store
/-!
# TxTailCache — the txtail kept in memory for duplicate checks

The cache holds the ids of the rounds of a window, which it slides and enlarges as it is asked to, and an index from an id
to the number of times it is there and the newest round that has it.  Rounds are loaded once, dropped oldest first, and
rebuilt when the ledger went back or the window grew.  Against rows that do not change, its answers are those of a scan of
the rows (`containsWithin_iff_scan`).  Counts are numbers without bound: the ids of a count that leaves 32 bits do not fit
into the memory of a node.
-/
namespace Algod
namespace Ledger

open Msgpack (Bytes)

structure CachedRound where
  round : Nat
  ids : List Digest
  missing : Bool
deriving DecidableEq, Repr

/-- The count, a `u32`, is at most the number of the ids that are kept. -/
structure TxidEntry where
  count : Nat
  newest : Nat
deriving DecidableEq, Repr

structure TxTailDupCache where
  loadedHi : Nat
  lookback : Nat
  rounds : List CachedRound
  retriedAt : Nat
  txids : FinMap Digest TxidEntry

instance : Inhabited TxTailDupCache := ⟨⟨0, 0, [], 0, ∅⟩⟩

def maxRetriesPerRound : Nat := 8

namespace TxTailDupCache

abbrev Index := FinMap Digest TxidEntry

def indexId (round : Nat) (index : Index) (id : Digest) : Index :=
  let entry := FinMap.getD index id ⟨0, round⟩
  index.insert id ⟨entry.count + 1, max entry.newest round⟩

/-- Count the ids of a round into the index. -/
def indexIds (index : Index) (ids : List Digest) (round : Nat) : Index := ids.foldl (indexId round) index

def unindexId (index : Index) (id : Digest) : Index :=
  match index.lookup id with
  | some entry => if entry.count > 1 then index.insert id { entry with count := entry.count - 1 } else index.erase id
  | none => index.erase id

/-- Drop the rounds below `lo` from the front. -/
def evictBelow (lo : Nat) : List CachedRound → Index → List CachedRound × Index
  | [], index => ([], index)
  | r :: rs, index =>
    if r.round < lo then evictBelow lo rs (r.ids.foldl unindexId index) else (r :: rs, index)

section Fetch

variable (fetch : Nat → Option Bytes) (decodeTail : Bytes → Option TxTailRound)

/-- The ids of a serialized row; none where it does not decode. -/
def decodeIds (bytes : Bytes) : List Digest := ((decodeTail bytes).map TxTailRound.txnIds).getD []

/-- Fetch rows that were absent again, up to a number of them; a round below the earliest row is given up. -/
def retryMissing (earliest : Option Nat) : Nat → List CachedRound → Index → List CachedRound × Index
  | _, [], index => ([], index)
  | retries, r :: rs, index =>
    if !r.missing then
      let rest := retryMissing earliest retries rs index
      (r :: rest.1, rest.2)
    else if earliest.any (fun e => decide (r.round < e)) then
      let rest := retryMissing earliest retries rs index
      ({ r with missing := false } :: rest.1, rest.2)
    else if retries = maxRetriesPerRound then (r :: rs, index)
    else
      match fetch r.round with
      | none =>
        let rest := retryMissing earliest (retries + 1) rs index
        (r :: rest.1, rest.2)
      | some bytes =>
        let ids := decodeIds decodeTail bytes
        let rest := retryMissing earliest (retries + 1) rs (indexIds index ids r.round)
        ({ r with ids := ids, missing := false } :: rest.1, rest.2)

def loadRound (round : Nat) : CachedRound :=
  match fetch round with
  | some bytes => ⟨round, decodeIds decodeTail bytes, false⟩
  | none => ⟨round, [], true⟩

/-- Append a round to the window. -/
def pushRound (st : List CachedRound × Index) (round : Nat) : List CachedRound × Index :=
  let loaded := loadRound fetch decodeTail round
  (st.1 ++ [loaded], indexIds st.2 loaded.ids round)

/-- **Bring the cache up to date** with the committed round and a window. -/
def syncWindowWith (earliest : Option Nat) (currentRound lookback : Nat) (t : TxTailDupCache) : TxTailDupCache :=
  let t := if currentRound < t.loadedHi ∨ lookback > t.lookback then { (default : TxTailDupCache) with lookback } else t
  let lo := max (currentRound - t.lookback) 1
  let st := evictBelow lo t.rounds t.txids
  let st :=
    if currentRound > t.retriedAt then
      if st.1.any CachedRound.missing then retryMissing fetch decodeTail earliest 0 st.1 st.2 else st
    else st
  let start := max (wrapAdd t.loadedHi 1) lo
  let st := (List.range' start (currentRound + 1 - start)).foldl (pushRound fetch decodeTail) st
  { loadedHi := max t.loadedHi currentRound
    lookback := t.lookback
    rounds := st.1
    retriedAt := max t.retriedAt currentRound
    txids := st.2 }

def syncWindow (currentRound lookback : Nat) (t : TxTailDupCache) : TxTailDupCache :=
  syncWindowWith fetch decodeTail none currentRound lookback t

end Fetch

def containsWithin (t : TxTailDupCache) (txid : Digest) (lookback : Nat) : Bool :=
  let lo := max (t.loadedHi - lookback) 1
  (t.txids.lookup txid).any (fun e => decide (e.newest ≥ lo))

/-! ## The index

An id with the round it is in is a listing; the index counts listings, wherever they are from. -/

abbrev Listing := Nat × Digest

def listings (rounds : List CachedRound) : List Listing := rounds.flatMap (fun r => r.ids.map (fun id => (r.round, id)))

/-- What an entry of the index says: the number of listings of the id, and the newest round among them. -/
structure EntryOf (ls : List Listing) (id : Digest) (e : TxidEntry) : Prop where
  count : e.count = (ls.map Prod.snd).count id
  held : (e.newest, id) ∈ ls
  newest : ∀ n, (n, id) ∈ ls → n ≤ e.newest

/-- The index is right about the listings. -/
structure Indexed (ls : List Listing) (index : Index) : Prop where
  absent : ∀ id, index.lookup id = none → ∀ n, (n, id) ∉ ls
  entry : ∀ id e, index.lookup id = some e → EntryOf ls id e

section Index

variable {ls : List Listing} {index : Index} {id : Digest} {round : Nat}

theorem mem_listings {rounds : List CachedRound} :
    (round, id) ∈ listings rounds ↔ ∃ r ∈ rounds, r.round = round ∧ id ∈ r.ids := by
  unfold listings
  rw [List.mem_flatMap]
  constructor
  · rintro ⟨r, hr, h⟩
    obtain ⟨x, hx, he⟩ := List.mem_map.1 h
    cases he
    exact ⟨r, hr, rfl, hx⟩
  · rintro ⟨r, hr, rfl, hid⟩
    exact ⟨r, hr, List.mem_map_of_mem hid⟩

theorem indexed_nil : Indexed [] ∅ := by
  refine ⟨fun _ _ _ => List.not_mem_nil, fun id e h => ?_⟩
  rw [AList.lookup_empty] at h
  cases h

/-- A listing of another id changes nothing. -/
theorem EntryOf.other {ls' : List Listing} {x : Digest} {e : TxidEntry} (h : EntryOf ls x e)
    (hcount : (ls'.map Prod.snd).count x = (ls.map Prod.snd).count x) (hmem : ∀ n, (n, x) ∈ ls' ↔ (n, x) ∈ ls) :
    EntryOf ls' x e :=
  ⟨h.count.trans hcount.symm, (hmem _).2 h.held, fun n hn => h.newest n ((hmem n).1 hn)⟩

/-- **A listing is counted.** -/
theorem Indexed.indexId (h : Indexed ls index) (round : Nat) (id : Digest) :
    Indexed (ls ++ [(round, id)]) (indexId round index id) := by
  have hmem : ∀ n x, (n, x) ∈ ls ++ [(round, id)] ↔ (n, x) ∈ ls ∨ n = round ∧ x = id := by simp
  have hlookup : ∀ x, (TxTailDupCache.indexId round index id).lookup x = if x = id then
      some ⟨(FinMap.getD index id ⟨0, round⟩).count + 1, max (FinMap.getD index id ⟨0, round⟩).newest round⟩
      else index.lookup x := fun x => FinMap.lookup_insert_eq index id x _
  constructor
  · intro x hx n
    rw [hlookup] at hx
    split at hx
    · cases hx
    · rename_i hne
      rw [hmem]
      rintro (hn | ⟨-, hn⟩)
      · exact h.absent x hx n hn
      · exact hne hn
  · intro x e hx
    rw [hlookup] at hx
    split at hx
    · rename_i heq
      subst heq
      cases hx
      have hcount : ((ls ++ [(round, x)]).map Prod.snd).count x = (ls.map Prod.snd).count x + 1 := by
        simp [List.count_append]
      cases hold : index.lookup x with
      | none =>
        have habsent := h.absent x hold
        have hzero : (ls.map Prod.snd).count x = 0 := by
          rw [List.count_eq_zero]
          intro hm
          obtain ⟨⟨n, y⟩, hl, rfl⟩ := List.mem_map.1 hm
          exact habsent n hl
        have hgetD : FinMap.getD index x ⟨0, round⟩ = ⟨0, round⟩ := by rw [FinMap.getD, hold]; rfl
        rw [hgetD]
        refine ⟨by rw [hcount, hzero], (hmem _ _).2 (.inr ⟨Nat.max_self round, rfl⟩), fun n hn => ?_⟩
        rcases (hmem n x).1 hn with hn | ⟨rfl, -⟩
        · exact absurd hn (habsent n)
        · exact Nat.le_max_left _ _
      | some e =>
        have he := h.entry x e hold
        have hgetD : FinMap.getD index x ⟨0, round⟩ = e := by rw [FinMap.getD, hold]; rfl
        rw [hgetD]
        refine ⟨by rw [hcount, he.count], (hmem _ _).2 ?_, fun n hn => ?_⟩
        · rcases Nat.le_total round e.newest with hle | hle
          · exact .inl ((Nat.max_eq_left hle).symm ▸ he.held)
          · exact .inr ⟨Nat.max_eq_right hle, rfl⟩
        · rcases (hmem n x).1 hn with hn | ⟨rfl, -⟩
          · exact (he.newest n hn).trans (Nat.le_max_left _ _)
          · exact Nat.le_max_right _ _
    · rename_i hne
      refine (h.entry x e hx).other ?_ fun n => ?_
      · simp [List.count_append, Ne.symm hne]
      · rw [hmem]
        exact ⟨fun hn => hn.resolve_right fun hr => hne hr.2, .inl⟩

theorem Indexed.indexIds : ∀ {ls : List Listing} {index : Index} (ids : List Digest) (round : Nat), Indexed ls index →
    Indexed (ls ++ ids.map (fun id => (round, id))) (indexIds index ids round)
  | ls, index, [], round, h => by
    rw [List.map_nil, List.append_nil]
    exact h
  | ls, index, id :: ids, round, h => by
    have := Indexed.indexIds ids round (h.indexId round id)
    rw [List.append_assoc] at this
    exact this

/-- **The oldest listing is taken out.** -/
theorem Indexed.unindexId (h : Indexed ((round, id) :: ls) index) (hold : ∀ l ∈ ls, round ≤ l.1) :
    Indexed ls (unindexId index id) := by
  have hmem : ∀ n x, (n, x) ∈ (round, id) :: ls ↔ n = round ∧ x = id ∨ (n, x) ∈ ls := by simp
  have hcount : (((round, id) :: ls).map Prod.snd).count id = (ls.map Prod.snd).count id + 1 := by simp
  have hother : ∀ x e, x ≠ id → index.lookup x = some e → EntryOf ls x e := by
    intro x e hne hx
    refine (h.entry x e hx).other ?_ fun n => ?_
    · simp [Ne.symm hne]
    · rw [hmem]
      exact ⟨.inr, fun hn => hn.resolve_left fun hl => hne hl.2⟩
  have habsent : ∀ x, x ≠ id → index.lookup x = none → ∀ n, (n, x) ∉ ls := fun x _ hx n hn =>
    h.absent x hx n (List.mem_cons_of_mem _ hn)
  cases hid : index.lookup id with
  | none => exact absurd List.mem_cons_self (h.absent id hid round)
  | some e =>
    have he := h.entry id e hid
    have hdef : TxTailDupCache.unindexId index id = if e.count > 1 then
        index.insert id { e with count := e.count - 1 } else index.erase id := by
      unfold TxTailDupCache.unindexId
      rw [hid]
    rw [hdef]
    by_cases hmany : e.count > 1
    · rw [if_pos hmany]
      have hlookup : ∀ x, (index.insert id { e with count := e.count - 1 }).lookup x =
          if x = id then some { e with count := e.count - 1 } else index.lookup x := fun x =>
        FinMap.lookup_insert_eq index id x _
      have hrest : ∃ n, (n, id) ∈ ls := by
        have hpos : 0 < (ls.map Prod.snd).count id := by
          have := he.count
          omega
        obtain ⟨⟨n, x⟩, hl, rfl⟩ := List.mem_map.1 (List.count_pos_iff.1 hpos)
        exact ⟨n, hl⟩
      constructor
      · intro x hx n
        rw [hlookup] at hx
        split at hx
        · cases hx
        · rename_i hne
          exact habsent x hne hx n
      · intro x e' hx
        rw [hlookup] at hx
        split at hx
        · rename_i heq
          subst heq
          cases hx
          refine ⟨?_, ?_, fun n hn => he.newest n (List.mem_cons_of_mem _ hn)⟩
          · have := he.count
            simp only
            omega
          · -- the newest listing may have been the one taken out; then another one is as new
            rcases (hmem _ _).1 he.held with ⟨hnew, -⟩ | hin
            · obtain ⟨n, hn⟩ := hrest
              have hsame : n = e.newest :=
                Nat.le_antisymm (he.newest n (List.mem_cons_of_mem _ hn)) (hnew ▸ hold _ hn)
              rw [← hsame]
              exact hn
            · exact hin
        · rename_i hne
          exact hother x e' hne hx
    · rw [if_neg hmany]
      have hzero : (ls.map Prod.snd).count id = 0 := by
        have := he.count
        omega
      constructor
      · intro x hx n hn
        by_cases hne : x = id
        · subst hne
          exact List.count_eq_zero.1 hzero (List.mem_map_of_mem hn)
        · rw [FinMap.lookup_erase_eq, if_neg hne] at hx
          exact habsent x hne hx n hn
      · intro x e' hx
        by_cases hne : x = id
        · rw [FinMap.lookup_erase_eq, if_pos hne] at hx
          cases hx
        · rw [FinMap.lookup_erase_eq, if_neg hne] at hx
          exact hother x e' hne hx

theorem Indexed.unindexIds : ∀ {ls : List Listing} {index : Index} (ids : List Digest),
    Indexed (ids.map (fun id => (round, id)) ++ ls) index → (∀ l ∈ ls, round ≤ l.1) →
      Indexed ls (ids.foldl TxTailDupCache.unindexId index)
  | _, _, [], h, _ => h
  | ls, index, id :: ids, h, hold => by
    refine Indexed.unindexIds ids (h.unindexId fun l hl => ?_) hold
    rcases List.mem_append.1 hl with hl | hl
    · obtain ⟨_, -, rfl⟩ := List.mem_map.1 hl
      exact Nat.le_refl _
    · exact hold l hl

end Index

/-! ## The window -/

section Window

variable {fetch : Nat → Option Bytes} {decodeTail : Bytes → Option TxTailRound} {t : TxTailDupCache}

/-- The ids in the row of a round. -/
def rowIds (fetch : Nat → Option Bytes) (decodeTail : Bytes → Option TxTailRound) (round : Nat) : List Digest :=
  ((fetch round).map (decodeIds decodeTail)).getD []

theorem mem_rowIds {round : Nat} {id : Digest} : id ∈ rowIds fetch decodeTail round ↔ ∃ bytes tail,
    fetch round = some bytes ∧ decodeTail bytes = some tail ∧ id ∈ tail.txnIds := by
  unfold rowIds decodeIds
  cases hf : fetch round with
  | none => simp
  | some bytes =>
    cases hd : decodeTail bytes with
    | none => simp [hd]
    | some tail => simp [hd]

/-- A cached round is as its row. -/
def Loaded (fetch : Nat → Option Bytes) (decodeTail : Bytes → Option TxTailRound) (r : CachedRound) : Prop :=
  r.ids = rowIds fetch decodeTail r.round ∧ (r.missing = true → fetch r.round = none)

theorem loadRound_loaded (fetch : Nat → Option Bytes) (decodeTail : Bytes → Option TxTailRound) (round : Nat) :
    Loaded fetch decodeTail (loadRound fetch decodeTail round) ∧
    (loadRound fetch decodeTail round).round = round := by
  unfold loadRound Loaded rowIds
  cases hf : fetch round with
  | none => simp [hf]
  | some bytes => simp [hf]

/-- Rounds in order. -/
abbrev Ascending (rounds : List CachedRound) : Prop := rounds.Pairwise (fun r r' => r.round ≤ r'.round)

/-- Rounds with an index that is right about them. -/
structure Holds (fetch : Nat → Option Bytes) (decodeTail : Bytes → Option TxTailRound) (st : List CachedRound × Index) :
    Prop where
  loaded : ∀ r ∈ st.1, Loaded fetch decodeTail r
  indexed : Indexed (listings st.1) st.2

/-- Rows that do not change are not found on a later try. -/
theorem retryMissing_eq : ∀ (retries : Nat) (rounds : List CachedRound) (index : Index),
    (∀ r ∈ rounds, Loaded fetch decodeTail r) → retryMissing fetch decodeTail none retries rounds index = (rounds, index)
  | _, [], _, _ => rfl
  | retries, r :: rs, index, h => by
    have hrest := fun k => retryMissing_eq k rs index fun r' hr' => h r' (List.mem_cons_of_mem _ hr')
    rw [retryMissing]
    by_cases hm : r.missing = true
    · have hnone := (h r List.mem_cons_self).2 hm
      simp [hm, hnone, hrest]
    · simp [hm, hrest]

/-- Dropping rounds that are in order. -/
theorem evictBelow_holds {lo : Nat} : ∀ {rounds : List CachedRound} {index : Index}, Ascending rounds →
    Holds fetch decodeTail (rounds, index) → Holds fetch decodeTail (evictBelow lo rounds index) ∧
      (evictBelow lo rounds index).1 = rounds.filter (fun r => decide (lo ≤ r.round))
  | [], _, _, h => ⟨h, rfl⟩
  | r :: rs, index, hs, h => by
    obtain ⟨hfirst, hs'⟩ := List.pairwise_cons.1 hs
    rw [evictBelow]
    by_cases hlt : r.round < lo
    · rw [if_pos hlt]
      have hindexed : Indexed (listings rs) (r.ids.foldl unindexId index) := by
        refine Indexed.unindexIds r.ids h.indexed fun l hl => ?_
        obtain ⟨r', hr', he, -⟩ := mem_listings.1 hl
        rw [← he]
        exact hfirst r' hr'
      obtain ⟨hholds, hfilter⟩ := evictBelow_holds hs' ⟨fun r' hr' => h.loaded r' (List.mem_cons_of_mem _ hr'), hindexed⟩
      refine ⟨hholds, ?_⟩
      rw [hfilter, List.filter_cons_of_neg]
      simpa using hlt
    · rw [if_neg hlt]
      have hge : ∀ r' ∈ r :: rs, lo ≤ r'.round := by
        intro r' hr'
        rcases List.mem_cons.1 hr' with rfl | hr'
        · exact Nat.le_of_not_lt hlt
        · exact (Nat.le_of_not_lt hlt).trans (hfirst r' hr')
      refine ⟨h, (List.filter_eq_self.2 fun r' hr' => ?_).symm⟩
      exact decide_eq_true (hge r' hr')

theorem evictBelow_subset {lo : Nat} : ∀ {rounds : List CachedRound} {index : Index} {r : CachedRound},
    r ∈ (evictBelow lo rounds index).1 → r ∈ rounds
  | [], _, _, hr => hr
  | r :: rs, index, r', hr => by
    rw [evictBelow] at hr
    split at hr
    · exact List.mem_cons_of_mem _ (evictBelow_subset hr)
    · exact hr

/-- Nothing is dropped where no round is too old. -/
theorem evictBelow_eq {lo : Nat} {rounds : List CachedRound} {index : Index} (h : ∀ r ∈ rounds, lo ≤ r.round) :
    evictBelow lo rounds index = (rounds, index) := by
  cases rounds with
  | nil => rfl
  | cons r rs =>
    rw [evictBelow, if_neg]
    exact Nat.not_lt.2 (h r List.mem_cons_self)

/-- **Loading rounds.** -/
theorem pushRounds_holds : ∀ (rounds : List Nat) {st : List CachedRound × Index}, Holds fetch decodeTail st →
    Holds fetch decodeTail (rounds.foldl (pushRound fetch decodeTail) st) ∧
      (rounds.foldl (pushRound fetch decodeTail) st).1 = st.1 ++ rounds.map (loadRound fetch decodeTail)
  | [], st, h => ⟨h, (List.append_nil _).symm⟩
  | n :: ns, st, h => by
    obtain ⟨hloaded, hround⟩ := loadRound_loaded fetch decodeTail n
    have hstep : Holds fetch decodeTail (pushRound fetch decodeTail st n) := by
      constructor
      · intro r hr
        rcases List.mem_append.1 hr with hr | hr
        · exact h.loaded r hr
        · rw [List.mem_singleton.1 hr]
          exact hloaded
      · have := h.indexed.indexIds (loadRound fetch decodeTail n).ids n
        unfold pushRound listings
        simp only [List.flatMap_append, List.flatMap_singleton, hround]
        exact this
    obtain ⟨hholds, hrounds⟩ := pushRounds_holds ns hstep
    refine ⟨hholds, ?_⟩
    rw [List.foldl_cons, hrounds, List.map_cons]
    exact List.append_assoc _ _ _

/-- **The cache mirrors the rows of its window.**  Only at the last round there is does a call load rounds that are there
already, out of order; then no round is ever dropped again. -/
structure Mirrors (fetch : Nat → Option Bytes) (decodeTail : Bytes → Option TxTailRound) (t : TxTailDupCache) : Prop where
  holds : Holds fetch decodeTail (t.rounds, t.txids)
  covers : ∀ n, (∃ r ∈ t.rounds, r.round = n) ↔ max (t.loadedHi - t.lookback) 1 ≤ n ∧ n ≤ t.loadedHi
  ordered : t.loadedHi + 1 < u64Bound → Ascending t.rounds
  bounded : t.loadedHi < u64Bound

theorem mirrors_new (lookback : Nat) :
    Mirrors fetch decodeTail { (default : TxTailDupCache) with lookback := lookback } := by
  refine ⟨⟨fun r hr => absurd hr List.not_mem_nil, indexed_nil⟩, fun n => ?_, fun _ => List.Pairwise.nil, Nat.two_pow_pos 64⟩
  constructor
  · rintro ⟨r, hr, -⟩
    exact absurd hr List.not_mem_nil
  · rintro ⟨h₁, h₂⟩
    have h₁ : 1 ≤ n := (Nat.le_max_right _ _).trans h₁
    exact absurd (h₁.trans h₂) (Nat.not_succ_le_zero 0)

/-- The rounds and the index of a cache after a call for a round that is not below its own, in a window that is not
larger. -/
theorem Mirrors.slide {c : Nat} (h : Mirrors fetch decodeTail t) (hc : t.loadedHi ≤ c)
    (hbound : c < u64Bound) {lo start : Nat} (hlo : lo = max (c - t.lookback) 1)
    (hstart : start = max (wrapAdd t.loadedHi 1) lo) {st : List CachedRound × Index}
    (hst : st = (List.range' start (c + 1 - start)).foldl (pushRound fetch decodeTail) (evictBelow lo t.rounds t.txids)) :
    Holds fetch decodeTail st ∧ (∀ n, (∃ r ∈ st.1, r.round = n) ↔ lo ≤ n ∧ n ≤ c) ∧
      (c + 1 < u64Bound → Ascending st.1) := by
  have hrounds : ∀ n, n ∈ List.range' start (c + 1 - start) ↔ start ≤ n ∧ n ≤ c := fun n => by
    rw [List.mem_range'_1]
    omega
  have hloaded : ∀ n, (∃ r ∈ (List.range' start (c + 1 - start)).map (loadRound fetch decodeTail), r.round = n) ↔
      start ≤ n ∧ n ≤ c := by
    intro n
    rw [← hrounds]
    constructor
    · rintro ⟨r, hr, rfl⟩
      obtain ⟨k, hk, rfl⟩ := List.mem_map.1 hr
      rw [(loadRound_loaded fetch decodeTail k).2]
      exact hk
    · intro hn
      exact ⟨_, List.mem_map_of_mem hn, (loadRound_loaded fetch decodeTail n).2⟩
  by_cases hlast : t.loadedHi + 1 < u64Bound
  · have hwrap : wrapAdd t.loadedHi 1 = t.loadedHi + 1 := Nat.mod_eq_of_lt hlast
    obtain ⟨hevict, hfilter⟩ := evictBelow_holds (h.ordered hlast) h.holds
    obtain ⟨hholds, hpush⟩ := pushRounds_holds (List.range' start (c + 1 - start)) hevict
    rw [← hst, hfilter] at hpush
    rw [← hst] at hholds
    have hkept : ∀ r ∈ t.rounds.filter (fun r => decide (lo ≤ r.round)), lo ≤ r.round ∧ r.round ≤ t.loadedHi := by
      intro r hr
      obtain ⟨hmem, hge⟩ := List.mem_filter.1 hr
      exact ⟨of_decide_eq_true hge, ((h.covers r.round).1 ⟨r, hmem, rfl⟩).2⟩
    refine ⟨hholds, fun n => ?_, fun _ => ?_⟩
    · rw [hpush]
      constructor
      · rintro ⟨r, hr, rfl⟩
        rcases List.mem_append.1 hr with hr | hr
        · obtain ⟨h₁, h₂⟩ := hkept r hr
          exact ⟨h₁, h₂.trans hc⟩
        · obtain ⟨h₁, h₂⟩ := (hloaded r.round).1 ⟨r, hr, rfl⟩
          exact ⟨by omega, h₂⟩
      · rintro ⟨h₁, h₂⟩
        by_cases hn : n ≤ t.loadedHi
        · obtain ⟨r, hr, rfl⟩ := (h.covers n).2 ⟨by omega, hn⟩
          exact ⟨r, List.mem_append_left _ (List.mem_filter.2 ⟨hr, decide_eq_true h₁⟩), rfl⟩
        · obtain ⟨r, hr, he⟩ := (hloaded n).2 ⟨by omega, h₂⟩
          exact ⟨r, List.mem_append_right _ hr, he⟩
    · rw [hpush]
      refine List.pairwise_append.2 ⟨(h.ordered hlast).sublist List.filter_sublist, ?_, fun r hr r' hr' => ?_⟩
      · rw [List.pairwise_map]
        refine List.Pairwise.imp (fun {a b} hab => ?_) (List.pairwise_lt_range' (s := start) (n := c + 1 - start))
        rw [(loadRound_loaded fetch decodeTail a).2, (loadRound_loaded fetch decodeTail b).2]
        exact Nat.le_of_lt hab
      · have h₁ := (hkept r hr).2
        have h₂ := ((hloaded r'.round).1 ⟨r', hr', rfl⟩).1
        exact h₁.trans (by omega)
  · -- the last round: everything is loaded once more
    have hhi : t.loadedHi = c := by omega
    have hwrap : wrapAdd t.loadedHi 1 = 0 := by
      have := h.bounded
      have hmax : t.loadedHi + 1 = u64Bound := by omega
      unfold wrapAdd
      rw [hmax, Nat.mod_self]
    have hlow : lo = max (t.loadedHi - t.lookback) 1 := by rw [hlo, hhi]
    have hsame : start = lo := by rw [hstart, hwrap, Nat.zero_max]
    rw [evictBelow_eq fun r hr => hlow ▸ ((h.covers r.round).1 ⟨r, hr, rfl⟩).1] at hst
    obtain ⟨hholds, hpush⟩ := pushRounds_holds (List.range' start (c + 1 - start)) h.holds
    rw [← hst] at hpush hholds
    refine ⟨hholds, fun n => ?_, fun hc' => by omega⟩
    rw [hpush]
    constructor
    · rintro ⟨r, hr, rfl⟩
      rcases List.mem_append.1 hr with hr | hr
      · have := (h.covers r.round).1 ⟨r, hr, rfl⟩
        rw [hlow, ← hhi]
        exact this
      · have := (hloaded r.round).1 ⟨r, hr, rfl⟩
        rw [← hsame]
        exact this
    · intro hn
      rw [← hsame] at hn
      obtain ⟨r, hr, he⟩ := (hloaded n).2 hn
      exact ⟨r, List.mem_append_right _ hr, he⟩

/-- **A call keeps the mirror**, at its round and with a window that is not smaller than it asked for. -/
theorem Mirrors.syncWindow (h : Mirrors fetch decodeTail t) {c : Nat} (hbound : c < u64Bound)
    (lookback : Nat) : Mirrors fetch decodeTail (syncWindow fetch decodeTail c lookback t) ∧
      (syncWindow fetch decodeTail c lookback t).loadedHi = c ∧
        lookback ≤ (syncWindow fetch decodeTail c lookback t).lookback := by
  obtain ⟨t₀, ht₀, h₀, hc, hback⟩ : ∃ t₀, (if c < t.loadedHi ∨ lookback > t.lookback then
      { (default : TxTailDupCache) with lookback := lookback } else t) = t₀ ∧ Mirrors fetch decodeTail t₀ ∧
        t₀.loadedHi ≤ c ∧ lookback ≤ t₀.lookback := by
    by_cases hre : c < t.loadedHi ∨ lookback > t.lookback
    · rw [if_pos hre]
      exact ⟨_, rfl, mirrors_new lookback, Nat.zero_le c, Nat.le_refl _⟩
    · rw [if_neg hre]
      rw [not_or] at hre
      exact ⟨t, rfl, h, Nat.le_of_not_lt hre.1, Nat.le_of_not_lt hre.2⟩
  obtain ⟨st, hst⟩ : ∃ st, st = (List.range' (max (wrapAdd t₀.loadedHi 1) (max (c - t₀.lookback) 1))
      (c + 1 - max (wrapAdd t₀.loadedHi 1) (max (c - t₀.lookback) 1))).foldl (pushRound fetch decodeTail)
        (evictBelow (max (c - t₀.lookback) 1) t₀.rounds t₀.txids) := ⟨_, rfl⟩
  obtain ⟨hholds, hcovers, hordered⟩ := h₀.slide hc hbound rfl rfl hst
  have hevicted : ∀ r ∈ (evictBelow (max (c - t₀.lookback) 1) t₀.rounds t₀.txids).1, Loaded fetch decodeTail r := fun r hr =>
    h₀.holds.loaded r (evictBelow_subset hr)
  have hhi : max t₀.loadedHi c = c := Nat.max_eq_right hc
  have hresult : TxTailDupCache.syncWindow fetch decodeTail c lookback t =
      ⟨c, t₀.lookback, st.1, max t₀.retriedAt c, st.2⟩ := by
    unfold TxTailDupCache.syncWindow syncWindowWith
    simp only [ht₀, hhi, retryMissing_eq _ _ _ hevicted, ite_self, ← hst]
  rw [hresult]
  exact ⟨⟨hholds, hcovers, hordered, hbound⟩, rfl, hback⟩

/-- The answer of a cache that mirrors its window. -/
theorem Mirrors.containsWithin (h : Mirrors fetch decodeTail t) {lookback : Nat}
    (hback : lookback ≤ t.lookback) (id : Digest) : t.containsWithin id lookback = true ↔
      ∃ n, max (t.loadedHi - lookback) 1 ≤ n ∧ n ≤ t.loadedHi ∧ id ∈ rowIds fetch decodeTail n := by
  have hlisted : ∀ n, (n, id) ∈ listings t.rounds ↔
      (max (t.loadedHi - t.lookback) 1 ≤ n ∧ n ≤ t.loadedHi) ∧ id ∈ rowIds fetch decodeTail n := by
    intro n
    rw [mem_listings, ← h.covers n]
    constructor
    · rintro ⟨r, hr, rfl, hid⟩
      exact ⟨⟨r, hr, rfl⟩, (h.holds.loaded r hr).1 ▸ hid⟩
    · rintro ⟨⟨r, hr, rfl⟩, hid⟩
      exact ⟨r, hr, rfl, (h.holds.loaded r hr).1 ▸ hid⟩
  unfold TxTailDupCache.containsWithin
  cases hlookup : t.txids.lookup id with
  | none =>
    simp only [Option.any_none, Bool.false_eq_true, false_iff]
    rintro ⟨n, hlo, hhi, hid⟩
    exact h.holds.indexed.absent id hlookup n ((hlisted n).2 ⟨⟨by omega, hhi⟩, hid⟩)
  | some e =>
    have he := h.holds.indexed.entry id e hlookup
    simp only [Option.any_some, decide_eq_true_eq]
    constructor
    · intro hnew
      obtain ⟨hrange, hid⟩ := (hlisted _).1 he.held
      exact ⟨e.newest, hnew, hrange.2, hid⟩
    · rintro ⟨n, hlo, hhi, hid⟩
      exact hlo.trans (he.newest n ((hlisted n).2 ⟨⟨by omega, hhi⟩, hid⟩))

end Window

/-! ## Sequences of calls -/

/-- A call for a committed round, which is a 64-bit number, and a window. -/
structure SyncCall where
  currentRound : Nat
  lookback : Nat
  bounded : currentRound < u64Bound

/-- The cache after calls against rows that do not change. -/
def afterCalls (fetch : Nat → Option Bytes) (decodeTail : Bytes → Option TxTailRound) (calls : List SyncCall) :
    TxTailDupCache :=
  calls.foldl (fun t call => syncWindow fetch decodeTail call.currentRound call.lookback t) default

theorem afterCalls_mirrors (fetch : Nat → Option Bytes) (decodeTail : Bytes → Option TxTailRound) (calls : List SyncCall) :
    Mirrors fetch decodeTail (afterCalls fetch decodeTail calls) := by
  have hrun : ∀ (calls : List SyncCall) (t : TxTailDupCache), Mirrors fetch decodeTail t → Mirrors fetch decodeTail
      (calls.foldl (fun t call => syncWindow fetch decodeTail call.currentRound call.lookback t) t) := by
    intro calls
    induction calls with
    | nil => exact fun _ h => h
    | cons call calls ih => exact fun t h => ih _ (h.syncWindow call.bounded call.lookback).1
  exact hrun calls default (mirrors_new 0)

/-- **The cache answers as a scan of the rows**: after every sequence of calls, whatever their rounds and windows, an id is
found within a window that is not larger than the last call asked for exactly where a row of that window decodes to a
list with it. -/
theorem containsWithin_iff_scan (fetch : Nat → Option Bytes) (decodeTail : Bytes → Option TxTailRound)
    (calls : List SyncCall) (call : SyncCall) (id : Digest) (lookback : Nat) (hback : lookback ≤ call.lookback) :
    (afterCalls fetch decodeTail (calls ++ [call])).containsWithin id lookback = true ↔
      ∃ n bytes tail, max 1 (call.currentRound - lookback) ≤ n ∧ n ≤ call.currentRound ∧ fetch n = some bytes ∧
        decodeTail bytes = some tail ∧ id ∈ tail.txnIds := by
  have hlast : afterCalls fetch decodeTail (calls ++ [call]) =
      syncWindow fetch decodeTail call.currentRound call.lookback (afterCalls fetch decodeTail calls) := by
    unfold afterCalls
    rw [List.foldl_append]
    rfl
  obtain ⟨hmirror, hhi, hwindow⟩ :=
    (afterCalls_mirrors fetch decodeTail calls).syncWindow call.bounded call.lookback
  rw [hlast, hmirror.containsWithin (hback.trans hwindow) id, hhi, Nat.max_comm]
  constructor
  · rintro ⟨n, hlo, hn, hid⟩
    obtain ⟨bytes, tail, hfetch, hdecode, hmem⟩ := mem_rowIds.1 hid
    exact ⟨n, bytes, tail, hlo, hn, hfetch, hdecode, hmem⟩
  · rintro ⟨n, bytes, tail, hlo, hn, hfetch, hdecode, hmem⟩
    exact ⟨n, hlo, hn, mem_rowIds.2 ⟨bytes, tail, hfetch, hdecode, hmem⟩⟩

/-- Id 7 is in rounds 2 and 3; the window shrinks, slides and shrinks again. -/
theorem containsWithin_iff_scan_repeated : ∃ n bytes tail, max 1 (4 - 1) ≤ n ∧ n ≤ 4 ∧
    (if n = 2 ∨ n = 3 then some [1] else none : Option Bytes) = some bytes ∧
      (some ⟨[⟨7⟩], [9], []⟩ : Option TxTailRound) = some tail ∧ (⟨7⟩ : Digest) ∈ tail.txnIds :=
  (containsWithin_iff_scan (fun n => if n = 2 ∨ n = 3 then some [1] else none) (fun _ => some ⟨[⟨7⟩], [9], []⟩)
    [⟨3, 5, by decide⟩, ⟨3, 1, by decide⟩] ⟨4, 2, by decide⟩ ⟨7⟩ 1 (by decide)).1 (by decide)

end TxTailDupCache

end Ledger
end Algod
