import Mathlib.Data.List.Sort
import Mathlib.Data.List.Nodup
import Mathlib.Data.List.Perm.Basic
/-!
# PeerRanker — pools of peers by rank

Peers with one rank share a pool.  Ranking a peer gives it a new rank and goes on to all others, by position and from
the back, and moves those whose rank changed while it goes: a pool that becomes empty is dropped, and one that is
missing is put at the end.  `Good` holds between any two moves, with the pools in order unless they are to be sorted;
the positions that are still to come stay where they were (`rerank_spec`).  What the history of a peer says about its
rank is arbitrary.
-/
namespace Algod
namespace Network

inductive PeerClassKind
  | phonebookRelays
  | phonebookArchivalNodes
  | connectedOut
  | connectedIn
deriving DecidableEq, Repr

structure PeerClass where
  initialRank : Int
  kind : PeerClassKind
deriving DecidableEq, Repr

structure PeerSelectorPeer where
  peerId : String
  peerClass : PeerClassKind
deriving DecidableEq, Repr

/-- The history of the ranks of a peer. -/
structure HistoricStats (η : Type) where
  new : PeerClass → η
  push : η → Int → Nat → PeerClass → Int × η
  resetRequestPenalty : η → Nat → Int → PeerClass → Int × η

structure PeerPoolEntry (η : Type) where
  peerId : String
  ofClass : PeerClass
  history : η

structure PeerPool (η : Type) where
  rank : Int
  peers : List (PeerPoolEntry η)

inductive PeerRankerError
  | noPeerPoolsAvailable
deriving DecidableEq, Repr

structure PeerRanker (η : Type) where
  peerClasses : List PeerClass
  pools : List (PeerPool η)
  counter : Nat

/-- The pools within a call, and whether they have to be sorted at its end. -/
structure Ranking (η : Type) where
  pools : List (PeerPool η)
  sortNeeded : Bool

variable {η : Type}

def PeerPoolEntry.peer (e : PeerPoolEntry η) : PeerSelectorPeer := ⟨e.peerId, e.ofClass.kind⟩

def PeerPool.members (pool : PeerPool η) : List PeerSelectorPeer := pool.peers.map PeerPoolEntry.peer

/-- The peers of all pools. -/
def peersOf (pools : List (PeerPool η)) : List PeerSelectorPeer := pools.flatMap PeerPool.members

/-! ## The operations -/

/-- The entry into the pool of its rank, and whether that pool is new. -/
def addToPool (entry : PeerPoolEntry η) (rank : Int) : List (PeerPool η) → List (PeerPool η) × Bool
  | [] => ([⟨rank, [entry]⟩], true)
  | pool :: pools =>
    if pool.rank = rank then ({ pool with peers := pool.peers ++ [entry] } :: pools, false)
    else (pool :: (addToPool entry rank pools).1, (addToPool entry rank pools).2)

def sortPools (pools : List (PeerPool η)) : List (PeerPool η) := pools.insertionSort (fun p q => p.rank ≤ q.rank)

def Ranking.sorted (s : Ranking η) : List (PeerPool η) := if s.sortNeeded then sortPools s.pools else s.pools

def findFrom (psp : PeerSelectorPeer) : Nat → List (PeerPool η) → Option (Nat × Nat)
  | _, [] => none
  | i, pool :: pools =>
    match pool.peers.findIdx? (fun e => decide (e.peer = psp)) with
    | some j => some (i, j)
    | none => findFrom psp (i + 1) pools

def findPeer (pools : List (PeerPool η)) (psp : PeerSelectorPeer) : Option (Nat × Nat) :=
  if psp.peerId = "" then none else findFrom psp 0 pools

/-- A pool without the entry at a position, and the pools without the pool if nothing is left of it. -/
def dropEntry (pools : List (PeerPool η)) (pl pr : Nat) (pool : PeerPool η) : List (PeerPool η) :=
  let peers := pool.peers.eraseIdx pr
  if peers.isEmpty then pools.eraseIdx pl else pools.set pl { pool with peers := peers }

/-- Let the history of the entry at a position say its rank, and move it if that is another one.  There is no result
for a position that does not exist. -/
def rerank (assess : PeerPoolEntry η → Int → Int × η) (pl pr : Nat) (s : Ranking η) : Option (Int × Ranking η) := do
  let pool ← s.pools[pl]?
  let entry ← pool.peers[pr]?
  let newRank := (assess entry pool.rank).1
  let entry := { entry with history := (assess entry pool.rank).2 }
  if pool.rank ≠ newRank then
    let rest := dropEntry s.pools pl pr pool
    some (newRank, ⟨(addToPool entry newRank rest).1, s.sortNeeded || (addToPool entry newRank rest).2⟩)
  else some (newRank, ⟨s.pools.set pl { pool with peers := pool.peers.set pr entry }, s.sortNeeded⟩)

/-- The positions below `pr` of a pool, from the back; the peer that was ranked is passed over. -/
def sweepPeers (ops : HistoricStats η) (psp : PeerSelectorPeer) (pl : Nat) : Nat → Ranking η → Option (Ranking η)
  | 0, s => some s
  | pr + 1, s => do
    let pool ← s.pools[pl]?
    let entry ← pool.peers[pr]?
    if entry.peer = psp then sweepPeers ops psp pl pr s
    else
      let moved ← rerank (fun e rank => ops.resetRequestPenalty e.history 5 rank e.ofClass) pl pr s
      sweepPeers ops psp pl pr moved.2

def sweepPools (ops : HistoricStats η) (psp : PeerSelectorPeer) : Nat → Ranking η → Option (Ranking η)
  | 0, s => some s
  | pl + 1, s => do
    let pool ← s.pools[pl]?
    let s ← sweepPeers ops psp pl pool.peers.length s
    sweepPools ops psp pl s

namespace PeerRanker

def new (peerClasses : List PeerClass) : PeerRanker η := ⟨peerClasses, [], 0⟩

/-- The rank before and after; there is no result if a position does not exist. -/
def rankPeer (ops : HistoricStats η) (r : PeerRanker η) (psp : PeerSelectorPeer) (rank : Int) :
    Option ((Int × Int) × PeerRanker η) :=
  match findPeer r.pools psp with
  | none => some ((-1, -1), r)
  | some (pl, pr) => do
    let counter := r.counter + 1
    let pool ← r.pools[pl]?
    let moved ← rerank (fun e _ => ops.push e.history rank counter e.ofClass) pl pr ⟨r.pools, false⟩
    let s ← sweepPools ops psp moved.2.pools.length moved.2
    some ((pool.rank, moved.1), { r with counter := counter, pools := s.sorted })

end PeerRanker

def PeerPool.retain (keep : PeerSelectorPeer → Bool) (pool : PeerPool η) : PeerPool η :=
  { pool with peers := pool.peers.filter (fun e => keep e.peer) }

/-- One peer that a class reports: it is kept, or new. -/
def reportPeer (ops : HistoricStats η) (acc : (PeerSelectorPeer → Option Bool) × Ranking η)
    (report : PeerClass × String) : (PeerSelectorPeer → Option Bool) × Ranking η :=
  if report.2 = "" then acc
  else
    let psp : PeerSelectorPeer := ⟨report.2, report.1.kind⟩
    let kept : PeerSelectorPeer → Option Bool := fun p => if p = psp then some false else acc.1 p
    match acc.1 psp with
    | some _ => (kept, acc.2)
    | none =>
      let added := addToPool ⟨report.2, report.1, ops.new report.1⟩ report.1.initialRank acc.2.pools
      (kept, ⟨added.1, acc.2.sortNeeded || added.2⟩)

namespace PeerRanker

/-- What the classes report, in their order. -/
def reports (r : PeerRanker η) (getPeers : PeerClassKind → List String) : List (PeerClass × String) :=
  r.peerClasses.flatMap (fun c => (getPeers c.kind).map (fun id => (c, id)))

def refreshAvailablePeers (ops : HistoricStats η) (r : PeerRanker η) (getPeers : PeerClassKind → List String) :
    PeerRanker η :=
  -- the peers that are there are marked for removal until they are reported
  let existing : PeerSelectorPeer → Option Bool := fun p => if p ∈ peersOf r.pools then some true else none
  let reported := (r.reports getPeers).foldl (reportPeer ops) (existing, ⟨r.pools, false⟩)
  let retained := reported.2.pools.map (PeerPool.retain fun p => decide (reported.1 p ≠ some true))
  let pools := retained.filter (fun pool => !pool.peers.isEmpty)
  let s : Ranking η := ⟨pools, reported.2.sortNeeded || decide (pools.length ≠ retained.length)⟩
  { r with pools := s.sorted }

/-- `choice` is what is drawn at random. -/
def getNextPeer (ops : HistoricStats η) (r : PeerRanker η) (getPeers : PeerClassKind → List String) (choice : Nat) :
    Except PeerRankerError PeerSelectorPeer × PeerRanker η :=
  let r := r.refreshAvailablePeers ops getPeers
  match r.pools.find? (fun pool => !pool.peers.isEmpty) with
  | none => (.error .noPeerPoolsAvailable, r)
  | some pool =>
    match pool.peers[choice % pool.peers.length]? with
    | none => (.error .noPeerPoolsAvailable, r)
    | some entry => (.ok entry.peer, r)

end PeerRanker

/-! ## Adding and dropping an entry -/

/-- A pool of this rank has the peer. -/
def Holds (pools : List (PeerPool η)) (rank : Int) (p : PeerSelectorPeer) : Prop :=
  ∃ pool ∈ pools, pool.rank = rank ∧ p ∈ pool.members

/-- **The invariant of the pools**: none is empty, no two have one rank, and every peer, which has a name, is in one. -/
structure Tidy (pools : List (PeerPool η)) : Prop where
  filled : ∀ pool ∈ pools, pool.peers ≠ []
  ranks : (pools.map PeerPool.rank).Nodup
  peers : (peersOf pools).Nodup
  named : ∀ p ∈ peersOf pools, p.peerId ≠ ""

def Ordered (pools : List (PeerPool η)) : Prop := (pools.map PeerPool.rank).Pairwise (· < ·)

/-- Between two moves the pools are in order, unless they are to be sorted. -/
structure Ranking.Good (s : Ranking η) : Prop extends Tidy s.pools where
  ordered : s.sortNeeded = false → Ordered s.pools

variable {entry : PeerPoolEntry η} {rank newRank : Int} {pools : List (PeerPool η)} {pool : PeerPool η}
  {p psp : PeerSelectorPeer} {s : Ranking η} {pl pr : Nat}

@[simp] theorem peersOf_nil : peersOf ([] : List (PeerPool η)) = [] := rfl

@[simp] theorem peersOf_cons : peersOf (pool :: pools) = pool.members ++ peersOf pools := rfl

@[simp] theorem peersOf_append (l r : List (PeerPool η)) : peersOf (l ++ r) = peersOf l ++ peersOf r := List.flatMap_append

theorem mem_peersOf : p ∈ peersOf pools ↔ ∃ rank, Holds pools rank p := by
  constructor
  · intro h
    obtain ⟨pool, hpool, hp⟩ := List.mem_flatMap.1 h
    exact ⟨pool.rank, pool, hpool, rfl, hp⟩
  · rintro ⟨_, pool, hpool, -, hp⟩
    exact List.mem_flatMap.2 ⟨pool, hpool, hp⟩

theorem addToPool_ranks :
    (addToPool entry rank pools).1.map PeerPool.rank =
        (if (addToPool entry rank pools).2 then pools.map PeerPool.rank ++ [rank] else pools.map PeerPool.rank) ∧
      ((addToPool entry rank pools).2 = true ↔ rank ∉ pools.map PeerPool.rank) := by
  induction pools with
  | nil => simp [addToPool]
  | cons pool pools ih =>
    unfold addToPool
    by_cases h : pool.rank = rank
    · simp [h]
    · rw [if_neg h]
      refine ⟨?_, ?_⟩
      · simp only [List.map_cons, ih.1]
        split <;> rfl
      · simp only [List.map_cons, List.mem_cons, not_or, ih.2]
        exact ⟨fun hmem => ⟨Ne.symm h, hmem⟩, fun hmem => hmem.2⟩

theorem addToPool_peers : (peersOf (addToPool entry rank pools).1).Perm (entry.peer :: peersOf pools) := by
  induction pools with
  | nil => exact List.Perm.refl _
  | cons pool pools ih =>
    unfold addToPool
    by_cases h : pool.rank = rank
    · rw [if_pos h]
      simp only [peersOf_cons, PeerPool.members, List.map_append, List.map_singleton, List.append_assoc]
      exact List.perm_middle
    · rw [if_neg h]
      simp only [peersOf_cons]
      exact (List.Perm.append_left _ ih).trans List.perm_middle

theorem addToPool_filled (h : ∀ pool ∈ pools, pool.peers ≠ []) :
    ∀ pool ∈ (addToPool entry rank pools).1, pool.peers ≠ [] := by
  induction pools with
  | nil => simp [addToPool]
  | cons pool pools ih =>
    have hrest := ih fun q hq => h q (List.mem_cons_of_mem _ hq)
    unfold addToPool
    intro q hq
    split at hq
    · rcases List.mem_cons.1 hq with rfl | hq
      · simp
      · exact h q (List.mem_cons_of_mem _ hq)
    · rcases List.mem_cons.1 hq with rfl | hq
      · exact h q List.mem_cons_self
      · exact hrest q hq

theorem addToPool_holds_self : Holds (addToPool entry rank pools).1 rank entry.peer := by
  induction pools with
  | nil => exact ⟨_, List.mem_singleton_self _, rfl, List.mem_singleton_self _⟩
  | cons pool pools ih =>
    unfold addToPool
    by_cases h : pool.rank = rank
    · rw [if_pos h]
      exact ⟨_, List.mem_cons_self, h, by simp [PeerPool.members]⟩
    · rw [if_neg h]
      obtain ⟨q, hq, hrank, hp⟩ := ih
      exact ⟨q, List.mem_cons_of_mem _ hq, hrank, hp⟩

/-- Each pool keeps its place, its rank and its peers. -/
theorem addToPool_getElem {i : Nat} (h : pools[i]? = some pool) :
    ∃ q, (addToPool entry rank pools).1[i]? = some q ∧ q.rank = pool.rank ∧ pool.peers.Sublist q.peers := by
  induction pools generalizing i with
  | nil => simp at h
  | cons pool' pools ih =>
    unfold addToPool
    by_cases hrank : pool'.rank = rank
    · rw [if_pos hrank]
      cases i with
      | zero => obtain rfl := Option.some.inj h; exact ⟨_, rfl, rfl, List.sublist_append_left _ _⟩
      | succ i => exact ⟨pool, h, rfl, List.Sublist.refl _⟩
    · rw [if_neg hrank]
      cases i with
      | zero => obtain rfl := Option.some.inj h; exact ⟨_, rfl, rfl, List.Sublist.refl _⟩
      | succ i => exact ih h

theorem addToPool_holds (h : Holds pools rank p) : Holds (addToPool entry newRank pools).1 rank p := by
  obtain ⟨pool, hpool, hrank, hp⟩ := h
  obtain ⟨i, hi⟩ := List.mem_iff_getElem?.1 hpool
  obtain ⟨q, hq, hqrank, hsub⟩ := addToPool_getElem hi
  exact ⟨q, List.mem_of_getElem? hq, hqrank.trans hrank, (hsub.map _).subset hp⟩

theorem Ranking.Good.add (h : s.Good) (hnew : entry.peer ∉ peersOf s.pools) (hnamed : entry.peer.peerId ≠ "") :
    Ranking.Good ⟨(addToPool entry rank s.pools).1, s.sortNeeded || (addToPool entry rank s.pools).2⟩ := by
  obtain ⟨hranks, hcreated⟩ := @addToPool_ranks _ entry rank s.pools
  refine ⟨⟨addToPool_filled h.filled, ?_, ?_, ?_⟩, ?_⟩
  · show (((addToPool entry rank s.pools).1).map PeerPool.rank).Nodup
    rw [hranks]
    split
    · rename_i hflag
      rw [List.nodup_append]
      refine ⟨h.ranks, List.nodup_singleton _, fun a ha b hb => ?_⟩
      rw [List.mem_singleton.1 hb]
      exact fun heq => hcreated.1 hflag (heq ▸ ha)
    · exact h.ranks
  · exact addToPool_peers.nodup_iff.2 (List.nodup_cons.2 ⟨hnew, h.peers⟩)
  · intro q hq
    rcases List.mem_cons.1 (addToPool_peers.mem_iff.1 hq) with rfl | hq
    · exact hnamed
    · exact h.named q hq
  · intro hflag
    simp only [Bool.or_eq_false_iff] at hflag
    show (((addToPool entry rank s.pools).1).map PeerPool.rank).Pairwise (· < ·)
    rw [hranks, hflag.2]
    exact h.ordered hflag.1

theorem split_at {α : Type} {l : List α} {i : Nat} {x : α} (h : l[i]? = some x) : ∃ a b, l = a ++ x :: b ∧ a.length = i := by
  obtain ⟨hlt, rfl⟩ := List.getElem?_eq_some_iff.1 h
  refine ⟨l.take i, l.drop (i + 1), ?_, by rw [List.length_take]; omega⟩
  rw [← List.drop_eq_getElem_cons hlt, List.take_append_drop]

theorem Holds.replace {l r : List (PeerPool η)} (h : Holds (l ++ pool :: r) rank p) (q : PeerPool η)
    (hrank : q.rank = pool.rank) (hmembers : p ∈ pool.members → p ∈ q.members) : Holds (l ++ q :: r) rank p := by
  obtain ⟨q', hq', hrank', hp⟩ := h
  rcases List.mem_append.1 hq' with hq' | hq'
  · exact ⟨q', List.mem_append_left _ hq', hrank', hp⟩
  · rcases List.mem_cons.1 hq' with rfl | hq'
    · exact ⟨q, List.mem_append_right _ List.mem_cons_self, hrank.trans hrank', hmembers hp⟩
    · exact ⟨q', List.mem_append_right _ (List.mem_cons_of_mem _ hq'), hrank', hp⟩

/-- What is left once an entry is dropped. -/
structure Dropped (pools rest : List (PeerPool η)) (entry : PeerPoolEntry η) (pl pr : Nat) : Prop where
  peers : (peersOf pools).Perm (entry.peer :: peersOf rest)
  ranks : (rest.map PeerPool.rank).Sublist (pools.map PeerPool.rank)
  filled : (∀ pool ∈ pools, pool.peers ≠ []) → ∀ pool ∈ rest, pool.peers ≠ []
  holds : ∀ rank p, p ≠ entry.peer → Holds pools rank p → Holds rest rank p
  length : pl ≤ rest.length
  place : 0 < pr → ∃ q, rest[pl]? = some q ∧ pr ≤ q.peers.length

theorem dropEntry_dropped (hpool : pools[pl]? = some pool) (hentry : pool.peers[pr]? = some entry) :
    Dropped pools (dropEntry pools pl pr pool) entry pl pr := by
  obtain ⟨l, r, rfl, rfl⟩ := split_at hpool
  obtain ⟨a, b, hpeers, rfl⟩ := split_at hentry
  have herase : pool.peers.eraseIdx a.length = a ++ b := by
    rw [hpeers, List.eraseIdx_append_of_length_le (Nat.le_refl _)]
    simp
  have hmembers : pool.members = a.map PeerPoolEntry.peer ++ entry.peer :: b.map PeerPoolEntry.peer := by
    simp [PeerPool.members, hpeers]
  unfold dropEntry
  simp only [herase]
  by_cases hempty : (a ++ b).isEmpty = true
  · -- the pool goes with its last entry
    obtain ⟨rfl, rfl⟩ : a = [] ∧ b = [] := by simpa using hempty
    have hdrop : (l ++ pool :: r).eraseIdx l.length = l ++ r := by
      rw [List.eraseIdx_append_of_length_le (Nat.le_refl _)]
      simp
    rw [if_pos hempty, hdrop]
    refine ⟨?_, by simp, fun h => ?_, ?_, by simp, fun h => by simp at h⟩
    · simp only [peersOf_append, peersOf_cons, hmembers, List.map_nil, List.nil_append, List.singleton_append]
      exact List.perm_middle
    · simp only [List.forall_mem_append, List.forall_mem_cons] at h ⊢
      exact ⟨h.1, h.2.2⟩
    · rintro rank p hne ⟨q, hq, hrank, hp⟩
      have hq' : q ∈ l ++ r := by
        by_cases hself : q = pool
        · rw [hself, hmembers] at hp
          exact absurd (by simpa using hp) hne
        · simpa [hself] using hq
      exact ⟨q, hq', hrank, hp⟩
  · have hset : (l ++ pool :: r).set l.length { pool with peers := a ++ b } = l ++ { pool with peers := a ++ b } :: r := by
      rw [List.set_append_right _ _ (Nat.le_refl _)]
      simp
    rw [if_neg hempty, hset]
    refine ⟨?_, by simp, fun h => ?_, ?_, by simp, fun _ => ⟨{ pool with peers := a ++ b }, by simp, by simp⟩⟩
    · simp only [peersOf_append, peersOf_cons, PeerPool.members, hpeers, List.map_append, List.map_cons,
        List.append_assoc, List.cons_append]
      exact ((List.Perm.append_left _ List.perm_middle).trans List.perm_middle)
    · simp only [List.forall_mem_append, List.forall_mem_cons] at h ⊢
      exact ⟨h.1, by simpa using hempty, h.2.2⟩
    · intro rank p hne hheld
      refine hheld.replace _ rfl fun hp => ?_
      rw [hmembers] at hp
      simpa [PeerPool.members, hne] using hp

/-! ## One move -/

/-- What a move does to the pools. -/
structure Moved (s s' : Ranking η) (entry : PeerPoolEntry η) (newRank : Int) (pl pr : Nat) : Prop where
  good : s'.Good
  peers : (peersOf s'.pools).Perm (peersOf s.pools)
  ranked : Holds s'.pools newRank entry.peer
  holds : ∀ rank p, p ≠ entry.peer → Holds s.pools rank p → Holds s'.pools rank p
  length : pl ≤ s'.pools.length
  place : 0 < pr → ∃ q, s'.pools[pl]? = some q ∧ pr ≤ q.peers.length

/-- An entry that stays has a new history and nothing else. -/
theorem stay_moved (h : s.Good) (hpool : s.pools[pl]? = some pool) (hentry : pool.peers[pr]? = some entry) (history : η) :
    Moved s ⟨s.pools.set pl { pool with peers := pool.peers.set pr { entry with history := history } }, s.sortNeeded⟩
      entry pool.rank pl pr := by
  obtain ⟨pools, sortNeeded⟩ := s
  obtain ⟨l, r, rfl, rfl⟩ := split_at hpool
  obtain ⟨a, b, hpeers, rfl⟩ := split_at hentry
  have hset : pool.peers.set a.length { entry with history := history } = a ++ { entry with history := history } :: b := by
    rw [hpeers, List.set_append_right _ _ (Nat.le_refl _)]
    simp
  have hpools : ∀ q : PeerPool η, (l ++ pool :: r).set l.length q = l ++ q :: r := by
    intro q
    rw [List.set_append_right _ _ (Nat.le_refl _)]
    simp
  have hmembers : PeerPool.members { pool with peers := a ++ { entry with history := history } :: b } = pool.members := by
    simp [PeerPool.members, hpeers, PeerPoolEntry.peer]
  simp only [hset, hpools]
  have hsame : peersOf (l ++ { pool with peers := a ++ { entry with history := history } :: b } :: r) =
      peersOf (l ++ pool :: r) := by rw [peersOf_append, peersOf_cons, hmembers]; simp
  have hholds : ∀ rank p, Holds (l ++ pool :: r) rank p →
      Holds (l ++ { pool with peers := a ++ { entry with history := history } :: b } :: r) rank p :=
    fun _ _ hheld => hheld.replace _ rfl fun hp => hmembers ▸ hp
  refine ⟨⟨⟨?_, ?_, hsame ▸ h.peers, hsame ▸ h.named⟩, fun hflag => ?_⟩, hsame ▸ List.Perm.refl _, ?_,
    fun rank p _ => hholds rank p, by simp, fun _ => ?_⟩
  · have hfilled := h.filled
    simp only [List.forall_mem_append, List.forall_mem_cons] at hfilled ⊢
    exact ⟨hfilled.1, by simp, hfilled.2.2⟩
  · simpa using h.ranks
  · have hordered := h.ordered hflag
    unfold Ordered at hordered ⊢
    simpa using hordered
  · exact hholds _ _ ⟨pool, by simp, rfl, by simp [PeerPool.members, hpeers]⟩
  · exact ⟨{ pool with peers := a ++ { entry with history := history } :: b }, by simp, by simp⟩

theorem rerank_spec (h : s.Good) (hpool : s.pools[pl]? = some pool) (hentry : pool.peers[pr]? = some entry)
    (assess : PeerPoolEntry η → Int → Int × η) :
    ∃ s', rerank assess pl pr s = some ((assess entry pool.rank).1, s') ∧
      Moved s s' entry (assess entry pool.rank).1 pl pr := by
  unfold rerank
  simp only [hpool, hentry, Option.bind_eq_bind, Option.bind_some]
  by_cases hsame : pool.rank = (assess entry pool.rank).1
  · rw [if_neg (by simpa using hsame)]
    have hstay := stay_moved h hpool hentry (assess entry pool.rank).2
    exact ⟨_, rfl, hsame ▸ hstay⟩
  · rw [if_pos hsame]
    have hdrop := dropEntry_dropped hpool hentry
    have hnodup := List.nodup_cons.1 (hdrop.peers.nodup_iff.1 h.peers)
    have hrest : Ranking.Good ⟨dropEntry s.pools pl pr pool, s.sortNeeded⟩ := by
      refine ⟨⟨hdrop.filled h.filled, h.ranks.sublist hdrop.ranks, hnodup.2, fun p hp => ?_⟩, fun hflag => ?_⟩
      · exact h.named p (hdrop.peers.mem_iff.2 (List.mem_cons_of_mem _ hp))
      · exact (h.ordered hflag).sublist hdrop.ranks
    obtain ⟨moved, hmoved⟩ : ∃ e : PeerPoolEntry η, e = { entry with history := (assess entry pool.rank).2 } := ⟨_, rfl⟩
    have hpeer : moved.peer = entry.peer := by rw [hmoved]; rfl
    rw [← hmoved]
    refine ⟨_, rfl, ?_, ?_, ?_, ?_, ?_, ?_⟩
    · exact hrest.add (hpeer ▸ hnodup.1) (hpeer ▸ h.named _ (hdrop.peers.mem_iff.2 List.mem_cons_self))
    · exact (hpeer ▸ addToPool_peers).trans hdrop.peers.symm
    · exact hpeer ▸ addToPool_holds_self
    · exact fun rank p hne hp => addToPool_holds (hdrop.holds rank p hne hp)
    · have hlen : (addToPool moved (assess entry pool.rank).1 (dropEntry s.pools pl pr pool)).1.length ≥
          (dropEntry s.pools pl pr pool).length := by
        have hranks := congrArg List.length
          (@addToPool_ranks _ moved (assess entry pool.rank).1 (dropEntry s.pools pl pr pool)).1
        split at hranks <;> simp at hranks <;> omega
      exact hdrop.length.trans hlen
    · intro hpr
      obtain ⟨q, hq, hfew⟩ := hdrop.place hpr
      obtain ⟨q', hq', -, hsub⟩ := addToPool_getElem hq
      exact ⟨q', hq', hfew.trans hsub.length_le⟩

/-! ## A sweep over all positions -/

/-- What a sweep keeps: the peers, and the rank of the one that it passes over. -/
structure Kept (psp : PeerSelectorPeer) (s s' : Ranking η) : Prop where
  good : s'.Good
  peers : (peersOf s'.pools).Perm (peersOf s.pools)
  holds : ∀ rank, Holds s.pools rank psp → Holds s'.pools rank psp

theorem Kept.trans {s₁ s₂ s₃ : Ranking η} (h : Kept psp s₁ s₂) (h' : Kept psp s₂ s₃) : Kept psp s₁ s₃ :=
  ⟨h'.good, h'.peers.trans h.peers, fun rank hp => h'.holds rank (h.holds rank hp)⟩

theorem sweepPeers_spec (ops : HistoricStats η) (psp : PeerSelectorPeer) (h : s.Good) (hpl : pl ≤ s.pools.length)
    (hplace : 0 < pr → ∃ q, s.pools[pl]? = some q ∧ pr ≤ q.peers.length) :
    ∃ s', sweepPeers ops psp pl pr s = some s' ∧ Kept psp s s' ∧ pl ≤ s'.pools.length := by
  induction pr generalizing s with
  | zero => exact ⟨s, rfl, ⟨h, List.Perm.refl _, fun _ hp => hp⟩, hpl⟩
  | succ pr ih =>
    obtain ⟨pool, hpool, hfew⟩ := hplace (Nat.succ_pos _)
    obtain ⟨entry, hentry⟩ : ∃ entry, pool.peers[pr]? = some entry := ⟨_, List.getElem?_eq_getElem (by omega)⟩
    unfold sweepPeers
    simp only [hpool, hentry, Option.bind_eq_bind, Option.bind_some]
    by_cases hself : entry.peer = psp
    · rw [if_pos hself]
      exact ih h hpl fun _ => ⟨pool, hpool, by omega⟩
    · rw [if_neg hself]
      obtain ⟨s₁, hrun, hmoved⟩ := rerank_spec h hpool hentry
        (fun e rank => ops.resetRequestPenalty e.history 5 rank e.ofClass)
      simp only [hrun, Option.bind_some]
      obtain ⟨s₂, hsweep, hkept, hlength⟩ := ih hmoved.good hmoved.length hmoved.place
      have hfirst : Kept psp s s₁ := ⟨hmoved.good, hmoved.peers, fun rank hp => hmoved.holds rank psp (Ne.symm hself) hp⟩
      exact ⟨s₂, hsweep, hfirst.trans hkept, hlength⟩

theorem sweepPools_spec (ops : HistoricStats η) (psp : PeerSelectorPeer) (h : s.Good) (hpl : pl ≤ s.pools.length) :
    ∃ s', sweepPools ops psp pl s = some s' ∧ Kept psp s s' := by
  induction pl generalizing s with
  | zero => exact ⟨s, rfl, h, List.Perm.refl _, fun _ hp => hp⟩
  | succ pl ih =>
    obtain ⟨pool, hpool⟩ : ∃ pool, s.pools[pl]? = some pool := ⟨_, List.getElem?_eq_getElem (by omega)⟩
    unfold sweepPools
    simp only [hpool, Option.bind_eq_bind, Option.bind_some]
    obtain ⟨s₁, hsweep, hkept, hlength⟩ := sweepPeers_spec ops psp h (by omega) fun _ => ⟨pool, hpool, Nat.le_refl _⟩
    simp only [hsweep, Option.bind_some]
    obtain ⟨s₂, hrest, hkept'⟩ := ih hkept.good hlength
    exact ⟨s₂, hrest, hkept.trans hkept'⟩

theorem Holds.perm {pools' : List (PeerPool η)} (hperm : pools'.Perm pools) : Holds pools' rank p ↔ Holds pools rank p := by
  unfold Holds
  simp only [hperm.mem_iff]

theorem peersOf_perm {pools' : List (PeerPool η)} (hperm : pools'.Perm pools) : (peersOf pools').Perm (peersOf pools) :=
  hperm.flatMap_right _

theorem Ranking.sorted_perm : s.sorted.Perm s.pools := by
  unfold Ranking.sorted
  split
  · exact List.perm_insertionSort _ _
  · exact List.Perm.refl _

theorem Ranking.Good.sorted (h : s.Good) : Tidy s.sorted ∧ Ordered s.sorted := by
  have hperm : s.sorted.Perm s.pools := Ranking.sorted_perm
  have hranks : (s.sorted.map PeerPool.rank).Nodup := (hperm.map _).nodup_iff.2 h.ranks
  have hpeers := peersOf_perm hperm
  refine ⟨⟨fun q hq => h.filled q (hperm.mem_iff.1 hq), hranks, hpeers.nodup_iff.2 h.peers,
    fun q hq => h.named q (hpeers.mem_iff.1 hq)⟩, ?_⟩
  cases hflag : s.sortNeeded with
  | false =>
    have hpools : s.sorted = s.pools := by simp [Ranking.sorted, hflag]
    exact hpools ▸ h.ordered hflag
  | true =>
    have hpools : s.sorted = sortPools s.pools := by simp [Ranking.sorted, hflag]
    have hle : (s.sorted.map PeerPool.rank).Pairwise (· ≤ ·) := by
      rw [hpools, List.pairwise_map]
      exact List.pairwise_insertionSort (fun p q : PeerPool η => p.rank ≤ q.rank) s.pools
    -- no two ranks are equal
    exact (hle.and hranks).imp fun hab => lt_of_le_of_ne hab.1 hab.2

theorem findFrom_spec {i : Nat} : (findFrom psp i pools = none → psp ∉ peersOf pools) ∧
    ∀ pl pr, findFrom psp i pools = some (pl, pr) → ∃ k pool entry, pl = i + k ∧ pools[k]? = some pool ∧
      pool.peers[pr]? = some entry ∧ entry.peer = psp := by
  induction pools generalizing i with
  | nil => simp [findFrom]
  | cons pool pools ih =>
    unfold findFrom
    cases hidx : pool.peers.findIdx? (fun e => decide (e.peer = psp)) with
    | some j =>
      refine ⟨fun h => by simp at h, fun pl pr h => ?_⟩
      obtain ⟨rfl, rfl⟩ := Prod.mk.inj (Option.some.inj h)
      obtain ⟨hlt, hpeer, -⟩ := List.findIdx?_eq_some_iff_getElem.1 hidx
      exact ⟨0, pool, _, rfl, rfl, List.getElem?_eq_getElem hlt, of_decide_eq_true hpeer⟩
    | none =>
      refine ⟨fun h => ?_, fun pl pr h => ?_⟩
      · rw [peersOf_cons, List.mem_append, not_or]
        refine ⟨fun hmem => ?_, ih.1 h⟩
        obtain ⟨e, he, hpeer⟩ := List.mem_map.1 hmem
        exact absurd hpeer (of_decide_eq_false (List.findIdx?_eq_none_iff.1 hidx e he))
      · obtain ⟨k, q, e, rfl, hq, he, hpeer⟩ := ih.2 pl pr h
        exact ⟨k + 1, q, e, by omega, hq, he, hpeer⟩

namespace PeerRanker

/-- **The invariant**: the pools are tidy, and the better ones come first. -/
structure WellFormed (r : PeerRanker η) : Prop where
  tidy : Tidy r.pools
  ordered : Ordered r.pools

variable {r : PeerRanker η}

/-- **Ranking a peer** has a result: the ranks of the pools it was in and is in now, or none if it is in no pool. -/
theorem rankPeer_spec (ops : HistoricStats η) (h : r.WellFormed) (psp : PeerSelectorPeer) (rank : Int) :
    ∃ oldRank newRank r', r.rankPeer ops psp rank = some ((oldRank, newRank), r') ∧ r'.WellFormed ∧
      r'.peerClasses = r.peerClasses ∧ (peersOf r'.pools).Perm (peersOf r.pools) ∧
      (psp ∈ peersOf r.pools → Holds r.pools oldRank psp ∧ Holds r'.pools newRank psp) ∧
      (psp ∉ peersOf r.pools → oldRank = -1 ∧ newRank = -1 ∧ r' = r) := by
  unfold rankPeer findPeer
  by_cases hname : psp.peerId = ""
  · simp only [hname, if_true]
    refine ⟨-1, -1, r, rfl, h, rfl, List.Perm.refl _, fun hmem => absurd hname (h.tidy.named psp hmem),
      fun _ => ⟨rfl, rfl, rfl⟩⟩
  simp only [hname, if_false]
  cases hfind : findFrom psp 0 r.pools with
  | none =>
    exact ⟨-1, -1, r, rfl, h, rfl, List.Perm.refl _, fun hmem => absurd hmem (findFrom_spec.1 hfind),
      fun _ => ⟨rfl, rfl, rfl⟩⟩
  | some position =>
    obtain ⟨pl, pr⟩ := position
    obtain ⟨k, pool, entry, hk, hpool, hentry, rfl⟩ := findFrom_spec.2 pl pr hfind
    obtain rfl : pl = k := by omega
    have hgood : Ranking.Good ⟨r.pools, false⟩ := ⟨h.tidy, fun _ => h.ordered⟩
    obtain ⟨s₁, hrun, hmoved⟩ := rerank_spec hgood hpool hentry
      (fun e _ => ops.push e.history rank (r.counter + 1) e.ofClass)
    obtain ⟨s₂, hsweep, hkept⟩ := sweepPools_spec ops entry.peer hmoved.good (Nat.le_refl _)
    obtain ⟨htidy, hordered⟩ := hkept.good.sorted
    have hperm : s₂.sorted.Perm s₂.pools := Ranking.sorted_perm
    have hmem : entry.peer ∈ pool.members := List.mem_map.2 ⟨entry, List.mem_of_getElem? hentry, rfl⟩
    have hheld : Holds r.pools pool.rank entry.peer := ⟨pool, List.mem_of_getElem? hpool, rfl, hmem⟩
    simp only [hpool, hrun, hsweep, Option.bind_eq_bind, Option.bind_some]
    refine ⟨_, _, _, rfl, ⟨htidy, hordered⟩, rfl, ?_, fun _ => ⟨hheld, ?_⟩, fun hno => ?_⟩
    · exact (peersOf_perm hperm).trans (hkept.peers.trans hmoved.peers)
    · exact (Holds.perm hperm).2 (hkept.holds _ hmoved.ranked)
    · exact absurd (mem_peersOf.2 ⟨_, hheld⟩) hno

end PeerRanker

/-! ## Reported peers -/

/-- The peer is among those that were reported so far. -/
def Reported (done : List (PeerClass × String)) (p : PeerSelectorPeer) : Prop :=
  p.peerId ≠ "" ∧ ∃ c, (c, p.peerId) ∈ done ∧ c.kind = p.peerClass

/-- While the reports are taken in: the flags tell what was reported, and what was there before and not reported. -/
structure Reporting (old : List (PeerPool η)) (done : List (PeerClass × String))
    (acc : (PeerSelectorPeer → Option Bool) × Ranking η) : Prop where
  good : acc.2.Good
  kept : ∀ p, acc.1 p = some false ↔ Reported done p
  marked : ∀ p, acc.1 p = some true ↔ p ∈ peersOf old ∧ ¬ Reported done p
  present : ∀ p, p ∈ peersOf acc.2.pools ↔ p ∈ peersOf old ∨ Reported done p

theorem reported_concat {done : List (PeerClass × String)} {c : PeerClass} {id : String} :
    Reported (done ++ [(c, id)]) p ↔ Reported done p ∨ id ≠ "" ∧ p = ⟨id, c.kind⟩ := by
  obtain ⟨pid, kind⟩ := p
  unfold Reported
  simp only [List.mem_append, List.mem_singleton, Prod.mk.injEq, PeerSelectorPeer.mk.injEq]
  constructor
  · rintro ⟨hne, c', hmem | ⟨rfl, rfl⟩, hkind⟩
    · exact .inl ⟨hne, c', hmem, hkind⟩
    · exact .inr ⟨hne, rfl, hkind.symm⟩
  · rintro (⟨hne, c', hmem, hkind⟩ | ⟨hne, rfl, rfl⟩)
    · exact ⟨hne, c', .inl hmem, hkind⟩
    · exact ⟨hne, c, .inr ⟨rfl, rfl⟩, rfl⟩

theorem Reporting.step (ops : HistoricStats η) {old : List (PeerPool η)} {done : List (PeerClass × String)}
    {acc : (PeerSelectorPeer → Option Bool) × Ranking η} (h : Reporting old done acc) (report : PeerClass × String) :
    Reporting old (done ++ [report]) (reportPeer ops acc report) := by
  obtain ⟨c, id⟩ := report
  unfold reportPeer
  by_cases hid : id = ""
  · -- a peer without a name is passed over
    rw [if_pos hid]
    have hsame : ∀ p, Reported (done ++ [(c, id)]) p ↔ Reported done p := fun p => by rw [reported_concat]; simp [hid]
    exact ⟨h.good, fun p => (h.kept p).trans (hsame p).symm, fun p => by rw [hsame]; exact h.marked p,
      fun p => by rw [hsame]; exact h.present p⟩
  rw [if_neg hid]
  have hiff : ∀ p, Reported (done ++ [(c, id)]) p ↔ Reported done p ∨ p = ⟨id, c.kind⟩ := fun p => by
    rw [reported_concat]; simp [hid]
  have hkept : ∀ p, (if p = ⟨id, c.kind⟩ then some false else acc.1 p) = some false ↔ Reported (done ++ [(c, id)]) p := by
    intro p
    rw [hiff]
    by_cases hp : p = ⟨id, c.kind⟩
    · simp [hp]
    · simp [hp, h.kept]
  have hmarked : ∀ p, (if p = ⟨id, c.kind⟩ then some false else acc.1 p) = some true ↔
      p ∈ peersOf old ∧ ¬ Reported (done ++ [(c, id)]) p := by
    intro p
    rw [hiff]
    by_cases hp : p = ⟨id, c.kind⟩
    · simp [hp]
    · simp [hp, h.marked]
  simp only
  cases hflag : acc.1 ⟨id, c.kind⟩ with
  | some flag =>
    simp only
    refine ⟨h.good, hkept, hmarked, fun p => ?_⟩
    rw [hiff, h.present p]
    -- it is reported already, or was there before
    have hknown : (⟨id, c.kind⟩ : PeerSelectorPeer) ∈ peersOf old ∨ Reported done ⟨id, c.kind⟩ := by
      cases flag with
      | false => exact .inr ((h.kept _).1 hflag)
      | true => exact .inl ((h.marked _).1 hflag).1
    constructor
    · rintro (hp | hp)
      · exact .inl hp
      · exact .inr (.inl hp)
    · rintro (hp | hp | rfl)
      · exact .inl hp
      · exact .inr hp
      · exact hknown
  | none =>
    have hnew : PeerPoolEntry.peer ⟨id, c, ops.new c⟩ ∉ peersOf acc.2.pools := by
      show (⟨id, c.kind⟩ : PeerSelectorPeer) ∉ peersOf acc.2.pools
      rw [h.present]
      rintro (hp | hp)
      · by_cases hdone : Reported done ⟨id, c.kind⟩
        · simp [(h.kept _).2 hdone] at hflag
        · simp [(h.marked _).2 ⟨hp, hdone⟩] at hflag
      · simp [(h.kept _).2 hp] at hflag
    simp only
    refine ⟨h.good.add hnew hid, hkept, hmarked, fun p => ?_⟩
    rw [hiff, addToPool_peers.mem_iff, List.mem_cons, h.present p]
    show p = ⟨id, c.kind⟩ ∨ _ ↔ _
    tauto

theorem Reporting.run (ops : HistoricStats η) {old : List (PeerPool η)} (reports done : List (PeerClass × String))
    {acc : (PeerSelectorPeer → Option Bool) × Ranking η} (h : Reporting old done acc) :
    Reporting old (done ++ reports) (reports.foldl (reportPeer ops) acc) := by
  induction reports generalizing done acc with
  | nil => rwa [List.append_nil]
  | cons report reports ih =>
    have hrest := ih (done ++ [report]) (h.step ops report)
    rwa [List.append_assoc, List.singleton_append] at hrest

/-- Entries that fail a test are dropped, with the pools that become empty. -/
theorem Tidy.retain (h : Tidy pools) {keep : PeerSelectorPeer → Bool} {rest : List (PeerPool η)}
    (hrest : (pools.map (PeerPool.retain keep)).filter (fun pool => !pool.peers.isEmpty) = rest) :
    Tidy rest ∧ (rest.map PeerPool.rank).Sublist (pools.map PeerPool.rank) ∧ peersOf rest = (peersOf pools).filter keep := by
  have hranks : (rest.map PeerPool.rank).Sublist (pools.map PeerPool.rank) := by
    have hsub := (List.filter_sublist (p := fun pool : PeerPool η => !pool.peers.isEmpty)
      (l := pools.map (PeerPool.retain keep))).map PeerPool.rank
    rw [hrest, List.map_map] at hsub
    exact hsub
  have hpeers : peersOf rest = (peersOf pools).filter keep := by
    rw [← hrest]
    clear h hranks hrest
    induction pools with
    | nil => rfl
    | cons pool pools ih =>
      have hmembers : pool.members.filter keep = (pool.retain keep).members := by
        rw [PeerPool.members, List.filter_map]; rfl
      rw [List.map_cons, peersOf_cons, List.filter_append, ← ih, hmembers]
      by_cases hempty : (pool.retain keep).peers.isEmpty = true
      · rw [List.filter_cons_of_neg (by simpa using hempty), PeerPool.members, List.isEmpty_iff.1 hempty]
        rfl
      · rw [List.filter_cons_of_pos (by simpa using hempty)]
        rfl
  refine ⟨⟨fun pool hpool => ?_, h.ranks.sublist hranks, ?_, fun p hp => ?_⟩, hranks, hpeers⟩
  · rw [← hrest] at hpool
    simpa using (List.mem_filter.1 hpool).2
  · rw [hpeers]
    exact h.peers.filter _
  · rw [hpeers] at hp
    exact h.named p (List.mem_filter.1 hp).1

namespace PeerRanker

variable {r : PeerRanker η}

theorem refresh_spec (ops : HistoricStats η) (h : r.WellFormed) (getPeers : PeerClassKind → List String) :
    (r.refreshAvailablePeers ops getPeers).WellFormed ∧
      ∀ p, p ∈ peersOf (r.refreshAvailablePeers ops getPeers).pools ↔ Reported (r.reports getPeers) p := by
  have hstart : Reporting r.pools [] (fun p => if p ∈ peersOf r.pools then some true else none, ⟨r.pools, false⟩) := by
    refine ⟨⟨h.tidy, fun _ => h.ordered⟩, fun p => ?_, fun p => ?_, fun p => ?_⟩ <;> simp [Reported]
  have hdone := hstart.run ops (r.reports getPeers) []
  rw [List.nil_append] at hdone
  obtain ⟨acc, hacc⟩ : ∃ acc, acc = (r.reports getPeers).foldl (reportPeer ops)
    (fun p => if p ∈ peersOf r.pools then some true else none, ⟨r.pools, false⟩) := ⟨_, rfl⟩
  rw [← hacc] at hdone
  unfold refreshAvailablePeers
  simp only
  rw [← hacc]
  obtain ⟨pools, hpools⟩ : ∃ pools, (acc.2.pools.map (PeerPool.retain fun p => decide (acc.1 p ≠ some true))).filter
    (fun pool => !pool.peers.isEmpty) = pools := ⟨_, rfl⟩
  obtain ⟨htidy, hranks, hpeers⟩ := hdone.good.toTidy.retain hpools
  rw [hpools]
  obtain ⟨more, hmore⟩ : ∃ more, decide (pools.length ≠ (acc.2.pools.map
    (PeerPool.retain fun p => decide (acc.1 p ≠ some true))).length) = more := ⟨_, rfl⟩
  rw [hmore]
  have hgood : Ranking.Good ⟨pools, acc.2.sortNeeded || more⟩ := by
    refine ⟨htidy, fun hflag => ?_⟩
    simp only [Bool.or_eq_false_iff] at hflag
    exact (hdone.good.ordered hflag.1).sublist hranks
  obtain ⟨htidy', hordered⟩ := hgood.sorted
  refine ⟨⟨htidy', hordered⟩, fun p => ?_⟩
  have hperm : (Ranking.mk pools (acc.2.sortNeeded || more)).sorted.Perm pools := Ranking.sorted_perm
  show p ∈ peersOf (Ranking.mk pools (acc.2.sortNeeded || more)).sorted ↔ _
  rw [(peersOf_perm hperm).mem_iff, hpeers, List.mem_filter, hdone.present, decide_eq_true_eq, ne_eq, hdone.marked]
  tauto

/-- **The next peer** is one of the pool with the lowest rank, and the pools have the peers that were reported. -/
theorem getNextPeer_spec (ops : HistoricStats η) (h : r.WellFormed) (getPeers : PeerClassKind → List String) (choice : Nat) :
    (r.getNextPeer ops getPeers choice).2.WellFormed ∧
      (r.getNextPeer ops getPeers choice).2.peerClasses = r.peerClasses ∧
      (∀ p, p ∈ peersOf (r.getNextPeer ops getPeers choice).2.pools ↔ Reported (r.reports getPeers) p) ∧
      (∀ p, (r.getNextPeer ops getPeers choice).1 = .ok p → ∃ rank, Holds (r.getNextPeer ops getPeers choice).2.pools rank p ∧
        ∀ pool ∈ (r.getNextPeer ops getPeers choice).2.pools, rank ≤ pool.rank) ∧
      ((r.getNextPeer ops getPeers choice).1 = .error .noPeerPoolsAvailable ↔ ∀ p, ¬ Reported (r.reports getPeers) p) := by
  obtain ⟨hformed, hpeers⟩ := refresh_spec ops h getPeers
  have hclasses : (r.refreshAvailablePeers ops getPeers).peerClasses = r.peerClasses := rfl
  unfold getNextPeer
  simp only
  generalize r.refreshAvailablePeers ops getPeers = r' at hformed hpeers hclasses
  cases hpools : r'.pools with
  | nil =>
    simp only [hpools, List.find?_nil, peersOf_nil, List.not_mem_nil, false_iff] at hpeers ⊢
    exact ⟨hformed, hclasses, hpeers, fun p hp => by simp at hp, fun _ => hpeers, fun _ => trivial⟩
  | cons pool pools =>
    have hfilled := hformed.tidy.filled pool (by rw [hpools]; exact List.mem_cons_self)
    have hpos : choice % pool.peers.length < pool.peers.length := Nat.mod_lt _ (List.length_pos_iff.2 hfilled)
    have hfind : (pool :: pools).find? (fun pool => !pool.peers.isEmpty) = some pool :=
      List.find?_cons_of_pos (by simpa using hfilled)
    obtain ⟨entry, hentry⟩ : ∃ entry, pool.peers[choice % pool.peers.length]? = some entry :=
      ⟨_, List.getElem?_eq_getElem hpos⟩
    have hmem : entry.peer ∈ pool.members := List.mem_map.2 ⟨entry, List.mem_of_getElem? hentry, rfl⟩
    simp only [hfind, hentry]
    refine ⟨hformed, hclasses, hpeers, fun p hp => ?_, fun hno => by simp at hno, fun hno => ?_⟩
    · obtain rfl := Except.ok.inj hp
      refine ⟨pool.rank, ⟨pool, by rw [hpools]; exact List.mem_cons_self, rfl, hmem⟩, fun q hq => ?_⟩
      have hordered := hformed.ordered
      rw [hpools] at hq
      rw [Ordered, hpools, List.map_cons, List.pairwise_cons] at hordered
      rcases List.mem_cons.1 hq with rfl | hq
      · exact Int.le_refl _
      · exact Int.le_of_lt (hordered.1 _ (List.mem_map.2 ⟨q, hq, rfl⟩))
    · refine absurd ((hpeers entry.peer).1 ?_) (hno _)
      rw [hpools, peersOf_cons]
      exact List.mem_append_left _ hmem

end PeerRanker

/-! ## Runs -/

inductive RankerCall
  | getNextPeer (getPeers : PeerClassKind → List String) (choice : Nat)
  | rankPeer (psp : PeerSelectorPeer) (rank : Int)

/-- A call, unless it used a position that does not exist. -/
def rankerStep (ops : HistoricStats η) (r : PeerRanker η) : RankerCall → Option (PeerRanker η)
  | .getNextPeer getPeers choice => some (r.getNextPeer ops getPeers choice).2
  | .rankPeer psp rank => (r.rankPeer ops psp rank).map Prod.snd

theorem rankerStep_spec (ops : HistoricStats η) {r : PeerRanker η} (h : r.WellFormed) (call : RankerCall) :
    ∃ r', rankerStep ops r call = some r' ∧ r'.WellFormed := by
  cases call with
  | getNextPeer getPeers choice => exact ⟨_, rfl, (PeerRanker.getNextPeer_spec ops h getPeers choice).1⟩
  | rankPeer psp rank =>
    obtain ⟨oldRank, newRank, r', hrun, hformed, -⟩ := PeerRanker.rankPeer_spec ops h psp rank
    exact ⟨r', by simp [rankerStep, hrun], hformed⟩

theorem rankerRun_spec (ops : HistoricStats η) {r : PeerRanker η} (h : r.WellFormed) (calls : List RankerCall) :
    ∃ r', calls.foldlM (rankerStep ops) r = some r' ∧ r'.WellFormed := by
  induction calls generalizing r with
  | nil => exact ⟨r, rfl, h⟩
  | cons call calls ih =>
    obtain ⟨r₁, hstep, hformed⟩ := rankerStep_spec ops h call
    obtain ⟨r₂, hrun, hformed'⟩ := ih hformed
    exact ⟨r₂, by simp [List.foldlM_cons, hstep, hrun], hformed'⟩

/-- **In every run of the ranker** no position is missing; no pool is empty, the ranks of the pools are strictly
increasing and a peer is in one pool only.  The next call that ranks a peer keeps the peers, and the peer goes from the
pool of the first rank to the pool of the second; the next peer that is asked for comes from the first pool, and the
peers of the pools are then exactly those that were reported. -/
theorem ranker_runs (ops : HistoricStats η) (peerClasses : List PeerClass) (calls : List RankerCall) :
    ∃ r : PeerRanker η, calls.foldlM (rankerStep ops) (PeerRanker.new peerClasses) = some r ∧ r.WellFormed ∧
      (∀ psp rank, ∃ oldRank newRank r', r.rankPeer ops psp rank = some ((oldRank, newRank), r') ∧ r'.WellFormed ∧
        (peersOf r'.pools).Perm (peersOf r.pools) ∧
        (psp ∈ peersOf r.pools → Holds r.pools oldRank psp ∧ Holds r'.pools newRank psp) ∧
        (psp ∉ peersOf r.pools → oldRank = -1 ∧ newRank = -1 ∧ r' = r)) ∧
      ∀ getPeers choice, (∀ p, p ∈ peersOf (r.getNextPeer ops getPeers choice).2.pools ↔ Reported (r.reports getPeers) p) ∧
        (∀ p, (r.getNextPeer ops getPeers choice).1 = .ok p →
          ∃ rank, Holds (r.getNextPeer ops getPeers choice).2.pools rank p ∧
            ∀ pool ∈ (r.getNextPeer ops getPeers choice).2.pools, rank ≤ pool.rank) ∧
        ((r.getNextPeer ops getPeers choice).1 = .error .noPeerPoolsAvailable ↔ ∀ p, ¬ Reported (r.reports getPeers) p) := by
  have hnew : (PeerRanker.new peerClasses : PeerRanker η).WellFormed := by
    refine ⟨⟨fun _ h => ?_, ?_, ?_, fun _ h => ?_⟩, ?_⟩ <;> simp_all [PeerRanker.new, Ordered]
  obtain ⟨r, hrun, hformed⟩ := rankerRun_spec ops hnew calls
  refine ⟨r, hrun, hformed, fun psp rank => ?_, fun getPeers choice => ?_⟩
  · obtain ⟨oldRank, newRank, r', hrank, hformed', -, hrest⟩ := PeerRanker.rankPeer_spec ops hformed psp rank
    exact ⟨oldRank, newRank, r', hrank, hformed', hrest⟩
  · exact (PeerRanker.getNextPeer_spec ops hformed getPeers choice).2.2

end Network
end Algod
