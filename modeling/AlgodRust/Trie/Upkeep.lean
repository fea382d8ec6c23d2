import AlgodRust.Trie.Represents
/-!
# Upkeep — what the cache records while nodes come and go

`Books` is what the records of a cache say about a set of numbers in use: they are given out, their nodes created since
the last commit are in memory, the others are stored as they are seen, and no page is on record for deletion that holds
one of them and is not in memory.  Each operation on nodes keeps the books of the numbers it does not touch and what is
seen under them.
-/
namespace Algod
namespace Trie

open Run
open Msgpack (Bytes)

def Resident (c : MerkleTrieCache) (p : Nat) : Prop := (c.pages.lookup p).isSome = true

/-- The records of a cache about the numbers in use.  `room`: a node can be put on the page of the next number without
losing one that is there. -/
structure Books (store : PageStore) (c : MerkleTrieCache) (D : Set Nat) : Prop where
  seen : ∀ i ∈ D, ∃ n, view store c i = some n
  above : ∀ i ∈ D, firstNodeId ≤ i
  below : ∀ i ∈ D, i < c.nextNodeId
  room : ∀ i ∈ D, pageOf i = pageOf c.nextNodeId → Resident c (pageOf i)
  created : ∀ i ∈ D, i ∈ c.pendingCreated → Resident c (pageOf i)
  stored : ∀ i ∈ D, i ∉ c.pendingCreated → storedNode store i = view store c i
  deletion : ∀ p ∈ c.pendingDeletionPages, ∀ i ∈ D, pageOf i = p → Resident c p
  recent : ∀ i ∈ c.pendingCreated, c.lastCommittedNodeId ≤ i
  committed : c.lastCommittedNodeId ≤ c.nextNodeId
  first : firstNodeId ≤ c.nextNodeId

/-- What an operation leaves of the numbers it does not touch. -/
structure Keeps (store : PageStore) (D : Set Nat) (c c' : MerkleTrieCache) : Prop where
  view : ∀ i ∈ D, view store c' i = view store c i
  created : ∀ i ∈ D, i ∈ c'.pendingCreated ↔ i ∈ c.pendingCreated
  resident : ∀ i ∈ D, Resident c (pageOf i) → Resident c' (pageOf i)
  next : c.nextNodeId ≤ c'.nextNodeId

section Cache

variable {store : PageStore} {c c' : MerkleTrieCache} {D D' : Set Nat}

theorem Books.mono (h : Books store c D) (hD : D' ⊆ D) : Books store c D' :=
  ⟨fun i hi => h.seen i (hD hi), fun i hi => h.above i (hD hi), fun i hi => h.below i (hD hi), fun i hi => h.room i (hD hi),
    fun i hi => h.created i (hD hi), fun i hi => h.stored i (hD hi), fun p hp i hi => h.deletion p hp i (hD hi),
    h.recent, h.committed, h.first⟩

theorem Keeps.mono (h : Keeps store D c c') (hD : D' ⊆ D) : Keeps store D' c c' :=
  ⟨fun i hi => h.view i (hD hi), fun i hi => h.created i (hD hi), fun i hi => h.resident i (hD hi), h.next⟩

theorem Keeps.refl : Keeps store D c c := ⟨fun _ _ => rfl, fun _ _ => Iff.rfl, fun _ _ h => h, Nat.le_refl _⟩

theorem Keeps.trans {c'' : MerkleTrieCache} (h : Keeps store D c c') (h' : Keeps store D c' c'') : Keeps store D c c'' :=
  ⟨fun i hi => (h'.view i hi).trans (h.view i hi), fun i hi => (h'.created i hi).trans (h.created i hi),
    fun i hi hr => h'.resident i hi (h.resident i hi hr), Nat.le_trans h.next h'.next⟩

/-- What stands for a set still does where its numbers are kept. -/
theorem Rep.kept {hash : Bytes → Bytes} {L : Nat} {path : Bytes} {id : Nat} {S : Set Bytes} {F : Set Nat}
    (h : Rep hash ↑c.pendingCreated ↑c.pendingCreated (view store c) L path id S F) (hk : Keeps store F c c') :
    Rep hash ↑c'.pendingCreated ↑c'.pendingCreated (view store c') L path id S F :=
  h.congr hk.view hk.created fun i hi => (hk.created i hi).2

/-! ## A new node -/

theorem lookup_place (n : TrieNode) (p : Nat) : (c.place n).pages.lookup p =
    if p = pageOf c.nextNodeId then some ((c.page (pageOf c.nextNodeId)).insert c.nextNodeId n) else c.pages.lookup p :=
  FinMap.lookup_insert_eq c.pages (pageOf c.nextNodeId) p _

theorem resident_place_self (n : TrieNode) : Resident (c.place n) (pageOf c.nextNodeId) := by
  unfold Resident
  rw [lookup_place, if_pos rfl]
  rfl

theorem Resident.place {p : Nat} (h : Resident c p) (n : TrieNode) : Resident (c.place n) p := by
  by_cases hp : p = pageOf c.nextNodeId
  · rw [hp]
    exact resident_place_self n
  · unfold Resident
    rw [lookup_place, if_neg hp]
    exact h

theorem view_place_self (n : TrieNode) : view store (c.place n) c.nextNodeId = some n := by
  rw [view_of_resident ((lookup_place n _).trans (if_pos rfl))]
  exact AList.lookup_insert _

theorem page_of_lookup {p : Nat} {page : Page} (h : c.pages.lookup p = some page) : c.page p = page := by
  unfold MerkleTrieCache.page FinMap.getD
  rw [h]
  rfl

theorem view_place {n : TrieNode} {i : Nat} (hi : i ≠ c.nextNodeId)
    (hroom : pageOf i = pageOf c.nextNodeId → Resident c (pageOf i)) : view store (c.place n) i = view store c i := by
  by_cases hp : pageOf i = pageOf c.nextNodeId
  · obtain ⟨page, hpage⟩ := Option.isSome_iff_exists.1 (hroom hp)
    rw [view_of_resident hpage, view_of_resident ((lookup_place n _).trans (if_pos hp)), ← hp, page_of_lookup hpage]
    exact AList.lookup_insert_ne hi
  · unfold view
    rw [lookup_place, if_neg hp]

/-- **A new node keeps the books**, and its number joins them. -/
theorem Books.place (h : Books store c D) (n : TrieNode) :
    Books store (c.place n) (insert c.nextNodeId D) ∧ Keeps store D c (c.place n) := by
  have hne : ∀ i ∈ D, i ≠ c.nextNodeId := fun i hi => Nat.ne_of_lt (h.below i hi)
  have hview : ∀ i ∈ D, view store (c.place n) i = view store c i := fun i hi => view_place (hne i hi) (h.room i hi)
  have hcreated : ∀ i, i ∈ (c.place n).pendingCreated ↔ i = c.nextNodeId ∨ i ∈ c.pendingCreated := fun i =>
    Finset.mem_insert
  refine ⟨⟨?_, ?_, ?_, ?_, ?_, ?_, ?_, ?_, ?_, ?_⟩, ⟨hview, ?_, fun i _ hr => hr.place n, Nat.le_succ _⟩⟩
  · rintro i (rfl | hi)
    · exact ⟨n, view_place_self n⟩
    · rw [hview i hi]
      exact h.seen i hi
  · rintro i (rfl | hi)
    · exact h.first
    · exact h.above i hi
  · rintro i (rfl | hi)
    · exact Nat.lt_succ_self _
    · exact Nat.lt_succ_of_lt (h.below i hi)
  · intro i hi hpage
    have hle : i ≤ c.nextNodeId := by
      rcases hi with rfl | hi
      · exact Nat.le_refl _
      · exact Nat.le_of_lt (h.below i hi)
    -- the next number but one is on the same page or on one where no number is in use
    have hsame : pageOf i = pageOf c.nextNodeId := by
      have hup : pageOf c.nextNodeId ≤ pageOf (c.nextNodeId + 1) := Nat.div_le_div_right (Nat.le_succ _)
      have hdown : pageOf i ≤ pageOf c.nextNodeId := Nat.div_le_div_right hle
      have : pageOf i = pageOf (c.nextNodeId + 1) := hpage
      omega
    rw [hsame]
    exact resident_place_self n
  · rintro i (rfl | hi) hc
    · exact resident_place_self n
    · exact (h.created i hi (((hcreated i).1 hc).resolve_left (hne i hi))).place n
  · rintro i (rfl | hi) hc
    · exact absurd ((hcreated _).2 (.inl rfl)) hc
    · rw [hview i hi]
      exact h.stored i hi fun hm => hc ((hcreated i).2 (.inr hm))
  · rintro p hp i (rfl | hi) hpage
    · rw [← hpage]
      exact resident_place_self n
    · exact (h.deletion p hp i hi hpage).place n
  · intro i hi
    rcases (hcreated i).1 hi with rfl | hi
    · exact h.committed
    · exact h.recent i hi
  · exact Nat.le_succ_of_le h.committed
  · exact Nat.le_succ_of_le h.first
  · intro i hi
    rw [hcreated]
    exact ⟨fun hm => hm.resolve_left (hne i hi), .inr⟩

/-! ## A node that goes -/

/-- A cache from which a node was taken: its page may go with it where it was the last node there. -/
structure Taken (c c' : MerkleTrieCache) (id : Nat) : Prop where
  next : c'.nextNodeId = c.nextNodeId
  lastCommitted : c'.lastCommittedNodeId = c.lastCommittedNodeId
  created : c'.pendingCreated = c.pendingCreated.erase id
  deletion : ∀ p ∈ c'.pendingDeletionPages, p ∈ c.pendingDeletionPages ∨ p = pageOf id ∧ Resident c' p
  elsewhere : ∀ p, p ≠ pageOf id → c'.pages.lookup p = c.pages.lookup p
  here : (∃ page, c.pages.lookup (pageOf id) = some page ∧ c'.pages.lookup (pageOf id) = some (page.erase id)) ∨
    c'.pages.lookup (pageOf id) = none ∧
      ∀ page, c.pages.lookup (pageOf id) = some page → ∀ i, i ≠ id → page.lookup i = none

namespace Taken

variable {id : Nat}

theorem keeps_view (h : Taken c c' id) {i : Nat} (hi : i ≠ id) {n : TrieNode} (hn : view store c i = some n) :
    view store c' i = some n := by
  by_cases hp : pageOf i = pageOf id
  · rcases h.here with ⟨page, hpage, hpage'⟩ | ⟨hgone, hnone⟩
    · rw [← hp] at hpage hpage'
      rw [view_of_resident hpage] at hn
      rw [view_of_resident hpage', ← hn]
      exact AList.lookup_erase_ne hi
    · rw [← hp] at hgone hnone
      cases hpage : c.pages.lookup (pageOf i) with
      | none => rwa [view_of_absent hgone, ← view_of_absent hpage]
      | some page =>
        rw [view_of_resident hpage, hnone page hpage i hi] at hn
        cases hn
  · rw [← hn]
    unfold view
    rw [h.elsewhere _ hp]

theorem keeps_resident (h : Taken c c' id) {i : Nat} (hi : i ≠ id) {n : TrieNode} (hn : view store c i = some n)
    (hr : Resident c (pageOf i)) : Resident c' (pageOf i) := by
  by_cases hp : pageOf i = pageOf id
  · rcases h.here with ⟨page, hpage, hpage'⟩ | ⟨hgone, hnone⟩
    · unfold Resident
      rw [hp, hpage']
      rfl
    · obtain ⟨page, hpage⟩ := Option.isSome_iff_exists.1 hr
      rw [view_of_resident hpage, hnone page (hp ▸ hpage) i hi] at hn
      cases hn
  · unfold Resident
    rw [h.elsewhere _ hp]
    exact hr

/-- **Taking a node keeps the books of the others.** -/
theorem books (h : Taken c c' id) (hb : Books store c D) (hid : id ∉ D) : Books store c' D ∧ Keeps store D c c' := by
  have hne : ∀ i ∈ D, i ≠ id := fun i hi he => hid (he ▸ hi)
  have hview : ∀ i ∈ D, view store c' i = view store c i := by
    intro i hi
    obtain ⟨n, hn⟩ := hb.seen i hi
    rw [hn]
    exact h.keeps_view (hne i hi) hn
  have hres : ∀ i ∈ D, Resident c (pageOf i) → Resident c' (pageOf i) := by
    intro i hi hr
    obtain ⟨n, hn⟩ := hb.seen i hi
    exact h.keeps_resident (hne i hi) hn hr
  have hcreated : ∀ i ∈ D, i ∈ c'.pendingCreated ↔ i ∈ c.pendingCreated := by
    intro i hi
    rw [h.created, Finset.mem_erase]
    exact ⟨And.right, fun hm => ⟨hne i hi, hm⟩⟩
  refine ⟨⟨?_, hb.above, ?_, ?_, ?_, ?_, ?_, ?_, ?_, ?_⟩, ⟨hview, hcreated, hres, Nat.le_of_eq h.next.symm⟩⟩
  · intro i hi
    rw [hview i hi]
    exact hb.seen i hi
  · intro i hi
    rw [h.next]
    exact hb.below i hi
  · intro i hi hpage
    rw [h.next] at hpage
    exact hres i hi (hb.room i hi hpage)
  · intro i hi hc
    exact hres i hi (hb.created i hi ((hcreated i hi).1 hc))
  · intro i hi hc
    rw [hview i hi]
    exact hb.stored i hi fun hm => hc ((hcreated i hi).2 hm)
  · intro p hp i hi hpage
    rcases h.deletion p hp with hold | ⟨_, hr⟩
    · rw [← hpage]
      exact hres i hi (hpage ▸ hb.deletion p hold i hi hpage)
    · exact hr
  · intro i hi
    rw [h.created] at hi
    rw [h.lastCommitted]
    exact hb.recent i (Finset.mem_of_mem_erase hi)
  · rw [h.next, h.lastCommitted]
    exact hb.committed
  · rw [h.next]
    exact hb.first

end Taken

theorem lookup_takeNode (id p : Nat) : (c.takeNode id).pages.lookup p =
    if p = pageOf id then some ((c.page (pageOf id)).erase id) else c.pages.lookup p :=
  FinMap.lookup_insert_eq c.pages (pageOf id) p _

variable {id : Nat}

/-- The page of a taken node in memory, and the same where it goes because it is empty. -/
theorem taken_page (hr : Resident c (pageOf id)) :
    ∃ page, c.pages.lookup (pageOf id) = some page ∧ c.page (pageOf id) = page ∧
      (c.takeNode id).pages.lookup (pageOf id) = some (page.erase id) ∧
      (FinMap.isEmpty ((c.takeNode id).page (pageOf id)) = true → ∀ i, i ≠ id → page.lookup i = none) := by
  obtain ⟨page, hpage⟩ := Option.isSome_iff_exists.1 hr
  have hlookup : (c.takeNode id).pages.lookup (pageOf id) = some (page.erase id) := by
    rw [lookup_takeNode, if_pos rfl, page_of_lookup hpage]
  refine ⟨page, hpage, page_of_lookup hpage, hlookup, fun hempty i hi => ?_⟩
  rw [page_of_lookup hlookup, FinMap.isEmpty_iff] at hempty
  have := hempty i
  rwa [AList.lookup_erase_ne hi] at this

/-- The page of a taken node goes because it is empty. -/
theorem Taken.dropped (hr : Resident c (pageOf id))
    (hempty : FinMap.isEmpty ((c.takeNode id).page (pageOf id)) = true) {c' : MerkleTrieCache}
    (hpages : c'.pages = (c.takeNode id).pages.erase (pageOf id)) (hnext : c'.nextNodeId = c.nextNodeId)
    (hlast : c'.lastCommittedNodeId = c.lastCommittedNodeId) (hcreated : c'.pendingCreated = c.pendingCreated.erase id)
    (hdel : c'.pendingDeletionPages = c.pendingDeletionPages) : Taken c c' id := by
  obtain ⟨page, hpage, -, -, hnone⟩ := taken_page hr
  have hlookup : ∀ p, c'.pages.lookup p = if p = pageOf id then none else (c.takeNode id).pages.lookup p := by
    intro p
    rw [hpages]
    exact FinMap.lookup_erase_eq _ _ _
  refine ⟨hnext, hlast, hcreated, fun p hp => .inl (hdel ▸ hp), fun p hp => ?_, .inr ⟨?_, fun page' hpage' => ?_⟩⟩
  · rw [hlookup, if_neg hp, lookup_takeNode, if_neg hp]
  · rw [hlookup, if_pos rfl]
  · rw [hpage] at hpage'
    cases hpage'
    exact hnone hempty

/-- The page of a taken node stays. -/
theorem Taken.left (hr : Resident c (pageOf id)) {c' : MerkleTrieCache}
    (hpages : c'.pages = (c.takeNode id).pages) (hnext : c'.nextNodeId = c.nextNodeId)
    (hlast : c'.lastCommittedNodeId = c.lastCommittedNodeId) (hcreated : c'.pendingCreated = c.pendingCreated.erase id)
    (hdel : ∀ p ∈ c'.pendingDeletionPages, p ∈ c.pendingDeletionPages ∨ p = pageOf id) : Taken c c' id := by
  obtain ⟨page, hpage, -, hpage', -⟩ := taken_page hr
  rw [← hpages] at hpage'
  refine ⟨hnext, hlast, hcreated, fun p hp => (hdel p hp).imp_right fun he => ⟨he, ?_⟩, fun p hp => ?_,
    .inl ⟨page, hpage, hpage'⟩⟩
  · unfold Resident
    rw [he, hpage']
    rfl
  · rw [hpages, lookup_takeNode, if_neg hp]

variable {n : TrieNode}

theorem delete_taken (hr : Resident c (pageOf id)) (hn : c.node? id = some n) :
    Taken c (c.delete id) id := by
  have hres : (c.pages.lookup (pageOf id)).isSome = true := hr
  unfold MerkleTrieCache.delete
  simp only [hn, hres, Option.isSome_some, if_true, Bool.true_and]
  split
  · split
    · rename_i hempty
      exact .dropped hr hempty rfl rfl rfl rfl rfl
    · exact .left hr rfl rfl rfl rfl fun p hp => .inl hp
  · rename_i hold
    refine .left hr rfl rfl rfl ?_ fun p hp => ?_
    · exact (Finset.erase_eq_of_notMem hold).symm
    · exact (Finset.mem_insert.1 hp).symm

/-- A node that moves is taken, then placed. -/
theorem refurbish_taken (hr : Resident c (pageOf id)) (hn : c.node? id = some n) :
    ∃ c', Taken c c' id ∧ c.refurbish id = some (c'.place n, c'.nextNodeId) := by
  unfold MerkleTrieCache.refurbish
  simp only [hn]
  refine ⟨_, ?_, rfl⟩
  split
  · split
    · rename_i hempty
      exact .dropped hr hempty rfl rfl rfl rfl rfl
    · exact .left hr rfl rfl rfl rfl fun p hp => .inl hp
  · rename_i hold
    refine .left hr rfl rfl rfl ?_ fun p hp => ?_
    · exact (Finset.erase_eq_of_notMem hold).symm
    · exact (Finset.mem_insert.1 hp).symm

/-! ## Looking and writing -/

/-- A cache that differs from another in the pages it has fetched. -/
structure Quiet (store : PageStore) (c c' : MerkleTrieCache) : Prop where
  view : ∀ i, view store c' i = view store c i
  resident : ∀ p, Resident c p → Resident c' p
  next : c'.nextNodeId = c.nextNodeId
  lastCommitted : c'.lastCommittedNodeId = c.lastCommittedNodeId
  created : c'.pendingCreated = c.pendingCreated
  deletion : c'.pendingDeletionPages = c.pendingDeletionPages

theorem Quiet.keeps (h : Quiet store c c') : Keeps store D c c' :=
  ⟨fun i _ => h.view i, fun i _ => by rw [h.created], fun i _ => h.resident _, Nat.le_of_eq h.next.symm⟩

/-- A cache in which one node was written; the page of the node is in memory. -/
structure Written (store : PageStore) (c c' : MerkleTrieCache) (id : Nat) (n : TrieNode) : Prop where
  self : view store c' id = some n
  other : ∀ i, i ≠ id → view store c' i = view store c i
  here : Resident c' (pageOf id)
  resident : ∀ p, Resident c p → Resident c' p
  next : c'.nextNodeId = c.nextNodeId
  lastCommitted : c'.lastCommittedNodeId = c.lastCommittedNodeId
  created : c'.pendingCreated = c.pendingCreated
  deletion : c'.pendingDeletionPages = c.pendingDeletionPages

/-- The books depend on what is seen under the numbers in use, the pages in memory and the records. -/
theorem Books.transfer (hb : Books store c D) (hseen : ∀ i ∈ D, ∃ n, Trie.view store c' i = some n)
    (hold : ∀ i ∈ D, i ∉ c.pendingCreated → Trie.view store c' i = Trie.view store c i)
    (hres : ∀ p, Resident c p → Resident c' p) (hnext : c'.nextNodeId = c.nextNodeId)
    (hlast : c'.lastCommittedNodeId = c.lastCommittedNodeId) (hcreated : c'.pendingCreated = c.pendingCreated)
    (hdel : c'.pendingDeletionPages = c.pendingDeletionPages) : Books store c' D := by
  refine ⟨hseen, hb.above, ?_, ?_, ?_, ?_, ?_, ?_, ?_, ?_⟩
  · rw [hnext]
    exact hb.below
  · rw [hnext]
    exact fun i hi hpage => hres _ (hb.room i hi hpage)
  · rw [hcreated]
    exact fun i hi hc => hres _ (hb.created i hi hc)
  · rw [hcreated]
    intro i hi hc
    rw [hold i hi hc]
    exact hb.stored i hi hc
  · rw [hdel]
    exact fun p hp i hi hpage => hres _ (hb.deletion p hp i hi hpage)
  · rw [hcreated, hlast]
    exact hb.recent
  · rw [hnext, hlast]
    exact hb.committed
  · rw [hnext]
    exact hb.first

/-- **Writing a node keeps the books of the others.** -/
theorem Written.books (h : Written store c c' id n) (hb : Books store c D) (hid : id ∉ D) :
    Books store c' D ∧ Keeps store D c c' := by
  have hview : ∀ i ∈ D, Trie.view store c' i = Trie.view store c i := fun i hi => h.other i fun he => hid (he ▸ hi)
  refine ⟨hb.transfer ?_ (fun i hi _ => hview i hi) h.resident h.next h.lastCommitted h.created h.deletion, hview,
    fun i _ => by rw [h.created], fun i _ => h.resident _, Nat.le_of_eq h.next.symm⟩
  intro i hi
  rw [hview i hi]
  exact hb.seen i hi

/-- A node written as it was is not changed. -/
theorem Written.quiet (h : Written store c c' id n) (hn : view store c id = some n) :
    Quiet store c c' := by
  refine ⟨fun i => ?_, h.resident, h.next, h.lastCommitted, h.created, h.deletion⟩
  by_cases hi : i = id
  · rw [hi, h.self, hn]
  · exact h.other i hi

theorem Quiet.books (h : Quiet store c c') (hb : Books store c D) : Books store c' D := by
  refine hb.transfer ?_ (fun i _ _ => h.view i) h.resident h.next h.lastCommitted h.created h.deletion
  intro i hi
  rw [h.view i]
  exact hb.seen i hi

theorem Quiet.refl : Quiet store c c := ⟨fun _ => rfl, fun _ h => h, rfl, rfl, rfl, rfl⟩

theorem Quiet.trans {c'' : MerkleTrieCache} (h : Quiet store c c') (h' : Quiet store c' c'') : Quiet store c c'' :=
  ⟨fun i => (h'.view i).trans (h.view i), fun p hp => h'.resident p (h.resident p hp), h'.next.trans h.next,
    h'.lastCommitted.trans h.lastCommitted, h'.created.trans h.created, h'.deletion.trans h.deletion⟩

theorem Quiet.prioritizeFront (h : Quiet store c c') (p : Nat) : Quiet store c (c'.prioritizeFront p) :=
  ⟨h.view, h.resident, h.next, h.lastCommitted, h.created, h.deletion⟩

theorem tryLazyLoadPage_quiet (p : Nat) : Quiet store c (c.tryLazyLoadPage store p) := by
  have hview : ∀ i, view store (c.tryLazyLoadPage store p) i = view store c i := (tryLazyLoadPage_view p).1
  revert hview
  unfold MerkleTrieCache.tryLazyLoadPage
  split
  · exact fun _ => .refl
  · split
    · exact fun _ => .refl
    · split
      · exact fun _ => .refl
      · intro hview
        refine ⟨hview, fun q hq => ?_, rfl, rfl, rfl, rfl⟩
        have hlookup : ∀ nodes : Page, (c.pages.insert p nodes).lookup q = if q = p then some nodes else c.pages.lookup q :=
          fun nodes => FinMap.lookup_insert_eq c.pages p q nodes
        show ((c.pages.insert p _).lookup q).isSome = true
        rw [hlookup]
        split
        · rfl
        · exact hq

theorem touch_quiet (id : Nat) : Quiet store c (c.touch store id) := by
  unfold MerkleTrieCache.touch
  split
  · exact Quiet.refl.prioritizeFront _
  · exact tryLazyLoadPage_quiet _

/-- On a page in memory a node is seen where it is. -/
theorem node?_of_page (store : PageStore) (h : Resident c (pageOf id)) : c.node? id = view store c id := by
  obtain ⟨page, hpage⟩ := Option.isSome_iff_exists.1 h
  exact node?_of_resident hpage

theorem resident_of_node? (h : c.node? id = some n) : Resident c (pageOf id) := by
  rw [node?_eq] at h
  obtain ⟨p, hp, -⟩ := Option.bind_eq_some_iff.1 h
  unfold Resident
  rw [hp]
  rfl

end Cache

/-! ## The steps of a trie -/

section Steps

variable {store : PageStore} {D : Set Nat} {α β : Type} {t : MerkleTrie} {id : Nat} {n : TrieNode}

theorem getNode_quiet (hn : view store t.cache id = some n) : ∃ c', getNode store id t = .ok n (t.setCache c') ∧
    Quiet store t.cache c' ∧ c'.node? id = some n := by
  have hnode : (t.cache.touch store id).node? id = some n := (touch_view id).2.trans hn
  refine ⟨t.cache.touch store id, ?_, touch_quiet id, hnode⟩
  unfold getNode MerkleTrieCache.get
  simp only [hnode]

theorem putNode_written (store : PageStore) {c : MerkleTrieCache} (hr : Resident c (pageOf id)) (m : TrieNode) :
    Written store c (c.putNode id m) id m := by
  obtain ⟨page, hpage⟩ := Option.isSome_iff_exists.1 hr
  have hlookup : ∀ p, (c.putNode id m).pages.lookup p =
      if p = pageOf id then some (page.insert id m) else c.pages.lookup p := by
    intro p
    rw [← page_of_lookup hpage]
    exact FinMap.lookup_insert_eq c.pages (pageOf id) p _
  have hself := (hlookup (pageOf id)).trans (if_pos rfl)
  refine ⟨?_, fun i hi => ?_, ?_, fun p hp => ?_, rfl, rfl, rfl, rfl⟩
  · rw [view_of_resident hself]
    exact AList.lookup_insert _
  · by_cases hp : pageOf i = pageOf id
    · rw [view_of_resident ((hlookup _).trans (if_pos hp)), view_of_resident (hp ▸ hpage)]
      exact AList.lookup_insert_ne hi
    · unfold view
      rw [hlookup, if_neg hp]
  · unfold Resident
    rw [hself]
    rfl
  · unfold Resident
    rw [hlookup]
    split
    · rfl
    · exact hp

theorem updateNode_written (f : TrieNode → TrieNode) (hn : view store t.cache id = some n) :
    ∃ c', updateNode store id f t = .ok n (t.setCache c') ∧ Written store t.cache c' id (f n) := by
  have hload : ∃ c₁, (if (t.cache.node? id).isSome then t.cache else t.cache.tryLazyLoadPage store (pageOf id)) = c₁ ∧
      Quiet store t.cache c₁ ∧ c₁.node? id = some n := by
    split
    · rename_i hsome
      obtain ⟨m, hm⟩ := Option.isSome_iff_exists.1 hsome
      rw [view_of_node? hm] at hn
      cases hn
      exact ⟨_, rfl, .refl, hm⟩
    · exact ⟨_, rfl, tryLazyLoadPage_quiet _, ((tryLazyLoadPage_view _).2 id rfl).trans hn⟩
  obtain ⟨c₁, hc₁, hquiet, hnode⟩ := hload
  have hwritten := putNode_written store (c := c₁.prioritizeFront (pageOf id)) (resident_of_node? hnode) (f n)
  refine ⟨{ (c₁.prioritizeFront (pageOf id)).putNode id (f n) with
    pendingDirtyPages := insert (pageOf id) c₁.pendingDirtyPages }, ?_, ?_⟩
  · unfold updateNode MerkleTrieCache.getMut
    simp only [hc₁, hnode]
    rfl
  · exact ⟨hwritten.self, fun i hi => (hwritten.other i hi).trans (hquiet.view i), hwritten.here,
      fun p hp => hwritten.resident p (hquiet.resident p hp), hquiet.next, hquiet.lastCommitted, hquiet.created,
      hquiet.deletion⟩

/-- A computation succeeds, keeps the numbers in use and the root, and its result and the state it leaves are as said. -/
def Does (store : PageStore) (D : Set Nat) (t : MerkleTrie) (x : TrieM α) (post : α → MerkleTrie → Prop) : Prop :=
  ∃ a t', x t = .ok a t' ∧ Keeps store D t.cache t'.cache ∧ t'.root = t.root ∧ t'.elementLength = t.elementLength ∧
    post a t'

theorem Does.pure {post : α → MerkleTrie → Prop} {a : α} (h : post a t) : Does store D t (Pure.pure a) post :=
  ⟨a, t, rfl, .refl, rfl, rfl, h⟩

/-- A computation after another, which may keep more. -/
theorem Does.bind {x : TrieM α} {f : α → TrieM β} {P : α → MerkleTrie → Prop} {Q : β → MerkleTrie → Prop} {E : Set Nat}
    (hx : Does store E t x P) (hD : D ⊆ E)
    (hf : ∀ a t', Keeps store E t.cache t'.cache → P a t' → Does store D t' (f a) Q) : Does store D t (x >>= f) Q := by
  obtain ⟨a, t₁, h₁, hk₁, hr₁, hl₁, hP⟩ := hx
  obtain ⟨b, t₂, h₂, hk₂, hr₂, hl₂, hQ⟩ := hf a t₁ hk₁ hP
  exact ⟨b, t₂, state_bind_eq_ok.2 ⟨a, t₁, h₁, h₂⟩, (hk₁.mono hD).trans hk₂, hr₂.trans hr₁, hl₂.trans hl₁, hQ⟩

theorem Does.mono {x : TrieM α} {P Q : α → MerkleTrie → Prop} {D' : Set Nat} (hx : Does store D t x P) (hD : D' ⊆ D)
    (hPQ : ∀ a t', Keeps store D t.cache t'.cache → P a t' → Q a t') : Does store D' t x Q := by
  obtain ⟨a, t₁, h₁, hk₁, hr₁, hl₁, hP⟩ := hx
  exact ⟨a, t₁, h₁, hk₁.mono hD, hr₁, hl₁, hPQ a t₁ hk₁ hP⟩

theorem getNode_does (hn : view store t.cache id = some n) : Does store D t (getNode store id) (fun m t' => m = n ∧
    ∃ c', t' = t.setCache c' ∧ Quiet store t.cache c' ∧ c'.node? id = some n) := by
  obtain ⟨c', h, hq, hnode⟩ := getNode_quiet hn
  exact ⟨n, _, h, hq.keeps, rfl, rfl, rfl, c', rfl, hq, hnode⟩

theorem childAt_does {c : ChildEntry} {b : UInt8} (h : n.children[n.indexOf b]? = some c) :
    Does store D t (childAt n b) (fun child t' => child = c.childId ∧ t' = t) := by
  refine ⟨c.childId, t, ?_, .refl, rfl, rfl, rfl, rfl⟩
  unfold childAt
  rw [h]
  rfl

/-- **A node is allocated.** -/
theorem allocateNode_does (hb : Books store t.cache D) : Does store D t (allocateNode n) (fun id t' =>
    view store t'.cache id = some n ∧ id ∉ D ∧ id ∈ t'.cache.pendingCreated ∧ Books store t'.cache (insert id D)) := by
  obtain ⟨hbooks, hkeeps⟩ := hb.place n
  refine ⟨t.cache.nextNodeId, _, rfl, hkeeps, rfl, rfl, view_place_self n, ?_, Finset.mem_insert_self _ _, hbooks⟩
  intro hmem
  exact Nat.lt_irrefl _ (hb.below _ hmem)

theorem deleteNode_does (hb : Books store t.cache D) (hn : t.cache.node? id = some n) (hid : id ∉ D) :
    Does store D t (deleteNode id) (fun _ t' => Books store t'.cache D ∧ t' = t.setCache (t.cache.delete id) ∧
      Taken t.cache t'.cache id) := by
  have htaken := delete_taken (resident_of_node? hn) hn
  obtain ⟨hbooks, hkeeps⟩ := htaken.books hb hid
  exact ⟨(), _, rfl, hkeeps, rfl, rfl, hbooks, rfl, htaken⟩

/-- **A node in memory gets a fresh number.** -/
theorem refurbishNode_does (hb : Books store t.cache D) (hn : t.cache.node? id = some n) (hid : id ∉ D) :
    Does store D t (refurbishNode id) (fun id' t' => view store t'.cache id' = some n ∧ id' ∉ D ∧
      id' ∈ t'.cache.pendingCreated ∧ Books store t'.cache (insert id' D)) := by
  obtain ⟨c', htaken, hrefurbish⟩ := refurbish_taken (resident_of_node? hn) hn
  obtain ⟨hbooks, hkeeps⟩ := htaken.books hb hid
  obtain ⟨hbooks', hkeeps'⟩ := hbooks.place n
  refine ⟨c'.nextNodeId, { t with cache := c'.place n, dirty := true }, ?_, hkeeps.trans hkeeps', rfl, rfl,
    view_place_self n, ?_, Finset.mem_insert_self _ _, hbooks'⟩
  · unfold refurbishNode
    rw [hrefurbish]
  · intro hmem
    exact Nat.lt_irrefl _ (hbooks.below _ hmem)

end Steps

end Trie
end Algod
