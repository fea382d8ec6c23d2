import AlgodRust.Trie.Commit
/-!
# Eviction — dropping pages

What a trie answers depends on its root and on the nodes it sees: those on the pages in memory and, where a page is not
in memory, those the store has on it (`view`).  Evicting keeps every answer where the pages it may drop are stored as
they are in memory (`evict_keeps_answers`).  The flag it asks says less than that: a root hash clears it and stores
nothing.
-/
namespace Algod
namespace Trie

open Run
open Msgpack (Bytes)

/-! ## What a trie sees -/

/-- The node a store has under a number, on a page that may be fetched. -/
def storedNode (store : PageStore) (id : Nat) : Option TrieNode :=
  if pageOf id = 0 then none
  else (store.pages.lookup (pageOf id)).bind (fun p => (p.lookup id).map pageNodeToTrieNode)

def view (store : PageStore) (c : MerkleTrieCache) (id : Nat) : Option TrieNode :=
  match c.pages.lookup (pageOf id) with
  | none => storedNode store id
  | some p => p.lookup id

section View

variable {store : PageStore} {c : MerkleTrieCache} {id : Nat}

@[simp] theorem view_prioritizeFront (p id : Nat) : view store (c.prioritizeFront p) id = view store c id := rfl

@[simp] theorem view_removeFromPriority (p id : Nat) : view store (c.removeFromPriority p) id = view store c id := rfl

@[simp] theorem node?_prioritizeFront (p id : Nat) : (c.prioritizeFront p).node? id = c.node? id := rfl

theorem node?_eq : c.node? id = (c.pages.lookup (pageOf id)).bind (fun p => p.lookup id) := by
  unfold MerkleTrieCache.node? MerkleTrieCache.page FinMap.getD
  cases c.pages.lookup (pageOf id) with
  | none => exact AList.lookup_empty id
  | some p => rfl

theorem view_of_resident {p : Page} (h : c.pages.lookup (pageOf id) = some p) :
    view store c id = p.lookup id := by
  unfold view
  rw [h]

theorem view_of_absent (h : c.pages.lookup (pageOf id) = none) : view store c id = storedNode store id := by
  unfold view
  rw [h]

theorem view_of_node? {n : TrieNode} (h : c.node? id = some n) : view store c id = some n := by
  rw [node?_eq] at h
  obtain ⟨p, hp, hn⟩ := Option.bind_eq_some_iff.1 h
  rw [view_of_resident hp, hn]

theorem node?_of_resident {p : Page} (h : c.pages.lookup (pageOf id) = some p) :
    c.node? id = view store c id := by
  rw [view_of_resident h, node?_eq, h]
  rfl

theorem storedNode_of_stored {p : FinMap Nat PageNode} (h0 : pageOf id ≠ 0)
    (h : store.pages.lookup (pageOf id) = some p) :
    storedNode store id = (mapValues pageNodeToTrieNode p).lookup id := by
  unfold storedNode
  rw [if_neg h0, h, lookup_mapValues]
  rfl

theorem storedNode_of_absent (h : pageOf id = 0 ∨ store.pages.lookup (pageOf id) = none) :
    storedNode store id = none := by
  unfold storedNode
  split
  · rfl
  · rename_i h0
    rw [h.resolve_left h0]
    rfl

/-- Fetching a page changes nothing that is seen, and what is seen on it is in memory then. -/
theorem tryLazyLoadPage_view (p : Nat) : (∀ id, view store (c.tryLazyLoadPage store p) id = view store c id) ∧
    ∀ id, pageOf id = p → (c.tryLazyLoadPage store p).node? id = view store c id := by
  unfold MerkleTrieCache.tryLazyLoadPage
  by_cases hres : (c.pages.lookup p).isSome = true
  · rw [if_pos hres]
    refine ⟨fun _ => rfl, fun id hid => ?_⟩
    obtain ⟨q, hq⟩ := Option.isSome_iff_exists.1 hres
    exact node?_of_resident (hid ▸ hq)
  rw [if_neg hres]
  have hnone : c.pages.lookup p = none := Option.not_isSome_iff_eq_none.1 hres
  -- nothing to fetch: nothing of the page is in memory or in the store
  have hnothing : ∀ id, pageOf id = p → p = 0 ∨ store.pages.lookup p = none → c.node? id = view store c id := by
    intro id hid h
    subst hid
    rw [view_of_absent hnone, storedNode_of_absent h, node?_eq, hnone]
    rfl
  by_cases h0 : p = 0
  · rw [if_pos h0]
    exact ⟨fun _ => rfl, fun id hid => hnothing id hid (.inl h0)⟩
  rw [if_neg h0]
  cases hs : store.pages.lookup p with
  | none => exact ⟨fun _ => rfl, fun id hid => hnothing id hid (.inr hs)⟩
  | some stored =>
    have hlookup : ∀ q, (c.pages.insert p (mapValues pageNodeToTrieNode stored)).lookup q =
        if q = p then some (mapValues pageNodeToTrieNode stored) else c.pages.lookup q :=
      fun q => FinMap.lookup_insert_eq c.pages p q _
    simp only [view_prioritizeFront, node?_prioritizeFront]
    have hpage : ∀ id, pageOf id = p → view store { c with
        pages := c.pages.insert p (mapValues pageNodeToTrieNode stored)
        cachedNodeCount := c.cachedNodeCount + (mapValues pageNodeToTrieNode stored).entries.length } id =
          view store c id := by
      intro id hid
      subst hid
      rw [view_of_absent hnone, storedNode_of_stored h0 hs]
      exact view_of_resident ((hlookup _).trans (if_pos rfl))
    constructor
    · intro id
      by_cases hid : pageOf id = p
      · exact hpage id hid
      · unfold view
        rw [hlookup, if_neg hid]
    · intro id hid
      rw [← hpage id hid]
      exact node?_of_resident ((hlookup _).trans (if_pos hid))

/-- Looking for a node finds what is seen, and changes nothing that is seen. -/
theorem touch_view (id : Nat) : (∀ id', view store (c.touch store id) id' = view store c id') ∧
    (c.touch store id).node? id = view store c id := by
  unfold MerkleTrieCache.touch
  cases h : c.node? id with
  | none => exact ⟨(tryLazyLoadPage_view (pageOf id)).1, (tryLazyLoadPage_view (pageOf id)).2 id rfl⟩
  | some n => exact ⟨fun _ => rfl, h.trans (view_of_node? h).symm⟩

end View

/-! ## Answers -/

/-- The answer of a trie, its state forgotten. -/
def answer {α : Type} (x : TrieM α) (t : MerkleTrie) : Except TrieError α := (outcome (x t)).map Prod.snd

/-- A trie answers a question by what it sees, and the question changes nothing else. -/
structure Asks {α : Type} (store : PageStore) (t : MerkleTrie) (r : Except TrieError α)
    (res : EStateM.Result TrieError MerkleTrie α) : Prop where
  answer : (outcome res).map Prod.snd = r
  root : (final res).root = t.root
  elementLength : (final res).elementLength = t.elementLength
  dirty : (final res).dirty = t.dirty
  view : ∀ id, view store (final res).cache id = Trie.view store t.cache id

/-- The node seen under a number. -/
def seen (v : Nat → Option TrieNode) (id : Nat) : Except TrieError TrieNode :=
  match v id with
  | none => .error (.missingNode id)
  | some n => .ok n

def seenChild (n : TrieNode) (b : UInt8) : Except TrieError Nat :=
  match n.children[n.indexOf b]? with
  | none => .error .panic
  | some c => .ok c.childId

/-- Lookup in what is seen. -/
def findIn (v : Nat → Option TrieNode) : Bytes → Nat → Except TrieError Bool
  | [], id => do
    let n ← seen v id
    return n.isLeaf && decide ([] = n.hash)
  | b :: rest, id => do
    let n ← seen v id
    if n.isLeaf then return decide (b :: rest = n.hash)
    else if b ∈ n.childrenMask then do
      let child ← seenChild n b
      findIn v rest child
    else return false

section Asks

variable {store : PageStore} {α β : Type}

theorem Asks.pure (t : MerkleTrie) (a : α) : Asks store t (.ok a) ((Pure.pure a : TrieM α) t) :=
  ⟨rfl, rfl, rfl, rfl, fun _ => rfl⟩

theorem getNode_asks (t : MerkleTrie) (id : Nat) : Asks store t (seen (view store t.cache) id) (getNode store id t) := by
  have htouch : (∀ id', view store (t.cache.touch store id) id' = view store t.cache id') ∧
      (t.cache.touch store id).node? id = view store t.cache id := touch_view id
  obtain ⟨hview, hnode⟩ := htouch
  unfold getNode MerkleTrieCache.get seen
  simp only [hnode]
  cases view store t.cache id with
  | none => exact ⟨rfl, rfl, rfl, rfl, hview⟩
  | some n => exact ⟨rfl, rfl, rfl, rfl, hview⟩

theorem childAt_asks (t : MerkleTrie) (n : TrieNode) (b : UInt8) : Asks store t (seenChild n b) (childAt n b t) := by
  unfold childAt seenChild
  cases n.children[n.indexOf b]? with
  | none => exact ⟨rfl, rfl, rfl, rfl, fun _ => rfl⟩
  | some c => exact ⟨rfl, rfl, rfl, rfl, fun _ => rfl⟩

/-- Questions one after the other. -/
theorem Asks.bind {t : MerkleTrie} {r : Except TrieError α} {x : TrieM α} {f : α → TrieM β}
    {g : α → Except TrieError β} (hx : Asks store t r (x t))
    (hf : ∀ a t', (∀ id, Trie.view store t'.cache id = Trie.view store t.cache id) → Asks store t' (g a) (f a t')) :
    Asks store t (r >>= g) ((x >>= f) t) := by
  have hbind : (x >>= f) t = EStateM.bind x f t := rfl
  rw [hbind]
  unfold EStateM.bind
  obtain ⟨hans, hroot, hlen, hdirty, hview⟩ := hx
  cases hxt : x t with
  | error e t' =>
    rw [hxt] at hans hroot hlen hdirty hview
    rw [← hans]
    exact ⟨rfl, hroot, hlen, hdirty, hview⟩
  | ok a t' =>
    rw [hxt] at hans hroot hlen hdirty hview
    rw [← hans]
    have h := hf a t' hview
    exact ⟨h.answer, h.root.trans hroot, h.elementLength.trans hlen, h.dirty.trans hdirty,
      fun id => (h.view id).trans (hview id)⟩

/-- **Lookup depends on what is seen alone.** -/
theorem nodeFind_asks : ∀ (d : Bytes) (id : Nat) (t : MerkleTrie),
    Asks store t (findIn (view store t.cache) d id) (nodeFind store d id t)
  | [], id, t => (getNode_asks t id).bind fun n t' _ => Asks.pure t' _
  | b :: rest, id, t => by
    refine (getNode_asks t id).bind fun n t₁ h₁ => ?_
    split
    · exact Asks.pure t₁ _
    · split
      · refine (childAt_asks t₁ n b).bind fun child t₂ h₂ => ?_
        have hfind := nodeFind_asks rest child t₂
        rw [show view store t₂.cache = view store t.cache from funext fun i => (h₂ i).trans (h₁ i)] at hfind
        exact hfind
      · exact Asks.pure t₁ false

theorem contains_answer (t : MerkleTrie) (e : Bytes) : answer (MerkleTrie.contains store e) t =
    (if e.length ≠ t.elementLength then .ok false
    else match t.root with
      | none => .ok false
      | some root => findIn (view store t.cache) e root) := by
  unfold answer MerkleTrie.contains
  rw [outcome_bind]
  show (outcome ((if e.length ≠ t.elementLength then Pure.pure false else _ : TrieM Bool) t)).map Prod.snd = _
  by_cases hlen : e.length ≠ t.elementLength
  · rw [if_pos hlen, if_pos hlen]
    rfl
  · rw [if_neg hlen, if_neg hlen]
    cases t.root with
    | none => rfl
    | some root => exact (nodeFind_asks e root t).answer

/-- The root hash of a trie that is not marked as changed. -/
theorem rootHash_answer (hash : Bytes → Bytes) {t : MerkleTrie} (ht : t.dirty = false) :
    answer (MerkleTrie.rootHash store hash) t =
      match t.root with
      | none => .ok emptyRootHash
      | some root => (seen (view store t.cache) root).map
        (fun n => hash ((if n.isLeaf then 0 else 1) :: n.hash)) := by
  unfold answer MerkleTrie.rootHash
  rw [outcome_bind]
  show (outcome ((match t.root with | none => _ | some root => _ : TrieM Bytes) t)).map Prod.snd = _
  cases t.root with
  | none => rfl
  | some root =>
    have hrefresh : refreshHashes store hash t = .ok () t := by
      unfold refreshHashes
      show (if t.dirty then _ else Pure.pure () : TrieM Unit) t = _
      rw [ht]
      rfl
    show (outcome ((refreshHashes store hash >>= fun _ => _ : TrieM Bytes) t)).map Prod.snd = _
    rw [outcome_bind, hrefresh]
    show (outcome ((getNode store root >>= fun n => Pure.pure _ : TrieM Bytes) t)).map Prod.snd = _
    rw [outcome_bind]
    have hget : (outcome (getNode store root t)).map Prod.snd = seen (view store t.cache) root :=
      (getNode_asks t root).answer
    show _ = (seen (view store t.cache) root).map _
    rw [← hget]
    cases getNode store root t <;> rfl

end Asks

/-! ## Dropping pages -/

/-- A page in memory is stored as it is: what a later fetch would bring is what is there. -/
def Stored (store : PageStore) (p : Nat) (page : Page) : Prop := ∀ id, pageOf id = p → storedNode store id = page.lookup id

/-- Where there is something to drop, every page in memory but the root's is stored as it is. -/
def Saved (store : PageStore) (t : MerkleTrie) : Prop :=
  t.cache.lruDisabled = false → t.cache.cachedNodeCount > t.cache.cachedNodeCountTarget →
    ∀ p page, t.cache.pages.lookup p = some page → t.root.map pageOf ≠ some p → Stored store p page

section Evict

variable {store : PageStore}

theorem view_removePage {c : MerkleTrieCache} {p : Nat}
    (h : ∀ page, c.pages.lookup p = some page → Stored store p page) (id : Nat) :
    view store (c.removePage p) id = view store c id := by
  have hlookup : ∀ q, (c.removePage p).pages.lookup q = if q = p then none else c.pages.lookup q :=
    fun q => FinMap.lookup_erase_eq c.pages p q
  by_cases hid : pageOf id = p
  · rw [view_of_absent ((hlookup _).trans (if_pos hid))]
    cases hp : c.pages.lookup (pageOf id) with
    | none => exact (view_of_absent hp).symm
    | some page =>
      rw [view_of_resident hp]
      exact h page (hid ▸ hp) id hid
  · unfold view
    rw [hlookup, if_neg hid]

/-- Whatever is dropped was stored as it was, so nothing that is seen changes. -/
theorem evictFrom_view {rootPage : Option Nat} : ∀ (order : List Nat) (c : MerkleTrieCache),
    (∀ p page, c.pages.lookup p = some page → rootPage ≠ some p → Stored store p page) →
      ∀ id, view store (MerkleTrieCache.evictFrom rootPage order c) id = view store c id
  | [], _, _, _ => rfl
  | back :: rest, c, h, id => by
    unfold MerkleTrieCache.evictFrom
    split
    · rfl
    · split
      · rfl
      · rename_i hroot
        have hstored : ∀ page, c.pages.lookup back = some page → Stored store back page := fun page hp =>
          h back page hp (fun he => hroot he.symm)
        refine (evictFrom_view rest _ (fun p page hp hne => ?_) id).trans (view_removePage hstored id)
        have hlookup : (c.removePage back).pages.lookup p = if p = back then none else c.pages.lookup p :=
          FinMap.lookup_erase_eq c.pages back p
        rw [show _ = (if p = back then none else c.pages.lookup p) from hlookup] at hp
        split at hp
        · cases hp
        · exact h p page hp hne

theorem evictFrom_of_le {rootPage : Option Nat} {c : MerkleTrieCache} (h : c.cachedNodeCount ≤ c.cachedNodeCountTarget) :
    ∀ order, MerkleTrieCache.evictFrom rootPage order c = c
  | [] => rfl
  | back :: rest => by
    unfold MerkleTrieCache.evictFrom
    rw [if_pos h]

theorem evict_view {t : MerkleTrie} (h : Saved store t) (id : Nat) :
    view store (t.cache.evict t.root) id = view store t.cache id := by
  unfold MerkleTrieCache.evict
  by_cases hlru : t.cache.lruDisabled = true
  · rw [if_pos hlru]
  rw [if_neg hlru]
  have hpin : ∀ c : MerkleTrieCache, c.pages = t.cache.pages → c.cachedNodeCount = t.cache.cachedNodeCount →
      c.cachedNodeCountTarget = t.cache.cachedNodeCountTarget →
        ∀ order, view store (MerkleTrieCache.evictFrom (t.root.map pageOf) order c) id = view store t.cache id := by
    intro c hpages hcount htarget order
    have hview : view store c id = view store t.cache id := by
      unfold view
      rw [hpages]
    by_cases hle : c.cachedNodeCount ≤ c.cachedNodeCountTarget
    · rw [evictFrom_of_le hle, hview]
    · rw [← hview]
      refine evictFrom_view order c (fun p page hp hne => ?_) id
      rw [hcount, htarget] at hle
      rw [hpages] at hp
      exact h (Bool.eq_false_iff.2 hlru) (Nat.lt_of_not_le hle) p page hp hne
  generalize t.root.map pageOf = rootPage at hpin ⊢
  cases rootPage with
  | none => exact hpin t.cache rfl rfl rfl _
  | some p =>
    simp only
    split
    · exact hpin (t.cache.prioritizeFront p) rfl rfl rfl _
    · exact hpin t.cache rfl rfl rfl _

end Evict

/-! ## Runs -/

/-- The calls of a trie and its store.  A commit may fail at one of its writes. -/
inductive Op
  | add (element : Bytes)
  | delete (element : Bytes)
  | contains (element : Bytes)
  | rootHash
  | commit (fails : Option Nat)
  | evict

/-- Work on the trie; the store is read only. -/
def onTrie {α : Type} (f : PageStore → TrieM α) : EStateM TrieError (MerkleTrie × PageStore) α := fun w =>
  match f w.2 w.1 with
  | .ok a t => .ok a (t, w.2)
  | .error e t => .error e (t, w.2)

section Runs

variable (hash : Bytes → Bytes)

def Op.perform : Op → EStateM TrieError (MerkleTrie × PageStore) Unit
  | .add e => onTrie (fun store => do let _ ← MerkleTrie.add store e)
  | .delete e => onTrie (fun store => do let _ ← MerkleTrie.delete store e)
  | .contains e => onTrie (fun store => do let _ ← MerkleTrie.contains store e)
  | .rootHash => onTrie (fun store => do let _ ← MerkleTrie.rootHash store hash)
  | .commit fails => MerkleTrie.commit hash fails
  | .evict => onTrie (fun _ => MerkleTrie.evict)

/-- The trie and the store after a list of calls, whether they succeed or fail. -/
def runOps (w : MerkleTrie × PageStore) (ops : List Op) : MerkleTrie × PageStore :=
  ops.foldl (fun w op => final (op.perform hash w)) w

/-- The trie of a run, a new one with the store behind it at first. -/
def newTrie (elementLength target : Nat) : MerkleTrie × PageStore := (.withCacheTarget elementLength target, default)

/-- The same elements are found, and the root hash is the same. -/
def SameAnswers (w w' : MerkleTrie × PageStore) : Prop :=
  (∀ e, answer (MerkleTrie.contains w'.2 e) w'.1 = answer (MerkleTrie.contains w.2 e) w.1) ∧
    answer (MerkleTrie.rootHash w'.2 hash) w'.1 = answer (MerkleTrie.rootHash w.2 hash) w.1

/-- Eviction succeeds only on a trie that is not marked as changed, and leaves what is seen. -/
theorem evict_ok {w w' : MerkleTrie × PageStore} (h : Op.evict.perform hash w = .ok () w') :
    w.1.dirty = false ∧ w' = (w.1.setCache (w.1.cache.evict w.1.root), w.2) := by
  have hperform : Op.evict.perform hash w = onTrie (fun _ => MerkleTrie.evict) w := rfl
  rw [hperform] at h
  unfold onTrie MerkleTrie.evict at h
  have hget : ((do
      let t ← get
      if t.dirty then throw .dirtyCache else set (t.setCache (t.cache.evict t.root)) : TrieM Unit) w.1) =
      (if w.1.dirty then throw .dirtyCache else set (w.1.setCache (w.1.cache.evict w.1.root)) : TrieM Unit) w.1 := rfl
  simp only [hget] at h
  cases hd : w.1.dirty with
  | true =>
    rw [hd] at h
    cases h
  | false =>
    rw [hd] at h
    cases h
    exact ⟨rfl, rfl⟩

/-- **Eviction keeps every answer of a run where each page it may drop is stored as it is in memory**, whether the trie
was new or loaded. -/
theorem evict_keeps_answers (start : MerkleTrie × PageStore) (ops : List Op) {w' : MerkleTrie × PageStore}
    (hsaved : Saved (runOps hash start ops).2 (runOps hash start ops).1)
    (h : Op.evict.perform hash (runOps hash start ops) = .ok () w') : SameAnswers hash (runOps hash start ops) w' := by
  generalize runOps hash start ops = w at hsaved h ⊢
  obtain ⟨hdirty, rfl⟩ := evict_ok hash h
  have hview : view w.2 (w.1.cache.evict w.1.root) = view w.2 w.1.cache := funext (evict_view hsaved)
  constructor
  · intro e
    rw [contains_answer, contains_answer]
    simp only [MerkleTrie.setCache, hview]
  · rw [rootHash_answer hash hdirty, rootHash_answer hash (t := w.1.setCache (w.1.cache.evict w.1.root)) hdirty]
    simp only [MerkleTrie.setCache, hview]

end Runs

/-- Two elements that share all bytes but the last: their branch is on the first page and the top of the trie on the
second. -/
def deepElements : Bytes × Bytes := (List.replicate 84 7, List.replicate 83 7 ++ [8])

/-- A short hash. -/
def firstBytes (b : Bytes) : Bytes := b.take 3

def deepOps : List Op := [.add deepElements.1, .add deepElements.2, .rootHash]

def deepTrie (target : Nat) : MerkleTrie × PageStore := runOps firstBytes (newTrie 84 target) deepOps

set_option maxRecDepth 20000 in
theorem deepTrie_answers :
    answer (MerkleTrie.contains (deepTrie 0).2 deepElements.1) (deepTrie 0).1 = .ok true ∧
      okAnd (fun w => decide (answer (MerkleTrie.contains w.2 deepElements.1) w.1 = .error (.missingNode 16819)))
        (Op.evict.perform firstBytes (deepTrie 0)) = true :=
  ⟨by decide +kernel, by decide +kernel⟩

theorem evict_loses_elements : ¬ ∀ (hash : Bytes → Bytes) (elementLength target : Nat) (ops : List Op)
    (w' : MerkleTrie × PageStore), Op.evict.perform hash (runOps hash (newTrie elementLength target) ops) = .ok () w' →
      SameAnswers hash (runOps hash (newTrie elementLength target) ops) w' := by
  intro hall
  obtain ⟨hbefore, hafter⟩ := deepTrie_answers
  obtain ⟨_, w', hevict, hmissing⟩ := ok_of_okAnd hafter
  have hsame := (hall firstBytes 84 0 deepOps w' hevict).1 deepElements.1
  rw [of_decide_eq_true hmissing] at hsame
  exact nomatch hsame.trans hbefore

/-- Every page in memory is stored with its nodes in their order. -/
def storedInOrder (w : MerkleTrie × PageStore) : Bool :=
  w.1.cache.pages.entries.all (fun e => decide (e.1 ≠ 0) &&
    (w.2.pages.lookup e.1).any (fun p => decide ((mapValues pageNodeToTrieNode p).entries = e.2.entries)))

theorem saved_of_storedInOrder {w : MerkleTrie × PageStore} (h : storedInOrder w = true) : Saved w.2 w.1 := by
  intro _ _ p page hp _ id hid
  have he := List.all_eq_true.1 h ⟨p, page⟩ (FinMap.mem_entries.2 hp)
  rw [Bool.and_eq_true, decide_eq_true_eq, Option.any_eq_true] at he
  obtain ⟨h0, stored, hs, hentries⟩ := he
  subst hid
  rw [storedNode_of_stored h0 hs]
  have hpage : mapValues pageNodeToTrieNode stored = page := AList.ext (of_decide_eq_true hentries)
  rw [hpage]

def savedOps : List Op := deepOps ++ [.commit none]

set_option maxRecDepth 20000 in
theorem savedOps_evicts : okAnd (fun w => decide (w.1.cache.pages.keys = [146]))
    (Op.evict.perform firstBytes (runOps firstBytes (newTrie 84 0) savedOps)) = true := by
  decide +kernel

set_option maxRecDepth 20000 in
theorem savedOps_stored : storedInOrder (runOps firstBytes (newTrie 84 0) savedOps) = true := by
  decide +kernel

/-- After a commit the first page may be dropped, and is. -/
theorem evict_keeps_answers_savedOps : ∃ w', Op.evict.perform firstBytes (runOps firstBytes (newTrie 84 0) savedOps) =
    .ok () w' ∧ w'.1.cache.pages.keys = [146] ∧
      SameAnswers firstBytes (runOps firstBytes (newTrie 84 0) savedOps) w' := by
  have hkeeps := @evict_keeps_answers firstBytes (newTrie 84 0) savedOps
  have hevict := savedOps_evicts
  have hsaved := saved_of_storedInOrder savedOps_stored
  generalize runOps firstBytes (newTrie 84 0) savedOps = w at hkeeps hevict hsaved ⊢
  obtain ⟨_, w', hw', hkeys⟩ := ok_of_okAnd hevict
  exact ⟨w', hw', of_decide_eq_true hkeys, hkeeps hsaved hw'⟩

end Trie
end Algod
