import AlgodRust.Trie.Rehash
/-!
# Canonical — a trie in memory is a set

`Models` ties a trie to the set it holds: its root stands for the set, and its hashes are right where it is not marked as
changed.  Every call keeps it and answers what the set says.  The root hash is `setHash`, a function of the set alone, so
neither the order of the calls nor what was added and deleted again can show in it.
-/
namespace Algod
namespace Trie

open Run
open Msgpack (Bytes)

/-- The root of a trie stands for a set, with the numbers in use. -/
def Roots (hash : Bytes → Bytes) (store : PageStore) (t : MerkleTrie) (S : Set Bytes) (F : Set Nat) : Prop :=
  match t.root with
  | none => S = ∅ ∧ F = ∅
  | some root => Rep hash ↑t.cache.pendingCreated (if t.dirty then ↑t.cache.pendingCreated else ∅) (view store t.cache)
      t.elementLength [] root S F

/-- **A trie holds a set**: its root stands for it, and its books are right. -/
structure Models (hash : Bytes → Bytes) (store : PageStore) (t : MerkleTrie) (S : Set Bytes) (F : Set Nat) : Prop where
  books : Books store t.cache F
  roots : Roots hash store t S F

section Models

variable {hash : Bytes → Bytes} {store : PageStore} {t : MerkleTrie} {S : Set Bytes} {F : Set Nat} {root : Nat} {e : Bytes}

theorem Models.rep (h : Models hash store t S F) (hroot : t.root = some root) :
    Rep hash ↑t.cache.pendingCreated (if t.dirty then ↑t.cache.pendingCreated else ∅) (view store t.cache)
      t.elementLength [] root S F := by
  have := h.roots
  unfold Roots at this
  rw [hroot] at this
  exact this

theorem Models.empty (h : Models hash store t S F) (hroot : t.root = none) : S = ∅ ∧ F = ∅ := by
  have := h.roots
  unfold Roots at this
  rw [hroot] at this
  exact this

theorem Models.stands (h : Models hash store t S F) (hroot : t.root = some root) :
    Stands hash store t.cache t.elementLength [] root S F := by
  refine (h.rep hroot).weaken ?_
  split
  · exact subset_rfl
  · exact Set.empty_subset _

/-- Fetching pages does not change the set. -/
theorem Models.quiet (h : Models hash store t S F) {c' : MerkleTrieCache} (hq : Quiet store t.cache c') :
    Models hash store (t.setCache c') S F := by
  refine ⟨hq.books h.books, ?_⟩
  unfold Roots
  have hcreated : (t.setCache c').cache.pendingCreated = t.cache.pendingCreated := hq.created
  cases hroot : t.root with
  | none =>
    have hroot' : (t.setCache c').root = none := hroot
    rw [hroot']
    exact h.empty hroot
  | some root =>
    have hroot' : (t.setCache c').root = some root := hroot
    rw [hroot', hcreated]
    exact (h.rep hroot).congr (fun i _ => hq.view i) (fun _ _ => Iff.rfl) fun _ _ hi => hi

open Classical in
/-- Lookup from a node. -/
theorem nodeFind_quiet {created stale : Set Nat} : ∀ (d : Bytes) {L : Nat} {path : Bytes} {id : Nat} {S : Set Bytes}
    {F : Set Nat} {t : MerkleTrie}, Rep hash created stale (view store t.cache) L path id S F → d.length = L →
      ∃ c', nodeFind store d id t = .ok (decide (d ∈ S)) (t.setCache c') ∧ Quiet store t.cache c' := by
  intro d
  induction d with
  | nil =>
    intro L path id S F t h hd
    have hfind := h.findIn_eq hd
    obtain ⟨n, hn⟩ := h.seen id h.id_mem
    obtain ⟨c', hget, hq, -⟩ := getNode_quiet hn
    refine ⟨c', ?_, hq⟩
    rw [findIn, seen, hn] at hfind
    rw [nodeFind]
    exact state_bind_eq_ok.2 ⟨n, _, hget, by rw [← Except.ok.inj hfind]; rfl⟩
  | cons b rest ih =>
    intro L path id S F t h hd
    obtain ⟨n, hn⟩ := h.seen id h.id_mem
    obtain ⟨c₁, hget, hq₁, -⟩ := getNode_quiet hn
    rw [nodeFind]
    cases h with
    | @leaf _ _ e _ hv hlen =>
      rw [hv] at hn
      cases hn
      refine ⟨c₁, state_bind_eq_ok.2 ⟨_, _, hget, ?_⟩, hq₁⟩
      rw [leaf_isLeaf, if_pos rfl]
      exact congrArg (fun a => EStateM.Result.ok a (t.setCache c₁)) (decide_eq_decide.2 Set.mem_singleton_iff.symm)
    | @branch M _ _ _ m G hv hb hG hc =>
      have hm : n = m := Option.some.inj (hn.symm.trans hv)
      subst hm
      by_cases hne : (under b S).Nonempty
      · obtain ⟨x, hx, rfl⟩ := (hb.index b).2 hne
        have hchild : Rep hash created stale (view store c₁) M (path ++ [x.hashIndex]) x.childId (under x.hashIndex S)
            (G x.hashIndex) := (hc x hx).congr (fun i _ => hq₁.view i) (fun _ _ => Iff.rfl) fun _ _ hi => hi
        obtain ⟨c₂, hfind, hq₂⟩ := ih (t := t.setCache c₁) hchild (Nat.succ.inj hd)
        refine ⟨c₂, state_bind_eq_ok.2 ⟨n, _, hget, ?_⟩, hq₁.trans hq₂⟩
        rw [hb.isLeaf hb.many.nonempty, if_neg Bool.false_ne_true, if_pos ((hb.mask _).2 hne)]
        refine state_bind_eq_ok.2 ⟨x.childId, t.setCache c₁, ?_, hfind⟩
        unfold childAt
        rw [hb.childAt hx]
        rfl
      · refine ⟨c₁, state_bind_eq_ok.2 ⟨n, _, hget, ?_⟩, hq₁⟩
        have hout : b :: rest ∉ S := fun hm => hne ⟨rest, hm⟩
        rw [hb.isLeaf hb.many.nonempty, if_neg Bool.false_ne_true, if_neg fun hm => hne ((hb.mask b).1 hm),
          decide_eq_false hout]
        rfl

/-- A call succeeds with the given answer, and leaves a trie that holds the given set. -/
def Answers {α : Type} (hash : Bytes → Bytes) (store : PageStore) (t : MerkleTrie) (x : TrieM α) (S : Set Bytes) (a : α) :
    Prop :=
  ∃ t' F, x t = .ok a t' ∧ t'.elementLength = t.elementLength ∧ Models hash store t' S F

/-- Nodes that stand for a set become the trie. -/
theorem Leaves.models {t' : MerkleTrie} {id : Nat} (h : Leaves hash store ∅ t'.elementLength [] S id t') :
    ∃ F, Models hash store { t' with root := some id, dirty := true } S F := by
  obtain ⟨F, hF, -, hbooks⟩ := h
  rw [Set.union_empty] at hbooks
  exact ⟨F, hbooks, hF⟩

open Classical in
/-- **Adding an element.** -/
theorem add_answers (h : Models hash store t S F) (he : e.length = t.elementLength) :
    Answers hash store t (MerkleTrie.add store e) (insert e S) (decide (e ∉ S)) := by
  have hmodify : (modify fun t => if t.elementLength = 0 then { t with elementLength := e.length } else t : TrieM PUnit) t =
      .ok () t := by
    by_cases hzero : t.elementLength = 0
    · refine congrArg (EStateM.Result.ok ()) ((if_pos hzero).trans ?_)
      rw [he]
    · exact congrArg (EStateM.Result.ok ()) (if_neg hzero)
  cases hroot : t.root with
  | none =>
    obtain ⟨hS, rfl⟩ := h.empty hroot
    have hout : e ∉ S := by rw [hS]; exact Set.notMem_empty e
    obtain ⟨k, t₁, halloc, -, -, hlen, hleaf⟩ := allocateLeaf_does hash [] h.books he
    rw [← hlen] at hleaf
    obtain ⟨F', hF'⟩ := hleaf.models
    refine ⟨{ t₁ with root := some k, dirty := true }, F',
      state_bind_eq_ok.2 ⟨_, _, hmodify, state_bind_eq_ok.2 ⟨t, t, rfl, ?_⟩⟩, hlen, ?_⟩
    · rw [if_neg (not_not.2 he)]
      simp only [hroot]
      refine state_bind_eq_ok.2 ⟨k, t₁, halloc, ?_⟩
      rw [decide_eq_true hout]
      rfl
    · rw [hS, insert_empty_eq]
      exact hF'
  | some root =>
    obtain ⟨c₁, hfind, hq⟩ := nodeFind_quiet e (h.rep hroot) he
    have h₁ := h.quiet hq
    by_cases hmem : e ∈ S
    · refine ⟨t.setCache c₁, F, state_bind_eq_ok.2 ⟨_, _, hmodify, state_bind_eq_ok.2 ⟨t, t, rfl, ?_⟩⟩, rfl, ?_⟩
      · rw [if_neg (not_not.2 he)]
        simp only [hroot]
        refine state_bind_eq_ok.2 ⟨_, _, hfind, ?_⟩
        rw [decide_eq_true hmem, decide_eq_false (not_not.2 hmem)]
        rfl
      · rw [Set.insert_eq_of_mem hmem]
        exact h₁
    · have hbooks : Books store (t.setCache c₁).cache (F ∪ ∅) := by
        rw [Set.union_empty]
        exact h₁.books
      obtain ⟨k, t₂, hadd, -, -, hlen, hleaves⟩ :=
        nodeAdd_does e (h₁.stands hroot) he hmem (Set.disjoint_empty F) hbooks
      have hleaves' : Leaves hash store ∅ t₂.elementLength [] (insert e S) k t₂ := by
        rw [hlen]
        exact hleaves
      obtain ⟨F', hF'⟩ := hleaves'.models
      refine ⟨{ t₂ with root := some k, dirty := true }, F',
        state_bind_eq_ok.2 ⟨_, _, hmodify, state_bind_eq_ok.2 ⟨t, t, rfl, ?_⟩⟩, hlen, hF'⟩
      rw [if_neg (not_not.2 he)]
      simp only [hroot]
      refine state_bind_eq_ok.2 ⟨_, _, hfind, ?_⟩
      rw [decide_eq_false hmem, if_neg Bool.false_ne_true]
      refine state_bind_eq_ok.2 ⟨k, t₂, hadd, ?_⟩
      rw [decide_eq_true hmem]
      rfl

open Classical in
/-- **Deleting an element.** -/
theorem delete_answers (h : Models hash store t S F) (he : e.length = t.elementLength) :
    Answers hash store t (MerkleTrie.delete store e) (S \ {e}) (decide (e ∈ S)) := by
  cases hroot : t.root with
  | none =>
    have hout : e ∉ S := by rw [(h.empty hroot).1]; exact Set.notMem_empty e
    refine ⟨t, F, state_bind_eq_ok.2 ⟨t, t, rfl, ?_⟩, rfl, ?_⟩
    · simp only [hroot]
      rw [decide_eq_false hout]
      rfl
    · rw [Set.sdiff_singleton_eq_self hout]
      exact h
  | some root =>
    obtain ⟨c₁, hfind, hq₁⟩ := nodeFind_quiet e (h.rep hroot) he
    have h₁ := h.quiet hq₁
    by_cases hmem : e ∈ S
    · obtain ⟨n, hn⟩ := (h₁.stands hroot).seen root (h₁.stands hroot).id_mem
      obtain ⟨c₂, hget, hq₂, hnode⟩ := getNode_quiet hn
      have h₂ := h₁.quiet hq₂
      have hstands := h₂.stands hroot
      have hleaf := hstands.isLeaf_iff (view_of_node? hnode)
      by_cases hmany : S.Nontrivial
      · have hbooks : Books store ((t.setCache c₁).setCache c₂).cache (F ∪ ∅) := by
          rw [Set.union_empty]
          exact h₂.books
        obtain ⟨k, t₃, hremove, -, -, hlen, hleaves⟩ :=
          nodeRemove_does e hstands hmem hmany (Set.disjoint_empty F) hbooks
        have hleaves' : Leaves hash store ∅ t₃.elementLength [] (S \ {e}) k t₃ := by
          rw [hlen]
          exact hleaves
        obtain ⟨F', hF'⟩ := hleaves'.models
        refine ⟨{ t₃ with root := some k, dirty := true }, F', state_bind_eq_ok.2 ⟨t, t, rfl, ?_⟩, hlen, hF'⟩
        simp only [hroot]
        rw [if_neg (not_not.2 he)]
        refine state_bind_eq_ok.2 ⟨_, _, hfind, ?_⟩
        rw [decide_eq_true hmem]
        refine state_bind_eq_ok.2 ⟨n, _, hget, ?_⟩
        rw [if_neg fun hl => hleaf.1 hl hmany]
        exact state_bind_eq_ok.2 ⟨k, t₃, hremove, rfl⟩
      · obtain ⟨x, -, -, hS, hF⟩ := hstands.single hmany
        have hnone : S \ {e} = ∅ := by
          rw [hS, Set.mem_singleton_iff] at hmem
          rw [hS, hmem, Set.sdiff_self]
        obtain ⟨_, t₃, hdel, -, -, hlen, hbooks, -, -⟩ := deleteNode_does (t := (t.setCache c₁).setCache c₂)
          (h₂.books.mono (Set.empty_subset F)) hnode (Set.notMem_empty root)
        refine ⟨{ t₃ with root := none, dirty := true }, ∅, state_bind_eq_ok.2 ⟨t, t, rfl, ?_⟩, hlen, hbooks, hnone, rfl⟩
        simp only [hroot]
        rw [if_neg (not_not.2 he)]
        refine state_bind_eq_ok.2 ⟨_, _, hfind, ?_⟩
        rw [decide_eq_true hmem]
        refine state_bind_eq_ok.2 ⟨n, _, hget, ?_⟩
        rw [if_pos (hleaf.2 hmany)]
        exact state_bind_eq_ok.2 ⟨_, t₃, hdel, rfl⟩
    · refine ⟨t.setCache c₁, F, state_bind_eq_ok.2 ⟨t, t, rfl, ?_⟩, rfl, ?_⟩
      · simp only [hroot]
        rw [if_neg (not_not.2 he)]
        refine state_bind_eq_ok.2 ⟨_, _, hfind, ?_⟩
        rw [decide_eq_false hmem]
        rfl
      · rw [Set.sdiff_singleton_eq_self hmem]
        exact h₁

open Classical in
/-- **Looking an element up.** -/
theorem contains_answers (h : Models hash store t S F) (he : e.length = t.elementLength) :
    Answers hash store t (MerkleTrie.contains store e) S (decide (e ∈ S)) := by
  cases hroot : t.root with
  | none =>
    have hout : e ∉ S := by rw [(h.empty hroot).1]; exact Set.notMem_empty e
    refine ⟨t, F, state_bind_eq_ok.2 ⟨t, t, rfl, ?_⟩, rfl, h⟩
    rw [if_neg (not_not.2 he)]
    simp only [hroot]
    rw [decide_eq_false hout]
    rfl
  | some root =>
    obtain ⟨c₁, hfind, hq⟩ := nodeFind_quiet e (h.rep hroot) he
    refine ⟨t.setCache c₁, F, state_bind_eq_ok.2 ⟨t, t, rfl, ?_⟩, rfl, h.quiet hq⟩
    rw [if_neg (not_not.2 he)]
    simp only [hroot]
    exact hfind

/-- Bringing the hashes up to date. -/
theorem refreshHashes_ok (h : Models hash store t S F) (hroot : t.root = some root) :
    ∃ c', refreshHashes store hash t = .ok () { t.setCache c' with dirty := false } ∧
      Models hash store { t.setCache c' with dirty := false } S F := by
  have hget : refreshHashes store hash t = (if t.dirty then do
      match t.root with
      | none => pure ()
      | some root => recomputeAllHashes store hash root
      modify fun t => { t with dirty := false }
    else pure () : TrieM Unit) t := rfl
  by_cases hdirty : t.dirty = true
  · obtain ⟨_, c', hrun, hr, hfresh⟩ := rehashesBelow hash store t.elementLength [] root S F t (h.stands hroot)
    refine ⟨c', ?_, hr.books h.books, ?_⟩
    · rw [hget, if_pos hdirty]
      simp only [hroot]
      exact state_bind_eq_ok.2 ⟨_, t.setCache c', hrun, rfl⟩
    · have hroot' : ({ t.setCache c' with dirty := false } : MerkleTrie).root = some root := hroot
      unfold Roots
      rw [hroot']
      exact hfresh
  · have hclean : t.dirty = false := Bool.eq_false_iff.2 hdirty
    have hsame : ({ t.setCache t.cache with dirty := false } : MerkleTrie) = t := by
      rw [← hclean]
      rfl
    refine ⟨t.cache, ?_, ?_⟩
    · rw [hget, if_neg hdirty, hsame]
      rfl
    · rw [hsame]
      exact h

open Classical in
/-- **The root hash is a function of the set.** -/
theorem rootHash_answers (h : Models hash store t S F) :
    Answers hash store t (MerkleTrie.rootHash store hash) S (setHash hash t.elementLength S) := by
  cases hroot : t.root with
  | none =>
    have hnone : ¬ S.Nonempty := by rw [(h.empty hroot).1]; exact Set.not_nonempty_empty
    refine ⟨t, F, state_bind_eq_ok.2 ⟨t, t, rfl, ?_⟩, rfl, h⟩
    simp only [hroot]
    rw [setHash, if_neg hnone]
    rfl
  | some root =>
    obtain ⟨c₁, hrefresh, h₁⟩ := refreshHashes_ok h hroot
    have hrep : Rep hash ↑c₁.pendingCreated ∅ (view store c₁) t.elementLength [] root S F := h₁.rep hroot
    obtain ⟨n, hn⟩ := hrep.seen root hrep.id_mem
    obtain ⟨c₂, hget, hq, -⟩ := getNode_quiet (t := { t.setCache c₁ with dirty := false }) hn
    refine ⟨{ t.setCache c₁ with dirty := false }.setCache c₂, F, state_bind_eq_ok.2 ⟨t, t, rfl, ?_⟩, rfl, h₁.quiet hq⟩
    simp only [hroot]
    refine state_bind_eq_ok.2 ⟨_, _, hrefresh, state_bind_eq_ok.2 ⟨n, _, hget, ?_⟩⟩
    rw [setHash, if_pos hrep.nonempty, hrep.hash_eq hn (Set.notMem_empty _)]
    by_cases hmany : S.Nontrivial
    · rw [if_pos hmany, if_neg fun hl => (hrep.isLeaf_iff hn).1 hl hmany]
      rfl
    · rw [if_neg hmany, if_pos ((hrep.isLeaf_iff hn).2 hmany)]
      rfl

end Models

/-! ## Sequences of calls -/

inductive Call
  | add (element : Bytes)
  | delete (element : Bytes)
  | contains (element : Bytes)
  | rootHash
deriving DecidableEq, Repr

inductive Reply
  | flag (b : Bool)
  | hash (h : Bytes)
deriving DecidableEq, Repr

namespace Call

/-- The call is about elements of a length. -/
def Fits (L : Nat) : Call → Prop
  | add e | delete e | contains e => e.length = L
  | rootHash => True

def perform (hash : Bytes → Bytes) (store : PageStore) : Call → TrieM Reply
  | add e => do return .flag (← MerkleTrie.add store e)
  | delete e => do return .flag (← MerkleTrie.delete store e)
  | contains e => do return .flag (← MerkleTrie.contains store e)
  | rootHash => do return .hash (← MerkleTrie.rootHash store hash)

def performAll (hash : Bytes → Bytes) (store : PageStore) : List Call → TrieM (List Reply)
  | [] => pure []
  | c :: cs => do
    let r ← c.perform hash store
    return r :: (← performAll hash store cs)

/-- What a call does to a set. -/
def applyTo (S : Set Bytes) : Call → Set Bytes
  | add e => insert e S
  | delete e => S \ {e}
  | contains _ => S
  | rootHash => S

open Classical in
/-- What a set answers a call. -/
noncomputable def replyOf (hash : Bytes → Bytes) (L : Nat) (S : Set Bytes) : Call → Reply
  | add e => .flag (decide (e ∉ S))
  | delete e => .flag (decide (e ∈ S))
  | contains e => .flag (decide (e ∈ S))
  | rootHash => .hash (setHash hash L S)

/-- The set after a sequence of calls. -/
def finalSet (S : Set Bytes) (cs : List Call) : Set Bytes := cs.foldl applyTo S

noncomputable def repliesOf (hash : Bytes → Bytes) (L : Nat) : Set Bytes → List Call → List Reply
  | _, [] => []
  | S, c :: cs => c.replyOf hash L S :: repliesOf hash L (c.applyTo S) cs

variable {hash : Bytes → Bytes} {store : PageStore} {t : MerkleTrie} {S : Set Bytes} {F : Set Nat}

theorem perform_answers (c : Call) (h : Models hash store t S F) (hc : c.Fits t.elementLength) :
    Answers hash store t (c.perform hash store) (c.applyTo S) (c.replyOf hash t.elementLength S) := by
  have hmap : ∀ {α : Type} {x : TrieM α} {S' : Set Bytes} {a : α} (f : α → Reply), Answers hash store t x S' a →
      Answers hash store t (do return f (← x)) S' (f a) := by
    rintro α x S' a f ⟨t', F', hx, hrest⟩
    exact ⟨t', F', state_bind_eq_ok.2 ⟨a, t', hx, rfl⟩, hrest⟩
  cases c with
  | add e => exact hmap .flag (add_answers h hc)
  | delete e => exact hmap .flag (delete_answers h hc)
  | contains e => exact hmap .flag (contains_answers h hc)
  | rootHash => exact hmap .hash (rootHash_answers h)

/-- A run of calls gives the answers of the set. -/
theorem performAll_answers : ∀ (cs : List Call) {t : MerkleTrie} {S : Set Bytes} {F : Set Nat},
    Models hash store t S F → (∀ c ∈ cs, c.Fits t.elementLength) →
      Answers hash store t (performAll hash store cs) (finalSet S cs) (repliesOf hash t.elementLength S cs)
  | [], t, S, F, h, _ => ⟨t, F, rfl, rfl, h⟩
  | c :: cs, t, S, F, h, hfits => by
    obtain ⟨t₁, F₁, h₁, hlen₁, hm₁⟩ := c.perform_answers h (hfits c List.mem_cons_self)
    have hfits₁ : ∀ c' ∈ cs, c'.Fits t₁.elementLength := by
      rw [hlen₁]
      exact fun c' hc' => hfits c' (List.mem_cons_of_mem _ hc')
    obtain ⟨t₂, F₂, h₂, hlen₂, hm₂⟩ := performAll_answers cs hm₁ hfits₁
    rw [hlen₁] at h₂
    exact ⟨t₂, F₂, state_bind_eq_ok.2 ⟨_, t₁, h₁, state_bind_eq_ok.2 ⟨_, t₂, h₂, rfl⟩⟩, hlen₂.trans hlen₁, hm₂⟩

end Call

/-- A new trie holds nothing. -/
theorem models_new (hash : Bytes → Bytes) (store : PageStore) (L target : Nat) :
    Models hash store (MerkleTrie.withCacheTarget L target) ∅ ∅ where
  books :=
    { seen := fun _ hi => absurd hi (Set.notMem_empty _)
      above := fun _ hi => absurd hi (Set.notMem_empty _)
      below := fun _ hi => absurd hi (Set.notMem_empty _)
      room := fun _ hi => absurd hi (Set.notMem_empty _)
      created := fun _ hi => absurd hi (Set.notMem_empty _)
      stored := fun _ hi => absurd hi (Set.notMem_empty _)
      deletion := fun _ _ _ hi => absurd hi (Set.notMem_empty _)
      recent := fun _ hi => absurd hi (Finset.notMem_empty _)
      committed := Nat.le_refl _
      first := Nat.le_refl _ }
  roots := ⟨rfl, rfl⟩

theorem Call.repliesOf_rootHash (hash : Bytes → Bytes) (L : Nat) : ∀ (cs : List Call) (S : Set Bytes),
    repliesOf hash L S (cs ++ [.rootHash]) = repliesOf hash L S cs ++ [.hash (setHash hash L (finalSet S cs))]
  | [], _ => rfl
  | c :: cs, S => by
    rw [List.cons_append, repliesOf, repliesOf_rootHash hash L cs]
    rfl

/-- On a new trie every sequence of calls gives the answers of the set. -/
theorem Call.performAll_new (hash : Bytes → Bytes) {L : Nat} (target : Nat) {cs : List Call} (hcs : ∀ c ∈ cs, c.Fits L) :
    ∃ t, performAll hash default cs (MerkleTrie.withCacheTarget L target) = .ok (repliesOf hash L ∅ cs) t := by
  obtain ⟨t, _, hrun, -, -⟩ := performAll_answers cs (models_new hash default L target) hcs
  exact ⟨t, hrun⟩

/-- **A trie in memory is a canonical set**: on a new trie, every sequence of calls with elements of its length succeeds
with the answers that a set gives, and sequences that end in the same set leave tries with the same root hash. -/
theorem calls_canonical (hash : Bytes → Bytes) (L target : Nat) (cs : List Call) (hcs : ∀ c ∈ cs, c.Fits L) :
    (∃ t, Call.performAll hash default cs (MerkleTrie.withCacheTarget L target) =
      .ok (Call.repliesOf hash L ∅ cs) t) ∧
    ∀ cs' : List Call, (∀ c ∈ cs', c.Fits L) → Call.finalSet ∅ cs' = Call.finalSet ∅ cs → ∃ h t t',
      Call.performAll hash default (cs ++ [.rootHash]) (MerkleTrie.withCacheTarget L target) =
        .ok (Call.repliesOf hash L ∅ cs ++ [.hash h]) t ∧
      Call.performAll hash default (cs' ++ [.rootHash]) (MerkleTrie.withCacheTarget L target) =
        .ok (Call.repliesOf hash L ∅ cs' ++ [.hash h]) t' := by
  refine ⟨Call.performAll_new hash target hcs, fun cs' hcs' hsame => ?_⟩
  have hlast : ∀ {cs : List Call}, (∀ c ∈ cs, c.Fits L) → ∀ c ∈ cs ++ [Call.rootHash], c.Fits L := by
    intro cs hcs c hc
    rcases List.mem_append.1 hc with hc | hc
    · exact hcs c hc
    · rw [List.mem_singleton.1 hc]
      exact trivial
  obtain ⟨t, ht⟩ := Call.performAll_new hash target (hlast hcs)
  obtain ⟨t', ht'⟩ := Call.performAll_new hash target (hlast hcs')
  rw [Call.repliesOf_rootHash] at ht ht'
  rw [hsame] at ht'
  exact ⟨_, t, t', ht, ht'⟩

/-- An element added and deleted again, with the hash computed in between, leaves no trace. -/
theorem calls_canonical_detour : ∃ h t t',
    Call.performAll id default ([.add [1, 3], .add [1, 2], .rootHash, .delete [1, 2]] ++ [.rootHash])
      (MerkleTrie.withCacheTarget 2 9000) =
        .ok (Call.repliesOf id 2 ∅ [.add [1, 3], .add [1, 2], .rootHash, .delete [1, 2]] ++ [.hash h]) t ∧
    Call.performAll id default ([.add [1, 3]] ++ [.rootHash]) (MerkleTrie.withCacheTarget 2 9000) =
      .ok (Call.repliesOf id 2 ∅ [.add [1, 3]] ++ [.hash h]) t' := by
  refine (calls_canonical id 2 9000 [.add [1, 3], .add [1, 2], .rootHash, .delete [1, 2]] ?_).2 [.add [1, 3]] ?_ ?_
  · simp [Call.Fits]
  · simp [Call.Fits]
  · simp [Call.finalSet, Call.applyTo]

end Trie
end Algod
