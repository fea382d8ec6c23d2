import AlgodRust.Trie.Upkeep
/-!
# SetModel — adding, deleting and hashing against the set

Adding an element to the nodes that stand for a set gives nodes that stand for the set with it; deleting gives nodes that
stand for the set without it; recomputing the hashes gives nodes none of which is stale.  Each is stated with the numbers
outside the nodes at hand, which are kept.
-/
namespace Algod
namespace Trie

open Run
open Msgpack (Bytes)

/-! ## Children -/

section Under

variable {b b' : UInt8} {d : Bytes} {S : Set Bytes}

theorem under_insert_self : under b (insert (b :: d) S) = insert d (under b S) := by
  ext e
  simp [Set.mem_insert_iff]

theorem under_insert_of_ne (h : b' ≠ b) : under b' (insert (b :: d) S) = under b' S := by
  ext e
  simp [Set.mem_insert_iff, h]

theorem under_diff_self : under b (S \ {b :: d}) = under b S \ {d} := by
  ext e
  simp

theorem under_diff_of_ne (h : b' ≠ b) : under b' (S \ {b :: d}) = under b' S := by
  ext e
  simp [h]

end Under

section Fan

variable {S : Set Bytes} {n : TrieNode} {c : ChildEntry}

theorem mem_redirectChild (h : Fan S n) (hc : c ∈ n.children) (child : Nat) (path : Bytes) {x : ChildEntry} :
    x ∈ (redirectChild (n.indexOf c.hashIndex) child path n).children ↔
      x = { c with childId := child } ∨ x ∈ n.children ∧ x.hashIndex ≠ c.hashIndex := by
  have hkey : ∀ x : ChildEntry, byteKey x ≠ byteKey c ↔ x.hashIndex ≠ c.hashIndex := fun x =>
    not_congr UInt8.toNat_inj
  rw [← hkey]
  exact Keyed.mem_modify_place h.sorted hc

/-- Another number for a child. -/
theorem Fan.redirect {S' : Set Bytes} (h : Fan S n) (hc : c ∈ n.children) (child : Nat) (path : Bytes) (hcons : [] ∉ S')
    (hne : ∀ b, (under b S').Nonempty ↔ (under b S).Nonempty) :
    Fan S' (redirectChild (n.indexOf c.hashIndex) child path n) where
  cons := hcons
  sorted := by
    have hsame : (redirectChild (n.indexOf c.hashIndex) child path n).children.map byteKey = n.children.map byteKey :=
      Keyed.map_key_modify (fun x : ChildEntry => { x with childId := child }) (fun _ => rfl) n.children _
    unfold Keyed.Ascending
    rw [hsame]
    exact h.sorted
  index b := by
    rw [hne, ← h.index]
    constructor
    · rintro ⟨x, hx, rfl⟩
      rcases (mem_redirectChild h hc child path).1 hx with rfl | ⟨hx, -⟩
      · exact ⟨c, hc, rfl⟩
      · exact ⟨x, hx, rfl⟩
    · rintro ⟨x, hx, rfl⟩
      by_cases he : x.hashIndex = c.hashIndex
      · exact ⟨{ c with childId := child }, (mem_redirectChild h hc child path).2 (.inl rfl), he.symm⟩
      · exact ⟨x, (mem_redirectChild h hc child path).2 (.inr ⟨hx, he⟩), rfl⟩
  mask b := by
    rw [hne]
    exact h.mask b

theorem mem_insertChild (b : UInt8) (leaf : Nat) (path : Bytes) {x : ChildEntry} :
    x ∈ (insertChild b leaf path n).children ↔ x = ⟨b, leaf⟩ ∨ x ∈ n.children :=
  @Keyed.mem_insertIdx_place ChildEntry Nat _ byteKey n.children ⟨b, leaf⟩ x

/-- A child for a new byte. -/
theorem Fan.insertChild (h : Fan S n) {b : UInt8} (hb : ¬ (under b S).Nonempty) (leaf : Nat) (path d : Bytes) :
    Fan (insert (b :: d) S) (insertChild b leaf path n) where
  cons := by
    rintro (he | he)
    · cases he
    · exact h.cons he
  sorted := by
    refine Keyed.ascending_insertIdx_place (x := (⟨b, leaf⟩ : ChildEntry)) h.sorted fun y hy he => ?_
    exact hb ((h.index b).1 ⟨y, hy, UInt8.toNat_inj.1 he⟩)
  index b' := by
    by_cases hbb : b' = b
    · subst hbb
      rw [under_insert_self]
      exact ⟨fun _ => Set.insert_nonempty _ _, fun _ => ⟨⟨b', leaf⟩, (mem_insertChild b' leaf path).2 (.inl rfl), rfl⟩⟩
    · rw [under_insert_of_ne hbb, ← h.index]
      constructor
      · rintro ⟨x, hx, rfl⟩
        rcases (mem_insertChild b leaf path).1 hx with rfl | hx
        · exact absurd rfl hbb
        · exact ⟨x, hx, rfl⟩
      · rintro ⟨x, hx, rfl⟩
        exact ⟨x, (mem_insertChild b leaf path).2 (.inr hx), rfl⟩
  mask b' := by
    have hmask : b' ∈ (Trie.insertChild b leaf path n).childrenMask ↔ b' = b ∨ b' ∈ n.childrenMask := Finset.mem_insert
    rw [hmask, h.mask]
    by_cases hbb : b' = b
    · subst hbb
      rw [under_insert_self]
      exact ⟨fun _ => Set.insert_nonempty _ _, fun _ => .inl rfl⟩
    · rw [under_insert_of_ne hbb]
      exact ⟨fun h => h.resolve_left hbb, .inr⟩

theorem mem_removeChild (h : Fan S n) (hc : c ∈ n.children) (path : Bytes) {x : ChildEntry} :
    x ∈ (removeChild (n.indexOf c.hashIndex) c.hashIndex path n).children ↔
      x ∈ n.children ∧ x.hashIndex ≠ c.hashIndex := by
  have hkey : ∀ x : ChildEntry, byteKey x ≠ byteKey c ↔ x.hashIndex ≠ c.hashIndex := fun x =>
    not_congr UInt8.toNat_inj
  rw [← hkey]
  exact Keyed.mem_eraseIdx_place h.sorted hc

/-- A child goes with its only element. -/
theorem Fan.removeChild (h : Fan S n) (hc : c ∈ n.children) (path : Bytes) {d : Bytes}
    (hd : under c.hashIndex S = {d}) :
    Fan (S \ {c.hashIndex :: d}) (removeChild (n.indexOf c.hashIndex) c.hashIndex path n) where
  cons he := h.cons he.1
  sorted := h.sorted.eraseIdx _
  index b := by
    by_cases hb : b = c.hashIndex
    · subst hb
      rw [under_diff_self, hd, Set.sdiff_self]
      refine ⟨?_, fun he => absurd he Set.not_nonempty_empty⟩
      rintro ⟨x, hx, he⟩
      exact absurd he ((mem_removeChild h hc path).1 hx).2
    · rw [under_diff_of_ne hb, ← h.index]
      constructor
      · rintro ⟨x, hx, rfl⟩
        exact ⟨x, ((mem_removeChild h hc path).1 hx).1, rfl⟩
      · rintro ⟨x, hx, rfl⟩
        exact ⟨x, (mem_removeChild h hc path).2 ⟨hx, hb⟩, rfl⟩
  mask b := by
    have hmask : b ∈ (Trie.removeChild (n.indexOf c.hashIndex) c.hashIndex path n).childrenMask ↔
        b ≠ c.hashIndex ∧ b ∈ n.childrenMask := Finset.mem_erase
    rw [hmask, h.mask]
    by_cases hb : b = c.hashIndex
    · subst hb
      rw [under_diff_self, hd, Set.sdiff_self]
      exact ⟨fun h => absurd rfl h.1, fun he => absurd he Set.not_nonempty_empty⟩
    · rw [under_diff_of_ne hb]
      exact ⟨And.right, fun h => ⟨hb, h⟩⟩

end Fan

/-- The nodes from a number on stand for a set; those created since the last commit may have any hash. -/
abbrev Stands (hash : Bytes → Bytes) (store : PageStore) (c : MerkleTrieCache) :
    Nat → Bytes → Nat → Set Bytes → Set Nat → Prop :=
  Rep hash ↑c.pendingCreated ↑c.pendingCreated (view store c)

/-- What an operation leaves of the nodes at hand: they stand for a set under new numbers, apart from the others. -/
def Leaves (hash : Bytes → Bytes) (store : PageStore) (D : Set Nat) (L : Nat) (path : Bytes) (S : Set Bytes) (id : Nat)
    (t : MerkleTrie) : Prop :=
  ∃ F, Stands hash store t.cache L path id S F ∧ Disjoint F D ∧ Books store t.cache (F ∪ D)

/-- The numbers below the other children. -/
def others (G : UInt8 → Set Nat) (b : UInt8) : Set Nat := {i | ∃ b', b' ≠ b ∧ i ∈ G b'}

section Steps

variable {hash : Bytes → Bytes} {store : PageStore} {D : Set Nat} {t : MerkleTrie} {id : Nat} {n : TrieNode} {L : Nat}
  {path : Bytes} {S : Set Bytes} {h d : Bytes} {h d p : Bytes} {b b' : UInt8}

theorem node?_of_written {c c' : MerkleTrieCache} (h : Written store c c' id n) : c'.node? id = some n := by
  rw [node?_of_page store h.here, h.self]

/-- A new leaf stands for its element. -/
theorem allocateLeaf_does (hash : Bytes → Bytes) (path : Bytes) (hb : Books store t.cache D) {h : Bytes}
    (hlen : h.length = L) :
    Does store D t (allocateNode (.leaf h)) (Leaves hash store D L path {h}) := by
  refine (allocateNode_does hb).mono subset_rfl fun k t' _ hk => ?_
  obtain ⟨hview, hfresh, -, hbooks⟩ := hk
  refine ⟨{k}, .leaf hview hlen, Set.disjoint_singleton_left.2 hfresh, ?_⟩
  rw [Set.singleton_union]
  exact hbooks

/-- A created node whose children stand for what follows their bytes stands for the set. -/
theorem Stands.of_created {c : MerkleTrieCache} {k : Nat} {G : UInt8 → Set Nat} (hv : view store c k = some n)
    (hk : k ∈ c.pendingCreated) (hfan : Fan S n) (hmany : S.Nontrivial) (hG : Apart S k G)
    (hc : ∀ x ∈ n.children, Stands hash store c L (path ++ [x.hashIndex]) x.childId (under x.hashIndex S)
      (G x.hashIndex)) : Stands hash store c (L + 1) path k S (insert k (⋃ b, G b)) :=
  .branch hv ⟨hfan, hmany, fun h => absurd hk h, fun h => absurd hk h⟩ hG hc

/-! ## Splitting a leaf -/

/-- Two strings of one length that differ: where they do first. -/
theorem diverge_eq : ∀ {h d : Bytes}, h.length = d.length → h ≠ d → ∃ i b b', diverge h d = some i ∧
    h.take i = d.take i ∧ h[i]? = some b ∧ d[i]? = some b' ∧ b ≠ b'
  | [], [], _, hne => absurd rfl hne
  | [], _ :: _, hlen, _ => (by cases hlen)
  | _ :: _, [], hlen, _ => (by cases hlen)
  | a :: as, a' :: as', hlen, hne => by
    by_cases ha : a = a'
    · subst ha
      obtain ⟨i, b, b', hi, htake, hb, hb', hbb⟩ := diverge_eq (Nat.succ.inj hlen) fun he => hne (he ▸ rfl)
      refine ⟨i + 1, b, b', ?_, ?_, hb, hb', hbb⟩
      · rw [diverge, if_pos rfl, hi]
        rfl
      · rw [List.take_succ_cons, List.take_succ_cons, htake]
    · exact ⟨0, a, a', by rw [diverge, if_neg ha], rfl, rfl, rfl, ha⟩

theorem drop_of_getElem? {l : Bytes} {i : Nat} {b : UInt8} (h : l[i]? = some b) : l.drop i = b :: l.drop (i + 1) := by
  rw [List.drop_eq_getElem?_toList_append, h]
  rfl

theorem under_pair {b : UInt8} : under b {b :: h, b :: d} = {h, d} := by
  ext e
  simp

/-- A node with one child. -/
theorem fan_single {b : UInt8} (top : Nat) : Fan {b :: h, b :: d} ⟨p, [⟨b, top⟩], {b}⟩ where
  cons := by
    rintro (he | he) <;> cases he
  sorted := List.pairwise_singleton _ _
  index b' := by
    constructor
    · rintro ⟨x, hx, rfl⟩
      rw [List.mem_singleton] at hx
      subst hx
      exact ⟨h, .inl rfl⟩
    · rintro ⟨e, he | he⟩
      · cases he
        exact ⟨_, List.mem_singleton.2 rfl, rfl⟩
      · cases he
        exact ⟨_, List.mem_singleton.2 rfl, rfl⟩
  mask b' := by
    rw [Finset.mem_singleton]
    constructor
    · rintro rfl
      exact ⟨h, .inl rfl⟩
    · rintro ⟨e, he | he⟩
      · cases he
        rfl
      · cases he
        rfl

/-- A node with a child for each of two bytes. -/
theorem fan_pair (hbb : b ≠ b') (cur new : Nat) :
    Fan {b :: h, b' :: d} ⟨p, branchChildren b cur b' new, {b, b'}⟩ := by
  have hmem : ∀ x, x ∈ branchChildren b cur b' new ↔ x = ⟨b, cur⟩ ∨ x = ⟨b', new⟩ := by
    intro x
    unfold branchChildren
    split
    · simp
    · simp [or_comm]
  have hunder : ∀ x, (under x {b :: h, b' :: d}).Nonempty ↔ x = b ∨ x = b' := by
    intro x
    constructor
    · rintro ⟨e, he | he⟩
      · cases he
        exact .inl rfl
      · cases he
        exact .inr rfl
    · rintro (rfl | rfl)
      · exact ⟨h, .inl rfl⟩
      · exact ⟨d, .inr rfl⟩
  refine ⟨?_, ?_, fun x => ?_, fun x => ?_⟩
  · rintro (he | he) <;> cases he
  · unfold branchChildren Keyed.Ascending
    split
    · rename_i hlt
      simpa [byteKey] using UInt8.lt_iff_toNat_lt.1 hlt
    · rename_i hlt
      have hne : b.toNat ≠ b'.toNat := fun he => hbb (UInt8.toNat_inj.1 he)
      have hge : ¬ b.toNat < b'.toNat := fun hl => hlt (UInt8.lt_iff_toNat_lt.2 hl)
      have : b'.toNat < b.toNat := by omega
      simpa [byteKey] using this
  · rw [hunder]
    constructor
    · rintro ⟨c, hc, rfl⟩
      rcases (hmem c).1 hc with rfl | rfl
      · exact .inl rfl
      · exact .inr rfl
    · rintro (rfl | rfl)
      · exact ⟨_, (hmem _).2 (.inl rfl), rfl⟩
      · exact ⟨_, (hmem _).2 (.inr rfl), rfl⟩
  · rw [hunder]
    simp

/-- A node with one child over nodes that stand for two strings. -/
theorem allocateSingle_does {b : UInt8} {top M : Nat} (hne : h ≠ d)
    (htop : Leaves hash store D M (path ++ [b]) {h, d} top t) :
    Does store D t (allocateNode ⟨p, [⟨b, top⟩], {b}⟩) (Leaves hash store D (M + 1) path {b :: h, b :: d}) := by
  obtain ⟨F, hF, hdisj, hbooks⟩ := htop
  refine (allocateNode_does hbooks).mono Set.subset_union_right fun k t' hkeeps hk => ?_
  obtain ⟨hview, hfresh, hcreated, hbooks'⟩ := hk
  have hmany : ({b :: h, b :: d} : Set Bytes).Nontrivial := Set.nontrivial_pair fun he => hne (List.cons.inj he).2
  have hchild : Stands hash store t'.cache M (path ++ [b]) top (under b {b :: h, b :: d}) F := by
    rw [under_pair]
    exact hF.kept (hkeeps.mono Set.subset_union_left)
  let G : UInt8 → Set Nat := fun x => if x = b then F else ∅
  have hG : Apart {b :: h, b :: d} k G := by
    refine ⟨fun x => ?_, fun x x' hx => ?_, fun x hx => ?_⟩
    · by_cases hxb : x = b
      · simp only [G, if_pos hxb]
        exact fun hm => hfresh (.inl hm)
      · simp only [G, if_neg hxb]
        exact Set.notMem_empty k
    · by_cases hxb : x = b
      · simp only [G, if_neg fun he : x' = b => hx (hxb.trans he.symm)]
        exact Set.disjoint_empty _
      · simp only [G, if_neg hxb]
        exact Set.empty_disjoint _
    · refine if_neg fun hxb => hx ?_
      rw [hxb, under_pair]
      exact Set.insert_nonempty _ _
  have hfoot : (⋃ x, G x) = F := by
    ext i
    simp [G]
  refine ⟨insert k (⋃ x, G x), .of_created hview hcreated (fan_single top) hmany hG fun x hx => ?_, ?_, ?_⟩
  · rw [List.mem_singleton] at hx
    subst hx
    simpa only [G, if_true] using hchild
  · rw [hfoot, Set.disjoint_insert_left]
    exact ⟨fun hm => hfresh (.inr hm), hdisj⟩
  · rw [hfoot, Set.insert_union]
    exact hbooks'

/-- **The nodes for the bytes that two strings share.** -/
theorem allocateAncestors_does (hlen : h.length = d.length) (hne : h ≠ d) : ∀ (i M top : Nat) (t : MerkleTrie),
    h.take i = d.take i → i ≤ d.length → M + i = L → Leaves hash store D M (path ++ d.take i) {h.drop i, d.drop i} top t →
      Does store D t (allocateAncestors d path (List.range i).reverse top) (Leaves hash store D L path {h, d})
  | 0, M, top, t, _, _, hM, htop => by
    rw [List.take_zero, List.append_nil, List.drop_zero, List.drop_zero] at htop
    rw [Nat.add_zero] at hM
    subst hM
    exact .pure htop
  | i + 1, M, top, t, htake, hi, hM, htop => by
    have htake' : h.take i = d.take i := by
      have := congrArg (List.take i) htake
      rwa [List.take_take, List.take_take, Nat.min_eq_left (Nat.le_succ i)] at this
    obtain ⟨b, hb⟩ : ∃ b, d[i]? = some b := ⟨d[i], List.getElem?_eq_getElem hi⟩
    have hb' : h[i]? = some b := by
      have := congrArg (fun l : Bytes => l[i]?) htake
      simp only [List.getElem?_take, Nat.lt_succ_self, if_true] at this
      rw [this, hb]
    rw [List.take_add_one, hb, Option.toList_some, ← List.append_assoc] at htop
    have hdrop : h.drop (i + 1) ≠ d.drop (i + 1) := by
      intro he
      apply hne
      rw [← List.take_append_drop (i + 1) h, ← List.take_append_drop (i + 1) d, htake, he]
    rw [List.range_succ, List.reverse_append, List.reverse_singleton, List.singleton_append, allocateAncestors, hb]
    refine (allocateSingle_does hdrop htop).bind subset_rfl fun top' t' _ htop' => ?_
    rw [← drop_of_getElem? hb, ← drop_of_getElem? hb'] at htop'
    exact allocateAncestors_does hlen hne i (M + 1) top' t' htake' (Nat.le_of_lt hi) (by omega) htop'

theorem node?_of_kept {c c' : MerkleTrieCache} (h : Keeps store D c c') (hid : id ∈ D) (hn : c.node? id = some n) :
    c'.node? id = some n := by
  rw [node?_of_page store (h.resident id hid (resident_of_node? hn)), h.view id hid, view_of_node? hn]

theorem under_pair_left (hbb : b ≠ b') : under b {b :: h, b' :: d} = {h} := by
  ext e
  simp [hbb]

theorem under_pair_right (hbb : b ≠ b') : under b' {b :: h, b' :: d} = {d} := by
  ext e
  simp [hbb.symm]

/-- A branch over nodes that stand for one string each. -/
theorem allocatePair_does (hbb : b ≠ b') {M cur new : Nat} {F F' : Set Nat}
    (hcur : Stands hash store t.cache M (path ++ [b]) cur {h} F)
    (hnew : Stands hash store t.cache M (path ++ [b']) new {d} F') (hF : Disjoint F D) (hF' : Disjoint F' (F ∪ D))
    (hbooks : Books store t.cache (F' ∪ (F ∪ D))) :
    Does store D t (allocateNode ⟨p, branchChildren b cur b' new, {b, b'}⟩)
      (Leaves hash store D (M + 1) path {b :: h, b' :: d}) := by
  have hDsub : D ⊆ F' ∪ (F ∪ D) := fun i hi => .inr (.inr hi)
  refine (allocateNode_does hbooks).mono hDsub fun k t' hkeeps hk => ?_
  obtain ⟨hview, hfresh, hcreated, hbooks'⟩ := hk
  have hmany : ({b :: h, b' :: d} : Set Bytes).Nontrivial := Set.nontrivial_pair fun he => hbb (List.cons.inj he).1
  let G : UInt8 → Set Nat := fun x => if x = b then F else if x = b' then F' else ∅
  have hGb : G b = F := if_pos rfl
  have hGb' : G b' = F' := (if_neg hbb.symm).trans (if_pos rfl)
  have hGx : ∀ x, x ≠ b → x ≠ b' → G x = ∅ := fun x hx hx' => (if_neg hx).trans (if_neg hx')
  have hFF' : Disjoint F F' := (hF'.mono_right Set.subset_union_left).symm
  have hG : Apart {b :: h, b' :: d} k G := by
    refine ⟨fun x hx => ?_, fun x x' hx => ?_, fun x hx => hGx x ?_ ?_⟩
    · by_cases hxb : x = b
      · subst hxb
        exact hfresh (.inr (.inl (hGb ▸ hx)))
      · by_cases hxb' : x = b'
        · subst hxb'
          exact hfresh (.inl (hGb' ▸ hx))
        · rw [hGx x hxb hxb'] at hx
          cases hx
    · by_cases hxb : x = b
      · by_cases hxb' : x' = b'
        · rw [hxb, hxb', hGb, hGb']
          exact hFF'
        · rw [hGx x' (fun he => hx (hxb.trans he.symm)) hxb']
          exact Set.disjoint_empty _
      · by_cases hxb' : x = b'
        · by_cases hx'b : x' = b
          · rw [hxb', hx'b, hGb, hGb']
            exact hFF'.symm
          · rw [hGx x' hx'b (fun he => hx (hxb'.trans he.symm))]
            exact Set.disjoint_empty _
        · rw [hGx x hxb hxb']
          exact Set.empty_disjoint _
    · rintro rfl
      rw [under_pair_left hbb] at hx
      exact hx (Set.singleton_nonempty _)
    · rintro rfl
      rw [under_pair_right hbb] at hx
      exact hx (Set.singleton_nonempty _)
  have hfoot : (⋃ x, G x) ⊆ F' ∪ F := by
    intro i hi
    obtain ⟨x, hx⟩ := Set.mem_iUnion.1 hi
    by_cases hxb : x = b
    · exact .inr (hGb ▸ hxb ▸ hx)
    · by_cases hxb' : x = b'
      · exact .inl (hGb' ▸ hxb' ▸ hx)
      · rw [hGx x hxb hxb'] at hx
        cases hx
  refine ⟨insert k (⋃ x, G x), .of_created hview hcreated (fan_pair hbb cur new) hmany hG fun x hx => ?_, ?_, ?_⟩
  · have hx' : x = ⟨b, cur⟩ ∨ x = ⟨b', new⟩ := by
      unfold branchChildren at hx
      simp only at hx
      split at hx
      · simpa using hx
      · simpa [or_comm] using hx
    rcases hx' with rfl | rfl
    · simp only
      rw [under_pair_left hbb, hGb]
      exact hcur.kept (hkeeps.mono fun i hi => .inr (.inl hi))
    · simp only
      rw [under_pair_right hbb, hGb']
      exact hnew.kept (hkeeps.mono Set.subset_union_left)
  · rw [Set.disjoint_insert_left]
    refine ⟨fun hm => hfresh (hDsub hm), Disjoint.mono_left hfoot ?_⟩
    exact Set.disjoint_union_left.2 ⟨hF'.mono_right Set.subset_union_right, hF⟩
  · refine hbooks'.mono ?_
    rw [Set.insert_union]
    exact Set.insert_subset_insert fun i hi => hi.elim (fun h => (hfoot h).elim .inl fun h => .inr (.inl h)) fun h => hDsub h

/-- **A leaf becomes a branch to it and to the new element.** -/
theorem splitLeaf_does (hb : Books store t.cache (insert id D)) (hid : id ∉ D)
    (hn : t.cache.node? id = some (.leaf h)) (hh : h.length = L) (hd : d.length = L) (hne : h ≠ d) :
    Does store D t (splitLeaf id h d path) (Leaves hash store D L path {h, d}) := by
  obtain ⟨i, b, b', hi, htake, hbi, hbi', hbb⟩ := diverge_eq (hh.trans hd.symm) hne
  have hiL : i < L := hd ▸ (List.getElem?_eq_some_iff.1 hbi').1
  have hdrop : ∀ l : Bytes, l.length = L → (l.drop (i + 1)).length = L - (i + 1) := fun l hl => by
    rw [List.length_drop, hl]
  unfold splitLeaf
  simp only [hi, hbi, hbi']
  have hsub : D ⊆ insert id D := Set.subset_insert id D
  have hM : L - (i + 1) + 1 + i = L := by omega
  -- the old leaf is kept until the nodes that replace it stand
  refine (allocateLeaf_does hash (path ++ d.take i ++ [b]) hb (hdrop h hh)).bind hsub
    fun cur t₁ hk₁ hcur => ?_
  obtain ⟨F, hF, hdisj, hb₁⟩ := hcur
  refine (allocateLeaf_does hash (path ++ d.take i ++ [b']) hb₁ (hdrop d hd)).bind
    (hsub.trans Set.subset_union_right) fun new t₂ hk₂ hnew => ?_
  obtain ⟨F', hF', hdisj', hb₂⟩ := hnew
  refine (allocatePair_does hbb (hF.kept (hk₂.mono Set.subset_union_left)) hF' hdisj hdisj' hb₂).bind hsub
    fun branch t₃ hk₃ hbranch => ?_
  rw [← drop_of_getElem? hbi, ← drop_of_getElem? hbi'] at hbranch
  refine (allocateAncestors_does (hh.trans hd.symm) hne i _ branch t₃ htake (hd ▸ Nat.le_of_lt hiL) hM hbranch).bind hsub
    fun top t₄ hk₄ htop => ?_
  obtain ⟨F'', hF'', hdisj'', hb₄⟩ := htop
  have hnode : t₄.cache.node? id = some (.leaf h) :=
    node?_of_kept (hk₁.trans ((hk₂.mono Set.subset_union_right).trans (hk₃.trans hk₄))) (Set.mem_insert id D) hn
  rw [Set.disjoint_insert_right] at hdisj''
  have hid' : id ∉ F'' ∪ D := fun hm => hm.elim hdisj''.1 hid
  refine (deleteNode_does (hb₄.mono (Set.union_subset_union_right F'' hsub)) hnode hid').bind Set.subset_union_right
    fun _ t₅ hk₅ hdel => ?_
  exact .pure ⟨F'', hF''.kept (hk₅.mono Set.subset_union_left), hdisj''.2, hdel.1⟩

/-! ## A node whose children changed -/

/-- The children of a node stand for what follows their bytes in a set, be there more than one element in it or not. -/
structure Kids (hash : Bytes → Bytes) (store : PageStore) (c : MerkleTrieCache) (L : Nat) (path : Bytes) (S : Set Bytes)
    (n : TrieNode) (G : UInt8 → Set Nat) : Prop extends Fan S n where
  child : ∀ x ∈ n.children, Stands hash store c L (path ++ [x.hashIndex]) x.childId (under x.hashIndex S) (G x.hashIndex)
  disjoint : ∀ b b', b ≠ b' → Disjoint (G b) (G b')
  rest : ∀ b, ¬ (under b S).Nonempty → G b = ∅

theorem iUnion_update (G : UInt8 → Set Nat) (b : UInt8) (F : Set Nat) :
    (⋃ x, Function.update G b F x) = F ∪ others G b := by
  ext i
  rw [Set.mem_iUnion, Set.mem_union]
  constructor
  · rintro ⟨x, hx⟩
    by_cases hxb : x = b
    · subst hxb
      rw [Function.update_self] at hx
      exact .inl hx
    · rw [Function.update_of_ne hxb] at hx
      exact .inr ⟨x, hxb, hx⟩
  · rintro (hi | ⟨x, hxb, hx⟩)
    · exact ⟨b, by rwa [Function.update_self]⟩
    · exact ⟨x, by rwa [Function.update_of_ne hxb]⟩

theorem others_subset (G : UInt8 → Set Nat) (b : UInt8) : others G b ⊆ ⋃ x, G x := by
  rintro i ⟨x, -, hx⟩
  exact Set.mem_iUnion.2 ⟨x, hx⟩

section Kids

variable {c c' : MerkleTrieCache} {G : UInt8 → Set Nat} {x : ChildEntry} {F : Set Nat} {child : Nat} {b : UInt8}

theorem Kids.kept (h : Kids hash store c L path S n G) (hk : Keeps store (⋃ b, G b) c c') :
    Kids hash store c' L path S n G :=
  ⟨h.toFan, fun x hx => (h.child x hx).kept (hk.mono (Set.subset_iUnion G _)), h.disjoint, h.rest⟩

theorem disjoint_update (h : ∀ b b', b ≠ b' → Disjoint (G b) (G b')) (hF : Disjoint F (others G b)) (y y' : UInt8)
    (hy : y ≠ y') : Disjoint (Function.update G b F y) (Function.update G b F y') := by
  have hFy : ∀ z, z ≠ b → Disjoint F (G z) := by
    intro z hz
    refine hF.mono_right fun i hi => ?_
    exact ⟨z, hz, hi⟩
  by_cases hyb : y = b
  · subst hyb
    rw [Function.update_self, Function.update_of_ne hy.symm]
    exact hFy y' hy.symm
  · rw [Function.update_of_ne hyb]
    by_cases hyb' : y' = b
    · subst hyb'
      rw [Function.update_self]
      exact (hFy y hyb).symm
    · rw [Function.update_of_ne hyb']
      exact h y y' hy

/-- The children of a node on other bytes than one stand for what they stood for. -/
def Siblings (hash : Bytes → Bytes) (store : PageStore) (c : MerkleTrieCache) (L : Nat) (path : Bytes) (S : Set Bytes)
    (n : TrieNode) (G : UInt8 → Set Nat) (b : UInt8) : Prop :=
  ∀ y ∈ n.children, y.hashIndex ≠ b →
    Stands hash store c L (path ++ [y.hashIndex]) y.childId (under y.hashIndex S) (G y.hashIndex)

theorem Siblings.kept (h : Siblings hash store c L path S n G b) (hk : Keeps store (others G b) c c') :
    Siblings hash store c' L path S n G b := by
  intro y hy hyb
  refine (h y hy hyb).kept (hk.mono fun i hi => ?_)
  exact ⟨_, hyb, hi⟩

/-- A child stands for another set under another number. -/
theorem Kids.redirect (hfan : Fan S n) (hG : Apart S id G) (hx : x ∈ n.children)
    (hsib : Siblings hash store c L path S n G x.hashIndex) {S' : Set Bytes} (hcons : [] ∉ S')
    (hother : ∀ b, b ≠ x.hashIndex → under b S' = under b S)
    (hchild : Stands hash store c L (path ++ [x.hashIndex]) child (under x.hashIndex S') F)
    (hF : Disjoint F (others G x.hashIndex)) :
    Kids hash store c L path S' (redirectChild (n.indexOf x.hashIndex) child path n)
      (Function.update G x.hashIndex F) := by
  have hne : ∀ b, (under b S').Nonempty ↔ (under b S).Nonempty := by
    intro b
    by_cases hb : b = x.hashIndex
    · subst hb
      exact ⟨fun _ => (hfan.index _).1 ⟨x, hx, rfl⟩, fun _ => hchild.nonempty⟩
    · rw [hother b hb]
  refine ⟨hfan.redirect hx child path hcons hne, fun y hy => ?_, disjoint_update hG.disjoint hF, fun b hb => ?_⟩
  · rcases (mem_redirectChild hfan hx child path).1 hy with rfl | ⟨hy, hyx⟩
    · rw [Function.update_self]
      exact hchild
    · rw [Function.update_of_ne hyx, hother _ hyx]
      exact hsib y hy hyx
  · have hbx : b ≠ x.hashIndex := by
      rintro rfl
      exact hb hchild.nonempty
    rw [Function.update_of_ne hbx]
    exact hG.rest b fun hS => hb ((hne b).2 hS)

/-- A new child stands for one string. -/
theorem Kids.insertChild (hfan : Fan S n) (hG : Apart S id G) (hb : ¬ (under b S).Nonempty)
    (hsib : Siblings hash store c L path S n G b) {d : Bytes} (hchild : Stands hash store c L (path ++ [b]) child {d} F)
    (hF : Disjoint F (others G b)) :
    Kids hash store c L path (insert (b :: d) S) (insertChild b child path n) (Function.update G b F) := by
  have hempty : under b S = ∅ := Set.not_nonempty_iff_eq_empty.1 hb
  refine ⟨hfan.insertChild hb child path d, fun y hy => ?_, disjoint_update hG.disjoint hF, fun b' hb' => ?_⟩
  · rcases (mem_insertChild b child path).1 hy with rfl | hyn
    · rw [Function.update_self, under_insert_self, hempty, insert_empty_eq]
      exact hchild
    · have hyb : y.hashIndex ≠ b := fun he => hb ((hfan.index b).1 ⟨y, hyn, he⟩)
      rw [Function.update_of_ne hyb, under_insert_of_ne hyb]
      exact hsib y hyn hyb
  · by_cases hbb : b' = b
    · subst hbb
      rw [under_insert_self] at hb'
      exact absurd (Set.insert_nonempty _ _) hb'
    · rw [under_insert_of_ne hbb] at hb'
      rw [Function.update_of_ne hbb]
      exact hG.rest b' hb'

/-- A child that stood for one string is gone. -/
theorem Kids.removeChild (hfan : Fan S n) (hG : Apart S id G) (hx : x ∈ n.children)
    (hsib : Siblings hash store c L path S n G x.hashIndex) {d : Bytes} (hd : under x.hashIndex S = {d}) :
    Kids hash store c L path (S \ {x.hashIndex :: d}) (removeChild (n.indexOf x.hashIndex) x.hashIndex path n)
      (Function.update G x.hashIndex ∅) := by
  refine ⟨hfan.removeChild hx path hd, fun y hy => ?_, disjoint_update hG.disjoint (Set.empty_disjoint _), fun b hb => ?_⟩
  · obtain ⟨hy, hyx⟩ := (mem_removeChild hfan hx path).1 hy
    rw [Function.update_of_ne hyx, under_diff_of_ne hyx]
    exact hsib y hy hyx
  · by_cases hbx : b = x.hashIndex
    · subst hbx
      exact Function.update_self _ _ _
    · rw [under_diff_of_ne hbx] at hb
      rw [Function.update_of_ne hbx]
      exact hG.rest b hb

/-- **The node of a set with more than one element gets a fresh number.** -/
theorem Kids.refurbish_does (h : Kids hash store t.cache L path S n G) (hmany : S.Nontrivial)
    (hn : t.cache.node? id = some n) (hid : id ∉ (⋃ b, G b) ∪ D) (hdisj : Disjoint (⋃ b, G b) D)
    (hb : Books store t.cache ((⋃ b, G b) ∪ D)) :
    Does store D t (refurbishNode id) (Leaves hash store D (L + 1) path S) := by
  refine (refurbishNode_does hb hn hid).mono Set.subset_union_right fun k t' hkeeps hk => ?_
  obtain ⟨hview, hfresh, hcreated, hbooks⟩ := hk
  have hkids := h.kept (hkeeps.mono Set.subset_union_left)
  have hG : Apart S k G :=
    ⟨fun b hm => hfresh (.inl (Set.mem_iUnion.2 ⟨b, hm⟩)), h.disjoint, h.rest⟩
  refine ⟨insert k (⋃ b, G b), .of_created hview hcreated h.toFan hmany hG hkids.child, ?_, ?_⟩
  · exact Set.disjoint_insert_left.2 ⟨fun hm => hfresh (.inr hm), hdisj⟩
  · rw [Set.insert_union]
    exact hbooks

end Kids

variable {G : UInt8 → Set Nat}

/-- Write a node over children that stand, and go on. -/
theorem Kids.write_does (f : TrieNode → TrieNode) (hn : view store t.cache id = some n)
    (h : Kids hash store t.cache L path S (f n) G) (hid : id ∉ (⋃ b, G b) ∪ D)
    (hb : Books store t.cache ((⋃ b, G b) ∪ D)) {x : TrieM Nat} {post : Nat → MerkleTrie → Prop}
    (hx : ∀ t', Kids hash store t'.cache L path S (f n) G → t'.cache.node? id = some (f n) →
      Books store t'.cache ((⋃ b, G b) ∪ D) → Does store D t' x post) :
    Does store D t (updateNode store id f >>= fun _ => x) post := by
  obtain ⟨c', hupdate, hwritten⟩ := updateNode_written f hn
  obtain ⟨hbooks, hkeeps⟩ := hwritten.books hb hid
  have hwrite : Does store ((⋃ b, G b) ∪ D) t (updateNode store id f) (fun _ t' => t' = t.setCache c') :=
    ⟨n, _, hupdate, hkeeps, rfl, rfl, rfl⟩
  refine hwrite.bind Set.subset_union_right fun _ t' _ ht' => ?_
  subst ht'
  exact hx _ (h.kept (hkeeps.mono Set.subset_union_left)) (node?_of_written hwritten) hbooks

/-- The numbers below one child, seen from the others. -/
structure Focus (id : Nat) (G : UInt8 → Set Nat) (b : UInt8) (D : Set Nat) : Prop where
  apart : Disjoint (G b) (insert id (others G b ∪ D))
  self : id ∉ others G b ∪ D
  outer : Disjoint (others G b) D

theorem Apart.focus (h : Apart S id G) (hD : Disjoint (insert id (⋃ b, G b)) D) (b : UInt8) :
    Focus id G b D := by
  rw [Set.disjoint_insert_left] at hD
  have hothers : Disjoint (others G b) D := hD.2.mono_left (others_subset G b)
  refine ⟨?_, ?_, hothers⟩
  · rw [Set.disjoint_insert_right]
    refine ⟨h.self b, Set.disjoint_union_right.2 ⟨?_, hD.2.mono_left (Set.subset_iUnion G b)⟩⟩
    rw [Set.disjoint_left]
    rintro i hi ⟨b', hb', hi'⟩
    exact Set.disjoint_left.1 (h.disjoint b' b hb') hi' hi
  · rintro (⟨b', -, hi⟩ | hi)
    · exact h.self b' hi
    · exact hD.1 hi

theorem focus_subset (G : UInt8 → Set Nat) (b : UInt8) (D : Set Nat) :
    G b ∪ insert id (others G b ∪ D) ⊆ insert id (⋃ b, G b) ∪ D := by
  rintro i (hi | rfl | hi | hi)
  · exact .inl (.inr (Set.mem_iUnion.2 ⟨b, hi⟩))
  · exact .inl (.inl rfl)
  · exact .inl (.inr (others_subset G b hi))
  · exact .inr hi

/-- New numbers below a child, put back beside the others. -/
theorem Focus.joined {b : UInt8} {c : MerkleTrieCache} {F : Set Nat} (h : Focus id G b D)
    (hF : Disjoint F (insert id (others G b ∪ D))) (hb : Books store c (F ∪ insert id (others G b ∪ D))) :
    id ∉ (⋃ x, Function.update G b F x) ∪ D ∧ Disjoint (⋃ x, Function.update G b F x) D ∧
      Books store c ((⋃ x, Function.update G b F x) ∪ D) := by
  rw [iUnion_update]
  rw [Set.disjoint_insert_right, Set.disjoint_union_right] at hF
  refine ⟨?_, Set.disjoint_union_left.2 ⟨hF.2.2, h.outer⟩, hb.mono ?_⟩
  · rintro ((hi | hi) | hi)
    · exact hF.1 hi
    · exact h.self (.inl hi)
    · exact h.self (.inr hi)
  · rintro i ((hi | hi) | hi)
    · exact .inl hi
    · exact .inr (.inr (.inl hi))
    · exact .inr (.inr (.inr hi))

/-- **Adding an element that is not there.** -/
theorem nodeAdd_does : ∀ (d : Bytes) {L : Nat} {path : Bytes} {id : Nat} {S : Set Bytes} {F D : Set Nat} {t : MerkleTrie},
    Stands hash store t.cache L path id S F → d.length = L → d ∉ S → Disjoint F D → Books store t.cache (F ∪ D) →
      Does store D t (nodeAdd store d id path) (Leaves hash store D L path (insert d S)) := by
  intro d
  induction d with
  | nil =>
    intro L path id S F D t h hd hout hdisj hb
    -- the empty string is there if its length is the right one
    obtain ⟨e, he⟩ := h.nonempty
    have hnil : e = [] := List.length_eq_zero_iff.1 ((h.length e he).trans hd.symm)
    exact absurd (hnil ▸ he) hout
  | cons b rest ih =>
    intro L path id S F D t h hd hout hdisj hb
    have hfound : ∃ n, view store t.cache id = some n := h.seen id h.id_mem
    obtain ⟨n, hv⟩ := hfound
    rw [nodeAdd]
    refine (getNode_does (D := F ∪ D) hv).bind Set.subset_union_right fun m t₁ hk₁ hget => ?_
    obtain ⟨rfl, c₁, rfl, hquiet, hnode⟩ := hget
    have h₁ := h.kept (hk₁.mono Set.subset_union_left)
    have hb₁ := hquiet.books hb
    cases h₁ with
    | @leaf _ _ e _ hleaf hlen =>
      have hm : m = .leaf e := Option.some.inj ((view_of_node? hnode).symm.trans hleaf)
      subst hm
      rw [leaf_isLeaf, if_pos rfl, Set.pair_comm]
      rw [Set.singleton_union] at hb₁
      exact splitLeaf_does hb₁ (Set.disjoint_singleton_left.1 hdisj) hnode hlen hd fun he => hout he.symm
    | @branch M _ _ _ m' G hv' hn hG hc =>
      have hm : m = m' := Option.some.inj ((view_of_node? hnode).symm.trans hv')
      subst hm
      have hfocus := hG.focus hdisj b
      have hsib : Siblings hash store c₁ M path S m G b := fun y hy _ => hc y hy
      have hmany : (insert (b :: rest) S).Nontrivial := hn.many.mono (Set.subset_insert _ _)
      have hcons : [] ∉ insert (b :: rest) S := by
        rintro (he | he)
        · cases he
        · exact hn.cons he
      rw [hn.isLeaf hn.many.nonempty, if_neg Bool.false_ne_true]
      by_cases hbS : (under b S).Nonempty
      · obtain ⟨x, hx, rfl⟩ := (hn.index b).2 hbS
        rw [if_pos ((hn.mask _).2 hbS)]
        refine (childAt_does (D := D) (hn.childAt hx)).bind subset_rfl fun child t₁ _ hchild => ?_
        obtain ⟨rfl, rfl⟩ := hchild
        refine (ih (hc x hx) (Nat.succ.inj hd) hout hfocus.apart (hb₁.mono (focus_subset G _ D))).bind
          (fun i hi => .inr (.inr hi)) fun child t₂ hk₂ hchild => ?_
        obtain ⟨F₁, hF₁, hdisj₁, hb₂⟩ := hchild
        rw [← under_insert_self] at hF₁
        have hkids := Kids.redirect hn.toFan hG hx (hsib.kept (hk₂.mono fun i hi => .inr (.inl hi))) hcons
          (fun y hy => under_insert_of_ne hy) hF₁ (hdisj₁.mono_right fun i hi => .inr (.inl hi))
        obtain ⟨hid, hapart, hbooks⟩ := hfocus.joined hdisj₁ hb₂
        refine hkids.write_does _ ((hk₂.view id (.inl rfl)).trans hv') hid hbooks fun _ hkids' hn hbooks' => ?_
        exact hkids'.refurbish_does hmany hn hid hapart hbooks'
      · rw [if_neg fun hm => hbS ((hn.mask b).1 hm)]
        refine (allocateLeaf_does hash (path ++ [b]) (hb₁.mono (Set.subset_union_right.trans
          (focus_subset G b D))) (Nat.succ.inj hd)).bind (fun i hi => .inr (.inr hi)) fun leaf t₂ hk₂ hleaf => ?_
        obtain ⟨F₁, hF₁, hdisj₁, hb₂⟩ := hleaf
        have hkids := Kids.insertChild hn.toFan hG hbS (hsib.kept (hk₂.mono fun i hi => .inr (.inl hi))) hF₁
          (hdisj₁.mono_right fun i hi => .inr (.inl hi))
        obtain ⟨hid, hapart, hbooks⟩ := hfocus.joined hdisj₁ hb₂
        refine hkids.write_does _ ((hk₂.view id (.inl rfl)).trans hv') hid hbooks fun _ hkids' hn hbooks' => ?_
        exact hkids'.refurbish_does hmany hn hid hapart hbooks'

/-! ## Deleting -/

theorem Quiet.node? {c c' : MerkleTrieCache} (h : Quiet store c c') (hn : c.node? id = some n) : c'.node? id = some n := by
  rw [node?_of_page store (h.resident _ (resident_of_node? hn)), h.view, view_of_node? hn]

/-- A node with one child stands for strings that begin with its byte. -/
theorem Fan.eq_cons_of_single (h : Fan S n) {only : ChildEntry} (honly : n.children = [only]) {e : Bytes} (he : e ∈ S) :
    ∃ d, e = only.hashIndex :: d ∧ d ∈ under only.hashIndex S := by
  cases e with
  | nil => exact absurd he h.cons
  | cons b d =>
    obtain ⟨x, hx, rfl⟩ := (h.index b).2 ⟨d, he⟩
    rw [honly, List.mem_singleton] at hx
    subst hx
    exact ⟨d, rfl, he⟩

/-- Strings that begin with different bytes are different. -/
theorem Fan.nontrivial_of_two (h : Fan S n) {x y : ChildEntry} (hx : x ∈ n.children) (hy : y ∈ n.children)
    (hxy : x.hashIndex ≠ y.hashIndex) : S.Nontrivial := by
  obtain ⟨d, hd⟩ := (h.index _).1 ⟨x, hx, rfl⟩
  obtain ⟨d', hd'⟩ := (h.index _).1 ⟨y, hy, rfl⟩
  exact ⟨_, hd, _, hd', fun he => hxy (List.cons.inj he).1⟩

/-- Elements with the same first byte that differ. -/
theorem nontrivial_of_under {b : UInt8} (h : (under b S).Nontrivial) : S.Nontrivial := by
  obtain ⟨d, hd, d', hd', hne⟩ := h
  exact ⟨_, hd, _, hd', fun he => hne (List.cons.inj he).2⟩

/-- The only child of a node is a leaf: both go, and a leaf takes their place. -/
theorem Kids.collapse_does (h : Kids hash store t.cache L path S n G) {only : ChildEntry}
    (honly : n.children = [only]) {e : Bytes} (hunder : under only.hashIndex S = {e})
    (hchild : t.cache.node? only.childId = some (.leaf e)) (hn : t.cache.node? id = some n)
    (hid : id ∉ (⋃ b, G b) ∪ D) (hdisj : Disjoint (⋃ b, G b) D) (hb : Books store t.cache ((⋃ b, G b) ∪ D)) :
    Does store D t (do
      deleteNode only.childId
      deleteNode id
      allocateNode (.leaf (only.hashIndex :: e))) (Leaves hash store D (L + 1) path S) := by
  have hmem : only ∈ n.children := by rw [honly]; exact List.mem_singleton.2 rfl
  have hin : only.childId ∈ ⋃ b, G b := Set.mem_iUnion.2 ⟨_, (h.child only hmem).id_mem⟩
  have hout : only.childId ∉ D := Set.disjoint_left.1 hdisj hin
  have hids : id ≠ only.childId := fun he => hid (.inl (he ▸ hin))
  have hS : S = {only.hashIndex :: e} := by
    ext e'
    rw [Set.mem_singleton_iff]
    constructor
    · intro he'
      obtain ⟨d, rfl, hd⟩ := h.toFan.eq_cons_of_single honly he'
      rw [hunder, Set.mem_singleton_iff] at hd
      rw [hd]
    · rintro rfl
      have hmem' : e ∈ under only.hashIndex S := by rw [hunder]; rfl
      exact hmem'
  have hlen : (only.hashIndex :: e).length = L + 1 := by
    rw [List.length_cons, (h.child only hmem).length e (hunder ▸ rfl)]
  refine (deleteNode_does (hb.mono Set.subset_union_right) hchild hout).bind subset_rfl fun _ t₁ _ hdel => ?_
  obtain ⟨hb₁, -, htaken⟩ := hdel
  have hseen : view store t.cache id = some n := view_of_node? hn
  have hn₁ : t₁.cache.node? id = some n := by
    rw [node?_of_page store (htaken.keeps_resident hids hseen (resident_of_node? hn))]
    exact htaken.keeps_view hids hseen
  refine (deleteNode_does hb₁ hn₁ fun hm => hid (.inr hm)).bind subset_rfl fun _ t₂ _ hdel => ?_
  rw [hS]
  exact allocateLeaf_does hash path hdel.1 hlen

/-- **A node whose children changed collapses or gets a fresh number.** -/
theorem Kids.collapseOrRefurbish_does (h : Kids hash store t.cache L path S n G) (hne : S.Nonempty)
    (hn : t.cache.node? id = some n) (hid : id ∉ (⋃ b, G b) ∪ D) (hdisj : Disjoint (⋃ b, G b) D)
    (hb : Books store t.cache ((⋃ b, G b) ∪ D)) :
    Does store D t (collapseOrRefurbish store id) (Leaves hash store D (L + 1) path S) := by
  unfold collapseOrRefurbish
  refine (getNode_does (D := (⋃ b, G b) ∪ D) (view_of_node? hn)).bind Set.subset_union_right fun m t₁ hk₁ hget => ?_
  obtain ⟨rfl, c₁, rfl, hquiet, hn₁⟩ := hget
  have h₁ := h.kept (hk₁.mono Set.subset_union_left)
  have hb₁ := hquiet.books hb
  split
  · rename_i only honly
    have hmem : only ∈ m.children := by rw [honly]; exact List.mem_singleton.2 rfl
    obtain ⟨k, hk⟩ := (h₁.child only hmem).seen _ (h₁.child only hmem).id_mem
    refine (getNode_does (D := (⋃ b, G b) ∪ D) hk).bind Set.subset_union_right fun child t₂ hk₂ hget => ?_
    obtain ⟨rfl, c₂, rfl, hquiet₂, hchild⟩ := hget
    have h₂ := h₁.kept (hk₂.mono Set.subset_union_left)
    have hb₂ := hquiet₂.books hb₁
    have hn₂ := hquiet₂.node? hn₁
    have hleaf := (h₂.child only hmem).isLeaf_iff (view_of_node? hchild)
    split
    · rename_i hisLeaf
      obtain ⟨e, he, -, hunder, -⟩ := (h₂.child only hmem).single (hleaf.1 hisLeaf)
      have hseen : view store c₂ only.childId = some child := view_of_node? hchild
      have hsame : child = .leaf e := Option.some.inj (hseen.symm.trans he)
      subst hsame
      exact h₂.collapse_does honly hunder hchild hn₂ hid hdisj hb₂
    · rename_i hisLeaf
      have hmany : S.Nontrivial := by
        by_contra hS
        exact hisLeaf (hleaf.2 fun hu => hS (nontrivial_of_under hu))
      exact h₂.refurbish_does hmany hn₂ hid hdisj hb₂
  · rename_i hnot
    have hmany : S.Nontrivial := by
      obtain ⟨e, he⟩ := hne
      cases hcs : m.children with
      | nil =>
        have hleaf := h₁.toFan.isLeaf ⟨e, he⟩
        unfold TrieNode.isLeaf at hleaf
        rw [hcs] at hleaf
        cases hleaf
      | cons x xs =>
        cases xs with
        | nil => exact absurd hcs (hnot x)
        | cons y ys =>
          have hsorted := h₁.sorted
          rw [hcs] at hsorted
          have hlt : byteKey x < byteKey y := (Keyed.ascending_cons.1 hsorted).1 y List.mem_cons_self
          have hmem : ∀ z ∈ x :: y :: ys, z ∈ m.children := fun z hz => hcs ▸ hz
          refine h₁.toFan.nontrivial_of_two (hmem x List.mem_cons_self) (hmem y (by simp)) fun hxy => ?_
          exact Nat.ne_of_lt hlt (congrArg UInt8.toNat hxy)
    exact h₁.refurbish_does hmany hn₁ hid hdisj hb₁

/-- **Removing an element that is there from a set with more.** -/
theorem nodeRemove_does : ∀ (d : Bytes) {L : Nat} {path : Bytes} {id : Nat} {S : Set Bytes} {F D : Set Nat}
    {t : MerkleTrie}, Stands hash store t.cache L path id S F → d ∈ S → S.Nontrivial → Disjoint F D →
      Books store t.cache (F ∪ D) → Does store D t (nodeRemove store d id path) (Leaves hash store D L path (S \ {d})) := by
  intro d
  induction d with
  | nil =>
    intro L path id S F D t h hd hmany hdisj hb
    obtain ⟨_, _, _, -, -, -, hn, -, -⟩ := h.inner hmany
    exact absurd hd hn.cons
  | cons b rest ih =>
    intro L path id S F D t h hd hmany hdisj hb
    obtain ⟨M, n, G, rfl, rfl, hv, hn, hG, hc⟩ := h.inner hmany
    obtain ⟨x, hx, rfl⟩ := (hn.index b).2 ⟨rest, hd⟩
    have hfocus := hG.focus hdisj x.hashIndex
    have hrest : (S \ {x.hashIndex :: rest}).Nonempty := by
      obtain ⟨e, he, hne⟩ := hmany.exists_ne (x.hashIndex :: rest)
      exact ⟨e, he, hne⟩
    have hcons : [] ∉ S \ {x.hashIndex :: rest} := fun he => hn.cons he.1
    rw [nodeRemove]
    refine (getNode_does (D := insert id (⋃ b, G b) ∪ D) hv).bind Set.subset_union_right fun m t₁ hk₁ hget => ?_
    obtain ⟨rfl, c₁, rfl, hquiet₁, -⟩ := hget
    refine (childAt_does (D := insert id (⋃ b, G b) ∪ D) (hn.childAt hx)).bind Set.subset_union_right
      fun child t₁ _ hchild => ?_
    obtain ⟨rfl, rfl⟩ := hchild
    obtain ⟨k, hk⟩ := (hc x hx).seen _ (hc x hx).id_mem
    refine (getNode_does (D := insert id (⋃ b, G b) ∪ D) ((hquiet₁.view _).trans hk)).bind Set.subset_union_right
      fun child t₂ hk₂ hget => ?_
    obtain ⟨rfl, c₂, rfl, hquiet₂, hchild⟩ := hget
    have hk : Keeps store (insert id (⋃ b, G b) ∪ D) t.cache c₂ := hk₁.trans hk₂
    have hb₂ : Books store c₂ (insert id (⋃ b, G b) ∪ D) := hquiet₂.books (hquiet₁.books hb)
    have hkid := (hc x hx).kept (hk.mono ((Set.subset_union_left.trans (focus_subset G x.hashIndex D))))
    have hsib : Siblings hash store c₂ M path S m G x.hashIndex := fun y hy _ =>
      (hc y hy).kept (hk.mono (Set.subset_union_left.trans (focus_subset G y.hashIndex D)))
    have hv₂ : view store c₂ id = some m := (hk.view id (.inl (.inl rfl))).trans hv
    have hleaf := hkid.isLeaf_iff (view_of_node? hchild)
    split
    · rename_i hisLeaf
      obtain ⟨e, -, -, hunder, hGx⟩ := hkid.single (hleaf.1 hisLeaf)
      have he : e = rest := by
        have hmem : rest ∈ under x.hashIndex S := hd
        rw [hunder, Set.mem_singleton_iff] at hmem
        exact hmem.symm
      subst he
      have hout : x.childId ∉ insert id (others G x.hashIndex ∪ D) :=
        Set.disjoint_left.1 hfocus.apart hkid.id_mem
      refine (deleteNode_does (t := (t.setCache c₁).setCache c₂) (hb₂.mono (Set.subset_union_right.trans
        (focus_subset G x.hashIndex D))) hchild hout).bind (fun i hi => .inr (.inr hi)) fun _ t₃ hk₃ hdel => ?_
      have hkids := Kids.removeChild hn.toFan hG hx (hsib.kept (hk₃.mono fun i hi => .inr (.inl hi))) hunder
      obtain ⟨hid, hapart, hbooks⟩ := hfocus.joined (Set.empty_disjoint _) (by rw [Set.empty_union]; exact hdel.1)
      refine hkids.write_does _ ((hk₃.view id (.inl rfl)).trans hv₂) hid hbooks fun _ hkids' hn hbooks' => ?_
      exact hkids'.collapseOrRefurbish_does hrest hn hid hapart hbooks'
    · rename_i hisLeaf
      have hmany' : (under x.hashIndex S).Nontrivial := by
        by_contra hnot
        exact hisLeaf (hleaf.2 hnot)
      refine (ih (t := (t.setCache c₁).setCache c₂) hkid hd hmany' hfocus.apart (hb₂.mono (focus_subset G _ D))).bind
        (fun i hi => .inr (.inr hi)) fun child' t₃ hk₃ hchild' => ?_
      obtain ⟨F₁, hF₁, hdisj₁, hb₃⟩ := hchild'
      rw [← under_diff_self] at hF₁
      have hkids := Kids.redirect hn.toFan hG hx (hsib.kept (hk₃.mono fun i hi => .inr (.inl hi))) hcons
        (fun y hy => under_diff_of_ne hy) hF₁ (hdisj₁.mono_right fun i hi => .inr (.inl hi))
      obtain ⟨hid, hapart, hbooks⟩ := hfocus.joined hdisj₁ hb₃
      refine hkids.write_does _ ((hk₃.view id (.inl rfl)).trans hv₂) hid hbooks fun _ hkids' hn hbooks' => ?_
      exact hkids'.collapseOrRefurbish_does hrest hn hid hapart hbooks'

end Steps

end Trie
end Algod
