import AlgodRust.Lib.FinMap
/-!
# LruBucket — a list of recent use kept inside a map

`app_rate_limiter.rs`: a bucket is a hash map whose entries also carry the links of a doubly linked list, from the most
recently used key to the one that goes next.  A link that leads to a missing entry panics (`none`).  `Linked` says which
list of keys the links spell, and each operation is an operation on that list; no operation on a linked bucket panics.
-/
namespace Algod
namespace Pool

structure Entry (K : Type) where
  /-- Count of the previous window. -/
  prev : Int64
  /-- Count of the current window. -/
  cur : Int64
  interval : Int64
  lruPrev : Option K
  lruNext : Option K
deriving DecidableEq, Repr

def Entry.new {K : Type} (interval : Int64) : Entry K := ⟨0, 0, interval, none, none⟩

/-- What an entry counts, its links left out. -/
structure Counters where
  prev : Int64
  cur : Int64
  interval : Int64
deriving DecidableEq, Repr

def Entry.counters {K : Type} (e : Entry K) : Counters := ⟨e.prev, e.cur, e.interval⟩

structure Bucket (K : Type) [DecidableEq K] where
  entries : FinMap K (Entry K)
  head : Option K
  tail : Option K

namespace Bucket

variable {K : Type} [DecidableEq K]

def empty : Bucket K := ⟨∅, none, none⟩

def len (b : Bucket K) : Nat := b.entries.entries.length

/-- `entries.get_mut(&key).unwrap()` and an assignment through it. -/
def modify (b : Bucket K) (key : K) (f : Entry K → Entry K) : Option (Bucket K) :=
  (b.entries.lookup key).map fun e => { b with entries := b.entries.insert key (f e) }

/-- The link towards the tail of the neighbour on the head's side, or the head itself. -/
def setNext (b : Bucket K) (side value : Option K) : Option (Bucket K) :=
  match side with
  | some p => b.modify p fun e => { e with lruNext := value }
  | none => some { b with head := value }

/-- The link towards the head of the neighbour on the tail's side, or the tail itself. -/
def setPrev (b : Bucket K) (side value : Option K) : Option (Bucket K) :=
  match side with
  | some n => b.modify n fun e => { e with lruPrev := value }
  | none => some { b with tail := value }

def lruUnlink (b : Bucket K) (key : K) : Option (Bucket K) := do
  let e ← b.entries.lookup key
  let b ← b.setNext e.lruPrev e.lruNext
  b.setPrev e.lruNext e.lruPrev

def lruPushFront (b : Bucket K) (key : K) : Option (Bucket K) := do
  let oldHead := b.head
  let b ← b.modify key fun e => { e with lruPrev := none, lruNext := oldHead }
  let b ← b.setPrev oldHead (some key)
  some { b with head := some key }

def lruMoveToFront (b : Bucket K) (key : K) : Option (Bucket K) :=
  if b.head = some key then some b else (b.lruUnlink key).bind fun b => b.lruPushFront key

/-- The evicted key, if there was one to evict. -/
def evictBack (b : Bucket K) : Option (Option K × Bucket K) :=
  match b.tail with
  | none => some (none, b)
  | some tail => (b.lruUnlink tail).map fun b => (some tail, { b with entries := b.entries.erase tail })

/-- The least recently used entry goes when the bucket is full, whichever key is asked for. -/
def makeRoom (b : Bucket K) (maxBucketSize : Nat) : Option (Bool × Bucket K) :=
  if maxBucketSize ≤ b.len then b.evictBack.map fun p => (p.1.isSome, p.2) else some (false, b)

end Bucket

/-- The counters of an entry in the window that is asked for. -/
def Entry.roll {K : Type} (e : Entry K) (curInterval : Int64) : Entry K :=
  if e.interval = curInterval then e
  else if e.interval = curInterval - 1 then { e with prev := e.cur, cur := 0, interval := curInterval }
  else { e with prev := 0, cur := 0, interval := curInterval }

theorem Entry.roll_links {K : Type} (e : Entry K) (w : Int64) :
    (e.roll w).lruPrev = e.lruPrev ∧ (e.roll w).lruNext = e.lruNext := by
  unfold Entry.roll
  split
  · exact ⟨rfl, rfl⟩
  · split <;> exact ⟨rfl, rfl⟩

theorem Entry.roll_congr {K : Type} {e e' : Entry K} (h : e.counters = e'.counters) (w : Int64) :
    (e.roll w).counters = (e'.roll w).counters := by
  obtain ⟨p, c, i, lp, ln⟩ := e
  obtain ⟨p', c', i', lp', ln'⟩ := e'
  simp only [Entry.counters, Counters.mk.injEq] at h
  obtain ⟨rfl, rfl, rfl⟩ := h
  unfold Entry.roll
  dsimp only
  split
  · rfl
  · split <;> rfl

namespace Bucket

variable {K : Type} [DecidableEq K]

/-- The entry of a key, made the most recently used one, and whether it was there. -/
def touch (b : Bucket K) (key : K) (curInterval : Int64) : Option (Bool × Bucket K) :=
  if (b.entries.lookup key).isSome then do
    let b ← b.lruMoveToFront key
    let b ← b.modify key fun e => e.roll curInterval
    some (true, b)
  else
    ({ b with entries := b.entries.insert key (Entry.new curInterval) }.lruPushFront key).map fun b => (false, b)

/-- What `with_entry` does under the lock of a bucket; the last component says whether an entry was evicted. -/
def withEntry {R : Type} (b : Bucket K) (maxBucketSize : Nat) (key : K) (curInterval : Int64)
    (f : Entry K → Bool → R × Entry K) : Option (R × Bucket K × Bool) := do
  let (evicted, b) ← b.makeRoom maxBucketSize
  let (existed, b) ← b.touch key curInterval
  let e ← b.entries.lookup key
  let (r, e) := f e existed
  some (r, { b with entries := b.entries.insert key e }, evicted)

/-! ## The list of a bucket -/

/-- The links spell the keys `ks`, the most recent first. -/
structure Linked (b : Bucket K) (ks : List K) : Prop where
  nodup : ks.Nodup
  head : b.head = ks.head?
  tail : b.tail = ks.getLast?
  node : ∀ l k r, ks = l ++ k :: r →
    ∃ e, b.entries.lookup k = some e ∧ e.lruPrev = l.getLast? ∧ e.lruNext = r.head?

def counters (b : Bucket K) (k : K) : Option Counters := (b.entries.lookup k).map Entry.counters

variable {b b' : Bucket K} {k : K} {ks l r : List K}

theorem empty_linked : (empty : Bucket K).Linked [] where
  nodup := List.nodup_nil
  head := rfl
  tail := rfl
  node := by
    intro l k r h
    exact absurd h (by simp)

theorem modify_spec {f : Entry K → Entry K} {e : Entry K} (h : b.entries.lookup k = some e) :
    ∃ b', b.modify k f = some b' ∧ b'.head = b.head ∧ b'.tail = b.tail ∧
      ∀ x, b'.entries.lookup x = (b.entries.lookup x).map fun e => if x = k then f e else e := by
  refine ⟨{ b with entries := b.entries.insert k (f e) }, by unfold modify; rw [h]; rfl, rfl, rfl, fun x => ?_⟩
  rw [FinMap.lookup_insert_eq]
  by_cases hx : x = k
  · rw [if_pos hx, hx, h, Option.map_some, if_pos rfl]
  · simp only [if_neg hx, Option.map_id']

theorem setNext_spec (side value : Option K) (h : ∀ p, side = some p → (b.entries.lookup p).isSome = true) :
    ∃ b', b.setNext side value = some b' ∧ b'.head = (if side = none then value else b.head) ∧ b'.tail = b.tail ∧
      ∀ x, b'.entries.lookup x =
        (b.entries.lookup x).map fun e => { e with lruNext := if side = some x then value else e.lruNext } := by
  cases side with
  | none => exact ⟨_, rfl, rfl, rfl, fun x => by simp⟩
  | some p =>
    obtain ⟨e, he⟩ := Option.isSome_iff_exists.1 (h p rfl)
    obtain ⟨b', hb', hhead, htail, hlook⟩ := modify_spec (f := fun e => { e with lruNext := value }) he
    refine ⟨b', hb', by rw [hhead]; rfl, htail, fun x => ?_⟩
    rw [hlook]
    congr 1
    funext e
    by_cases hx : x = p
    · simp [hx]
    · simp [hx, Ne.symm hx]

theorem setPrev_spec (side value : Option K) (h : ∀ n, side = some n → (b.entries.lookup n).isSome = true) :
    ∃ b', b.setPrev side value = some b' ∧ b'.head = b.head ∧ b'.tail = (if side = none then value else b.tail) ∧
      ∀ x, b'.entries.lookup x =
        (b.entries.lookup x).map fun e => { e with lruPrev := if side = some x then value else e.lruPrev } := by
  cases side with
  | none => exact ⟨_, rfl, rfl, rfl, fun x => by simp⟩
  | some p =>
    obtain ⟨e, he⟩ := Option.isSome_iff_exists.1 (h p rfl)
    obtain ⟨b', hb', hhead, htail, hlook⟩ := modify_spec (f := fun e => { e with lruPrev := value }) he
    refine ⟨b', hb', hhead, by rw [htail]; rfl, fun x => ?_⟩
    rw [hlook]
    congr 1
    funext e
    by_cases hx : x = p
    · simp [hx]
    · simp [hx, Ne.symm hx]

theorem Linked.isSome (h : b.Linked ks) (hk : k ∈ ks) : (b.entries.lookup k).isSome = true := by
  obtain ⟨l, r, hks⟩ := List.append_of_mem hk
  obtain ⟨e, he, -⟩ := h.node l k r hks
  rw [he]
  rfl

/-- An element of a joined list is in the second part or in the first. -/
theorem split_cases {α : Type} {l r l' r' : List α} {x : α} (h : l ++ r = l' ++ x :: r') :
    (∃ m, l' = l ++ m ∧ r = m ++ x :: r') ∨ ∃ m, l = l' ++ x :: m ∧ r' = m ++ r := by
  rcases List.append_eq_append_iff.1 h with ⟨m, hl, hr⟩ | ⟨m, hl, hr⟩
  · exact .inl ⟨m, hl, hr⟩
  · cases m with
    | nil => exact .inl ⟨[], by rw [hl, List.append_nil, List.append_nil], hr.symm⟩
    | cons y m =>
      obtain ⟨rfl, rfl⟩ := List.cons.inj hr
      exact .inr ⟨m, hl, rfl⟩

/-- Unlinking a key closes the list over it; the entry stays in the map. -/
theorem Linked.unlink (h : b.Linked (l ++ k :: r)) :
    ∃ b', b.lruUnlink k = some b' ∧ b'.Linked (l ++ r) ∧ ∀ x, b'.counters x = b.counters x := by
  obtain ⟨e, he, hprev, hnext⟩ := h.node l k r rfl
  obtain ⟨b₁, hb₁, hhead₁, htail₁, hlook₁⟩ := setNext_spec (b := b) l.getLast? r.head?
    (fun p hp => h.isSome (List.mem_append_left _ (List.mem_of_getLast? hp)))
  obtain ⟨b₂, hb₂, hhead₂, htail₂, hlook₂⟩ := setPrev_spec (b := b₁) r.head? l.getLast?
    (fun n hn => by
      rw [hlook₁, Option.isSome_map]
      exact h.isSome (List.mem_append_right _ (List.mem_cons_of_mem _ (List.mem_of_head? hn))))
  have hnodup := h.nodup
  refine ⟨b₂, ?_, ⟨?_, ?_, ?_, ?_⟩, fun x => ?_⟩
  · unfold lruUnlink
    rw [he]
    dsimp only [bind, Option.bind]
    rw [hprev, hnext, hb₁]
    exact hb₂
  · exact hnodup.sublist (List.Sublist.append_left (List.sublist_cons_self k r) l)
  · rw [hhead₂, hhead₁, h.head]
    cases l with
    | nil => rfl
    | cons x l => simp
  · rw [htail₂, htail₁, h.tail]
    cases r with
    | nil => simp
    | cons y r => simp
  · intro l' x r' hsplit
    rw [hlook₂, hlook₁]
    rcases split_cases hsplit with ⟨m, rfl, rfl⟩ | ⟨m, rfl, rfl⟩
    · -- a node behind the unlinked one: only its first neighbour has a new link
      obtain ⟨e', he', hp', hn'⟩ := h.node (l ++ k :: m) x r' (by simp)
      have hx : l.getLast? ≠ some x := fun hlast =>
        (List.nodup_append.1 hnodup).2.2 x (List.mem_of_getLast? hlast) x (by simp) rfl
      refine ⟨_, by rw [he']; rfl, ?_, ?_⟩
      · cases m with
        | nil => simp
        | cons y m =>
          have hy : y ≠ x := by
            rintro rfl
            have htail := (List.nodup_cons.1 (List.nodup_append.1 hnodup).2.1).2
            exact (List.nodup_cons.1 htail).1 (by simp)
          simp [hy, hp']
      · simp [hx, hn']
    · obtain ⟨e', he', hp', hn'⟩ := h.node l' x (m ++ k :: r) (by simp)
      have hx : r.head? ≠ some x := fun hhead =>
        (List.nodup_append.1 hnodup).2.2 x (by simp) x (List.mem_cons_of_mem _ (List.mem_of_head? hhead)) rfl
      refine ⟨_, by rw [he']; rfl, ?_, ?_⟩
      · simp [hx, hp']
      · rcases List.eq_nil_or_concat m with rfl | ⟨m, y, rfl⟩
        · simp
        · have hy : y ≠ x := by
            rintro rfl
            rw [List.append_assoc] at hnodup
            have hfront := (List.nodup_append.1 (List.nodup_append.1 hnodup).2.1).1
            exact (List.nodup_cons.1 hfront).1 (by simp)
          have hlast : (l' ++ x :: m.concat y).getLast? = some y := by
            rw [List.concat_eq_append, ← List.cons_append, ← List.append_assoc, List.getLast?_concat]
          have hhead : (m.concat y ++ k :: r).head? = (m.concat y ++ r).head? := by
            cases m <;> simp
          simp only [hlast, Option.some.injEq, hy, if_false]
          rw [hn', hhead]
  · unfold counters
    rw [hlook₂, hlook₁, Option.map_map, Option.map_map]
    rfl

/-- A key whose entry is in the map but not in the list goes to the front. -/
theorem Linked.pushFront (h : b.Linked ks) (hk : k ∉ ks) (hsome : (b.entries.lookup k).isSome = true) :
    ∃ b', b.lruPushFront k = some b' ∧ b'.Linked (k :: ks) ∧ ∀ x, b'.counters x = b.counters x := by
  obtain ⟨e, he⟩ := Option.isSome_iff_exists.1 hsome
  obtain ⟨b₁, hb₁, hhead₁, htail₁, hlook₁⟩ :=
    modify_spec (f := fun e => { e with lruPrev := none, lruNext := b.head }) he
  obtain ⟨b₂, hb₂, hhead₂, htail₂, hlook₂⟩ := setPrev_spec (b := b₁) ks.head? (some k)
    (fun n hn => by
      rw [hlook₁, Option.isSome_map]
      exact h.isSome (List.mem_of_head? hn))
  refine ⟨{ b₂ with head := some k }, ?_, ⟨?_, rfl, ?_, ?_⟩, fun x => ?_⟩
  · unfold lruPushFront
    dsimp only [bind, Option.bind]
    rw [hb₁]
    dsimp only
    rw [h.head, hb₂]
  · exact List.nodup_cons.2 ⟨hk, h.nodup⟩
  · dsimp only
    rw [htail₂, htail₁, h.tail]
    cases ks with
    | nil => rfl
    | cons x ks => simp
  · intro l x r hsplit
    dsimp only
    rw [hlook₂, hlook₁]
    cases l with
    | nil =>
      obtain ⟨rfl, rfl⟩ := List.cons.inj hsplit
      have hhead : ks.head? ≠ some k := fun hn => hk (List.mem_of_head? hn)
      exact ⟨_, by rw [he]; rfl, by simp [hhead], by simp [h.head]⟩
    | cons y l =>
      obtain ⟨rfl, rfl⟩ := List.cons.inj hsplit
      obtain ⟨e', he', hp', hn'⟩ := h.node l x r rfl
      have hx : x ≠ k := by
        rintro rfl
        exact hk (by simp)
      refine ⟨_, by rw [he']; rfl, ?_, by simp [hx, hn']⟩
      cases l with
      | nil => simp
      | cons z l =>
        have hz : z ≠ x := by
          rintro rfl
          exact (List.nodup_cons.1 h.nodup).1 (by simp)
        simp [hx, hz, hp']
  · unfold counters
    dsimp only
    rw [hlook₂, hlook₁, Option.map_map, Option.map_map]
    congr 1
    funext e'
    by_cases hx : x = k
    · simp [hx, Entry.counters]
    · simp [hx, Entry.counters]

theorem Linked.moveToFront (h : b.Linked (l ++ k :: r)) :
    ∃ b', b.lruMoveToFront k = some b' ∧ b'.Linked (k :: (l ++ r)) ∧ ∀ x, b'.counters x = b.counters x := by
  unfold lruMoveToFront
  cases l with
  | nil =>
    rw [if_pos (by rw [h.head]; rfl)]
    exact ⟨b, rfl, h, fun _ => rfl⟩
  | cons y l =>
    have hy : y ≠ k := by
      rintro rfl
      exact (List.nodup_cons.1 h.nodup).1 (by simp)
    rw [if_neg (by rw [h.head]; simpa using hy)]
    obtain ⟨b₁, hb₁, hlinked, hsame⟩ := h.unlink
    have hk : k ∉ y :: l ++ r := by
      have := (List.nodup_middle.1 h.nodup)
      exact (List.nodup_cons.1 this).1
    have hsome : (b₁.entries.lookup k).isSome = true := by
      have := hsame k
      unfold counters at this
      rw [← Option.isSome_map (f := Entry.counters), this, Option.isSome_map]
      exact h.isSome (by simp)
    obtain ⟨b₂, hb₂, hlinked₂, hsame₂⟩ := hlinked.pushFront hk hsome
    exact ⟨b₂, by rw [hb₁]; exact hb₂, hlinked₂, fun x => (hsame₂ x).trans (hsame x)⟩

/-- The least recently used key leaves the bucket. -/
theorem Linked.evict (h : b.Linked (ks ++ [k])) :
    ∃ b', b.evictBack = some (some k, b') ∧ b'.Linked ks ∧
      ∀ x, b'.counters x = if x = k then none else b.counters x := by
  obtain ⟨b₁, hb₁, hlinked, hsame⟩ := h.unlink
  rw [List.append_nil] at hlinked
  have htail : b.tail = some k := by rw [h.tail, List.getLast?_concat]
  have hk : k ∉ ks := fun hmem => (List.nodup_append.1 h.nodup).2.2 k hmem k (by simp) rfl
  refine ⟨{ b₁ with entries := b₁.entries.erase k }, ?_, ⟨hlinked.nodup, hlinked.head, hlinked.tail, ?_⟩, fun x => ?_⟩
  · unfold evictBack
    rw [htail]
    dsimp only
    rw [hb₁]
    rfl
  · intro l x r hsplit
    obtain ⟨e, he, hp, hn⟩ := hlinked.node l x r hsplit
    have hx : x ≠ k := by
      rintro rfl
      exact hk (by rw [hsplit]; simp)
    exact ⟨e, by rw [FinMap.lookup_erase_eq, if_neg hx]; exact he, hp, hn⟩
  · unfold counters
    rw [FinMap.lookup_erase_eq]
    by_cases hx : x = k
    · rw [if_pos hx, if_pos hx]
      rfl
    · rw [if_neg hx, if_neg hx]
      exact hsame x

/-- The bucket holds the keys `ks` and no others, linked in this order. -/
structure Lru (b : Bucket K) (ks : List K) : Prop where
  linked : b.Linked ks
  mem : ∀ k, (b.counters k).isSome = true → k ∈ ks

theorem empty_lru : (empty : Bucket K).Lru [] := ⟨empty_linked, fun _ h => nomatch h⟩

theorem counters_isSome : (b.counters k).isSome = (b.entries.lookup k).isSome := Option.isSome_map

theorem Lru.isSome_iff (h : b.Lru ks) : (b.entries.lookup k).isSome = true ↔ k ∈ ks :=
  ⟨fun hk => h.mem k (by rw [counters_isSome]; exact hk), h.linked.isSome⟩

theorem Lru.len_eq (h : b.Lru ks) : b.len = ks.length := by
  have hperm : b.entries.keys.Perm ks := by
    refine (List.perm_ext_iff_of_nodup b.entries.keys_nodup h.linked.nodup).2 fun k => ?_
    rw [← h.isSome_iff, AList.lookup_isSome]
    rfl
  rw [← hperm.length_eq]
  exact (List.length_map _).symm

/-- The keys that are left once there is room for one more. -/
def roomFor (maxBucketSize : Nat) (ks : List K) : List K := if maxBucketSize ≤ ks.length then ks.dropLast else ks

theorem Lru.makeRoom {m : Nat} (h : b.Lru ks) :
    ∃ evicted b', b.makeRoom m = some (evicted, b') ∧ b'.Lru (roomFor m ks) ∧
      ∀ x ∈ roomFor m ks, b'.counters x = b.counters x := by
  unfold Bucket.makeRoom roomFor
  rw [h.len_eq]
  by_cases hm : m ≤ ks.length
  · rw [if_pos hm, if_pos hm]
    rcases List.eq_nil_or_concat ks with rfl | ⟨ks, t, rfl⟩
    · refine ⟨false, b, ?_, h, fun _ _ => rfl⟩
      unfold evictBack
      rw [h.linked.tail]
      rfl
    · rw [List.concat_eq_append] at h ⊢
      obtain ⟨b', hb', hlinked, hlook⟩ := h.linked.evict
      rw [List.dropLast_concat]
      refine ⟨true, b', by rw [hb']; rfl, ⟨hlinked, fun x hx => ?_⟩, fun x hx => ?_⟩
      · rw [hlook] at hx
        split at hx
        · cases hx
        · rename_i hne
          have := h.mem x hx
          rw [List.mem_append, List.mem_singleton] at this
          exact this.resolve_right hne
      · rw [hlook, if_neg]
        rintro rfl
        exact (List.nodup_append.1 h.linked.nodup).2.2 x hx x (by simp) rfl
  · rw [if_neg hm, if_neg hm]
    exact ⟨false, b, rfl, h, fun _ _ => rfl⟩

/-- An entry is replaced by one with the same links. -/
theorem Linked.replace {e e' : Entry K} (h : b.Linked ks) (he : b.entries.lookup k = some e)
    (hp : e'.lruPrev = e.lruPrev) (hn : e'.lruNext = e.lruNext) :
    ({ b with entries := b.entries.insert k e' } : Bucket K).Linked ks where
  nodup := h.nodup
  head := h.head
  tail := h.tail
  node := by
    intro l x r hsplit
    obtain ⟨ex, hex, hxp, hxn⟩ := h.node l x r hsplit
    rw [FinMap.lookup_insert_eq]
    by_cases hx : x = k
    · subst hx
      rw [he] at hex
      cases hex
      exact ⟨e', if_pos rfl, hp.trans hxp, hn.trans hxn⟩
    · exact ⟨ex, (if_neg hx).trans hex, hxp, hxn⟩

theorem counters_insert (e : Entry K) (x : K) :
    ({ b with entries := b.entries.insert k e } : Bucket K).counters x =
      if x = k then some e.counters else b.counters x := by
  unfold counters
  rw [FinMap.lookup_insert_eq]
  split <;> rfl

theorem Lru.replace {e e' : Entry K} (h : b.Lru ks) (he : b.entries.lookup k = some e)
    (hp : e'.lruPrev = e.lruPrev) (hn : e'.lruNext = e.lruNext) :
    ({ b with entries := b.entries.insert k e' } : Bucket K).Lru ks := by
  refine ⟨h.linked.replace he hp hn, fun x hx => ?_⟩
  rw [counters_insert] at hx
  split at hx
  · rename_i hxk
    rw [hxk, ← h.isSome_iff, he]
    rfl
  · exact h.mem x hx

/-- The counters that a window finds at a key. -/
def found (b : Bucket K) (k : K) (w : Int64) : Counters :=
  match b.entries.lookup k with
  | some e => (e.roll w).counters
  | none => (Entry.new w : Entry K).counters

/-- **A touched key** is the most recent one, and its counters are those of the window. -/
theorem Lru.touch (h : b.Lru ks) (k : K) (w : Int64) :
    ∃ b' e, b.touch k w = some (decide (k ∈ ks), b') ∧ b'.Lru (k :: ks.erase k) ∧
      b'.entries.lookup k = some e ∧ e.counters = b.found k w ∧ ∀ x, x ≠ k → b'.counters x = b.counters x := by
  unfold Bucket.touch
  by_cases hk : k ∈ ks
  · obtain ⟨l, r, rfl⟩ := List.append_of_mem hk
    obtain ⟨b₁, hb₁, hlinked, hsame⟩ := h.linked.moveToFront
    have hkl : k ∉ l := fun hl => (List.nodup_append.1 h.linked.nodup).2.2 k hl k (by simp) rfl
    have herase : (l ++ k :: r).erase k = l ++ r := by rw [List.erase_append_right _ hkl, List.erase_cons_head]
    obtain ⟨e₀, he₀⟩ := Option.isSome_iff_exists.1 (h.linked.isSome hk)
    obtain ⟨e₁, he₁⟩ := Option.isSome_iff_exists.1 (hlinked.isSome (List.mem_cons_self (a := k)))
    have hcounters : e₁.counters = e₀.counters := by
      have := hsame k
      unfold counters at this
      rw [he₁, he₀] at this
      exact Option.some.inj this
    have hlru : b₁.Lru (k :: (l ++ r)) := by
      refine ⟨hlinked, fun x hx => ?_⟩
      rw [hsame] at hx
      have := h.mem x hx
      simp only [List.mem_append, List.mem_cons] at this ⊢
      tauto
    obtain ⟨hp, hn⟩ := e₁.roll_links w
    rw [if_pos (h.linked.isSome hk), herase, decide_eq_true hk]
    refine ⟨{ b₁ with entries := b₁.entries.insert k (e₁.roll w) }, e₁.roll w, ?_, hlru.replace he₁ hp hn, ?_, ?_, ?_⟩
    · dsimp only [bind, Option.bind]
      rw [hb₁]
      unfold modify
      dsimp only
      rw [he₁]
      rfl
    · exact AList.lookup_insert b₁.entries
    · unfold found
      rw [he₀]
      exact Entry.roll_congr hcounters w
    · intro x hx
      rw [counters_insert, if_neg hx]
      exact hsame x
  · have hnone : (b.entries.lookup k).isSome = false := by
      rw [← Bool.not_eq_true, h.isSome_iff]
      exact hk
    rw [if_neg (by rw [hnone]; exact Bool.false_ne_true), List.erase_of_not_mem hk, decide_eq_false hk]
    have hlinked : ({ b with entries := b.entries.insert k (Entry.new w) } : Bucket K).Linked ks := by
      refine ⟨h.linked.nodup, h.linked.head, h.linked.tail, fun l x r hsplit => ?_⟩
      obtain ⟨e, he, hp, hn⟩ := h.linked.node l x r hsplit
      have hx : x ≠ k := by
        rintro rfl
        exact hk (by rw [hsplit]; simp)
      exact ⟨e, by rw [FinMap.lookup_insert_eq, if_neg hx]; exact he, hp, hn⟩
    obtain ⟨b₁, hb₁, hlinked₁, hsame⟩ := hlinked.pushFront hk (by rw [FinMap.lookup_insert_eq, if_pos rfl]; rfl)
    obtain ⟨e₁, he₁⟩ := Option.isSome_iff_exists.1 (hlinked₁.isSome (List.mem_cons_self (a := k)))
    refine ⟨b₁, e₁, by rw [hb₁]; rfl, ⟨hlinked₁, fun x hx => ?_⟩, he₁, ?_, fun x hx => ?_⟩
    · rw [hsame, counters_insert] at hx
      split at hx
      · rename_i hxk
        rw [hxk]
        exact List.mem_cons_self
      · exact List.mem_cons_of_mem _ (h.mem x hx)
    · have := hsame k
      rw [counters_insert, if_pos rfl] at this
      unfold counters at this
      rw [he₁] at this
      unfold found
      rw [Option.isSome_eq_false_iff, Option.isNone_iff_eq_none] at hnone
      rw [hnone]
      exact Option.some.inj this
    · rw [hsame, counters_insert, if_neg hx]

theorem found_congr (h : b'.counters k = b.counters k) (w : Int64) : b'.found k w = b.found k w := by
  unfold counters at h
  unfold found
  rcases hl' : b'.entries.lookup k with _ | e'
  · rcases hl : b.entries.lookup k with _ | e
    · rfl
    · rw [hl', hl] at h
      cases h
  · rcases hl : b.entries.lookup k with _ | e
    · rw [hl', hl] at h
      cases h
    · rw [hl', hl] at h
      exact Entry.roll_congr (Option.some.inj h) w

/-- **What `with_entry` does to the list of a bucket.**  With a full bucket the last key goes first, whether or not it is
the one that is asked for; the key is then known exactly if it is left. -/
theorem Lru.withEntry {R : Type} {m : Nat} (h : b.Lru ks) (k : K) (w : Int64) {f : Entry K → Bool → R × Entry K}
    (hf : ∀ e existed, (f e existed).2.lruPrev = e.lruPrev ∧ (f e existed).2.lruNext = e.lruNext) :
    ∃ e b' evicted,
      b.withEntry m k w f = some ((f e (decide (k ∈ roomFor m ks))).1, b', evicted) ∧
      e.counters = (if k ∈ roomFor m ks then b.found k w else (Entry.new w : Entry K).counters) ∧
      b'.Lru (k :: (roomFor m ks).erase k) ∧
      b'.counters k = some (f e (decide (k ∈ roomFor m ks))).2.counters ∧
      ∀ x ∈ roomFor m ks, x ≠ k → b'.counters x = b.counters x := by
  obtain ⟨evicted, b₁, hb₁, hlru₁, hsame₁⟩ := h.makeRoom (m := m)
  obtain ⟨b₂, e, hb₂, hlru₂, he, hcounters, hsame₂⟩ := hlru₁.touch k w
  obtain ⟨hp, hn⟩ := hf e (decide (k ∈ roomFor m ks))
  refine ⟨e, _, evicted, ?_, ?_, hlru₂.replace he hp hn, ?_, fun x hx hne => ?_⟩
  · unfold Bucket.withEntry
    rw [hb₁]
    dsimp only [bind, Option.bind]
    rw [hb₂]
    dsimp only
    rw [he]
  · rw [hcounters]
    split
    · rename_i hk
      exact found_congr (hsame₁ k hk) w
    · rename_i hk
      have hnone : b₁.entries.lookup k = none := by
        rw [← hlru₁.isSome_iff, Option.not_isSome_iff_eq_none] at hk
        exact hk
      unfold found
      rw [hnone]
  · rw [counters_insert, if_pos rfl]
  · rw [counters_insert, if_neg hne, hsame₂ x hne, hsame₁ x hx]

/-- There is room for one more key. -/
theorem length_roomFor {m : Nat} (hm : 1 ≤ m) (hks : ks.length ≤ m) (k : K) : (k :: (roomFor m ks).erase k).length ≤ m := by
  have hroom : (roomFor m ks).length < m := by
    unfold roomFor
    split
    · rw [List.length_dropLast]
      omega
    · omega
  have := List.length_erase_le (a := k) (l := roomFor m ks)
  rw [List.length_cons]
  omega

end Bucket
end Pool
end Algod
