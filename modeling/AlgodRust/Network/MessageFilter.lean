import AlgodRust.Basics
import Mathlib.Data.Finset.Card
import Mathlib.Data.List.Basic
/-!
# MessageFilter — the messages that were seen

A ring of buckets remembers digests.  New ones go into the bucket on top; once it is full the ring moves on and clears
the bucket that was filled the longest time ago.  A bucket has a `lifetime`, the number of digests that have to come
before the ring gets to it: one that comes takes exactly one off (`lifetime_put`, `lifetime_settle`), so that a digest
is remembered as long as its bucket lives (`digest_retained`).
-/
namespace Algod
namespace Network

/-- The ring, with the index of the bucket that new digests go into. -/
structure MessageFilter where
  buckets : List (Finset Digest)
  maxBucketSize : Nat
  currentTopBucket : Nat
  top_lt : currentTopBucket < buckets.length

/-- The arguments of `checkDigest`. -/
structure FilterCall where
  digest : Digest
  add : Bool
  promote : Bool

namespace MessageFilter

/-! ## The operations -/

/-- A ring of at least one bucket. -/
def new (bucketCount maxBucketSize : Nat) : MessageFilter where
  buckets := List.replicate (max bucketCount 1) ∅
  maxBucketSize := maxBucketSize
  currentTopBucket := 0
  top_lt := by simp

def bucket (f : MessageFilter) (i : Nat) : Finset Digest := f.buckets.getD i ∅

/-- The first bucket with the digest. -/
def find (f : MessageFilter) (digest : Digest) : Option Nat := f.buckets.findIdx? (fun b => decide (digest ∈ b))

/-- The slot before the one on top, around the ring. -/
def back (f : MessageFilter) : Nat := (f.currentTopBucket + f.buckets.length - 1) % f.buckets.length

theorem back_lt (f : MessageFilter) : f.back < f.buckets.length := Nat.mod_lt _ (Nat.zero_lt_of_lt f.top_lt)

def advanceRing (f : MessageFilter) : MessageFilter where
  buckets := f.buckets.set f.back ∅
  maxBucketSize := f.maxBucketSize
  currentTopBucket := f.back
  top_lt := by rw [List.length_set]; exact f.back_lt

def modifyBucket (f : MessageFilter) (i : Nat) (g : Finset Digest → Finset Digest) : MessageFilter where
  buckets := f.buckets.modify i g
  maxBucketSize := f.maxBucketSize
  currentTopBucket := f.currentTopBucket
  top_lt := by rw [List.length_modify]; exact f.top_lt

/-- Whether the digest was there before the call, and the filter after it. -/
def checkDigest (f : MessageFilter) (digest : Digest) (add promote : Bool) : Bool × MessageFilter :=
  let foundIdx := f.find digest
  if !add then (foundIdx.isSome, f)
  else
    let current := f.currentTopBucket
    let g := match foundIdx with
      | none => f.modifyBucket current (insert digest)
      | some idx =>
        if promote && idx != current then
          (f.modifyBucket idx (fun b => b.erase digest)).modifyBucket current (insert digest)
        else f
    -- a full bucket on top lets the ring move on at once
    (foundIdx.isSome, if (g.bucket current).card ≥ g.maxBucketSize then g.advanceRing else g)

def step (f : MessageFilter) (c : FilterCall) : MessageFilter := (f.checkDigest c.digest c.add c.promote).2

def run (f : MessageFilter) (calls : List FilterCall) : MessageFilter := calls.foldl step f

/-! ## Buckets after an operation -/

variable {f : MessageFilter} {d e : Digest} {i j p : Nat}

theorem bucket_new {bucketCount maxBucketSize : Nat} : (new bucketCount maxBucketSize).bucket i = ∅ := by
  unfold bucket new
  rw [List.getD_eq_getElem?_getD, List.getElem?_replicate]
  split <;> rfl

theorem lt_of_mem_bucket (h : d ∈ f.bucket i) : i < f.buckets.length := by
  by_contra hge
  unfold bucket at h
  rw [List.getD_eq_getElem?_getD, List.getElem?_eq_none (by omega)] at h
  simp at h

theorem bucket_modifyBucket {g : Finset Digest → Finset Digest} (hi : i < f.buckets.length) :
    (f.modifyBucket i g).bucket j = if i = j then g (f.bucket j) else f.bucket j := by
  unfold bucket modifyBucket
  simp only [List.getD_eq_getElem?_getD, List.getElem?_modify]
  by_cases hij : i = j
  · subst hij
    simp [hi]
  · simp [hij]

theorem bucket_advanceRing : f.advanceRing.bucket j = if f.back = j then ∅ else f.bucket j := by
  unfold bucket advanceRing
  simp only [List.getD_eq_getElem?_getD, List.getElem?_set]
  by_cases hj : f.back = j
  · subst hj
    simp [f.back_lt]
  · simp [hj]

theorem find_none : f.find d = none ↔ ∀ i, d ∉ f.bucket i := by
  unfold find
  rw [List.findIdx?_eq_none_iff]
  constructor
  · intro h i hmem
    have hi := lt_of_mem_bucket hmem
    have hget : f.bucket i = f.buckets.get ⟨i, hi⟩ := by simp [bucket, hi]
    have hnot := h _ (List.get_mem f.buckets ⟨i, hi⟩)
    rw [hget] at hmem
    exact of_decide_eq_false hnot hmem
  · intro h b hb
    obtain ⟨i, hi⟩ := List.mem_iff_get.1 hb
    have hnot := h i
    unfold bucket at hnot
    simp only [List.getD_eq_getElem?_getD, i.isLt, List.getElem?_eq_getElem, Option.getD_some] at hnot
    rw [← hi]
    simpa using hnot

theorem mem_of_find (h : f.find d = some i) : d ∈ f.bucket i := by
  unfold find at h
  obtain ⟨hi, hmem, -⟩ := List.findIdx?_eq_some_iff_getElem.1 h
  unfold bucket
  simpa [hi] using hmem

theorem find_isSome : (f.find d).isSome = true ↔ ∃ i, d ∈ f.bucket i := by
  cases h : f.find d with
  | none =>
    have hno := find_none.1 h
    simp [hno]
  | some i => simp only [Option.isSome_some, true_iff]; exact ⟨i, mem_of_find h⟩

/-! ## What a call does -/

/-- **The invariant**: the buckets are small, the one on top has room, and a digest is in one bucket only. -/
structure Sound (f : MessageFilter) : Prop where
  small : ∀ i, (f.bucket i).card ≤ f.maxBucketSize
  room : (f.bucket f.currentTopBucket).card < f.maxBucketSize
  unique : ∀ i j d, d ∈ f.bucket i → d ∈ f.bucket j → i = j

/-- The call puts its digest into the bucket on top: it is new there, or promoted. -/
def enters (f : MessageFilter) (c : FilterCall) : Bool :=
  c.add && match f.find c.digest with
    | none => true
    | some idx => c.promote && idx != f.currentTopBucket

/-- The digest into the bucket on top, and out of the one it was in. -/
def put (f : MessageFilter) (digest : Digest) : MessageFilter :=
  match f.find digest with
  | none => f.modifyBucket f.currentTopBucket (insert digest)
  | some idx => (f.modifyBucket idx (fun b => b.erase digest)).modifyBucket f.currentTopBucket (insert digest)

def settle (f : MessageFilter) : MessageFilter :=
  if (f.bucket f.currentTopBucket).card ≥ f.maxBucketSize then f.advanceRing else f

theorem put_top : (f.put d).currentTopBucket = f.currentTopBucket := by
  unfold put; split <;> rfl

theorem put_maxBucketSize : (f.put d).maxBucketSize = f.maxBucketSize := by
  unfold put; split <;> rfl

theorem put_length : (f.put d).buckets.length = f.buckets.length := by
  unfold put; split <;> simp [modifyBucket]

/-- **One step**: a call that enters its digest puts it and lets the ring move on; any other changes nothing. -/
theorem step_eq (hs : f.Sound) (c : FilterCall) : f.step c = if f.enters c then (f.put c.digest).settle else f := by
  have hroom : ¬ f.maxBucketSize ≤ (f.bucket f.currentTopBucket).card := by have := hs.room; omega
  unfold step checkDigest enters put settle
  cases hadd : c.add with
  | false => simp
  | true =>
    cases hfind : f.find c.digest with
    | none => simp [modifyBucket]
    | some idx =>
      by_cases hpromote : (c.promote && idx != f.currentTopBucket) = true
      · simp [hpromote, modifyBucket]
      · simp [hpromote, hroom]

theorem checkDigest_fst (c : FilterCall) : (f.checkDigest c.digest c.add c.promote).1 = (f.find c.digest).isSome := by
  unfold checkDigest
  cases c.add <;> rfl

theorem not_mem_top (hs : f.Sound) {c : FilterCall} (h : f.enters c = true) : c.digest ∉ f.bucket f.currentTopBucket := by
  intro hmem
  unfold enters at h
  cases hfind : f.find c.digest with
  | none => exact find_none.1 hfind _ hmem
  | some idx =>
    have hidx := hs.unique _ _ _ (mem_of_find hfind) hmem
    simp [hfind, hidx] at h

/-- The other buckets lose the digest, if one of them had it. -/
theorem bucket_put (hs : f.Sound) (hnew : d ∉ f.bucket f.currentTopBucket) :
    (f.put d).bucket j = if f.currentTopBucket = j then insert d (f.bucket j) else (f.bucket j).erase d := by
  unfold put
  cases hfind : f.find d with
  | none =>
    have hno := find_none.1 hfind j
    simp only [bucket_modifyBucket f.top_lt, Finset.erase_eq_of_notMem hno]
  | some idx =>
    have hidx := mem_of_find hfind
    have hlt := lt_of_mem_bucket hidx
    have htop : f.currentTopBucket < (f.modifyBucket idx (fun b => b.erase d)).buckets.length :=
      (f.modifyBucket idx (fun b => b.erase d)).top_lt
    simp only [bucket_modifyBucket htop, bucket_modifyBucket hlt]
    by_cases htj : f.currentTopBucket = j
    · have hij : idx ≠ j := by rintro rfl; exact hnew (htj ▸ hidx)
      simp [htj, hij]
    · by_cases hij : idx = j
      · simp [htj, hij]
      · have hno : d ∉ f.bucket j := fun hmem => hij (hs.unique _ _ _ hidx hmem)
        simp [htj, hij, hno]

theorem Sound.new (bucketCount : Nat) {maxBucketSize : Nat} (hsize : 0 < maxBucketSize) :
    (MessageFilter.new bucketCount maxBucketSize).Sound where
  small i := by simp [bucket_new]
  room := by rw [bucket_new]; exact hsize
  unique i j d h := by simp [bucket_new] at h

theorem put_small (hs : f.Sound) (hnew : d ∉ f.bucket f.currentTopBucket) :
    ((f.put d).bucket j).card ≤ f.maxBucketSize := by
  rw [bucket_put hs hnew]
  by_cases hj : f.currentTopBucket = j
  · subst hj
    have hroom := hs.room
    rw [if_pos rfl, Finset.card_insert_of_notMem hnew]
    omega
  · rw [if_neg hj]
    exact (Finset.card_le_card (Finset.erase_subset _ _)).trans (hs.small j)

theorem put_unique (hs : f.Sound) (hnew : d ∉ f.bucket f.currentTopBucket) (hi : e ∈ (f.put d).bucket i)
    (hj : e ∈ (f.put d).bucket j) : i = j := by
  rw [bucket_put hs hnew] at hi hj
  by_cases he : e = d
  · subst he
    by_cases hti : f.currentTopBucket = i
    · by_cases htj : f.currentTopBucket = j
      · exact hti.symm.trans htj
      · simp [htj] at hj
    · simp [hti] at hi
  · refine hs.unique i j e ?_ ?_
    · by_cases hti : f.currentTopBucket = i <;> simpa [hti, he] using hi
    · by_cases htj : f.currentTopBucket = j <;> simpa [htj, he] using hj

theorem Sound.step (hs : f.Sound) (c : FilterCall) : (f.step c).Sound := by
  rw [step_eq hs c]
  by_cases henters : f.enters c = true
  · have hnew := not_mem_top hs henters
    rw [if_pos henters]
    unfold settle
    by_cases hfull : ((f.put c.digest).bucket (f.put c.digest).currentTopBucket).card ≥ (f.put c.digest).maxBucketSize
    · -- the bucket that the ring comes to is cleared
      rw [if_pos hfull]
      have hcleared : ∀ j, (f.put c.digest).advanceRing.bucket j ⊆ (f.put c.digest).bucket j := by
        intro j
        rw [bucket_advanceRing]
        split <;> simp
      refine ⟨fun j => ?_, ?_, fun i j d hi hj => put_unique hs hnew (hcleared i hi) (hcleared j hj)⟩
      · exact (Finset.card_le_card (hcleared j)).trans ((put_small hs hnew).trans_eq put_maxBucketSize.symm)
      · show ((f.put c.digest).advanceRing.bucket (f.put c.digest).back).card < (f.put c.digest).maxBucketSize
        have hroom := hs.room
        rw [bucket_advanceRing, if_pos rfl, put_maxBucketSize, Finset.card_empty]
        omega
    · rw [if_neg hfull]
      exact ⟨fun j => (put_small hs hnew).trans_eq put_maxBucketSize.symm, by omega, fun _ _ _ => put_unique hs hnew⟩
  · rw [if_neg henters]
    exact hs

theorem Sound.run (hs : f.Sound) (calls : List FilterCall) : (f.run calls).Sound := by
  induction calls generalizing f with
  | nil => exact hs
  | cons c calls ih => exact ih (hs.step c)

/-- The sizes of the ring never change. -/
theorem step_sizes (hs : f.Sound) (c : FilterCall) :
    (f.step c).maxBucketSize = f.maxBucketSize ∧ (f.step c).buckets.length = f.buckets.length := by
  rw [step_eq hs c]
  by_cases henters : f.enters c = true
  · rw [if_pos henters]
    unfold settle
    split
    · exact ⟨put_maxBucketSize, (List.length_set ..).trans put_length⟩
    · exact ⟨put_maxBucketSize, put_length⟩
  · rw [if_neg henters]
    exact ⟨rfl, rfl⟩

theorem run_sizes (hs : f.Sound) (calls : List FilterCall) :
    (f.run calls).maxBucketSize = f.maxBucketSize ∧ (f.run calls).buckets.length = f.buckets.length := by
  induction calls generalizing f with
  | nil => exact ⟨rfl, rfl⟩
  | cons c calls ih =>
    obtain ⟨hsize, hlength⟩ := ih (hs.step c)
    exact ⟨hsize.trans (step_sizes hs c).1, hlength.trans (step_sizes hs c).2⟩

/-! ## What was never added is not found -/

theorem mem_of_mem_step (hs : f.Sound) {c : FilterCall} (h : d ∈ (f.step c).bucket i) :
    d ∈ f.bucket i ∨ c.add = true ∧ c.digest = d := by
  rw [step_eq hs c] at h
  by_cases henters : f.enters c = true
  · have hadd : c.add = true := by unfold enters at henters; simp only [Bool.and_eq_true] at henters; exact henters.1
    have hput : d ∈ (f.put c.digest).bucket i := by
      rw [if_pos henters] at h
      unfold settle at h
      split at h
      · rw [bucket_advanceRing] at h
        split at h
        · simp at h
        · exact h
      · exact h
    rw [bucket_put hs (not_mem_top hs henters)] at hput
    by_cases hd : c.digest = d
    · exact .inr ⟨hadd, hd⟩
    · left
      by_cases hi : f.currentTopBucket = i <;> simpa [hi, Ne.symm hd] using hput
  · rw [if_neg henters] at h
    exact .inl h

theorem mem_of_mem_run (hs : f.Sound) {calls : List FilterCall} (h : d ∈ (f.run calls).bucket i) :
    d ∈ f.bucket i ∨ ∃ c ∈ calls, c.add = true ∧ c.digest = d := by
  induction calls generalizing f with
  | nil => exact .inl h
  | cons c calls ih =>
    rcases ih (hs.step c) h with hmem | ⟨c', hc', hadd⟩
    · rcases mem_of_mem_step hs hmem with hmem | hadd
      · exact .inl hmem
      · exact .inr ⟨c, List.mem_cons_self, hadd⟩
    · exact .inr ⟨c', List.mem_cons_of_mem _ hc', hadd⟩

/-- **In every run** a bucket holds no more than its size, a digest is in one bucket at most, and one that no call
wanted to be added is not found. -/
theorem filter_sound (bucketCount maxBucketSize : Nat) (calls : List FilterCall) (hsize : 0 < maxBucketSize) :
    (∀ i, (((new bucketCount maxBucketSize).run calls).bucket i).card ≤ maxBucketSize) ∧
      (∀ i j d, d ∈ ((new bucketCount maxBucketSize).run calls).bucket i →
        d ∈ ((new bucketCount maxBucketSize).run calls).bucket j → i = j) ∧
      ∀ c : FilterCall, (∀ c' ∈ calls, c'.digest = c.digest → c'.add = false) →
        (((new bucketCount maxBucketSize).run calls).checkDigest c.digest c.add c.promote).1 = false := by
  have hnew := Sound.new bucketCount hsize
  refine ⟨fun i => ?_, (hnew.run calls).unique, fun c hnever => ?_⟩
  · exact ((hnew.run calls).small i).trans_eq (run_sizes hnew calls).1
  · rw [checkDigest_fst, ← Bool.not_eq_true, find_isSome]
    rintro ⟨i, hmem⟩
    rcases mem_of_mem_run hnew hmem with hmem | ⟨c', hc', hadd, hdigest⟩
    · simp [bucket_new] at hmem
    · simp [hnever c' hc' hdigest] at hadd

/-- One digest was added, with a bucket to itself; another one is new. -/
theorem filter_sound_two :
    (((new 2 1).run [⟨⟨1⟩, true, false⟩]).checkDigest ⟨2⟩ true false).1 = false :=
  (filter_sound 2 1 [⟨⟨1⟩, true, false⟩] (by decide)).2.2 ⟨⟨2⟩, true, false⟩ (by
    intro c' hc' hdigest
    obtain rfl := List.mem_singleton.1 hc'
    exact absurd hdigest (by decide))

/-! ## How long a digest is remembered -/

/-- How often the ring moves on until it comes to a bucket. -/
def distance (f : MessageFilter) (p : Nat) : Nat :=
  if p < f.currentTopBucket then f.currentTopBucket - p else f.currentTopBucket + f.buckets.length - p

/-- How many digests come until the ring clears a bucket. -/
def lifetime (f : MessageFilter) (p : Nat) : Nat :=
  (f.distance p - 1) * f.maxBucketSize + (f.maxBucketSize - (f.bucket f.currentTopBucket).card)

/-- The digest is in a bucket that lives for so many more. -/
def Retains (f : MessageFilter) (d : Digest) (k : Nat) : Prop := ∃ p, d ∈ f.bucket p ∧ k ≤ f.lifetime p

theorem back_eq : f.back = if f.currentTopBucket = 0 then f.buckets.length - 1 else f.currentTopBucket - 1 := by
  have htop := f.top_lt
  unfold back
  by_cases hzero : f.currentTopBucket = 0
  · rw [if_pos hzero, hzero, Nat.zero_add]
    exact Nat.mod_eq_of_lt (by omega)
  · rw [if_neg hzero, show f.currentTopBucket + f.buckets.length - 1 = (f.currentTopBucket - 1) + f.buckets.length by omega,
      Nat.add_mod_right]
    exact Nat.mod_eq_of_lt (by omega)

theorem lifetime_put (hs : f.Sound) (hnew : e ∉ f.bucket f.currentTopBucket) : (f.put e).lifetime p = f.lifetime p - 1 := by
  have hroom := hs.room
  have hcard : ((f.put e).bucket (f.put e).currentTopBucket).card = (f.bucket f.currentTopBucket).card + 1 := by
    rw [bucket_put hs hnew, put_top, if_pos rfl, Finset.card_insert_of_notMem hnew]
  unfold lifetime
  rw [hcard]
  unfold distance
  rw [put_top, put_length, put_maxBucketSize]
  omega

/-- The ring moves past a bucket that still lives, and leaves its lifetime as it is. -/
theorem lifetime_settle (hfits : (f.bucket f.currentTopBucket).card ≤ f.maxBucketSize) (hp : p < f.buckets.length)
    (halive : 0 < f.lifetime p) : f.settle.bucket p = f.bucket p ∧ f.settle.lifetime p = f.lifetime p := by
  have htop := f.top_lt
  unfold settle
  by_cases hfull : (f.bucket f.currentTopBucket).card ≥ f.maxBucketSize
  · rw [if_pos hfull]
    have hcard : f.maxBucketSize - (f.bucket f.currentTopBucket).card = 0 := by omega
    -- the bucket lives, so it is not the one that the ring comes to next
    have hfar : 2 ≤ f.distance p := by
      by_contra hnear
      have hzero : f.distance p - 1 = 0 := by omega
      unfold lifetime at halive
      simp [hzero, hcard] at halive
    have hback : f.back ≠ p := by
      intro h
      have hb := f.back_eq
      unfold distance at hfar
      split at hb <;> split at hfar <;> omega
    have hnext : f.advanceRing.distance p = f.distance p - 1 := by
      have hb := f.back_eq
      show (if p < f.back then f.back - p else f.back + (f.buckets.set f.back ∅).length - p) = _
      rw [List.length_set]
      unfold distance at hfar ⊢
      split at hb <;> split <;> split <;> omega
    have hempty : (f.advanceRing.bucket f.advanceRing.currentTopBucket).card = 0 := by
      show (f.advanceRing.bucket f.back).card = 0
      rw [bucket_advanceRing, if_pos rfl, Finset.card_empty]
    refine ⟨by rw [bucket_advanceRing, if_neg hback], ?_⟩
    unfold lifetime
    rw [hempty, hnext, hcard]
    show (f.distance p - 1 - 1) * f.maxBucketSize + (f.maxBucketSize - 0) = _
    obtain ⟨k, hk⟩ : ∃ k, f.distance p - 1 = k + 1 := ⟨f.distance p - 2, by omega⟩
    rw [hk, Nat.add_mul]
    simp
  · rw [if_neg hfull]
    exact ⟨rfl, rfl⟩

theorem Retains.put_self (hs : f.Sound) (hnew : d ∉ f.bucket f.currentTopBucket) :
    (f.put d).Retains d ((f.buckets.length - 1) * f.maxBucketSize) := by
  refine ⟨f.currentTopBucket, ?_, ?_⟩
  · rw [bucket_put hs hnew, if_pos rfl]
    exact Finset.mem_insert_self _ _
  · have hdistance : (f.put d).distance f.currentTopBucket = f.buckets.length := by
      unfold distance
      rw [put_top, put_length, if_neg (lt_irrefl _)]
      omega
    unfold lifetime
    rw [hdistance, put_maxBucketSize]
    exact Nat.le_add_right _ _

theorem Retains.put_other {k : Nat} (hs : f.Sound) (hnew : e ∉ f.bucket f.currentTopBucket) (hne : d ≠ e)
    (h : f.Retains d (k + 1)) : (f.put e).Retains d k := by
  obtain ⟨p, hmem, hk⟩ := h
  refine ⟨p, ?_, by rw [lifetime_put hs hnew]; omega⟩
  rw [bucket_put hs hnew]
  by_cases hp : f.currentTopBucket = p <;> simp [hp, hne, hmem]

theorem Retains.settle {k : Nat} (hfits : (f.bucket f.currentTopBucket).card ≤ f.maxBucketSize) (hk : 0 < k)
    (h : f.Retains d k) : f.settle.Retains d k := by
  obtain ⟨p, hmem, hlife⟩ := h
  obtain ⟨hbucket, hlifetime⟩ := lifetime_settle hfits (lt_of_mem_bucket hmem) (by omega)
  exact ⟨p, hbucket ▸ hmem, hlifetime ▸ hlife⟩

/-- The call enters a digest other than `d`. -/
def displaces (f : MessageFilter) (d : Digest) (c : FilterCall) : Bool := f.enters c && c.digest != d

/-- How many of the calls of a run do. -/
def displacements (d : Digest) : MessageFilter → List FilterCall → Nat
  | _, [] => 0
  | f, c :: calls => (if f.displaces d c then 1 else 0) + displacements d (f.step c) calls

theorem put_fits (hs : f.Sound) (hnew : e ∉ f.bucket f.currentTopBucket) :
    ((f.put e).bucket (f.put e).currentTopBucket).card ≤ (f.put e).maxBucketSize := by
  have hroom := hs.room
  rw [bucket_put hs hnew, put_top, put_maxBucketSize, if_pos rfl, Finset.card_insert_of_notMem hnew]
  omega

/-- A digest that enters lives for as many others as the other buckets hold. -/
theorem Retains.entered (hs : f.Sound) {c : FilterCall} (henters : f.enters c = true)
    (hpos : 0 < (f.buckets.length - 1) * f.maxBucketSize) :
    (f.step c).Retains c.digest ((f.buckets.length - 1) * f.maxBucketSize) := by
  have hnew := not_mem_top hs henters
  rw [step_eq hs c, if_pos henters]
  exact (Retains.put_self hs hnew).settle (put_fits hs hnew) hpos

theorem Retains.step {k : Nat} (hs : f.Sound) (hk : k ≤ (f.buckets.length - 1) * f.maxBucketSize) (h : f.Retains d k)
    (c : FilterCall) (hlives : (if f.displaces d c then 1 else 0) < k) :
    (f.step c).Retains d (k - if f.displaces d c then 1 else 0) := by
  unfold displaces at hlives ⊢
  by_cases henters : f.enters c = true
  · have hnew := not_mem_top hs henters
    by_cases hd : c.digest = d
    · subst hd
      simp only [bne_self_eq_false, Bool.and_false, Bool.false_eq_true, if_false] at hlives ⊢
      obtain ⟨p, hmem, hlife⟩ := Retains.entered hs henters (by omega)
      exact ⟨p, hmem, by omega⟩
    · simp only [henters, bne_iff_ne, ne_eq, hd, not_false_eq_true, Bool.true_and, if_true] at hlives ⊢
      rw [step_eq hs c, if_pos henters]
      obtain ⟨l, rfl⟩ : ∃ l, k = l + 1 := ⟨k - 1, by omega⟩
      exact (h.put_other hs hnew (Ne.symm hd)).settle (put_fits hs hnew) (by omega)
  · simp only [henters, Bool.false_and, Bool.false_eq_true, if_false] at hlives ⊢
    rw [step_eq hs c, if_neg henters]
    exact h

theorem Retains.run {k : Nat} (hs : f.Sound) (hk : k ≤ (f.buckets.length - 1) * f.maxBucketSize) (h : f.Retains d k)
    (calls : List FilterCall) (hlives : displacements d f calls < k) :
    (f.run calls).Retains d (k - displacements d f calls) := by
  induction calls generalizing f k with
  | nil => exact h
  | cons c calls ih =>
    unfold displacements at hlives ⊢
    obtain ⟨hsize, hlength⟩ := step_sizes hs c
    have hnext := h.step hs hk c (by omega)
    have hrest := ih (hs.step c) (by rw [hsize, hlength]; omega) hnext (by omega)
    rwa [Nat.sub_sub] at hrest

/-- **A digest is remembered** from the call that entered it until as many others were entered as fit into the other
buckets of the ring. -/
theorem digest_retained (bucketCount maxBucketSize : Nat) (before after : List FilterCall) (c : FilterCall)
    (hsize : 0 < maxBucketSize) (henters : ((new bucketCount maxBucketSize).run before).enters c = true)
    (hcount : displacements c.digest ((new bucketCount maxBucketSize).run (before ++ [c])) after <
      (max bucketCount 1 - 1) * maxBucketSize) (add promote : Bool) :
    (((new bucketCount maxBucketSize).run (before ++ c :: after)).checkDigest c.digest add promote).1 = true := by
  have hnew := Sound.new bucketCount hsize
  have hs := hnew.run before
  obtain ⟨hmax, hlength⟩ := run_sizes hnew before
  have hring : ((new bucketCount maxBucketSize).run before).buckets.length = max bucketCount 1 := by
    rw [hlength]
    exact List.length_replicate
  have hall : (max bucketCount 1 - 1) * maxBucketSize = (((new bucketCount maxBucketSize).run before).buckets.length - 1) *
      ((new bucketCount maxBucketSize).run before).maxBucketSize := by rw [hring, hmax]; rfl
  have hone : (new bucketCount maxBucketSize).run (before ++ [c]) = ((new bucketCount maxBucketSize).run before).step c := by
    simp [run]
  rw [hone, hall] at hcount
  obtain ⟨hsize', hlength'⟩ := step_sizes hs c
  obtain ⟨p, hmem, -⟩ := (Retains.entered hs henters (by omega)).run (hs.step c) (by rw [hsize', hlength']) after hcount
  have hsplit : (new bucketCount maxBucketSize).run (before ++ c :: after) =
      (((new bucketCount maxBucketSize).run before).step c).run after := by simp [run]
  rw [hsplit, checkDigest_fst ⟨c.digest, add, promote⟩, find_isSome]
  exact ⟨p, hmem⟩

/-- The second digest fills the bucket on top; two more would clear it, and one does not. -/
theorem digest_retained_three :
    (((new 2 2).run ([⟨⟨1⟩, true, false⟩] ++ ⟨⟨2⟩, true, false⟩ :: [⟨⟨3⟩, true, false⟩])).checkDigest ⟨2⟩ false false).1 =
      true :=
  digest_retained 2 2 [⟨⟨1⟩, true, false⟩] [⟨⟨3⟩, true, false⟩] ⟨⟨2⟩, true, false⟩ (by decide) (by decide) (by decide)
    false false

end MessageFilter
end Network
end Algod
