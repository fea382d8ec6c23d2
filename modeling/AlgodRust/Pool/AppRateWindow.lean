import AlgodRust.Pool.AppRateLimiter
/-!
# AppRateWindow — what the application rate limiter guarantees within a window

As long as fewer keys are in use than a bucket holds, the keys of the window stand before all others in the order of
use, and the eviction at the start of each lookup takes one of the others.  A key that was admitted then keeps its
counter, and the counter bounds the admissions.
-/
namespace Algod
namespace Pool

open Msgpack (Bytes)

/-! ## Arithmetic -/

theorem f64_nonneg {x : ℚ} (h : 0 ≤ x) : 0 ≤ f64 x := Rounding.roundNE_nonneg h

theorem f64_zero : f64 0 = 0 := Rounding.roundNE_zero 53

theorem f64_nonpos {x : ℚ} (h : x ≤ 0) : f64 x ≤ 0 := by
  unfold f64 Rounding.roundNE
  split
  · exact le_rfl
  · rename_i hne
    rw [if_pos (lt_of_le_of_ne h hne), neg_nonpos]
    positivity

theorem f64_le_one {x : ℚ} (h : x ≤ 1) : f64 x ≤ 1 := by
  rcases le_total x 0 with hx | hx
  · exact (f64_nonpos hx).trans zero_le_one
  · have hone : f64 1 = 1 := Rounding.roundNE_of_float (by omega) zero_le_one
      (.inr ⟨2 ^ 52, -52, ⟨by norm_num, by norm_num⟩, by norm_num⟩)
    calc f64 x ≤ f64 1 := Rounding.roundNE_mono (by omega) hx h
      _ = 1 := hone

theorem asI64_nonneg {x : ℚ} (h : 0 ≤ x) : 0 ≤ (asI64 x).toInt := by
  unfold asI64
  rw [if_neg (not_lt.2 h)]
  have hfloor : 0 ≤ ⌊x⌋ := Int.floor_nonneg.2 h
  rw [Int64.toInt_ofInt_of_le (by omega) (by omega)]
  omega

namespace AppRateLimiter

variable {l l' : AppRateLimiter}

theorem fraction_le_one (l : AppRateLimiter) (now : Int64) : l.fraction now ≤ 1 := by
  unfold fraction
  apply f64_le_one
  rcases lt_trichotomy l.windowNanos.toInt 0 with hneg | hzero | hpos
  · have hrem : (0 : ℚ) ≤ (now.toInt % l.windowNanos.toInt : Int) := by
      exact_mod_cast Int.emod_nonneg _ hneg.ne
    have hwin : f64 l.windowNanos.toInt ≤ 0 := f64_nonpos (by exact_mod_cast hneg.le)
    exact (div_nonpos_of_nonneg_of_nonpos (f64_nonneg hrem) hwin).trans zero_le_one
  · rw [hzero, Int.cast_zero, f64_zero, div_zero]
    exact zero_le_one
  · have hrem : (0 : ℚ) ≤ (now.toInt % l.windowNanos.toInt : Int) := by
      exact_mod_cast Int.emod_nonneg _ hpos.ne'
    have hlt : ((now.toInt % l.windowNanos.toInt : Int) : ℚ) ≤ l.windowNanos.toInt := by
      exact_mod_cast (Int.emod_lt_of_pos _ hpos).le
    exact div_le_one_of_le₀ (Rounding.roundNE_mono (by omega) hrem hlt) (f64_nonneg (hrem.trans hlt))

theorem decayed_nonneg {prev : Int64} (hprev : 0 ≤ prev.toInt) {fraction : ℚ} (h : fraction ≤ 1) :
    0 ≤ (decayed prev fraction).toInt := by
  have h1 : 0 ≤ f64 prev.toInt := f64_nonneg (by exact_mod_cast hprev)
  have h2 : 0 ≤ f64 (1 - fraction) := f64_nonneg (by linarith)
  exact asI64_nonneg (f64_nonneg (mul_nonneg h1 h2))

theorem decayed_zero (fraction : ℚ) : (decayed 0 fraction).toInt = 0 := by
  have h0 : ((0 : Int64).toInt : ℚ) = 0 := by exact_mod_cast rfl
  unfold decayed
  rw [h0, f64_zero, zero_mul, f64_zero]
  rfl

/-! ## One key -/

/-- A closure that keeps the links of an entry and only adds to its count: by one at least where it counts, and then not
past the rate unless the entry is new. -/
structure Counts (rate : UInt64) (room : Counters → Prop) (counted : Bool → Prop)
    (f : Entry AppKey → Bool → Bool × Entry AppKey) : Prop where
  links : ∀ e existed, (f e existed).2.lruPrev = e.lruPrev ∧ (f e existed).2.lruNext = e.lruNext
  fresh : ∀ w, room ⟨0, 0, w⟩
  keeps : ∀ e existed, (f e existed).2.prev = e.prev ∧ (f e existed).2.interval = e.interval
  grows : ∀ e existed, 0 ≤ e.prev.toInt → 0 ≤ e.cur.toInt → room e.counters →
    e.cur.toInt ≤ (f e existed).2.cur.toInt ∧
      (counted (f e existed).1 → e.cur.toInt + 1 ≤ (f e existed).2.cur.toInt ∧
        (existed = true → (f e existed).2.cur.toInt ≤ rate.toNat))

/-- A rate check does not wrap. -/
def CheckFits (fraction : ℚ) (c : Counters) : Prop := (decayed c.prev fraction).toInt + c.cur.toInt + 1 < 2 ^ 63

/-- A penalty does not wrap. -/
def PenaltyFits (l : AppRateLimiter) (c : Counters) : Prop := c.cur.toInt + l.penalty.toInt < 2 ^ 63

theorem add_toInt {a b : Int64} (hlo : -2 ^ 63 ≤ a.toInt + b.toInt) (hhi : a.toInt + b.toInt < 2 ^ 63) :
    (a + b).toInt = a.toInt + b.toInt := by
  rw [Int64.toInt_add]
  exact Int.bmod_eq_of_le_mul_two (by omega) (by omega)

theorem toInt64_le (rate : UInt64) : rate.toInt64.toInt ≤ rate.toNat := by
  have h : rate.toInt64.toInt = (rate.toNat : Int).bmod (2 ^ 64) := BitVec.toInt_eq_toNat_bmod _
  have hlt := rate.toNat_lt
  rw [h, Int.bmod_def]
  split <;> omega

theorem penalty_pos (l : AppRateLimiter) : 1 ≤ l.penalty.toInt := by
  have hone : (1 : Int64).toInt = 1 := rfl
  change 1 ≤ (if l.serviceRatePerWindow.toInt64 / 4 ≤ 1 then 1 else l.serviceRatePerWindow.toInt64 / 4).toInt
  split
  · exact le_rfl
  · rename_i h
    rw [Int64.le_iff_toInt_le, hone] at h
    omega

theorem rateCheck_counts (l : AppRateLimiter) {fraction : ℚ} (hf : fraction ≤ 1) :
    Counts l.serviceRatePerWindow (CheckFits fraction) (· = false) (l.rateCheck fraction) where
  links := by
    intro e existed
    unfold rateCheck
    split
    · exact ⟨rfl, rfl⟩
    · split <;> exact ⟨rfl, rfl⟩
  fresh := by
    intro w
    unfold CheckFits
    rw [decayed_zero]
    have h0 : (0 : Int64).toInt = 0 := rfl
    dsimp only
    rw [h0]
    decide
  keeps := by
    intro e existed
    unfold rateCheck
    split
    · exact ⟨rfl, rfl⟩
    · split <;> exact ⟨rfl, rfl⟩
  grows := by
    intro e existed hprev hcur hroom
    have hdec : 0 ≤ (decayed e.prev fraction).toInt := decayed_nonneg hprev hf
    have hone : (1 : Int64).toInt = 1 := rfl
    have hroom' : (decayed e.prev fraction).toInt + e.cur.toInt + 1 < 2 ^ 63 := hroom
    have hadd : (e.cur + 1).toInt = e.cur.toInt + 1 := add_toInt (by omega) (by omega)
    have hsum : (decayed e.prev fraction + e.cur).toInt = (decayed e.prev fraction).toInt + e.cur.toInt :=
      add_toInt (by omega) (by omega)
    have hsum1 : (decayed e.prev fraction + e.cur + 1).toInt = (decayed e.prev fraction).toInt + e.cur.toInt + 1 := by
      rw [add_toInt (by omega) (by omega), hsum, hone]
    unfold rateCheck
    cases existed with
    | false =>
      rw [if_pos (by decide)]
      dsimp only
      exact ⟨by omega, fun _ => ⟨by omega, fun h => by cases h⟩⟩
    | true =>
      rw [if_neg (by decide)]
      split
      · exact ⟨le_rfl, fun h => by cases h⟩
      · rename_i hle
        rw [Int64.lt_iff_toInt_lt, hsum1] at hle
        have := toInt64_le l.serviceRatePerWindow
        dsimp only
        exact ⟨by omega, fun _ => ⟨by omega, fun _ => by omega⟩⟩

theorem penalize_counts (l : AppRateLimiter) :
    Counts l.serviceRatePerWindow (PenaltyFits l) (fun _ => False) l.penalize where
  links := fun _ _ => ⟨rfl, rfl⟩
  fresh := by
    intro w
    have := l.penalty.toInt_lt
    unfold PenaltyFits
    have h0 : (0 : Int64).toInt = 0 := rfl
    rw [h0]
    omega
  keeps := fun _ _ => ⟨rfl, rfl⟩
  grows := by
    intro e existed _ hcur hroom
    have hpos := l.penalty_pos
    have hroom' : e.cur.toInt + l.penalty.toInt < 2 ^ 63 := hroom
    refine ⟨?_, False.elim⟩
    have hadd : (e.cur + l.penalty).toInt = e.cur.toInt + l.penalty.toInt := add_toInt (by omega) hroom'
    change e.cur.toInt ≤ (e.cur + l.penalty).toInt
    omega

/-- Two limiters with the same configuration. -/
def Same (l l' : AppRateLimiter) : Prop := ∃ buckets evictions, l' = { l with buckets := buckets, evictions := evictions }

theorem Same.refl (l : AppRateLimiter) : Same l l := ⟨l.buckets, l.evictions, rfl⟩

theorem Same.trans {l₁ l₂ l₃ : AppRateLimiter} (h : Same l₁ l₂) (h' : Same l₂ l₃) : Same l₁ l₃ := by
  obtain ⟨b, e, rfl⟩ := h
  obtain ⟨b', e', rfl⟩ := h'
  exact ⟨b', e', rfl⟩

/-- Every bucket is linked and within its bound. -/
structure Valid (l : AppRateLimiter) : Prop where
  size : 1 ≤ l.maxBucketSize
  lru : ∀ i, ∃ ks, (l.buckets i).Lru ks ∧ ks.length ≤ l.maxBucketSize

/-- No counter is negative. -/
def NonNeg (l : AppRateLimiter) : Prop :=
  ∀ i k c, (l.buckets i).counters k = some c → 0 ≤ c.prev.toInt ∧ 0 ≤ c.cur.toInt

variable {rate : UInt64} {room : Counters → Prop} {counted : Bool → Prop}
  {f : Entry AppKey → Bool → Bool × Entry AppKey} {i j : Fin numBuckets} {k key : AppKey} {w : Int64}
  {ks : List AppKey}

theorem new_valid (maxCacheSize : Nat) (maxAppPeerRate : UInt64) (window : Duration) (seed : UInt64) (salt : Bytes) :
    (new maxCacheSize maxAppPeerRate window seed salt).Valid := by
  refine ⟨?_, fun _ => ⟨[], Bucket.empty_lru, Nat.zero_le _⟩⟩
  unfold new
  dsimp only
  split
  · omega
  · rename_i h
    exact Nat.pos_of_ne_zero h

theorem new_nonNeg (maxCacheSize : Nat) (maxAppPeerRate : UInt64) (window : Duration) (seed : UInt64) (salt : Bytes) :
    (new maxCacheSize maxAppPeerRate window seed salt).NonNeg := fun _ _ _ h => nomatch h

/-- **One lookup**: it never panics, only its bucket changes, and the closure sees the counters of the window. -/
theorem withEntry_spec (hlru : (l.buckets i).Lru ks) (key : AppKey) (w : Int64) (hf : Counts rate room counted f) :
    ∃ e b' evictions,
      l.withEntry i key w f =
        some ((f e (decide (key ∈ Bucket.roomFor l.maxBucketSize ks))).1,
          { l with buckets := Function.update l.buckets i b', evictions := evictions }) ∧
      e.counters = (if key ∈ Bucket.roomFor l.maxBucketSize ks then (l.buckets i).found key w else ⟨0, 0, w⟩) ∧
      b'.Lru (key :: (Bucket.roomFor l.maxBucketSize ks).erase key) ∧
      b'.counters key = some (f e (decide (key ∈ Bucket.roomFor l.maxBucketSize ks))).2.counters ∧
      ∀ x ∈ Bucket.roomFor l.maxBucketSize ks, x ≠ key → b'.counters x = (l.buckets i).counters x := by
  obtain ⟨e, b', evicted, hb', he, hlru', hkey, hothers⟩ := hlru.withEntry (m := l.maxBucketSize) key w hf.links
  exact ⟨e, b', if evicted then l.evictions + 1 else l.evictions, by unfold withEntry; rw [hb']; rfl, he, hlru', hkey,
    hothers⟩

/-- A bucket with an entry replaced is still valid. -/
theorem withEntry_valid (h : l.Valid) (hf : Counts rate room counted f) {r : Bool}
    (hstep : l.withEntry i key w f = some (r, l')) : l'.Valid ∧ Same l l' := by
  obtain ⟨ks, hlru, hlen⟩ := h.lru i
  obtain ⟨e, b', ev, hspec, -, hlru', -, -⟩ := withEntry_spec hlru key w hf
  rw [hspec] at hstep
  obtain ⟨-, rfl⟩ := Prod.mk.inj (Option.some.inj hstep)
  refine ⟨⟨h.size, fun j => ?_⟩, _, _, rfl⟩
  dsimp only
  by_cases hj : j = i
  · subst hj
    rw [Function.update_self]
    exact ⟨_, hlru', Bucket.length_roomFor h.size hlen key⟩
  · rw [Function.update_of_ne hj]
    exact h.lru j

theorem found_nonNeg (h : l.NonNeg) (i : Fin numBuckets) (key : AppKey) (w : Int64) :
    0 ≤ ((l.buckets i).found key w).prev.toInt ∧ 0 ≤ ((l.buckets i).found key w).cur.toInt := by
  have h0 : (0 : Int64).toInt = 0 := rfl
  unfold Bucket.found
  rcases hlook : (l.buckets i).entries.lookup key with _ | e
  · exact ⟨le_rfl, le_rfl⟩
  · have he := h i key e.counters (by unfold Bucket.counters; rw [hlook]; rfl)
    dsimp only
    unfold Entry.roll
    split
    · exact he
    · split
      · exact ⟨he.2, le_rfl⟩
      · exact ⟨le_rfl, le_rfl⟩

theorem found_interval (b : Bucket AppKey) (key : AppKey) (w : Int64) : (b.found key w).interval = w := by
  unfold Bucket.found
  rcases b.entries.lookup key with _ | e
  · rfl
  · dsimp only
    unfold Entry.roll
    split
    · assumption
    · split <;> rfl

/-- The counters that the closure sees. -/
theorem seen_spec (hn : l.NonNeg) (hroom : room ((l.buckets i).found key w)) (hf : Counts rate room counted f)
    {e : Entry AppKey} {known : Prop} [Decidable known]
    (he : e.counters = (if known then (l.buckets i).found key w else ⟨0, 0, w⟩)) :
    0 ≤ e.prev.toInt ∧ 0 ≤ e.cur.toInt ∧ e.interval = w ∧ room e.counters := by
  have hprev : e.prev = e.counters.prev := rfl
  have hcur : e.cur = e.counters.cur := rfl
  have hint : e.interval = e.counters.interval := rfl
  rw [hprev, hcur, hint, he]
  split
  · exact ⟨(found_nonNeg hn i key w).1, (found_nonNeg hn i key w).2, found_interval _ key w, hroom⟩
  · exact ⟨le_rfl, le_rfl, rfl, hf.fresh w⟩

theorem withEntry_nonNeg (h : l.Valid) (hn : l.NonNeg) (hf : Counts rate room counted f)
    (hroom : room ((l.buckets i).found key w)) {r : Bool} (hstep : l.withEntry i key w f = some (r, l')) :
    l'.NonNeg := by
  obtain ⟨ks, hlru, hlen⟩ := h.lru i
  obtain ⟨e, b', ev, hspec, he, hlru', hkey, hothers⟩ := withEntry_spec hlru key w hf
  rw [hspec] at hstep
  obtain ⟨-, rfl⟩ := Prod.mk.inj (Option.some.inj hstep)
  obtain ⟨hprev, hcur, -, hroom'⟩ := seen_spec hn hroom hf he
  intro j k c hc
  dsimp only at hc
  by_cases hj : j = i
  · subst hj
    rw [Function.update_self] at hc
    by_cases hk : k = key
    · subst hk
      rw [hkey] at hc
      cases hc
      refine ⟨?_, hcur.trans (hf.grows _ _ hprev hcur hroom').1⟩
      change 0 ≤ (f e _).2.prev.toInt
      rw [(hf.keeps _ _).1]
      exact hprev
    · have hmem := hlru'.mem k (by rw [hc]; rfl)
      have hroomk : k ∈ Bucket.roomFor l.maxBucketSize ks :=
        List.mem_of_mem_erase ((List.mem_cons.1 hmem).resolve_left hk)
      rw [hothers k hroomk hk] at hc
      exact hn j k c hc
  · rw [Function.update_of_ne hj] at hc
    exact hn j k c hc

/-! ## A window -/

/-- The keys of a bucket used in the window are its most recent ones, and the counter of `k` bounds the `n` admissions it
had. -/
structure Tally (l : AppRateLimiter) (i : Fin numBuckets) (k : AppKey) (w : Int64) (used : Finset AppKey) (n : Nat)
    (recent rest : List AppKey) : Prop where
  lru : (l.buckets i).Lru (recent ++ rest)
  recent_used : ∀ x ∈ recent, x ∈ used
  counter : n = 0 ∨ k ∈ recent ∧ ∃ c, (l.buckets i).counters k = some c ∧ c.interval = w ∧ (n : Int) ≤ c.cur.toInt ∧
    n ≤ l.serviceRatePerWindow.toNat

variable {used : Finset AppKey} {n : Nat} {recent rest : List AppKey}

/-- With room among the recent keys, the one that goes is none of them. -/
theorem roomFor_append {m : Nat} (h : recent.length < m) (rest : List AppKey) :
    ∃ rest', Bucket.roomFor m (recent ++ rest) = recent ++ rest' := by
  unfold Bucket.roomFor
  split
  · rename_i hfull
    have hne : rest ≠ [] := by
      rintro rfl
      rw [List.append_nil] at hfull
      omega
    exact ⟨rest.dropLast, List.dropLast_append_of_ne_nil hne⟩
  · exact ⟨rest, rfl⟩

theorem erase_append (key : AppKey) (recent rest : List AppKey) :
    ∃ rest', (recent ++ rest).erase key = recent.erase key ++ rest' := by
  by_cases h : key ∈ recent
  · exact ⟨rest, List.erase_append_left _ h⟩
  · exact ⟨rest.erase key, by rw [List.erase_append_right _ h, List.erase_of_not_mem h]⟩

theorem Tally.recent_lt (h : l.Tally i k w used n recent rest) (hused : used.card < l.maxBucketSize) :
    recent.length < l.maxBucketSize := by
  have hnodup := (List.nodup_append.1 h.lru.linked.nodup).1
  have hsub : recent.toFinset ⊆ used := fun x hx => h.recent_used x (List.mem_toFinset.1 hx)
  calc recent.length = recent.toFinset.card := (List.toFinset_card_of_nodup hnodup).symm
    _ ≤ used.card := Finset.card_le_card hsub
    _ < l.maxBucketSize := hused

/-- The counters found at a key that was already counted in the window. -/
theorem found_of_interval {c : Counters} {b : Bucket AppKey} (h : b.counters key = some c) (hw : c.interval = w) :
    b.found key w = c := by
  unfold Bucket.counters at h
  obtain ⟨e, he, rfl⟩ := Option.map_eq_some_iff.1 h
  unfold Bucket.found
  rw [he]
  dsimp only
  unfold Entry.roll
  rw [if_pos (show e.interval = w from hw)]

/-- **A lookup in the window** keeps the tally, and one that counts for `k` adds to it. -/
theorem Tally.withEntry (h : l.Tally i k w used n recent rest) (hv : l.Valid) (hn : l.NonNeg)
    (hf : Counts l.serviceRatePerWindow room counted f) (hroom : room ((l.buckets j).found key w))
    (hrate : 1 ≤ l.serviceRatePerWindow.toNat) (hused : used.card < l.maxBucketSize) (hkey : j = i → key ∈ used)
    {r : Bool} (hstep : l.withEntry j key w f = some (r, l')) :
    ∃ recent' rest', l'.Tally i k w used n recent' rest' ∧
      (j = i → key = k → counted r → l'.Tally i k w used (n + 1) recent' rest') := by
  by_cases hj : j = i
  · subst hj
    obtain ⟨e, b', ev, hspec, he, hlru', hself, hothers⟩ := withEntry_spec h.lru key w hf
    rw [hspec] at hstep
    obtain ⟨rfl, rfl⟩ := Prod.mk.inj (Option.some.inj hstep)
    obtain ⟨hprev, hcur, hint, hroom'⟩ := seen_spec hn hroom hf he
    obtain ⟨rest₁, hrest₁⟩ := roomFor_append (h.recent_lt hused) rest
    obtain ⟨rest₂, hrest₂⟩ := erase_append key recent rest₁
    rw [hrest₁] at he hlru' hself hothers
    rw [hrest₂] at hlru'
    rw [hrest₁]
    have hused' : ∀ x ∈ key :: recent.erase key, x ∈ used := by
      intro x hx
      rcases List.mem_cons.1 hx with rfl | hx
      · exact hkey rfl
      · exact h.recent_used x (List.mem_of_mem_erase hx)
    obtain ⟨hgrow, hcount⟩ := hf.grows e (decide (key ∈ recent ++ rest₁)) hprev hcur hroom'
    -- a recent key is found with the count it was left with
    have hseen : ∀ x, x = key → x ∈ recent → ∀ c, (l.buckets j).counters x = some c → c.interval = w →
        e.cur = c.cur := by
      rintro x rfl hmem c hc hcw
      rw [if_pos (List.mem_append_left _ hmem), found_of_interval hc hcw] at he
      exact congrArg Counters.cur he
    refine ⟨key :: recent.erase key, rest₂, ⟨?_, hused', ?_⟩, fun _ hk hcounted => ⟨?_, hused', .inr ?_⟩⟩
    · dsimp only
      rw [Function.update_self]
      exact hlru'
    · dsimp only
      rw [Function.update_self]
      refine h.counter.imp_right fun ⟨hmem, c, hc, hcw, hle, hrate'⟩ => ?_
      by_cases hk : k = key
      · subst hk
        have hcur' : e.cur = c.cur := hseen k rfl hmem c hc hcw
        refine ⟨List.mem_cons_self, _, hself, (hf.keeps _ _).2.trans hint, ?_, hrate'⟩
        change (n : Int) ≤ (f e _).2.cur.toInt
        rw [← hcur'] at hle
        omega
      · refine ⟨List.mem_cons_of_mem _ ((List.mem_erase_of_ne hk).2 hmem), c, ?_, hcw, hle, hrate'⟩
        rw [hothers k (List.mem_append_left _ hmem) hk]
        exact hc
    · dsimp only
      rw [Function.update_self]
      exact hlru'
    · dsimp only
      rw [Function.update_self]
      subst hk
      obtain ⟨hmore, hbound⟩ := hcount hcounted
      refine ⟨List.mem_cons_self, _, hself, (hf.keeps _ _).2.trans hint, ?_, ?_⟩
      · change ((n + 1 : Nat) : Int) ≤ (f e _).2.cur.toInt
        rcases h.counter with rfl | ⟨hmem, c, hc, hcw, hle, -⟩
        · push_cast
          omega
        · rw [← hseen key rfl hmem c hc hcw] at hle
          push_cast
          omega
      · rcases h.counter with rfl | ⟨hmem, c, hc, hcw, hle, -⟩
        · exact hrate
        · have hb := hbound (decide_eq_true (List.mem_append_left _ hmem))
          rw [← hseen key rfl hmem c hc hcw] at hle
          omega
  · obtain ⟨ks, hlru, -⟩ := hv.lru j
    obtain ⟨e, b', ev, hspec, -⟩ := withEntry_spec hlru key w hf
    rw [hspec] at hstep
    obtain ⟨-, rfl⟩ := Prod.mk.inj (Option.some.inj hstep)
    have hsame : Function.update l.buckets j b' i = l.buckets i := Function.update_of_ne (Ne.symm hj) _ _
    refine ⟨recent, rest, ⟨?_, h.recent_used, ?_⟩, fun hji => absurd hji hj⟩
    · dsimp only
      rw [hsame]
      exact h.lru
    · dsimp only
      rw [hsame]
      exact h.counter

/-! ## Calls -/

/-- No counter that the loop over `keys` looks up wraps. -/
def KeysFit (w : Int64) (f : Entry AppKey → Bool → Bool × Entry AppKey) (room : Counters → Prop) :
    List (Fin numBuckets × AppKey) → AppRateLimiter → Prop
  | [], _ => True
  | (i, key) :: keys, l =>
    room ((l.buckets i).found key w) ∧ ∀ l', l.withEntry i key w f = some (false, l') → KeysFit w f room keys l'

variable {keys : List (Fin numBuckets × AppKey)} {r : Bool}

theorem forKeys_valid (hf : Counts rate room counted f) : ∀ {keys : List (Fin numBuckets × AppKey)} {l : AppRateLimiter},
    l.Valid → forKeys w f keys l = some (r, l') → l'.Valid ∧ Same l l'
  | [], l, hv, h => by
    obtain ⟨-, rfl⟩ := Prod.mk.inj (Option.some.inj h)
    exact ⟨hv, .refl l⟩
  | (i, key) :: keys, l, hv, h => by
    unfold forKeys at h
    split at h
    · cases h
    · rename_i l₁ hstep
      obtain ⟨-, rfl⟩ := Prod.mk.inj (Option.some.inj h)
      exact withEntry_valid hv hf hstep
    · rename_i l₁ hstep
      obtain ⟨hv₁, hs₁⟩ := withEntry_valid hv hf hstep
      obtain ⟨hv₂, hs₂⟩ := forKeys_valid hf hv₁ h
      exact ⟨hv₂, hs₁.trans hs₂⟩

/-- What every lookup keeps, the loop keeps. -/
theorem forKeys_invariant {P : AppRateLimiter → Prop} : ∀ {keys : List (Fin numBuckets × AppKey)} {l : AppRateLimiter},
    (∀ l₁ l₂ j key r, (j, key) ∈ keys → P l₁ → room ((l₁.buckets j).found key w) →
      l₁.withEntry j key w f = some (r, l₂) → P l₂) →
    P l → KeysFit w f room keys l → forKeys w f keys l = some (r, l') → P l'
  | [], l, _, hP, _, h => by
    obtain ⟨-, rfl⟩ := Prod.mk.inj (Option.some.inj h)
    exact hP
  | (i, key) :: keys, l, hstep, hP, hfit, h => by
    obtain ⟨hroom, hrest⟩ := hfit
    unfold forKeys at h
    split at h
    · cases h
    · rename_i l₁ hl₁
      obtain ⟨-, rfl⟩ := Prod.mk.inj (Option.some.inj h)
      exact hstep l _ i key true List.mem_cons_self hP hroom hl₁
    · rename_i l₁ hl₁
      have hP₁ := hstep l l₁ i key false List.mem_cons_self hP hroom hl₁
      exact forKeys_invariant (fun l₁ l₂ j key r hmem => hstep l₁ l₂ j key r (List.mem_cons_of_mem _ hmem)) hP₁
        (hrest l₁ hl₁) h

/-- The closure of a call, what it needs not to wrap, and when it counts. -/
def closure (l : AppRateLimiter) : Call → Entry AppKey → Bool → Bool × Entry AppKey
  | .shouldDropAt _ _ now => l.rateCheck (l.fraction now)
  | .penalizeEvalError _ _ _ => l.penalize

def closureFits (l : AppRateLimiter) : Call → Counters → Prop
  | .shouldDropAt _ _ now => CheckFits (l.fraction now)
  | .penalizeEvalError _ _ _ => l.PenaltyFits

def closureCounts : Call → Bool → Prop
  | .shouldDropAt _ _ _ => (· = false)
  | .penalizeEvalError _ _ _ => fun _ => False

theorem closure_counts (l : AppRateLimiter) (c : Call) :
    Counts l.serviceRatePerWindow (l.closureFits c) (closureCounts c) (l.closure c) := by
  cases c with
  | shouldDropAt txgroup origin now => exact l.rateCheck_counts (l.fraction_le_one now)
  | penalizeEvalError txgroup origin now => exact l.penalize_counts

variable {blake2b256 : Bytes → Bytes} {c : Call} {ans : Option Bool}

/-- **What a call can do**: nothing, or the loop over the keys of its group. -/
theorem perform_cases (h : l.perform blake2b256 c = some (ans, l')) :
    l' = l ∧ l.callKeys blake2b256 c = [] ∨
      ∃ w r, l.interval c.nowNanos = some w ∧ forKeys w (l.closure c) (l.callKeys blake2b256 c) l = some (r, l') ∧
        (ans = some false → closureCounts c r) := by
  cases c with
  | shouldDropAt txgroup origin now =>
    obtain ⟨⟨drop, l₁⟩, hdrop, heq⟩ := Option.map_eq_some_iff.1 h
    obtain ⟨rfl, rfl⟩ := Prod.mk.inj heq
    unfold shouldDropAt at hdrop
    have hcall : l.callKeys blake2b256 (.shouldDropAt txgroup origin now) =
        (l.keysOf blake2b256 txgroup origin).getD [] := rfl
    rw [hcall]
    rcases hkeys : l.keysOf blake2b256 txgroup origin with _ | keys
    · rw [hkeys] at hdrop
      obtain ⟨-, rfl⟩ := Prod.mk.inj (Option.some.inj hdrop)
      exact .inl ⟨rfl, rfl⟩
    · rw [hkeys] at hdrop
      dsimp only at hdrop
      split at hdrop
      · rename_i hempty
        obtain ⟨-, rfl⟩ := Prod.mk.inj (Option.some.inj hdrop)
        exact .inl ⟨rfl, List.isEmpty_iff.1 hempty⟩
      · obtain ⟨w, hw, hloop⟩ := Option.bind_eq_some_iff.1 hdrop
        exact .inr ⟨w, drop, hw, hloop, fun hans => Option.some.inj hans⟩
  | penalizeEvalError txgroup origin now =>
    obtain ⟨l₁, hpen, heq⟩ := Option.map_eq_some_iff.1 h
    obtain ⟨rfl, rfl⟩ := Prod.mk.inj heq
    unfold penalizeEvalError at hpen
    have hcall : l.callKeys blake2b256 (.penalizeEvalError txgroup origin now) =
        (l.keysOf blake2b256 txgroup origin).getD [] := rfl
    rw [hcall]
    rcases hkeys : l.keysOf blake2b256 txgroup origin with _ | keys
    · rw [hkeys] at hpen
      cases Option.some.inj hpen
      exact .inl ⟨rfl, rfl⟩
    · rw [hkeys] at hpen
      dsimp only at hpen
      split at hpen
      · rename_i hempty
        cases Option.some.inj hpen
        exact .inl ⟨rfl, List.isEmpty_iff.1 hempty⟩
      · obtain ⟨w, hw, hloop⟩ := Option.bind_eq_some_iff.1 hpen
        obtain ⟨⟨r, l₂⟩, hkeysLoop, rfl⟩ := Option.map_eq_some_iff.1 hloop
        exact .inr ⟨w, r, hw, hkeysLoop, fun hans => by cases hans⟩

/-- No counter that a call looks up wraps. -/
def CallFits (blake2b256 : Bytes → Bytes) (l : AppRateLimiter) (c : Call) : Prop :=
  ∀ w, l.interval c.nowNanos = some w → KeysFit w (l.closure c) (l.closureFits c) (l.callKeys blake2b256 c) l

/-- No counter wraps in a run. -/
def Fits (blake2b256 : Bytes → Bytes) : List Call → AppRateLimiter → Prop
  | [], _ => True
  | c :: calls, l => l.CallFits blake2b256 c ∧ Fits blake2b256 calls (l.after blake2b256 c)

theorem after_cases (blake2b256 : Bytes → Bytes) (l : AppRateLimiter) (c : Call) :
    l.after blake2b256 c = l ∨
      ∃ w r, l.interval c.nowNanos = some w ∧
        forKeys w (l.closure c) (l.callKeys blake2b256 c) l = some (r, l.after blake2b256 c) := by
  unfold after
  rcases h : l.perform blake2b256 c with _ | ⟨ans, l'⟩
  · exact .inl rfl
  · rcases perform_cases h with ⟨rfl, -⟩ | ⟨w, r, hw, hloop, -⟩
    · exact .inl rfl
    · exact .inr ⟨w, r, hw, hloop⟩

theorem after_valid (blake2b256 : Bytes → Bytes) (hv : l.Valid) (c : Call) :
    (l.after blake2b256 c).Valid ∧ Same l (l.after blake2b256 c) := by
  rcases after_cases blake2b256 l c with h | ⟨w, r, -, hloop⟩
  · rw [h]
    exact ⟨hv, .refl l⟩
  · exact forKeys_valid (l.closure_counts c) hv hloop

/-- Every state of a run is valid. -/
theorem run_valid (blake2b256 : Bytes → Bytes) : ∀ (calls : List Call) {l : AppRateLimiter}, l.Valid →
    (l.run blake2b256 calls).Valid ∧ Same l (l.run blake2b256 calls)
  | [], l, hv => ⟨hv, .refl l⟩
  | c :: calls, l, hv => by
    obtain ⟨hv₁, hs₁⟩ := after_valid blake2b256 hv c
    obtain ⟨hv₂, hs₂⟩ := run_valid blake2b256 calls hv₁
    exact ⟨hv₂, hs₁.trans hs₂⟩

theorem after_nonNeg (hv : l.Valid) (hn : l.NonNeg) (hfit : l.CallFits blake2b256 c) :
    (l.after blake2b256 c).NonNeg := by
  rcases after_cases blake2b256 l c with h | ⟨w, r, hw, hloop⟩
  · rw [h]
    exact hn
  · have hcounts := l.closure_counts c
    refine (forKeys_invariant (P := fun l => l.Valid ∧ l.NonNeg) (fun l₁ l₂ j key r _ h hroom hstep => ?_) ⟨hv, hn⟩
      (hfit w hw) hloop).2
    exact ⟨(withEntry_valid h.1 hcounts hstep).1, withEntry_nonNeg h.1 h.2 hcounts hroom hstep⟩

theorem run_nonNeg : ∀ (calls : List Call) {l : AppRateLimiter}, l.Valid → l.NonNeg → Fits blake2b256 calls l →
    (l.run blake2b256 calls).NonNeg
  | [], _, _, hn, _ => hn
  | c :: calls, _, hv, hn, hfit =>
    run_nonNeg calls (after_valid blake2b256 hv c).1 (after_nonNeg hv hn hfit.1) hfit.2

theorem fits_append : ∀ (history calls : List Call) {l : AppRateLimiter}, Fits blake2b256 (history ++ calls) l →
    Fits blake2b256 history l ∧ Fits blake2b256 calls (l.run blake2b256 history)
  | [], _, _, h => ⟨trivial, h⟩
  | _ :: history, calls, _, h =>
    have ⟨h₁, h₂⟩ := fits_append history calls h.2
    ⟨⟨h.1, h₁⟩, h₂⟩

/-- **A call in the window** adds at most the admission it is to the tally. -/
theorem Tally.after (h : l.Tally i k w used n recent rest) (hv : l.Valid) (hn : l.NonNeg)
    (hfit : l.CallFits blake2b256 c) (hrate : 1 ≤ l.serviceRatePerWindow.toNat) (hused : used.card < l.maxBucketSize)
    (hw : l.interval c.nowNanos = some w) (hkeys : ∀ key, (i, key) ∈ l.callKeys blake2b256 c → key ∈ used) :
    ∃ recent' rest', (l.after blake2b256 c).Tally i k w used
      (n + if l.Admits blake2b256 (i, k) c then 1 else 0) recent' rest' := by
  have hcounts := l.closure_counts c
  by_cases hadmits : l.Admits blake2b256 (i, k) c
  · rw [if_pos hadmits]
    obtain ⟨hsingle, hans⟩ := hadmits
    obtain ⟨⟨ans, l'⟩, hperform, hfalse⟩ := Option.map_eq_some_iff.1 hans
    have hafter : l.after blake2b256 c = l' := by
      unfold AppRateLimiter.after
      rw [hperform]
      rfl
    rw [hafter]
    rcases perform_cases hperform with ⟨-, hnil⟩ | ⟨w', r, hw', hloop, hcounted⟩
    · rw [hsingle] at hnil
      cases hnil
    · rw [hw] at hw'
      cases hw'
      have hfits := hfit w hw
      rw [hsingle] at hloop hfits
      have hstep : l.withEntry i k w (l.closure c) = some (r, l') := by
        unfold forKeys at hloop
        split at hloop
        · cases hloop
        · rename_i l₁ hstep
          rw [hstep]
          exact hloop
        · rename_i l₁ hstep
          rw [hstep]
          exact hloop
      obtain ⟨recent', rest', -, hmore⟩ := h.withEntry hv hn hcounts hfits.1 hrate hused
        (fun _ => hkeys k (by rw [hsingle]; exact List.mem_cons_self)) hstep
      exact ⟨recent', rest', hmore rfl rfl (hcounted hfalse)⟩
  · rw [if_neg hadmits, Nat.add_zero]
    rcases after_cases blake2b256 l c with heq | ⟨w', r, hw', hloop⟩
    · rw [heq]
      exact ⟨recent, rest, h⟩
    · rw [hw] at hw'
      cases hw'
      refine (forKeys_invariant
        (P := fun l₁ => l₁.Valid ∧ l₁.NonNeg ∧ Same l l₁ ∧ ∃ recent rest, l₁.Tally i k w used n recent rest)
        (fun l₁ l₂ j key r hmem hP hroom hstep => ?_) ⟨hv, hn, .refl l, recent, rest, h⟩ (hfit w hw) hloop).2.2.2
      obtain ⟨hv₁, hn₁, ⟨b, ev, rfl⟩, recent₁, rest₁, ht₁⟩ := hP
      obtain ⟨hv₂, hs₂⟩ := withEntry_valid hv₁ hcounts hstep
      obtain ⟨recent₂, rest₂, ht₂, -⟩ := ht₁.withEntry hv₁ hn₁ hcounts hroom hrate hused
        (fun hj => hkeys key (by rw [← hj]; exact hmem)) hstep
      exact ⟨hv₂, withEntry_nonNeg hv₁ hn₁ hcounts hroom hstep, Same.trans ⟨b, ev, rfl⟩ hs₂, recent₂, rest₂, ht₂⟩

/-- **A run within the window** admits a key no more often than its counter allows. -/
theorem Tally.admissions : ∀ (calls : List Call) {l : AppRateLimiter} {n : Nat} {recent rest : List AppKey},
    l.Tally i k w used n recent rest → l.Valid → l.NonNeg → Fits blake2b256 calls l →
    1 ≤ l.serviceRatePerWindow.toNat → used.card < l.maxBucketSize →
    (∀ c ∈ calls, l.interval c.nowNanos = some w) →
    (∀ c ∈ calls, ∀ key, (i, key) ∈ l.callKeys blake2b256 c → key ∈ used) →
    n + AppRateLimiter.admissions blake2b256 (i, k) calls l ≤ l.serviceRatePerWindow.toNat
  | [], l, n, recent, rest, h, _, _, _, _, _, _, _ => by
    rcases h.counter with rfl | ⟨-, c, -, -, -, hle⟩
    · exact Nat.zero_le _
    · exact hle
  | c :: calls, l, n, recent, rest, h, hv, hn, hfit, hrate, hused, hw, hkeys => by
    obtain ⟨recent', rest', h'⟩ :=
      h.after hv hn hfit.1 hrate hused (hw c List.mem_cons_self) (hkeys c List.mem_cons_self)
    obtain ⟨hv', b, ev, hsame⟩ := after_valid blake2b256 hv c
    have hn' := after_nonNeg hv hn hfit.1
    have hfit' := hfit.2
    unfold AppRateLimiter.admissions
    rw [← Nat.add_assoc]
    rw [hsame] at h' hv' hn' hfit' ⊢
    exact Tally.admissions calls h' hv' hn' hfit' hrate hused
      (fun c hc => hw c (List.mem_cons_of_mem _ hc)) (fun c hc => hkeys c (List.mem_cons_of_mem _ hc))

/-- **The application rate limit.**  After any history no bucket holds more than its bound.  In any run within one
window in which no counter wraps, a key of a bucket that sees fewer keys than it holds is admitted at most as often as
the rate allows. -/
theorem rate_limit_holds (blake2b256 : Bytes → Bytes) (maxCacheSize : Nat) (maxAppPeerRate : UInt64) (window : Duration)
    (seed : UInt64) (salt : Bytes) (history calls : List Call) :
    let l := new maxCacheSize maxAppPeerRate window seed salt
    (∀ i, ((l.run blake2b256 history).buckets i).len ≤ l.maxBucketSize) ∧
      ∀ i k w, 1 ≤ l.serviceRatePerWindow → Fits blake2b256 (history ++ calls) l →
        (∀ c ∈ calls, l.interval c.nowNanos = some w) → (l.usedKeys blake2b256 i calls).card < l.maxBucketSize →
        admissions blake2b256 (i, k) calls (l.run blake2b256 history) ≤ l.serviceRatePerWindow.toNat := by
  intro l
  have hv₀ : l.Valid := new_valid _ _ _ _ _
  obtain ⟨hv, b, ev, hsame⟩ := run_valid blake2b256 history hv₀
  refine ⟨fun i => ?_, fun i k w hrate hfit hw hused => ?_⟩
  · obtain ⟨ks, hlru, hlen⟩ := hv.lru i
    rw [hlru.len_eq]
    rw [hsame] at hlen
    exact hlen
  · obtain ⟨hfit₁, hfit₂⟩ := fits_append history calls hfit
    have hn := run_nonNeg history hv₀ (new_nonNeg _ _ _ _ _) hfit₁
    obtain ⟨ks, hlru, -⟩ := hv.lru i
    have htally : (l.run blake2b256 history).Tally i k w (l.usedKeys blake2b256 i calls) 0 [] ks :=
      ⟨hlru, fun x hx => (by cases hx), .inl rfl⟩
    have hkeys : ∀ c ∈ calls, ∀ key, (i, key) ∈ l.callKeys blake2b256 c → key ∈ l.usedKeys blake2b256 i calls := by
      intro c hc key hkey
      unfold usedKeys
      rw [List.mem_toFinset, List.mem_map]
      exact ⟨(i, key), List.mem_filter.2 ⟨List.mem_flatMap.2 ⟨c, hc, hkey⟩, decide_eq_true rfl⟩, rfl⟩
    rw [hsame] at htally hv hn hfit₂ ⊢
    have hle := htally.admissions calls hv hn hfit₂ (UInt64.le_iff_toNat_le.1 hrate) hused hw hkeys
    rw [Nat.zero_add] at hle
    exact hle

/-- A group of one call of application 1. -/
def oneCall : List AppTxn := [⟨.appl, 1, none, none⟩]

/-- A limiter at a rate of one, and the key of the group in it. -/
def oneLimiter : AppRateLimiter := new 10 1 (Duration.fromSecs 1) 0 (List.replicate 16 0)

def oneKey : Fin numBuckets × AppKey := (⟨98, by decide⟩, digestKey id 1 (List.replicate 16 0) [])

/-- Of two such groups in one window the second is dropped. -/
theorem rate_limit_holds_second_dropped :
    admissions id oneKey [.shouldDropAt oneCall [] 5, .shouldDropAt oneCall [] 6] oneLimiter = 1 := by
  have hkeys : oneLimiter.callKeys id (.shouldDropAt oneCall [] 5) = [oneKey] := by decide
  have hfound : ((oneLimiter.after id (.shouldDropAt oneCall [] 5)).buckets oneKey.1).found oneKey.2 0 = ⟨0, 1, 0⟩ := by
    decide
  have hfit : Fits id [.shouldDropAt oneCall [] 5, .shouldDropAt oneCall [] 6] oneLimiter := by
    refine ⟨fun w _ => ?_, fun w hw => ?_, trivial⟩
    · rw [hkeys]
      exact ⟨(closure_counts _ (.shouldDropAt oneCall [] 5)).fresh w, fun _ _ => trivial⟩
    · obtain rfl : w = 0 := by
        have h0 : (oneLimiter.after id (.shouldDropAt oneCall [] 5)).interval 6 = some 0 := by decide
        exact Option.some.inj (hw.symm.trans h0)
      refine ⟨?_, fun _ _ => trivial⟩
      change CheckFits _ (((oneLimiter.after id (.shouldDropAt oneCall [] 5)).buckets oneKey.1).found oneKey.2 0)
      rw [hfound]
      unfold CheckFits
      dsimp only
      rw [decayed_zero]
      decide
  have hfirst : oneLimiter.Admits id oneKey (.shouldDropAt oneCall [] 5) := by decide
  refine Nat.le_antisymm ?_ (by unfold admissions; rw [if_pos hfirst]; exact Nat.le_add_right _ _)
  exact (rate_limit_holds id 10 1 (Duration.fromSecs 1) 0 (List.replicate 16 0) []
    [.shouldDropAt oneCall [] 5, .shouldDropAt oneCall [] 6]).2 _ _ 0 (by decide) hfit (by decide) (by decide)
/-- A bucket of one entry does not limit the only key it sees. -/
theorem full_bucket_admits :
    ¬∀ (blake2b256 : Bytes → Bytes) (maxCacheSize : Nat) (maxAppPeerRate : UInt64) (window : Duration) (seed : UInt64)
      (salt : Bytes) (calls : List Call) (i : Fin numBuckets) (k : AppKey) (w : Int64),
      let l := new maxCacheSize maxAppPeerRate window seed salt
      1 ≤ l.serviceRatePerWindow → (∀ c ∈ calls, l.interval c.nowNanos = some w) →
        (l.usedKeys blake2b256 i calls).card ≤ l.maxBucketSize →
        admissions blake2b256 (i, k) calls l ≤ l.serviceRatePerWindow.toNat := by
  intro h
  have := h id 128 1 (Duration.fromSecs 1) 0 (List.replicate 16 0)
    [.shouldDropAt oneCall [] 5, .shouldDropAt oneCall [] 5] ⟨98, by decide⟩
    (digestKey id 1 (List.replicate 16 0) []) 0 (by decide) (by decide) (by decide)
  exact absurd this (by decide)

end AppRateLimiter
end Pool
end Algod
