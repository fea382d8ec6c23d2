import Mathlib.Data.List.AList
import Mathlib.Algebra.BigOperators.Group.Finset.Basic
import Mathlib.Algebra.GroupWithZero.Nat
/-!
# FinMap — finite maps with an order of insertion nobody may depend on

Mathlib's association lists, at a constant value type, with the few operations hash maps have beyond insertion and
removal: their values, and keeping the entries that meet a predicate.  Lemmas speak of lookups, never of the order of
the entries.
-/

abbrev FinMap (κ α : Type) : Type := AList (fun _ : κ => α)

namespace FinMap

variable {κ α : Type} [DecidableEq κ] {m : FinMap κ α}

def values (m : FinMap κ α) : List α := m.entries.map Sigma.snd

def isEmpty (m : FinMap κ α) : Bool := m.entries.isEmpty

/-- Keep the entries that meet `f`. -/
def retain (f : κ → α → Bool) (m : FinMap κ α) : FinMap κ α :=
  ⟨m.entries.filter (fun e => f e.1 e.2), m.nodupKeys.sublist List.filter_sublist⟩

/-- The value at a key, or a default that is not stored. -/
def getD (m : FinMap κ α) (k : κ) (d : α) : α := (m.lookup k).getD d

theorem mem_entries {k : κ} {a : α} : (⟨k, a⟩ : Sigma fun _ : κ => α) ∈ m.entries ↔ m.lookup k = some a :=
  AList.mem_lookup_iff.symm

theorem mem_values {a : α} : a ∈ values m ↔ ∃ k, m.lookup k = some a := by
  unfold values
  rw [List.mem_map]
  constructor
  · rintro ⟨⟨k, _⟩, he, rfl⟩
    exact ⟨k, mem_entries.1 he⟩
  · rintro ⟨k, hk⟩
    exact ⟨⟨k, a⟩, mem_entries.2 hk, rfl⟩

theorem mem_iff_lookup {k : κ} : k ∈ m ↔ ∃ a, m.lookup k = some a := by
  rw [← AList.lookup_isSome, Option.isSome_iff_exists]

theorem isEmpty_iff : isEmpty m = true ↔ ∀ k, m.lookup k = none := by
  constructor
  · intro h k
    rw [AList.lookup_eq_none]
    intro hk
    rw [isEmpty, List.isEmpty_iff] at h
    rw [AList.mem_keys, AList.keys, h] at hk
    cases hk
  · intro h
    rw [isEmpty, List.isEmpty_iff]
    apply List.eq_nil_iff_forall_not_mem.2
    rintro ⟨k, a⟩ he
    have := mem_entries.1 he
    rw [h k] at this
    cases this

theorem lookup_retain (f : κ → α → Bool) (m : FinMap κ α) (k : κ) :
    (retain f m).lookup k = (m.lookup k).filter (f k) := by
  apply Option.ext
  intro a
  rw [← mem_entries, Option.filter_eq_some_iff, ← mem_entries]
  exact List.mem_filter

theorem lookup_retain_of (f : κ → α → Bool) (m : FinMap κ α) {k : κ} (h : ∀ a, f k a = true) :
    (retain f m).lookup k = m.lookup k := by
  rw [lookup_retain]
  cases m.lookup k with
  | none => rfl
  | some a => exact Option.filter_some_pos (h a)

theorem lookup_insert_eq (m : FinMap κ α) (k k' : κ) (a : α) :
    (m.insert k a).lookup k' = if k' = k then some a else m.lookup k' := by
  split
  · rename_i h
    subst h
    exact AList.lookup_insert m
  · rename_i h
    exact AList.lookup_insert_ne h

theorem lookup_erase_eq (m : FinMap κ α) (k k' : κ) :
    (m.erase k).lookup k' = if k' = k then none else m.lookup k' := by
  split
  · rename_i h
    subst h
    exact AList.lookup_erase _ m
  · rename_i h
    exact AList.lookup_erase_ne h

theorem getD_insert (m : FinMap κ α) (k k' : κ) (a d : α) :
    getD (m.insert k a) k' d = if k' = k then a else getD m k' d := by
  unfold getD
  rw [lookup_insert_eq]
  split <;> rfl

theorem getD_retain_of (f : κ → α → Bool) (m : FinMap κ α) {k : κ} (d : α) (h : ∀ a, f k a = true) :
    getD (retain f m) k d = getD m k d := by
  unfold getD
  rw [lookup_retain_of f m h]

theorem getD_retain (f : κ → α → Bool) (m : FinMap κ α) (k : κ) (d : α) :
    getD (retain f m) k d = getD m k d ∨ getD (retain f m) k d = d := by
  unfold getD
  rw [lookup_retain]
  cases m.lookup k with
  | none => exact .inl rfl
  | some a =>
    by_cases hf : f k a = true
    · rw [Option.filter_some_pos hf]
      exact .inl rfl
    · rw [Option.filter_some_neg (Bool.eq_false_iff.2 hf)]
      exact .inr rfl

/-- A sum over the values whose summand depends on the key alone is a sum over the set of keys. -/
theorem sum_values (m : FinMap κ α) (f : α → Nat) (w : κ → Nat) (h : ∀ k a, m.lookup k = some a → f a = w k) :
    ((values m).map f).sum = ∑ k ∈ m.keys.toFinset, w k := by
  rw [List.sum_toFinset w m.keys_nodup, values, AList.keys, List.keys, List.map_map, List.map_map]
  congr 1
  apply List.map_congr_left
  rintro ⟨k, a⟩ he
  exact h k a (mem_entries.1 he)

/-- Values that name their own key list the keys. -/
theorem values_map_key (m : FinMap κ α) (f : α → κ) (h : ∀ k a, m.lookup k = some a → f a = k) :
    (values m).map f = m.keys := by
  rw [values, AList.keys, List.keys, List.map_map]
  apply List.map_congr_left
  rintro ⟨k, a⟩ he
  exact h k a (mem_entries.1 he)

/-! ## Totals -/

/-- The sum of `f` over the entries. -/
def total (f : κ → α → Nat) (m : FinMap κ α) : Nat := (m.entries.map (fun e => f e.1 e.2)).sum

omit [DecidableEq κ] in
theorem length_entries (m : FinMap κ α) : m.entries.length = total (fun _ _ => 1) m := by simp [total]

/-- Removing a key takes its summand out of a total. -/
theorem total_erase (f : κ → α → Nat) (m : FinMap κ α) (k : κ) :
    total f m = total f (m.erase k) + (m.lookup k).elim 0 (f k) := by
  have key : ∀ l : List (Sigma fun _ : κ => α), (l.map (fun e => f e.1 e.2)).sum =
      ((List.kerase k l).map (fun e => f e.1 e.2)).sum + (List.dlookup k l).elim 0 (f k) := by
    intro l
    induction l with
    | nil => rfl
    | cons e l ih =>
      obtain ⟨k', a⟩ := e
      by_cases hk : k = k'
      · subst hk
        have herase : List.kerase k (⟨k, a⟩ :: l) = l := List.kerase_cons_eq rfl
        rw [herase, List.dlookup_cons_eq, List.map_cons, List.sum_cons, Nat.add_comm]
        rfl
      · have herase : List.kerase k (⟨k', a⟩ :: l) = ⟨k', a⟩ :: List.kerase k l := List.kerase_cons_ne hk
        rw [herase, List.dlookup_cons_ne _ _ hk, List.map_cons, List.map_cons, List.sum_cons,
          List.sum_cons, ih, Nat.add_assoc]
  exact key m.entries

/-- Writing a key replaces its summand in a total. -/
theorem total_insert (f : κ → α → Nat) (m : FinMap κ α) (k : κ) (a : α) :
    total f (m.insert k a) + (m.lookup k).elim 0 (f k) = total f m + f k a := by
  have hinsert : total f (m.insert k a) = f k a + total f (m.erase k) := List.sum_cons
  rw [hinsert, total_erase f m k]
  omega

theorem le_total (f : κ → α → Nat) {k : κ} {a : α} (h : m.lookup k = some a) : f k a ≤ total f m := by
  rw [total_erase f m k, h]
  exact Nat.le_add_left _ _

theorem total_congr {f g : κ → α → Nat} (h : ∀ k a, m.lookup k = some a → f k a = g k a) :
    total f m = total g m := by
  unfold total
  congr 1
  apply List.map_congr_left
  rintro ⟨k, a⟩ he
  exact h k a (mem_entries.1 he)

/-- Where every entry of one map has its match in the other, at keys that an injection relates, the totals compare. -/
theorem total_le_total {κ' α' : Type} [DecidableEq κ'] (f : κ → α → Nat) (g : κ' → α' → Nat) {φ : κ → κ'}
    (hφ : Function.Injective φ) (m : FinMap κ α) (m' : FinMap κ' α')
    (h : ∀ k a, m.lookup k = some a → f k a ≤ (m'.lookup (φ k)).elim 0 (g (φ k))) : total f m ≤ total g m' := by
  -- by induction on the map that is matched, taking the match of its first entry out of the other
  induction m using AList.insertRec generalizing m' with
  | H0 => exact Nat.zero_le _
  | IH k a m hk ih =>
    have hnone : m.lookup k = none := AList.lookup_eq_none.2 hk
    have hfirst := h k a (AList.lookup_insert m)
    have hrest : total f m ≤ total g (m'.erase (φ k)) := by
      apply ih
      intro k' a' hk'
      have hne : k' ≠ k := by
        rintro rfl
        rw [hnone] at hk'
        cases hk'
      have hmatch := h k' a' ((AList.lookup_insert_ne hne).trans hk')
      rw [lookup_erase_eq, if_neg (hφ.ne hne)]
      exact hmatch
    have hinsert := total_insert f m k a
    rw [hnone, Option.elim_none, Nat.add_zero] at hinsert
    rw [hinsert, total_erase g m' (φ k)]
    exact Nat.add_le_add hrest hfirst

/-- A total over a finite set of keys that has all keys of the map, where a missing value counts for nothing. -/
theorem total_eq_sum (f : κ → α → Nat) (m : FinMap κ α) (d : α) (hd : ∀ k, f k d = 0) {K : Finset κ}
    (hK : ∀ k a, m.lookup k = some a → k ∈ K) : total f m = ∑ k ∈ K, f k (getD m k d) := by
  have hkeys : total f m = ∑ k ∈ m.keys.toFinset, f k (getD m k d) := by
    rw [List.sum_toFinset _ m.keys_nodup, total, AList.keys, List.keys, List.map_map]
    congr 1
    apply List.map_congr_left
    rintro ⟨k, a⟩ he
    unfold getD
    rw [Function.comp_apply, mem_entries.1 he]
    rfl
  rw [hkeys]
  apply Finset.sum_subset
  · intro k hk
    rw [List.mem_toFinset] at hk
    obtain ⟨a, ha⟩ := mem_iff_lookup.1 hk
    exact hK k a ha
  · intro k _ hk
    rw [List.mem_toFinset] at hk
    have hnone : m.lookup k = none := AList.lookup_eq_none.2 hk
    unfold getD
    rw [hnone]
    exact hd k

end FinMap
