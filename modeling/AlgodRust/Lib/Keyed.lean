import Mathlib.Data.List.Sort
import Mathlib.Order.Basic
/-!
# Keyed — lists sorted by a key

A list whose keys ascend strictly, and the place of a key in it: the first entry whose key is not below.  Where the key
occurs, its entry is there; it can be changed or removed there, and a new key can be put there, without losing the order.
-/
namespace Keyed

variable {α κ : Type} [LinearOrder κ] (key : α → κ) {xs : List α} {x : α}

/-- The keys ascend strictly. -/
def Ascending (xs : List α) : Prop := (xs.map key).Pairwise (· < ·)

/-- The place of the first entry whose key is not below `k`. -/
def place (k : κ) (xs : List α) : Nat := xs.findIdx (fun x => decide (k ≤ key x))

variable {key}

theorem ascending_cons : Ascending key (x :: xs) ↔ (∀ y ∈ xs, key x < key y) ∧ Ascending key xs := by
  unfold Ascending
  rw [List.map_cons, List.pairwise_cons, List.forall_mem_map]

theorem place_cons_of_le {k : κ} (h : k ≤ key x) : place key k (x :: xs) = 0 := by
  simp [place, List.findIdx_cons, h]

theorem place_cons_of_lt {k : κ} (h : key x < k) : place key k (x :: xs) = place key k xs + 1 := by
  simp [place, List.findIdx_cons, not_le.2 h]

/-- The entry of a key stands at its place. -/
theorem getElem?_place : ∀ {xs : List α}, Ascending key xs → ∀ {x : α}, x ∈ xs → xs[place key (key x) xs]? = some x
  | [], _, _, hx => (by cases hx)
  | z :: zs, h, x, hx => by
    obtain ⟨hz, hzs⟩ := ascending_cons.1 h
    rcases List.mem_cons.1 hx with rfl | hxs
    · rw [place_cons_of_le (le_refl _)]
      rfl
    · rw [place_cons_of_lt (hz x hxs), List.getElem?_cons_succ]
      exact getElem?_place hzs hxs

omit [LinearOrder κ] in
/-- Change the entry of a key and not its key. -/
theorem map_key_modify (f : α → α) (hf : ∀ x, key (f x) = key x) : ∀ (xs : List α) (i : Nat),
    (xs.modify i f).map key = xs.map key
  | [], i => by cases i <;> rfl
  | x :: xs, 0 => by simp [hf]
  | x :: xs, i + 1 => by
    rw [List.modify_succ_cons, List.map_cons, List.map_cons, map_key_modify f hf xs i]

/-- The entry of a key is where the search stops, and the others are around it. -/
theorem around_place (h : Ascending key xs) (hx : x ∈ xs) {y : α} :
    y ∈ xs ∧ key y ≠ key x ↔ y ∈ xs.take (place key (key x) xs) ∨ y ∈ xs.drop (place key (key x) xs + 1) := by
  obtain ⟨hi, hget⟩ := List.getElem?_eq_some_iff.1 (getElem?_place h hx)
  have hxs := (List.take_append_drop (place key (key x) xs) xs).symm
  rw [List.drop_eq_getElem_cons hi, hget] at hxs
  generalize xs.take (place key (key x) xs) = l, xs.drop (place key (key x) xs + 1) = r at hxs
  subst hxs
  unfold Ascending at h
  rw [List.map_append, List.map_cons, List.pairwise_append, List.pairwise_cons] at h
  obtain ⟨-, ⟨hr, -⟩, hlr⟩ := h
  rw [List.mem_append, List.mem_cons]
  constructor
  · rintro ⟨hy | rfl | hy, hne⟩
    · exact .inl hy
    · exact absurd rfl hne
    · exact .inr hy
  · rintro (hy | hy)
    · exact ⟨.inl hy, ne_of_lt (hlr _ (List.mem_map_of_mem hy) _ List.mem_cons_self)⟩
    · exact ⟨.inr (.inr hy), (ne_of_lt (hr _ (List.mem_map_of_mem hy))).symm⟩

theorem mem_modify_place {f : α → α} (h : Ascending key xs) (hx : x ∈ xs) {y : α} :
    y ∈ xs.modify (place key (key x) xs) f ↔ y = f x ∨ y ∈ xs ∧ key y ≠ key x := by
  obtain ⟨hi, hget⟩ := List.getElem?_eq_some_iff.1 (getElem?_place h hx)
  rw [around_place h hx, List.modify_eq_take_cons_drop hi, hget, List.mem_append, List.mem_cons, or_left_comm]

/-- Put a new key in its place. -/
theorem mem_insertIdx_place : ∀ {xs : List α} {x y : α},
    y ∈ xs.insertIdx (place key (key x) xs) x ↔ y = x ∨ y ∈ xs
  | [], x, y => by simp [place]
  | z :: zs, x, y => by
    rcases le_or_gt (key x) (key z) with hle | hlt
    · rw [place_cons_of_le hle, List.insertIdx_zero, List.mem_cons]
    · rw [place_cons_of_lt hlt, List.insertIdx_succ_cons, List.mem_cons, mem_insertIdx_place, List.mem_cons]
      constructor
      · rintro (rfl | rfl | hy)
        · exact .inr (.inl rfl)
        · exact .inl rfl
        · exact .inr (.inr hy)
      · rintro (rfl | rfl | hy)
        · exact .inr (.inl rfl)
        · exact .inl rfl
        · exact .inr (.inr hy)

theorem ascending_insertIdx_place : ∀ {xs : List α}, Ascending key xs → ∀ {x : α}, (∀ y ∈ xs, key y ≠ key x) →
    Ascending key (xs.insertIdx (place key (key x) xs) x)
  | [], _, x, _ => by simp [place, Ascending]
  | z :: zs, h, x, hx => by
    obtain ⟨hz, hzs⟩ := ascending_cons.1 h
    rcases le_or_gt (key x) (key z) with hle | hlt
    · rw [place_cons_of_le hle, List.insertIdx_zero]
      have hxz : key x < key z := lt_of_le_of_ne hle (hx z List.mem_cons_self).symm
      refine ascending_cons.2 ⟨fun y hy => ?_, h⟩
      rcases List.mem_cons.1 hy with rfl | hy
      · exact hxz
      · exact lt_trans hxz (hz y hy)
    · rw [place_cons_of_lt hlt, List.insertIdx_succ_cons]
      refine ascending_cons.2 ⟨fun y hy => ?_, ?_⟩
      · rcases mem_insertIdx_place.1 hy with rfl | hy
        · exact hlt
        · exact hz y hy
      · exact ascending_insertIdx_place hzs fun y hy => hx y (List.mem_cons_of_mem _ hy)

/-- Remove the entry of a key. -/
theorem mem_eraseIdx_place (h : Ascending key xs) (hx : x ∈ xs) {y : α} :
    y ∈ xs.eraseIdx (place key (key x) xs) ↔ y ∈ xs ∧ key y ≠ key x := by
  rw [around_place h hx, List.eraseIdx_eq_take_drop_succ, List.mem_append]

theorem Ascending.eraseIdx (h : Ascending key xs) (i : Nat) : Ascending key (xs.eraseIdx i) :=
  List.Pairwise.sublist ((List.eraseIdx_sublist xs i).map key) h

end Keyed
