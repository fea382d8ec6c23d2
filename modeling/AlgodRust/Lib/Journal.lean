import Mathlib.Data.List.AList
/-!
# Journal — maps whose writes can be unwound

A journal keeps, beside a map, what every write since it was opened replaced: the entry before, or nothing.  Unwinding
puts the entries back, newest first.  However many writes were made, and however often to one key, unwinding leaves a
map in which every lookup finds what it found when the journal was opened (`unwind_writeAll`).  A length of the journal
is a mark: whatever changes follow, unwinding down to the mark finds what was there when it was set (`Extends.unwindTo`).
-/

variable {α : Type} {β : α → Type}

/-- A map and the entries its writes replaced, newest first. -/
structure Journal (β : α → Type) where
  map : AList β
  undo : List (Sigma fun a => Option (β a))

namespace Journal

variable [DecidableEq α]

/-- Every lookup finds the same. -/
def Same (m m' : AList β) : Prop := ∀ a, m'.lookup a = m.lookup a

theorem Same.refl (m : AList β) : Same m m := fun _ => rfl

theorem Same.trans {m m' m'' : AList β} (h : Same m m') (h' : Same m' m'') : Same m m'' := fun a => (h' a).trans (h a)

/-- Put an entry back, or remove a key that was absent. -/
def restore (m : AList β) (u : Sigma fun a => Option (β a)) : AList β :=
  match u.2 with
  | some b => m.insert u.1 b
  | none => m.erase u.1

/-- Open a journal. -/
def start (m : AList β) : Journal β := ⟨m, []⟩

def write (j : Journal β) (w : Sigma β) : Journal β :=
  ⟨j.map.insert w.1 w.2, ⟨w.1, j.map.lookup w.1⟩ :: j.undo⟩

def writeAll (j : Journal β) (ws : List (Sigma β)) : Journal β := ws.foldl write j

def unwind (j : Journal β) : AList β := j.undo.foldl restore j.map

theorem restore_self (m : AList β) (a : α) (u : Option (β a)) : (restore m ⟨a, u⟩).lookup a = u := by
  cases u with
  | none => exact AList.lookup_erase _ m
  | some b => exact AList.lookup_insert m

theorem restore_of_ne (m : AList β) {a a' : α} (u : Option (β a)) (h : a' ≠ a) :
    (restore m ⟨a, u⟩).lookup a' = m.lookup a' := by
  cases u with
  | none => exact AList.lookup_erase_ne h
  | some b => exact AList.lookup_insert_ne h

theorem Same.restore {m m' : AList β} (h : Same m m') (u : Sigma fun a => Option (β a)) :
    Same (restore m u) (restore m' u) := by
  intro a'
  obtain ⟨a, b⟩ := u
  by_cases ha : a' = a
  · subst ha
    rw [restore_self, restore_self]
  · rw [restore_of_ne m' b ha, restore_of_ne m b ha, h]

/-- What a write replaced, put back. -/
theorem same_restore_insert (m : AList β) (w : Sigma β) :
    Same m (restore (m.insert w.1 w.2) ⟨w.1, m.lookup w.1⟩) := by
  intro a'
  by_cases ha : a' = w.1
  · subst ha
    rw [restore_self]
  · rw [restore_of_ne _ _ ha, AList.lookup_insert_ne ha]

theorem same_foldl_restore : ∀ (us : List (Sigma fun a => Option (β a))) {m m' : AList β}, Same m m' →
    Same (us.foldl restore m) (us.foldl restore m')
  | [], _, _, h => h
  | u :: us, _, _, h => same_foldl_restore us (h.restore u)

/-- Writing the values of a function at some keys. -/
theorem lookup_writeAll_map (v : ∀ a, β a) : ∀ (ks : List α) (j : Journal β) (a : α),
    (j.writeAll (ks.map fun k => ⟨k, v k⟩)).map.lookup a = if a ∈ ks then some (v a) else j.map.lookup a
  | [], j, a => by simp [writeAll]
  | k :: ks, j, a => by
    have hrest := lookup_writeAll_map v ks (j.write ⟨k, v k⟩) a
    have hstep : (j.write ⟨k, v k⟩).map.lookup a = if a = k then some (v a) else j.map.lookup a := by
      by_cases ha : a = k
      · subst ha
        rw [if_pos rfl]
        exact AList.lookup_insert j.map
      · rw [if_neg ha]
        exact AList.lookup_insert_ne ha
    rw [hstep] at hrest
    rw [List.map_cons]
    show ((j.write ⟨k, v k⟩).writeAll _).map.lookup a = _
    rw [hrest]
    by_cases hks : a ∈ ks
    · simp [hks]
    · by_cases ha : a = k
      · simp [ha]
      · simp [hks, ha]

/-! ## Marks -/

/-- Remove a key. -/
def remove (j : Journal β) (a : α) : Journal β := ⟨j.map.erase a, ⟨a, j.map.lookup a⟩ :: j.undo⟩

/-- Undo the newest changes, until the journal has the length of a mark. -/
def unwindTo (j : Journal β) (mark : Nat) : Journal β :=
  ⟨(j.undo.take (j.undo.length - mark)).foldl restore j.map, j.undo.drop (j.undo.length - mark)⟩

theorem unwindTo_zero (j : Journal β) : (j.unwindTo 0).map = j.unwind := by
  unfold unwindTo unwind
  rw [Nat.sub_zero, List.take_length]

theorem length_unwindTo (j : Journal β) {mark : Nat} (h : mark ≤ j.undo.length) : (j.unwindTo mark).undo.length = mark := by
  unfold unwindTo
  rw [List.length_drop]
  omega

/-- A later mark on the way back makes no difference. -/
theorem unwindTo_unwindTo (j : Journal β) {mark mark' : Nat} (h' : mark' ≤ mark) (h : mark ≤ j.undo.length) :
    (j.unwindTo mark).unwindTo mark' = j.unwindTo mark' := by
  have hlen := length_unwindTo j h
  have hsplit : j.undo.length - mark' = (j.undo.length - mark) + (mark - mark') := by omega
  unfold unwindTo at hlen ⊢
  simp only [hlen]
  rw [hsplit, List.take_add, List.foldl_append, List.drop_drop]

/-- A journal that has come from another one by changes: the newest entries undo to where it was. -/
def Extends (j j' : Journal β) : Prop := ∃ us, j'.undo = us ++ j.undo ∧ Same j.map (us.foldl restore j'.map)

theorem Extends.refl (j : Journal β) : Extends j j := ⟨[], rfl, Same.refl _⟩

theorem Extends.trans {j₁ j₂ j₃ : Journal β} (h : Extends j₁ j₂) (h' : Extends j₂ j₃) : Extends j₁ j₃ := by
  obtain ⟨us, hus, hsame⟩ := h
  obtain ⟨vs, hvs, hsame'⟩ := h'
  refine ⟨vs ++ us, by rw [hvs, hus, List.append_assoc], ?_⟩
  rw [List.foldl_append]
  exact hsame.trans (same_foldl_restore us hsame')

theorem extends_write (j : Journal β) (w : Sigma β) : Extends j (j.write w) :=
  ⟨[⟨w.1, j.map.lookup w.1⟩], rfl, same_restore_insert j.map w⟩

theorem extends_writeAll : ∀ (ws : List (Sigma β)) (j : Journal β), Extends j (j.writeAll ws)
  | [], j => .refl j
  | w :: ws, j => (extends_write j w).trans (extends_writeAll ws (j.write w))

theorem extends_remove (j : Journal β) (a : α) : Extends j (j.remove a) := by
  refine ⟨[⟨a, j.map.lookup a⟩], rfl, fun a' => ?_⟩
  by_cases ha : a' = a
  · subst ha
    exact restore_self _ _ _
  · exact (restore_of_ne _ _ ha).trans (AList.lookup_erase_ne ha)

theorem extends_removeAll : ∀ (ks : List α) (j : Journal β), Extends j (ks.foldl remove j)
  | [], j => .refl j
  | k :: ks, j => (extends_remove j k).trans (extends_removeAll ks (j.remove k))

/-- **Changes unwind to every mark set before them.** -/
theorem Extends.unwindTo {j j' : Journal β} (h : Extends j j') {mark : Nat} (hmark : mark ≤ j.undo.length) :
    Same (j.unwindTo mark).map (j'.unwindTo mark).map := by
  obtain ⟨us, hus, hsame⟩ := h
  have hlen : (us ++ j.undo).length - mark = us.length + (j.undo.length - mark) := by
    rw [List.length_append]
    omega
  unfold Journal.unwindTo
  rw [hus, hlen, List.take_length_add_append, List.foldl_append]
  exact same_foldl_restore _ hsame

theorem Extends.length_le {j j' : Journal β} (h : Extends j j') : j.undo.length ≤ j'.undo.length := by
  obtain ⟨us, hus, -⟩ := h
  rw [hus, List.length_append]
  omega

theorem lookup_removeAll : ∀ (ks : List α) (j : Journal β) (a : α),
    (ks.foldl remove j).map.lookup a = if a ∈ ks then none else j.map.lookup a
  | [], j, a => by simp
  | k :: ks, j, a => by
    rw [List.foldl_cons, lookup_removeAll ks (j.remove k) a]
    by_cases hks : a ∈ ks
    · simp [hks]
    · by_cases ha : a = k
      · subst ha
        simp [hks, remove, AList.lookup_erase]
      · simp [hks, ha, remove, AList.lookup_erase_ne ha]

end Journal
