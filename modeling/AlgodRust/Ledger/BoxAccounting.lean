import AlgodRust.Ledger.Boxes
/-!
# BoxAccounting — boxes are a map of byte strings, and accounts count them

The abstract side is a map from an application and a name to bytes, and for every operation what it answers and what it
leaves there (`BoxCall.spec`).  On the other side stand the store, the totals in the accounts of the applications and
the references of the group.  A successful operation changes one box as the map says and keeps the totals exact
(`perform_refines`), and so does every sequence of them.
-/
namespace Algod
namespace Ledger

open Msgpack (Bytes)

/-! ## The map -/

/-- What an operation answers where a box has these contents, and the contents it leaves; `none` where it is an
error. -/
def BoxCall.spec (contents : Option Bytes) : BoxCall → Option (BoxAnswer × Option Bytes)
  | .get => some (.lookup (contents.getD []) contents.isSome, contents)
  | .put value => some (.done, some value)
  | .del => some (.flag contents.isSome, none)
  | .len => some (.length (contents.getD []).length contents.isSome, contents)
  | .create size => some (.flag contents.isNone, some (contents.getD (List.replicate size 0)))
  | .extract offset length => contents.bind fun bs =>
    if offset + length ≤ bs.length then some (.bytes ((bs.drop offset).take length), some bs) else none
  | .replace offset value => contents.bind fun bs =>
    if offset + value.length ≤ bs.length then
      some (.done, some (bs.take offset ++ value ++ bs.drop (offset + value.length)))
    else none
  | .resize newSize => contents.map fun bs => (.done, some ((bs ++ List.replicate newSize 0).take newSize))
  | .splice start length value => contents.map fun bs =>
    (.done, some ((bs.take start ++ value ++ bs.drop (start + length) ++ List.replicate bs.length 0).take bs.length))

/-- The answers to requests, one after the other, and the map they leave. -/
def specAll (m : Nat × Bytes → Option Bytes) : List BoxRequest →
    Option (List BoxAnswer × (Nat × Bytes → Option Bytes))
  | [] => some ([], m)
  | r :: rs => do
    let (answer, contents) ← r.call.spec (m (r.appId, r.name))
    let (answers, m) ← specAll (Function.update m (r.appId, r.name) contents) rs
    some (answer :: answers, m)

/-- The boxes of a store as such a map. -/
def Store.boxMap (s : Store) : Nat × Bytes → Option Bytes := fun key => s.getBox key.1 key.2

/-! ## Counting -/

def countOf (app : Nat) (boxes : FinMap (Nat × Bytes) Bytes) : Nat :=
  FinMap.total (fun key _ => if key.1 = app then 1 else 0) boxes

def bytesIn (app : Nat) (boxes : FinMap (Nat × Bytes) Bytes) : Nat :=
  FinMap.total (fun key contents => if key.1 = app then key.2.length + contents.length else 0) boxes

/-- The account of every application counts its boxes and the bytes of their names and contents. -/
def BoxesCounted (appAddress : Nat → Address) (s : Store) : Prop :=
  ∀ app < u64Bound, (s.getOrDefaultAccount (appAddress app)).totalBoxes = countOf app s.boxes ∧
    (s.getOrDefaultAccount (appAddress app)).totalBoxBytes = bytesIn app s.boxes

section Counting

variable (boxes : FinMap (Nat × Bytes) Bytes) (app : Nat) (name contents : Bytes)

theorem countOf_insert : countOf app (boxes.insert (app, name) contents) +
    (if (boxes.lookup (app, name)).isSome then 1 else 0) = countOf app boxes + 1 := by
  have h := FinMap.total_insert (fun key (_ : Bytes) => if key.1 = app then 1 else 0) boxes (app, name) contents
  rw [if_pos rfl] at h
  unfold countOf
  rw [← h]
  cases boxes.lookup (app, name) <;> simp

theorem bytesIn_insert : bytesIn app (boxes.insert (app, name) contents) +
    (boxes.lookup (app, name)).elim 0 (fun old => name.length + old.length) =
      bytesIn app boxes + (name.length + contents.length) := by
  have h := FinMap.total_insert
    (fun key (contents : Bytes) => if key.1 = app then key.2.length + contents.length else 0)
    boxes (app, name) contents
  rw [if_pos rfl] at h
  unfold bytesIn
  rw [← h]
  cases boxes.lookup (app, name) <;> simp

theorem countOf_erase : countOf app boxes = countOf app (boxes.erase (app, name)) +
    (if (boxes.lookup (app, name)).isSome then 1 else 0) := by
  have h := FinMap.total_erase (fun key (_ : Bytes) => if key.1 = app then 1 else 0) boxes (app, name)
  unfold countOf
  rw [h]
  cases boxes.lookup (app, name) <;> simp

theorem bytesIn_erase : bytesIn app boxes = bytesIn app (boxes.erase (app, name)) +
    (boxes.lookup (app, name)).elim 0 (fun old => name.length + old.length) := by
  have h := FinMap.total_erase (fun key (contents : Bytes) => if key.1 = app then key.2.length + contents.length else 0)
    boxes (app, name)
  unfold bytesIn
  rw [h]
  cases boxes.lookup (app, name) <;> simp

variable {app}

/-- A total that counts nothing of an application does not see its boxes change. -/
theorem total_insert_of_zero {f : Nat × Bytes → Bytes → Nat} (hf : ∀ contents, f (app, name) contents = 0) :
    FinMap.total f (boxes.insert (app, name) contents) = FinMap.total f boxes := by
  have h := FinMap.total_insert f boxes (app, name) contents
  rw [hf] at h
  cases hl : boxes.lookup (app, name) with
  | none => rw [hl] at h; exact h
  | some old =>
    rw [hl] at h
    simp only [Option.elim_some, hf] at h
    exact h

theorem total_erase_of_zero {f : Nat × Bytes → Bytes → Nat} (hf : ∀ contents, f (app, name) contents = 0) :
    FinMap.total f (boxes.erase (app, name)) = FinMap.total f boxes := by
  have h := FinMap.total_erase f boxes (app, name)
  cases hl : boxes.lookup (app, name) with
  | none => rw [hl] at h; exact h.symm
  | some old =>
    rw [hl] at h
    simp only [Option.elim_some, hf] at h
    exact h.symm

/-- What is counted fits into the bytes the boxes take. -/
theorem counted_le (app : Nat) : countOf app boxes + bytesIn app boxes ≤ FinMap.total boxFootprint boxes := by
  induction boxes using AList.insertRec with
  | H0 => exact Nat.zero_le _
  | IH key contents boxes hkey ih =>
    have hnone : boxes.lookup key = none := AList.lookup_eq_none.2 hkey
    have hall := FinMap.total_insert boxFootprint boxes key contents
    have hcount := FinMap.total_insert (fun key (_ : Bytes) => if key.1 = app then 1 else 0) boxes key contents
    have hbytes := FinMap.total_insert (fun key (contents : Bytes) =>
      if key.1 = app then key.2.length + contents.length else 0) boxes key contents
    rw [hnone] at hall hcount hbytes
    simp only [Option.elim_none, Nat.add_zero] at hall hcount hbytes
    unfold countOf bytesIn at ih ⊢
    have hfoot : boxFootprint key contents = 1 + key.2.length + contents.length := rfl
    rw [hall, hcount, hbytes, hfoot]
    split <;> omega

end Counting

/-! ## Writing to the store -/

section Writing

variable {appAddress : Nat → Address} {s : Store}

/-- Boxes of one application change together with the totals of its account. -/
theorem BoxesCounted.update (hinj : ∀ a < u64Bound, ∀ b < u64Bound, appAddress a = appAddress b → a = b)
    (h : BoxesCounted appAddress s) {app : Nat} (happ : app < u64Bound) {account : AccountData}
    {boxes : FinMap (Nat × Bytes) Bytes}
    (hcount : account.totalBoxes = countOf app boxes) (hbytes : account.totalBoxBytes = bytesIn app boxes)
    (hother : ∀ app', app' ≠ app → countOf app' boxes = countOf app' s.boxes ∧
      bytesIn app' boxes = bytesIn app' s.boxes) :
    BoxesCounted appAddress { s.setAccount (appAddress app) account with boxes := boxes } := by
  intro app' happ'
  have hacct : ({ s.setAccount (appAddress app) account with boxes := boxes } : Store).getOrDefaultAccount
    (appAddress app') =
      (s.setAccount (appAddress app) account).getOrDefaultAccount (appAddress app') := rfl
  rw [hacct, Store.getOrDefaultAccount_setAccount]
  by_cases heq : app' = app
  · subst heq
    rw [if_pos rfl]
    exact ⟨hcount, hbytes⟩
  · have hne : appAddress app' ≠ appAddress app := fun h => heq (hinj app' happ' app happ h)
    rw [if_neg hne]
    have hsame := hother app' heq
    exact ⟨(h app' happ').1.trans hsame.1.symm, (h app' happ').2.trans hsame.2.symm⟩

theorem insert_other (boxes : FinMap (Nat × Bytes) Bytes) (app : Nat) (name contents : Bytes) (app' : Nat)
    (hne : app' ≠ app) :
    countOf app' (boxes.insert (app, name) contents) = countOf app' boxes ∧
      bytesIn app' (boxes.insert (app, name) contents) = bytesIn app' boxes :=
  ⟨total_insert_of_zero boxes name contents (fun _ => if_neg hne.symm),
    total_insert_of_zero boxes name contents (fun _ => if_neg hne.symm)⟩

theorem erase_other (boxes : FinMap (Nat × Bytes) Bytes) (app : Nat) (name : Bytes) (app' : Nat) (hne : app' ≠ app) :
    countOf app' (boxes.erase (app, name)) = countOf app' boxes ∧
      bytesIn app' (boxes.erase (app, name)) = bytesIn app' boxes :=
  ⟨total_erase_of_zero boxes name (fun _ => if_neg hne.symm), total_erase_of_zero boxes name (fun _ => if_neg hne.symm)⟩

theorem setBox_eq_ok {s' : Store} {app : Nat} {name contents : Bytes} (h : s.setBox app name contents = .ok s') :
    FinMap.total boxFootprint (s.boxes.insert (app, name) contents) < u64Bound ∧
      s' = { s with boxes := s.boxes.insert (app, name) contents } := by
  unfold Store.setBox at h
  simp only at h
  split at h
  · rename_i hfits
    cases h
    exact ⟨hfits, rfl⟩
  · cases h

theorem boxMap_insert (s : Store) (boxes : FinMap (Nat × Bytes) Bytes) (app : Nat) (name contents : Bytes)
    (h : s.boxes = boxes.insert (app, name) contents) :
    s.boxMap = Function.update (fun key => boxes.lookup key) (app, name) (some contents) := by
  funext key
  unfold Store.boxMap Store.getBox
  rw [h, FinMap.lookup_insert_eq]
  by_cases hk : key = (app, name)
  · rw [hk, Function.update_self, if_pos rfl]
  · rw [Function.update_of_ne hk, if_neg hk]

end Writing

/-! ## Access -/

section Access

variable {τ : Type} {cap : CapacityOps τ} {c c' : BoxContext τ} {key : Nat × Bytes} {operation : BoxOperation}

/-- What finding out about a box leaves as it is: the store, and every box that was available still is. -/
structure Grants (c c' : BoxContext τ) : Prop where
  store : c'.store = c.store
  created : c'.createdApps = c.createdApps
  boxes : ∀ key, (c.availableBoxes.lookup key).isSome → (c'.availableBoxes.lookup key).isSome

theorem Grants.refl (c : BoxContext τ) : Grants c c := ⟨rfl, rfl, fun _ h => h⟩

theorem Grants.trans {c₁ c₂ c₃ : BoxContext τ} (h : Grants c₁ c₂) (h' : Grants c₂ c₃) : Grants c₁ c₃ :=
  ⟨h'.store.trans h.store, h'.created.trans h.created, fun key hk => h'.boxes key (h.boxes key hk)⟩

/-- Every box of an application that the group created is available. -/
def Listed (c : BoxContext τ) : Prop :=
  ∀ app ∈ c.createdApps, ∀ name, (c.store.getBox app name).isSome → (c.availableBoxes.lookup (app, name)).isSome

theorem Listed.grants (h : Listed c) (hg : Grants c c') : Listed c' := by
  intro app happ name hbox
  rw [hg.created] at happ
  rw [hg.store] at hbox
  exact hg.boxes _ (h app happ name hbox)

/-- Writing an available box keeps the boxes of new applications available. -/
theorem Listed.write {c : BoxContext τ} (h : Listed c) (hkey : (c.availableBoxes.lookup key).isSome)
    {s : Store} (hs : ∀ key', key' ≠ key → s.boxMap key' = c.store.boxMap key') : Listed { c with store := s } := by
  intro app happ name hbox
  by_cases heq : (app, name) = key
  · rw [heq]
    exact hkey
  · have hsame : s.getBox app name = c.store.getBox app name := hs (app, name) heq
    rw [show ({ c with store := s } : BoxContext τ).store.getBox app name = s.getBox app name from rfl, hsame] at hbox
    exact h app happ name hbox

theorem isSome_insert {boxes : FinMap (Nat × Bytes) Bool} {key key' : Nat × Bytes} {dirty : Bool}
    (h : (boxes.lookup key').isSome) : ((boxes.insert key dirty).lookup key').isSome := by
  rw [FinMap.lookup_insert_eq]
  split
  · rfl
  · exact h

theorem isSome_noteTarget {boxes : FinMap (Nat × Bytes) Bool} (h : (boxes.lookup key).isSome)
    (t : RefTarget) : ((noteTarget boxes t).lookup key).isSome := by
  unfold noteTarget
  split
  · split
    · exact h
    · exact isSome_insert h
  · exact h

theorem isSome_foldl {β : Type} {step : FinMap (Nat × Bytes) Bool → β → FinMap (Nat × Bytes) Bool}
    (hstep : ∀ boxes b, (boxes.lookup key).isSome → ((step boxes b).lookup key).isSome) :
    ∀ (l : List β) (boxes : FinMap (Nat × Bytes) Bool), (boxes.lookup key).isSome →
      ((l.foldl step boxes).lookup key).isSome
  | [], _, h => h
  | b :: l, boxes, h => isSome_foldl hstep l (step boxes b) (hstep boxes b h)

theorem ensureBoxesInitialized_grants (c : BoxContext τ) : Grants c (ensureBoxesInitialized cap c) := by
  unfold ensureBoxesInitialized
  split
  · exact Grants.refl c
  · exact ⟨rfl, rfl, fun key h => isSome_foldl (fun _ t hb => isSome_noteTarget hb t) _ _ h⟩

theorem reconcileWriteBudgetAndGrowIo_grants (cap : CapacityOps τ) (c : BoxContext τ) :
    Grants c (reconcileWriteBudgetAndGrowIo cap c) := by
  unfold reconcileWriteBudgetAndGrowIo
  split
  · exact Grants.refl c
  · split <;> exact ⟨rfl, rfl, fun _ h => h⟩

theorem checkReadBudget_grants (h : checkReadBudget cap c = .ok c') : Grants c c' := by
  unfold checkReadBudget at h
  split at h
  · cases h
    exact Grants.refl c
  split at h
  · cases h
    exact ⟨rfl, rfl, fun _ h => h⟩
  simp only at h
  have hkeep : ∀ (stored : List (Nat × Bytes)) key, (c.availableBoxes.lookup key).isSome →
      ((stored.foldl (fun boxes key => boxes.insert key false) c.availableBoxes).lookup key).isSome :=
    fun stored key => isSome_foldl (fun _ _ hb => isSome_insert hb) stored _
  split at h
  · split at h
    · cases h
    · cases h
      exact ⟨rfl, rfl, hkeep _⟩
  · split at h
    · cases h
    · cases h
      exact ⟨rfl, rfl, hkeep _⟩

/-- How a box was reached: it is available, or it belongs to a new application and was not available before. -/
theorem findAccess_spec {newAppAccess : Bool} (h : findAccess cap c key = .ok (newAppAccess, c')) :
    Grants c c' ∧ (newAppAccess = false → (c'.availableBoxes.lookup key).isSome) ∧
      (newAppAccess = true → key.1 ∈ c.createdApps ∧ c.availableBoxes.lookup key = none) := by
  unfold findAccess at h
  split at h
  · rename_i hsome
    cases h
    exact ⟨Grants.refl c, fun _ => hsome, fun hf => by cases hf⟩
  rename_i hnone
  split at h
  · rename_i hnew
    cases h
    refine ⟨⟨rfl, rfl, fun _ h => h⟩, (fun hf => by cases hf), fun _ => ⟨by simpa using hnew.1, by simpa using hnone⟩⟩
  split at h
  · have hlisted : ∀ t : Option τ, Grants c
      { c with availableBoxes := c.availableBoxes.insert key false, unnamedCapacity := t } :=
      fun t => ⟨rfl, rfl, fun _ h => isSome_insert h⟩
    have hself : ((c.availableBoxes.insert key false).lookup key).isSome := by
      rw [FinMap.lookup_insert_eq, if_pos rfl]
      rfl
    simp only at h
    split at h
    · cases h
      exact ⟨hlisted c.unnamedCapacity, fun _ => hself, fun hf => by cases hf⟩
    · split at h
      · cases h
      · cases h
        have hrec := fun t => reconcileWriteBudgetAndGrowIo_grants cap
          { c with availableBoxes := c.availableBoxes.insert key false, unnamedCapacity := some t }
        exact ⟨(hlisted _).trans (hrec _), fun _ => (hrec _).boxes key hself, fun hf => by cases hf⟩
  · cases h

theorem checkFamilyReentrancy_grants (h : checkFamilyReentrancy c = .ok c') : Grants c c' := by
  unfold checkFamilyReentrancy at h
  split at h
  · cases h
    exact Grants.refl c
  · split at h
    · cases h
    · cases h
      exact ⟨rfl, rfl, fun _ h => h⟩

theorem authorizeBoxAccess_grants {owner : Nat}
    (h : authorizeBoxAccess c owner operation = .ok c') : Grants c c' := by
  unfold authorizeBoxAccess at h
  split at h
  · cases h
  split at h
  · cases h
  split at h
  · unfold touchFamilyShared at h
    split at h
    · cases h
      exact ⟨rfl, rfl, fun _ h => h⟩
    · obtain ⟨c₁, hc, hc'⟩ := Run.map_eq_ok.1 h
      subst hc'
      exact (checkFamilyReentrancy_grants hc).trans ⟨rfl, rfl, fun _ h => h⟩
  · cases h
    exact Grants.refl c

theorem trackDirty_grants {createSize : Nat} {contents : Bytes} {present dirty : Bool}
    (h : trackDirty cap c key operation createSize contents present dirty = .ok c') :
    Grants c c' ∧ (c'.availableBoxes.lookup key).isSome := by
  unfold trackDirty at h
  simp only at h
  split at h
  · cases h
  · cases h
    have hrec := reconcileWriteBudgetAndGrowIo_grants cap
      { c with
        dirtyBytes := (dirtyAfter operation createSize contents present dirty c.dirtyBytes).1
        availableBoxes := c.availableBoxes.insert key
          (dirtyAfter operation createSize contents present dirty c.dirtyBytes).2 }
    refine ⟨⟨hrec.store, hrec.created, fun key' hk => hrec.boxes key' (isSome_insert hk)⟩, hrec.boxes key ?_⟩
    rw [FinMap.lookup_insert_eq, if_pos rfl]
    rfl

/-- **An access finds what the store holds**, and leaves the box available. -/
theorem availableAppBox_spec {appId : Nat} {name : Bytes}
    {createSize : Nat} {found : Option Bytes} (hlisted : Listed c)
    (h : availableAppBox cap c appId name operation createSize = .ok (found, c')) :
    Grants c c' ∧ (c'.availableBoxes.lookup (appId, name)).isSome ∧ found = c.store.getBox appId name := by
  unfold availableAppBox at h
  split at h
  · cases h
  split at h
  · cases h
  obtain ⟨c₁, h₁, h⟩ := Run.bind_eq_ok.1 h
  obtain ⟨⟨newAppAccess, c₂⟩, h₂, h⟩ := Run.bind_eq_ok.1 h
  obtain ⟨c₃, h₃, h⟩ := Run.bind_eq_ok.1 h
  have hg₁ : Grants c c₁ := (ensureBoxesInitialized_grants c).trans (checkReadBudget_grants h₁)
  obtain ⟨hg₂, havail, hnew⟩ := findAccess_spec h₂
  have hg₃ := authorizeBoxAccess_grants h₃
  have hg : Grants c c₃ := (hg₁.trans hg₂).trans hg₃
  have hfound : foundBox c₃ (appId, name) newAppAccess = c.store.getBox appId name := by
    unfold foundBox
    split
    · -- a box of a new application that were in the store would have been available
      rename_i htrue
      obtain ⟨hcreated, hnone⟩ := hnew htrue
      cases hbox : c.store.getBox appId name with
      | none => rfl
      | some contents =>
        have hsome := (hlisted.grants hg₁) appId hcreated name (by rw [hg₁.store, hbox]; rfl)
        rw [hnone] at hsome
        cases hsome
    · rw [hg.store]
  simp only at h
  rw [hfound] at h
  split at h
  · rename_i hcreate
    split at h
    · cases h
    · cases h
      refine ⟨hg, hg₃.boxes _ (havail ?_), rfl⟩
      cases hf : newAppAccess with
      | false => rfl
      | true =>
        rw [hf] at hfound
        rw [← hfound] at hcreate
        exact absurd hcreate.2 (by simp [foundBox])
  · obtain ⟨c₄, h₄, h⟩ := Run.bind_eq_ok.1 h
    cases h
    obtain ⟨hg₄, hkey⟩ := trackDirty_grants h₄
    exact ⟨hg.trans hg₄, hkey, rfl⟩

end Access

/-! ## Contents -/

section Contents

variable {contents value : Bytes}

theorem length_overwrite {start : Nat} (h : start + value.length ≤ contents.length) :
    (overwrite contents start value).length = contents.length := by
  simp only [overwrite, List.length_append, List.length_take, List.length_drop]
  omega

/-- Overwriting the zeros after some bytes appends to them. -/
theorem overwrite_zeros (bs value : Bytes) (n : Nat) :
    overwrite (bs ++ List.replicate n 0) bs.length value = bs ++ value ++ List.replicate (n - value.length) 0 := by
  unfold overwrite
  rw [List.take_left, List.append_assoc, List.append_assoc, List.drop_append, List.drop_eq_nil_of_le (by omega),
    List.nil_append, List.drop_replicate]
  congr 4
  omega

/-- A longer box is filled up with zeros. -/
theorem overwrite_grow {contents : Bytes} {n : Nat} (h : contents.length ≤ n) :
    overwrite (List.replicate n 0) 0 contents = (contents ++ List.replicate n 0).take n := by
  have hzeros := overwrite_zeros [] contents n
  rw [List.nil_append, List.nil_append, List.length_nil] at hzeros
  rw [hzeros, List.take_append, List.take_of_length_le h, List.take_replicate]
  congr 2
  omega

theorem spliced_eq {start stop : Nat} (hstart : start ≤ contents.length)
    (hvalue : value.length ≤ contents.length - start) :
    spliced contents start stop value =
      (contents.take start ++ value ++ contents.drop stop ++
        List.replicate contents.length 0).take contents.length := by
  have hlen : (contents.take start).length = start := List.length_take_of_le hstart
  have hfirst := overwrite_zeros [] (contents.take start) contents.length
  rw [List.nil_append, List.nil_append, List.length_nil, hlen] at hfirst
  have hsecond := overwrite_zeros (contents.take start) value (contents.length - start)
  rw [hlen] at hsecond
  have hboth : (contents.take start ++ value).length = start + value.length := by rw [List.length_append, hlen]
  have hkept : (contents.take start ++ value).take contents.length = contents.take start ++ value :=
    List.take_of_length_le (by rw [hboth]; omega)
  unfold spliced
  simp only [hfirst, hsecond]
  rw [List.append_assoc (contents.take start ++ value), List.take_append, hboth, hkept]
  split
  · rename_i htail
    have hthird := overwrite_zeros (contents.take start ++ value)
      ((contents.drop stop).take (min (contents.length - (start + value.length)) (contents.length - stop)))
      (contents.length - start - value.length)
    rw [hboth] at hthird
    rw [hthird, List.append_assoc]
    congr 1
    rw [List.take_append, List.take_replicate]
    simp only [List.length_take, List.length_drop]
    congr 1
    · apply List.ext_getElem?
      intro i
      simp only [List.getElem?_take, List.getElem?_drop]
      by_cases hi : i < contents.length - stop
      · have hiff : i < min (contents.length - (start + value.length)) (contents.length - stop) ↔
            i < contents.length - (start + value.length) := by omega
        simp only [hiff]
      · rw [List.getElem?_eq_none (by omega : contents.length ≤ stop + i)]
        split <;> split <;> rfl
    · congr 1
      omega
  · rename_i htail
    congr 1
    rw [List.take_append, List.take_replicate, List.length_drop]
    by_cases hs : stop < contents.length
    · have hfull : contents.length - (start + value.length) = 0 := by
        by_contra hpos
        exact htail ⟨by omega, hs⟩
      rw [hfull, List.take_zero, Nat.zero_sub, Nat.zero_min, List.nil_append]
      congr 1
      omega
    · rw [List.drop_eq_nil_of_le (Nat.le_of_not_lt hs), List.take_nil, List.nil_append]
      congr 1
      omega

theorem length_spliced {start stop : Nat} (hstart : start ≤ contents.length)
    (hvalue : value.length ≤ contents.length - start) :
    (spliced contents start stop value).length = contents.length := by
  rw [spliced_eq hstart hvalue]
  simp only [List.length_take, List.length_append, List.length_replicate]
  omega

end Contents

/-! ## What an operation can do -/

section Effects

variable {τ : Type} {cap : CapacityOps τ} {appAddress : Nat → Address} {c c' : BoxContext τ}

/-- What an operation does to a box and to the account that counts it, once the box is reached. -/
inductive BoxEffect (cap : CapacityOps τ) (appAddress : Nat → Address) (c : BoxContext τ) (app : Nat) (name : Bytes) :
    BoxContext τ → Prop
  | read {found : Option Bytes} {c₁ : BoxContext τ} (h : availableAppBox cap c app name .read 0 = .ok (found, c₁)) :
      BoxEffect cap appAddress c app name c₁
  | found {size : Nat} {old : Bytes} {c₁ : BoxContext τ}
      (h : availableAppBox cap c app name .create size = .ok (some old, c₁)) : BoxEffect cap appAddress c app name c₁
  | rewrite {size : Nat} {old contents : Bytes} {c₁ : BoxContext τ} {store : Store}
      (h : availableAppBox cap c app name .write size = .ok (some old, c₁)) (hlen : contents.length = old.length)
      (hset : c₁.store.setBox app name contents = .ok store) :
      BoxEffect cap appAddress c app name { c₁ with store := store }
  | newBox {operation : BoxOperation} {size : Nat} {contents : Bytes} {c₁ c' : BoxContext τ}
      (hop : operation = .create ∨ operation = .write)
      (h : availableAppBox cap c app name operation size = .ok (none, c₁)) (hlen : contents.length = size)
      (hwrite : writeBox c₁ (appAddress app) (countBox appAddress c₁ app name size) app name contents = .ok c') :
      BoxEffect cap appAddress c app name c'
  | resize {size bytes : Nat} {old contents : Bytes} {c₁ c' : BoxContext τ}
      (h : availableAppBox cap c app name .resize size = .ok (some old, c₁)) (hlen : contents.length = size)
      (hwrite : writeBox c₁ (appAddress app)
        { c₁.store.getOrDefaultAccount (appAddress app) with totalBoxBytes := bytes } app name contents = .ok c') :
      BoxEffect cap appAddress c app name c'
  | delete {boxes bytes : Nat} {found : Option Bytes} {c₁ : BoxContext τ}
      (h : availableAppBox cap c app name .delete 0 = .ok (found, c₁)) :
      BoxEffect cap appAddress c app name { c₁ with store := (c₁.store.setAccount (appAddress app)
        { c₁.store.getOrDefaultAccount (appAddress app) with
          totalBoxes := boxes, totalBoxBytes := bytes }).deleteBox app name }
  | absent {c₁ : BoxContext τ} (h : availableAppBox cap c app name .delete 0 = .ok (none, c₁)) :
      BoxEffect cap appAddress c app name c₁

/-- **A successful operation has one of these effects on its box.** -/
theorem perform_effect {r : BoxRequest} {answer : BoxAnswer} (h : perform cap appAddress c r = .ok (answer, c')) :
    BoxEffect cap appAddress c r.appId r.name c' := by
  unfold perform at h
  split at h <;> obtain ⟨p, hop, heq⟩ := Run.map_eq_ok.1 h <;> obtain ⟨-, rfl⟩ := Prod.mk.inj heq <;> clear h heq <;>
    obtain ⟨_, -, hop⟩ := Run.bind_eq_ok.1 hop <;> obtain ⟨⟨found, c₁⟩, haccess, hop⟩ := Run.bind_eq_ok.1 hop
  case h_1 => cases hop; exact .read haccess
  case h_2 =>
    cases found with
    | none => exact .newBox (.inr rfl) haccess rfl hop
    | some contents =>
      simp only at hop
      split at hop
      · cases hop
      · rename_i hlen
        obtain ⟨store, hset, hop⟩ := Run.bind_eq_ok.1 hop
        cases hop
        exact .rewrite haccess (by omega) hset
  case h_3 =>
    cases found with
    | none => cases hop; exact .absent haccess
    | some contents => cases hop; exact .delete haccess
  case h_4 => cases hop; exact .read haccess
  case h_5 =>
    cases found with
    | none =>
      obtain ⟨c₂, hwrite, hop⟩ := Run.bind_eq_ok.1 hop
      cases hop
      exact .newBox (.inl rfl) haccess List.length_replicate hwrite
    | some contents => cases hop; exact .found haccess
  all_goals
    cases found with
    | none => cases hop
    | some contents => ?_
  case h_6 =>
    simp only at hop
    split at hop
    · cases hop
    · cases hop; exact .read haccess
  case h_7 =>
    simp only at hop
    split at hop
    · cases hop
    · rename_i hend
      obtain ⟨store, hset, hop⟩ := Run.bind_eq_ok.1 hop
      cases hop
      exact .rewrite haccess (length_overwrite (Nat.le_of_not_lt hend)) hset
  case h_8 =>
    refine .resize haccess ?_ hop
    split
    · rw [length_overwrite (by rw [List.length_replicate]; omega), List.length_replicate]
    · exact List.length_take_of_le (by omega)
  case h_9 =>
    simp only at hop
    split at hop
    · cases hop
    rename_i hstart
    split at hop
    · cases hop
    split at hop
    · cases hop
    split at hop
    · cases hop
    rename_i hvalue
    obtain ⟨store, hset, hop⟩ := Run.bind_eq_ok.1 hop
    cases hop
    exact .rewrite haccess (length_spliced (Nat.le_of_not_lt hstart) (Nat.le_of_not_lt hvalue)) hset

end Effects

/-! ## Operations refine the map -/

section Refinement

variable {τ : Type} {cap : CapacityOps τ} {appAddress : Nat → Address} {c c₁ : BoxContext τ} {app : Nat}
  {name contents : Bytes}

/-- One box has changed, the totals are exact and the boxes of new applications available. -/
structure Refines (appAddress : Nat → Address) (c c' : BoxContext τ) (key : Nat × Bytes) (contents : Option Bytes) :
    Prop where
  boxes : c'.store.boxMap = Function.update c.store.boxMap key contents
  counted : BoxesCounted appAddress c'.store
  listed : Listed c'

theorem Refines.read {c c' : BoxContext τ} (hcount : BoxesCounted appAddress c.store) (hlisted : Listed c)
    (hg : Grants c c') (key : Nat × Bytes) : Refines appAddress c c' key (c.store.boxMap key) where
  boxes := by rw [hg.store, Function.update_eq_self]
  counted := by rw [hg.store]; exact hcount
  listed := hlisted.grants hg

/-- A store whose boxes differ in one place, seen as a map. -/
theorem Listed.update (hlisted : Listed c) (hg : Grants c c₁) {key : Nat × Bytes}
    (hkey : (c₁.availableBoxes.lookup key).isSome) {s : Store} {contents : Option Bytes}
    (hs : s.boxMap = Function.update c.store.boxMap key contents) : Listed { c₁ with store := s } := by
  apply (hlisted.grants hg).write hkey
  intro key' hne
  rw [hs, Function.update_of_ne hne, hg.store]

theorem boxMap_setBox {s s' : Store} (h : s.setBox app name contents = .ok s') :
    s'.boxMap = Function.update s.boxMap (app, name) (some contents) := by
  obtain ⟨-, rfl⟩ := setBox_eq_ok h
  exact boxMap_insert _ s.boxes app name contents rfl

/-- Contents of the same length leave every total as it is. -/
theorem Refines.sameSize (hcount : BoxesCounted appAddress c.store) (hlisted : Listed c)
    (hg : Grants c c₁) {name old contents : Bytes} (hkey : (c₁.availableBoxes.lookup (app, name)).isSome)
    (hold : c.store.getBox app name = some old) (hlen : contents.length = old.length) {s : Store}
    (hset : c₁.store.setBox app name contents = .ok s) :
    Refines appAddress c { c₁ with store := s } (app, name) (some contents) := by
  rw [hg.store] at hset
  have hmap := boxMap_setBox hset
  refine ⟨hmap, ?_, hlisted.update hg hkey hmap⟩
  obtain ⟨-, rfl⟩ := setBox_eq_ok hset
  have hlookup : c.store.boxes.lookup (app, name) = some old := hold
  intro app' happ'
  by_cases heq : app' = app
  · subst heq
    have hc := countOf_insert c.store.boxes app' name contents
    have hb := bytesIn_insert c.store.boxes app' name contents
    rw [hlookup] at hc hb
    simp only [Option.isSome_some, if_true, Option.elim_some] at hc hb
    have hc' : countOf app' c.store.boxes = countOf app' (c.store.boxes.insert (app', name) contents) := by omega
    have hb' : bytesIn app' c.store.boxes = bytesIn app' (c.store.boxes.insert (app', name) contents) := by omega
    exact ⟨(hcount app' happ').1.trans hc', (hcount app' happ').2.trans hb'⟩
  · have hsame := insert_other c.store.boxes app name contents app' heq
    exact ⟨(hcount app' happ').1.trans hsame.1.symm, (hcount app' happ').2.trans hsame.2.symm⟩

/-- A box is written together with the totals of its owner. -/
theorem Refines.write (hinj : ∀ a < u64Bound, ∀ b < u64Bound, appAddress a = appAddress b → a = b)
    {c c₁ c' : BoxContext τ}
    (hcount : BoxesCounted appAddress c.store) (hlisted : Listed c) (hg : Grants c c₁)
    (happ : app < u64Bound)
    (hkey : (c₁.availableBoxes.lookup (app, name)).isSome) {account : AccountData}
    (htotals : FinMap.total boxFootprint (c.store.boxes.insert (app, name) contents) < u64Bound →
      account.totalBoxes = countOf app (c.store.boxes.insert (app, name) contents) ∧
        account.totalBoxBytes = bytesIn app (c.store.boxes.insert (app, name) contents))
    (hwrite : writeBox c₁ (appAddress app) account app name contents = .ok c') :
    Refines appAddress c c' (app, name) (some contents) := by
  unfold writeBox at hwrite
  obtain ⟨s, hset, hc'⟩ := Run.bind_eq_ok.1 hwrite
  cases hc'
  rw [hg.store] at hset
  have hmap := boxMap_setBox hset
  refine ⟨hmap, ?_, hlisted.update hg hkey hmap⟩
  obtain ⟨hfits, rfl⟩ := setBox_eq_ok hset
  obtain ⟨hc, hb⟩ := htotals hfits
  exact hcount.update hinj happ hc hb (insert_other c.store.boxes app name contents)

/-- The totals of an account with one more box. -/
theorem countBox_totals (hcount : BoxesCounted appAddress c.store) (hg : Grants c c₁)
    (happ : app < u64Bound) {size : Nat} (hsize : contents.length = size)
    (hnone : c.store.getBox app name = none)
    (hfits : FinMap.total boxFootprint (c.store.boxes.insert (app, name) contents) < u64Bound) :
    (countBox appAddress c₁ app name size).totalBoxes = countOf app (c.store.boxes.insert (app, name) contents) ∧
      (countBox appAddress c₁ app name size).totalBoxBytes =
        bytesIn app (c.store.boxes.insert (app, name) contents) := by
  have hlookup : c.store.boxes.lookup (app, name) = none := hnone
  have hc := countOf_insert c.store.boxes app name contents
  have hb := bytesIn_insert c.store.boxes app name contents
  have hle := counted_le (c.store.boxes.insert (app, name) contents) app
  rw [hlookup] at hc hb
  simp only [Option.isSome_none, Bool.false_eq_true, if_false, Option.elim_none, Nat.add_zero] at hc hb
  obtain ⟨hacc, hacb⟩ := hcount app happ
  rw [← hg.store] at hacc hacb
  have hone : (countBox appAddress c₁ app name size).totalBoxes =
      satAdd (c₁.store.getOrDefaultAccount (appAddress app)).totalBoxes 1 := rfl
  have hsum : (countBox appAddress c₁ app name size).totalBoxBytes =
      satAdd (c₁.store.getOrDefaultAccount (appAddress app)).totalBoxBytes (name.length + size) := rfl
  rw [hone, hsum, hacc, hacb, hg.store, satAdd_of_lt (by omega), satAdd_of_lt (by omega)]
  exact ⟨hc.symm, by omega⟩

/-- The steps every operation on a box begins with. -/
theorem access_spec {c : BoxContext τ} (hlisted : Listed c) {name : Bytes} {size : Nat}
    {operation : BoxOperation} {createSize : Nat} {β : Type}
    {rest : Option Bytes × BoxContext τ → Except BoxError β} {b : β}
    (h : (do
      boxLengthChecks c name size
      let p ← availableAppBox cap c app name operation createSize
      rest p) = .ok b) :
    ∃ c₁, Grants c c₁ ∧ (c₁.availableBoxes.lookup (app, name)).isSome ∧ rest (c.store.getBox app name, c₁) = .ok b := by
  obtain ⟨_, -, h⟩ := Run.bind_eq_ok.1 h
  obtain ⟨⟨found, c₁⟩, haccess, h⟩ := Run.bind_eq_ok.1 h
  obtain ⟨hg, hkey, rfl⟩ := availableAppBox_spec hlisted haccess
  exact ⟨c₁, hg, hkey, h⟩

variable (hinj : ∀ a < u64Bound, ∀ b < u64Bound, appAddress a = appAddress b → a = b) {c c' : BoxContext τ}
  (hcount : BoxesCounted appAddress c.store) (hlisted : Listed c) {app : Nat} (happ : app < u64Bound) {name : Bytes}

include hcount hlisted

theorem boxGetImpl_refines {bs : Bytes} {present : Bool} (h : boxGetImpl cap c app name = .ok ((bs, present), c')) :
    bs = (c.store.getBox app name).getD [] ∧ present = (c.store.getBox app name).isSome ∧
      Refines appAddress c c' (app, name) (c.store.getBox app name) := by
  obtain ⟨c₁, hg, -, hrest⟩ := access_spec hlisted h
  cases hrest
  exact ⟨rfl, rfl, Refines.read hcount hlisted hg _⟩

theorem boxLenImpl_refines {n : Nat} {present : Bool} (h : boxLenImpl cap c app name = .ok ((n, present), c')) :
    n = ((c.store.getBox app name).getD []).length ∧ present = (c.store.getBox app name).isSome ∧
      Refines appAddress c c' (app, name) (c.store.getBox app name) := by
  obtain ⟨c₁, hg, -, hrest⟩ := access_spec hlisted h
  cases hrest
  exact ⟨rfl, rfl, Refines.read hcount hlisted hg _⟩

theorem boxExtractImpl_refines {offset length : Nat} {bs : Bytes}
    (h : boxExtractImpl cap c app name offset length = .ok (bs, c')) :
    ∃ contents, c.store.getBox app name = some contents ∧ offset + length ≤ contents.length ∧
      bs = (contents.drop offset).take length ∧ Refines appAddress c c' (app, name) (some contents) := by
  obtain ⟨c₁, hg, -, hrest⟩ := access_spec hlisted h
  cases hbox : c.store.getBox app name with
  | none => rw [hbox] at hrest; cases hrest
  | some contents =>
    rw [hbox] at hrest
    simp only at hrest
    split at hrest
    · cases hrest
    rename_i hfits
    cases hrest
    have hread := Refines.read hcount hlisted hg (app, name)
    rw [show c.store.boxMap (app, name) = some contents from hbox] at hread
    exact ⟨contents, rfl, Nat.le_of_not_lt hfits, rfl, hread⟩

theorem boxReplaceImpl_refines {offset : Nat} {value : Bytes}
    (h : boxReplaceImpl cap c app name offset value = .ok c') :
    ∃ contents, c.store.getBox app name = some contents ∧ offset + value.length ≤ contents.length ∧
      Refines appAddress c c' (app, name) (some (overwrite contents offset value)) := by
  obtain ⟨c₁, hg, hkey, hrest⟩ := access_spec hlisted h
  cases hbox : c.store.getBox app name with
  | none => rw [hbox] at hrest; cases hrest
  | some contents =>
    rw [hbox] at hrest
    simp only at hrest
    split at hrest
    · cases hrest
    rename_i hfits
    obtain ⟨s, hset, hc'⟩ := Run.bind_eq_ok.1 hrest
    cases hc'
    have hlen := length_overwrite (Nat.le_of_not_lt hfits)
    exact ⟨contents, rfl, Nat.le_of_not_lt hfits, Refines.sameSize hcount hlisted hg hkey hbox hlen hset⟩

theorem boxSpliceImpl_refines {start length : Nat} {value : Bytes} (hstart : start < u64Bound)
    (hlength : length < u64Bound)
    (h : boxSpliceImpl cap c app name start length value = .ok c') :
    ∃ contents, c.store.getBox app name = some contents ∧ Refines appAddress c c' (app, name)
      (some ((contents.take start ++ value ++ contents.drop (start + length) ++
        List.replicate contents.length 0).take contents.length)) := by
  obtain ⟨c₁, hg, hkey, hrest⟩ := access_spec hlisted h
  cases hbox : c.store.getBox app name with
  | none => rw [hbox] at hrest; cases hrest
  | some contents =>
    rw [hbox] at hrest
    simp only at hrest
    split at hrest
    · cases hrest
    rename_i hs
    split at hrest
    · cases hrest
    rename_i hnowrap
    split at hrest
    · cases hrest
    split at hrest
    · cases hrest
    rename_i hv
    obtain ⟨s, hset, hc'⟩ := Run.bind_eq_ok.1 hrest
    cases hc'
    -- the end of the range did not wrap around
    have hend : wrapAdd start length = start + length := by
      unfold wrapAdd at hnowrap ⊢
      by_cases hlt : start + length < u64Bound
      · exact Nat.mod_eq_of_lt hlt
      · rw [Nat.mod_eq_sub_mod (Nat.le_of_not_lt hlt), Nat.mod_eq_of_lt (by omega)] at hnowrap
        omega
    rw [hend] at hset
    have hlen := @length_spliced contents value start (start + length) (Nat.le_of_not_lt hs) (Nat.le_of_not_lt hv)
    have hrefines := Refines.sameSize hcount hlisted hg hkey hbox hlen hset
    rw [spliced_eq (Nat.le_of_not_lt hs) (Nat.le_of_not_lt hv)] at hrefines
    exact ⟨contents, rfl, hrefines⟩

include hinj happ

theorem boxPutImpl_refines {value : Bytes} (h : boxPutImpl cap appAddress c app name value = .ok c') :
    Refines appAddress c c' (app, name) (some value) := by
  obtain ⟨c₁, hg, hkey, hrest⟩ := access_spec hlisted h
  cases hbox : c.store.getBox app name with
  | none =>
    rw [hbox] at hrest
    exact Refines.write hinj hcount hlisted hg happ hkey (countBox_totals hcount hg happ rfl hbox) hrest
  | some contents =>
    rw [hbox] at hrest
    simp only at hrest
    split at hrest
    · cases hrest
    rename_i hlen
    obtain ⟨s, hset, hc'⟩ := Run.bind_eq_ok.1 hrest
    cases hc'
    exact Refines.sameSize hcount hlisted hg hkey hbox (not_not.1 hlen).symm hset

theorem boxCreateImpl_refines {size : Nat} {fresh : Bool}
    (h : boxCreateImpl cap appAddress c app name size = .ok (fresh, c')) :
    fresh = (c.store.getBox app name).isNone ∧
      Refines appAddress c c' (app, name) (some ((c.store.getBox app name).getD (List.replicate size 0))) := by
  obtain ⟨c₁, hg, hkey, hrest⟩ := access_spec hlisted h
  cases hbox : c.store.getBox app name with
  | none =>
    rw [hbox] at hrest
    obtain ⟨c₂, hwrite, hc'⟩ := Run.bind_eq_ok.1 hrest
    cases hc'
    exact ⟨rfl, Refines.write hinj hcount hlisted hg happ hkey
      (countBox_totals hcount hg happ List.length_replicate hbox) hwrite⟩
  | some contents =>
    rw [hbox] at hrest
    cases hrest
    have hread := Refines.read hcount hlisted hg (app, name)
    rw [show c.store.boxMap (app, name) = some contents from hbox] at hread
    exact ⟨rfl, hread⟩

theorem boxResizeImpl_refines {newSize : Nat} (h : boxResizeImpl cap appAddress c app name newSize = .ok c') :
    ∃ contents, c.store.getBox app name = some contents ∧
      Refines appAddress c c' (app, name) (some ((contents ++ List.replicate newSize 0).take newSize)) := by
  obtain ⟨c₁, hg, hkey, hrest⟩ := access_spec hlisted h
  cases hbox : c.store.getBox app name with
  | none => rw [hbox] at hrest; cases hrest
  | some contents =>
    rw [hbox] at hrest
    simp only at hrest
    have hresized : (if newSize > contents.length then overwrite (List.replicate newSize 0) 0 contents
        else contents.take newSize) = (contents ++ List.replicate newSize 0).take newSize := by
      split
      · rename_i hgrow
        exact overwrite_grow hgrow.le
      · rename_i hshrink
        rw [List.take_append_of_le_length (Nat.le_of_not_lt hshrink)]
    rw [hresized] at hrest
    refine ⟨contents, rfl, Refines.write hinj hcount hlisted hg happ hkey ?_ hrest⟩
    intro hfits
    have hlookup : c.store.boxes.lookup (app, name) = some contents := hbox
    have hlen : ((contents ++ List.replicate newSize 0).take newSize).length = newSize := by
      rw [List.length_take, List.length_append, List.length_replicate]
      omega
    generalize (contents ++ List.replicate newSize 0).take newSize = resized at hfits hlen ⊢
    have hc := countOf_insert c.store.boxes app name resized
    have hb := bytesIn_insert c.store.boxes app name resized
    have hle := counted_le (c.store.boxes.insert (app, name) resized) app
    have hold := bytesIn_erase c.store.boxes app name
    rw [hlookup] at hc hb hold
    simp only [Option.isSome_some, if_true, Option.elim_some] at hc hb hold
    obtain ⟨hacc, hacb⟩ := hcount app happ
    simp only [hg.store, hacc, hacb]
    rw [satAdd_of_lt (by omega)]
    exact ⟨by omega, by omega⟩

theorem boxDelImpl_refines {present : Bool} (h : boxDelImpl cap appAddress c app name = .ok (present, c')) :
    present = (c.store.getBox app name).isSome ∧ Refines appAddress c c' (app, name) none := by
  obtain ⟨c₁, hg, hkey, hrest⟩ := access_spec hlisted h
  cases hbox : c.store.getBox app name with
  | none =>
    rw [hbox] at hrest
    cases hrest
    have hread := Refines.read hcount hlisted hg (app, name)
    rw [show c.store.boxMap (app, name) = none from hbox] at hread
    exact ⟨rfl, hread⟩
  | some contents =>
    rw [hbox] at hrest
    simp only [Option.isSome_some, if_true, hg.store, hbox, Option.getD_some] at hrest
    cases hrest
    have hlookup : c.store.boxes.lookup (app, name) = some contents := hbox
    have hmap : ∀ account, ((c.store.setAccount (appAddress app) account).deleteBox app name).boxMap =
        Function.update c.store.boxMap (app, name) none := by
      intro account
      funext key
      have herase : ((c.store.setAccount (appAddress app) account).deleteBox app name).boxMap key =
          (c.store.boxes.erase (app, name)).lookup key := rfl
      rw [herase, FinMap.lookup_erase_eq]
      by_cases hk : key = (app, name)
      · rw [hk, Function.update_self, if_pos rfl]
      · rw [Function.update_of_ne hk, if_neg hk]
        rfl
    refine ⟨rfl, hmap _, ?_, hlisted.update hg hkey (hmap _)⟩
    have hc := countOf_erase c.store.boxes app name
    have hb := bytesIn_erase c.store.boxes app name
    rw [hlookup] at hc hb
    simp only [Option.isSome_some, if_true, Option.elim_some] at hc hb
    obtain ⟨hacc, hacb⟩ := hcount app happ
    refine hcount.update hinj happ ?_ ?_ (erase_other c.store.boxes app name)
    · show (c.store.getOrDefaultAccount (appAddress app)).totalBoxes - 1 = countOf app (c.store.boxes.erase (app, name))
      omega
    · show (c.store.getOrDefaultAccount (appAddress app)).totalBoxBytes - (name.length + contents.length) =
        bytesIn app (c.store.boxes.erase (app, name))
      omega

end Refinement

/-! ## Requests -/

section Requests

variable {τ : Type} {cap : CapacityOps τ} {appAddress : Nat → Address}
  (hinj : ∀ a < u64Bound, ∀ b < u64Bound, appAddress a = appAddress b → a = b)
include hinj

/-- **A successful operation does what the map does** and keeps the totals exact. -/
theorem perform_refines {c c' : BoxContext τ} (hcount : BoxesCounted appAddress c.store) (hlisted : Listed c)
    {r : BoxRequest} {answer : BoxAnswer} (h : perform cap appAddress c r = .ok (answer, c')) :
    ∃ contents, r.call.spec (c.store.boxMap (r.appId, r.name)) = some (answer, contents) ∧
      Refines appAddress c c' (r.appId, r.name) contents := by
  obtain ⟨app, name, call, happ, hcall⟩ := r
  have hget : c.store.boxMap (app, name) = c.store.getBox app name := rfl
  simp only [hget]
  cases call with
  | get =>
    obtain ⟨⟨⟨bs, present⟩, c₁⟩, hget, hans⟩ := Run.map_eq_ok.1 h
    cases hans
    obtain ⟨rfl, rfl, hr⟩ := boxGetImpl_refines hcount hlisted hget
    exact ⟨_, rfl, hr⟩
  | put value =>
    obtain ⟨c₁, hput, hans⟩ := Run.map_eq_ok.1 h
    cases hans
    exact ⟨_, rfl, boxPutImpl_refines hinj hcount hlisted happ hput⟩
  | del =>
    obtain ⟨⟨present, c₁⟩, hdel, hans⟩ := Run.map_eq_ok.1 h
    cases hans
    obtain ⟨rfl, hr⟩ := boxDelImpl_refines hinj hcount hlisted happ hdel
    exact ⟨_, rfl, hr⟩
  | len =>
    obtain ⟨⟨⟨n, present⟩, c₁⟩, hlen, hans⟩ := Run.map_eq_ok.1 h
    cases hans
    obtain ⟨rfl, rfl, hr⟩ := boxLenImpl_refines hcount hlisted hlen
    exact ⟨_, rfl, hr⟩
  | create size =>
    obtain ⟨⟨fresh, c₁⟩, hcreate, hans⟩ := Run.map_eq_ok.1 h
    cases hans
    obtain ⟨rfl, hr⟩ := boxCreateImpl_refines hinj hcount hlisted happ hcreate
    exact ⟨_, rfl, hr⟩
  | extract offset length =>
    obtain ⟨⟨bs, c₁⟩, hextract, hans⟩ := Run.map_eq_ok.1 h
    cases hans
    obtain ⟨contents, hbox, hfits, rfl, hr⟩ := boxExtractImpl_refines hcount hlisted hextract
    refine ⟨some contents, ?_, hr⟩
    rw [hbox, BoxCall.spec, Option.bind_some, if_pos hfits]
  | replace offset value =>
    obtain ⟨c₁, hreplace, hans⟩ := Run.map_eq_ok.1 h
    cases hans
    obtain ⟨contents, hbox, hfits, hr⟩ := boxReplaceImpl_refines hcount hlisted hreplace
    refine ⟨some (overwrite contents offset value), ?_, hr⟩
    rw [hbox, BoxCall.spec, Option.bind_some, if_pos hfits]
    rfl
  | resize newSize =>
    obtain ⟨c₁, hresize, hans⟩ := Run.map_eq_ok.1 h
    cases hans
    obtain ⟨contents, hbox, hr⟩ := boxResizeImpl_refines hinj hcount hlisted happ hresize
    refine ⟨_, ?_, hr⟩
    rw [hbox]
    rfl
  | splice start length value =>
    obtain ⟨c₁, hsplice, hans⟩ := Run.map_eq_ok.1 h
    cases hans
    obtain ⟨hstart, hlength⟩ : start < u64Bound ∧ length < u64Bound := by simpa [BoxCall.fits] using hcall
    obtain ⟨contents, hbox, hr⟩ := boxSpliceImpl_refines hcount hlisted hstart hlength hsplice
    refine ⟨_, ?_, hr⟩
    rw [hbox]
    rfl

/-- **Boxes are a map with exact totals.**  Whatever operations succeed one after the other, on boxes of whatever
applications, they answer as the map does and leave the boxes it has, and every account counts them. -/
theorem performAll_refines : ∀ {requests : List BoxRequest} {c c' : BoxContext τ} {answers : List BoxAnswer},
    BoxesCounted appAddress c.store → Listed c → performAll cap appAddress c requests = .ok (answers, c') →
      specAll c.store.boxMap requests = some (answers, c'.store.boxMap) ∧ BoxesCounted appAddress c'.store
  | [], c, c', answers, hcount, _, h => by
    cases h
    exact ⟨rfl, hcount⟩
  | r :: requests, c, c', answers, hcount, hlisted, h => by
    obtain ⟨⟨answer, c₁⟩, hstep, h⟩ := Run.bind_eq_ok.1 h
    obtain ⟨⟨rest, c₂⟩, hrest, h⟩ := Run.bind_eq_ok.1 h
    cases h
    obtain ⟨contents, hspec, hr⟩ := perform_refines hinj hcount hlisted hstep
    obtain ⟨hmap, hcounted⟩ := performAll_refines hr.counted hr.listed hrest
    refine ⟨?_, hcounted⟩
    rw [hr.boxes] at hmap
    unfold specAll
    rw [hspec]
    simp only [Option.bind_eq_bind, Option.bind_some]
    rw [hmap]
    rfl

end Requests

/-! ## An example -/

/-- Application 1001, and application 1002 of the same creator, whose boxes the family shares. -/
def boxSampleStore : Store :=
  let app := { creator := ⟨7⟩, approvalProgram := [], clearStateProgram := [], globalState := ∅,
               localStateSchema := default, globalStateSchema := default, extraProgramPages := 0, version := 0,
               sizeSponsor := .zero, foreignBoxReads := false, familyBoxAccess := false : AppParams }
  { (default : Store) with
    appParams := ((∅ : FinMap Nat AppParams).insert 1001 app).insert 1002 { app with familyBoxAccess := true } }

/-- A call of application 1001 that names two boxes and has a spare reference. -/
def boxSampleCall : SignedTransaction :=
  { (default : SignedTransaction) with
    txn := { (default : Transaction) with
      txnType := .appl
      applicationId := 1001
      foreignApps := some [1002]
      boxes := some [⟨0, some [97]⟩, ⟨1, some [98]⟩, ⟨0, none⟩] } }

def boxSampleContext : BoxContext Unit :=
  { store := boxSampleStore
    consensus := { (default : ConsensusParams) with
      maxAppKeyLen := 64, maxBoxSize := 32768, bytesPerBoxReference := 2048 }
    group := [boxSampleCall]
    groupIndex := 0
    appId := 1001
    creator := ⟨7⟩
    callerAppId := 0
    sharedApps := [1001, 1002]
    createdApps := [1002]
    availableBoxes := ∅
    boxesInitialized := false
    readBudgetChecked := false
    ioBudget := 0
    dirtyBytes := 0
    unnamedAccess := 0
    unnamedTracking := false
    unnamedCapacity := none
    familyChain := []
    familyReentrancyChecked := false
    touchedFamilyShared := false }

def noCapacity : CapacityOps Unit :=
  ⟨fun _ t => t, fun _ _ ioBudget t => (some ioBudget, t), fun _ _ _ _ t => (false, t), fun _ _ t => (none, t)⟩

/-- The addresses of the two applications, and any others for the rest. -/
def boxSampleAddress (id : Nat) : Address :=
  ⟨BitVec.ofNat 256 (if id = 1001 then 0x72a43709d7a9981bc3b37f700e56d3cdb295a5fb731085bcec398f48d0a4d436
    else if id = 1002 then 0x76eb88293cedd0bae8d51bb9c5b34833e83d4311bb4b7eab9918b41e047cce6f else id)⟩

theorem ofNat_ite_inj {m n d e : Nat} (hd : 2 ^ 64 ≤ d) (hd' : d < 2 ^ 256) (he : 2 ^ 64 ≤ e) (he' : e < 2 ^ 256)
    (hde : d ≠ e)
    {a b : Nat} (ha : a < 2 ^ 64) (hb : b < 2 ^ 64)
    (h : BitVec.ofNat 256 (if a = m then d else if a = n then e else a) =
      BitVec.ofNat 256 (if b = m then d else if b = n then e else b)) : a = b := by
  have hnat := congrArg BitVec.toNat h
  rw [BitVec.toNat_ofNat, BitVec.toNat_ofNat, Nat.mod_eq_of_lt (by split <;> [skip; split] <;> omega),
    Nat.mod_eq_of_lt (by split <;> [skip; split] <;> omega)] at hnat
  split at hnat <;> split at hnat <;> (try split at hnat) <;> (try split at hnat) <;> omega

theorem boxSampleAddress_inj : ∀ a < u64Bound, ∀ b < u64Bound, boxSampleAddress a = boxSampleAddress b → a = b :=
  fun _ ha _ hb h => ofNat_ite_inj (by decide) (by decide) (by decide) (by decide) (by decide) ha hb (Address.mk.inj h)

def boxSampleRequests : List BoxRequest :=
  [⟨1001, [97], .create 8, by decide, by decide⟩,
   ⟨1001, [97], .replace 2 [7, 7], by decide, by decide⟩,
   ⟨1001, [97], .splice 1 2 [9], by decide, by decide⟩,
   ⟨1001, [97], .resize 4, by decide, by decide⟩,
   ⟨1001, [97], .get, by decide, rfl⟩,
   ⟨1002, [98], .put [5, 6], by decide, rfl⟩,
   ⟨1002, [98], .extract 1 1, by decide, by decide⟩,
   ⟨1002, [99], .put [1], by decide, rfl⟩,
   ⟨1002, [99], .len, by decide, rfl⟩,
   ⟨1001, [97], .del, by decide, rfl⟩]

def boxSampleAnswers : List BoxAnswer :=
  [.flag true, .done, .done, .done, .lookup [0, 9, 7, 0] true, .done, .bytes [6], .done, .length 1 true, .flag true]

theorem boxSample_performAll : ∃ c', performAll noCapacity boxSampleAddress boxSampleContext boxSampleRequests =
      .ok (boxSampleAnswers, c') ∧
    specAll boxSampleStore.boxMap boxSampleRequests = some (boxSampleAnswers, c'.store.boxMap) ∧
    BoxesCounted boxSampleAddress c'.store := by
  obtain ⟨⟨answers, c'⟩, hrun, hanswers⟩ := @Run.ok_of_any _ _
    (performAll noCapacity boxSampleAddress boxSampleContext boxSampleRequests)
    (fun p => decide (p.1 = boxSampleAnswers)) (by decide)
  obtain rfl := of_decide_eq_true hanswers
  have hcount : BoxesCounted boxSampleAddress boxSampleContext.store := fun _ _ => ⟨rfl, rfl⟩
  have hlisted : Listed boxSampleContext := fun _ _ _ hbox => by cases hbox
  exact ⟨c', hrun, performAll_refines boxSampleAddress_inj hcount hlisted hrun⟩

end Ledger
end Algod
