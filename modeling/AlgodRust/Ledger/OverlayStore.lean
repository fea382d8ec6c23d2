import AlgodRust.Ledger.PendingOverlay
/-!
# OverlayStore — the store an evaluation works on, against a plain one

The overlay answers reads from its own entries and from the committed store, hides what it has removed behind
tombstones, and undoes by a journal of the entries it has replaced.  A plain store (`FlatStore`) holds every entry
itself, copies them all for a snapshot and puts the copy back.  Every sequence of calls has the same answers on both
(`overlayStore_refines`), but for two things that belong to the committed store: it keeps the leases that a purge drops
from a plain store, and only an overlay knows the leases of a pending block.
-/
namespace Algod
namespace Ledger

open Msgpack (Bytes)

/-! ## Rows and listings -/

/-- The entries of a store, with their keys. -/
def Store.rows (s : Store) : List (Sigma Key.Val) :=
  s.accounts.entries.map (fun e => ⟨.account e.1, e.2⟩) ++
    (s.assetHoldings.entries.map (fun e => ⟨.holding e.1.1 e.1.2, e.2⟩) ++
    (s.assetParams.entries.map (fun e => ⟨.assetParams e.1, e.2⟩) ++
    (s.appParams.entries.map (fun e => ⟨.appParams e.1, e.2⟩) ++
    (s.appLocalStates.entries.map (fun e => ⟨.localState e.1.1 e.1.2, e.2⟩) ++
      s.boxes.entries.map (fun e => ⟨.box e.1.1 e.1.2, e.2⟩)))))

/-- A choice of entries, with what a listing shows of each. -/
abbrev Pick (γ : Type) := (k : Key) → k.Val → Option γ

def pickHoldings (addr : Address) : Pick (Nat × AssetHolding)
  | .holding a id, v => if a = addr then some (id, v) else none
  | _, _ => none

def pickLocalStates (addr : Address) : Pick (Nat × AppLocalState)
  | .localState a id, v => if a = addr then some (id, v) else none
  | _, _ => none

def pickCreatedAssets (addr : Address) : Pick (Nat × AssetParamsRecord)
  | .assetParams id, v => if v.creator = addr then some (id, v) else none
  | _, _ => none

def pickCreatedApps (addr : Address) : Pick (Nat × AppParams)
  | .appParams id, v => if v.creator = addr then some (id, v) else none
  | _, _ => none

def pickAppParams (addr : Address) : Pick AppParams
  | .appParams _, v => if v.creator = addr then some v else none
  | _, _ => none

def pickBoxKeys (app : Nat) : Pick Bytes
  | .box id name, _ => if id = app then some name else none
  | _, _ => none

/-- The rows of the committed store that a listing shows. -/
def Store.selected {γ : Type} (s : Store) (pick : Pick γ) : List (Key × γ) :=
  s.rows.filterMap fun e => (pick e.1 e.2).map fun g => (e.1, g)

theorem Store.mem_rows (s : Store) {k : Key} {v : k.Val} : (⟨k, v⟩ : Sigma Key.Val) ∈ s.rows ↔ s.get k = some v := by
  unfold rows
  simp only [List.mem_append, List.mem_map]
  constructor
  · rintro (⟨e, he, heq⟩ | ⟨e, he, heq⟩ | ⟨e, he, heq⟩ | ⟨e, he, heq⟩ | ⟨e, he, heq⟩ | ⟨e, he, heq⟩)
    all_goals
      cases heq
      exact AList.mem_lookup_iff.2 he
  · intro h
    cases k with
    | account a => exact .inl ⟨⟨a, v⟩, AList.mem_lookup_iff.1 h, rfl⟩
    | holding a id => exact .inr (.inl ⟨⟨(a, id), v⟩, AList.mem_lookup_iff.1 h, rfl⟩)
    | assetParams id => exact .inr (.inr (.inl ⟨⟨id, v⟩, AList.mem_lookup_iff.1 h, rfl⟩))
    | appParams id => exact .inr (.inr (.inr (.inl ⟨⟨id, v⟩, AList.mem_lookup_iff.1 h, rfl⟩)))
    | localState a id => exact .inr (.inr (.inr (.inr (.inl ⟨⟨(a, id), v⟩, AList.mem_lookup_iff.1 h, rfl⟩))))
    | box id name => exact .inr (.inr (.inr (.inr (.inr ⟨⟨(id, name), v⟩, AList.mem_lookup_iff.1 h, rfl⟩))))

theorem Store.mem_selected (s : Store) {γ : Type} (pick : Pick γ) {k : Key} {g : γ} :
    (k, g) ∈ s.selected pick ↔ ∃ v, s.get k = some v ∧ pick k v = some g := by
  unfold selected
  rw [List.mem_filterMap]
  constructor
  · rintro ⟨⟨k', v⟩, hrow, hpick⟩
    obtain ⟨g', hg', heq⟩ := Option.map_eq_some_iff.1 hpick
    cases heq
    exact ⟨v, s.mem_rows.1 hrow, hg'⟩
  · rintro ⟨v, hget, hpick⟩
    exact ⟨⟨k, v⟩, s.mem_rows.2 hget, by rw [hpick]; rfl⟩

/-! ## The store of an evaluation -/

namespace PendingOverlay

/-- A read: the entry of the overlay, a tombstone too, or else the committed one. -/
def read (base : Store) (o : PendingOverlay) (k : Key) : Option k.Val :=
  match o.entries.map.lookup k with
  | some v => v
  | none => base.get k

/-- Write an entry, or a tombstone. -/
def putEntry (o : PendingOverlay) (k : Key) (v : Option k.Val) : PendingOverlay :=
  { o with entries := o.entries.write ⟨k, v⟩ }

/-- Tombstones for some keys, one after the other. -/
def bury (o : PendingOverlay) (ks : List Key) : PendingOverlay :=
  { o with entries := o.entries.writeAll (ks.map fun k => ⟨k, none⟩) }

/-- A listing: the committed rows that the overlay does not hide, and the entries of the overlay. -/
def selected {γ : Type} (base : Store) (o : PendingOverlay) (pick : Pick γ) : List γ :=
  ((base.selected pick).filter fun r => (o.entries.map.lookup r.1).isNone).map Prod.snd ++
    o.entries.map.entries.filterMap fun e => e.2.bind (pick e.1)

def assetHoldingsForAddr (base : Store) (o : PendingOverlay) (addr : Address) := o.selected base (pickHoldings addr)
def appLocalStatesForAddr (base : Store) (o : PendingOverlay) (addr : Address) := o.selected base (pickLocalStates addr)
def createdAssetsForAddr (base : Store) (o : PendingOverlay) (addr : Address) := o.selected base (pickCreatedAssets addr)
def createdAppsForAddr (base : Store) (o : PendingOverlay) (addr : Address) := o.selected base (pickCreatedApps addr)
def appParamsCreatedBy (base : Store) (o : PendingOverlay) (addr : Address) := o.selected base (pickAppParams addr)
def boxKeysForApp (base : Store) (o : PendingOverlay) (app : Nat) := o.selected base (pickBoxKeys app)

/-- An account goes with its holdings and its local states. -/
def removeAccount (base : Store) (o : PendingOverlay) (addr : Address) : PendingOverlay :=
  let o := o.putEntry (.account addr) none
  let o := o.bury ((o.assetHoldingsForAddr base addr).map fun r => .holding addr r.1)
  o.bury ((o.appLocalStatesForAddr base addr).map fun r => .localState addr r.1)

/-- The keys of a kind under which the overlay has an entry. -/
def heldKeys (o : PendingOverlay) (kind : Key → Bool) : List Key :=
  (o.entries.map.entries.filter fun e => kind e.1 && e.2.isSome).map Sigma.fst

def isHoldingOf (id : Nat) : Key → Bool
  | .holding _ id' => id' == id
  | _ => false

def isLocalStateOf (id : Nat) : Key → Bool
  | .localState _ id' => id' == id
  | _ => false

def removeAllAssetHoldingsForAsset (o : PendingOverlay) (id : Nat) : PendingOverlay := o.bury (o.heldKeys (isHoldingOf id))

def removeAllAppLocalStatesForApp (o : PendingOverlay) (id : Nat) : PendingOverlay :=
  o.bury (o.heldKeys (isLocalStateOf id))

/-- Delete a box, if there is one. -/
def deleteBox (base : Store) (o : PendingOverlay) (app : Nat) (name : Bytes) : PendingOverlay × Bool :=
  if (o.read base (.box app name)).isSome then (o.putEntry (.box app name) none, true) else (o, false)

def checkLease (base : Store) (o : PendingOverlay) (sender : Address) (lease : Bytes32) (round : Round) : Bool :=
  (⟨o.leases.map⟩ : LeaseTable).check sender lease round && base.tail.leases.check sender lease round

def pendingBlockLease (o : PendingOverlay) (sender : Address) (lease : Bytes32) (round : Round) : Bool :=
  !(⟨o.leases.map⟩ : LeaseTable).check sender lease round

def recordLease (o : PendingOverlay) (sender : Address) (lease : Bytes32) (lastValid : Round) : PendingOverlay :=
  { o with leases := recordJournaled o.leases sender lease lastValid }

/-- The leases of the overlay that have expired. -/
def expiredLeases (o : PendingOverlay) (round : Round) : List LeaseKey :=
  (o.leases.map.entries.filter fun e => decide (e.2 < round)).map Sigma.fst

/-- The committed leases expire with the committed store. -/
def purgeExpiredLeases (o : PendingOverlay) (round : Round) : PendingOverlay :=
  { o with leases := (o.expiredLeases round).foldl Journal.remove o.leases }

def setChain (o : PendingOverlay) (f : Chain → Chain) : PendingOverlay := { o with chain := f o.chain }

/-- A snapshot is the length of the journal. -/
def snapshot (o : PendingOverlay) : Nat := o.entries.undo.length

def restoreSnapshot (o : PendingOverlay) (mark : Nat) : PendingOverlay := { o with entries := o.entries.unwindTo mark }

/-! ### What a read finds -/

/-- What is seen of a committed store through entries of an overlay. -/
def through (base : Store) (m : AList fun k : Key => Option k.Val) (k : Key) : Option k.Val :=
  match m.lookup k with
  | some v => v
  | none => base.get k

theorem through_same (base : Store) {m m' : AList fun k : Key => Option k.Val} (h : Journal.Same m m') :
    through base m' = through base m := by
  funext k
  unfold through
  rw [h k]

theorem read_putEntry_self (base : Store) (o : PendingOverlay) (k : Key) (v : Option k.Val) :
    (o.putEntry k v).read base k = v := by
  unfold read putEntry Journal.write
  simp

theorem read_putEntry_of_ne (base : Store) (o : PendingOverlay) {k k' : Key} (v : Option k.Val) (h : k' ≠ k) :
    (o.putEntry k v).read base k' = o.read base k' := by
  unfold read putEntry Journal.write
  simp [AList.lookup_insert_ne h]

theorem read_bury (base : Store) (o : PendingOverlay) (ks : List Key) (k : Key) :
    (o.bury ks).read base k = if k ∈ ks then none else o.read base k := by
  unfold read bury
  rw [Journal.lookup_writeAll_map (fun _ => none) ks o.entries k]
  by_cases hk : k ∈ ks <;> simp [hk]

/-- **A listing shows what the reads find.** -/
theorem mem_selected (base : Store) (o : PendingOverlay) {γ : Type} (pick : Pick γ) (g : γ) :
    g ∈ o.selected base pick ↔ ∃ k v, o.read base k = some v ∧ pick k v = some g := by
  unfold selected
  rw [List.mem_append, List.mem_map, List.mem_filterMap]
  constructor
  · rintro (⟨⟨k, g'⟩, hrow, rfl⟩ | ⟨⟨k, v⟩, hentry, hpick⟩)
    · -- a committed row the overlay has no entry for
      obtain ⟨hrow, hfree⟩ := List.mem_filter.1 hrow
      obtain ⟨v, hget, hpick⟩ := (base.mem_selected pick).1 hrow
      refine ⟨k, v, ?_, hpick⟩
      unfold read
      rw [Option.isNone_iff_eq_none.1 hfree]
      exact hget
    · cases v with
      | none => cases hpick
      | some v' =>
        refine ⟨k, v', ?_, hpick⟩
        unfold read
        rw [AList.mem_lookup_iff.2 hentry]
  · rintro ⟨k, v, hread, hpick⟩
    unfold read at hread
    cases hl : o.entries.map.lookup k with
    | none =>
      rw [hl] at hread
      refine .inl ⟨(k, g), List.mem_filter.2 ⟨(base.mem_selected pick).2 ⟨v, hread, hpick⟩, ?_⟩, rfl⟩
      rw [Option.isNone_iff_eq_none]
      exact hl
    | some entry =>
      rw [hl] at hread
      simp only at hread
      subst hread
      exact .inr ⟨⟨k, some v⟩, AList.mem_lookup_iff.1 hl, hpick⟩

theorem mem_heldKeys (o : PendingOverlay) (kind : Key → Bool) (k : Key) :
    k ∈ o.heldKeys kind ↔ kind k = true ∧ ∃ v, o.entries.map.lookup k = some (some v) := by
  unfold heldKeys
  simp only [List.mem_map, List.mem_filter, Bool.and_eq_true]
  constructor
  · rintro ⟨⟨k', v⟩, ⟨hentry, hkind, hsome⟩, rfl⟩
    cases v with
    | none => cases hsome
    | some v' => exact ⟨hkind, v', AList.mem_lookup_iff.2 hentry⟩
  · rintro ⟨hkind, v, hl⟩
    exact ⟨⟨k, some v⟩, ⟨AList.mem_lookup_iff.1 hl, hkind, rfl⟩, rfl⟩

end PendingOverlay

/-! ## Calls -/

/-- What a store is asked. -/
inductive Query
  | get (k : Key)
  | assetHoldingsForAddr (addr : Address)
  | appLocalStatesForAddr (addr : Address)
  | createdAssetsForAddr (addr : Address)
  | createdAppsForAddr (addr : Address)
  | appParamsCreatedBy (addr : Address)
  | boxKeysForApp (app : Nat)
  | checkLease (sender : Address) (lease : Bytes32) (round : Nat)
  | pendingBlockLease (sender : Address) (lease : Bytes32) (round : Nat)
  | chain

/-- The answers.  A listing is a set: its order is that of a hash map. -/
def Query.Answer : Query → Type
  | .get k => Option k.Val
  | .assetHoldingsForAddr _ => Set (Nat × AssetHolding)
  | .appLocalStatesForAddr _ => Set (Nat × AppLocalState)
  | .createdAssetsForAddr _ => Set (Nat × AssetParamsRecord)
  | .createdAppsForAddr _ => Set (Nat × AppParams)
  | .appParamsCreatedBy _ => Set AppParams
  | .boxKeysForApp _ => Set Bytes
  | .checkLease _ _ _ => Bool
  | .pendingBlockLease _ _ _ => Bool
  | .chain => Chain

inductive Write
  | set (k : Key) (v : k.Val)
  | removeAccount (addr : Address)
  | removeAssetHolding (addr : Address) (id : Nat)
  | removeAssetParams (id : Nat)
  | removeAppParams (id : Nat)
  | removeAppLocalState (addr : Address) (id : Nat)
  | removeAllAssetHoldingsForAsset (id : Nat)
  | removeAllAppLocalStatesForApp (id : Nat)
  | recordLease (sender : Address) (lease : Bytes32) (lastValid : Nat)
  | purgeExpiredLeases (round : Nat)
  | setChain (f : Chain → Chain)

/-- A call.  `restoreSnapshot i` goes back to the snapshot that `i` later ones have followed. -/
inductive Call
  | beginGroup
  | commitGroup (finalTxnCounter : Nat)
  | rollbackGroup
  | snapshot
  | restoreSnapshot (i : Nat)
  | read (q : Query)
  | write (w : Write)
  | deleteBox (app : Nat) (name : Bytes)

def Call.Reply : Call → Type
  | .read q => q.Answer
  | .deleteBox _ _ => Bool
  | _ => Unit

/-! ### On the overlay -/

namespace PendingOverlay

def answer (base : Store) (o : PendingOverlay) : (q : Query) → q.Answer
  | .get k => o.read base k
  | .assetHoldingsForAddr addr => { r | r ∈ o.assetHoldingsForAddr base addr }
  | .appLocalStatesForAddr addr => { r | r ∈ o.appLocalStatesForAddr base addr }
  | .createdAssetsForAddr addr => { r | r ∈ o.createdAssetsForAddr base addr }
  | .createdAppsForAddr addr => { r | r ∈ o.createdAppsForAddr base addr }
  | .appParamsCreatedBy addr => { r | r ∈ o.appParamsCreatedBy base addr }
  | .boxKeysForApp app => { r | r ∈ o.boxKeysForApp base app }
  | .checkLease sender lease round => o.checkLease base sender lease round
  | .pendingBlockLease sender lease round => o.pendingBlockLease sender lease round
  | .chain => o.chain

def write (base : Store) (o : PendingOverlay) : Write → PendingOverlay
  | .set k v => o.putEntry k (some v)
  | .removeAccount addr => o.removeAccount base addr
  | .removeAssetHolding addr id => o.putEntry (.holding addr id) none
  | .removeAssetParams id => o.putEntry (.assetParams id) none
  | .removeAppParams id => o.putEntry (.appParams id) none
  | .removeAppLocalState addr id => o.putEntry (.localState addr id) none
  | .removeAllAssetHoldingsForAsset id => o.removeAllAssetHoldingsForAsset id
  | .removeAllAppLocalStatesForApp id => o.removeAllAppLocalStatesForApp id
  | .recordLease sender lease lastValid => o.recordLease sender lease lastValid
  | .purgeExpiredLeases round => o.purgeExpiredLeases round
  | .setChain f => o.setChain f

end PendingOverlay

/-- An overlay and the snapshots its caller holds, newest first. -/
structure OverlayRun where
  overlay : PendingOverlay
  marks : List Nat

namespace OverlayRun

def new (base : Store) : OverlayRun := ⟨.new base, []⟩

def call (base : Store) (r : OverlayRun) : (c : Call) → OverlayRun × c.Reply
  | .beginGroup => (⟨r.overlay.beginGroup, []⟩, ())
  | .commitGroup n => (⟨r.overlay.commitGroup n, []⟩, ())
  | .rollbackGroup => (⟨r.overlay.rollbackGroup, []⟩, ())
  | .snapshot => (⟨r.overlay, r.overlay.snapshot :: r.marks⟩, ())
  | .restoreSnapshot i =>
    match r.marks[i]? with
    | some mark => (⟨r.overlay.restoreSnapshot mark, r.marks.drop i⟩, ())
    | none => (r, ())
  | .read q => (r, r.overlay.answer base q)
  | .write w => (⟨r.overlay.write base w, r.marks⟩, ())
  | .deleteBox app name => (⟨(r.overlay.deleteBox base app name).1, r.marks⟩, (r.overlay.deleteBox base app name).2)

/-- The replies to some calls. -/
def replies (base : Store) : OverlayRun → List Call → List (Sigma Call.Reply)
  | _, [] => []
  | r, c :: calls => ⟨c, (r.call base c).2⟩ :: replies base (r.call base c).1 calls

end OverlayRun

/-! ### On a plain store -/

/-- A store that holds every entry itself. -/
structure FlatStore where
  data : (k : Key) → Option k.Val
  leases : LeaseTable
  chain : Chain

/-- The entries of an account that go with it. -/
def goesWith (addr : Address) : Key → Bool
  | .account a => a == addr
  | .holding a _ => a == addr
  | .localState a _ => a == addr
  | _ => false

namespace FlatStore

def ofBase (base : Store) : FlatStore where
  data := base.get
  leases := base.tail.leases
  chain := base.chain

def put (f : FlatStore) (k : Key) (v : Option k.Val) : FlatStore := { f with data := Function.update f.data k v }

/-- Without the entries of a kind. -/
def without (f : FlatStore) (kind : Key → Bool) : FlatStore :=
  { f with data := fun k => if kind k then none else f.data k }

def listing {γ : Type} (f : FlatStore) (pick : Pick γ) : Set γ := { g | ∃ k v, f.data k = some v ∧ pick k v = some g }

def answer (f : FlatStore) : (q : Query) → q.Answer
  | .get k => f.data k
  | .assetHoldingsForAddr addr => f.listing (pickHoldings addr)
  | .appLocalStatesForAddr addr => f.listing (pickLocalStates addr)
  | .createdAssetsForAddr addr => f.listing (pickCreatedAssets addr)
  | .createdAppsForAddr addr => f.listing (pickCreatedApps addr)
  | .appParamsCreatedBy addr => f.listing (pickAppParams addr)
  | .boxKeysForApp app => f.listing (pickBoxKeys app)
  | .checkLease sender lease round => f.leases.check sender lease round
  | .pendingBlockLease _ _ _ => false
  | .chain => f.chain

def write (f : FlatStore) : Write → FlatStore
  | .set k v => f.put k (some v)
  | .removeAccount addr => f.without (goesWith addr)
  | .removeAssetHolding addr id => f.put (.holding addr id) none
  | .removeAssetParams id => f.put (.assetParams id) none
  | .removeAppParams id => f.put (.appParams id) none
  | .removeAppLocalState addr id => f.put (.localState addr id) none
  | .removeAllAssetHoldingsForAsset id => f.without (PendingOverlay.isHoldingOf id)
  | .removeAllAppLocalStatesForApp id => f.without (PendingOverlay.isLocalStateOf id)
  | .recordLease sender lease lastValid => { f with leases := f.leases.record sender lease lastValid }
  | .purgeExpiredLeases round => { f with leases := f.leases.purgeExpired round }
  | .setChain g => { f with chain := g f.chain }

end FlatStore

/-- A plain store, the copy of it that was made when the group began, and the copies of its data made for snapshots. -/
structure FlatRun where
  now : FlatStore
  atBegin : FlatStore
  copies : List ((k : Key) → Option k.Val)

namespace FlatRun

def new (base : Store) : FlatRun := ⟨.ofBase base, .ofBase base, []⟩

/-- A group that is kept leaves its entries and its leases.  The scalars are those of the block, which every group starts
from, but for the counter of transactions. -/
def call (r : FlatRun) : (c : Call) → FlatRun × c.Reply
  | .beginGroup => (⟨r.now, r.now, []⟩, ())
  | .commitGroup n => (⟨{ r.now with chain := { r.atBegin.chain with txnCounter := n } }, r.atBegin, []⟩, ())
  | .rollbackGroup => (⟨r.atBegin, r.atBegin, []⟩, ())
  | .snapshot => ({ r with copies := r.now.data :: r.copies }, ())
  | .restoreSnapshot i =>
    match r.copies[i]? with
    | some copy => ({ r with now := { r.now with data := copy }, copies := r.copies.drop i }, ())
    | none => (r, ())
  | .read q => (r, r.now.answer q)
  | .write w => ({ r with now := r.now.write w }, ())
  | .deleteBox app name =>
    if (r.now.data (.box app name)).isSome then ({ r with now := r.now.put (.box app name) none }, true) else (r, false)

def replies : FlatRun → List Call → List (Sigma Call.Reply)
  | _, [] => []
  | r, c :: calls => ⟨c, (r.call c).2⟩ :: replies (r.call c).1 calls

end FlatRun

/-! ### The order of calls -/

/-- What a caller keeps track of: whether a group is open, how many snapshots it holds, and the latest round it has purged
leases for, now and when the group began. -/
structure Caller where
  isOpen : Bool
  marks : Nat
  purged : Nat
  purgedAtBegin : Nat

namespace Caller

def new : Caller := ⟨false, 0, 0, 0⟩

/-- Groups do not nest and the scalars are written inside of one; only snapshots that are held are restored; everything
of an asset or an application is removed only for an id that the committed store cannot know; leases are asked for from
the purged round on, and never for the pending block alone. -/
def allows (base : Store) (c : Caller) : Call → Bool
  | .beginGroup => !c.isOpen
  | .commitGroup _ => c.isOpen
  | .rollbackGroup => c.isOpen
  | .restoreSnapshot i => decide (i < c.marks)
  | .read (.checkLease _ _ round) => decide (c.purged ≤ round)
  | .read (.pendingBlockLease _ _ _) => false
  | .write (.removeAllAssetHoldingsForAsset id) => decide (base.txnCounter < id)
  | .write (.removeAllAppLocalStatesForApp id) => decide (base.txnCounter < id)
  | .write (.setChain _) => c.isOpen
  | _ => true

def next (c : Caller) : Call → Caller
  | .beginGroup => { c with isOpen := true, marks := 0, purgedAtBegin := c.purged }
  | .commitGroup _ => { c with isOpen := false, marks := 0 }
  | .rollbackGroup => { c with isOpen := false, marks := 0, purged := c.purgedAtBegin }
  | .snapshot => { c with marks := c.marks + 1 }
  | .restoreSnapshot i => { c with marks := c.marks - i }
  | .write (.purgeExpiredLeases round) => { c with purged := max c.purged round }
  | _ => c

def allowsAll (base : Store) : Caller → List Call → Bool
  | _, [] => true
  | c, call :: calls => c.allows base call && allowsAll base (c.next call) calls

end Caller

/-- No committed holding or local state has an id above the counter of transactions, which ids are taken from. -/
structure Store.IdsCounted (s : Store) : Prop where
  holdings : ∀ addr id, (s.getAssetHolding addr id).isSome → id ≤ s.txnCounter
  locals : ∀ addr id, (s.appLocalStates.lookup (addr, id)).isSome → id ≤ s.txnCounter

/-! ## The simulation -/

open PendingOverlay (through)

/-- A copy of the data, and the mark to which the journal unwinds to find it again. -/
structure Marked (base : Store) (j : Journal (fun k : Key => Option k.Val)) (mark : Nat)
    (copy : (k : Key) → Option k.Val) : Prop where
  le : mark ≤ j.undo.length
  copy : copy = through base (j.unwindTo mark).map

variable {base : Store}

theorem Marked.extend {j j' : Journal (fun k : Key => Option k.Val)} {mark : Nat}
    {copy : (k : Key) → Option k.Val} (h : Marked base j mark copy) (hext : j.Extends j') : Marked base j' mark copy where
  le := h.le.trans hext.length_le
  copy := h.copy.trans (PendingOverlay.through_same base (hext.unwindTo h.le)).symm

theorem Marked.unwind {j : Journal (fun k : Key => Option k.Val)} {mark mark' : Nat}
    {copy : (k : Key) → Option k.Val} (h : Marked base j mark copy) (hle : mark ≤ mark') (hlen : mark' ≤ j.undo.length) :
    Marked base (j.unwindTo mark') mark copy where
  le := by rw [Journal.length_unwindTo j hlen]; exact hle
  copy := by rw [Journal.unwindTo_unwindTo j hle hlen]; exact h.copy

/-- A snapshot that is taken now. -/
theorem marked_now (base : Store) (j : Journal (fun k : Key => Option k.Val)) :
    Marked base j j.undo.length (through base j.map) where
  le := Nat.le_refl _
  copy := by
    unfold Journal.unwindTo
    rw [Nat.sub_self, List.take_zero, List.foldl_nil]

/-- From round `floor` on, the leases of a plain store are those of the overlay and of the committed store. -/
def LeasesAgree (base : Store) (floor : Nat) (overlay flat : LeaseTable) : Prop :=
  ∀ k round, floor ≤ round → (flat.InForce k round ↔ overlay.InForce k round ∨ base.tail.leases.InForce k round)

variable {floor : Nat}

theorem LeasesAgree.same {m m' : FinMap LeaseKey Round} {flat : LeaseTable}
    (h : LeasesAgree base floor ⟨m⟩ flat) (hsame : Journal.Same m m') : LeasesAgree base floor ⟨m'⟩ flat := by
  intro k round hround
  rw [h k round hround]
  unfold LeaseTable.InForce
  simp only [hsame k]

theorem LeasesAgree.check {overlay flat : LeaseTable} (h : LeasesAgree base floor overlay flat)
    {sender : Address} {lease : Bytes32} {round : Nat} (hround : floor ≤ round) :
    flat.check sender lease round = (overlay.check sender lease round && base.tail.leases.check sender lease round) := by
  rw [Bool.eq_iff_iff, Bool.and_eq_true, LeaseTable.check_eq_true, LeaseTable.check_eq_true, LeaseTable.check_eq_true,
    h (sender, lease) round hround]
  tauto

theorem LeasesAgree.record {overlay flat : LeaseTable} (h : LeasesAgree base floor overlay flat)
    (sender : Address) (lease : Bytes32) (lastValid : Nat) :
    LeasesAgree base floor (overlay.record sender lease lastValid) (flat.record sender lease lastValid) := by
  intro k round hround
  rw [LeaseTable.inForce_record, LeaseTable.inForce_record, h k round hround]
  tauto

theorem extends_recordJournaled (j : Journal (fun _ : LeaseKey => Round)) (sender : Address) (lease : Bytes32)
    (lastValid : Round) : j.Extends (recordJournaled j sender lease lastValid) := by
  unfold recordJournaled
  split
  · exact .refl j
  · split
    · split
      · exact .refl j
      · exact Journal.extends_write j _
    · exact Journal.extends_write j _

theorem mem_expiredLeases (o : PendingOverlay) {round : Nat} {k : LeaseKey} :
    k ∈ o.expiredLeases round ↔ ∃ e, o.leases.map.lookup k = some e ∧ e < round := by
  unfold PendingOverlay.expiredLeases
  simp only [List.mem_map, List.mem_filter, decide_eq_true_eq]
  constructor
  · rintro ⟨⟨k', e⟩, ⟨hentry, hexp⟩, rfl⟩
    exact ⟨e, AList.mem_lookup_iff.2 hentry, hexp⟩
  · rintro ⟨e, hl, hexp⟩
    exact ⟨⟨k, e⟩, ⟨AList.mem_lookup_iff.1 hl, hexp⟩, rfl⟩

/-- What is left of the overlay's leases after a purge. -/
theorem inForce_purged (o : PendingOverlay) {current : Nat} {k : LeaseKey} {round : Nat} (h : current ≤ round) :
    (⟨(o.purgeExpiredLeases current).leases.map⟩ : LeaseTable).InForce k round ↔
      (⟨o.leases.map⟩ : LeaseTable).InForce k round := by
  unfold LeaseTable.InForce PendingOverlay.purgeExpiredLeases
  simp only [Journal.lookup_removeAll]
  by_cases hk : k ∈ o.expiredLeases current
  · -- the entry had expired before `current`: it was not in force either
    simp only [hk, if_true]
    obtain ⟨e, hl, hexp⟩ := (mem_expiredLeases o).1 hk
    constructor
    · rintro ⟨_, he, -⟩
      cases he
    · rintro ⟨e', he', hr⟩
      rw [hl] at he'
      cases he'
      exact absurd (lt_of_le_of_lt (h.trans hr) hexp) (lt_irrefl _)
  · simp only [hk, if_false]

variable {o : PendingOverlay}

theorem LeasesAgree.purge {flat : LeaseTable} (h : LeasesAgree base floor ⟨o.leases.map⟩ flat) (current : Nat) :
    LeasesAgree base (max floor current) ⟨(o.purgeExpiredLeases current).leases.map⟩ (flat.purgeExpired current) := by
  intro k round hround
  have hfloor : floor ≤ round := (Nat.le_max_left _ _).trans hround
  have hcurrent : current ≤ round := (Nat.le_max_right _ _).trans hround
  rw [LeaseTable.inForce_purgeExpired hcurrent, inForce_purged o hcurrent, h k round hfloor]

/-! ### One write -/

/-- Tombstones for every key of a kind that has an entry. -/
theorem read_bury_kind (base : Store) (o : PendingOverlay) {ks : List Key} {kind : Key → Bool}
    (hsub : ∀ k ∈ ks, kind k = true) (hall : ∀ k v, kind k = true → o.read base k = some v → k ∈ ks) (k : Key) :
    (o.bury ks).read base k = if kind k then none else o.read base k := by
  rw [PendingOverlay.read_bury]
  by_cases hk : k ∈ ks
  · simp [hk, hsub k hk]
  · by_cases hkind : kind k = true
    · simp only [hk, hkind, if_true, if_false]
      cases hread : o.read base k with
      | none => rfl
      | some v => exact absurd (hall k v hkind hread) hk
    · simp [hk, hkind]

/-- Tombstones for what the overlay itself holds of a kind, where the committed store holds nothing of it. -/
theorem read_bury_heldKeys (base : Store) (o : PendingOverlay) {kind : Key → Bool}
    (hbase : ∀ k, kind k = true → base.get k = none) (k : Key) :
    (o.bury (o.heldKeys kind)).read base k = if kind k then none else o.read base k := by
  apply read_bury_kind base o
  · intro k hk
    exact ((o.mem_heldKeys kind k).1 hk).1
  · intro k v hkind hread
    refine (o.mem_heldKeys kind k).2 ⟨hkind, v, ?_⟩
    unfold PendingOverlay.read at hread
    cases hl : o.entries.map.lookup k with
    | none =>
      rw [hl] at hread
      simp only [hbase k hkind] at hread
      cases hread
    | some entry =>
      rw [hl] at hread
      simp only at hread
      rw [hread]

def isHoldingBy (addr : Address) : Key → Bool
  | .holding a _ => a == addr
  | _ => false

def isLocalStateBy (addr : Address) : Key → Bool
  | .localState a _ => a == addr
  | _ => false

theorem read_bury_holdings (base : Store) (o : PendingOverlay) (addr : Address) (k : Key) :
    (o.bury ((o.assetHoldingsForAddr base addr).map fun r => .holding addr r.1)).read base k =
      if isHoldingBy addr k then none else o.read base k := by
  apply read_bury_kind base o
  · intro k hk
    obtain ⟨r, -, rfl⟩ := List.mem_map.1 hk
    exact beq_self_eq_true addr
  · intro k v hkind hread
    cases k with
    | holding a id =>
      obtain rfl : a = addr := beq_iff_eq.1 hkind
      refine List.mem_map.2 ⟨(id, v), (o.mem_selected base _ _).2 ⟨.holding a id, v, hread, ?_⟩, rfl⟩
      simp [pickHoldings]
    | _ => cases hkind

theorem read_bury_localStates (base : Store) (o : PendingOverlay) (addr : Address) (k : Key) :
    (o.bury ((o.appLocalStatesForAddr base addr).map fun r => .localState addr r.1)).read base k =
      if isLocalStateBy addr k then none else o.read base k := by
  apply read_bury_kind base o
  · intro k hk
    obtain ⟨r, -, rfl⟩ := List.mem_map.1 hk
    exact beq_self_eq_true addr
  · intro k v hkind hread
    cases k with
    | localState a id =>
      obtain rfl : a = addr := beq_iff_eq.1 hkind
      refine List.mem_map.2 ⟨(id, v), (o.mem_selected base _ _).2 ⟨.localState a id, v, hread, ?_⟩, rfl⟩
      simp [pickLocalStates]
    | _ => cases hkind

theorem read_removeAccount (base : Store) (o : PendingOverlay) (addr : Address) (k : Key) :
    (o.removeAccount base addr).read base k = if goesWith addr k then none else o.read base k := by
  unfold PendingOverlay.removeAccount
  simp only
  rw [read_bury_localStates, read_bury_holdings]
  cases k with
  | account a =>
    by_cases ha : a = addr
    · subst ha
      simp [goesWith, isHoldingBy, isLocalStateBy, PendingOverlay.read_putEntry_self]
    · have hne : Key.account a ≠ Key.account addr := by simp [ha]
      simp [goesWith, isHoldingBy, isLocalStateBy, PendingOverlay.read_putEntry_of_ne base o _ hne, ha]
  | holding a id =>
    have hne : Key.holding a id ≠ Key.account addr := by simp
    simp [goesWith, isHoldingBy, isLocalStateBy, PendingOverlay.read_putEntry_of_ne base o _ hne]
  | localState a id =>
    have hne : Key.localState a id ≠ Key.account addr := by simp
    simp [goesWith, isHoldingBy, isLocalStateBy, PendingOverlay.read_putEntry_of_ne base o _ hne]
  | assetParams id =>
    have hne : Key.assetParams id ≠ Key.account addr := by simp
    simp [goesWith, isHoldingBy, isLocalStateBy, PendingOverlay.read_putEntry_of_ne base o _ hne]
  | appParams id =>
    have hne : Key.appParams id ≠ Key.account addr := by simp
    simp [goesWith, isHoldingBy, isLocalStateBy, PendingOverlay.read_putEntry_of_ne base o _ hne]
  | box id name =>
    have hne : Key.box id name ≠ Key.account addr := by simp
    simp [goesWith, isHoldingBy, isLocalStateBy, PendingOverlay.read_putEntry_of_ne base o _ hne]

theorem read_putEntry (base : Store) (o : PendingOverlay) (k : Key) (v : Option k.Val) :
    (o.putEntry k v).read base = Function.update (o.read base) k v := by
  funext k'
  by_cases hk : k' = k
  · subst hk
    rw [PendingOverlay.read_putEntry_self, Function.update_self]
  · rw [PendingOverlay.read_putEntry_of_ne base o v hk, Function.update_of_ne hk]

theorem Store.IdsCounted.no_holding (h : base.IdsCounted) {id : Nat} (hid : base.txnCounter < id) (k : Key)
    (hk : PendingOverlay.isHoldingOf id k = true) : base.get k = none := by
  cases k with
  | holding addr id' =>
    obtain rfl : id' = id := beq_iff_eq.1 hk
    refine Option.not_isSome_iff_eq_none.1 fun hsome => ?_
    exact absurd (h.holdings addr id' hsome) (Nat.not_le.2 hid)
  | _ => cases hk

theorem Store.IdsCounted.no_localState (h : base.IdsCounted) {id : Nat} (hid : base.txnCounter < id)
    (k : Key) (hk : PendingOverlay.isLocalStateOf id k = true) : base.get k = none := by
  cases k with
  | localState addr id' =>
    obtain rfl : id' = id := beq_iff_eq.1 hk
    refine Option.not_isSome_iff_eq_none.1 fun hsome => ?_
    exact absurd (h.locals addr id' hsome) (Nat.not_le.2 hid)
  | _ => cases hk

/-- **A write has the same effect on the data of both stores.** -/
theorem data_write (hids : base.IdsCounted) (c : Caller) {f : FlatStore}
    (h : f.data = o.read base) {w : Write} (hw : c.allows base (.write w) = true) :
    (f.write w).data = (o.write base w).read base := by
  cases w with
  | set k v => exact (congrArg (Function.update · k (some v)) h).trans (read_putEntry base o k (some v)).symm
  | removeAccount addr =>
    funext k
    show (if goesWith addr k then none else f.data k) = (o.removeAccount base addr).read base k
    rw [read_removeAccount, h]
  | removeAssetHolding addr id =>
    exact (congrArg (Function.update · (Key.holding addr id) none) h).trans
      (read_putEntry base o (.holding addr id) none).symm
  | removeAssetParams id =>
    exact (congrArg (Function.update · (Key.assetParams id) none) h).trans (read_putEntry base o (.assetParams id) none).symm
  | removeAppParams id =>
    exact (congrArg (Function.update · (Key.appParams id) none) h).trans (read_putEntry base o (.appParams id) none).symm
  | removeAppLocalState addr id =>
    exact (congrArg (Function.update · (Key.localState addr id) none) h).trans
      (read_putEntry base o (.localState addr id) none).symm
  | removeAllAssetHoldingsForAsset id =>
    funext k
    show (if PendingOverlay.isHoldingOf id k then none else f.data k) = (o.bury _).read base k
    rw [read_bury_heldKeys base o (hids.no_holding (of_decide_eq_true hw)), h]
  | removeAllAppLocalStatesForApp id =>
    funext k
    show (if PendingOverlay.isLocalStateOf id k then none else f.data k) = (o.bury _).read base k
    rw [read_bury_heldKeys base o (hids.no_localState (of_decide_eq_true hw)), h]
  | recordLease sender lease lastValid => exact h
  | purgeExpiredLeases round => exact h
  | setChain g => exact h

theorem extends_bury (o : PendingOverlay) (ks : List Key) : o.entries.Extends (o.bury ks).entries :=
  Journal.extends_writeAll _ o.entries

/-- A write only adds to the journal of the entries. -/
theorem extends_entries_write (base : Store) (o : PendingOverlay) (w : Write) :
    o.entries.Extends (o.write base w).entries := by
  cases w with
  | set k v => exact Journal.extends_write _ _
  | removeAccount addr =>
    exact (Journal.extends_write o.entries ⟨.account addr, none⟩).trans ((extends_bury _ _).trans (extends_bury _ _))
  | removeAssetHolding addr id => exact Journal.extends_write _ _
  | removeAssetParams id => exact Journal.extends_write _ _
  | removeAppParams id => exact Journal.extends_write _ _
  | removeAppLocalState addr id => exact Journal.extends_write _ _
  | removeAllAssetHoldingsForAsset id => exact extends_bury o _
  | removeAllAppLocalStatesForApp id => exact extends_bury o _
  | recordLease sender lease lastValid => exact .refl _
  | purgeExpiredLeases round => exact .refl _
  | setChain f => exact .refl _

theorem extends_leases_write (base : Store) (o : PendingOverlay) (w : Write) :
    o.leases.Extends (o.write base w).leases := by
  cases w with
  | recordLease sender lease lastValid => exact extends_recordJournaled o.leases sender lease lastValid
  | purgeExpiredLeases round => exact Journal.extends_removeAll _ o.leases
  | _ => exact .refl _

variable {c : Caller}

theorem leases_write {f : FlatStore} (h : LeasesAgree base c.purged ⟨o.leases.map⟩ f.leases) (w : Write) :
    LeasesAgree base (c.next (.write w)).purged ⟨(o.write base w).leases.map⟩ (f.write w).leases := by
  cases w with
  | recordLease sender lease lastValid =>
    have hrec := h.record sender lease lastValid
    rw [← recordJournaled_map] at hrec
    exact hrec
  | purgeExpiredLeases round => exact h.purge round
  | _ => exact h

theorem chainBase_write (base : Store) (o : PendingOverlay) (w : Write) : (o.write base w).chainBase = o.chainBase := by
  cases w <;> rfl

/-! ### One call -/

/-- The plain store of a run holds what is read through the overlay.  In an open group, the copy made at its beginning is
found by unwinding both journals; every other copy by unwinding to its mark. -/
structure Mirrors (base : Store) (c : Caller) (r : OverlayRun) (f : FlatRun) : Prop where
  data : f.now.data = r.overlay.read base
  leases : LeasesAgree base c.purged ⟨r.overlay.leases.map⟩ f.now.leases
  chain : f.now.chain = r.overlay.chain
  closed : c.isOpen = false → r.overlay.chain = r.overlay.chainBase
  beginData : c.isOpen = true → f.atBegin.data = through base r.overlay.entries.unwind
  beginLeases : c.isOpen = true → LeasesAgree base c.purgedAtBegin ⟨r.overlay.leases.unwind⟩ f.atBegin.leases
  beginChain : c.isOpen = true → f.atBegin.chain = r.overlay.chainBase
  marks : List.Forall₂ (Marked base r.overlay.entries) r.marks f.copies
  newestFirst : r.marks.Pairwise (· ≥ ·)
  held : c.marks = f.copies.length

theorem mirrors_new (base : Store) : Mirrors base .new (.new base) (.new base) where
  data := by
    funext k
    rfl
  leases := by
    intro k round _
    have hempty : ¬ (⟨(OverlayRun.new base).overlay.leases.map⟩ : LeaseTable).InForce k round := by
      rintro ⟨e, he, -⟩
      cases he
    simp only [hempty, false_or]
    rfl
  chain := rfl
  closed _ := rfl
  beginData h := by cases h
  beginLeases h := by cases h
  beginChain h := by cases h
  marks := .nil
  newestFirst := .nil
  held := rfl

variable {r : OverlayRun} {f : FlatRun}

theorem answer_eq (h : Mirrors base c r f) {q : Query}
    (hq : c.allows base (.read q) = true) : f.now.answer q = r.overlay.answer base q := by
  have hlisting : ∀ {γ : Type} (pick : Pick γ), f.now.listing pick = { g | g ∈ r.overlay.selected base pick } := by
    intro γ pick
    unfold FlatStore.listing
    rw [h.data]
    simp only [PendingOverlay.mem_selected]
  cases q with
  | get k => exact congrFun h.data k
  | assetHoldingsForAddr addr => exact hlisting _
  | appLocalStatesForAddr addr => exact hlisting _
  | createdAssetsForAddr addr => exact hlisting _
  | createdAppsForAddr addr => exact hlisting _
  | appParamsCreatedBy addr => exact hlisting _
  | boxKeysForApp app => exact hlisting _
  | checkLease sender lease round => exact h.leases.check (of_decide_eq_true hq)
  | pendingBlockLease sender lease round => cases hq
  | chain => exact h.chain

/-- Entries that are only added to leave every copy where it is found. -/
theorem Mirrors.extend_marks (h : Mirrors base c r f)
    {j : Journal (fun k : Key => Option k.Val)} (hext : r.overlay.entries.Extends j) :
    List.Forall₂ (Marked base j) r.marks f.copies :=
  h.marks.imp fun _ _ hm => hm.extend hext

theorem through_unwind_of_extends (base : Store) {j j' : Journal (fun k : Key => Option k.Val)} (h : j.Extends j') :
    through base j'.unwind = through base j.unwind := by
  have hsame := h.unwindTo (Nat.zero_le _)
  rw [Journal.unwindTo_zero, Journal.unwindTo_zero] at hsame
  exact PendingOverlay.through_same base hsame

theorem Mirrors.write (hids : base.IdsCounted)
    (h : Mirrors base c r f) {w : Write} (hw : c.allows base (.write w) = true) :
    Mirrors base (c.next (.write w)) (r.call base (.write w)).1 (f.call (.write w)).1 := by
  have hext := extends_entries_write base r.overlay w
  have hopen : (c.next (.write w)).isOpen = c.isOpen := by cases w <;> rfl
  have hpurged : (c.next (.write w)).purgedAtBegin = c.purgedAtBegin := by cases w <;> rfl
  refine
    { data := data_write hids c h.data hw
      leases := leases_write h.leases w
      chain := ?chain
      closed := ?closed
      beginData := ?beginData
      beginLeases := ?beginLeases
      beginChain := ?beginChain
      marks := h.extend_marks hext
      newestFirst := h.newestFirst
      held := ?held }
  case chain =>
    cases w with
    | setChain g => exact congrArg g h.chain
    | _ => exact h.chain
  case closed =>
    rw [hopen]
    intro hclosed
    cases w with
    | setChain g =>
      have hopened : c.isOpen = true := hw
      rw [hclosed] at hopened
      cases hopened
    | _ => exact h.closed hclosed
  case beginData =>
    rw [hopen]
    intro hopened
    exact (h.beginData hopened).trans (through_unwind_of_extends base hext).symm
  case beginLeases =>
    rw [hopen, hpurged]
    intro hopened
    have hsame := (extends_leases_write base r.overlay w).unwindTo (Nat.zero_le _)
    rw [Journal.unwindTo_zero, Journal.unwindTo_zero] at hsame
    exact (h.beginLeases hopened).same hsame
  case beginChain =>
    rw [hopen]
    intro hopened
    exact (h.beginChain hopened).trans (chainBase_write base r.overlay w).symm
  case held => cases w <;> exact h.held

theorem Mirrors.deleteBox (h : Mirrors base c r f) (app : Nat) (name : Bytes) :
    Mirrors base (c.next (.deleteBox app name)) (r.call base (.deleteBox app name)).1 (f.call (.deleteBox app name)).1 ∧
      (f.call (.deleteBox app name)).2 = (r.call base (.deleteBox app name)).2 := by
  have hdata := congrFun h.data (.box app name)
  unfold FlatRun.call OverlayRun.call PendingOverlay.deleteBox
  simp only [hdata]
  by_cases hbox : (r.overlay.read base (.box app name)).isSome = true
  · simp only [hbox, if_true]
    have hext : r.overlay.entries.Extends (r.overlay.putEntry (.box app name) none).entries :=
      Journal.extends_write r.overlay.entries _
    have hput : (f.now.put (.box app name) none).data = (r.overlay.putEntry (.box app name) none).read base := by
      rw [read_putEntry, ← h.data]
      rfl
    refine ⟨?_, rfl⟩
    exact
      { data := hput
        leases := h.leases
        chain := h.chain
        closed := h.closed
        beginData := fun hopened => (h.beginData hopened).trans (through_unwind_of_extends base hext).symm
        beginLeases := h.beginLeases
        beginChain := h.beginChain
        marks := h.extend_marks hext
        newestFirst := h.newestFirst
        held := h.held }
  · simp only [hbox, if_false, Bool.false_eq_true]
    exact ⟨h, rfl⟩

theorem Mirrors.snapshot (h : Mirrors base c r f) :
    Mirrors base (c.next .snapshot) (r.call base .snapshot).1 (f.call .snapshot).1 where
  data := h.data
  leases := h.leases
  chain := h.chain
  closed := h.closed
  beginData := h.beginData
  beginLeases := h.beginLeases
  beginChain := h.beginChain
  marks := by
    refine .cons ?_ h.marks
    rw [h.data]
    exact marked_now base r.overlay.entries
  newestFirst := by
    refine .cons (fun mark hmark => ?_) h.newestFirst
    obtain ⟨i, hi, rfl⟩ := List.mem_iff_getElem.1 hmark
    exact (h.marks.get hi (by rw [← h.marks.length_eq]; exact hi)).le
  held := congrArg (· + 1) h.held

theorem Mirrors.restoreSnapshot (h : Mirrors base c r f) {i : Nat} (hi : i < c.marks) :
    Mirrors base (c.next (.restoreSnapshot i)) (r.call base (.restoreSnapshot i)).1 (f.call (.restoreSnapshot i)).1 := by
  have hcopies : i < f.copies.length := h.held ▸ hi
  have hmarks : i < r.marks.length := by rw [h.marks.length_eq]; exact hcopies
  have hmark : Marked base r.overlay.entries r.marks[i] f.copies[i] := h.marks.get hmarks hcopies
  -- what is older than the mark unwinds from the mark as it did before
  have holder : ∀ m ∈ r.marks.drop i, m ≤ r.marks[i] := by
    intro m hm
    rw [List.drop_eq_getElem_cons hmarks] at hm
    obtain rfl | hm := List.mem_cons.1 hm
    · exact Nat.le_refl _
    · have hdrop := h.newestFirst.sublist (List.drop_sublist i r.marks)
      rw [List.drop_eq_getElem_cons hmarks] at hdrop
      exact (List.pairwise_cons.1 hdrop).1 m hm
  unfold FlatRun.call OverlayRun.call
  simp only [List.getElem?_eq_getElem hmarks, List.getElem?_eq_getElem hcopies]
  refine
    { data := hmark.copy
      leases := h.leases
      chain := h.chain
      closed := h.closed
      beginData := fun hopened => (h.beginData hopened).trans ?_
      beginLeases := h.beginLeases
      beginChain := h.beginChain
      marks := ?marks
      newestFirst := h.newestFirst.sublist (List.drop_sublist i r.marks)
      held := ?held }
  · unfold PendingOverlay.restoreSnapshot
    rw [← Journal.unwindTo_zero, ← Journal.unwindTo_zero, Journal.unwindTo_unwindTo _ (Nat.zero_le _) hmark.le]
  case marks =>
    obtain ⟨hlen, hget⟩ := List.forall₂_iff_get.1 (List.forall₂_drop i h.marks)
    refine List.forall₂_iff_get.2 ⟨hlen, fun n hn hn' => ?_⟩
    exact (hget n hn hn').unwind (holder _ (List.get_mem _ _)) hmark.le
  case held =>
    show c.marks - i = (f.copies.drop i).length
    rw [List.length_drop, h.held]

theorem Mirrors.beginGroup (h : Mirrors base c r f)
    (hc : c.isOpen = false) : Mirrors base (c.next .beginGroup) (r.call base .beginGroup).1 (f.call .beginGroup).1 where
  data := h.data
  leases := h.leases
  chain := h.chain
  closed hclosed := by cases hclosed
  beginData _ := h.data
  beginLeases _ := h.leases
  beginChain _ := h.chain.trans (h.closed hc)
  marks := .nil
  newestFirst := .nil
  held := rfl

theorem Mirrors.commitGroup (h : Mirrors base c r f) (hc : c.isOpen = true) (n : Nat) :
    Mirrors base (c.next (.commitGroup n)) (r.call base (.commitGroup n)).1 (f.call (.commitGroup n)).1 where
  data := h.data
  leases := h.leases
  chain := congrArg (fun chain : Chain => { chain with txnCounter := n }) (h.beginChain hc)
  closed _ := rfl
  beginData hopen := by cases hopen
  beginLeases hopen := by cases hopen
  beginChain hopen := by cases hopen
  marks := .nil
  newestFirst := .nil
  held := rfl

theorem Mirrors.rollbackGroup (h : Mirrors base c r f) (hc : c.isOpen = true) :
    Mirrors base (c.next .rollbackGroup) (r.call base .rollbackGroup).1 (f.call .rollbackGroup).1 where
  data := h.beginData hc
  leases := h.beginLeases hc
  chain := h.beginChain hc
  closed _ := rfl
  beginData hopen := by cases hopen
  beginLeases hopen := by cases hopen
  beginChain hopen := by cases hopen
  marks := .nil
  newestFirst := .nil
  held := rfl

/-- One call keeps the stores together and has the same reply from both. -/
theorem Mirrors.call (hids : base.IdsCounted)
    (h : Mirrors base c r f) {call : Call} (hc : c.allows base call = true) :
    Mirrors base (c.next call) (r.call base call).1 (f.call call).1 ∧ (f.call call).2 = (r.call base call).2 := by
  cases call with
  | beginGroup => exact ⟨h.beginGroup (Bool.not_eq_true' _ ▸ hc), rfl⟩
  | commitGroup n => exact ⟨h.commitGroup hc n, rfl⟩
  | rollbackGroup => exact ⟨h.rollbackGroup hc, rfl⟩
  | snapshot => exact ⟨h.snapshot, rfl⟩
  | restoreSnapshot i => exact ⟨h.restoreSnapshot (of_decide_eq_true hc), rfl⟩
  | read q =>
    have hnext : c.next (.read q) = c := rfl
    exact ⟨by rw [hnext]; exact h, answer_eq h hc⟩
  | write w => exact ⟨h.write hids hc, rfl⟩
  | deleteBox app name => exact h.deleteBox app name

theorem Mirrors.replies (hids : base.IdsCounted) : ∀ {calls : List Call} {c : Caller} {r : OverlayRun}
    {f : FlatRun}, Mirrors base c r f → c.allowsAll base calls = true → r.replies base calls = f.replies calls
  | [], _, _, _, _, _ => rfl
  | call :: calls, c, r, f, h, hall => by
    obtain ⟨hcall, hrest⟩ := Bool.and_eq_true_iff.1 hall
    obtain ⟨hnext, hreply⟩ := h.call hids hcall
    show (⟨call, (r.call base call).2⟩ : Sigma Call.Reply) :: (r.call base call).1.replies base calls = _
    rw [← hreply, hnext.replies hids hrest]
    rfl

/-- **The overlay refines a plain store**: whatever the groups, the writes, the snapshots and what becomes of them, every
read finds what it finds in the plain store. -/
theorem overlayStore_refines (base : Store) (hids : base.IdsCounted) (calls : List Call)
    (hcalls : Caller.new.allowsAll base calls = true) :
    (OverlayRun.new base).replies base calls = (FlatRun.new base).replies calls :=
  (mirrors_new base).replies hids hcalls

/-- A store with one account, its holding of asset 7, and a lease of its own until round 10. -/
def leasedStore : Store :=
  { (default : Store) with
    accounts := (∅ : FinMap Address AccountData).insert ⟨1⟩ default
    assetHoldings := (∅ : FinMap (Address × Nat) AssetHolding).insert (⟨1⟩, 7) default
    txnCounter := 9
    tail := { (default : ChainTail) with leases := ⟨(∅ : FinMap LeaseKey Round).insert (⟨1⟩, 5) 10⟩ } }

/-- The account is removed and comes back with the snapshot; asset 12 is made and everything of it removed; and the group
is rolled back. -/
def removedAndRestored : List Call :=
  [.beginGroup, .write (.set (.holding ⟨2⟩ 12) (default : AssetHolding)), .snapshot, .write (.removeAccount ⟨1⟩),
    .read (.assetHoldingsForAddr ⟨1⟩), .restoreSnapshot 0, .read (.get (.holding ⟨1⟩ 7)),
    .write (.removeAllAssetHoldingsForAsset 12), .write (.recordLease ⟨1⟩ 5 30), .read (.checkLease ⟨1⟩ 5 20),
    .rollbackGroup, .read (.checkLease ⟨1⟩ 5 20), .read .chain]

theorem overlayStore_refines_removed :
    (OverlayRun.new leasedStore).replies leasedStore removedAndRestored =
    (FlatRun.new leasedStore).replies removedAndRestored := by
  refine overlayStore_refines leasedStore ⟨fun addr id h => ?_, fun addr id h => ?_⟩ removedAndRestored (by decide)
  · by_cases hkey : (addr, id) = (⟨1⟩, 7)
    · cases hkey
      decide
    · have hnone : leasedStore.getAssetHolding addr id = none := AList.lookup_insert_ne hkey
      rw [hnone] at h
      cases h
  · cases h

/-- **Where an overlay is not a plain store.**  A purge drops a committed lease from a plain store only, and only the
overlay has leases of a pending block. -/
theorem overlayStore_keeps_leases :
    ((OverlayRun.new leasedStore).replies leasedStore
        [.beginGroup, .write (.purgeExpiredLeases 20), .read (.checkLease ⟨1⟩ 5 8)] ≠
      (FlatRun.new leasedStore).replies [.beginGroup, .write (.purgeExpiredLeases 20), .read (.checkLease ⟨1⟩ 5 8)]) ∧
    ((OverlayRun.new leasedStore).replies leasedStore
        [.beginGroup, .write (.recordLease ⟨2⟩ 5 20), .read (.pendingBlockLease ⟨2⟩ 5 8)] ≠
      (FlatRun.new leasedStore).replies
        [.beginGroup, .write (.recordLease ⟨2⟩ 5 20), .read (.pendingBlockLease ⟨2⟩ 5 8)]) := by
  constructor
  · intro h
    have hlast := congrArg (fun replies => replies[2]?) h
    have hflag : (⟨.read (.checkLease ⟨1⟩ 5 8), false⟩ : Sigma Call.Reply) = ⟨.read (.checkLease ⟨1⟩ 5 8), true⟩ :=
      Option.some.inj hlast
    cases hflag
  · intro h
    have hlast := congrArg (fun replies => replies[2]?) h
    have hflag : (⟨.read (.pendingBlockLease ⟨2⟩ 5 8), true⟩ : Sigma Call.Reply) =
      ⟨.read (.pendingBlockLease ⟨2⟩ 5 8), false⟩ :=
      Option.some.inj hlast
    cases hflag

end Ledger
end Algod
