import AlgodRust.Ledger.EvalBlock
import AlgodRust.Lib.Journal
/-!
# PendingOverlay — what the pending groups changed

The overlay holds only the entries the groups of a pending block changed; every other read falls through to the
committed store.  A group that is evaluated writes through a journal.  A group that is kept drops the journal; a group
that is rolled back unwinds it.
-/
namespace Algod
namespace Ledger

open Msgpack (Bytes)

/-! ## Entries of a store -/

/-- What a store is asked for. -/
inductive Key
  | account (addr : Address)
  | holding (addr : Address) (id : Nat)
  | assetParams (id : Nat)
  | appParams (id : Nat)
  | localState (addr : Address) (id : Nat)
  | box (id : Nat) (name : Bytes)
deriving DecidableEq

def Key.Val : Key → Type
  | .account _ => AccountData
  | .holding _ _ => AssetHolding
  | .assetParams _ => AssetParamsRecord
  | .appParams _ => AppParams
  | .localState _ _ => AppLocalState
  | .box _ _ => Bytes

namespace Store

def get (s : Store) : (k : Key) → Option k.Val
  | .account a => s.getAccount a
  | .holding a id => s.getAssetHolding a id
  | .assetParams id => s.getAssetParams id
  | .appParams id => s.getAppParams id
  | .localState a id => s.appLocalStates.lookup (a, id)
  | .box id name => s.boxes.lookup (id, name)

end Store

/-! ## Journals of leases and of the block's own transactions -/

/-- `LeaseTable.record` through a journal. -/
def recordJournaled (j : Journal (fun _ : LeaseKey => Round)) (sender : Address) (lease : Bytes32) (lastValid : Round) :
    Journal (fun _ : LeaseKey => Round) :=
  if lease = 0 then j
  else
    match j.map.lookup (sender, lease) with
    | some expires => if expires ≥ lastValid then j else j.write ⟨(sender, lease), lastValid⟩
    | none => j.write ⟨(sender, lease), lastValid⟩

theorem recordJournaled_map (j : Journal (fun _ : LeaseKey => Round)) (sender : Address) (lease : Bytes32)
    (lastValid : Round) :
    (⟨(recordJournaled j sender lease lastValid).map⟩ : LeaseTable) =
    (⟨j.map⟩ : LeaseTable).record sender lease lastValid := by
  unfold recordJournaled LeaseTable.record
  by_cases hl : lease = 0
  · simp [hl]
  · simp only [hl, if_false]
    cases j.map.lookup (sender, lease) with
    | none => rfl
    | some expires =>
      simp only
      split <;> rfl

/-- What one record of a transaction changed: its id, where it was new, and the lease before. -/
structure DupUndo where
  txid : Option Digest
  lease : Option (LeaseKey × Option Round)

/-! ## The overlay -/

/-- The scalars of the chain that an evaluation reads and writes through the store. -/
structure Chain where
  round : Round
  rewardsLevel : Nat
  rewardsRate : Nat
  rewardsResidue : Nat
  rewardsRecalculationRound : Round
  feeSink : Address
  rewardsPool : Address
  genesisId : String
  genesisHash : Bytes32
  protocol : String
  txnCounter : Nat

def Store.chain (s : Store) : Chain where
  round := s.currentRound
  rewardsLevel := s.rewardsLevel
  rewardsRate := s.rewardsRate
  rewardsResidue := s.rewardsResidue
  rewardsRecalculationRound := s.rewardsRecalculationRound
  feeSink := s.feeSink
  rewardsPool := s.rewardsPool
  genesisId := s.genesisId
  genesisHash := s.genesisHash
  protocol := s.protocol
  txnCounter := s.txnCounter

/-- Everything the pending groups changed.  An entry without a value is a tombstone. -/
structure PendingOverlay where
  entries : Journal (fun k : Key => Option k.Val)
  leases : Journal (fun _ : LeaseKey => Round)
  chain : Chain
  chainBase : Chain
  poolWithdrawn : Bool
  blockDups : BlockDups
  dupsUndo : List DupUndo

namespace PendingOverlay

/-- An empty overlay over a committed store. -/
def new (base : Store) : PendingOverlay where
  entries := .start ∅
  leases := .start ∅
  chain := base.chain
  chainBase := base.chain
  poolWithdrawn := false
  blockDups := .new
  dupsUndo := []

def beginGroup (o : PendingOverlay) : PendingOverlay :=
  { o with entries := .start o.entries.map, leases := .start o.leases.map }

/-- Keep the effects of the group.  The next group starts from the scalars of the base again. -/
def commitGroup (o : PendingOverlay) (finalTxnCounter : Nat) : PendingOverlay :=
  let chainBase := { o.chainBase with txnCounter := finalTxnCounter }
  { o with
    entries := .start o.entries.map
    leases := .start o.leases.map
    chain := chainBase
    chainBase := chainBase
    poolWithdrawn := true
    dupsUndo := [] }

/-- Undo every effect of the group in progress. -/
def rollbackGroup (o : PendingOverlay) : PendingOverlay :=
  { o with
    entries := .start o.entries.unwind
    leases := .start o.leases.unwind
    chain := o.chainBase }

end PendingOverlay

end Ledger
end Algod
