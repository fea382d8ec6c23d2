import AlgodRust.Ledger.Upgrade
import AlgodRust.Ledger.Rewards
/-!
# BlockHeader — the header of the next block

`makeNextBlockHeader` computes the part of a header that follows from the header before it: the upgrade vote the node
casts by default and its outcome, the bonus, the state-proof tracking, the timestamp and the congestion tax.  The seed,
the proposer and what depends on the payset are filled in later.
-/
namespace Algod
namespace Ledger

open Msgpack (Bytes Value)

/-! ## Upgrade vote -/

/-- The vote a node casts: it proposes the upgrade its protocol approves where none is pending, and approves a pending
one before the deadline where it is that upgrade. -/
def defaultVote (prev : BlockHeader) (params : ConsensusParams) : UpgradeVote :=
  let vote : UpgradeVote :=
    if prev.nextProtocol.isEmpty then
      match params.approvedUpgrade with
      | none => ⟨"", 0, false⟩
      | some upgrade => ⟨upgrade.1, upgrade.2, true⟩
    else ⟨"", 0, false⟩
  if wrapAdd prev.round 1 < prev.nextProtocolVoteBefore then
    { vote with upgradeApprove := params.approvedUpgrade.any (fun upgrade => upgrade.1 == prev.nextProtocol) }
  else vote

def processUpgradeParams (prev : BlockHeader) (prevParams : ConsensusParams) :
    Except UpgradeError (UpgradeVote × UpgradeState) := do
  let vote := defaultVote prev prevParams
  let state ← applyUpgradeVote prev.upgradeState (wrapAdd prev.round 1) vote prevParams
  return (vote, state)

/-! ## Bonus, congestion tax and timestamp -/

/-- The round, the amount and the decay interval of a bonus plan. -/
def bonusPlan (params : ConsensusParams) : Nat × Nat × Nat :=
  (params.bonusBaseRound, params.bonusBaseAmount, params.bonusDecayInterval)

def computeBonus (current prevBonus : Nat) (plan prevPlan : Nat × Nat × Nat) : Nat :=
  let baseRound := plan.1
  let baseAmount := plan.2.1
  let decayInterval := plan.2.2
  let upgrading := plan ≠ prevPlan ∨ current = 1
  if baseAmount ≠ 0 ∧ (current = baseRound ∨ upgrading ∧ current > baseRound) then baseAmount
  else if decayInterval ≠ 0 ∧ current % decayInterval = 0 then prevBonus * 99 / 100
  else prevBonus

def nextBonus (prev : BlockHeader) (params prevParams : ConsensusParams) : Nat :=
  computeBonus (min (prev.round + 1) (u64Bound - 1)) prev.bonus (bonusPlan params) (bonusPlan prevParams)

def microsUnit : Nat := 1000000

def saturatingMulMicros (a b : Nat) : Nat := min (min (a * b) (2 ^ 128 - 1) / microsUnit) (u64Bound - 1)

/-- The tax falls by at most a tenth while blocks are less than half full, and rises by at most a tenth otherwise. -/
def nextCongestionTax (prevLoad prevTax : Nat) : Nat :=
  let perBlockMaxChange := 100000
  let half := 500000
  if prevLoad ≤ half then
    let downFactor := perBlockMaxChange * (half - prevLoad) / half
    min (saturatingMulMicros prevTax (microsUnit - downFactor) - downFactor) (u64Bound - 1)
  else
    let upFactor := perBlockMaxChange * (prevLoad - half) / half
    min (saturatingMulMicros prevTax (microsUnit + upFactor) + upFactor) (u64Bound - 1)

/-- The sum wraps, as an `i64` does. -/
def clampTimestamp (timestamp prevTimestamp : Int) (params : ConsensusParams) : Int :=
  let latest := Int.bmod (prevTimestamp + params.maxTimestampIncrement) (2 ^ 64)
  if prevTimestamp ≤ 0 then timestamp
  else if timestamp < prevTimestamp then prevTimestamp
  else if timestamp > latest then latest
  else timestamp

/-! ## State-proof tracking -/

/-- The entries of a map, whose keys and values alternate. -/
def mapEntries : List Value → List (Value × Value)
  | k :: v :: rest => (k, v) :: mapEntries rest
  | _ => []

def asU64 : Value → Option Nat
  | .uint n => some n
  | _ => none

def stateProofBasic : Nat := 0

/-- The fields of the tracking record of basic state proofs. -/
def stateProofFields (tracking : Option Value) : Option (List (Value × Value)) :=
  match tracking with
  | some (.map types) =>
    match (mapEntries types).find? (fun e => asU64 e.1 == some stateProofBasic) with
    | some (_, .map fields) => some (mapEntries fields)
    | _ => none
  | _ => none

def isStrKey (key : String) : Value → Bool
  | .str bs => decide (bs = key.toUTF8.toList)
  | _ => false

def stateProofNextRound (tracking : Option Value) : Nat :=
  match stateProofFields tracking with
  | none => 0
  | some fields => ((fields.find? (fun e => isStrKey "n" e.1)).bind (fun e => asU64 e.2)).getD 0

def satAdd (a b : Nat) : Nat := min (a + b) (u64Bound - 1)

theorem satAdd_of_lt {a b : Nat} (h : a + b < u64Bound) : satAdd a b = a + b := by
  unfold satAdd
  omega

theorem wrapAdd_of_lt {a b : Nat} (h : a + b < u64Bound) : wrapAdd a b = a + b := Nat.mod_eq_of_lt h

def roundUpToMultipleOf (round n : Nat) : Nat := satAdd round (n - 1) / n * n

/-- The next round to be attested: the tracked one, or the first one after the lookback. -/
def initialStateProofNextRound (prevNextRound round : Nat) (params : ConsensusParams) : Nat :=
  let interval := params.stateProofInterval
  if interval = 0 then 0
  else if prevNextRound ≠ 0 then prevNextRound
  else satAdd (roundUpToMultipleOf (satAdd round params.stateProofVotersLookback) interval) interval

/-- Fields that are zero or empty are left out. -/
def nextStateProofTracking (prev : BlockHeader) (nextRound : Nat) (params : ConsensusParams) (voters : Bytes × Nat) :
    Option Value :=
  if params.stateProofInterval = 0 then none
  else
    let next := initialStateProofNextRound (stateProofNextRound prev.stateProofTracking) nextRound params
    let fields : List Value :=
      (if next ≠ 0 then [.str "n".toUTF8.toList, .uint next] else []) ++
        (if voters.1 ≠ [] then [.str "v".toUTF8.toList, .bin voters.1] else []) ++
        (if voters.2 ≠ 0 then [.str "t".toUTF8.toList, .uint voters.2] else [])
    some (.map [.uint stateProofBasic, .map fields])

/-! ## The header -/

inductive NextHeaderError
  | unknownPreviousProtocol (protocol : String)
  | unknownProtocol (protocol : String)
  | invalidVote (round : Round) (e : UpgradeError)
deriving DecidableEq, Repr

/-- What the caller of `makeNextBlockHeader` reads from the clock and the ledger. -/
structure HeaderInputs where
  timestamp : Int
  rewards : RewardsState
  votersTracking : Bytes × Nat

/-- **The next header.**  The digests of the previous one are those of the codec. -/
def makeNextBlockHeader (protocols : String → Option ConsensusParams) (digest : BlockHeader → Bytes32)
    (digest512 : BlockHeader → Bytes64) (prev : BlockHeader) (inputs : HeaderInputs) :
    Except NextHeaderError BlockHeader :=
  match protocols prev.currentProtocol with
  | none => .error (.unknownPreviousProtocol prev.currentProtocol)
  | some prevParams =>
    match processUpgradeParams prev prevParams with
    | .error e => .error (.invalidVote (wrapAdd prev.round 1) e)
    | .ok (vote, upgrade) =>
      match protocols upgrade.currentProtocol with
      | none => .error (.unknownProtocol upgrade.currentProtocol)
      | some params =>
        .ok
          { round := wrapAdd prev.round 1
            branch := digest prev
            seed := 0
            txnCommitment := 0
            timestamp := clampTimestamp inputs.timestamp prev.timestamp params
            genesisId := prev.genesisId
            genesisHash := prev.genesisHash
            proposer := Address.zero
            feeSink := prev.feeSink
            rewardsPool := prev.rewardsPool
            rewardsLevel := inputs.rewards.rewardsLevel
            rewardsRate := inputs.rewards.rewardsRate
            rewardsResidue := inputs.rewards.rewardsResidue
            rewardsRecalculationRound := inputs.rewards.rewardsRecalculationRound
            currentProtocol := upgrade.currentProtocol
            nextProtocol := upgrade.nextProtocol
            nextProtocolApprovals := upgrade.nextProtocolApprovals
            nextProtocolSwitchOn := upgrade.nextProtocolSwitchOn
            nextProtocolVoteBefore := upgrade.nextProtocolVoteBefore
            txnCounter := prev.txnCounter
            feesCollected := 0
            bonus := nextBonus prev params prevParams
            proposerPayout := 0
            prev512 := if params.enableSha512BlockHash then digest512 prev else 0
            txn256 := 0
            txn512 := 0
            stateProofTracking := nextStateProofTracking prev (wrapAdd prev.round 1) params inputs.votersTracking
            upgradePropose := vote.upgradePropose
            upgradeDelay := vote.upgradeDelay
            upgradeApprove := vote.upgradeApprove
            expiredParticipationAccounts := none
            absentParticipationAccounts := none
            load := 0
            congestionTax := nextCongestionTax prev.load prev.congestionTax }

end Ledger
end Algod
