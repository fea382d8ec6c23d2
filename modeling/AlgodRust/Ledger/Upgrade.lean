import AlgodRust.Ledger.Store
/-!
# Upgrade — the protocol upgrade vote

A block header carries the state of an upgrade vote and the vote of the block itself.  `applyUpgradeVote` computes the
state of the next header; rounds are unsigned 64-bit integers and their sums wrap around.
-/
namespace Algod
namespace Ledger

/-- The upgrade fields of a block header. -/
structure UpgradeState where
  currentProtocol : String
  nextProtocol : String
  nextProtocolApprovals : Nat
  nextProtocolVoteBefore : Round
  nextProtocolSwitchOn : Round
deriving DecidableEq, Repr

/-- The vote a block header casts. -/
structure UpgradeVote where
  upgradePropose : String
  upgradeDelay : Nat
  upgradeApprove : Bool
deriving DecidableEq, Repr

def BlockHeader.upgradeState (h : BlockHeader) : UpgradeState :=
  ⟨h.currentProtocol, h.nextProtocol, h.nextProtocolApprovals, h.nextProtocolVoteBefore, h.nextProtocolSwitchOn⟩

def BlockHeader.upgradeVote (h : BlockHeader) : UpgradeVote := ⟨h.upgradePropose, h.upgradeDelay, h.upgradeApprove⟩

inductive UpgradeError
  | proposalPending
  | versionTooLong (version : String)
  | delayOutOfRange (delay min max : Nat)
  | delayWithoutProposal (delay : Nat)
  | approvalWithoutProposal
  | approvalAfterDeadline
deriving DecidableEq, Repr

/-- A proposal opens a vote; a delay of zero stands for the default one. -/
def applyProposal (prev : UpgradeState) (r : Nat) (vote : UpgradeVote) (params : ConsensusParams) :
    Except UpgradeError UpgradeState :=
  if !vote.upgradePropose.isEmpty then
    if !prev.nextProtocol.isEmpty then .error .proposalPending
    else if vote.upgradePropose.utf8ByteSize > params.maxVersionStringLen then
      .error (.versionTooLong vote.upgradePropose)
    else if vote.upgradeDelay > params.maxUpgradeWaitRounds ∨ vote.upgradeDelay < params.minUpgradeWaitRounds then
      .error (.delayOutOfRange vote.upgradeDelay params.minUpgradeWaitRounds params.maxUpgradeWaitRounds)
    else
      let delay := if vote.upgradeDelay = 0 then params.defaultUpgradeWaitRounds else vote.upgradeDelay
      .ok { prev with
        nextProtocol := vote.upgradePropose
        nextProtocolApprovals := 0
        nextProtocolVoteBefore := wrapAdd r params.upgradeVoteRounds
        nextProtocolSwitchOn := wrapAdd (wrapAdd r params.upgradeVoteRounds) delay }
  else if vote.upgradeDelay ≠ 0 then .error (.delayWithoutProposal vote.upgradeDelay)
  else .ok prev

def applyApproval (s : UpgradeState) (r : Nat) (vote : UpgradeVote) : Except UpgradeError UpgradeState :=
  if vote.upgradeApprove then
    if s.nextProtocol.isEmpty then .error .approvalWithoutProposal
    else if r ≥ s.nextProtocolVoteBefore then .error .approvalAfterDeadline
    else .ok { s with nextProtocolApprovals := wrapAdd s.nextProtocolApprovals 1 }
  else .ok s

def UpgradeState.cleared (s : UpgradeState) : UpgradeState := ⟨s.currentProtocol, "", 0, 0, 0⟩

/-- A vote that reached its deadline below the threshold is over. -/
def clearFailed (s : UpgradeState) (r : Nat) (params : ConsensusParams) : UpgradeState :=
  if r = s.nextProtocolVoteBefore ∧ s.nextProtocolApprovals < params.upgradeThreshold then s.cleared else s

def switchOver (s : UpgradeState) (r : Nat) : UpgradeState :=
  if r = s.nextProtocolSwitchOn then { s.cleared with currentProtocol := s.nextProtocol } else s

/-- **The upgrade state of the block of round `r`**, from the state of the block before and the vote it casts. -/
def applyUpgradeVote (prev : UpgradeState) (r : Nat) (vote : UpgradeVote) (params : ConsensusParams) :
    Except UpgradeError UpgradeState := do
  let s ← applyProposal prev r vote params
  let s ← applyApproval s r vote
  return switchOver (clearFailed s r params) r

end Ledger
end Algod
