import AlgodRust.Basics
import AlgodRust.Lib.Run
import Mathlib.Data.List.AList
/-!
# Types — steps, votes, credentials and bundles

The data the agreement protocol exchanges: the steps with their thresholds, proposal values with the distinguished
value `bottom`, votes before and after verification, and bundles.  A failed assertion, an explicit panic or an
arithmetic overflow of the source is a value of `Panic`; a function that can panic returns `Except Panic`.
-/
namespace Algod
namespace Agreement

abbrev Period := Nat
abbrev Step := Nat

abbrev propose : Step := 0
abbrev soft : Step := 1
abbrev cert : Step := 2
abbrev next : Step := 3
abbrev late : Step := 253
abbrev redo : Step := 254
abbrev down : Step := 255

/-- Why a handler stops: one constructor for each assertion, panic or overflow of the modelled functions. -/
inductive Panic
  | overflow
  | voteAcceptedAtPropose
  | tooManyEquivocators (step : Step) (count : Nat)
  | twoValuesOverThreshold
  | bottomAtSoftOrCert (step : Step)
  | bundleWithoutVotes
  | bundleVoteForOtherValue
  | bundleBelowQuorum (have_ need : Nat)
  | badEvent
  | roundMismatch (a b : Round)
  | tooManyAssemblers
  | payloadWithoutProposal
  | divisionByZero
  | outOfFuel
deriving DecidableEq, Repr

/-- Addition of two unsigned 64-bit integers. -/
def addU64 (a b : Nat) : Except Panic Nat := if a + b < u64Bound then .ok (a + b) else .error .overflow

theorem addU64_eq_ok {a b c : Nat} : addU64 a b = .ok c ↔ a + b < u64Bound ∧ c = a + b := by
  unfold addU64
  split
  · rename_i h
    rw [Except.ok.injEq, and_iff_right h, eq_comm]
  · rename_i h
    constructor
    · intro hc; cases hc
    · rintro ⟨hc, _⟩; exact absurd hc h

theorem addU64_of_lt {a b : Nat} (h : a + b < u64Bound) : addU64 a b = .ok (a + b) := if_pos h

namespace Step

/-- The vote weight that makes a quorum at a step; a proposal needs none. -/
def committeeThreshold (s : Step) (params : ConsensusParams) : Nat :=
  match s with
  | 0 => 0
  | 1 => params.softCommitteeThreshold
  | 2 => params.certCommitteeThreshold
  | 253 => params.lateCommitteeThreshold
  | 254 => params.redoCommitteeThreshold
  | 255 => params.downCommitteeThreshold
  | _ => params.nextCommitteeThreshold

def reachesQuorum (s : Step) (params : ConsensusParams) (weight : Nat) : Bool :=
  if s = 0 then false else decide (committeeThreshold s params ≤ weight)

theorem reachesQuorum_iff {s : Step} (hs : s ≠ propose) {params : ConsensusParams} {weight : Nat} :
    reachesQuorum s params weight = true ↔ committeeThreshold s params ≤ weight := by
  unfold reachesQuorum
  rw [if_neg hs, decide_eq_true_iff]

end Step

/-! ## Proposal values, credentials and votes -/

/-- A proposed block: its digests, the period it was first proposed in and its first proposer. -/
structure ProposalValue where
  originalPeriod : Period
  originalProposer : Address
  blockDigest : Digest
  encodingDigest : Digest
deriving DecidableEq, Repr

/-- The value that stands for no proposal. -/
def bottom : ProposalValue := ⟨0, Address.zero, Digest.zero, Digest.zero⟩

instance : Inhabited ProposalValue := ⟨bottom⟩

structure HashableCredential where
  rawOut : BitVec 512
  member : Address
  iter : Nat
deriving DecidableEq, Repr, Inhabited

/-- A verified credential: the number of committee seats won and the hash that orders proposals. -/
structure Credential where
  weight : Nat
  vrfOut : Digest
  domainSeparationEnabled : Bool
  hashable : HashableCredential
  proof : BitVec 640
deriving DecidableEq, Repr, Inhabited

structure UnauthenticatedCredential where
  proof : BitVec 640
deriving DecidableEq, Repr, Inhabited

structure OneTimeSignature where
  sig : BitVec 512
  pk : BitVec 256
  pkSigOld : BitVec 512
  pk2 : BitVec 256
  pk1Sig : BitVec 512
  pk2Sig : BitVec 512
deriving DecidableEq, Repr, Inhabited

structure RawVote where
  sender : Address
  round : Round
  period : Period
  step : Step
  proposal : ProposalValue
deriving DecidableEq, Repr, Inhabited

structure UnauthenticatedVote where
  rawVote : RawVote
  cred : UnauthenticatedCredential
  sig : OneTimeSignature
deriving DecidableEq, Repr, Inhabited

/-- A verified vote. -/
structure Vote where
  rawVote : RawVote
  cred : Credential
  sig : OneTimeSignature
  validatedAt : Duration
deriving DecidableEq, Repr, Inhabited

def Vote.toUnauthenticated (v : Vote) : UnauthenticatedVote := ⟨v.rawVote, ⟨v.cred.proof⟩, v.sig⟩

/-! ## Bundles -/

structure VoteAuthenticator where
  sender : Address
  cred : UnauthenticatedCredential
  sig : OneTimeSignature
deriving DecidableEq, Repr, Inhabited

/-- Two signed votes of one sender for two proposals of the same step. -/
structure EquivocationVoteAuthenticator where
  sender : Address
  cred : UnauthenticatedCredential
  sigs : OneTimeSignature × OneTimeSignature
  proposals : ProposalValue × ProposalValue
deriving DecidableEq, Repr, Inhabited

structure UnauthenticatedBundle where
  round : Round
  period : Period
  step : Step
  proposal : ProposalValue
  votes : List VoteAuthenticator
  equivocationVotes : List EquivocationVoteAuthenticator
deriving DecidableEq, Repr, Inhabited

/-! ## Thresholds -/

inductive ThresholdType
  | soft
  | cert
  | next
deriving DecidableEq, Repr, Inhabited

/-- A quorum seen by a vote tracker, with the bundle that proves it.  The source's empty threshold event is `none` of
`Option ThresholdEvent`. -/
structure ThresholdEvent where
  t : ThresholdType
  round : Round
  period : Period
  step : Step
  proposal : ProposalValue
  bundle : UnauthenticatedBundle
  proto : String
deriving DecidableEq, Repr, Inhabited

end Agreement
end Algod
