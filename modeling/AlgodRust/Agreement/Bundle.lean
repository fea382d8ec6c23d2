import AlgodRust.Agreement.Types
/-!
# Bundle — the two verifiers of a bundle

A bundle is verified in two places: `verifyBundleImpl` on the live path, whose votes are then replayed into the vote
trackers, and `UnauthenticatedBundle.verify` for certificates.  Ledger, one-time signatures and credentials are
parameters; everything the two functions decide themselves is here, in the order they decide it.

`verifyBundleImpl_isOk_iff` and `verify_isOk_iff` say what each accepts, in terms of the same checks.  The certificate
verifier makes two checks more: the step is at most `down`, and the two proposals of an equivocation pair differ.
-/
namespace Algod
namespace Agreement

open Run (bind_eq_ok ok_bind error_bind)

/-! ## Ledger and membership -/

inductive LedgerError
  | roundNotAvailable (round : Round)
  | droppedRound (round : Round) (source : Option String)
  | other (msg : String)
deriving DecidableEq, Repr

structure OnlineAccountData where
  microAlgos : Nat
  voteId : BitVec 256
  selectionId : BitVec 256
  voteFirstValid : Round
  voteLastValid : Round
  voteKeyDilution : Nat
deriving DecidableEq, Repr, Inhabited

/-- What agreement reads of the ledger; reading twice gives the same answer. -/
structure LedgerReader where
  seed : Round → Except LedgerError (BitVec 256)
  lookupAgreement : Round → Address → Except LedgerError OnlineAccountData
  circulation : Round → Round → Except LedgerError Nat
  consensusParams : Round → Except LedgerError ConsensusParams

structure Selector where
  seed : BitVec 256
  round : Round
  period : Period
  step : Step
deriving DecidableEq, Repr, Inhabited

structure Membership where
  address : Address
  selectionId : BitVec 256
  balance : Nat
  totalMoney : Nat
  selector : Selector
deriving DecidableEq, Repr, Inhabited

/-- The round whose parameters govern agreement on round `r`. -/
def paramsRound (r : Round) : Round := r - 2

def balanceLookback (params : ConsensusParams) : Nat := 2 * params.seedRefreshInterval * params.seedLookback

def balanceRound (r : Round) (params : ConsensusParams) : Round := r - balanceLookback params

def seedRound (r : Round) (params : ConsensusParams) : Round := r - params.seedLookback

def membershipFromLedger (l : LedgerReader) (addr : Address) (round : Round) (period : Period) (step : Step) :
    Except LedgerError (Membership × OnlineAccountData × ConsensusParams) := do
  let cparams ← l.consensusParams (paramsRound round)
  let balRound := balanceRound round cparams
  let record ← l.lookupAgreement balRound addr
  let total ← l.circulation balRound round
  let seed ← l.seed (seedRound round cparams)
  return ({ address := addr, selectionId := record.selectionId, balance := record.microAlgos, totalMoney := total,
            selector := ⟨seed, round, period, step⟩ }, record, cparams)

/-- The parts of `membershipFromLedger` that do not depend on the voter, each fetched at most once for a bundle. -/
structure MembershipCache where
  params : Option (Except LedgerError (ConsensusParams × Round × Round))
  circulation : Option (Except LedgerError Nat)
  seed : Option (Except LedgerError (BitVec 256))

namespace MembershipCache

def new : MembershipCache := ⟨none, none, none⟩

/-- Consensus parameters with the balance and seed rounds derived from them. -/
def fetchParams (l : LedgerReader) (round : Round) : Except LedgerError (ConsensusParams × Round × Round) := do
  let cparams ← l.consensusParams (paramsRound round)
  return (cparams, balanceRound round cparams, seedRound round cparams)

/-- One lookup, and the cache it leaves.  A failed lookup leaves what was fetched before it. -/
def membership (c : MembershipCache) (l : LedgerReader) (round : Round) (period : Period) (step : Step)
    (addr : Address) : Except LedgerError (Membership × OnlineAccountData × ConsensusParams) × MembershipCache :=
  let params := c.params.getD (fetchParams l round)
  let c := { c with params := some params }
  match params with
  | .error e => (.error e, c)
  | .ok (cparams, balRound, seedRnd) =>
    match l.lookupAgreement balRound addr with
    | .error e => (.error e, c)
    | .ok record =>
      let circulation := c.circulation.getD (l.circulation balRound round)
      let c := { c with circulation := some circulation }
      match circulation with
      | .error e => (.error e, c)
      | .ok total =>
        let seed := c.seed.getD (l.seed seedRnd)
        let c := { c with seed := some seed }
        match seed with
        | .error e => (.error e, c)
        | .ok seed =>
          (.ok ({ address := addr, selectionId := record.selectionId, balance := record.microAlgos,
                  totalMoney := total, selector := ⟨seed, round, period, step⟩ }, record, cparams), c)

end MembershipCache

/-! ## Votes -/

inductive CredentialError
  | vrfVerificationFailed
  | zeroWeight
  | invalidParameters
  | moneyAboveSelectF128Bound
deriving DecidableEq, Repr

inductive VoteError
  | bottomNotAllowed (step : Step)
  | proposerMismatch
  | futurePeriod (votePeriod originalPeriod : Period)
  | roundBeforeFirstValid (round firstValid : Round)
  | roundAfterLastValid (round lastValid : Round)
  | otsVerificationFailed
  | credentialVerificationFailed (e : CredentialError)
  | stepExceedsMax (step : Step)
deriving DecidableEq, Repr

/-- The cryptographic checks: a one-time signature under a voting key at a round with a key dilution, and the
credential of a committee member. -/
structure VoteCrypto where
  verifyOneTimeSignature : OneTimeSignature → BitVec 256 → Round → Nat → RawVote → Bool
  verifyCredential : UnauthenticatedCredential → ConsensusParams → Membership → Except CredentialError Credential

/-- What a step admits as the proposal of a vote. -/
def RawVote.checkProposal (rv : RawVote) : Except VoteError Unit :=
  if rv.step = propose then
    if rv.period = rv.proposal.originalPeriod ∧ rv.sender ≠ rv.proposal.originalProposer then .error .proposerMismatch
    else if rv.proposal.originalPeriod > rv.period then .error (.futurePeriod rv.period rv.proposal.originalPeriod)
    else if rv.proposal = bottom then .error (.bottomNotAllowed rv.step)
    else .ok ()
  else if (rv.step = soft ∨ rv.step = cert) ∧ rv.proposal = bottom then .error (.bottomNotAllowed rv.step)
  else .ok ()

/-- The rounds in which an account's voting keys are valid. -/
def RawVote.checkRound (rv : RawVote) (record : OnlineAccountData) : Except VoteError Unit :=
  if rv.round < record.voteFirstValid then .error (.roundBeforeFirstValid rv.round record.voteFirstValid)
  else if record.voteLastValid ≠ 0 ∧ rv.round > record.voteLastValid then
    .error (.roundAfterLastValid rv.round record.voteLastValid)
  else .ok ()

namespace UnauthenticatedVote

def wellFormed (uv : UnauthenticatedVote) : Except VoteError Unit :=
  if uv.rawVote.step > down then .error (.stepExceedsMax uv.rawVote.step) else .ok ()

def verify (uv : UnauthenticatedVote) (crypto : VoteCrypto) (membership : Membership) (record : OnlineAccountData)
    (params : ConsensusParams) : Except VoteError Vote := do
  uv.wellFormed
  uv.rawVote.checkProposal
  uv.rawVote.checkRound record
  let keyDilution := if record.voteKeyDilution > 0 then record.voteKeyDilution else params.defaultKeyDilution
  if crypto.verifyOneTimeSignature uv.sig record.voteId uv.rawVote.round keyDilution uv.rawVote then
    match crypto.verifyCredential uv.cred params membership with
    | .error e => .error (.credentialVerificationFailed e)
    | .ok cred => return { rawVote := uv.rawVote, cred := cred, sig := uv.sig, validatedAt := 0 }
  else .error .otsVerificationFailed

end UnauthenticatedVote

namespace UnauthenticatedBundle

/-- The vote an authenticator of the bundle stands for. -/
def voteOf (ub : UnauthenticatedBundle) (auth : VoteAuthenticator) : UnauthenticatedVote :=
  ⟨⟨auth.sender, ub.round, ub.period, ub.step, ub.proposal⟩, auth.cred, auth.sig⟩

def firstOf (ub : UnauthenticatedBundle) (auth : EquivocationVoteAuthenticator) : UnauthenticatedVote :=
  ⟨⟨auth.sender, ub.round, ub.period, ub.step, auth.proposals.1⟩, auth.cred, auth.sigs.1⟩

def secondOf (ub : UnauthenticatedBundle) (auth : EquivocationVoteAuthenticator) : UnauthenticatedVote :=
  ⟨⟨auth.sender, ub.round, ub.period, ub.step, auth.proposals.2⟩, auth.cred, auth.sigs.2⟩

/-- All senders, plain votes first. -/
def senders (ub : UnauthenticatedBundle) : List Address := ub.votes.map (·.sender) ++ ub.equivocationVotes.map (·.sender)

def tooLarge (ub : UnauthenticatedBundle) (threshold : Nat) : Bool :=
  decide (ub.votes.length > threshold ∨ ub.equivocationVotes.length > threshold ∨
    ub.votes.length + ub.equivocationVotes.length > threshold)

end UnauthenticatedBundle

/-- Insert senders into the set of those seen; the first one already there is an error. -/
def insertVoters {ε : Type} (duplicate : Address → ε) : List Address → List Address → Except ε (List Address)
  | seen, [] => .ok seen
  | seen, a :: as => if a ∈ seen then .error (duplicate a) else insertVoters duplicate (a :: seen) as

/-! ## The certificate verifier -/

/-- Why the vote at an index of a bundle failed. -/
inductive VoteFailure
  | membership (e : LedgerError)
  | pairMembership (e : LedgerError)
  | vote (e : VoteError)
  | pairFirst (e : VoteError)
  | pairSecond (e : VoteError)
deriving DecidableEq, Repr

inductive BundleError
  | stepExceedsMax (step : Step)
  | proposeStep
  | tooLarge (numVotes numEquivocationVotes threshold : Nat)
  | duplicateVoter (addr : Address)
  | identicalEquivocationProposals
  | voteVerificationFailed (index : Nat) (detail : VoteFailure)
  | insufficientQuorum (weight threshold : Nat)
  | consensusParamsError (e : LedgerError)
deriving DecidableEq, Repr

/-- A verified bundle. -/
structure Bundle where
  u : UnauthenticatedBundle
  votes : List Vote
  totalWeight : Nat
deriving DecidableEq, Repr

/-- What is left to verify of one vote, or of one equivocation pair, once the ledger was read. -/
structure VoteWork where
  index : Nat
  first : UnauthenticatedVote
  second : Option UnauthenticatedVote
  membership : Membership
  record : OnlineAccountData
  consensusParams : ConsensusParams

/-- The vote returned is the first one: the weight of a pair counts once. -/
def VoteWork.verify (crypto : VoteCrypto) (w : VoteWork) : Except BundleError Vote :=
  match w.first.verify crypto w.membership w.record w.consensusParams, w.second with
  | .error e, none => .error (.voteVerificationFailed w.index (.vote e))
  | .error e, some _ => .error (.voteVerificationFailed w.index (.pairFirst e))
  | .ok v, none => .ok v
  | .ok v, some second =>
    match second.verify crypto w.membership w.record w.consensusParams with
    | .error e => .error (.voteVerificationFailed w.index (.pairSecond e))
    | .ok _ => .ok v

section Waves

variable {γ α : Type}

/-- The lookups of one wave: they stop at the first that fails. -/
def prepareWave (prepare : γ → α → Except BundleError VoteWork × γ) :
    γ → List α → (List VoteWork × Option BundleError) × γ
  | c, [] => (([], none), c)
  | c, a :: as =>
    match prepare c a with
    | (.error e, c') => (([], some e), c')
    | (.ok w, c') =>
      let r := prepareWave prepare c' as
      ((w :: r.1.1, r.1.2), r.2)

/-- Waves of lookups and verifications.  Within a wave the source verifies in parallel and reports the failure at the
lowest position; a lookup failure comes after the votes before it.  The first argument bounds the number of waves. -/
def verifyInWaves (crypto : VoteCrypto) (wave : Nat) (prepare : γ → α → Except BundleError VoteWork × γ) :
    Nat → γ → List α → Except BundleError (List Vote × γ)
  | 0, c, _ => .ok ([], c)
  | n + 1, c, as =>
    if as.isEmpty then .ok ([], c)
    else do
      let r := prepareWave prepare c (as.take wave)
      let votes ← r.1.1.mapM (VoteWork.verify crypto)
      match r.1.2 with
      | some e => .error e
      | none =>
        let rest ← verifyInWaves crypto wave prepare n r.2 (as.drop wave)
        return (votes ++ rest.1, rest.2)

end Waves

/-- Two votes for each of the verifier's threads, of which there is at least one. -/
def waveSize (threads : { n : Nat // 1 ≤ n }) : Nat := 2 * threads

namespace UnauthenticatedBundle

def wellFormed (ub : UnauthenticatedBundle) : Except BundleError Unit :=
  if ub.step > down then .error (.stepExceedsMax ub.step) else .ok ()

def verifyPreconditions (ub : UnauthenticatedBundle) (l : LedgerReader) : Except BundleError ConsensusParams := do
  ub.wellFormed
  if ub.step = propose then .error .proposeStep
  else
    match l.consensusParams (paramsRound ub.round) with
    | .error e => .error (.consensusParamsError e)
    | .ok proto =>
      let threshold := Step.committeeThreshold ub.step proto
      if ub.tooLarge threshold then .error (.tooLarge ub.votes.length ub.equivocationVotes.length threshold)
      else
        let voters ← insertVoters .duplicateVoter [] (ub.votes.map (·.sender))
        let _ ← insertVoters .duplicateVoter voters (ub.equivocationVotes.map (·.sender))
        return proto

def prepareSingleVote (ub : UnauthenticatedBundle) (l : LedgerReader) (c : MembershipCache)
    (auth : VoteAuthenticator × Nat) : Except BundleError VoteWork × MembershipCache :=
  match c.membership l ub.round ub.period ub.step auth.1.sender with
  | (.error e, c') => (.error (.voteVerificationFailed auth.2 (.membership e)), c')
  | (.ok (membership, record, proto), c') => (.ok ⟨auth.2, ub.voteOf auth.1, none, membership, record, proto⟩, c')

def prepareEquivocationVote (ub : UnauthenticatedBundle) (l : LedgerReader) (c : MembershipCache)
    (auth : EquivocationVoteAuthenticator × Nat) : Except BundleError VoteWork × MembershipCache :=
  if auth.1.proposals.1 = auth.1.proposals.2 then (.error .identicalEquivocationProposals, c)
  else
    match c.membership l ub.round ub.period ub.step auth.1.sender with
    | (.error e, c') => (.error (.voteVerificationFailed auth.2 (.pairMembership e)), c')
    | (.ok (membership, record, proto), c') =>
      (.ok ⟨auth.2, ub.firstOf auth.1, some (ub.secondOf auth.1), membership, record, proto⟩, c')

/-- The sum of the weights wraps. -/
def finish (ub : UnauthenticatedBundle) (proto : ConsensusParams) (verifiedVotes : List Vote) :
    Except BundleError Bundle :=
  let totalWeight := verifiedVotes.foldl (fun sum v => (sum + v.cred.weight) % u64Bound) 0
  if Step.reachesQuorum ub.step proto totalWeight then .ok ⟨ub, verifiedVotes, totalWeight⟩
  else .error (.insufficientQuorum totalWeight (Step.committeeThreshold ub.step proto))

def verify (ub : UnauthenticatedBundle) (threads : { n : Nat // 1 ≤ n }) (crypto : VoteCrypto) (l : LedgerReader) :
    Except BundleError Bundle := do
  let proto ← ub.verifyPreconditions l
  let nVotes := ub.votes.length
  let votes ← verifyInWaves crypto (waveSize threads) (ub.prepareSingleVote l) nVotes .new ub.votes.zipIdx
  let pairs ← verifyInWaves crypto (waveSize threads) (ub.prepareEquivocationVote l) ub.equivocationVotes.length votes.2
    (ub.equivocationVotes.zipIdx nVotes)
  ub.finish proto (votes.1 ++ pairs.1)

end UnauthenticatedBundle

/-! ## The live verifier -/

inductive LiveBundleError
  | proposeStep
  | consensusParams (round : Round) (e : LedgerError)
  | tooLarge (numVotes numEq threshold : Nat)
  | duplicatedVote (sender : Address)
  | duplicatedPair (sender : Address)
  | lookupFailed (e : LedgerError)
  | voteFailed (e : VoteError)
  | pairLookupFailed (e : LedgerError)
  | pairVoteFailed (e : VoteError)
  | notEnoughVotes (weight threshold : Nat)
  /-- The sum of the weights overflows: not an answer but a panic. -/
  | overflow
deriving DecidableEq, Repr

/-- Look up and verify one vote of the bundle. -/
def verifyLive (crypto : VoteCrypto) (l : LedgerReader) (round : Round) (uv : UnauthenticatedVote)
    (lookupFailed : LedgerError → LiveBundleError) (voteFailed : VoteError → LiveBundleError) :
    Except LiveBundleError Vote :=
  match membershipFromLedger l uv.rawVote.sender round uv.rawVote.period uv.rawVote.step with
  | .error e => .error (lookupFailed e)
  | .ok (membership, record, cparams) =>
    match uv.verify crypto membership record cparams with
    | .error e => .error (voteFailed e)
    | .ok v => .ok v

def addWeight (total weight : Nat) : Except LiveBundleError Nat :=
  if total + weight < u64Bound then .ok (total + weight) else .error .overflow

def verifyVotesLive (crypto : VoteCrypto) (l : LedgerReader) (round : Round) (ub : UnauthenticatedBundle) :
    List VoteAuthenticator → List Vote × Nat → Except LiveBundleError (List Vote × Nat)
  | [], acc => .ok acc
  | va :: vas, acc => do
    let v ← verifyLive crypto l round (ub.voteOf va) .lookupFailed .voteFailed
    let total ← addWeight acc.2 v.cred.weight
    verifyVotesLive crypto l round ub vas (acc.1 ++ [v], total)

/-- Both votes of a pair are replayed, but the weight of the first alone is added. -/
def verifyPairsLive (crypto : VoteCrypto) (l : LedgerReader) (round : Round) (ub : UnauthenticatedBundle) :
    List EquivocationVoteAuthenticator → List Vote × Nat → Except LiveBundleError (List Vote × Nat)
  | [], acc => .ok acc
  | eva :: evas, acc => do
    let v₀ ← verifyLive crypto l round (ub.firstOf eva) .pairLookupFailed .pairVoteFailed
    let total ← addWeight acc.2 v₀.cred.weight
    let v₁ ← verifyLive crypto l round (ub.secondOf eva) .pairLookupFailed .pairVoteFailed
    verifyPairsLive crypto l round ub evas (acc.1 ++ [v₀, v₁], total)

/-- The live verifier: `ok` carries the votes the aggregator replays. -/
def verifyBundleImpl (crypto : VoteCrypto) (l : LedgerReader) (round : Round) (ub : UnauthenticatedBundle) :
    Except LiveBundleError (List Vote) :=
  if ub.step = propose then .error .proposeStep
  else
    match l.consensusParams (paramsRound ub.round) with
    | .error e => .error (.consensusParams (paramsRound ub.round) e)
    | .ok proto =>
      let threshold := Step.committeeThreshold ub.step proto
      if ub.tooLarge threshold then .error (.tooLarge ub.votes.length ub.equivocationVotes.length threshold)
      else do
        let voters ← insertVoters .duplicatedVote [] (ub.votes.map (·.sender))
        let _ ← insertVoters .duplicatedPair voters (ub.equivocationVotes.map (·.sender))
        let acc ← verifyVotesLive crypto l round ub ub.votes ([], 0)
        let acc ← verifyPairsLive crypto l round ub ub.equivocationVotes acc
        if Step.reachesQuorum ub.step proto acc.2 then return acc.1
        else .error (.notEnoughVotes acc.2 threshold)

/-! ## What the checks come to -/

theorem insertVoters_ok {ε : Type} (duplicate : Address → ε) : ∀ (as seen r : List Address),
    insertVoters duplicate seen as = .ok r ↔ (as.Nodup ∧ ∀ a ∈ as, a ∉ seen) ∧ r = as.reverse ++ seen
  | [], seen, r => by
    unfold insertVoters
    simp [eq_comm]
  | a :: as, seen, r => by
    unfold insertVoters
    by_cases ha : a ∈ seen
    · rw [if_pos ha]
      constructor
      · intro h; cases h
      · rintro ⟨⟨_, h⟩, _⟩
        exact absurd ha (h a List.mem_cons_self)
    · rw [if_neg ha, insertVoters_ok duplicate as (a :: seen) r, List.nodup_cons]
      have hr : (a :: as).reverse ++ seen = as.reverse ++ a :: seen := by simp
      rw [hr]
      constructor
      · rintro ⟨⟨hn, hs⟩, rfl⟩
        refine ⟨⟨⟨fun h => hs a h List.mem_cons_self, hn⟩, ?_⟩, rfl⟩
        intro b hb
        rcases List.mem_cons.1 hb with rfl | hb
        · exact ha
        · exact fun h => hs b hb (List.mem_cons_of_mem _ h)
      · rintro ⟨⟨⟨hna, hn⟩, hs⟩, rfl⟩
        refine ⟨⟨hn, ?_⟩, rfl⟩
        intro b hb h
        rcases List.mem_cons.1 h with rfl | h
        · exact hna hb
        · exact hs b (List.mem_cons_of_mem _ hb) h

/-- The two passes over the senders of a bundle succeed exactly when no sender occurs twice. -/
theorem insertVoters_both {ε : Type} (d d' : Address → ε) (as bs : List Address) :
    (∃ r r', insertVoters d [] as = .ok r ∧ insertVoters d' r bs = .ok r') ↔ (as ++ bs).Nodup := by
  rw [List.nodup_append]
  constructor
  · rintro ⟨r, r', h, h'⟩
    obtain ⟨⟨ha, _⟩, rfl⟩ := (insertVoters_ok d as [] r).1 h
    obtain ⟨⟨hb, hd⟩, _⟩ := (insertVoters_ok d' bs _ r').1 h'
    refine ⟨ha, hb, ?_⟩
    rintro a ha' b hb' rfl
    exact hd a hb' (by simpa using ha')
  · rintro ⟨ha, hb, hd⟩
    refine ⟨_, _, (insertVoters_ok d as [] _).2 ⟨⟨ha, fun _ _ => List.not_mem_nil⟩, rfl⟩,
      (insertVoters_ok d' bs _ _).2 ⟨⟨hb, ?_⟩, rfl⟩⟩
    intro b hb' h
    exact hd b (by simpa using h) b hb' rfl

/-! ### The cache answers as the ledger does -/

namespace MembershipCache

/-- Everything cached is what the ledger answers. -/
structure Consistent (l : LedgerReader) (round : Round) (c : MembershipCache) : Prop where
  params : ∀ p, c.params = some p → p = fetchParams l round
  circulation : ∀ x, c.circulation = some x → ∀ cp, l.consensusParams (paramsRound round) = .ok cp →
    x = l.circulation (balanceRound round cp) round
  seed : ∀ x, c.seed = some x → ∀ cp, l.consensusParams (paramsRound round) = .ok cp → x = l.seed (seedRound round cp)

theorem consistent_new (l : LedgerReader) (round : Round) : Consistent l round new :=
  ⟨fun _ h => (by cases h), fun _ h => (by cases h), fun _ h => (by cases h)⟩

theorem getD_eq_of_consistent {β : Type} {o : Option β} {d : β} (h : ∀ x, o = some x → x = d) : o.getD d = d := by
  cases o with
  | none => rfl
  | some x => exact h x rfl

/-- **A consistent cache answers as `membershipFromLedger` and stays consistent.** -/
theorem membership_eq {l : LedgerReader} {round : Round} {c : MembershipCache} (hc : Consistent l round c)
    (period : Period) (step : Step) (addr : Address) :
    (c.membership l round period step addr).1 = membershipFromLedger l addr round period step ∧
      Consistent l round (c.membership l round period step addr).2 := by
  have hparams := getD_eq_of_consistent hc.params
  unfold membership membershipFromLedger
  simp only [hparams]
  cases hcp : l.consensusParams (paramsRound round) with
  | error e =>
    have hf : fetchParams l round = .error e := by unfold fetchParams; rw [hcp]; rfl
    rw [hf]
    refine ⟨rfl, ⟨?_, hc.circulation, hc.seed⟩⟩
    rintro p hp
    cases hp
    exact hf.symm
  | ok cp =>
    have hf : fetchParams l round = .ok (cp, balanceRound round cp, seedRound round cp) := by
      unfold fetchParams; rw [hcp]; rfl
    have hcirc := getD_eq_of_consistent (fun x hx => hc.circulation x hx cp hcp)
    have hseed := getD_eq_of_consistent (fun x hx => hc.seed x hx cp hcp)
    have hp' : ∀ p, (some (fetchParams l round) : Option (Except LedgerError (ConsensusParams × Round × Round))) = some p →
        p = fetchParams l round := fun p h => (Option.some.inj h).symm
    simp only [hf, ok_bind, hcirc, hseed] at hp' ⊢
    cases hrec : l.lookupAgreement (balanceRound round cp) addr with
    | error e => exact ⟨rfl, ⟨by rw [hf]; exact hp', hc.circulation, hc.seed⟩⟩
    | ok record =>
      have hcirc' : ∀ x, (some (l.circulation (balanceRound round cp) round) : Option (Except LedgerError Nat)) = some x →
          ∀ cp', l.consensusParams (paramsRound round) = .ok cp' → x = l.circulation (balanceRound round cp') round := by
        intro x hx cp' hcp'
        rw [hcp] at hcp'
        cases hcp'
        exact (Option.some.inj hx).symm
      simp only [ok_bind]
      cases hci : l.circulation (balanceRound round cp) round with
      | error e => exact ⟨rfl, ⟨by rw [hf]; exact hp', by rw [hci] at hcirc'; exact hcirc', hc.seed⟩⟩
      | ok total =>
        have hseed' : ∀ x, (some (l.seed (seedRound round cp)) : Option (Except LedgerError (BitVec 256))) = some x →
            ∀ cp', l.consensusParams (paramsRound round) = .ok cp' → x = l.seed (seedRound round cp') := by
          intro x hx cp' hcp'
          rw [hcp] at hcp'
          cases hcp'
          exact (Option.some.inj hx).symm
        simp only [ok_bind]
        rw [hci] at hcirc'
        cases hse : l.seed (seedRound round cp) with
        | error e =>
          rw [hse] at hseed'
          exact ⟨rfl, ⟨by rw [hf]; exact hp', hcirc', hseed'⟩⟩
        | ok seed =>
          rw [hse] at hseed'
          exact ⟨rfl, ⟨by rw [hf]; exact hp', hcirc', hseed'⟩⟩

end MembershipCache

/-! ### Waves verify one by one -/

section Waves

variable {γ α : Type} {crypto : VoteCrypto} {prepare : γ → α → Except BundleError VoteWork × γ}
  {prep : α → Except BundleError VoteWork} {Inv : γ → Prop}

/-- A wave looks up and verifies its votes as if one by one. -/
theorem prepareWave_eq (crypto : VoteCrypto) (hp : ∀ c a, Inv c → (prepare c a).1 = prep a ∧ Inv (prepare c a).2) :
    ∀ (as : List α) (c : γ),
    Inv c → Inv (prepareWave prepare c as).2 ∧
      ((prepareWave prepare c as).1.1.mapM (VoteWork.verify crypto) >>= fun votes =>
        match (prepareWave prepare c as).1.2 with
        | some e => .error e
        | none => .ok votes) = as.mapM (fun a => prep a >>= VoteWork.verify crypto)
  | [], c, hc => ⟨hc, rfl⟩
  | a :: as, c, hc => by
    obtain ⟨h₁, h₂⟩ := hp c a hc
    unfold prepareWave
    cases hpa : prepare c a with
    | mk r c' =>
      rw [hpa] at h₁ h₂
      cases r with
      | error e =>
        refine ⟨h₂, ?_⟩
        rw [List.mapM_cons, ← h₁]
        rfl
      | ok w =>
        obtain ⟨ih₁, ih₂⟩ := prepareWave_eq crypto hp as c' h₂
        refine ⟨ih₁, ?_⟩
        rw [List.mapM_cons, List.mapM_cons, ← h₁, ← ih₂, ok_bind]
        cases w.verify crypto with
        | error e => rfl
        | ok v =>
          cases (prepareWave prepare c' as).1.1.mapM (VoteWork.verify crypto) with
          | error e => rfl
          | ok vs =>
            cases (prepareWave prepare c' as).1.2 with
            | none => rfl
            | some e => rfl

/-- **The waves return what verifying one by one returns**: all votes, or the error of the first that fails. -/
theorem verifyInWaves_eq {wave : Nat} (hw : 0 < wave)
    (hp : ∀ c a, Inv c → (prepare c a).1 = prep a ∧ Inv (prepare c a).2) : ∀ (n : Nat) (as : List α) (c : γ),
    as.length ≤ n → Inv c →
      (∀ vs c', verifyInWaves crypto wave prepare n c as = .ok (vs, c') → Inv c') ∧
      (verifyInWaves crypto wave prepare n c as).map Prod.fst = as.mapM (fun a => prep a >>= VoteWork.verify crypto)
  | 0, as, c, hlen, hc => by
    have : as = [] := List.length_eq_zero_iff.1 (Nat.le_zero.1 hlen)
    subst this
    exact ⟨fun _ _ h => (by cases h; exact hc), rfl⟩
  | n + 1, [], c, _, hc => ⟨fun _ _ h => (by cases h; exact hc), rfl⟩
  | n + 1, a :: as, c, hlen, hc => by
    have hdrop : ((a :: as).drop wave).length ≤ n := by
      rw [List.length_drop, List.length_cons] at *
      omega
    obtain ⟨h₁, h₂⟩ := prepareWave_eq crypto hp ((a :: as).take wave) c hc
    obtain ⟨ih₁, ih₂⟩ := verifyInWaves_eq hw hp n ((a :: as).drop wave) (prepareWave prepare c ((a :: as).take wave)).2
      hdrop h₁
    have hsplit : (a :: as).mapM (fun a => prep a >>= VoteWork.verify crypto) = do
        let vs ← ((a :: as).take wave).mapM (fun a => prep a >>= VoteWork.verify crypto)
        let ws ← ((a :: as).drop wave).mapM (fun a => prep a >>= VoteWork.verify crypto)
        return vs ++ ws := by
      rw [← List.mapM_append, List.take_append_drop]
    generalize hrest : verifyInWaves crypto wave prepare n (prepareWave prepare c ((a :: as).take wave)).2
      ((a :: as).drop wave) = rest at ih₁ ih₂
    rw [hsplit, ← h₂, ← ih₂]
    unfold verifyInWaves
    simp only [List.isEmpty_cons, Bool.false_eq_true, ↓reduceIte, hrest]
    cases (prepareWave prepare c ((a :: as).take wave)).1.1.mapM (VoteWork.verify crypto) with
    | error e => exact ⟨fun _ _ h => (by cases h), rfl⟩
    | ok vs =>
      cases (prepareWave prepare c ((a :: as).take wave)).1.2 with
      | some e => exact ⟨fun _ _ h => (by cases h), rfl⟩
      | none =>
        cases rest with
        | error e => exact ⟨fun _ _ h => (by cases h), rfl⟩
        | ok r =>
          refine ⟨?_, rfl⟩
          intro ws c' h
          cases h
          exact ih₁ r.1 r.2 rfl

end Waves

/-! ### The same checks, and two more -/

section Checks

variable (crypto : VoteCrypto) (l : LedgerReader)

/-- The verified form of a vote, if the ledger knows its sender and the vote verifies. -/
def accepted (uv : UnauthenticatedVote) : Option Vote :=
  match membershipFromLedger l uv.rawVote.sender uv.rawVote.round uv.rawVote.period uv.rawVote.step with
  | .error _ => none
  | .ok (membership, record, cparams) =>
    match uv.verify crypto membership record cparams with
    | .error _ => none
    | .ok v => some v

def weightOf (uv : UnauthenticatedVote) : Nat :=
  match accepted crypto l uv with
  | none => 0
  | some v => v.cred.weight

/-- The weight of all votes of a bundle, that of a pair counted once. -/
def UnauthenticatedBundle.weight (ub : UnauthenticatedBundle) : Nat :=
  (ub.votes.map (fun a => weightOf crypto l (ub.voteOf a))).sum +
    (ub.equivocationVotes.map (fun a => weightOf crypto l (ub.firstOf a))).sum

/-- The votes are accepted, and give those. -/
abbrev AllAccepted {α : Type} (f : α → UnauthenticatedVote) : List α → List Vote → Prop :=
  List.Forall₂ fun a v => accepted crypto l (f a) = some v

/-- The checks both verifiers make. -/
structure SharedChecks (ub : UnauthenticatedBundle) (proto : ConsensusParams) : Prop where
  step_ne : ub.step ≠ propose
  params : l.consensusParams (paramsRound ub.round) = .ok proto
  size : ub.tooLarge (Step.committeeThreshold ub.step proto) = false
  nodup : ub.senders.Nodup
  votes : ∀ a ∈ ub.votes, (accepted crypto l (ub.voteOf a)).isSome
  pairs : ∀ a ∈ ub.equivocationVotes,
    (accepted crypto l (ub.firstOf a)).isSome ∧ (accepted crypto l (ub.secondOf a)).isSome
  quorum : Step.reachesQuorum ub.step proto (ub.weight crypto l) = true

variable {crypto l}

theorem weightOf_of_accepted {uv : UnauthenticatedVote} {v : Vote} (h : accepted crypto l uv = some v) :
    weightOf crypto l uv = v.cred.weight := by
  unfold weightOf
  rw [h]

variable {α : Type} {f : α → UnauthenticatedVote} {as : List α} {vs : List Vote}

theorem sum_weightOf (h : AllAccepted crypto l f as vs) :
    (as.map (fun a => weightOf crypto l (f a))).sum = (vs.map (·.cred.weight)).sum := by
  induction h with
  | nil => rfl
  | cons ha _ ih => rw [List.map_cons, List.map_cons, List.sum_cons, List.sum_cons, ih, weightOf_of_accepted ha]

theorem exists_forall₂_of_isSome : ∀ {as : List α}, (∀ a ∈ as, (accepted crypto l (f a)).isSome) →
    ∃ vs, AllAccepted crypto l f as vs
  | [], _ => ⟨[], .nil⟩
  | a :: as, h => by
    obtain ⟨v, hv⟩ := Option.isSome_iff_exists.1 (h a List.mem_cons_self)
    obtain ⟨vs, hvs⟩ := exists_forall₂_of_isSome (fun b hb => h b (List.mem_cons_of_mem a hb))
    exact ⟨v :: vs, .cons hv hvs⟩

theorem isSome_of_forall₂ (h : AllAccepted crypto l f as vs) :
    ∀ a ∈ as, (accepted crypto l (f a)).isSome := by
  induction h with
  | nil => exact fun _ h => absurd h List.not_mem_nil
  | cons ha _ ih =>
    intro b hb
    rcases List.mem_cons.1 hb with rfl | hb
    · rw [ha]; rfl
    · exact ih b hb

/-! #### The live verifier -/

variable {round : Round} {ub : UnauthenticatedBundle}

theorem verifyLive_ok {uv : UnauthenticatedVote} {lf : LedgerError → LiveBundleError} {vf : VoteError → LiveBundleError}
    {v : Vote} (hr : uv.rawVote.round = round) :
    verifyLive crypto l round uv lf vf = .ok v ↔ accepted crypto l uv = some v := by
  unfold verifyLive accepted
  rw [hr]
  cases membershipFromLedger l uv.rawVote.sender round uv.rawVote.period uv.rawVote.step with
  | error e => simp
  | ok r =>
    simp only
    cases uv.verify crypto r.1 r.2.1 r.2.2 with
    | error e => simp
    | ok v' => simp

theorem addWeight_ok {a b c : Nat} : addWeight a b = .ok c ↔ a + b < u64Bound ∧ c = a + b := by
  unfold addWeight
  split
  · rename_i h
    rw [Except.ok.injEq, and_iff_right h, eq_comm]
  · rename_i h
    constructor
    · intro hc; cases hc
    · rintro ⟨hc, _⟩; exact absurd hc h

theorem verifyVotesLive_ok (hr : ub.round = round) : ∀ (vas : List VoteAuthenticator) (acc r : List Vote × Nat),
    verifyVotesLive crypto l round ub vas acc = .ok r →
    ∃ vs, AllAccepted crypto l ub.voteOf vas vs ∧
      r = (acc.1 ++ vs, acc.2 + (vs.map (·.cred.weight)).sum)
  | [], acc, r, h => by
    cases h
    exact ⟨[], .nil, by simp⟩
  | va :: vas, acc, r, h => by
    unfold verifyVotesLive at h
    obtain ⟨v, hv, h⟩ := bind_eq_ok.1 h
    obtain ⟨n, hn, h⟩ := bind_eq_ok.1 h
    obtain ⟨_, rfl⟩ := addWeight_ok.1 hn
    obtain ⟨vs, hvs, rfl⟩ := verifyVotesLive_ok hr vas _ r h
    exact ⟨v :: vs, .cons ((verifyLive_ok hr).1 hv) hvs, by simp [Nat.add_assoc]⟩

theorem verifyVotesLive_of_accepted (hr : ub.round = round) : ∀ (vas : List VoteAuthenticator) (vs : List Vote)
    (acc : List Vote × Nat), AllAccepted crypto l ub.voteOf vas vs →
    acc.2 + (vs.map (·.cred.weight)).sum < u64Bound →
    verifyVotesLive crypto l round ub vas acc = .ok (acc.1 ++ vs, acc.2 + (vs.map (·.cred.weight)).sum)
  | [], _, acc, .nil, _ => by simp [verifyVotesLive]
  | va :: vas, v :: vs, acc, .cons hv hvs, hlt => by
    rw [List.map_cons, List.sum_cons] at hlt ⊢
    unfold verifyVotesLive
    rw [(verifyLive_ok hr).2 hv, ok_bind, addWeight_ok.2 ⟨by omega, rfl⟩, ok_bind,
      verifyVotesLive_of_accepted hr vas vs _ hvs (by simp only; omega)]
    simp [Nat.add_assoc]

theorem verifyPairsLive_ok (hr : ub.round = round) : ∀ (evas : List EquivocationVoteAuthenticator)
    (acc r : List Vote × Nat), verifyPairsLive crypto l round ub evas acc = .ok r →
    ∃ vs, AllAccepted crypto l ub.firstOf evas vs ∧
      (∀ a ∈ evas, (accepted crypto l (ub.secondOf a)).isSome) ∧ r.2 = acc.2 + (vs.map (·.cred.weight)).sum
  | [], acc, r, h => by
    cases h
    exact ⟨[], .nil, fun _ h => absurd h List.not_mem_nil, by simp⟩
  | eva :: evas, acc, r, h => by
    unfold verifyPairsLive at h
    obtain ⟨v₀, hv₀, h⟩ := bind_eq_ok.1 h
    obtain ⟨n, hn, h⟩ := bind_eq_ok.1 h
    obtain ⟨v₁, hv₁, h⟩ := bind_eq_ok.1 h
    obtain ⟨_, rfl⟩ := addWeight_ok.1 hn
    obtain ⟨vs, hvs, hsome, hr₂⟩ := verifyPairsLive_ok hr evas _ r h
    refine ⟨v₀ :: vs, .cons ((verifyLive_ok hr).1 hv₀) hvs, ?_, ?_⟩
    · intro a ha
      rcases List.mem_cons.1 ha with rfl | ha
      · rw [(verifyLive_ok hr).1 hv₁]; rfl
      · exact hsome a ha
    · rw [hr₂, List.map_cons, List.sum_cons, Nat.add_assoc]

theorem verifyPairsLive_of_accepted (hr : ub.round = round) : ∀ (evas : List EquivocationVoteAuthenticator)
    (vs : List Vote) (acc : List Vote × Nat),
    AllAccepted crypto l ub.firstOf evas vs →
    (∀ a ∈ evas, (accepted crypto l (ub.secondOf a)).isSome) → acc.2 + (vs.map (·.cred.weight)).sum < u64Bound →
    ∃ r, verifyPairsLive crypto l round ub evas acc = .ok r
  | [], _, acc, .nil, _, _ => ⟨acc, rfl⟩
  | eva :: evas, v :: vs, acc, .cons hv hvs, hsome, hlt => by
    obtain ⟨v₁, hv₁⟩ := Option.isSome_iff_exists.1 (hsome eva List.mem_cons_self)
    rw [List.map_cons, List.sum_cons] at hlt
    unfold verifyPairsLive
    rw [(verifyLive_ok hr).2 hv, ok_bind, addWeight_ok.2 ⟨by omega, rfl⟩, ok_bind, (verifyLive_ok hr).2 hv₁, ok_bind]
    exact verifyPairsLive_of_accepted hr evas vs _ hvs (fun a ha => hsome a (List.mem_cons_of_mem _ ha))
      (by simp only; omega)

/-- **The live verifier accepts a bundle exactly when the shared checks hold.** -/
theorem verifyBundleImpl_isOk_iff (hr : ub.round = round) (hfit : ub.weight crypto l < u64Bound) :
    (∃ vs, verifyBundleImpl crypto l round ub = .ok vs) ↔ ∃ proto, SharedChecks crypto l ub proto := by
  constructor
  · rintro ⟨out, h⟩
    unfold verifyBundleImpl at h
    split at h
    · cases h
    rename_i hstep
    cases hp : l.consensusParams (paramsRound ub.round) with
    | error e => rw [hp] at h; cases h
    | ok proto =>
      simp only [hp] at h
      split at h
      · cases h
      rename_i hsize
      obtain ⟨voters, h₁, h⟩ := bind_eq_ok.1 h
      obtain ⟨voters', h₂, h⟩ := bind_eq_ok.1 h
      obtain ⟨acc, h₃, h⟩ := bind_eq_ok.1 h
      obtain ⟨acc', h₄, hfin⟩ := bind_eq_ok.1 h
      obtain ⟨vs, hvs, rfl⟩ := verifyVotesLive_ok hr _ _ _ h₃
      obtain ⟨ws, hws, hsome, hw⟩ := verifyPairsLive_ok hr _ _ _ h₄
      split at hfin
      · rename_i hq
        have hfirst := isSome_of_forall₂ hws
        refine ⟨proto, hstep, hp, by simpa using hsize, (insertVoters_both _ _ _ _).1 ⟨_, _, h₁, h₂⟩,
          isSome_of_forall₂ hvs, fun a ha => ⟨hfirst a ha, hsome a ha⟩, ?_⟩
        rw [UnauthenticatedBundle.weight, sum_weightOf hvs, sum_weightOf hws]
        simpa [hw] using hq
      · cases hfin
  · rintro ⟨proto, hc⟩
    obtain ⟨vs, hvs⟩ := exists_forall₂_of_isSome hc.votes
    obtain ⟨ws, hws⟩ := exists_forall₂_of_isSome (fun a ha => (hc.pairs a ha).1)
    have hq := hc.quorum
    rw [UnauthenticatedBundle.weight, sum_weightOf hvs, sum_weightOf hws] at hfit hq
    obtain ⟨voters, voters', h₁, h₂⟩ := (insertVoters_both LiveBundleError.duplicatedVote
      LiveBundleError.duplicatedPair _ _).2 hc.nodup
    have h₃ := verifyVotesLive_of_accepted hr ub.votes vs ([], 0) hvs (by simp only; omega)
    obtain ⟨acc', h₄⟩ := verifyPairsLive_of_accepted hr ub.equivocationVotes ws
      ([] ++ vs, 0 + (vs.map (·.cred.weight)).sum) hws (fun a ha => (hc.pairs a ha).2) (by simp only; omega)
    obtain ⟨ws', hws', -, hw⟩ := verifyPairsLive_ok hr _ _ _ h₄
    have hsum : acc'.2 = (vs.map (·.cred.weight)).sum + (ws.map (·.cred.weight)).sum := by
      rw [hw, ← sum_weightOf hws', ← sum_weightOf hws, zero_add]
    refine ⟨acc'.1, ?_⟩
    unfold verifyBundleImpl
    simp only [if_neg hc.step_ne, hc.params, hc.size, h₁, h₂, h₃, h₄, ok_bind, hsum, hq, Bool.false_eq_true, ↓reduceIte]
    rfl

/-! #### The certificate verifier -/

/-- Verify a plain vote with the ledger's own answer. -/
def prepSingleVote (ub : UnauthenticatedBundle) (l : LedgerReader) (auth : VoteAuthenticator × Nat) :
    Except BundleError VoteWork :=
  match membershipFromLedger l auth.1.sender ub.round ub.period ub.step with
  | .error e => .error (.voteVerificationFailed auth.2 (.membership e))
  | .ok (membership, record, proto) => .ok ⟨auth.2, ub.voteOf auth.1, none, membership, record, proto⟩

def prepEquivocationVote (ub : UnauthenticatedBundle) (l : LedgerReader) (auth : EquivocationVoteAuthenticator × Nat) :
    Except BundleError VoteWork :=
  if auth.1.proposals.1 = auth.1.proposals.2 then .error .identicalEquivocationProposals
  else
    match membershipFromLedger l auth.1.sender ub.round ub.period ub.step with
    | .error e => .error (.voteVerificationFailed auth.2 (.pairMembership e))
    | .ok (membership, record, proto) =>
      .ok ⟨auth.2, ub.firstOf auth.1, some (ub.secondOf auth.1), membership, record, proto⟩

theorem prepareSingleVote_eq (ub : UnauthenticatedBundle) (c : MembershipCache) (a : VoteAuthenticator × Nat)
    (hc : MembershipCache.Consistent l ub.round c) : (ub.prepareSingleVote l c a).1 = prepSingleVote ub l a ∧
      MembershipCache.Consistent l ub.round (ub.prepareSingleVote l c a).2 := by
  obtain ⟨h₁, h₂⟩ := MembershipCache.membership_eq hc ub.period ub.step a.1.sender
  unfold UnauthenticatedBundle.prepareSingleVote prepSingleVote
  cases hm : c.membership l ub.round ub.period ub.step a.1.sender with
  | mk r c' =>
    rw [hm] at h₁ h₂
    rw [← h₁]
    cases r with
    | error e => exact ⟨rfl, h₂⟩
    | ok r => exact ⟨rfl, h₂⟩

theorem prepareEquivocationVote_eq (ub : UnauthenticatedBundle) (c : MembershipCache)
    (a : EquivocationVoteAuthenticator × Nat) (hc : MembershipCache.Consistent l ub.round c) :
    (ub.prepareEquivocationVote l c a).1 = prepEquivocationVote ub l a ∧
      MembershipCache.Consistent l ub.round (ub.prepareEquivocationVote l c a).2 := by
  obtain ⟨h₁, h₂⟩ := MembershipCache.membership_eq hc ub.period ub.step a.1.sender
  unfold UnauthenticatedBundle.prepareEquivocationVote prepEquivocationVote
  split
  · exact ⟨rfl, hc⟩
  · cases hm : c.membership l ub.round ub.period ub.step a.1.sender with
    | mk r c' =>
      rw [hm] at h₁ h₂
      rw [← h₁]
      cases r with
      | error e => exact ⟨rfl, h₂⟩
      | ok r => exact ⟨rfl, h₂⟩

theorem prepSingleVote_ok (a : VoteAuthenticator × Nat) (v : Vote) :
    (prepSingleVote ub l a >>= VoteWork.verify crypto) = .ok v ↔ accepted crypto l (ub.voteOf a.1) = some v := by
  unfold prepSingleVote accepted
  show _ ↔ (match membershipFromLedger l a.1.sender ub.round ub.period ub.step with
    | .error _ => none
    | .ok (m, r, p) => match (ub.voteOf a.1).verify crypto m r p with
      | .error _ => none
      | .ok v => some v) = some v
  cases membershipFromLedger l a.1.sender ub.round ub.period ub.step with
  | error e => simp
  | ok r =>
    simp only [ok_bind, VoteWork.verify]
    cases (ub.voteOf a.1).verify crypto r.1 r.2.1 r.2.2 with
    | error e => simp
    | ok v' => simp

theorem prepEquivocationVote_ok (a : EquivocationVoteAuthenticator × Nat) (v : Vote) :
    (prepEquivocationVote ub l a >>= VoteWork.verify crypto) = .ok v ↔
      (a.1.proposals.1 ≠ a.1.proposals.2 ∧ (accepted crypto l (ub.secondOf a.1)).isSome) ∧
        accepted crypto l (ub.firstOf a.1) = some v := by
  have hfirst : accepted crypto l (ub.firstOf a.1) = match membershipFromLedger l a.1.sender ub.round ub.period ub.step with
    | .error _ => none
    | .ok (m, r, p) => match (ub.firstOf a.1).verify crypto m r p with
      | .error _ => none
      | .ok v => some v := rfl
  have hsecond : accepted crypto l (ub.secondOf a.1) = match membershipFromLedger l a.1.sender ub.round ub.period ub.step with
    | .error _ => none
    | .ok (m, r, p) => match (ub.secondOf a.1).verify crypto m r p with
      | .error _ => none
      | .ok v => some v := rfl
  rw [hfirst, hsecond]
  unfold prepEquivocationVote
  by_cases hid : a.1.proposals.1 = a.1.proposals.2
  · simp [hid]
  · rw [if_neg hid]
    cases membershipFromLedger l a.1.sender ub.round ub.period ub.step with
    | error e => simp
    | ok r =>
      simp only [ok_bind, VoteWork.verify]
      cases (ub.firstOf a.1).verify crypto r.1 r.2.1 r.2.2 with
      | error e => simp
      | ok v₀ =>
        simp only
        cases (ub.secondOf a.1).verify crypto r.1 r.2.1 r.2.2 with
        | error e => simp
        | ok v₁ => simp [hid]

theorem foldl_wrapping_sum : ∀ (vs : List Vote) (s : Nat), s + (vs.map (·.cred.weight)).sum < u64Bound →
    vs.foldl (fun sum v => (sum + v.cred.weight) % u64Bound) s = s + (vs.map (·.cred.weight)).sum
  | [], s, _ => by simp
  | v :: vs, s, h => by
    rw [List.map_cons, List.sum_cons] at h ⊢
    have hlt : s + v.cred.weight < u64Bound := by omega
    rw [List.foldl_cons, Nat.mod_eq_of_lt hlt, foldl_wrapping_sum vs _ (by omega)]
    omega

theorem forall₂_zipIdx {β γ : Type} (R : β → γ → Prop) : ∀ (as : List β) (bs : List γ) (n : Nat),
    List.Forall₂ (fun a b => R a.1 b) (as.zipIdx n) bs ↔ List.Forall₂ R as bs
  | [], bs, n => by simp
  | a :: as, bs, n => by
    rw [List.zipIdx_cons]
    cases bs with
    | nil => simp
    | cons b bs => rw [List.forall₂_cons, List.forall₂_cons, forall₂_zipIdx R as bs (n + 1)]

theorem waveSize_pos (threads : { n : Nat // 1 ≤ n }) : 0 < waveSize threads := by
  have := threads.2
  unfold waveSize
  omega

/-- The waves over the plain votes succeed exactly when every vote is accepted. -/
theorem verifyInWaves_votes (threads : { n : Nat // 1 ≤ n }) (ub : UnauthenticatedBundle) (vs : List Vote)
    {c : MembershipCache} (hc : MembershipCache.Consistent l ub.round c) :
    ((∃ c', verifyInWaves crypto (waveSize threads) (ub.prepareSingleVote l) ub.votes.length c ub.votes.zipIdx
        = .ok (vs, c')) ↔ AllAccepted crypto l ub.voteOf ub.votes vs) ∧
      ∀ c', verifyInWaves crypto (waveSize threads) (ub.prepareSingleVote l) ub.votes.length c ub.votes.zipIdx
        = .ok (vs, c') → MembershipCache.Consistent l ub.round c' := by
  have hlen : ub.votes.zipIdx.length ≤ ub.votes.length := by rw [List.length_zipIdx]
  obtain ⟨h₁, h₂⟩ := @verifyInWaves_eq _ _ crypto _ _ _ _ (waveSize_pos threads) (prepareSingleVote_eq ub) _ _ c hlen hc
  refine ⟨?_, h₁ vs⟩
  rw [← Run.map_fst_eq_ok, h₂, Run.mapM_eq_ok]
  simp only [prepSingleVote_ok]
  exact forall₂_zipIdx (fun a v => accepted crypto l (ub.voteOf a) = some v) _ _ _

/-- The waves over the pairs succeed exactly when both votes of every pair are accepted and differ. -/
theorem verifyInWaves_pairs (threads : { n : Nat // 1 ≤ n }) (ub : UnauthenticatedBundle) (vs : List Vote) (n : Nat)
    {c : MembershipCache} (hc : MembershipCache.Consistent l ub.round c) :
    (∃ c', verifyInWaves crypto (waveSize threads) (ub.prepareEquivocationVote l) ub.equivocationVotes.length c
        (ub.equivocationVotes.zipIdx n) = .ok (vs, c')) ↔
      (∀ a ∈ ub.equivocationVotes, a.proposals.1 ≠ a.proposals.2 ∧ (accepted crypto l (ub.secondOf a)).isSome) ∧
        AllAccepted crypto l ub.firstOf ub.equivocationVotes vs := by
  have hlen : (ub.equivocationVotes.zipIdx n).length ≤ ub.equivocationVotes.length := by rw [List.length_zipIdx]
  obtain ⟨_, h₂⟩ := @verifyInWaves_eq _ _ crypto _ _ _ _ (waveSize_pos threads) (prepareEquivocationVote_eq ub) _ _ c
    hlen hc
  rw [← Run.map_fst_eq_ok, h₂, Run.mapM_eq_ok]
  simp only [prepEquivocationVote_ok]
  rw [← List.forall₂_and_left]
  exact forall₂_zipIdx (fun a v => (a.proposals.1 ≠ a.proposals.2 ∧ (accepted crypto l (ub.secondOf a)).isSome) ∧
    accepted crypto l (ub.firstOf a) = some v) _ _ _

theorem verifyPreconditions_ok {proto : ConsensusParams} :
    ub.verifyPreconditions l = .ok proto ↔ ub.step ≤ down ∧ ub.step ≠ propose ∧
      l.consensusParams (paramsRound ub.round) = .ok proto ∧
      ub.tooLarge (Step.committeeThreshold ub.step proto) = false ∧ ub.senders.Nodup := by
  unfold UnauthenticatedBundle.verifyPreconditions UnauthenticatedBundle.wellFormed
  by_cases hd : ub.step > down
  · rw [if_pos hd, error_bind]
    constructor
    · intro h; cases h
    · rintro ⟨h, _⟩; exact absurd h (not_le.2 hd)
  rw [if_neg hd, ok_bind]
  by_cases hp : ub.step = propose
  · rw [if_pos hp]
    constructor
    · intro h; cases h
    · rintro ⟨_, h, _⟩; exact absurd hp h
  rw [if_neg hp]
  have hle : ub.step ≤ down := not_lt.1 hd
  cases hl : l.consensusParams (paramsRound ub.round) with
  | error e => simp
  | ok p =>
    simp only [hle, Ne, hp, not_false_eq_true, true_and, Except.ok.injEq]
    by_cases hs : ub.tooLarge (Step.committeeThreshold ub.step p) = true
    · rw [if_pos hs]
      constructor
      · intro h; cases h
      · rintro ⟨rfl, h, _⟩; rw [hs] at h; cases h
    · rw [if_neg hs]
      constructor
      · intro h
        obtain ⟨r, h₁, h⟩ := bind_eq_ok.1 h
        obtain ⟨r', h₂, h⟩ := bind_eq_ok.1 h
        cases h
        exact ⟨rfl, by simpa using hs, (insertVoters_both _ _ _ _).1 ⟨r, r', h₁, h₂⟩⟩
      · rintro ⟨rfl, _, hn⟩
        obtain ⟨r, r', h₁, h₂⟩ := (insertVoters_both BundleError.duplicateVoter BundleError.duplicateVoter _ _).2 hn
        rw [h₁, ok_bind, h₂, ok_bind]
        rfl

/-- **The certificate verifier accepts a bundle exactly when the shared checks hold, the step is at most `down`, and
every pair is for two different proposals.** -/
theorem verify_isOk_iff (threads : { n : Nat // 1 ≤ n }) (hfit : ub.weight crypto l < u64Bound) :
    (∃ b, ub.verify threads crypto l = .ok b) ↔
      (∃ proto, SharedChecks crypto l ub proto) ∧ ub.step ≤ down ∧
        ∀ a ∈ ub.equivocationVotes, a.proposals.1 ≠ a.proposals.2 := by
  have hsum : ∀ vs ws, AllAccepted crypto l ub.voteOf ub.votes vs → AllAccepted crypto l ub.firstOf ub.equivocationVotes ws →
      (vs ++ ws).foldl (fun sum v => (sum + v.cred.weight) % u64Bound) 0 = ub.weight crypto l := by
    intro vs ws hvs hws
    have : ((vs ++ ws).map (·.cred.weight)).sum = ub.weight crypto l := by
      rw [List.map_append, List.sum_append, ← sum_weightOf hvs, ← sum_weightOf hws]
      rfl
    rw [foldl_wrapping_sum _ 0 (by omega), zero_add, this]
  constructor
  · rintro ⟨b, h⟩
    unfold UnauthenticatedBundle.verify at h
    obtain ⟨proto, hpre, h⟩ := bind_eq_ok.1 h
    obtain ⟨⟨vs, c⟩, h₁, h⟩ := bind_eq_ok.1 h
    obtain ⟨⟨ws, c'⟩, h₂, hfin⟩ := bind_eq_ok.1 h
    obtain ⟨hd, hp, hl, hs, hn⟩ := verifyPreconditions_ok.1 hpre
    obtain ⟨hvotes, hcons⟩ := verifyInWaves_votes threads ub vs (MembershipCache.consistent_new l ub.round)
    have hvs := hvotes.1 ⟨c, h₁⟩
    obtain ⟨hpairs, hfirst⟩ := (verifyInWaves_pairs threads ub ws ub.votes.length (hcons c h₁)).1 ⟨c', h₂⟩
    unfold UnauthenticatedBundle.finish at hfin
    simp only [hsum vs ws hvs hfirst] at hfin
    split at hfin
    · rename_i hq
      have hsome := isSome_of_forall₂ hfirst
      exact ⟨⟨proto, hp, hl, hs, hn, isSome_of_forall₂ hvs, fun a ha => ⟨hsome a ha, (hpairs a ha).2⟩, hq⟩, hd,
        fun a ha => (hpairs a ha).1⟩
    · cases hfin
  · rintro ⟨⟨proto, hc⟩, hd, hne⟩
    have hpre := verifyPreconditions_ok.2 ⟨hd, hc.step_ne, hc.params, hc.size, hc.nodup⟩
    obtain ⟨vs, hvs⟩ := exists_forall₂_of_isSome hc.votes
    obtain ⟨ws, hws⟩ := exists_forall₂_of_isSome (fun a ha => (hc.pairs a ha).1)
    obtain ⟨hvotes, hcons⟩ := verifyInWaves_votes threads ub vs (MembershipCache.consistent_new l ub.round)
    obtain ⟨c, h₁⟩ := hvotes.2 hvs
    obtain ⟨c', h₂⟩ := (verifyInWaves_pairs threads ub ws ub.votes.length (hcons c h₁)).2
      ⟨fun a ha => ⟨hne a ha, (hc.pairs a ha).2⟩, hws⟩
    unfold UnauthenticatedBundle.verify
    rw [hpre, ok_bind]
    simp only [h₁, h₂, ok_bind, UnauthenticatedBundle.finish, hsum vs ws hvs hws, hc.quorum, ↓reduceIte]
    exact ⟨_, rfl⟩

/-- **The two verifiers give the same answer except on bundles that pass every shared check but carry an equivocation
pair for one proposal, or a step beyond `down`**: those the live verifier accepts and the certificate verifier does
not. -/
theorem bundle_verifiers_agree_iff (crypto : VoteCrypto) (l : LedgerReader) (threads : { n : Nat // 1 ≤ n })
    (round : Round) (ub : UnauthenticatedBundle) (hround : ub.round = round) (hfit : ub.weight crypto l < u64Bound) :
    ((∃ vs, verifyBundleImpl crypto l round ub = .ok vs) ↔ ∃ b, ub.verify threads crypto l = .ok b) ↔
      ((∃ proto, SharedChecks crypto l ub proto) →
        ub.step ≤ down ∧ ∀ a ∈ ub.equivocationVotes, a.proposals.1 ≠ a.proposals.2) := by
  rw [verifyBundleImpl_isOk_iff hround hfit, verify_isOk_iff threads hfit]
  constructor
  · intro h hc
    exact (h.1 hc).2
  · intro h
    exact ⟨fun hc => ⟨hc, h hc⟩, fun hc => hc.1⟩

end Checks

/-- Signatures and credentials that all verify, each with one seat. -/
def acceptingCrypto : VoteCrypto where
  verifyOneTimeSignature := fun _ _ _ _ _ => true
  verifyCredential := fun _ _ _ => .ok { (default : Credential) with weight := 1 }

/-- A ledger that knows every account, with a quorum of two at every step. -/
def quorumOfTwoLedger : LedgerReader where
  seed := fun _ => .ok 0
  lookupAgreement := fun _ _ => .ok default
  circulation := fun _ _ => .ok 1
  consensusParams := fun _ => .ok { (default : ConsensusParams) with
    softCommitteeThreshold := 2, certCommitteeThreshold := 2, nextCommitteeThreshold := 2 }

/-- One plain vote and a pair of the same vote twice. -/
def fakePairBundle : UnauthenticatedBundle where
  round := 5
  period := 0
  step := cert
  proposal := ⟨0, ⟨1⟩, ⟨7⟩, ⟨7⟩⟩
  votes := [⟨⟨2⟩, default, default⟩]
  equivocationVotes := [⟨⟨3⟩, default, default, (⟨0, ⟨1⟩, ⟨7⟩, ⟨7⟩⟩, ⟨0, ⟨1⟩, ⟨7⟩, ⟨7⟩⟩)⟩]

theorem fakePairBundle_splits_verifiers :
    fakePairBundle.round = 5 ∧ fakePairBundle.weight acceptingCrypto quorumOfTwoLedger < u64Bound ∧
      ¬ ((∃ vs, verifyBundleImpl acceptingCrypto quorumOfTwoLedger 5 fakePairBundle = .ok vs) ↔
        ∃ b, fakePairBundle.verify ⟨1, le_refl 1⟩ acceptingCrypto quorumOfTwoLedger = .ok b) := by
  refine ⟨rfl, by decide, ?_⟩
  intro h
  have hcert : fakePairBundle.verify ⟨1, le_refl 1⟩ acceptingCrypto quorumOfTwoLedger
      = .error .identicalEquivocationProposals := by rfl
  obtain ⟨b, hb⟩ := h.1 ⟨_, rfl⟩
  rw [hcert] at hb
  cases hb

/-- The same vote and a pair for two proposals. -/
def honestPairBundle : UnauthenticatedBundle :=
  { fakePairBundle with
    equivocationVotes := [⟨⟨3⟩, default, default, (⟨0, ⟨1⟩, ⟨7⟩, ⟨7⟩⟩, ⟨0, ⟨1⟩, ⟨8⟩, ⟨8⟩⟩)⟩] }

/-- The live verifier accepts it, and so the other one does. -/
theorem bundle_verifiers_agree_iff_honest_pair :
    ∃ b, honestPairBundle.verify ⟨1, le_refl 1⟩ acceptingCrypto quorumOfTwoLedger = .ok b :=
  ((bundle_verifiers_agree_iff acceptingCrypto quorumOfTwoLedger ⟨1, le_refl 1⟩ 5 honestPairBundle rfl (by decide)).2
    (fun _ => by decide)).1 ⟨_, rfl⟩

end Agreement
end Algod
