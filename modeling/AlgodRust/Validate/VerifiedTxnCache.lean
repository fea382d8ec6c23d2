import AlgodRust.Validate.Block
import AlgodRust.Lib.FinMap
/-!
# VerifiedTxnCache — validation with a cache of verified groups

A group whose signatures are good is stored under the id of each of its transactions, with the context it was verified
in, in a ring of buckets.  A later group is covered where every member finds an entry under its own id that has, at the
member's position, the same signature.  The entries of two members may be two different groups, and neither need be the
group that is looked up: a group counts as verified that nobody has verified (`covered_notVerified`).  Where every
covered group is itself an entry, a validator with the cache returns what one without it does
(`validateAll_eq_of_exactHits`).
-/
namespace Algod
namespace Validate

open Msgpack Ledger Codec

/-! ## The cache -/

/-- What a group is verified under. -/
structure VerificationContext where
  specAddrs : SpecialAddresses
  consensusVersion : String
deriving DecidableEq, Repr

/-- A verified group with its context. -/
structure GroupContext where
  context : VerificationContext
  signedGroupTxns : List SignedTransaction

abbrev numBuckets : Nat := 3

/-- The buckets, of which `base` is written, and the pinned entries.  Indices of buckets go around. -/
structure VerifiedTransactionCache where
  entriesPerBucket : Nat
  buckets : Fin numBuckets → FinMap Bytes32 GroupContext
  pinned : FinMap Bytes32 GroupContext
  base : Fin numBuckets

namespace VerifiedTransactionCache

def new (cacheSize : Nat) : VerifiedTransactionCache :=
  ⟨(cacheSize + 1) / 2, fun _ => ∅, ∅, ⟨0, Nat.zero_lt_succ _⟩⟩

/-- Search the ring backwards from a bucket. -/
def findInBuckets (buckets : Fin numBuckets → FinMap Bytes32 GroupContext) (base : Fin numBuckets) (id : Bytes32) :
    Option (Fin numBuckets × GroupContext) :=
  (List.finRange numBuckets).findSome? (fun offset =>
    ((buckets (base - offset)).lookup id).map (fun entry => (base - offset, entry)))

/-- The entry of an id, pinned or in the ring, and the bucket where the search for the next one starts. -/
def findEntry (c : VerifiedTransactionCache) (base : Fin numBuckets) (id : Bytes32) :
    Option (Fin numBuckets × GroupContext) :=
  match c.pinned.lookup id with
  | some entry => some (base, entry)
  | none => findInBuckets c.buckets base id

/-- The fields an id does not cover. -/
def sameAuthorization (cached stx : SignedTransaction) : Bool :=
  decide (cached.sig = stx.sig) && decide (cached.msig = stx.msig) && decide (cached.lsig = stx.lsig) &&
    decide (cached.pqsig = stx.pqsig) && decide (cached.authAddr = stx.authAddr)

variable (H : Hashes)

/-- How many members of a group, from position `txnIdx` on, are found before the first that is not. -/
def countVerified (c : VerifiedTransactionCache) (context : VerificationContext) :
    Nat → Fin numBuckets → List SignedTransaction → Nat
  | _, _, [] => 0
  | txnIdx, base, stx :: rest =>
    match c.findEntry base (computeTxid H stx.txn) with
    | none => 0
    | some (bucket, entry) =>
      if entry.context ≠ context then 0
      else
        match entry.signedGroupTxns[txnIdx]? with
        | none => 0
        | some cached =>
          if sameAuthorization cached stx then countVerified c context (txnIdx + 1) bucket rest + 1 else 0

/-- The groups that are not covered by the cache. -/
def getUnverifiedTransactionGroups (c : VerifiedTransactionCache) (groups : List (List SignedTransaction))
    (context : VerificationContext) : List (List SignedTransaction) :=
  groups.filter (fun group =>
    let verified := countVerified H c context 0 c.base group
    decide (verified ≠ group.length ∨ verified = 0))

/-- The bucket that is written next: where a group does not fit, the one after it, emptied. -/
def rotate (c : VerifiedTransactionCache) (size : Nat) : VerifiedTransactionCache :=
  if (c.buckets c.base).keys.length + size > c.entriesPerBucket then
    { c with base := c.base + 1, buckets := Function.update c.buckets (c.base + 1) ∅ }
  else c

/-- Store a verified group under the id of each of its transactions. -/
def add (c : VerifiedTransactionCache) (entry : GroupContext) : VerifiedTransactionCache :=
  let c := c.rotate entry.signedGroupTxns.length
  { c with
    buckets := Function.update c.buckets c.base
      (entry.signedGroupTxns.foldl (fun bucket stx => bucket.insert (computeTxid H stx.txn) entry) (c.buckets c.base)) }

/-- The entries of a cache. -/
def Holds (c : VerifiedTransactionCache) (entry : GroupContext) : Prop :=
  ∃ id, c.pinned.lookup id = some entry ∨ ∃ i, (c.buckets i).lookup id = some entry

theorem not_holds_new (cacheSize : Nat) (entry : GroupContext) : ¬ (new cacheSize).Holds entry := by
  rintro ⟨id, h | ⟨i, h⟩⟩
  · cases h
  · cases h

variable {c : VerifiedTransactionCache} {entry : GroupContext}

theorem holds_of_rotate {size : Nat} (h : (c.rotate size).Holds entry) : c.Holds entry := by
  unfold rotate at h
  split at h
  · obtain ⟨id, h | ⟨i, h⟩⟩ := h
    · exact ⟨id, .inl h⟩
    · simp only [Function.update_apply] at h
      split at h
      · cases h
      · exact ⟨id, .inr ⟨i, h⟩⟩
  · exact h

/-- What is found after the insertions of a group is the group or was there before. -/
theorem lookup_foldl_insert {entry e : GroupContext} {id : Bytes32} : ∀ {stxs : List SignedTransaction}
    {bucket : FinMap Bytes32 GroupContext},
    (stxs.foldl (fun bucket stx => bucket.insert (computeTxid H stx.txn) entry) bucket).lookup id = some e →
      e = entry ∨ bucket.lookup id = some e
  | [], _, h => .inr h
  | stx :: stxs, bucket, h => by
    rw [List.foldl_cons] at h
    rcases @lookup_foldl_insert entry e id stxs _ h with he | hbucket
    · exact .inl he
    · rw [FinMap.lookup_insert_eq] at hbucket
      split at hbucket
      · cases hbucket
        exact .inl rfl
      · exact .inr hbucket

/-- **A group that is added is the only new entry.** -/
theorem eq_or_holds_of_add {entry e : GroupContext} (h : (c.add H entry).Holds e) :
    e = entry ∨ c.Holds e := by
  obtain ⟨id, h | ⟨i, h⟩⟩ := h
  · exact .inr (holds_of_rotate ⟨id, .inl h⟩)
  · simp only [add, Function.update_apply] at h
    split at h
    · rcases lookup_foldl_insert H h with he | hbucket
      · exact .inl he
      · exact .inr (holds_of_rotate ⟨id, .inr ⟨_, hbucket⟩⟩)
    · exact .inr (holds_of_rotate ⟨id, .inr ⟨i, h⟩⟩)

/-- A group is found under the id of each of its members. -/
theorem lookup_foldl_insert_of_mem {stx : SignedTransaction} : ∀ {stxs : List SignedTransaction}
    {bucket : FinMap Bytes32 GroupContext},
    stx ∈ stxs ∨ bucket.lookup (computeTxid H stx.txn) = some entry →
      (stxs.foldl (fun bucket stx => bucket.insert (computeTxid H stx.txn) entry) bucket).lookup
        (computeTxid H stx.txn) = some entry
  | [], _, h => by
    rcases h with h | h
    · cases h
    · exact h
  | first :: stxs, bucket, h => by
    rw [List.foldl_cons]
    apply lookup_foldl_insert_of_mem
    rw [FinMap.lookup_insert_eq]
    by_cases heq : computeTxid H stx.txn = computeTxid H first.txn
    · exact .inr (if_pos heq)
    · rw [if_neg heq]
      rcases h with h | h
      · rcases List.mem_cons.1 h with rfl | h
        · exact absurd rfl heq
        · exact .inl h
      · exact .inr h

theorem holds_add (c : VerifiedTransactionCache) (h : entry.signedGroupTxns ≠ []) :
    (c.add H entry).Holds entry := by
  obtain ⟨stx, hstx⟩ := List.exists_mem_of_ne_nil _ h
  refine ⟨computeTxid H stx.txn, .inr ⟨(c.add H entry).base, ?_⟩⟩
  simp only [add, Function.update_self]
  exact lookup_foldl_insert_of_mem H (.inl hstx)

theorem pinned_add (c : VerifiedTransactionCache) (entry : GroupContext) : (c.add H entry).pinned = c.pinned := by
  simp only [add, rotate]
  split <;> rfl

theorem findEntry_add {stx : SignedTransaction} (hpinned : c.pinned = ∅) (h : stx ∈ entry.signedGroupTxns) :
    (c.add H entry).findEntry (c.add H entry).base (computeTxid H stx.txn) = some ((c.add H entry).base, entry) := by
  have hlookup : ((c.add H entry).buckets (c.add H entry).base).lookup (computeTxid H stx.txn) = some entry := by
    simp only [add, Function.update_self]
    exact lookup_foldl_insert_of_mem H (.inl h)
  have hrange : List.finRange numBuckets = [0, 1, 2] := by decide
  unfold findEntry findInBuckets
  rw [pinned_add, hpinned, AList.lookup_empty, hrange]
  simp only [List.findSome?_cons, sub_zero, hlookup, Option.map_some]

/-- A member that is found, with the same signature, counts. -/
theorem countVerified_cons {context : VerificationContext} {i : Nat}
    {base bucket : Fin numBuckets} {stx cached : SignedTransaction} {rest : List SignedTransaction}
    (hfind : c.findEntry base (computeTxid H stx.txn) = some (bucket, entry)) (hcontext : entry.context = context)
    (hcached : entry.signedGroupTxns[i]? = some cached) (hauth : sameAuthorization cached stx = true) :
    c.countVerified H context i base (stx :: rest) = c.countVerified H context (i + 1) bucket rest + 1 := by
  rw [countVerified, hfind]
  simp only [hcontext, ne_eq, not_true_eq_false, if_false, hcached, hauth, if_true]

theorem sameAuthorization_self (stx : SignedTransaction) : sameAuthorization stx stx = true := by
  simp [sameAuthorization]

theorem countVerified_add (hpinned : c.pinned = ∅) :
    ∀ (rest done : List SignedTransaction), done ++ rest <+: entry.signedGroupTxns →
      (c.add H entry).countVerified H entry.context done.length (c.add H entry).base rest = rest.length
  | [], _, _ => rfl
  | stx :: rest, done, h => by
    have hmem : stx ∈ entry.signedGroupTxns :=
      h.subset (List.mem_append_right _ List.mem_cons_self)
    have hcached : entry.signedGroupTxns[done.length]? = some stx := by
      obtain ⟨after, hafter⟩ := h
      rw [← hafter]
      simp
    have hrest := countVerified_add hpinned rest (done ++ [stx]) (by simpa using h)
    rw [countVerified_cons H (findEntry_add H hpinned hmem) rfl hcached (sameAuthorization_self stx)]
    rw [List.length_append, List.length_singleton] at hrest
    rw [hrest, List.length_cons]

/-- **Every part that a stored group begins with is covered**, though it is another group. -/
theorem covers_of_prefix {group : List SignedTransaction}
    (hpinned : c.pinned = ∅) (hne : group ≠ []) (h : group <+: entry.signedGroupTxns) :
    ((c.add H entry).getUnverifiedTransactionGroups H [group] entry.context).isEmpty = true := by
  have hcount := countVerified_add H hpinned group [] h
  rw [List.length_nil] at hcount
  unfold getUnverifiedTransactionGroups
  simp [hcount, hne]

end VerifiedTransactionCache

/-! ## Validation with a cache -/

section Cached

variable (checks : Checks) (H : Hashes)

/-- The loop over the members of a group. -/
def groupLoop (params : ConsensusParams) (spec : SpecialAddresses) (round : Round) (alreadyVerified : Bool)
    (acc : List BlockValidationError × Nat) (members : List Member) : GroupLoop :=
  let group := members.map Member.stx
  members.zipIdx.foldl (validateMember checks params spec round group alreadyVerified)
    ⟨GroupBudget.forLogicsig (if params.enableLogicsigCostPooling then members.length else 1),
      acc.1 ++ errorsOf .groupValidationFailed (checkTxnGroup checks group), acc.2, true⟩

/-- One group with a cache: a covered group is not verified again, a verified one is stored. -/
def validateGroupWithCache (params : ConsensusParams) (context : VerificationContext) (round : Round)
    (acc : (List BlockValidationError × Nat) × Option VerifiedTransactionCache) (members : List Member) :
    (List BlockValidationError × Nat) × Option VerifiedTransactionCache :=
  let group := members.map Member.stx
  let alreadyVerified := acc.2.any (fun c => (c.getUnverifiedTransactionGroups H [group] context).isEmpty)
  let sigOk := (groupLoop checks params context.specAddrs round alreadyVerified acc.1 members).sigOk
  (validateGroup checks params context.specAddrs round alreadyVerified acc.1 members,
    acc.2.map (fun c => if !alreadyVerified && sigOk then c.add H ⟨context, group⟩ else c))

end Cached

section Validation

variable (env : Env)

def verificationContext (block : Block) : VerificationContext :=
  ⟨⟨block.feeSink, block.rewardsPool⟩, block.currentProtocol⟩

def groupErrorsWithCache (block : Block) (members : List Member) (cache : Option VerifiedTransactionCache) :
    (List BlockValidationError × Nat) × Option VerifiedTransactionCache :=
  match detectValidationGroups members with
  | .error e => (([.groupValidationFailed e], 0), cache)
  | .ok groups =>
    groups.foldl (validateGroupWithCache env.checks env.hashes (env.paramsOf block) (verificationContext block)
      block.round) (([], 0), cache)

/-- A block to validate, with what its caller knows. -/
structure Call where
  prevTimestamp : Option Int
  genesisId : String
  genesisHash : Bytes32
  rawBlobs : Option (List Bytes)
  block : Block

def Call.members (call : Call) : List Member :=
  membersOf (.forParams (env.paramsOf call.block) call.block) call.block.payset

/-- **Validate a block with a cache.** -/
def validateBlockWithCache (call : Call) (cache : Option VerifiedTransactionCache) :
    BlockValidationResult × Option VerifiedTransactionCache :=
  let block := call.block
  let header := protocolErrors env block ++ timestampErrors call.prevTimestamp block
  let rule := GenesisRestoreRule.forParams (env.paramsOf block) block
  match rule.checkPayset 0 block.payset with
  | .error e => (⟨block.round, header ++ [.paysetGenesisFields e.1 e.2], block.payset.length, 0⟩, cache)
  | .ok _ =>
    let restored := rule.restorePayset block.payset
    let r := groupErrorsWithCache env block (membersOf rule block.payset) cache
    let groups := r.1
    (⟨block.round,
      header ++ groups.1 ++ paysetErrors env block restored ++
        headerGenesisErrors call.genesisId call.genesisHash block ++
        errorsOf .genesisConsistencyFailed (validateGenesisConsistency block.genesisId block.genesisHash 0 restored) ++
        commitmentErrors env block call.rawBlobs ++ sizeErrors (sizeLimits env block) block groups.2,
      block.payset.length, groups.2⟩, r.2)

/-- Validate without a cache. -/
def Call.validate (call : Call) : BlockValidationResult :=
  validateBlock env call.prevTimestamp call.genesisId call.genesisHash call.rawBlobs call.block

/-- Validate one block after another with one cache. -/
def validateAll : VerifiedTransactionCache → List Call → List BlockValidationResult
  | _, [] => []
  | cache, call :: calls =>
    let r := validateBlockWithCache env call (some cache)
    r.1 :: validateAll (r.2.getD cache) calls

/-- Where the groups of a block have the same errors with a cache, so has the block. -/
theorem validateBlockWithCache_fst {call : Call} {cache : Option VerifiedTransactionCache}
    (h : (groupErrorsWithCache env call.block (call.members env) cache).1 = groupErrors env call.block (call.members env)) :
    (validateBlockWithCache env call cache).1 = call.validate env := by
  unfold Call.members at h
  unfold validateBlockWithCache Call.validate validateBlock
  simp only
  cases (GenesisRestoreRule.forParams (env.paramsOf call.block) call.block).checkPayset 0 call.block.payset with
  | error e => rfl
  | ok _ =>
    simp only
    rw [h]

end Validation

/-! ## The signatures of a group -/

section Signatures

variable (checks : Checks) (params : ConsensusParams)

/-- The budget that is left and whether all is good, after one more member. -/
def memberSignatures (group : List SignedTransaction) (s : GroupBudget × Bool) (member : SignedTransaction × Nat) :
    GroupBudget × Bool :=
  let stx := member.1
  let budget := if params.enableLogicsigCostPooling then s.1 else GroupBudget.forLogicsig 1
  if stx.txn.txnType.is "stpf" && stx.txn.stateProof.isSome then (budget, s.2)
  else
    let signature := checks.verifyTransactionSignature stx group member.2 params budget
    (signature.1, s.2 && signature.2.toOption.isSome && (verifyMemberHeartbeatProof checks stx).toOption.isSome)

/-- Whether the signatures and proofs of a group are good: this depends on nothing but the group and the parameters. -/
def signaturesOk (group : List SignedTransaction) : Bool :=
  (group.zipIdx.foldl (memberSignatures checks params group)
    (GroupBudget.forLogicsig (if params.enableLogicsigCostPooling then group.length else 1), true)).2

variable {checks params} {spec : SpecialAddresses} {round : Round} {group : List SignedTransaction}

theorem validateMember_signatures (l : GroupLoop) (m : Member × Nat) :
    memberSignatures checks params group (l.budget, l.sigOk) (m.1.stx, m.2) =
      ((validateMember checks params spec round group false l m).budget,
        (validateMember checks params spec round group false l m).sigOk) := by
  unfold memberSignatures validateMember
  simp only
  split
  · rfl
  · rfl

theorem foldl_validateMember_signatures : ∀ (ms : List (Member × Nat)) (l : GroupLoop),
    (ms.map (fun m => (m.1.stx, m.2))).foldl (memberSignatures checks params group) (l.budget, l.sigOk) =
      ((ms.foldl (validateMember checks params spec round group false) l).budget,
        (ms.foldl (validateMember checks params spec round group false) l).sigOk)
  | [], l => rfl
  | m :: ms, l => by
    rw [List.map_cons, List.foldl_cons, List.foldl_cons,
      @validateMember_signatures checks params spec round group l m]
    exact foldl_validateMember_signatures ms _

theorem groupLoop_sigOk (acc : List BlockValidationError × Nat) (members : List Member) :
    (groupLoop checks params spec round false acc members).sigOk = signaturesOk checks params (members.map Member.stx) := by
  unfold groupLoop signaturesOk
  simp only
  rw [List.zipIdx_map, List.length_map]
  have hfold := @foldl_validateMember_signatures checks params spec round (members.map Member.stx) members.zipIdx
    ⟨GroupBudget.forLogicsig (if params.enableLogicsigCostPooling then members.length else 1),
      acc.1 ++ errorsOf .groupValidationFailed (checkTxnGroup checks (members.map Member.stx)), acc.2, true⟩
  exact (congrArg Prod.snd hfold).symm

/-- A failed signature is not made good by later members. -/
theorem sigOk_of_foldl : ∀ {ms : List (Member × Nat)} {l : GroupLoop},
    (ms.foldl (validateMember checks params spec round group false) l).sigOk = true → l.sigOk = true
  | [], _, h => h
  | m :: ms, l, h => by
    have hm := @sigOk_of_foldl ms _ h
    unfold validateMember at hm
    simp only at hm
    split at hm
    · exact hm
    · simp only [Bool.and_eq_true] at hm
      exact hm.1.1

/-- Where a member's signature is good, it makes no difference to skip it. -/
theorem validateMember_verified {l l' : GroupLoop} {m : Member × Nat} (herrors : l'.errors = l.errors)
    (hbytes : l'.totalTxnBytes = l.totalTxnBytes)
    (hok : (validateMember checks params spec round group false l m).sigOk = true) :
    (validateMember checks params spec round group true l' m).errors =
        (validateMember checks params spec round group false l m).errors ∧
      (validateMember checks params spec round group true l' m).totalTxnBytes =
        (validateMember checks params spec round group false l m).totalTxnBytes := by
  unfold validateMember at hok ⊢
  simp only at hok ⊢
  by_cases hproof : (m.1.stx.txn.txnType.is "stpf" && m.1.stx.txn.stateProof.isSome) = true
  · simp only [hproof, if_true]
    exact ⟨herrors, by rw [hbytes]⟩
  · simp only [hproof, Bool.false_eq_true, if_false, Bool.and_eq_true] at hok ⊢
    obtain ⟨⟨-, hsig⟩, -⟩ := hok
    cases hverify : (checks.verifyTransactionSignature m.1.stx group m.2 params
        (if params.enableLogicsigCostPooling = true then l.budget else GroupBudget.forLogicsig 1)).2 with
    | error e =>
      rw [hverify] at hsig
      cases hsig
    | ok u =>
      refine ⟨?_, by rw [hbytes]⟩
      rw [herrors]
      rfl

theorem foldl_validateMember_verified : ∀ {ms : List (Member × Nat)} {l l' : GroupLoop}, l'.errors = l.errors →
    l'.totalTxnBytes = l.totalTxnBytes →
    (ms.foldl (validateMember checks params spec round group false) l).sigOk = true →
    (ms.foldl (validateMember checks params spec round group true) l').errors =
        (ms.foldl (validateMember checks params spec round group false) l).errors ∧
      (ms.foldl (validateMember checks params spec round group true) l').totalTxnBytes =
        (ms.foldl (validateMember checks params spec round group false) l).totalTxnBytes
  | [], _, _, herrors, hbytes, _ => ⟨herrors, hbytes⟩
  | m :: ms, l, l', herrors, hbytes, hok => by
    rw [List.foldl_cons] at hok
    obtain ⟨herrors', hbytes'⟩ := validateMember_verified herrors hbytes (sigOk_of_foldl hok)
    exact @foldl_validateMember_verified ms _ _ herrors' hbytes' hok

/-- **A group whose signatures are good has the same errors verified again or not.** -/
theorem validateGroup_verified {acc : List BlockValidationError × Nat} {members : List Member}
    (h : signaturesOk checks params (members.map Member.stx) = true) :
    validateGroup checks params spec round true acc members = validateGroup checks params spec round false acc members := by
  rw [← @groupLoop_sigOk checks params spec round acc members] at h
  obtain ⟨herrors, hbytes⟩ := @foldl_validateMember_verified _ _ _ _ _ _ _ ⟨_, _, _, true⟩ rfl rfl h
  unfold validateGroup
  simp only
  rw [herrors, hbytes]

end Signatures

/-! ## Runs -/

section Runs

variable (env : Env)

/-- The cache lets a group pass only where it is itself an entry. -/
def Trusted (c : VerifiedTransactionCache) (context : VerificationContext) (group : List SignedTransaction) : Prop :=
  (c.getUnverifiedTransactionGroups env.hashes [group] context).isEmpty = true → c.Holds ⟨context, group⟩

/-- The groups of a block, each trusted by the cache as it is when the group is reached. -/
def GroupsTrusted (block : Block) :
    (List BlockValidationError × Nat) × Option VerifiedTransactionCache → List (List Member) → Prop
  | _, [] => True
  | acc, members :: rest =>
    (∀ c, acc.2 = some c → Trusted env c (verificationContext block) (members.map Member.stx)) ∧
      GroupsTrusted block (validateGroupWithCache env.checks env.hashes (env.paramsOf block) (verificationContext block)
        block.round acc members) rest

/-- Every group that the cache lets pass, in any of the blocks, was itself verified and stored before. -/
def ExactHits : VerifiedTransactionCache → List Call → Prop
  | _, [] => True
  | cache, call :: calls =>
    (∀ groups, (GenesisRestoreRule.forParams (env.paramsOf call.block) call.block).checkPayset 0 call.block.payset = .ok () →
      detectValidationGroups (call.members env) = .ok groups → GroupsTrusted env call.block (([], 0), some cache) groups) ∧
    ExactHits ((validateBlockWithCache env call (some cache)).2.getD cache) calls

/-- Every entry is a group with good signatures. -/
def Sound (c : VerifiedTransactionCache) : Prop :=
  ∀ entry, c.Holds entry →
    signaturesOk env.checks ((env.protocols entry.context.consensusVersion).getD env.defaultParams) entry.signedGroupTxns = true

variable {env} {block : Block} {cache : VerifiedTransactionCache}

theorem sound_new (cacheSize : Nat) : Sound env (.new cacheSize) := fun entry h =>
  absurd h (VerifiedTransactionCache.not_holds_new cacheSize entry)

theorem validateGroupWithCache_of_covered {checks : Checks} {H : Hashes} {params : ConsensusParams}
    {context : VerificationContext} {round : Round} {acc : List BlockValidationError × Nat} {members : List Member}
    (h : (cache.getUnverifiedTransactionGroups H [members.map Member.stx] context).isEmpty = true) :
    validateGroupWithCache checks H params context round (acc, some cache) members =
      (validateGroup checks params context.specAddrs round true acc members, some cache) := by
  unfold validateGroupWithCache
  simp only [Option.any_some, Option.map_some, h]
  rfl

theorem validateGroupWithCache_of_not_covered {checks : Checks} {H : Hashes} {params : ConsensusParams}
    {context : VerificationContext} {round : Round} {acc : List BlockValidationError × Nat} {members : List Member}
    (h : (cache.getUnverifiedTransactionGroups H [members.map Member.stx] context).isEmpty = false) :
    validateGroupWithCache checks H params context round (acc, some cache) members =
      (validateGroup checks params context.specAddrs round false acc members,
        some (if signaturesOk checks params (members.map Member.stx)
          then cache.add H ⟨context, members.map Member.stx⟩ else cache)) := by
  unfold validateGroupWithCache
  simp only [Option.any_some, Option.map_some, h, groupLoop_sigOk, Bool.not_false, Bool.true_and]

/-- One group: the errors are those of a validator without a cache, and the cache stays sound. -/
theorem validateGroupWithCache_sound {acc : List BlockValidationError × Nat} {members : List Member}
    (hsound : Sound env cache) (htrusted : Trusted env cache (verificationContext block) (members.map Member.stx)) :
    ∃ cache', validateGroupWithCache env.checks env.hashes (env.paramsOf block) (verificationContext block) block.round
        (acc, some cache) members =
      (validateGroup env.checks (env.paramsOf block) ⟨block.feeSink, block.rewardsPool⟩ block.round false acc members,
        some cache') ∧ Sound env cache' := by
  by_cases hcovered : (cache.getUnverifiedTransactionGroups env.hashes [members.map Member.stx]
      (verificationContext block)).isEmpty = true
  · have hok : signaturesOk env.checks (env.paramsOf block) (members.map Member.stx) = true :=
      hsound _ (htrusted hcovered)
    refine ⟨cache, ?_, hsound⟩
    rw [validateGroupWithCache_of_covered hcovered, validateGroup_verified hok]
    rfl
  · rw [Bool.not_eq_true] at hcovered
    refine ⟨_, validateGroupWithCache_of_not_covered hcovered, ?_⟩
    cases hok : signaturesOk env.checks (env.paramsOf block) (members.map Member.stx) with
    | false => exact hsound
    | true =>
      intro entry hentry
      rcases VerifiedTransactionCache.eq_or_holds_of_add env.hashes hentry with rfl | hold
      · exact hok
      · exact hsound entry hold

theorem foldl_validateGroupWithCache_sound : ∀ {groups : List (List Member)} {cache : VerifiedTransactionCache}
    {acc : List BlockValidationError × Nat}, Sound env cache → GroupsTrusted env block (acc, some cache) groups →
    ∃ cache', groups.foldl (validateGroupWithCache env.checks env.hashes (env.paramsOf block) (verificationContext block)
        block.round) (acc, some cache) =
      (groups.foldl (validateGroup env.checks (env.paramsOf block) ⟨block.feeSink, block.rewardsPool⟩ block.round false) acc,
        some cache') ∧ Sound env cache'
  | [], cache, acc, hsound, _ => ⟨cache, rfl, hsound⟩
  | members :: groups, cache, acc, hsound, htrusted => by
    obtain ⟨hfirst, hrest⟩ := htrusted
    obtain ⟨cache₁, hstep, hsound₁⟩ := @validateGroupWithCache_sound env block cache acc members hsound (hfirst cache rfl)
    rw [hstep] at hrest
    rw [List.foldl_cons, List.foldl_cons, hstep]
    exact foldl_validateGroupWithCache_sound hsound₁ hrest

/-- One block: the result is that of a validator without a cache, and the cache stays sound. -/
theorem validateBlockWithCache_sound {call : Call} (hsound : Sound env cache) (htrusted : ∀ groups,
      (GenesisRestoreRule.forParams (env.paramsOf call.block) call.block).checkPayset 0 call.block.payset = .ok () →
      detectValidationGroups (call.members env) = .ok groups → GroupsTrusted env call.block (([], 0), some cache) groups) :
    ∃ cache', validateBlockWithCache env call (some cache) = (call.validate env, some cache') ∧ Sound env cache' := by
  cases hstripped : (GenesisRestoreRule.forParams (env.paramsOf call.block) call.block).checkPayset 0 call.block.payset with
  | error e =>
    refine ⟨cache, ?_, hsound⟩
    simp only [validateBlockWithCache, Call.validate, validateBlock, hstripped]
  | ok u =>
    have hgroups : ∃ cache', groupErrorsWithCache env call.block (call.members env) (some cache) =
        (groupErrors env call.block (call.members env), some cache') ∧ Sound env cache' := by
      unfold groupErrorsWithCache groupErrors
      cases hdetect : detectValidationGroups (call.members env) with
      | error e => exact ⟨cache, rfl, hsound⟩
      | ok groups => exact foldl_validateGroupWithCache_sound hsound (htrusted groups hstripped hdetect)
    obtain ⟨cache', heq, hsound'⟩ := hgroups
    refine ⟨cache', ?_, hsound'⟩
    have hfst := @validateBlockWithCache_fst env call (some cache) (by rw [heq])
    have hsnd : (validateBlockWithCache env call (some cache)).2 = some cache' := by
      unfold Call.members at heq
      simp only [validateBlockWithCache, hstripped, heq]
    exact Prod.ext hfst hsnd

theorem validateAll_eq : ∀ {calls : List Call} {cache : VerifiedTransactionCache}, Sound env cache →
    ExactHits env cache calls → validateAll env cache calls = calls.map (Call.validate env)
  | [], _, _, _ => rfl
  | call :: calls, cache, hsound, hexact => by
    obtain ⟨hfirst, hrest⟩ := hexact
    obtain ⟨cache', hstep, hsound'⟩ := validateBlockWithCache_sound hsound hfirst
    rw [hstep] at hrest
    rw [validateAll, hstep, List.map_cons]
    exact congrArg _ (validateAll_eq hsound' hrest)

/-- **With exact hits a cache changes no verdict**: for every size and every sequence of blocks, where each group that
the cache lets pass was itself verified and stored before, every result is that of a validator without a cache. -/
theorem validateAll_eq_of_exactHits (env : Env) (cacheSize : Nat) (calls : List Call)
    (h : ExactHits env (.new cacheSize) calls) :
    validateAll env (.new cacheSize) calls = calls.map (Call.validate env) :=
  validateAll_eq (sound_new cacheSize) h

end Runs

/-! ## A group that was never verified -/

/-- A hash for small examples: the bytes are the digits of a number. -/
def digitHashes : Hashes where
  sha512_256 bs := BitVec.ofNat 256 (bs.foldl (fun n b => 257 * n + b.toNat + 1) 0)
  sha256 _ := 0
  sha512 _ := 0

/-- The logic signature `global GroupSize; pushint 3; ==`. -/
def wantsThree : Value := .map [.str (utf8 "l"), .bin [5, 0x32, 0x04, 0x81, 0x03, 0x12]]

/-- Checks that let everything pass but the logic signature in a group of another size. -/
def sizeChecks : Checks where
  validateTransactionWellformed _ _ _ _ := .ok ()
  checkStateProofPayload _ := .ok ()
  verifyTransactionSignature stx group _ _ budget :=
    (budget, if stx.lsig = some wantsThree ∧ group.length ≠ 3 then .error "rejected by logic" else .ok ())
  verifyHeartbeatProof _ _ _ _ _ := .error "no heartbeat"
  logicSigGroupSizeCheck _ _ := .ok ()
  summarizeFees _ _ := (0, 0)
  requiredFeeForUsage _ _ := (0, false)

def sizeParams : ConsensusParams := { (default : ConsensusParams) with maxTxnBytesPerBlock := 5242880 }

def sizeEnv : Env where
  protocols _ := some sizeParams
  defaultParams := sizeParams
  hashes := digitHashes
  checks := sizeChecks

/-- The id of the group of the first two payments below. -/
def pairId : Bytes32 := 20694237191154469777842335941159344354761038715935660540490763930110641172823#256

/-- A payment that claims to be of the pair. -/
def pairMember (amount : Nat) : Transaction :=
  { (default : Transaction) with txnType := .pay, amount := amount, group := pairId }

def logicMember : SignedTransaction := { (default : SignedTransaction) with txn := pairMember 1, lsig := some wantsThree }

def signedMember (amount : Nat) : SignedTransaction :=
  { (default : SignedTransaction) with txn := pairMember amount, sig := 1 }

def blockOf (payset : List SignedTransaction) : Call :=
  ⟨none, "", 0, none, { (default : Block) with currentProtocol := "future", payset := payset }⟩

/-- Three members, though the group id is that of two. -/
def triple : Call := blockOf [logicMember, signedMember 2, signedMember 3]

def pair : Call := blockOf [logicMember, signedMember 2]

/-- What validating the three leaves in the cache. -/
def tripleEntry : GroupContext := ⟨verificationContext triple.block, [logicMember, signedMember 2, signedMember 3]⟩

def tripleCache : VerifiedTransactionCache := (VerifiedTransactionCache.new 100).add digitHashes tripleEntry

theorem triple_cached : (validateBlockWithCache sizeEnv triple (some (.new 100))).2 = some tripleCache := by
  have hstripped : (GenesisRestoreRule.forParams (sizeEnv.paramsOf triple.block) triple.block).checkPayset 0
      triple.block.payset = .ok () := rfl
  have hdetect : detectValidationGroups (triple.members sizeEnv) = .ok [triple.members sizeEnv] := rfl
  have hsig : signaturesOk sizeChecks (sizeEnv.paramsOf triple.block) ((triple.members sizeEnv).map Member.stx) = true := by
    decide
  have hgroup := @validateGroupWithCache_of_not_covered (.new 100) sizeChecks digitHashes (sizeEnv.paramsOf triple.block)
    (verificationContext triple.block) 0 ([], 0) (triple.members sizeEnv) rfl
  rw [hsig, if_pos rfl] at hgroup
  have hgroups : (groupErrorsWithCache sizeEnv triple.block (triple.members sizeEnv) (some (.new 100))).2 =
      some tripleCache := by
    unfold groupErrorsWithCache
    rw [hdetect]
    exact congrArg Prod.snd hgroup
  unfold validateBlockWithCache
  simp only [hstripped]
  exact hgroups

/-- The three, validated twice: the second time the cache lets them pass, and rightly. -/
theorem validateAll_eq_of_exactHits_twice :
    (tripleCache.getUnverifiedTransactionGroups digitHashes [[logicMember, signedMember 2, signedMember 3]]
        (verificationContext triple.block)).isEmpty = true ∧
      validateAll sizeEnv (.new 100) [triple, triple] = [triple.validate sizeEnv, triple.validate sizeEnv] := by
  refine ⟨VerifiedTransactionCache.covers_of_prefix digitHashes rfl (List.cons_ne_nil _ _) (List.prefix_refl _), ?_⟩
  have hdetect : detectValidationGroups (triple.members sizeEnv) = .ok [triple.members sizeEnv] := rfl
  apply validateAll_eq_of_exactHits sizeEnv 100 [triple, triple]
  refine ⟨fun groups _ hgroups => ?_, fun groups _ hgroups => ?_, trivial⟩
  · rw [hdetect] at hgroups
    cases hgroups
    refine ⟨fun c hc hcovered => ?_, trivial⟩
    cases hc
    cases hcovered
  · rw [hdetect] at hgroups
    cases hgroups
    refine ⟨fun c hc _ => ?_, trivial⟩
    rw [triple_cached] at hc
    cases hc
    exact VerifiedTransactionCache.holds_add digitHashes _ (List.cons_ne_nil _ _)

set_option maxRecDepth 20000 in
theorem pairId_eq : computeGroupIdFromHashes digitHashes
    ([logicMember, signedMember 2].map (fun stx => computeTxnIdWithoutGroup digitHashes stx.txn)) = pairId := by
  unfold computeTxnIdWithoutGroup computeGroupIdFromHashes
  simp only [List.map_cons, List.map_nil]
  rw [@canonicalMap_of_sorted (transactionFields logicMember.txn _ _ 0) (by decide),
    @canonicalMap_of_sorted (transactionFields (signedMember 2).txn _ _ 0) (by decide),
    canonicalMap_of_sorted (List.pairwise_singleton _ _)]
  decide

set_option maxRecDepth 20000 in
theorem pair_size : (canonicalEncodeSignedTxnInBlock logicMember).length +
    (canonicalEncodeSignedTxnInBlock (signedMember 2)).length ≤ 5242880 := by
  have hlogic : canonicalTransaction logicMember.txn = _ :=
    @canonicalMap_of_sorted (transactionFields logicMember.txn "" 0 pairId) (by decide)
  have hsigned : canonicalTransaction (signedMember 2).txn = _ :=
    @canonicalMap_of_sorted (transactionFields (signedMember 2).txn "" 0 pairId) (by decide)
  unfold canonicalEncodeSignedTxnInBlock
  simp only [signedTxnInBlockFields, hlogic, hsigned]
  rw [canonicalMap_of_sorted (by decide), canonicalMap_of_sorted (by decide)]
  decide

/-- After the three, the pair has no errors. -/
theorem pair_valid : (validateBlockWithCache sizeEnv pair (some tripleCache)).1.isValid = true := by
  have hstripped : (GenesisRestoreRule.forParams (sizeEnv.paramsOf pair.block) pair.block).checkPayset 0
      pair.block.payset = .ok () := rfl
  have hrestored : GenesisRestoreRule.restorePayset (.forParams (sizeEnv.paramsOf pair.block) pair.block)
      pair.block.payset = [logicMember, signedMember 2] := rfl
  have hdetect : detectValidationGroups (pair.members sizeEnv) = .ok [pair.members sizeEnv] := rfl
  have hcovered : (tripleCache.getUnverifiedTransactionGroups digitHashes [(pair.members sizeEnv).map Member.stx]
      (verificationContext pair.block)).isEmpty = true :=
    VerifiedTransactionCache.covers_of_prefix digitHashes rfl (List.cons_ne_nil _ _) ⟨[signedMember 3], rfl⟩
  have hgroup := @validateGroupWithCache_of_covered tripleCache sizeChecks digitHashes (sizeEnv.paramsOf pair.block)
    (verificationContext pair.block) 0 ([], 0) (pair.members sizeEnv) hcovered
  have hmembers : validateGroup sizeChecks (sizeEnv.paramsOf pair.block) (verificationContext pair.block).specAddrs 0 true
      ([], 0) (pair.members sizeEnv) = ([], 0 + (canonicalEncodeSignedTxnInBlock logicMember).length +
        (canonicalEncodeSignedTxnInBlock (signedMember 2)).length) := rfl
  have herrors : groupErrorsWithCache sizeEnv pair.block (pair.members sizeEnv) (some tripleCache) =
      (([], 0 + (canonicalEncodeSignedTxnInBlock logicMember).length +
        (canonicalEncodeSignedTxnInBlock (signedMember 2)).length), some tripleCache) := by
    unfold groupErrorsWithCache
    rw [hdetect]
    exact hgroup.trans (congrArg (fun r => (r, some tripleCache)) hmembers)
  have hcomplete : validateTransactionGroup digitHashes [logicMember, signedMember 2] = .ok () := by
    have hcollect : collectGroups [logicMember, signedMember 2] = [(pairId, [logicMember, signedMember 2])] := rfl
    have hone : validateTransactionGroupOf digitHashes (pairId, [logicMember, signedMember 2]) = .ok () := by
      unfold validateTransactionGroupOf
      simp only
      rw [pairId_eq]
      rfl
    unfold validateTransactionGroup
    rw [hcollect, List.forM_eq_forM, List.forM_cons, hone, List.forM_nil]
    rfl
  have hfees : validateGroupFees sizeChecks digitHashes (sizeEnv.paramsOf pair.block) [logicMember, signedMember 2] =
      .ok () := rfl
  have hpayset : paysetErrors sizeEnv pair.block [logicMember, signedMember 2] = [] := by
    have hhashes : sizeEnv.hashes = digitHashes := rfl
    have hchecks : sizeEnv.checks = sizeChecks := rfl
    unfold paysetErrors
    rw [hhashes, hchecks, hcomplete, hfees]
    rfl
  have hsize : sizeErrors (sizeLimits sizeEnv pair.block) pair.block (0 +
      (canonicalEncodeSignedTxnInBlock logicMember).length + (canonicalEncodeSignedTxnInBlock (signedMember 2)).length) =
      [] := by
    have hlimits : sizeLimits sizeEnv pair.block = some sizeParams := rfl
    have hmax : sizeParams.maxTxnBytesPerBlock = 5242880 := rfl
    have hload : sizeParams.loadTracking = false := rfl
    have hbound := pair_size
    rw [hlimits]
    unfold sizeErrors
    simp only [hload, hmax]
    rw [if_neg (by omega), if_neg (by simp)]
    rfl
  unfold Call.members at herrors
  unfold validateBlockWithCache BlockValidationResult.isValid
  simp only [hstripped, hrestored, herrors, hpayset, hsize]
  rfl

set_option maxRecDepth 20000 in
/-- **A group passes that was never verified**: the logic signature accepts groups of three only.  After a run of three
transactions that all bear the id of the group of the first two, the block of these two is valid; a validator without a
cache refuses it.  No two transactions have the same id. -/
theorem covered_notVerified :
    ([logicMember, signedMember 2, signedMember 3].map (fun stx => computeTxid digitHashes stx.txn)).Nodup ∧
      ((validateAll sizeEnv (.new 100) [triple, pair]).map BlockValidationResult.isValid)[1]? = some true ∧
      (pair.validate sizeEnv).isValid = false := by
  refine ⟨?_, ?_, ?_⟩
  · unfold computeTxid canonicalEncodeTransaction canonicalTransaction
    simp only [List.map_cons, List.map_nil]
    rw [@canonicalMap_of_sorted (transactionFields logicMember.txn _ _ _) (by decide),
      @canonicalMap_of_sorted (transactionFields (signedMember 2).txn _ _ _) (by decide),
      @canonicalMap_of_sorted (transactionFields (signedMember 3).txn _ _ _) (by decide)]
    decide
  · simp only [validateAll, triple_cached, Option.getD_some, List.map_cons, pair_valid]
    rfl
  · rw [Bool.eq_false_iff]
    intro hvalid
    have hgroups := ((validateBlock_isValid sizeEnv).1 hvalid).groups
    cases hgroups

end Validate
end Algod
