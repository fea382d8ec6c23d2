import AlgodRust.Pool.BlockSpace
import AlgodRust.Ledger.Apply
import Mathlib.Data.List.TakeDrop
/-!
# FinalizePayset — the payset of a proposed block

The transactions that were admitted are run through the real apply.  What fails is dropped: one group, or everything from
a group on, or all but the longest prefix that goes through; what goes through is kept if it fits once its ApplyData is
in place.  The evaluation is given by an oracle that is told the number of the pass and may answer as it likes.

`Tiles` says that the group table describes the payset: each group begins where the one before ends.  Every way to shrink
the two keeps it, and takes whole groups out (`Tiles.truncate`, `Tiles.remove`), so that each pass is on whole admitted
groups in their order.  The loop ends since every round but one that is kept takes a group out or uses up the retry or the
bisection.
-/
namespace Algod
namespace Pool
namespace Payset

open Ledger (ApplyData Block BlockHeader SignedTransaction)
open Codec (canonicalEncodeSignedTxnInBlock)

/-! ## The evaluator and its passes -/

/-- A group that was admitted: its place in the payset, its fees, and its ids where admission has hashed them. -/
structure ExecGroup where
  start : Nat
  len : Nat
  fees : Nat
  txids : Option (List Digest)

def flattenTxids : List ExecGroup → Option (List Digest)
  | [] => some []
  | g :: groups => do
    let txids ← g.txids.filter (fun t => t.length == g.len)
    let rest ← flattenTxids groups
    some (txids ++ rest)

/-- What a pass leaves of accounts that were modified, and the lists that come of them, are of types not looked into. -/
structure ScratchPayset (κ μ : Type) where
  applyData : List ApplyData
  finalTxnCounter : Nat
  finalFeesCollected : Nat
  finalStateProofNext : Option Nat
  finalFeeSinkAvailable : Option Nat
  knockOfflineLists : Option κ
  knockOfflineModified : Option μ

inductive ScratchFailure
  | txn (index : Nat) (error : AlgoError)
  | other (error : AlgoError)
  | unsupported
  | stale

structure ExecState (κ : Type) where
  template : Block
  groups : List ExecGroup
  lastPasses : Nat
  finalStateProofNext : Option Nat
  finalFeeSinkAvailable : Option Nat
  finalKnockOffline : Option κ

/-- Nothing is remembered of an earlier payset. -/
def ExecState.reset {κ : Type} (exec : ExecState κ) : ExecState κ :=
  { exec with finalStateProofNext := none, finalFeeSinkAvailable := none, finalKnockOffline := none }

structure Evaluator (κ : Type) where
  hdr : BlockHeader
  loadTracking : Bool
  maxTxnBytesPerBlock : Nat
  includedTxns : List SignedTransaction
  txnBytes : Nat
  maxTxnBytes : Nat
  feesCollected : Nat
  exec : Option (ExecState κ)

/-- What is asked of the ledger: an evaluation of a candidate, with the number of the pass, whether the accounts that were
modified are wanted and the ids that are known; and the lists over the committed ledger. -/
structure Scratch (κ μ : Type) where
  evaluatePaysetWithTxids : Nat → Block → Bool → Option (List Digest) →
    Except AlgoError (Except ScratchFailure (ScratchPayset κ μ))
  knockOfflineFromModified : μ → Except AlgoError (Option κ)

def encodedLen (stx : SignedTransaction) : Nat := (canonicalEncodeSignedTxnInBlock stx).length

def fillApplyData (stx : SignedTransaction) (ad : ApplyData) : SignedTransaction :=
  { stx with
    closingAmount := ad.closingAmount
    assetClosingAmount := ad.assetClosingAmount
    senderRewards := ad.senderRewards
    receiverRewards := ad.receiverRewards
    closeRewards := ad.closeRewards
    applyDataConfigAsset := ad.configAsset
    applyDataApplicationId := ad.applicationId
    evalDelta := ad.evalDelta }

/-- Each transaction with its ApplyData; those past the end of either list are left. -/
def withApplyData : List SignedTransaction → List ApplyData → List SignedTransaction
  | stx :: payset, ad :: ads => fillApplyData stx ad :: withApplyData payset ads
  | [], _ => []
  | payset, [] => payset

/-- How full a block is, in millionths. -/
def computeLoad (blockSize maxSize : Nat) : Nat :=
  if maxSize = 0 then 1000000 else min (1000000 * blockSize / maxSize) 1000000

section Model

variable {κ μ : Type} (o : Scratch κ μ) (e : Evaluator κ)

/-- The block that a pass is asked about. -/
def candidate (template : Block) (payset : List SignedTransaction) (groups : List ExecGroup) : Block :=
  let block := { template with payset := payset, feesCollected := (groups.map ExecGroup.fees).sum }
  if e.loadTracking then { block with load := computeLoad (payset.map encodedLen).sum e.maxTxnBytesPerBlock } else block

def scratchPass (template : Block) (pass : Nat) (payset : List SignedTransaction) (groups : List ExecGroup) (own : Bool) :
    Except AlgoError (Except ScratchFailure (ScratchPayset κ μ)) :=
  o.evaluatePaysetWithTxids pass (candidate e template payset groups) own
    ((flattenTxids groups).filter (fun t => t.length == payset.length))

def staleProposalError : AlgoError :=
  .ledger ("block assembly: the ledger advanced past round " ++ toString (e.hdr.round - 1) ++
    " while the proposal was evaluated; proposal dropped")

/-! ## Shrinking -/

/-- Keep only the first groups. -/
def truncateGroups (groups : List ExecGroup) (payset : List SignedTransaction) (keep : Nat) :
    List ExecGroup × List SignedTransaction :=
  let stop := (groups[keep]?.map ExecGroup.start).getD payset.length
  (groups.take keep, payset.take stop)

/-- Remove a group, shifting the start of every later one. -/
def removeGroup (groups : List ExecGroup) (payset : List SignedTransaction) (pos : Nat) :
    List ExecGroup × List SignedTransaction :=
  match groups[pos]? with
  | none => (groups, payset)
  | some g =>
    (groups.take pos ++ (groups.drop (pos + 1)).map (fun later => { later with start := later.start - g.len }),
      payset.take g.start ++ payset.drop (g.start + g.len))

/-- The number of leading groups that fit. -/
def fitting (sizes : List Nat) (limit : Nat) : List ExecGroup → Nat → Nat
  | [], _ => 0
  | g :: groups, acc =>
    let size := ((sizes.drop g.start).take g.len).sum
    if limit < acc + size then 0 else fitting sizes limit groups (acc + size) + 1

/-- The longest prefix that evaluates, between bounds. -/
def bisect (template : Block) (payset : List SignedTransaction) (groups : List ExecGroup) (lo hi passes : Nat) :
    Except AlgoError (Nat × Nat) :=
  if lo < hi then
    let mid := (lo + hi + 1) / 2
    let stop := (groups[mid - 1]?.map (fun g => g.start + g.len)).getD 0
    match scratchPass o e template (passes + 1) (payset.take stop) (groups.take mid) false with
    | .error err => .error err
    | .ok (.ok _) => bisect template payset groups mid hi (passes + 1)
    | .ok (.error .stale) => .error (staleProposalError e)
    | .ok (.error _) => bisect template payset groups lo (mid - 1) (passes + 1)
  else .ok (lo, passes)
termination_by hi - lo
decreasing_by all_goals omega

/-! ## The loop -/

structure Loop where
  pristine : List SignedTransaction
  groups : List ExecGroup
  passes : Nat
  retried : Bool
  bisected : Bool

/-- How the loop ends: with a pass that is kept, with nothing, or with an error. -/
inductive Outcome (κ μ : Type)
  | kept (s : Loop) (done : ScratchPayset κ μ)
  | empty (s : Loop)
  | stale (s : Loop)
  | failed (s : Loop) (error : AlgoError)

def Loop.shrunk (s : Loop) (r : List ExecGroup × List SignedTransaction) : Loop := { s with groups := r.1, pristine := r.2 }

def maxFailurePasses : Nat := 8

/-- A group that fails goes alone, or after many passes with all that come after it. -/
def dropFailing (s : Loop) (pos : Nat) : Loop :=
  s.shrunk (if maxFailurePasses ≤ s.passes then truncateGroups s.groups s.pristine pos
    else removeGroup s.groups s.pristine pos)

/-- The longest prefix that evaluates is kept, unless it is empty. -/
def bisectPrefix (template : Block) (s : Loop) : Except AlgoError (Bool × Loop) :=
  match bisect o e template s.pristine s.groups 0 s.groups.length s.passes with
  | .error err => .error err
  | .ok (lo, passes) =>
    let s := { s with passes := passes }
    if lo = 0 then .ok (false, s) else .ok (true, s.shrunk (truncateGroups s.groups s.pristine lo))

/-- After a failure that no group owns: the loop goes on with a prefix, once. -/
def goOnBisected (template : Block) (s : Loop) : Outcome κ μ ⊕ Loop :=
  if s.bisected then .inl (.empty s)
  else
    match bisectPrefix o e template s with
    | .error err => .inl (.failed s err)
    | .ok (false, s) => .inl (.empty s)
    | .ok (true, s) => .inr { s with bisected := true }

/-- One round of the loop: its end, or the state it goes on with. -/
def finalizeRound (template : Block) (s : Loop) : Outcome κ μ ⊕ Loop :=
  let s := { s with passes := s.passes + 1 }
  match scratchPass o e template s.passes s.pristine s.groups true with
  | .error err => .inl (.failed s err)
  | .ok (.ok done) =>
    let sizes := (withApplyData s.pristine done.applyData).map encodedLen
    if sizes.sum ≤ e.maxTxnBytes then .inl (.kept s done)
    else
      let keep := fitting sizes e.maxTxnBytes s.groups 0
      let s := s.shrunk (truncateGroups s.groups s.pristine keep)
      if keep = 0 then .inl (.empty s) else .inr s
  | .ok (.error (.txn index _)) =>
    match s.groups.findIdx? (fun g => decide (g.start ≤ index) && decide (index < g.start + g.len)) with
    | none => goOnBisected o e template s
    | some pos =>
      let s := dropFailing s pos
      if s.pristine.isEmpty then .inl (.empty s) else .inr s
  | .ok (.error .stale) => .inl (.stale s)
  | .ok (.error _) => if s.retried then goOnBisected o e template s else .inr { s with retried := true }

/-- The rounds of the loop, as many as there is fuel. -/
def finalizeLoop (template : Block) : Nat → Loop → Option (Outcome κ μ)
  | 0, _ => none
  | fuel + 1, s =>
    match finalizeRound o e template s with
    | .inl outcome => some outcome
    | .inr s => finalizeLoop template fuel s

/-- What is left to do after a pass that is kept. -/
def keepPass (exec : ExecState κ) (s : Loop) (done : ScratchPayset κ μ) :
    Except AlgoError (List SignedTransaction × Nat) × Evaluator κ :=
  let payset := withApplyData s.pristine done.applyData
  let taken := { e with includedTxns := [], txnBytes := (payset.map encodedLen).sum, exec := some { exec with groups := [] } }
  let lists : Except AlgoError (Option κ) :=
    match done.knockOfflineLists, done.knockOfflineModified with
    | none, some modified =>
      if payset.isEmpty then .ok none
      else
        match o.knockOfflineFromModified modified with
        | .error err => .error err
        | .ok none => .error (staleProposalError e)
        | .ok (some lists) => .ok (some lists)
    | lists, _ => .ok lists
  match lists with
  | .error err => (.error err, taken)
  | .ok lists =>
    let final := { taken with
      feesCollected := done.finalFeesCollected
      exec := some { exec with
        groups := []
        lastPasses := s.passes
        finalStateProofNext := done.finalStateProofNext
        finalFeeSinkAvailable := done.finalFeeSinkAvailable
        finalKnockOffline := lists } }
    (.ok (payset, done.finalTxnCounter - e.hdr.txnCounter),
      if payset.isEmpty then { final with txnBytes := 0, feesCollected := 0 } else final)

/-- What is left to do after the loop. -/
def finishLoop (exec : ExecState κ) : Outcome κ μ → Except AlgoError (List SignedTransaction × Nat) × Evaluator κ
  | .kept s done => keepPass o e exec s done
  | .empty s =>
    (.ok ([], 0), { e with
      includedTxns := []
      txnBytes := 0
      feesCollected := 0
      exec := some { exec with groups := [], lastPasses := s.passes } })
  | .stale s => (.error (staleProposalError e),
      { e with includedTxns := s.pristine, exec := some { exec with groups := s.groups } })
  | .failed _ err => (.error err, { e with includedTxns := [], exec := some { exec with groups := [] } })

/-- Finalise the payset, with fuel for the loop. -/
def finalizePayset (fuel : Nat) : Option (Except AlgoError (List SignedTransaction × Nat) × Evaluator κ) :=
  match e.exec with
  | none => some (.ok (e.includedTxns, e.includedTxns.length), { e with includedTxns := [] })
  | some exec =>
    let exec := exec.reset
    if e.includedTxns.isEmpty then some (.ok ([], 0), { e with exec := some exec })
    else
      (finalizeLoop o e exec.template fuel ⟨e.includedTxns, exec.groups, 0, false, false⟩).map (finishLoop o e exec)

end Model

/-! ## The group table -/

/-- The groups describe parts of a payset, one after another from a place on. -/
def Tiles : Nat → List ExecGroup → List (List SignedTransaction) → Prop
  | _, [], [] => True
  | start, g :: groups, part :: parts => g.start = start ∧ g.len = part.length ∧ Tiles (start + part.length) groups parts
  | _, _, _ => False

theorem Tiles.length_eq : ∀ {start : Nat} {groups : List ExecGroup} {parts : List (List SignedTransaction)},
    Tiles start groups parts → groups.length = parts.length
  | _, [], [], _ => rfl
  | _, _ :: _, _ :: _, h => congrArg Nat.succ h.2.2.length_eq

/-- Where a group begins, and how long it is. -/
theorem Tiles.get : ∀ {start : Nat} {groups : List ExecGroup} {parts : List (List SignedTransaction)} {k : Nat}
    {g : ExecGroup},
    Tiles start groups parts → groups[k]? = some g →
    ∃ part, parts[k]? = some part ∧ g.start = start + (parts.take k).flatten.length ∧ g.len = part.length
  | _, [], [], _, _, _, hg => by cases hg
  | start, g₀ :: groups, part :: parts, k, g, h, hg => by
    obtain ⟨hstart, hlen, hrest⟩ := h
    cases k with
    | zero =>
      cases hg
      exact ⟨part, rfl, by simpa using hstart, hlen⟩
    | succ k =>
      obtain ⟨part', hpart, hstart', hlen'⟩ := hrest.get hg
      refine ⟨part', hpart, ?_, hlen'⟩
      rw [hstart', List.take_succ_cons, List.flatten_cons, List.length_append]
      omega

theorem Tiles.take : ∀ {start : Nat} {groups : List ExecGroup} {parts : List (List SignedTransaction)} (k : Nat),
    Tiles start groups parts → Tiles start (groups.take k) (parts.take k)
  | _, groups, parts, 0, _ => by
    rw [List.take_zero, List.take_zero]
    trivial
  | _, [], [], _ + 1, _ => trivial
  | _, _ :: _, _ :: _, k + 1, h => ⟨h.1, h.2.1, h.2.2.take k⟩

/-- Groups that begin earlier by some length. -/
theorem Tiles.shift : ∀ {start d : Nat} {groups : List ExecGroup} {parts : List (List SignedTransaction)},
    Tiles (start + d) groups parts → Tiles start (groups.map (fun later => { later with start := later.start - d })) parts
  | _, _, [], [], _ => trivial
  | start, d, g :: groups, part :: parts, h => by
    obtain ⟨hstart, hlen, hrest⟩ := h
    refine ⟨?_, hlen, Tiles.shift ?_⟩
    · show g.start - d = start
      omega
    · rw [show start + part.length + d = start + d + part.length by omega]
      exact hrest

/-- One group is taken out of the table. -/
theorem Tiles.erase : ∀ {start : Nat} {groups : List ExecGroup} {parts : List (List SignedTransaction)} {k : Nat}
    {g : ExecGroup},
    Tiles start groups parts → groups[k]? = some g →
    Tiles start (groups.take k ++ (groups.drop (k + 1)).map (fun later => { later with start := later.start - g.len }))
      (parts.eraseIdx k)
  | _, [], [], _, _, _, hg => by cases hg
  | start, g₀ :: groups, part :: parts, k, g, h, hg => by
    obtain ⟨hstart, hlen, hrest⟩ := h
    cases k with
    | zero =>
      cases hg
      rw [hlen]
      exact Tiles.shift hrest
    | succ k => exact ⟨hstart, hlen, hrest.erase hg⟩

theorem take_flatten (parts : List (List SignedTransaction)) (k : Nat) :
    parts.flatten.take (parts.take k).flatten.length = (parts.take k).flatten := by
  conv_lhs => rw [← List.take_append_drop k parts, List.flatten_append]
  rw [List.take_append_drop, List.take_left]

variable {parts : List (List SignedTransaction)} {groups : List ExecGroup}

/-- **The first groups are kept whole.** -/
theorem Tiles.truncate (h : Tiles 0 groups parts) (k : Nat) :
    truncateGroups groups parts.flatten k = (groups.take k, (parts.take k).flatten) := by
  unfold truncateGroups
  cases hg : groups[k]? with
  | some g =>
    obtain ⟨part, -, hstart, -⟩ := h.get hg
    simp only [Option.map_some, Option.getD_some]
    rw [hstart, Nat.zero_add, take_flatten]
  | none =>
    have hlen := h.length_eq
    have hk : parts.length ≤ k := by
      rw [← hlen]
      exact List.getElem?_eq_none_iff.1 hg
    simp only [Option.map_none, Option.getD_none]
    rw [List.take_length, List.take_of_length_le hk]

/-- **A group is removed whole.** -/
theorem Tiles.remove (h : Tiles 0 groups parts) {k : Nat} (hk : k < groups.length) :
    Tiles 0 (removeGroup groups parts.flatten k).1 (parts.eraseIdx k) ∧
      (removeGroup groups parts.flatten k).2 = (parts.eraseIdx k).flatten ∧
      (removeGroup groups parts.flatten k).1.length + 1 = groups.length := by
  unfold removeGroup
  cases hg : groups[k]? with
  | none => exact absurd (List.getElem?_eq_none_iff.1 hg) (by omega)
  | some g =>
    obtain ⟨part, hpart, hstart, hlen⟩ := h.get hg
    simp only
    refine ⟨h.erase hg, ?_, ?_⟩
    · obtain ⟨hk', heq⟩ := List.getElem?_eq_some_iff.1 hpart
      have hsplit : parts.flatten = (parts.take k).flatten ++ (part ++ (parts.drop (k + 1)).flatten) := by
        conv_lhs => rw [← List.take_append_drop k parts, List.drop_eq_getElem_cons hk', heq]
        rw [List.flatten_append, List.flatten_cons]
      rw [hstart, hlen, Nat.zero_add, take_flatten, List.eraseIdx_eq_take_drop_succ, List.flatten_append, hsplit,
        ← List.drop_drop, List.drop_left, List.drop_left]
    · rw [List.length_append, List.length_map, List.length_take, List.length_drop]
      omega

/-! ## Sizes -/

theorem withApplyData_length : ∀ (payset : List SignedTransaction) (ads : List ApplyData),
    (withApplyData payset ads).length = payset.length
  | [], _ => rfl
  | _ :: _, [] => rfl
  | _ :: payset, _ :: ads => congrArg Nat.succ (withApplyData_length payset ads)

/-- The sizes of the groups are all the sizes. -/
theorem Tiles.sum_sizes : ∀ {start : Nat} {groups : List ExecGroup} {parts : List (List SignedTransaction)}
    {sizes : List Nat},
    Tiles start groups parts → sizes.length = start + parts.flatten.length →
    (groups.map (fun g => ((sizes.drop g.start).take g.len).sum)).sum = (sizes.drop start).sum
  | start, [], [], sizes, _, hlen => by
    rw [List.drop_of_length_le (by simpa using Nat.le_of_eq hlen)]
    rfl
  | start, g :: groups, part :: parts, sizes, h, hlen => by
    obtain ⟨hstart, hglen, hrest⟩ := h
    rw [List.flatten_cons, List.length_append] at hlen
    have ih := hrest.sum_sizes (by omega : sizes.length = start + part.length + parts.flatten.length)
    rw [List.map_cons, List.sum_cons, ih, hstart, hglen, ← List.drop_drop]
    conv_rhs => rw [← List.take_append_drop part.length (sizes.drop start)]
    rw [List.sum_append]

theorem fitting_le (sizes : List Nat) (limit : Nat) : ∀ (groups : List ExecGroup) (acc : Nat),
    fitting sizes limit groups acc ≤ groups.length
  | [], _ => Nat.le_refl _
  | g :: groups, acc => by
    unfold fitting
    simp only
    split
    · exact Nat.zero_le _
    · exact Nat.succ_le_succ (fitting_le sizes limit groups _)

/-- Where every group fits, so do all of them. -/
theorem sum_le_of_fitting (sizes : List Nat) (limit : Nat) : ∀ (groups : List ExecGroup) (acc : Nat), acc ≤ limit →
    fitting sizes limit groups acc = groups.length →
    acc + (groups.map (fun g => ((sizes.drop g.start).take g.len).sum)).sum ≤ limit
  | [], acc, hacc, _ => by simpa using hacc
  | g :: groups, acc, hacc, h => by
    unfold fitting at h
    simp only at h
    split at h
    · cases h
    · rename_i hfits
      have ih := sum_le_of_fitting sizes limit groups _ (Nat.not_lt.1 hfits) (Nat.succ.inj h)
      rw [List.map_cons, List.sum_cons]
      omega

/-- **What does not fit loses a group.** -/
theorem Tiles.fitting_lt {sizes : List Nat} {limit : Nat}
    (h : Tiles 0 groups parts) (hlen : sizes.length = parts.flatten.length) (hover : limit < sizes.sum) :
    fitting sizes limit groups 0 < groups.length := by
  refine Nat.lt_of_le_of_ne (fitting_le sizes limit groups 0) (fun heq => ?_)
  have hsum := sum_le_of_fitting sizes limit groups 0 (Nat.zero_le _) heq
  rw [h.sum_sizes (by omega), List.drop_zero] at hsum
  omega

/-! ## Rounds -/

section Rounds

variable {κ μ : Type} {o : Scratch κ μ} {e : Evaluator κ} {template : Block} {done : ScratchPayset κ μ}

/-- The group table describes what is left of the admitted groups. -/
structure Whole (admitted : List (List SignedTransaction)) (s : Loop) : Prop where
  left : ∃ parts, Tiles 0 s.groups parts ∧ s.pristine = parts.flatten ∧ parts.Sublist admitted

/-- What a loop may still use up. -/
def Loop.work (s : Loop) : Nat := s.groups.length + (if s.retried then 0 else 1) + (if s.bisected then 0 else 1)

variable {admitted : List (List SignedTransaction)} {s s' : Loop}

theorem Whole.truncate (h : Whole admitted s) (k : Nat) :
    Whole admitted (s.shrunk (truncateGroups s.groups s.pristine k)) := by
  obtain ⟨parts, htiles, hpristine, hsub⟩ := h.left
  refine ⟨parts.take k, ?_, ?_, (List.take_sublist k parts).trans hsub⟩
  · rw [hpristine, htiles.truncate k]
    exact htiles.take k
  · rw [hpristine, htiles.truncate k]
    rfl

theorem Whole.remove (h : Whole admitted s) {k : Nat} (hk : k < s.groups.length) :
    Whole admitted (s.shrunk (removeGroup s.groups s.pristine k)) := by
  obtain ⟨parts, htiles, hpristine, hsub⟩ := h.left
  obtain ⟨htiles', hflat, -⟩ := htiles.remove hk
  refine ⟨parts.eraseIdx k, ?_, ?_, (List.eraseIdx_sublist parts k).trans hsub⟩
  · rw [hpristine]
    exact htiles'
  · rw [hpristine]
    exact hflat

theorem length_truncate (groups : List ExecGroup) (payset : List SignedTransaction) (k : Nat) :
    (truncateGroups groups payset k).1.length = min k groups.length := List.length_take

theorem length_remove {groups : List ExecGroup} {payset : List SignedTransaction} {k : Nat} (hk : k < groups.length) :
    (removeGroup groups payset k).1.length < groups.length := by
  unfold removeGroup
  cases hg : groups[k]? with
  | none => exact absurd (List.getElem?_eq_none_iff.1 hg) (by omega)
  | some g =>
    simp only [List.length_append, List.length_map, List.length_take, List.length_drop]
    omega

theorem dropFailing_spec (h : Whole admitted s) {pos : Nat} (hpos : pos < s.groups.length) :
    Whole admitted (dropFailing s pos) ∧ (dropFailing s pos).work < s.work := by
  have hwork : ∀ r : List ExecGroup × List SignedTransaction, r.1.length < s.groups.length → (s.shrunk r).work < s.work := by
    intro r hr
    unfold Loop.work Loop.shrunk
    simp only
    omega
  unfold dropFailing
  split
  · refine ⟨h.truncate pos, hwork _ ?_⟩
    rw [length_truncate]
    omega
  · exact ⟨h.remove hpos, hwork _ (length_remove hpos)⟩

theorem bisectPrefix_spec (h : Whole admitted s) {r : Bool} (hr : bisectPrefix o e template s = .ok (r, s')) :
    Whole admitted s' ∧ s'.groups.length ≤ s.groups.length ∧ s'.retried = s.retried ∧ s'.bisected = s.bisected := by
  unfold bisectPrefix at hr
  split at hr
  · cases hr
  · simp only at hr
    split at hr
    · cases hr
      exact ⟨⟨h.left⟩, Nat.le_refl _, rfl, rfl⟩
    · cases hr
      refine ⟨⟨(h.truncate _).left⟩, ?_, rfl, rfl⟩
      show (truncateGroups s.groups s.pristine _).1.length ≤ _
      rw [length_truncate]
      exact Nat.min_le_right _ _

theorem goOnBisected_inr (h : Whole admitted s) (hr : goOnBisected o e template s = .inr s') :
    Whole admitted s' ∧ s'.work < s.work := by
  unfold goOnBisected at hr
  split at hr
  · cases hr
  rename_i hnot
  split at hr
  · cases hr
  · cases hr
  · rename_i s₁ heq
    obtain ⟨hwhole, hle, hretried, -⟩ := bisectPrefix_spec h heq
    cases hr
    refine ⟨⟨hwhole.left⟩, ?_⟩
    unfold Loop.work
    simp only [hretried, if_true]
    rw [if_neg hnot]
    omega

theorem goOnBisected_not_kept : goOnBisected o e template s ≠ .inl (.kept s' done) := by
  intro hr
  unfold goOnBisected at hr
  split at hr
  · cases hr
  split at hr
  · cases hr
  · cases hr
  · cases hr

/-- **A round that goes on** has the table in order and less left to use up. -/
theorem finalizeRound_inr (h : Whole admitted s) (hr : finalizeRound o e template s = .inr s') :
    Whole admitted s' ∧ s'.work < s.work := by
  have hnext : Whole admitted { s with passes := s.passes + 1 } := ⟨h.left⟩
  unfold finalizeRound at hr
  simp only at hr
  split at hr
  · cases hr
  · rename_i done heq
    split at hr
    · cases hr
    rename_i hover
    split at hr
    · cases hr
    · cases hr
      refine ⟨⟨(hnext.truncate _).left⟩, ?_⟩
      obtain ⟨parts, htiles, hpristine, -⟩ := h.left
      have hlen : ((withApplyData s.pristine done.applyData).map encodedLen).length = parts.flatten.length := by
        rw [List.length_map, withApplyData_length, hpristine]
      have hlt := htiles.fitting_lt hlen (Nat.not_le.1 hover)
      unfold Loop.work Loop.shrunk
      simp only [length_truncate]
      omega
  · split at hr
    · have hgo := goOnBisected_inr hnext hr
      exact hgo
    · rename_i pos hpos
      obtain ⟨hlt, -⟩ := List.findIdx?_eq_some_iff_getElem.1 hpos
      have hdrop := dropFailing_spec hnext hlt
      split at hr
      · cases hr
      · cases hr
        exact hdrop
  · cases hr
  · split at hr
    · have hgo := goOnBisected_inr hnext hr
      exact hgo
    · rename_i hnot
      cases hr
      refine ⟨⟨h.left⟩, ?_⟩
      unfold Loop.work
      simp only [if_true]
      rw [if_neg hnot]
      omega

/-- **A round that keeps its pass**: the pass was on what was left, and its result fits. -/
theorem finalizeRound_kept (hr : finalizeRound o e template s = .inl (.kept s' done)) :
    s' = { s with passes := s.passes + 1 } ∧
      scratchPass o e template s'.passes s'.pristine s'.groups true = .ok (.ok done) ∧
      ((withApplyData s'.pristine done.applyData).map encodedLen).sum ≤ e.maxTxnBytes := by
  unfold finalizeRound at hr
  simp only at hr
  split at hr
  · cases hr
  · rename_i done' heq
    split at hr
    · rename_i hfits
      cases hr
      exact ⟨rfl, heq, hfits⟩
    split at hr
    · cases hr
    · cases hr
  · split at hr
    · exact absurd hr goOnBisected_not_kept
    · split at hr
      · cases hr
      · cases hr
  · cases hr
  · split at hr
    · exact absurd hr goOnBisected_not_kept
    · cases hr

/-- **The loop ends**, and what it keeps was evaluated in its last pass. -/
theorem finalizeLoop_spec : ∀ (n : Nat) {s : Loop}, Whole admitted s → s.work < n →
    ∃ outcome, (∀ fuel, n ≤ fuel → finalizeLoop o e template fuel s = some outcome) ∧
      ∀ s' done, outcome = .kept s' done → Whole admitted s' ∧
        scratchPass o e template s'.passes s'.pristine s'.groups true = .ok (.ok done) ∧
        ((withApplyData s'.pristine done.applyData).map encodedLen).sum ≤ e.maxTxnBytes
  | 0, _, _, hwork => absurd hwork (Nat.not_lt_zero _)
  | n + 1, s, h, hwork => by
    cases hr : finalizeRound o e template s with
    | inl outcome =>
      refine ⟨outcome, fun fuel hfuel => ?_, fun s' done heq => ?_⟩
      · cases fuel with
        | zero => cases hfuel
        | succ fuel =>
          unfold finalizeLoop
          rw [hr]
      · rw [heq] at hr
        obtain ⟨hs', hpass, hfits⟩ := finalizeRound_kept hr
        refine ⟨?_, hpass, hfits⟩
        rw [hs']
        exact ⟨h.left⟩
    | inr s₁ =>
      obtain ⟨hwhole, hless⟩ := finalizeRound_inr h hr
      obtain ⟨outcome, hruns, hkept⟩ := finalizeLoop_spec n hwhole (by omega)
      refine ⟨outcome, fun fuel hfuel => ?_, hkept⟩
      cases fuel with
      | zero => cases hfuel
      | succ fuel =>
        unfold finalizeLoop
        rw [hr]
        exact hruns fuel (Nat.le_of_succ_le_succ hfuel)

theorem keepPass_spec {exec : ExecState κ} {s : Loop} {payset : List SignedTransaction} {counted : Nat}
    (hok : (keepPass o e exec s done).1 = .ok (payset, counted)) (hne : payset ≠ []) :
    payset = withApplyData s.pristine done.applyData ∧ counted = done.finalTxnCounter - e.hdr.txnCounter ∧
      (keepPass o e exec s done).2.txnBytes = (payset.map encodedLen).sum ∧
      (keepPass o e exec s done).2.feesCollected = done.finalFeesCollected ∧
      ∃ exec', (keepPass o e exec s done).2.exec = some exec' ∧ exec'.lastPasses = s.passes := by
  unfold keepPass at hok ⊢
  simp only at hok ⊢
  generalize (match done.knockOfflineLists, done.knockOfflineModified with
    | none, some modified =>
      if (withApplyData s.pristine done.applyData).isEmpty then .ok none
      else
        match o.knockOfflineFromModified modified with
        | .error err => .error err
        | .ok none => .error (staleProposalError e)
        | .ok (some lists) => .ok (some lists)
    | lists, _ => .ok lists : Except AlgoError (Option κ)) = lists at hok ⊢
  cases lists with
  | error err => cases hok
  | ok lists =>
    simp only at hok ⊢
    cases hok
    rw [if_neg (by simpa using hne)]
    exact ⟨rfl, rfl, rfl, rfl, _, rfl, rfl⟩

end Rounds

/-! ## A group that fails and one that is kept -/

def sampleExec : ExecState Unit := ⟨default, [⟨0, 1, 1000, none⟩, ⟨1, 1, 1000, none⟩], 0, none, none, none⟩

def sampleEvaluator : Evaluator Unit :=
  ⟨default, false, 300, [sampleStib 1, sampleStib 2], 366, 300, 2000, some sampleExec⟩

def samplePass : ScratchPayset Unit Unit := ⟨[default], 1, 1000, none, none, some (), none⟩

/-- The first pass fails at the first transaction, the second one succeeds. -/
def sampleScratch : Scratch Unit Unit where
  evaluatePaysetWithTxids pass _ _ _ := if pass = 1 then .ok (.error (.txn 0 (.ledger "overspend"))) else .ok (.ok samplePass)
  knockOfflineFromModified _ := .ok none

theorem sample_finalized : finalizePayset sampleScratch sampleEvaluator 5 =
    some (keepPass sampleScratch sampleEvaluator sampleExec.reset
      ⟨[sampleStib 2], [⟨0, 1, 1000, none⟩], 2, false, false⟩ samplePass) := by
  have hsize : ((withApplyData [sampleStib 2] samplePass.applyData).map encodedLen).sum ≤ sampleEvaluator.maxTxnBytes := by
    show SimpleBlockEvaluator.exactBytes [sampleStib 2] ≤ 300
    rw [sampleStib_size.2]
    decide
  have hfirst : finalizeRound sampleScratch sampleEvaluator default
      ⟨[sampleStib 1, sampleStib 2], sampleExec.groups, 0, false, false⟩ =
        .inr ⟨[sampleStib 2], [⟨0, 1, 1000, none⟩], 1, false, false⟩ := rfl
  have hsecond : finalizeRound sampleScratch sampleEvaluator default
      ⟨[sampleStib 2], [⟨0, 1, 1000, none⟩], 1, false, false⟩ =
        .inl (.kept ⟨[sampleStib 2], [⟨0, 1, 1000, none⟩], 2, false, false⟩ samplePass) := if_pos hsize
  show (finalizeLoop sampleScratch sampleEvaluator default 5
    ⟨[sampleStib 1, sampleStib 2], sampleExec.groups, 0, false, false⟩).map _ = _
  rw [finalizeLoop, hfirst]
  simp only
  rw [finalizeLoop, hsecond]
  rfl

end Payset
end Pool
end Algod
