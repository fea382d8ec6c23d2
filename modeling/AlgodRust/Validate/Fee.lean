import AlgodRust.Codec.Canonical
import AlgodRust.Ledger.BlockHeader
import Mathlib.Tactic.Ring
/-!
# Fee — what a group of transactions has to pay

The usage of a transaction is a multiple of the minimum fee, in millionths; big notes, programs, arguments and
signatures add to it.  The fee for a usage is rounded up to whole microAlgos, and what the rounding overpays is kept as
a residue, in units of `10 ^ -12`, that later charges use up first.  A charge is exact up to the change of the residue
(`feeForUsage_exact`).
-/
namespace Algod
namespace Validate

open Msgpack (Bytes Value)
open Codec (utf8)
open Ledger (SignedTransaction Transaction satAdd)

def feeResidueScale : Nat := 1000000000000
def oneMicros : Nat := 1000000

/-! ## Charges -/

def microsMulInt (m : Nat) (i : Int) : Nat × Bool :=
  if i < 0 then (0, true)
  else if m * i.toNat < u64Bound then (m * i.toNat, false)
  else (u64Bound - 1, true)

/-- The high and the low half of a product. -/
def mul64 (a b : Nat) : Nat × Nat := (a * b / u64Bound, a * b % u64Bound)

/-- Quotient and remainder of `a * b * c` by `d`, and whether the quotient is too large. -/
def mul2divU64 (a b c d : Nat) : Nat × Nat × Bool :=
  let xy := mul64 a b
  let jk := mul64 xy.2 c
  let lm := mul64 xy.1 c
  if lm.1 > 0 then (u64Bound - 1, 0, true)
  else
    let jPlusM := satAdd jk.1 lm.2
    if d ≤ jPlusM then (u64Bound - 1, 0, true)
    else
      let numerator := jPlusM * u64Bound + jk.2
      if numerator / d > u64Bound - 1 then (u64Bound - 1, numerator % d, true)
      else (numerator / d, numerator % d, false)

/-- The fee for a usage, the residue it leaves, and whether the fee is too large. -/
def feeForUsage (base usage multiplier residue : Nat) : Nat × Nat × Bool :=
  let (quo, rem, overflowed) := mul2divU64 base usage multiplier feeResidueScale
  if overflowed then (u64Bound - 1, residue, true)
  else if quo = u64Bound - 1 ∧ rem > residue then (quo, residue, true)
  else if rem = 0 then (quo, residue, false)
  else if rem ≤ residue then (quo, residue - rem, false)
  else (quo + 1, feeResidueScale - (rem - residue), false)

/-- The two halves of the first product are multiplied apart, and their parts add up again. -/
theorem halves_product (a b c : Nat) : a * b * c =
    (a * b % u64Bound * c / u64Bound + a * b / u64Bound * c) * u64Bound + a * b % u64Bound * c % u64Bound := by
  calc a * b * c = (u64Bound * (a * b / u64Bound) + a * b % u64Bound) * c := by rw [Nat.div_add_mod]
    _ = a * b / u64Bound * c * u64Bound + a * b % u64Bound * c := by ring
    _ = a * b / u64Bound * c * u64Bound +
        (u64Bound * (a * b % u64Bound * c / u64Bound) + a * b % u64Bound * c % u64Bound) := by rw [Nat.div_add_mod]
    _ = _ := by ring

/-- Where the quotient fits, it and the remainder are exact: no intermediate result was cut off. -/
theorem mul2divU64_exact {a b c d quo rem : Nat} (hd : 0 < d) (hd' : d < u64Bound)
    (h : mul2divU64 a b c d = (quo, rem, false)) : a * b * c = d * quo + rem ∧ rem < d := by
  unfold mul2divU64 mul64 satAdd at h
  simp only at h
  split at h
  · cases h
  rename_i hl
  split at h
  · cases h
  rename_i hj
  split at h
  · cases h
  obtain ⟨rfl, hr⟩ := Prod.mk.inj h
  obtain ⟨rfl, -⟩ := Prod.mk.inj hr
  have hsum : min (a * b % u64Bound * c / u64Bound + a * b / u64Bound * c % u64Bound) (u64Bound - 1) =
      a * b % u64Bound * c / u64Bound + a * b / u64Bound * c % u64Bound := by
    omega
  rw [hsum]
  refine ⟨?_, Nat.mod_lt _ hd⟩
  rw [Nat.div_add_mod]
  have hm : a * b / u64Bound * c % u64Bound = a * b / u64Bound * c := by
    have := Nat.div_add_mod (a * b / u64Bound * c) u64Bound
    rw [Nat.eq_zero_of_not_pos hl] at this
    omega
  rw [hm, halves_product a b c]

/-- **A charge is exact up to the change of the residue**, which stays a fraction of a microAlgo. -/
theorem feeForUsage_exact {base usage multiplier residue fee residue' : Nat}
    (h : feeForUsage base usage multiplier residue = (fee, residue', false)) :
    feeResidueScale * fee + residue = base * usage * multiplier + residue' ∧
      (residue < feeResidueScale → residue' < feeResidueScale) := by
  unfold feeForUsage at h
  rcases hq : mul2divU64 base usage multiplier feeResidueScale with ⟨quo, rem, overflowed⟩
  rw [hq] at h
  simp only at h
  cases overflowed with
  | true => cases h
  | false =>
    obtain ⟨hexact, hrem⟩ := mul2divU64_exact (by decide) (by decide) hq
    rw [hexact]
    split at h
    · rename_i hfalse
      cases hfalse
    split at h
    · cases h
    split at h
    · rename_i hzero
      obtain ⟨rfl, hr⟩ := Prod.mk.inj h
      obtain ⟨rfl, -⟩ := Prod.mk.inj hr
      exact ⟨by omega, id⟩
    split at h
    · obtain ⟨rfl, hr⟩ := Prod.mk.inj h
      obtain ⟨rfl, -⟩ := Prod.mk.inj hr
      exact ⟨by omega, fun hlt => by omega⟩
    · obtain ⟨rfl, hr⟩ := Prod.mk.inj h
      obtain ⟨rfl, -⟩ := Prod.mk.inj hr
      rw [Nat.mul_add, Nat.mul_one]
      exact ⟨by omega, fun _ => by omega⟩

/-- The quotient is too large exactly where this is reported. -/
theorem mul2divU64_overflow_iff {a b c d : Nat} (hd : 0 < d) (hd' : d < u64Bound) :
    (mul2divU64 a b c d).2.2 = true ↔ u64Bound ≤ a * b * c / d := by
  rcases hq : mul2divU64 a b c d with ⟨quo, rem, overflowed⟩
  cases overflowed with
  | false =>
    obtain ⟨hexact, hrem⟩ := mul2divU64_exact hd hd' hq
    have hquo : a * b * c / d = quo := by
      rw [hexact, Nat.mul_add_div hd, Nat.div_eq_of_lt hrem, Nat.add_zero]
    have hfits : quo < u64Bound := by
      unfold mul2divU64 at hq
      simp only at hq
      split at hq
      · cases hq
      split at hq
      · cases hq
      split at hq
      · cases hq
      · rw [← (Prod.mk.inj hq).1]
        omega
    rw [hquo]
    exact iff_of_false Bool.false_ne_true (by omega)
  | true =>
    refine iff_of_true rfl ?_
    rw [Nat.le_div_iff_mul_le hd, halves_product a b c]
    unfold mul2divU64 mul64 satAdd at hq
    simp only at hq
    generalize a * b / u64Bound * c = high at hq ⊢
    generalize a * b % u64Bound * c = low at hq ⊢
    have hscaled : ∀ n, d ≤ n → u64Bound * d ≤ n * u64Bound + low % u64Bound := by
      intro n hn
      calc u64Bound * d = d * u64Bound := Nat.mul_comm _ _
        _ ≤ n * u64Bound := Nat.mul_le_mul_right _ hn
        _ ≤ _ := Nat.le_add_right _ _
    by_cases hhigh : u64Bound ≤ high
    · exact hscaled _ (Nat.le_trans (by omega) (Nat.le_add_left high _))
    have hnone : ¬ high / u64Bound > 0 := by
      rw [Nat.div_eq_of_lt (Nat.lt_of_not_le hhigh)]
      exact Nat.lt_irrefl 0
    rw [if_neg hnone] at hq
    have hsmall : high % u64Bound = high := Nat.mod_eq_of_lt (Nat.lt_of_not_le hhigh)
    rw [hsmall] at hq
    split at hq
    · exact hscaled _ (by omega)
    split at hq
    · rename_i hmin hquo
      have hsum : min (low / u64Bound + high) (u64Bound - 1) = low / u64Bound + high := by omega
      rw [hsum] at hquo
      rw [← Nat.le_div_iff_mul_le hd]
      omega
    · cases hq

/-- The fee to be charged: what the residue does not pay, rounded up. -/
def feeDue (base usage multiplier residue : Nat) : Nat :=
  (base * usage * multiplier - residue + (feeResidueScale - 1)) / feeResidueScale

variable {base usage multiplier residue : Nat}

/-- With a residue below one microAlgo the fee is the quotient, or one more where the residue does not pay the rest. -/
theorem feeDue_eq (h : residue < feeResidueScale) :
    feeDue base usage multiplier residue = base * usage * multiplier / feeResidueScale +
      if base * usage * multiplier % feeResidueScale ≤ residue then 0 else 1 := by
  unfold feeDue feeResidueScale at *
  split <;> omega

/-- **A charge overflows exactly when the fee does not fit**, and is the fee otherwise. -/
theorem feeForUsage_due (h : residue < feeResidueScale) :
    ((feeForUsage base usage multiplier residue).2.2 = true ↔ u64Bound ≤ feeDue base usage multiplier residue) ∧
      ((feeForUsage base usage multiplier residue).2.2 = false →
        (feeForUsage base usage multiplier residue).1 = feeDue base usage multiplier residue) := by
  have hover := @mul2divU64_overflow_iff base usage multiplier feeResidueScale (by decide) (by decide)
  rw [feeDue_eq h]
  unfold feeForUsage
  rcases hq : mul2divU64 base usage multiplier feeResidueScale with ⟨quo, rem, overflowed⟩
  rw [hq] at hover
  cases overflowed with
  | true =>
    have hlarge := hover.1 rfl
    exact ⟨iff_of_true rfl (by omega), nofun⟩
  | false =>
    obtain ⟨hexact, hrem⟩ := mul2divU64_exact (by decide) (by decide) hq
    have hfits : quo < u64Bound := by
      have hnot : ¬ u64Bound ≤ base * usage * multiplier / feeResidueScale := fun hle => by cases hover.2 hle
      rw [hexact, Nat.mul_add_div (by decide), Nat.div_eq_of_lt hrem] at hnot
      omega
    have hdiv : base * usage * multiplier / feeResidueScale = quo := by
      rw [hexact, Nat.mul_add_div (by decide), Nat.div_eq_of_lt hrem, Nat.add_zero]
    have hmod : base * usage * multiplier % feeResidueScale = rem := by
      rw [hexact, Nat.mul_add_mod, Nat.mod_eq_of_lt hrem]
    rw [hdiv, hmod]
    simp only [Bool.false_eq_true, if_false]
    by_cases hpaid : rem ≤ residue
    · have hlast : ¬ (quo = u64Bound - 1 ∧ rem > residue) := fun hand => by omega
      simp only [if_neg hlast, if_pos hpaid]
      by_cases hzero : rem = 0
      · simp only [if_pos hzero]
        exact ⟨iff_of_false Bool.false_ne_true (by omega), fun _ => rfl⟩
      · simp only [if_neg hzero]
        exact ⟨iff_of_false Bool.false_ne_true (by omega), fun _ => rfl⟩
    · have hzero : rem ≠ 0 := by omega
      by_cases hlast : quo = u64Bound - 1
      · have hboth : quo = u64Bound - 1 ∧ rem > residue := ⟨hlast, by omega⟩
        simp only [if_pos hboth, if_neg hpaid]
        exact ⟨iff_of_true trivial (by omega), nofun⟩
      · have hnot : ¬ (quo = u64Bound - 1 ∧ rem > residue) := fun hand => hlast hand.1
        simp only [if_neg hnot, if_neg hzero, if_neg hpaid]
        exact ⟨iff_of_false Bool.false_ne_true (by omega), fun _ => trivial⟩

/-- The results of a sequence of charges, each with the residue that the one before left. -/
def chargeUsages (base multiplier : Nat) : Nat → List Nat → List (Nat × Nat × Bool)
  | _, [] => []
  | residue, usage :: usages =>
    let charged := feeForUsage base usage multiplier residue
    charged :: chargeUsages base multiplier charged.2.1 usages

/-- The residue that a sequence of charges leaves. -/
def residueAfter (base multiplier : Nat) : Nat → List Nat → Nat
  | residue, [] => residue
  | residue, usage :: usages => residueAfter base multiplier (feeForUsage base usage multiplier residue).2.1 usages

def totalFees (charges : List (Nat × Nat × Bool)) : Nat := (charges.map Prod.fst).sum

/-- No residue reaches one microAlgo, also not that of a charge that overflows. -/
theorem feeForUsage_residue (h : residue < feeResidueScale) :
    (feeForUsage base usage multiplier residue).2.1 < feeResidueScale := by
  rcases hr : feeForUsage base usage multiplier residue with ⟨fee, residue', overflowed⟩
  cases overflowed with
  | false => exact (feeForUsage_exact hr).2 h
  | true =>
    unfold feeForUsage at hr
    simp only at hr
    split at hr
    · rw [← (Prod.mk.inj (Prod.mk.inj hr).2).1]
      exact h
    split at hr
    · rw [← (Prod.mk.inj (Prod.mk.inj hr).2).1]
      exact h
    split at hr
    · cases hr
    split at hr <;> cases hr

theorem residueAfter_lt (base multiplier : Nat) : ∀ (usages : List Nat) (residue : Nat), residue < feeResidueScale →
    residueAfter base multiplier residue usages < feeResidueScale
  | [], _, h => h
  | _ :: usages, _, h => residueAfter_lt base multiplier usages _ (feeForUsage_residue h)

/-- The fees and the residues telescope. -/
theorem totalFees_exact (base multiplier : Nat) : ∀ (usages : List Nat) (residue : Nat),
    (∀ c ∈ chargeUsages base multiplier residue usages, c.2.2 = false) →
      feeResidueScale * totalFees (chargeUsages base multiplier residue usages) + residue =
        base * multiplier * usages.sum + residueAfter base multiplier residue usages
  | [], residue, _ => by simp [chargeUsages, totalFees, residueAfter]
  | usage :: usages, residue, h => by
    have hfirst := h _ List.mem_cons_self
    have ih := totalFees_exact base multiplier usages _ (fun c hc => h c (List.mem_cons_of_mem _ hc))
    rcases hr : feeForUsage base usage multiplier residue with ⟨fee, residue', overflowed⟩
    rw [hr] at hfirst ih
    simp only at hfirst ih
    subst hfirst
    have hone := (feeForUsage_exact hr).1
    have htotal : totalFees (chargeUsages base multiplier residue (usage :: usages)) =
        fee + totalFees (chargeUsages base multiplier residue' usages) := by
      simp only [chargeUsages, hr, totalFees, List.map_cons, List.sum_cons]
    have hafter : residueAfter base multiplier residue (usage :: usages) =
        residueAfter base multiplier residue' usages := by
      simp only [residueAfter, hr]
    have hsum : base * multiplier * (usage :: usages).sum =
        base * usage * multiplier + base * multiplier * usages.sum := by
      rw [List.sum_cons]
      ring
    rw [htotal, hafter, hsum, Nat.mul_add]
    omega

/-- **Rounding is exact in aggregate.**  A charge overflows exactly when its fee does not fit; where none does, the fees
pay for the usage up to the change of the residue, so that from no residue on they are the exact total rounded up,
however the usage is divided. -/
theorem chargeUsages_exact (base multiplier residue : Nat) (usages : List Nat) (hres : residue < feeResidueScale) :
    (∀ before usage after, usages = before ++ usage :: after →
      ((feeForUsage base usage multiplier (residueAfter base multiplier residue before)).2.2 = true ↔
        u64Bound ≤ feeDue base usage multiplier (residueAfter base multiplier residue before))) ∧
    (∀ c ∈ chargeUsages base multiplier residue usages, c.2.1 < feeResidueScale) ∧
    ((∀ c ∈ chargeUsages base multiplier residue usages, c.2.2 = false) →
      feeResidueScale * totalFees (chargeUsages base multiplier residue usages) + residue =
        base * multiplier * usages.sum + residueAfter base multiplier residue usages ∧
      (residue = 0 → totalFees (chargeUsages base multiplier residue usages) =
        (base * multiplier * usages.sum + (feeResidueScale - 1)) / feeResidueScale)) := by
  refine ⟨?_, ?_, ?_⟩
  · intro before usage after _
    exact (feeForUsage_due (residueAfter_lt base multiplier before residue hres)).1
  · induction usages generalizing residue with
    | nil => nofun
    | cons usage usages ih =>
      intro c hc
      rcases List.mem_cons.1 hc with rfl | hc
      · exact feeForUsage_residue hres
      · exact ih _ (feeForUsage_residue hres) c hc
  · intro hfits
    have hexact := totalFees_exact base multiplier usages residue hfits
    refine ⟨hexact, fun hzero => ?_⟩
    have hlast := residueAfter_lt base multiplier usages residue hres
    subst hzero
    generalize residueAfter base multiplier 0 usages = last at hexact hlast
    generalize totalFees (chargeUsages base multiplier 0 usages) = total at hexact ⊢
    generalize base * multiplier * usages.sum = exact at hexact ⊢
    unfold feeResidueScale at *
    omega

/-- Three charges of a third of a microAlgo each, of which only the first one is rounded up. -/
theorem chargeUsages_exact_thirds :
    totalFees (chargeUsages 1000 1000000 0 [333, 333, 334]) = 1 ∧
      totalFees (chargeUsages 1000 1000000 0 [333, 333, 334]) =
        (1000 * 1000000 * [333, 333, 334].sum + (feeResidueScale - 1)) / feeResidueScale :=
  ⟨by decide, (((chargeUsages_exact 1000 1000000 0 [333, 333, 334] (by decide)).2.2 (by decide)).2 rfl)⟩

/-! ## Usage -/

def headerFeeContribution (noteLen : Nat) (params : ConsensusParams) : Nat :=
  (microsMulInt params.perByteTxnSurcharge ((noteLen : Int) - params.maxTxnNoteBytes)).1

def largeProgramExtraBytes (params : ConsensusParams) (totalProgramSize : Nat) : Nat :=
  totalProgramSize - params.maxAppTotalProgramLen * (1 + params.maxExtraAppProgramPages)

def appCallFeeContribution (params : ConsensusParams) (approvalLen clearLen totalArgBytes : Nat) : Nat :=
  let programSurcharge :=
    (microsMulInt params.perByteTxnSurcharge (largeProgramExtraBytes params (approvalLen + clearLen))).1
  let argSurcharge := (microsMulInt params.perByteTxnSurcharge ((totalArgBytes : Int) - params.maxAppTotalArgLen)).1
  satAdd programSurcharge argSurcharge

def lengthOf (program : Option Bytes) : Nat := (program.map List.length).getD 0

def totalArgBytes (txn : Transaction) : Nat := ((txn.appArguments.getD []).map lengthOf).sum

def txnSizePricingEnabled (params : ConsensusParams) : Bool := params.perByteTxnSurcharge ≠ 0

/-- A heartbeat that need not pay for itself. -/
def discounted (txn : Transaction) (params : ConsensusParams) : Bool :=
  if txnSizePricingEnabled params then txn.heartbeat.any (fun hb => hb.hbChallengeDiscount) else txn.group == 0

def txnFeeFactor (txn : Transaction) (params : ConsensusParams) : Nat :=
  if txn.txnType.is "stpf" then 0
  else
    let factor := satAdd oneMicros (headerFeeContribution txn.note.length params)
    if txn.txnType.is "appl" then
      satAdd factor (appCallFeeContribution params (lengthOf txn.approvalProgram) (lengthOf txn.clearStateProgram)
        (totalArgBytes txn))
    else if txn.txnType.is "hb" then if discounted txn params then factor - oneMicros else factor
    else factor

/-- The value under a name in a map. -/
def valueUnder (name : String) : List Value → Option Value
  | key :: value :: kvs => if key.same (.str (utf8 name)) then some value else valueUnder name kvs
  | _ => none

def fieldOf (name : String) : Value → Option Value
  | .map kvs => valueUnder name kvs
  | _ => none

def bytesOf : Value → Bytes
  | .bin bs => bs
  | .str bs => bs
  | _ => []

/-- The bytes of a field that is left out where it is empty. -/
def bytesUnder (name : String) (v : Value) : Bytes := ((fieldOf name v).map bytesOf).getD []

def uintUnder (name : String) (v : Value) : Nat :=
  match fieldOf name v with
  | some (.uint n) => n
  | _ => 0

/-- The scheme of a post-quantum signature: two bytes, zero where it is left out. -/
def pqScheme (pqsig : Value) : Bytes := if (bytesUnder "sch" pqsig).isEmpty then [0, 0] else bytesUnder "sch" pqsig

def pqBlank (pqsig : Value) : Bool :=
  pqScheme pqsig == [0, 0] && uintUnder "slt" pqsig == 0 && (bytesUnder "pk" pqsig).isEmpty &&
    (bytesUnder "sig" pqsig).isEmpty

def pqSchemeFeeContribution (scheme : Bytes) : Nat := if scheme = utf8 "f1" then 2000000 else 0

def logicSigProgramFeeContribution (group : List SignedTransaction) (params : ConsensusParams) : Nat :=
  let programBytes := (group.map (fun stx => (stx.lsig.map (fun l => (bytesUnder "l" l).length)).getD 0)).sum
  let freeProgramBytes := group.length * params.logicSigMaxSize
  (microsMulInt params.perByteTxnSurcharge ((programBytes : Int) - freeProgramBytes)).1

/-- What a post-quantum signature adds, on the transaction or else on its logic. -/
def signatureFeeContribution (stx : SignedTransaction) : Nat :=
  match stx.pqsig.filter (fun pqsig => !pqBlank pqsig) with
  | some pqsig => pqSchemeFeeContribution (pqScheme pqsig)
  | none =>
    match (stx.lsig.bind (fieldOf "pqsig")).filter (fun pqsig => !pqBlank pqsig) with
    | some pqsig => pqSchemeFeeContribution (pqScheme pqsig)
    | none => 0

/-- The usage of a group and what its transactions pay. -/
def summarizeFees (group : List SignedTransaction) (params : ConsensusParams) : Nat × Nat :=
  let (usage, paid) := group.foldl (fun acc stx =>
    (satAdd (satAdd acc.1 (txnFeeFactor stx.txn params)) (signatureFeeContribution stx), satAdd acc.2 stx.txn.fee))
    (0, 0)
  (satAdd usage (logicSigProgramFeeContribution group params), paid)

/-- The fees of the transactions of a group, without a bound. -/
def feesPaid (group : List SignedTransaction) : Nat := (group.map (fun stx => stx.txn.fee)).sum

/-- Where the fees of a group fit into 64 bits, the group pays their sum. -/
theorem summarizeFees_paid {group : List SignedTransaction} {params : ConsensusParams}
    (h : feesPaid group < u64Bound) : (summarizeFees group params).2 = feesPaid group := by
  have key : ∀ (group : List SignedTransaction) (usage paid : Nat), paid + feesPaid group < u64Bound →
      (group.foldl (fun acc stx => (satAdd (satAdd acc.1 (txnFeeFactor stx.txn params)) (signatureFeeContribution stx),
        satAdd acc.2 stx.txn.fee)) (usage, paid)).2 = paid + feesPaid group := by
    intro group
    induction group with
    | nil => intro usage paid _; rfl
    | cons stx group ih =>
      intro usage paid hlt
      have hcons : feesPaid (stx :: group) = stx.txn.fee + feesPaid group := rfl
      rw [hcons] at hlt ⊢
      have hadd : satAdd paid stx.txn.fee = paid + stx.txn.fee := Ledger.satAdd_of_lt (by omega)
      rw [List.foldl_cons, hadd, ih _ _ (by omega), Nat.add_assoc]
  have hsum := key group 0 0 (by omega)
  rw [Nat.zero_add] at hsum
  exact hsum

end Validate
end Algod
