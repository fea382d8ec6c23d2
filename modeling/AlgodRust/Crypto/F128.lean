import AlgodRust.Basics
import Mathlib.Data.Rat.Defs
/-!
# F128 — the 128-bit software float and the binomial walk

`f128.rs` and `select_f128` of `sortition.rs`.  A value is `(hi << 64 | lo) * 2 ^ exp`, with the top bit of `hi` set or
with `hi` and `lo` zero; there is no sign.  Words are 64-bit, products and sums of words are taken in natural numbers
where the source takes them in `u128`, and exponents wrap as `i64` does.  Shift counts are natural numbers below the
width.
-/
namespace Algod
namespace Crypto

structure F128 where
  hi : UInt64
  lo : UInt64
  exp : Int64
deriving DecidableEq, Repr

/-! ## Words -/

def shl (x : UInt64) (n : Nat) : UInt64 := UInt64.ofNat (x.toNat <<< n)

def shr (x : UInt64) (n : Nat) : UInt64 := UInt64.ofNat (x.toNat >>> n)

def leadingZeros (x : UInt64) : Nat := if x = 0 then 64 else 63 - x.toNat.log2

/-- The bit of weight `2 ^ n`. -/
def bit (n : Nat) : UInt64 := shl 1 n

/-- `x * y` as high and low word. -/
def mul64 (x y : UInt64) : UInt64 × UInt64 :=
  let p := x.toNat * y.toNat
  (UInt64.ofNat (p >>> 64), UInt64.ofNat p)

/-- `x + y + carry` as sum and carry. -/
def add64 (x y carry : UInt64) : UInt64 × UInt64 :=
  let s := x.toNat + y.toNat + carry.toNat
  (UInt64.ofNat s, UInt64.ofNat (s >>> 64))

/-- `x - y - borrow` as difference and borrow. -/
def sub64 (x y borrow : UInt64) : UInt64 × UInt64 :=
  let diff : Int := x.toNat - y.toNat - borrow.toNat
  if diff < 0 then (UInt64.ofNat (diff + 2 ^ 64).toNat, 1) else (UInt64.ofNat diff.toNat, 0)

/-- `(hi:lo) / y` as quotient and remainder, for `hi < y`. -/
def div64 (hi lo y : UInt64) : UInt64 × UInt64 :=
  let num := hi.toNat <<< 64 ||| lo.toNat
  (UInt64.ofNat (num / y.toNat), UInt64.ofNat (num % y.toNat))

def shr128 (hi lo : UInt64) (n : Nat) : UInt64 × UInt64 :=
  if n = 0 then (hi, lo)
  else if n < 64 then (shr hi n, shr lo n ||| shl hi (64 - n))
  else if n < 128 then (0, shr hi (n - 64))
  else (0, 0)

/-- A shift to the right by at most 128, with the round bit and the sticky bit of what is shifted out. -/
def shr128gs (hi lo : UInt64) (n : Nat) : UInt64 × UInt64 × Bool × Bool :=
  let (rhi, rlo) := shr128 hi lo n
  if n = 0 then
    (rhi, rlo, false, false)
  else if n ≤ 64 then
    let round := decide (shr lo (n - 1) &&& 1 ≠ 0)
    let sticky := if 2 ≤ n then decide (lo &&& (bit (n - 1) - 1) ≠ 0) else false
    (rhi, rlo, round, sticky)
  else if n < 128 then
    let m := n - 64
    let round := decide (shr hi (m - 1) &&& 1 ≠ 0)
    let sticky := if 2 ≤ m then decide (hi &&& (bit (m - 1) - 1) ≠ 0) else false
    (rhi, rlo, round, sticky || decide (lo ≠ 0))
  else
    let round := decide (hi &&& bit 63 ≠ 0)
    let sticky := decide (hi &&& ~~~(bit 63) ≠ 0) || decide (lo ≠ 0)
    (rhi, rlo, round, sticky)

/-- Word `i` of a 256-bit value shifted to the left. -/
def shl256Word (inw : List UInt64) (n i : Nat) : UInt64 :=
  let words := n / 64
  let shift := n % 64
  let src := i + words
  if inw.length ≤ src then 0
  else if shift ≠ 0 ∧ src + 1 < inw.length then
    shl (inw.getD src 0) shift ||| shr (inw.getD (src + 1) 0) (64 - shift)
  else shl (inw.getD src 0) shift

/-- A shift of `a3:a2:a1:a0` to the left by less than 256. -/
def shl256 (a3 a2 a1 a0 : UInt64) (n : Nat) : UInt64 × UInt64 × UInt64 × UInt64 :=
  let inw := [a3, a2, a1, a0]
  (shl256Word inw n 0, shl256Word inw n 1, shl256Word inw n 2, shl256Word inw n 3)

namespace F128

def zero : F128 := ⟨0, 0, 0⟩

def isZero (a : F128) : Bool := decide (a.hi = 0 ∧ a.lo = 0)

/-- Round the normalized mantissa `hi:lo` to nearest, ties to even, and renormalize on a carry. -/
def roundNe (hi lo : UInt64) (roundBit sticky : Bool) (exp : Int64) : F128 :=
  if roundBit ∧ (sticky ∨ lo &&& 1 ≠ 0) then
    let (lo2, c) := add64 lo 1 0
    let (hi2, c) := add64 hi 0 c
    if c ≠ 0 then ⟨bit 63, 0, exp + 1⟩ else ⟨hi2, lo2, exp⟩
  else ⟨hi, lo, exp⟩

def fromU64 (u : UInt64) : F128 :=
  if u = 0 then zero
  else
    let s := leadingZeros u
    ⟨shl u s, 0, -Int64.ofNat s - 64⟩

/-- The product of two mantissas as four words. -/
def mulWords (aHi aLo bHi bLo : UInt64) : UInt64 × UInt64 × UInt64 × UInt64 :=
  let (hhHi, hhLo) := mul64 aHi bHi
  let (hlHi, hlLo) := mul64 aHi bLo
  let (lhHi, lhLo) := mul64 aLo bHi
  let (llHi, llLo) := mul64 aLo bLo
  let p0 := llLo
  let (p1, cA) := add64 llHi hlLo 0
  let (p1, cB) := add64 p1 lhLo 0
  let cp1 := cA + cB
  let (p2, cC) := add64 hhLo hlHi 0
  let (p2, cD) := add64 p2 lhHi 0
  let (p2, cE) := add64 p2 cp1 0
  let p3 := hhHi + cC + cD + cE
  (p3, p2, p1, p0)

def mul (a b : F128) : F128 :=
  if a.isZero || b.isZero then zero
  else
    let (p3, p2, p1, p0) := mulWords a.hi a.lo b.hi b.lo
    if p3 &&& bit 63 ≠ 0 then
      -- the mantissa is p3:p2, the tail p1:p0
      let roundBit := decide (p1 &&& bit 63 ≠ 0)
      let sticky := decide (p1 &&& ~~~(bit 63) ≠ 0) || decide (p0 ≠ 0)
      roundNe p3 p2 roundBit sticky (a.exp + b.exp + 128)
    else
      -- one bit to the left to normalize
      let hi := shl p3 1 ||| shr p2 63
      let lo := shl p2 1 ||| shr p1 63
      let roundBit := decide (p1 &&& bit 62 ≠ 0)
      let sticky := decide (p1 &&& ~~~(shl 3 62) ≠ 0) || decide (p0 ≠ 0)
      roundNe hi lo roundBit sticky (a.exp + b.exp + 127)

def divU (a : F128) (u : UInt64) : F128 :=
  if a.isZero ∨ u = 0 then zero
  else
    let (q3, r) := div64 0 a.hi u
    let (q2, r) := div64 r a.lo u
    let (q1, r) := div64 r 0 u
    let (q0, rem) := div64 r 0 u
    let lz := if q3 ≠ 0 then leadingZeros q3 else 64
    let (o3, o2, o1, o0) := shl256 q3 q2 q1 q0 lz
    let round := decide (o1 &&& bit 63 ≠ 0)
    let sticky := decide (o1 &&& ~~~(bit 63) ≠ 0) || decide (o0 ≠ 0) || decide (rem ≠ 0)
    roundNe o3 o2 round sticky (a.exp - Int64.ofNat lz)

/-- The loop that lowers the estimate of a quotient digit; it starts at `rhat < 2 ^ 64`. -/
def lowerQhat (uLo v1 v0 : UInt64) : Nat → UInt64 → Nat
  | 0, _ => 0
  | qhat + 1, rhat =>
    let (hi, lo) := mul64 (UInt64.ofNat (qhat + 1)) v0
    if rhat < hi ∨ hi = rhat ∧ uLo < lo then
      let (r, c) := add64 rhat v1 0
      if c ≠ 0 then qhat else lowerQhat uLo v1 v0 qhat r
    else qhat + 1

/-- The quotient digit that one division step subtracts. -/
def estimate (uHi uMid uLo v1 v0 : UInt64) : UInt64 :=
  if v1 ≤ uHi then
    let (rhat, c) := add64 uMid v1 0
    -- a carry puts `rhat` past every product the test compares it with
    if c ≠ 0 then UInt64.ofNat (2 ^ 64 - 1)
    else UInt64.ofNat (lowerQhat uLo v1 v0 (2 ^ 64 - 1) rhat)
  else
    let (qhat, rhat) := div64 uHi uMid v1
    UInt64.ofNat (lowerQhat uLo v1 v0 qhat.toNat rhat)

/-- One digit of `uHi:uMid:uLo` over `v1:v0`: the digit and the remainder. -/
def divStep (uHi uMid uLo v1 v0 : UInt64) : UInt64 × UInt64 × UInt64 :=
  let qhat := estimate uHi uMid uLo v1 v0
  let (p1hi, p1lo) := mul64 qhat v1
  let (p0hi, p0lo) := mul64 qhat v0
  let (prodMid, c) := add64 p1lo p0hi 0
  let prodHi := p1hi + c
  let (sLo, br) := sub64 uLo p0lo 0
  let (sMid, br) := sub64 uMid prodMid br
  let (_, br) := sub64 uHi prodHi br
  if br ≠ 0 then
    -- add the divisor back
    let (lo2, c2) := add64 sLo v0 0
    let (mid2, _) := add64 sMid v1 c2
    (qhat - 1, mid2, lo2)
  else (qhat, sMid, sLo)

def div (a b : F128) : F128 :=
  if a.isZero || b.isZero then zero
  else
    let v1 := b.hi
    let v0 := b.lo
    let (_, remHi, remLo) := divStep 0 0 a.hi v1 v0
    let (q2, remHi, remLo) := divStep remHi remLo a.lo v1 v0
    let (q1, remHi, remLo) := divStep remHi remLo 0 v1 v0
    let (q0, remHi, remLo) := divStep remHi remLo 0 v1 v0
    let expq := a.exp - b.exp - 128
    if q2 ≠ 0 then
      -- the quotient has 129 bits: its last bit is the round bit
      let mantHi := shl q2 63 ||| shr q1 1
      let mantLo := shl q1 63 ||| shr q0 1
      let round := decide (q0 &&& 1 ≠ 0)
      let sticky := decide (remHi ≠ 0) || decide (remLo ≠ 0)
      roundNe mantHi mantLo round sticky (expq + 1)
    else
      -- the quotient has 128 bits: twice the remainder is compared with the divisor
      let dblLo := shl remLo 1
      let dblHi := shl remHi 1 ||| shr remLo 63
      let carry := shr remHi 63
      if carry ≠ 0 ∨ v1 < dblHi ∨ dblHi = v1 ∧ v0 ≤ dblLo then
        let (sLo, br) := sub64 dblLo v0 0
        let (sHi, _) := sub64 dblHi v1 br
        roundNe q1 q0 true (decide (sHi ≠ 0) || decide (sLo ≠ 0)) expq
      else
        roundNe q1 q0 false (decide (remHi ≠ 0) || decide (remLo ≠ 0)) expq

/-- The sum of two values that are not zero, of which the first has the larger exponent. -/
def addOrdered (a b : F128) : F128 :=
  if 128 < a.exp - b.exp then a
  else
    -- the cast of the difference to `u32`
    let diff := ((a.exp - b.exp).toInt % 2 ^ 32).toNat
    let (bhi, blo, round, sticky) := shr128gs b.hi b.lo diff
    let (slo, c) := add64 a.lo blo 0
    let (shi, c2) := add64 a.hi bhi c
    if c2 ≠ 0 then
      let flo := shr slo 1 ||| shl shi 63
      let fhi := shr shi 1 ||| bit 63
      roundNe fhi flo (decide (slo &&& 1 ≠ 0)) (sticky || round) (a.exp + 1)
    else roundNe shi slo round sticky a.exp

def add (a b : F128) : F128 :=
  if a.isZero then b
  else if b.isZero then a
  else if a.exp < b.exp then addOrdered b a
  else addOrdered a b

def cmp (a b : F128) : Ordering :=
  match a.isZero, b.isZero with
  | true, true => .eq
  | true, false => .lt
  | false, true => .gt
  | false, false =>
    if a.exp ≠ b.exp then compare a.exp.toInt b.exp.toInt
    else if a.hi ≠ b.hi then compare a.hi.toNat b.hi.toNat
    else compare a.lo.toNat b.lo.toNat

/-- The loop of `int_pow`; the exponent has at most as many bits as there are rounds left. -/
def intPowLoop : Nat → F128 → F128 → Nat → F128
  | 0, result, _, _ => result
  | n + 1, result, b, e =>
    if e = 0 then result
    else
      let result := if e % 2 = 1 then result.mul b else result
      let b := if 0 < e / 2 then b.mul b else b
      intPowLoop n result b (e / 2)

def intPow (a : F128) (e : UInt64) : F128 := intPowLoop 64 (fromU64 1) a e.toNat

end F128

/-- `digest / (2 ^ 256 - 1)`. -/
def f128FromDigestRatio (d : Bytes32) : F128 :=
  let w3 := UInt64.ofNat (d.toNat >>> 192)
  let w2 := UInt64.ofNat (d.toNat >>> 128)
  let w1 := UInt64.ofNat (d.toNat >>> 64)
  let w0 := UInt64.ofNat d.toNat
  if w3 = 0 ∧ w2 = 0 ∧ w1 = 0 ∧ w0 = 0 then F128.zero
  else
    let leading :=
      if w3 ≠ 0 then leadingZeros w3
      else if w2 ≠ 0 then 64 + leadingZeros w2
      else if w1 ≠ 0 then 128 + leadingZeros w1
      else 192 + leadingZeros w0
    let (n3, n2, n1, n0) := shl256 w3 w2 w1 w0 leading
    let roundBit := decide (n1 &&& bit 63 ≠ 0)
    let sticky := decide (n1 &&& ~~~(bit 63) ≠ 0) || decide (n0 ≠ 0)
    -- the real denominator is one smaller, so an exact half is a little more than a half
    let sticky := sticky || (roundBit && !sticky)
    F128.roundNe n3 n2 roundBit sticky (-128 - Int64.ofNat leading)

/-! ## The binomial walk -/

/-- The distribution function of a binomial, term by term. -/
structure BinomialF128 where
  money : UInt64
  /-- The factor `p / (1 - p)` of a step. -/
  pq : F128
  pmf : F128
  cum : F128
  at_ : Nat
  frozen : Bool

namespace BinomialF128

def new (expectedSize totalMoney money : UInt64) : Option BinomialF128 :=
  if totalMoney ≤ expectedSize then none
  else
    let qf := (F128.fromU64 (totalMoney - expectedSize)).div (F128.fromU64 totalMoney)
    let pq := (F128.fromU64 expectedSize).div (F128.fromU64 (totalMoney - expectedSize))
    let pmf0 := qf.intPow money
    some ⟨money, pq, pmf0, pmf0, 0, false⟩

/-- One round of the loop of `cdf`. -/
def advance (d : BinomialF128) : BinomialF128 :=
  let at' := d.at_ + 1
  let pmf := (((F128.fromU64 (d.money - UInt64.ofNat at' + 1)).divU (UInt64.ofNat at')).mul d.pq).mul d.pmf
  let cum := d.cum.add pmf
  { d with
    at_ := at'
    pmf := pmf
    cum := cum
    frozen := d.frozen || decide (cum.cmp d.cum = .eq ∧ pmf.cmp d.pmf = .lt) }

/-- The loop of `cdf`, which ends once the sum is frozen. -/
def cdfLoop : Nat → BinomialF128 → BinomialF128
  | 0, d => d
  | n + 1, d => if d.frozen then d else cdfLoop n d.advance

def cdf (d : BinomialF128) (j : Nat) : BinomialF128 := cdfLoop (j - d.at_) d

end BinomialF128

/-- The rounds of the walk from index `j` on. -/
def walkFrom (ratio : F128) : Nat → Nat → BinomialF128 → Nat
  | 0, j, _ => j
  | n + 1, j, d =>
    let d := d.cdf j
    if ratio.cmp d.cum ≠ .gt then j
    else if d.frozen then j
    else walkFrom ratio n (j + 1) d

def binomialCdfWalkF128 (expectedSize totalMoney : UInt64) (ratio : F128) (money : UInt64) : Nat :=
  match BinomialF128.new expectedSize totalMoney money with
  | none => if ratio.isZero then 0 else money.toNat
  | some d => walkFrom ratio money.toNat 0 d

def selectF128 (money totalMoney expectedSize : UInt64) (vrfOutput : Bytes32) : Nat :=
  binomialCdfWalkF128 expectedSize totalMoney (f128FromDigestRatio vrfOutput) money

end Crypto
end Algod
