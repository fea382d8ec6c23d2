import AlgodRust.Pool.LruBucket
import AlgodRust.Lib.Rounding
import AlgodRust.Ledger.Types
/-!
# AppRateLimiter — application calls per window and origin

`app_rate_limiter.rs`: a sliding count for each application and origin, in buckets that forget the key used least
recently.  The hash of a key is a parameter.  Counters are `i64` and wrap, floating point is rounded to 53 bits, and a
call that panics (a window of zero nanoseconds) is `none`.

A full bucket evicts before it looks for the key, so a bucket limits only while fewer keys than it holds are in use: with
as many keys as it holds, used in turn, every key is evicted just before it is asked for and comes back as a new one,
which is admitted unconditionally.
-/
namespace Algod
namespace Pool

open Msgpack (Bytes)
open Ledger (TxnType)

/-! ## Keys -/

def numBuckets : Nat := 128

/-- The first eight bytes of a digest. -/
structure AppKey where
  bytes : Bytes
deriving DecidableEq, Repr

structure ResourceRef where
  app : UInt64
deriving DecidableEq, Repr

/-- The fields of a signed transaction that the limiter reads. -/
structure AppTxn where
  txnType : TxnType
  applicationId : UInt64
  foreignApps : Option (List UInt64)
  access : Option (List ResourceRef)
deriving DecidableEq, Repr

def rotl31 (x : UInt64) : UInt64 := (x <<< 31) ||| (x >>> 33)

def memhash64 (val seed : UInt64) : UInt64 :=
  let h := seed ^^^ val
  let h := rotl31 (h * 16877499708836156737) * 2820277070424839065
  let h := h ^^^ (h >>> 29)
  let h := h * 9497967016996688599
  h ^^^ (h >>> 32)

def digestKey (blake2b256 : Bytes → Bytes) (appId : UInt64) (salt origin : Bytes) : AppKey :=
  let appIdLe := (List.range 8).map fun i => UInt8.ofNat (appId.toNat / 256 ^ i)
  ⟨(blake2b256 (appIdLe ++ salt ++ origin.take 16)).take 8⟩

/-- The applications a call names, in the order of the source: its own, the foreign ones and those of its access list. -/
def AppTxn.appIds (tx : AppTxn) : List UInt64 :=
  [tx.applicationId] ++ tx.foreignApps.getD [] ++ ((tx.access.getD []).map ResourceRef.app).filter (· ≠ 0)

/-- The closure `record`: an application is recorded once, and zero never. -/
def recordApp (seen : List UInt64) (appId : UInt64) : List UInt64 :=
  if appId ≠ 0 ∧ appId ∉ seen then seen ++ [appId] else seen

def txgroupToKeys (blake2b256 : Bytes → Bytes) (txgroup : List AppTxn) (origin : Bytes) (seed : UInt64) (salt : Bytes) :
    Option (List (Fin numBuckets × AppKey)) :=
  if txgroup.any (fun stxn => stxn.txnType = .appl) then
    let appIds := (txgroup.filter fun stxn => stxn.txnType = .appl).flatMap AppTxn.appIds
    some ((appIds.foldl recordApp []).map fun appId =>
      (⟨(memhash64 appId seed).toNat % numBuckets, Nat.mod_lt _ (by decide)⟩, digestKey blake2b256 appId salt origin))
  else none

/-! ## The limiter -/

/-- A rational rounded to a 64-bit float. -/
def f64 (x : ℚ) : ℚ := Rounding.roundNE 53 x

/-- The cast of a float to `i64`: towards zero, and to the bounds of the type beyond them. -/
def asI64 (x : ℚ) : Int64 :=
  Int64.ofInt (max (-2 ^ 63) (min (2 ^ 63 - 1) (if x < 0 then ⌈x⌉ else ⌊x⌋)))

structure AppRateLimiter where
  maxBucketSize : Nat
  serviceRatePerWindow : UInt64
  serviceRateWindow : Duration
  seed : UInt64
  salt : Bytes
  buckets : Fin numBuckets → Bucket AppKey
  evictions : UInt64

namespace AppRateLimiter

def new (maxCacheSize : Nat) (maxAppPeerRate : UInt64) (serviceRateWindow : Duration) (seed : UInt64) (salt : Bytes) :
    AppRateLimiter where
  maxBucketSize := if maxCacheSize / numBuckets = 0 then 2 else maxCacheSize / numBuckets
  serviceRatePerWindow := maxAppPeerRate * UInt64.ofNat (serviceRateWindow / Duration.fromSecs 1)
  serviceRateWindow := serviceRateWindow
  seed := seed
  salt := salt
  buckets := fun _ => .empty
  evictions := 0

def windowNanos (l : AppRateLimiter) : Int64 := Int64.ofNat l.serviceRateWindow

/-- The window of an instant; a division by zero or past the bound panics. -/
def interval (l : AppRateLimiter) (nowNanos : Int64) : Option Int64 :=
  if l.windowNanos = 0 ∨ nowNanos = Int64.minValue ∧ l.windowNanos = -1 then none else some (nowNanos / l.windowNanos)

def fraction (l : AppRateLimiter) (nowNanos : Int64) : ℚ :=
  f64 (f64 (nowNanos.toInt % l.windowNanos.toInt : Int) / f64 l.windowNanos.toInt)

/-- What is left of the previous window's count. -/
def decayed (prev : Int64) (fraction : ℚ) : Int64 := asI64 (f64 (f64 prev.toInt * f64 (1 - fraction)))

def withEntry {R : Type} (l : AppRateLimiter) (bucketIdx : Fin numBuckets) (key : AppKey) (curInterval : Int64)
    (f : Entry AppKey → Bool → R × Entry AppKey) : Option (R × AppRateLimiter) :=
  ((l.buckets bucketIdx).withEntry l.maxBucketSize key curInterval f).map fun (r, b, evicted) =>
    (r, { l with
      buckets := Function.update l.buckets bucketIdx b
      evictions := if evicted then l.evictions + 1 else l.evictions })

/-- The closure of `should_drop_keys`: whether the key is over its rate.  A new entry is not checked. -/
def rateCheck (l : AppRateLimiter) (fraction : ℚ) (e : Entry AppKey) (existed : Bool) : Bool × Entry AppKey :=
  if !existed then (false, { e with cur := e.cur + 1 })
  else if l.serviceRatePerWindow.toInt64 < decayed e.prev fraction + e.cur + 1 then (true, e)
  else (false, { e with cur := e.cur + 1 })

def penalty (l : AppRateLimiter) : Int64 := max (l.serviceRatePerWindow.toInt64 / 4) 1

/-- The closure of `penalize_eval_error`, which never ends its loop. -/
def penalize (l : AppRateLimiter) (e : Entry AppKey) (_existed : Bool) : Bool × Entry AppKey :=
  (false, { e with cur := e.cur + l.penalty })

/-- The loop over the keys of a group, which ends early where the closure says so. -/
def forKeys (curInterval : Int64) (f : Entry AppKey → Bool → Bool × Entry AppKey) :
    List (Fin numBuckets × AppKey) → AppRateLimiter → Option (Bool × AppRateLimiter)
  | [], l => some (false, l)
  | (bucketIdx, key) :: keys, l =>
    match l.withEntry bucketIdx key curInterval f with
    | none => none
    | some (true, l) => some (true, l)
    | some (false, l) => forKeys curInterval f keys l

variable (blake2b256 : Bytes → Bytes)

def keysOf (l : AppRateLimiter) (txgroup : List AppTxn) (origin : Bytes) : Option (List (Fin numBuckets × AppKey)) :=
  txgroupToKeys blake2b256 txgroup origin l.seed l.salt

def shouldDropKeys (l : AppRateLimiter) (keys : List (Fin numBuckets × AppKey)) (nowNanos : Int64) :
    Option (Bool × AppRateLimiter) :=
  (l.interval nowNanos).bind fun curInterval => forKeys curInterval (l.rateCheck (l.fraction nowNanos)) keys l

def shouldDropAt (l : AppRateLimiter) (txgroup : List AppTxn) (origin : Bytes) (nowNanos : Int64) :
    Option (Bool × AppRateLimiter) :=
  match l.keysOf blake2b256 txgroup origin with
  | none => some (false, l)
  | some keys => if keys.isEmpty then some (false, l) else l.shouldDropKeys keys nowNanos

/-- The clock is read by the source where `nowNanos` stands. -/
def penalizeEvalError (l : AppRateLimiter) (txgroup : List AppTxn) (origin : Bytes) (nowNanos : Int64) :
    Option AppRateLimiter :=
  match l.keysOf blake2b256 txgroup origin with
  | none => some l
  | some keys =>
    if keys.isEmpty then some l
    else (l.interval nowNanos).bind fun curInterval => (forKeys curInterval l.penalize keys l).map Prod.snd

/-! ## Runs -/

inductive Call
  | shouldDropAt (txgroup : List AppTxn) (origin : Bytes) (nowNanos : Int64)
  | penalizeEvalError (txgroup : List AppTxn) (origin : Bytes) (nowNanos : Int64)
deriving DecidableEq, Repr

def Call.nowNanos : Call → Int64
  | .shouldDropAt _ _ now => now
  | .penalizeEvalError _ _ now => now

/-- The keys of the group of a call. -/
def callKeys (l : AppRateLimiter) : Call → List (Fin numBuckets × AppKey)
  | .shouldDropAt txgroup origin _ => (l.keysOf blake2b256 txgroup origin).getD []
  | .penalizeEvalError txgroup origin _ => (l.keysOf blake2b256 txgroup origin).getD []

/-- The answer of a call, where it gives one, and the limiter after it. -/
def perform (l : AppRateLimiter) : Call → Option (Option Bool × AppRateLimiter)
  | .shouldDropAt txgroup origin now => (l.shouldDropAt blake2b256 txgroup origin now).map fun (drop, l) => (some drop, l)
  | .penalizeEvalError txgroup origin now => (l.penalizeEvalError blake2b256 txgroup origin now).map fun l => (none, l)

/-- The limiter after a call.  Only the division of the clock panics, before anything is touched. -/
def after (l : AppRateLimiter) (c : Call) : AppRateLimiter := ((l.perform blake2b256 c).map Prod.snd).getD l

def run (l : AppRateLimiter) (calls : List Call) : AppRateLimiter := calls.foldl (after blake2b256) l

/-- The call admits a group whose only key is `key`. -/
def Admits (l : AppRateLimiter) (key : Fin numBuckets × AppKey) (c : Call) : Prop :=
  l.callKeys blake2b256 c = [key] ∧ (l.perform blake2b256 c).map Prod.fst = some (some false)

instance (l : AppRateLimiter) (key : Fin numBuckets × AppKey) (c : Call) : Decidable (l.Admits blake2b256 key c) :=
  inferInstanceAs (Decidable (_ ∧ _))

/-- How many calls of a run admit a group whose only key is `key`. -/
def admissions (key : Fin numBuckets × AppKey) : List Call → AppRateLimiter → Nat
  | [], _ => 0
  | c :: calls, l => (if l.Admits blake2b256 key c then 1 else 0) + admissions key calls (l.after blake2b256 c)

/-- The keys of a bucket that the groups of some calls name. -/
def usedKeys (l : AppRateLimiter) (bucketIdx : Fin numBuckets) (calls : List Call) : Finset AppKey :=
  (((calls.flatMap (l.callKeys blake2b256)).filter fun p => p.1 = bucketIdx).map Prod.snd).toFinset

end AppRateLimiter
end Pool
end Algod
