import Mathlib.Data.List.Basic
import Mathlib.Data.List.Count
/-!
# LookbackDownload — the blocks before a catchpoint

Blocks are fetched and stored from the round of the catchpoint backward.  Every failed attempt, at whatever round, draws
on one budget; an attempt that succeeds does not.  The log of the attempts is kept beside the result.
-/
namespace Algod
namespace Catchpoint

inductive CatchpointError
  | cancelled
  | verificationError (message : String)
  /-- Any other one, by its text. -/
  | other (text : String)
deriving DecidableEq, Repr

def CatchpointError.text : CatchpointError → String
  | .cancelled => "catchpoint operation cancelled"
  | .verificationError message => s!"catchpoint verification error: {message}"
  | .other text => text

/-- The closures of the caller, which may change what they hold. -/
structure BlockSource (σ β : Type) where
  fetchBlock : Nat → σ → Except CatchpointError β × σ
  storeBlock : Nat → β → σ → Except CatchpointError Unit × σ

inductive AttemptOutcome
  | cancelled
  | failed
  | stored
deriving DecidableEq, Repr

/-- Rounds with what came of the attempts at them. -/
abbrev AttemptLog := List (Nat × AttemptOutcome)

def failures (log : AttemptLog) : Nat := log.countP (fun a => decide (a.2 = .failed))

def storedRounds (log : AttemptLog) : List Nat := (log.filter (fun a => decide (a.2 = .stored))).map Prod.fst

variable {σ β : Type}

def lookbackLoop (source : BlockSource σ β) (startRound maxRetries rnd retryCount count : Nat) (s : σ) :
    Except CatchpointError Nat × AttemptLog :=
  if rnd < startRound then (.ok count, [])
  else
    match source.fetchBlock rnd s with
    | (.error e, s) =>
      if e = .cancelled then (.error .cancelled, [(rnd, .cancelled)])
      else if retryCount < maxRetries then
        let rest := lookbackLoop source startRound maxRetries rnd (retryCount + 1) count s
        (rest.1, (rnd, .failed) :: rest.2)
      else (.error (.verificationError (s!"failed to fetch lookback block at round {rnd} after {retryCount} " ++
        s!"retries (of {maxRetries} configured): {e.text}")), [(rnd, .failed)])
    | (.ok block, s) =>
      match source.storeBlock rnd block s with
      | (.error e, s) =>
        if retryCount < maxRetries then
          let rest := lookbackLoop source startRound maxRetries rnd (retryCount + 1) count s
          (rest.1, (rnd, .failed) :: rest.2)
        else (.error (.verificationError (s!"failed to store lookback block at round {rnd} after {retryCount} " ++
          s!"retries (of {maxRetries} configured): {e.text}")), [(rnd, .failed)])
      | (.ok _, s) =>
        if rnd = 0 then (.ok (count + 1), [(rnd, .stored)])
        else
          let rest := lookbackLoop source startRound maxRetries (rnd - 1) retryCount (count + 1) s
          (rest.1, (rnd, .stored) :: rest.2)
termination_by (rnd, maxRetries - retryCount)

def downloadLookbackBlocksWithLookback (source : BlockSource σ β) (round lookback maxRetries : Nat) (s : σ) :
    Except CatchpointError Nat × AttemptLog :=
  lookbackLoop source (round - lookback) maxRetries round 0 0 s

/-- So many rounds, from one downward. -/
def descending (rnd n : Nat) : List Nat := (List.range n).map (fun i => rnd - i)

theorem descending_succ (rnd n : Nat) : descending rnd (n + 1) = rnd :: descending (rnd - 1) n := by
  unfold descending
  rw [List.range_succ_eq_map, List.map_cons, List.map_map]
  refine congrArg _ (List.map_congr_left fun i _ => ?_)
  simp only [Function.comp]
  omega

/-- What a result and a log say about the rounds from `rnd` on, with the failures and the rounds that came before. -/
def Accounted (startRound maxRetries rnd retryCount count : Nat) (r : Except CatchpointError Nat × AttemptLog) : Prop :=
  (∀ n, r.1 = .ok n → retryCount + failures r.2 ≤ maxRetries ∧ n = count + (rnd + 1 - startRound) ∧
    storedRounds r.2 = descending rnd (rnd + 1 - startRound)) ∧
  ∀ e, r.1 = .error e → retryCount + failures r.2 = maxRetries + 1 ∧
    ∃ j, startRound + j ≤ rnd ∧ storedRounds r.2 = descending rnd j ∧ r.2.getLast? = some (rnd - j, .failed)

section Steps

variable {startRound maxRetries rnd retryCount count : Nat} {r : Except CatchpointError Nat × AttemptLog}

theorem getLast?_cons_of_some {α : Type} {l : List α} {x y : α} (h : l.getLast? = some x) : (y :: l).getLast? = some x := by
  cases l with
  | nil => cases h
  | cons z l => rw [List.getLast?_cons_cons, h]

theorem Accounted.retry (h : Accounted startRound maxRetries rnd (retryCount + 1) count r) :
    Accounted startRound maxRetries rnd retryCount count (r.1, (rnd, .failed) :: r.2) := by
  have hfailures : failures ((rnd, .failed) :: r.2) = failures r.2 + 1 := by simp [failures]
  have hstored : storedRounds ((rnd, .failed) :: r.2) = storedRounds r.2 := by simp [storedRounds]
  refine ⟨fun n hn => ?_, fun e he => ?_⟩
  · obtain ⟨hbudget, hcount, hrounds⟩ := h.1 n hn
    exact ⟨by rw [hfailures]; omega, hcount, hstored.trans hrounds⟩
  · obtain ⟨hbudget, j, hj, hrounds, hlast⟩ := h.2 e he
    exact ⟨by rw [hfailures]; omega, j, hj, hstored.trans hrounds, getLast?_cons_of_some hlast⟩

theorem Accounted.store (h : Accounted startRound maxRetries (rnd - 1) retryCount (count + 1) r) (hrnd : startRound ≤ rnd)
    (hpos : rnd ≠ 0) : Accounted startRound maxRetries rnd retryCount count (r.1, (rnd, .stored) :: r.2) := by
  have hfailures : failures ((rnd, .stored) :: r.2) = failures r.2 := by simp [failures]
  have hstored : storedRounds ((rnd, .stored) :: r.2) = rnd :: storedRounds r.2 := by simp [storedRounds]
  refine ⟨fun n hn => ?_, fun e he => ?_⟩
  · obtain ⟨hbudget, hcount, hrounds⟩ := h.1 n hn
    rw [hfailures, hstored, hrounds, show rnd + 1 - startRound = (rnd - 1 + 1 - startRound) + 1 by omega, descending_succ]
    exact ⟨hbudget, by omega, rfl⟩
  · obtain ⟨hbudget, j, hj, hrounds, hlast⟩ := h.2 e he
    rw [hfailures, hstored, hrounds, ← descending_succ]
    refine ⟨hbudget, j + 1, by omega, rfl, ?_⟩
    rw [getLast?_cons_of_some hlast, show rnd - 1 - j = rnd - (j + 1) by omega]

theorem Accounted.exhausted (hrnd : startRound ≤ rnd) (e : CatchpointError) :
    Accounted startRound maxRetries rnd maxRetries count (.error e, [(rnd, .failed)]) :=
  ⟨fun _ h => (by cases h), fun _ _ => ⟨rfl, 0, hrnd, rfl, rfl⟩⟩

end Steps

theorem lookbackLoop_accounted (source : BlockSource σ β) {startRound maxRetries rnd retryCount count : Nat} {s : σ}
    (hretry : retryCount ≤ maxRetries)
    (hlog : ∀ a ∈ (lookbackLoop source startRound maxRetries rnd retryCount count s).2, a.2 ≠ .cancelled) :
    Accounted startRound maxRetries rnd retryCount count
      (lookbackLoop source startRound maxRetries rnd retryCount count s) := by
  fun_induction lookbackLoop source startRound maxRetries rnd retryCount count s with
  | case1 rnd retryCount count s hdone =>
    have hnone : rnd + 1 - startRound = 0 := by omega
    exact ⟨fun n hn => (by cases hn; rw [hnone]; exact ⟨hretry, rfl, rfl⟩), fun e he => (by cases he)⟩
  | case2 rnd retryCount count s hdone s' hfetch => exact absurd rfl (hlog _ List.mem_cons_self)
  | case3 rnd retryCount count s hrnd e s' hfetch hnot hless rest ih =>
    exact (ih (by omega) fun a ha => hlog a (List.mem_cons_of_mem _ ha)).retry
  | case4 rnd retryCount count s hrnd e s' hfetch hnot hmore =>
    obtain rfl : retryCount = maxRetries := by omega
    exact .exhausted (by omega) _
  | case5 rnd retryCount count s hrnd block s₁ hfetch e s₂ hstore hless rest ih =>
    exact (ih (by omega) fun a ha => hlog a (List.mem_cons_of_mem _ ha)).retry
  | case6 rnd retryCount count s hrnd block s₁ hfetch e s₂ hstore hmore =>
    obtain rfl : retryCount = maxRetries := by omega
    exact .exhausted (by omega) _
  | case7 retryCount count s block s₁ _ s₂ hstart =>
    obtain rfl : startRound = 0 := by omega
    exact ⟨fun n hn => (by cases hn; exact ⟨hretry, rfl, rfl⟩), fun e he => (by cases he)⟩
  | case8 rnd retryCount count s hrnd block s₁ hfetch _ s₂ hstore hpos rest ih =>
    exact (ih hretry fun a ha => hlog a (List.mem_cons_of_mem _ ha)).store (by omega) hpos

/-- **One budget for all failures**: a download that is not cancelled succeeds if and only if no more attempts failed than
it may retry.  It then stored each round of the window once, from the top, and counts them; otherwise it stops at the
failed attempt that is one too many, with every round above stored. -/
theorem lookback_accounting (source : BlockSource σ β) (round lookback maxRetries : Nat) (s : σ)
    (hlog : ∀ a ∈ (downloadLookbackBlocksWithLookback source round lookback maxRetries s).2, a.2 ≠ .cancelled) :
    Accounted (round - lookback) maxRetries round 0 0 (downloadLookbackBlocksWithLookback source round lookback maxRetries s) :=
  lookbackLoop_accounted source (Nat.zero_le _) hlog

/-- No block at the first attempt, and one at every other. -/
def slowPeer : BlockSource Nat Unit where
  fetchBlock := fun _ n => (if n = 0 then .error (.other "no peer") else .ok (), n + 1)
  storeBlock := fun _ _ n => (.ok (), n)

theorem lookback_accounting_slowPeer :
    (downloadLookbackBlocksWithLookback slowPeer 7 2 1 0).1 = .ok 3 ∧
      storedRounds (downloadLookbackBlocksWithLookback slowPeer 7 2 1 0).2 = [7, 6, 5] := by
  have hrun : downloadLookbackBlocksWithLookback slowPeer 7 2 1 0 =
      (.ok 3, [(7, .failed), (7, .stored), (6, .stored), (5, .stored)]) := by
    simp [downloadLookbackBlocksWithLookback, lookbackLoop, slowPeer]
  have h := lookback_accounting slowPeer 7 2 1 0 (by rw [hrun]; decide)
  have hok := congrArg Prod.fst hrun
  exact ⟨hok, (h.1 3 hok).2.2⟩

end Catchpoint
end Algod
