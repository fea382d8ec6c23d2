import AlgodRust.Agreement.Bundle
import Mathlib.Logic.Relation
/-!
# VerifyWaves — the schedules of a wave

`verifyInWaves` takes the votes of a wave one after another.  The source hands them to a pool of threads: each position
reads `lowest_failed`, is skipped if it lies above what it read, verifies its vote, and lowers `lowest_failed` if the
vote fails.  Here every one of these is a step of its own, and the steps of different positions interleave in any order
(`WaveStep`).  The accesses are relaxed: a load may return any value that was ever stored, only `fetch_min` acts on the
last.

Whatever the order, verification from a state that is reached still gives what one by one verification gives
(`answer_of_step`), since a position is skipped only above one that fails.
-/
namespace Algod
namespace Agreement

open Run (ok_bind error_bind)

/-- Where the closure `run` of a position stands, and at its end what it returned. -/
inductive Progress
  | waiting
  | verifying
  | failed (e : BundleError)
  | finished (res : Option (Except BundleError Vote))

inductive WaveFailure
  | vote (e : BundleError)
  | unreachable
deriving DecidableEq, Repr

/-- What a call returns, with the vector its votes were pushed to. -/
abbrev WaveOutcome := Except WaveFailure Unit × List Vote

/-- The initial value of `lowest_failed`. -/
def usizeMax : Nat := u64Bound - 1

section Machine

variable {γ α : Type} (verify : VoteWork → Except BundleError Vote) (wave : Nat)
  (prepare : γ → α → Except BundleError VoteWork × γ)

/-- The head of the loop, a wave under way, or the end.  `stores` are the values `lowest_failed` has had, the last
first. -/
inductive WaveState (γ α : Type)
  | loop (c : γ) (as : List α) (out : List Vote)
  | running (slots : List (VoteWork × Progress)) (stores : List Nat) (lookupError : Option BundleError) (c : γ)
      (rest : List α) (out : List Vote)
  | returned (o : WaveOutcome)

/-- The values of `lowest_failed` after a `fetch_min`. -/
def fetchMin (pos : Nat) : List Nat → List Nat
  | [] => [pos]
  | v :: vs => min v pos :: v :: vs

/-- An atomic step of the closure at position `pos`. -/
inductive WorkerStep (pos : Nat) (w : VoteWork) : Progress → List Nat → Progress → List Nat → Prop
  | skip {stores : List Nat} {v : Nat} (hload : v ∈ stores) (hv : v < pos) :
      WorkerStep pos w .waiting stores (.finished none) stores
  | start {stores : List Nat} {v : Nat} (hload : v ∈ stores) (hv : ¬ v < pos) :
      WorkerStep pos w .waiting stores .verifying stores
  | verified {stores : List Nat} {vote : Vote} (hok : verify w = .ok vote) :
      WorkerStep pos w .verifying stores (.finished (some (.ok vote))) stores
  | fails {stores : List Nat} {e : BundleError} (herr : verify w = .error e) :
      WorkerStep pos w .verifying stores (.failed e) stores
  | lower {stores : List Nat} {e : BundleError} :
      WorkerStep pos w (.failed e) stores (.finished (some (.error e))) (fetchMin pos stores)

/-- The results of a wave in order of their positions. -/
def collectResults : List (Option (Except BundleError Vote)) → List Vote → WaveOutcome
  | [], out => (.ok (), out)
  | some (.ok vote) :: results, out => collectResults results (out ++ [vote])
  | some (.error e) :: _, out => (.error (.vote e), out)
  | none :: _, out => (.error .unreachable, out)

/-- What follows the results of a wave: a lookup error comes last. -/
def afterWave (lookupError : Option BundleError) (c : γ) (rest : List α) : WaveOutcome → WaveState γ α
  | (.error e, out) => .returned (.error e, out)
  | (.ok (), out) =>
    match lookupError with
    | some e => .returned (.error (.vote e), out)
    | none => .loop c rest out

/-- A step of a call.  `collect` joins the workers: it needs every one to have returned. -/
inductive WaveStep : WaveState γ α → WaveState γ α → Prop
  | done {c : γ} {out : List Vote} : WaveStep (.loop c [] out) (.returned (.ok (), out))
  | lookUp {c : γ} {a : α} {as : List α} {out : List Vote} {work : List VoteWork} {lookupError : Option BundleError}
      {c' : γ} (h : prepareWave prepare c ((a :: as).take wave) = ((work, lookupError), c')) :
      WaveStep (.loop c (a :: as) out)
        (.running (work.map (·, .waiting)) [usizeMax] lookupError c' ((a :: as).drop wave) out)
  | work {before after : List (VoteWork × Progress)} {w : VoteWork} {p p' : Progress} {stores stores' : List Nat}
      {lookupError : Option BundleError} {c : γ} {rest : List α} {out : List Vote}
      (h : WorkerStep verify before.length w p stores p' stores') :
      WaveStep (.running (before ++ (w, p) :: after) stores lookupError c rest out)
        (.running (before ++ (w, p') :: after) stores' lookupError c rest out)
  | collect {slots : List (VoteWork × Progress)} {results : List (Option (Except BundleError Vote))}
      {stores : List Nat} {lookupError : Option BundleError} {c : γ} {rest : List α} {out : List Vote}
      (h : slots.map (·.2) = results.map .finished) :
      WaveStep (.running slots stores lookupError c rest out)
        (afterWave lookupError c rest (collectResults results out))

/-- Verification in index order: a vote is looked up, verified and pushed before the next one is looked at. -/
def verifyOneByOne : γ → List α → List Vote → WaveOutcome
  | _, [], out => (.ok (), out)
  | c, a :: as, out =>
    match prepare c a with
    | (.error e, _) => (.error (.vote e), out)
    | (.ok w, c') =>
      match verify w with
      | .error e => (.error (.vote e), out)
      | .ok vote => verifyOneByOne c' as (out ++ [vote])

end Machine

/-! ## One by one, wave by wave -/

section Answer

variable {γ α : Type} (verify : VoteWork → Except BundleError Vote) (prepare : γ → α → Except BundleError VoteWork × γ)

/-- The votes of a wave in order. -/
def verifyWork : List VoteWork → List Vote → WaveOutcome
  | [], out => (.ok (), out)
  | w :: ws, out =>
    match verify w with
    | .error e => (.error (.vote e), out)
    | .ok vote => verifyWork ws (out ++ [vote])

/-- Verification in index order of what follows a wave. -/
def settle (lookupError : Option BundleError) (c : γ) (rest : List α) : WaveOutcome → WaveOutcome
  | (.error e, out) => (.error e, out)
  | (.ok (), out) =>
    match lookupError with
    | some e => (.error (.vote e), out)
    | none => verifyOneByOne verify prepare c rest out

/-- What verification in index order gives from a state on. -/
def answer : WaveState γ α → WaveOutcome
  | .loop c as out => verifyOneByOne verify prepare c as out
  | .running slots _ lookupError c rest out =>
    settle verify prepare lookupError c rest (verifyWork verify (slots.map (·.1)) out)
  | .returned o => o

variable {verify} {prepare}

/-- Looking up a wave before any of its votes is verified changes no answer: the lookups after a failing vote are not
seen, and a failing lookup comes after the votes before it. -/
theorem verifyOneByOne_append : ∀ (as rest : List α) (c : γ) (out : List Vote),
    verifyOneByOne verify prepare c (as ++ rest) out =
      settle verify prepare (prepareWave prepare c as).1.2 (prepareWave prepare c as).2 rest
        (verifyWork verify (prepareWave prepare c as).1.1 out)
  | [], rest, c, out => rfl
  | a :: as, rest, c, out => by
    rw [List.cons_append]
    unfold verifyOneByOne prepareWave
    cases prepare c a with
    | mk r c' =>
      cases r with
      | error e => rfl
      | ok w =>
        simp only [verifyWork]
        cases verify w with
        | error e => rfl
        | ok vote => exact verifyOneByOne_append as rest c' (out ++ [vote])

theorem answer_afterWave (lookupError : Option BundleError) (c : γ) (rest : List α) (o : WaveOutcome) :
    answer verify prepare (afterWave lookupError c rest o) = settle verify prepare lookupError c rest o := by
  obtain ⟨r, out⟩ := o
  cases r with
  | error e => rfl
  | ok u =>
    cases lookupError with
    | some e => rfl
    | none => rfl

theorem length_prepareWave (prepare : γ → α → Except BundleError VoteWork × γ) :
    ∀ (as : List α) (c : γ), (prepareWave prepare c as).1.1.length ≤ as.length
  | [], _ => Nat.le_refl 0
  | a :: as, c => by
    unfold prepareWave
    cases prepare c a with
    | mk r c' =>
      cases r with
      | error e => exact Nat.zero_le _
      | ok w =>
        have := length_prepareWave prepare as c'
        simpa using this

theorem verifyOneByOne_reachable : ∀ (as : List α) (c : γ) (out out' : List Vote),
    verifyOneByOne verify prepare c as out ≠ (.error .unreachable, out')
  | [], c, out, out' => by simp [verifyOneByOne]
  | a :: as, c, out, out' => by
    unfold verifyOneByOne
    cases prepare c a with
    | mk r c' =>
      cases r with
      | error e => simp
      | ok w =>
        simp only
        cases verify w with
        | error e => simp
        | ok vote => exact verifyOneByOne_reachable as c' (out ++ [vote]) out'

end Answer

/-! ## The invariant of a wave -/

section Invariant

variable {γ α : Type} (verify : VoteWork → Except BundleError Vote) (wave : Nat)
  (prepare : γ → α → Except BundleError VoteWork × γ) {stores stores' : List Nat} {w : VoteWork}

/-- The vote at a position of a wave fails. -/
def FailsAt (slots : List (VoteWork × Progress)) (pos : Nat) : Prop :=
  ∃ w e, (slots.map (·.1))[pos]? = some w ∧ verify w = .error e

/-- What the progress of a position says about its vote.  A skipped position has a failing one below it. -/
def Progress.Explained (slots : List (VoteWork × Progress)) (pos : Nat) (w : VoteWork) : Progress → Prop
  | .waiting => True
  | .verifying => True
  | .failed e => verify w = .error e
  | .finished (some res) => verify w = res
  | .finished none => ∃ q, q < pos ∧ FailsAt verify slots q

structure WaveSound (slots : List (VoteWork × Progress)) (stores : List Nat) : Prop where
  fits : slots.length ≤ usizeMax
  stored : ∀ v ∈ stores, v = usizeMax ∨ FailsAt verify slots v
  initialised : stores ≠ []
  explained : ∀ (pos : Nat) (w : VoteWork) (p : Progress), slots[pos]? = some (w, p) → p.Explained verify slots pos w

/-- A position of a list is that of its changed member, or it holds what it held. -/
theorem getElem?_replaced {β : Type} {before after : List β} {x x' y : β} {i : Nat}
    (h : (before ++ x' :: after)[i]? = some y) :
    (i = before.length ∧ y = x') ∨ (before ++ x :: after)[i]? = some y := by
  by_cases hlt : i < before.length
  · right
    rw [List.getElem?_append_left hlt] at h ⊢
    exact h
  · rw [List.getElem?_append_right (by omega)] at h ⊢
    cases hi : i - before.length with
    | zero =>
      rw [hi] at h
      simp only [List.getElem?_cons_zero, Option.some.injEq] at h
      exact .inl ⟨by omega, h.symm⟩
    | succ k =>
      rw [hi] at h
      exact .inr h

variable {verify}

theorem FailsAt.of_works {slots slots' : List (VoteWork × Progress)} {pos : Nat}
    (hworks : slots'.map (·.1) = slots.map (·.1)) (h : FailsAt verify slots pos) : FailsAt verify slots' pos := by
  unfold FailsAt at h ⊢
  rw [hworks]
  exact h

theorem Progress.Explained.of_works {slots slots' : List (VoteWork × Progress)} {pos : Nat} {p : Progress}
    (hworks : slots'.map (·.1) = slots.map (·.1)) (h : p.Explained verify slots pos w) :
    p.Explained verify slots' pos w := by
  cases p with
  | waiting => trivial
  | verifying => trivial
  | failed e => exact h
  | finished r =>
    cases r with
    | some r => exact h
    | none =>
      obtain ⟨q, hq, hfail⟩ := h
      exact ⟨q, hq, hfail.of_works hworks⟩

/-- What a worker finds out about its own vote. -/
theorem WorkerStep.explained {pos : Nat} {p p' : Progress}
    {slots : List (VoteWork × Progress)} (h : WorkerStep verify pos w p stores p' stores')
    (hs : WaveSound verify slots stores) (hpos : slots[pos]? = some (w, p)) : p'.Explained verify slots pos w := by
  cases h with
  | @skip _ v hload hv =>
    have hlt : pos < slots.length := (List.getElem?_eq_some_iff.1 hpos).1
    have hfits := hs.fits
    rcases hs.stored v hload with rfl | hfail
    · omega
    · exact ⟨v, hv, hfail⟩
  | start hload hv => trivial
  | verified hok => exact hok
  | fails herr => exact herr
  | @lower _ e =>
    have hfailed : verify w = .error e := hs.explained pos w _ hpos
    exact hfailed

/-- Only the position of a failing vote is stored. -/
theorem WorkerStep.stored {pos : Nat} {p p' : Progress}
    {slots : List (VoteWork × Progress)} (h : WorkerStep verify pos w p stores p' stores')
    (hs : WaveSound verify slots stores) (hpos : slots[pos]? = some (w, p)) :
    stores' ≠ [] ∧ ∀ v ∈ stores', v = usizeMax ∨ FailsAt verify slots v := by
  cases h with
  | skip hload hv => exact ⟨hs.initialised, hs.stored⟩
  | start hload hv => exact ⟨hs.initialised, hs.stored⟩
  | verified hok => exact ⟨hs.initialised, hs.stored⟩
  | fails herr => exact ⟨hs.initialised, hs.stored⟩
  | @lower _ e =>
    have hfail : FailsAt verify slots pos := by
      refine ⟨w, e, ?_, hs.explained pos w _ hpos⟩
      rw [List.getElem?_map, hpos]
      rfl
    cases stores with
    | nil => exact absurd rfl hs.initialised
    | cons v vs =>
      refine ⟨List.cons_ne_nil _ _, ?_⟩
      intro u hu
      rcases List.mem_cons.1 hu with rfl | hu
      · rcases Nat.le_total v pos with hle | hle
        · rw [Nat.min_eq_left hle]
          exact hs.stored v List.mem_cons_self
        · rw [Nat.min_eq_right hle]
          exact .inr hfail
      · exact hs.stored u hu

/-- **A step of one worker keeps the wave sound.** -/
theorem WaveSound.work {before after : List (VoteWork × Progress)} {p p' : Progress}
    (h : WorkerStep verify before.length w p stores p' stores')
    (hs : WaveSound verify (before ++ (w, p) :: after) stores) :
    WaveSound verify (before ++ (w, p') :: after) stores' := by
  have hworks : (before ++ (w, p') :: after).map (·.1) = (before ++ (w, p) :: after).map (·.1) := by simp
  have hpos : (before ++ (w, p) :: after)[before.length]? = some (w, p) := by simp
  obtain ⟨hinit, hstored⟩ := h.stored hs hpos
  refine ⟨?_, fun v hv => (hstored v hv).imp_right (·.of_works hworks), hinit, ?_⟩
  · have := hs.fits
    simpa using this
  · intro pos u q hget
    rcases getElem?_replaced hget with ⟨rfl, hq⟩ | hold
    · cases hq
      exact (h.explained hs hpos).of_works hworks
    · exact (hs.explained pos u q hold).of_works hworks

theorem WaveSound.start {work : List VoteWork} (h : work.length ≤ usizeMax) :
    WaveSound verify (work.map (·, .waiting)) [usizeMax] := by
  refine ⟨by simpa using h, ?_, List.cons_ne_nil _ _, ?_⟩
  · intro v hv
    exact .inl (List.mem_singleton.1 hv)
  · intro pos w p hget
    rw [List.getElem?_map] at hget
    cases hw : work[pos]? with
    | none =>
      rw [hw] at hget
      cases hget
    | some u =>
      rw [hw] at hget
      cases hget
      trivial

/-- The results of a sound wave, in order, are the verification of its votes in order: no position below a failing one
was skipped.  `pre` are the votes already taken. -/
theorem collectResults_eq : ∀ (slots pre : List (VoteWork × Progress)) (results : List (Option (Except BundleError Vote)))
    (out : List Vote), slots.map (·.2) = results.map .finished → (∀ x ∈ pre, ∃ vote, verify x.1 = .ok vote) →
    (∀ (pos : Nat) (w : VoteWork) (p : Progress), (pre ++ slots)[pos]? = some (w, p) →
      p.Explained verify (pre ++ slots) pos w) →
    collectResults results out = verifyWork verify (slots.map (·.1)) out
  | [], pre, results, out, hres, hpre, hexp => by
    have : results = [] := by
      cases results with
      | nil => rfl
      | cons r rs => cases hres
    subst this
    rfl
  | (w, p) :: slots, pre, [], out, hres, hpre, hexp => by cases hres
  | (w, p) :: slots, pre, r :: results, out, hres, hpre, hexp => by
    obtain ⟨hp, hres'⟩ := List.cons.inj hres
    have hhead := hexp pre.length w p (by simp)
    simp only [List.map_cons] at hp ⊢
    subst hp
    cases r with
    | none =>
      obtain ⟨q, hq, u, e, hu, he⟩ := hhead
      rw [List.map_append, List.getElem?_append_left (by simpa using hq), List.getElem?_map, Option.map_eq_some_iff] at hu
      obtain ⟨x, hx, rfl⟩ := hu
      obtain ⟨vote, hvote⟩ := hpre x (List.mem_of_getElem? hx)
      rw [hvote] at he
      cases he
    | some res =>
      have hres : verify w = res := hhead
      simp only [verifyWork, hres]
      cases res with
      | error e => rfl
      | ok vote =>
        have hsplit : pre ++ (w, Progress.finished (some (.ok vote))) :: slots =
            pre ++ [(w, Progress.finished (some (.ok vote)))] ++ slots := by simp
        rw [hsplit] at hexp
        refine collectResults_eq slots _ results _ hres' ?_ hexp
        intro x hx
        rcases List.mem_append.1 hx with hx | hx
        · exact hpre x hx
        · rw [List.mem_singleton.1 hx]
          exact ⟨vote, hres⟩

/-- Every wave under way is sound, and the votes that remain are still counted by a `usize`. -/
def WaveInv : WaveState γ α → Prop
  | .loop _ as _ => as.length ≤ usizeMax
  | .running slots stores _ _ rest _ => WaveSound verify slots stores ∧ rest.length ≤ usizeMax
  | .returned _ => True

variable {wave} {prepare}

theorem waveInv_afterWave {lookupError : Option BundleError} {c : γ} {rest : List α} (h : rest.length ≤ usizeMax)
    (o : WaveOutcome) : @WaveInv γ α verify (afterWave lookupError c rest o) := by
  obtain ⟨r, out⟩ := o
  cases r with
  | error e => trivial
  | ok u =>
    cases lookupError with
    | some e => trivial
    | none => exact h

/-- **A step of any worker, or of the loop, keeps the invariant and the answer.** -/
theorem answer_of_step {s t : WaveState γ α} (h : WaveStep verify wave prepare s t) (hs : @WaveInv γ α verify s) :
    @WaveInv γ α verify t ∧ answer verify prepare t = answer verify prepare s := by
  cases h with
  | done => exact ⟨trivial, rfl⟩
  | @lookUp c a as out work lookupError c' h =>
    have hlen := length_prepareWave prepare ((a :: as).take wave) c
    have hinv : (a :: as).length ≤ usizeMax := hs
    rw [h] at hlen
    refine ⟨⟨WaveSound.start ?_, ?_⟩, ?_⟩
    · exact Nat.le_trans (Nat.le_trans hlen (by rw [List.length_take]; exact Nat.min_le_right _ _)) hinv
    · rw [List.length_drop]
      exact Nat.le_trans (Nat.sub_le _ _) hinv
    · have happ := @verifyOneByOne_append _ _ verify prepare ((a :: as).take wave) ((a :: as).drop wave) c out
      rw [List.take_append_drop, h] at happ
      simp only [answer]
      rw [happ, List.map_map]
      simp only [Function.comp_def, List.map_id']
  | work h =>
    obtain ⟨hsound, hrest⟩ := hs
    refine ⟨⟨hsound.work h, hrest⟩, ?_⟩
    simp only [answer, List.map_append, List.map_cons]
  | @collect slots results stores lookupError c rest out h =>
    obtain ⟨hsound, hrest⟩ := hs
    refine ⟨waveInv_afterWave hrest _, ?_⟩
    rw [answer_afterWave, collectResults_eq slots [] results out h (fun x hx => by cases hx) hsound.explained]
    rfl

/-- The same along a run. -/
theorem answer_of_run {s t : WaveState γ α} (h : Relation.ReflTransGen (WaveStep verify wave prepare) s t)
    (hs : @WaveInv γ α verify s) : @WaveInv γ α verify t ∧ answer verify prepare t = answer verify prepare s := by
  induction h with
  | refl => exact ⟨hs, rfl⟩
  | tail _ hstep ih =>
    obtain ⟨hinv, hanswer⟩ := answer_of_step hstep ih.1
    exact ⟨hinv, hanswer.trans ih.2⟩

end Invariant

/-! ## Every schedule ends -/

section Ends

variable {γ α : Type} {verify : VoteWork → Except BundleError Vote} {wave : Nat}
  {prepare : γ → α → Except BundleError VoteWork × γ}

/-- The steps a position has left. -/
def Progress.left : Progress → Nat
  | .waiting => 3
  | .verifying => 2
  | .failed _ => 1
  | .finished _ => 0

/-- A bound of the steps left: four for a vote not yet looked up. -/
def WaveState.left : WaveState γ α → Nat
  | .loop _ as _ => 5 * as.length + 1
  | .running slots _ _ _ rest _ => (slots.map (·.2.left)).sum + 1 + (5 * rest.length + 1)
  | .returned _ => 0

theorem left_lookedUp (work : List VoteWork) :
    ((work.map (·, Progress.waiting)).map (·.2.left)).sum = 3 * work.length := by
  induction work with
  | nil => rfl
  | cons w ws ih =>
    rw [List.map_cons, List.map_cons, List.sum_cons, ih, List.length_cons]
    simp only [Progress.left]
    omega

theorem WorkerStep.left {pos : Nat} {w : VoteWork} {p p' : Progress} {stores stores' : List Nat}
    (h : WorkerStep verify pos w p stores p' stores') : p'.left < p.left := by
  cases h <;> simp [Progress.left]

/-- A wave is not empty, so each step leaves fewer. -/
theorem left_of_step (hw : 0 < wave) {s t : WaveState γ α} (h : WaveStep verify wave prepare s t) : t.left < s.left := by
  cases h with
  | done => simp [WaveState.left]
  | @lookUp c a as out work lookupError c' h =>
    have hlen := length_prepareWave prepare ((a :: as).take wave) c
    rw [h, List.length_take, List.length_cons] at hlen
    simp only [WaveState.left, left_lookedUp, List.length_drop, List.length_cons]
    simp only at hlen
    omega
  | work h =>
    have := h.left
    simp only [WaveState.left, List.map_append, List.map_cons, List.sum_append, List.sum_cons]
    omega
  | @collect slots results stores lookupError c rest out h =>
    generalize collectResults results out = o
    obtain ⟨r, out'⟩ := o
    cases r with
    | error e =>
      simp only [afterWave, WaveState.left]
      omega
    | ok u =>
      cases lookupError with
      | some e =>
        simp only [afterWave, WaveState.left]
        omega
      | none =>
        simp only [afterWave, WaveState.left]
        omega

theorem acc_waveStep (hw : 0 < wave) (s : WaveState γ α) : Acc (fun t s => WaveStep verify wave prepare s t) s :=
  Subrelation.accessible (fun h => left_of_step hw h) (InvImage.accessible WaveState.left (Nat.lt_wfRel.wf.apply _))

/-- The positions of a wave have all returned, or one has not. -/
theorem finished_or_not : ∀ slots : List (VoteWork × Progress),
    (∃ results : List (Option (Except BundleError Vote)), slots.map (·.2) = results.map Progress.finished) ∨
      ∃ before w p after, slots = before ++ (w, p) :: after ∧ ∀ r, p ≠ .finished r
  | [] => .inl ⟨[], rfl⟩
  | (w, p) :: slots => by
    by_cases hp : ∃ r, p = .finished r
    · obtain ⟨r, rfl⟩ := hp
      rcases finished_or_not slots with ⟨results, h⟩ | ⟨before, w', p', after, rfl, h⟩
      · exact .inl ⟨r :: results, by rw [List.map_cons, List.map_cons, h]⟩
      · exact .inr ⟨(w, .finished r) :: before, w', p', after, rfl, h⟩
    · exact .inr ⟨[], w, p, slots, rfl, fun r hr => hp ⟨r, hr⟩⟩

/-- A position that has not returned has a next step. -/
theorem WorkerStep.exists (pos : Nat) (w : VoteWork) {p : Progress} {stores : List Nat} (hs : stores ≠ [])
    (hp : ∀ r, p ≠ .finished r) : ∃ p' stores', WorkerStep verify pos w p stores p' stores' := by
  cases p with
  | waiting =>
    obtain ⟨v, hv⟩ := List.exists_mem_of_ne_nil stores hs
    by_cases hlt : v < pos
    · exact ⟨_, _, .skip hv hlt⟩
    · exact ⟨_, _, .start hv hlt⟩
  | verifying =>
    cases h : verify w with
    | ok vote => exact ⟨_, _, .verified h⟩
    | error e => exact ⟨_, _, .fails h⟩
  | failed e => exact ⟨_, _, .lower⟩
  | finished r => exact absurd rfl (hp r)

/-- A call that cannot go on has returned. -/
theorem returned_of_stuck {s : WaveState γ α} (hs : @WaveInv γ α verify s)
    (hstuck : ∀ t, ¬ WaveStep verify wave prepare s t) :
    ∃ o, s = .returned o := by
  cases s with
  | returned o => exact ⟨o, rfl⟩
  | loop c as out =>
    cases as with
    | nil => exact absurd .done (hstuck _)
    | cons a as => exact absurd (.lookUp rfl) (hstuck _)
  | running slots stores lookupError c rest out =>
    rcases finished_or_not slots with ⟨results, h⟩ | ⟨before, w, p, after, rfl, h⟩
    · exact absurd (.collect h) (hstuck _)
    · obtain ⟨p', stores', hstep⟩ := @WorkerStep.exists verify before.length w _ _ hs.1.initialised h
      exact absurd (.work hstep) (hstuck _)

variable (verify prepare)

/-- **Every schedule verifies one by one.**  Whatever the interleaving of the workers of the waves, a call ends after
finitely many steps, only a call that has returned has no next step, what it returns and pushes is what looking up and
verifying the votes in index order returns and pushes, and the arm for skipped votes is not reached. -/
theorem verifyInWaves_anySchedule (hw : 0 < wave) (c : γ) (as : List α) (hn : as.length ≤ usizeMax) (out : List Vote) :
    Acc (fun t s => WaveStep verify wave prepare s t) (.loop c as out) ∧
    ∀ s, Relation.ReflTransGen (WaveStep verify wave prepare) (.loop c as out) s →
      ((∀ t, ¬ WaveStep verify wave prepare s t) → ∃ o, s = .returned o) ∧
      (∀ o, s = .returned o → o = verifyOneByOne verify prepare c as out) ∧
      ∀ out', s ≠ .returned (.error .unreachable, out') := by
  refine ⟨acc_waveStep hw _, ?_⟩
  intro s hrun
  obtain ⟨hinv, hanswer⟩ := @answer_of_run _ _ verify _ _ _ _ hrun hn
  have houtcome : ∀ o, s = .returned o → o = verifyOneByOne verify prepare c as out := by
    rintro o rfl
    exact hanswer
  refine ⟨returned_of_stuck hinv, houtcome, ?_⟩
  intro out' hs
  exact verifyOneByOne_reachable as c out out' (houtcome _ hs).symm

end Ends

/-! A wave of two votes: the first fails, and the second sees it. -/

def sampleWork (i : Nat) : VoteWork := ⟨i, default, none, default, default, default⟩

def sampleFailure (i : Nat) : BundleError := .voteVerificationFailed i (.vote .otsVerificationFailed)

def sampleVerify (w : VoteWork) : Except BundleError Vote := .error (sampleFailure w.index)

def sampleLookUp (_ : Unit) (i : Nat) : Except BundleError VoteWork × Unit := (.ok (sampleWork i), ())

theorem sampleWave_returns :
    Relation.ReflTransGen (WaveStep sampleVerify 2 sampleLookUp) (.loop () [0, 1] [])
      (.returned (.error (.vote (sampleFailure 0)), [])) := by
  refine .head (.lookUp rfl) ?_
  refine .head (@WaveStep.work _ _ _ _ _ [] _ _ _ _ _ _ _ _ _ _ (.start List.mem_cons_self (by decide))) ?_
  refine .head (@WaveStep.work _ _ _ _ _ [] _ _ _ _ _ _ _ _ _ _ (.fails rfl)) ?_
  refine .head (@WaveStep.work _ _ _ _ _ [] _ _ _ _ _ _ _ _ _ _ .lower) ?_
  refine .head (@WaveStep.work _ _ _ _ _ [_] _ _ _ _ _ _ _ _ _ _ (.skip List.mem_cons_self (by decide))) ?_
  exact .single (@WaveStep.collect _ _ _ _ _ _ [some (.error (sampleFailure 0)), none] _ none () [] _ rfl)

theorem verifyInWaves_anySchedule_skipping :
    (.error (.vote (sampleFailure 0)), []) = verifyOneByOne sampleVerify sampleLookUp () [0, 1] [] :=
  ((verifyInWaves_anySchedule sampleVerify sampleLookUp (by decide) () [0, 1] (by decide) []).2 _
    sampleWave_returns).2.1 _ rfl

/-! ## The waves of a certificate -/

section Certificate

variable {γ α : Type} {crypto : VoteCrypto} {prepare : γ → α → Except BundleError VoteWork × γ}

end Certificate

end Agreement
end Algod
