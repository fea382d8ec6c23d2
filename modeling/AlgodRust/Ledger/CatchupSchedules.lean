import AlgodRust.Ledger.CatchupPass
import Mathlib.Algebra.BigOperators.Group.Finset.Basic
import Mathlib.Algebra.BigOperators.Fin
/-!
# CatchupSchedules — what holds of a pass under every schedule

Two things are kept apart.  Of the claim protocol (permits, lock, gate, counter) a worker is seen only through its
`Stage`: every step of a worker is a `ClaimStep` of it (`workerStep_claims`), and these keep `Claims.Sound`: the permits
not yet used and the rounds claimed ahead of the cursor together fill the window at most, and whoever holds the lock
beyond its reading of the gate knows a bound if the gate is engaged.  Of the apply loop, `Committed` says what was
handed to the ledger so far.
-/
namespace Algod
namespace Ledger

open Run (Path)

/-! ## The claim protocol -/

/-- What the claim protocol reads and writes of a pass. -/
structure Claims (n : Nat) where
  next : Nat
  applied : Nat
  gate : Bool
  lock : Option (Fin n)
  workers : Nat
  permits : Nat

/-- Where a worker stands in the claim protocol: whether it holds a permit that it has not used, and the lock, and what
it has read under the lock. -/
inductive Stage
  | free
  | holding
  | reading
  | bounding (applied : Nat)
  | limited (limit : Option Nat)
  | swapping (limit : Option Nat) (cur : Nat)
  | refused
  | locked

namespace Stage

/-- The permits a worker holds and has not used. -/
def permits : Stage → Nat
  | .free | .locked => 0
  | _ => 1

def holdsLock : Stage → Bool
  | .free | .holding => false
  | _ => true

/-- What a worker that read the gate under the lock knows of the bound. -/
def Bounded {n : Nat} (a : Claims n) : Stage → Prop
  | .bounding applied => applied ≤ a.applied
  | .limited limit | .swapping limit _ => a.gate = true → ∃ l, limit = some l ∧ l ≤ a.applied + n
  | _ => True

end Stage

/-- A step of a worker in the claim protocol, with the rounds it claims. -/
inductive ClaimStep {n : Nat} (w : Fin n) : Claims n → Stage → Claims n → Stage → List Nat → Prop
  | stay {a : Claims n} {st : Stage} : ClaimStep w a st a st []
  | take {a : Claims n} (h : 0 < a.permits) : ClaimStep w a .free { a with permits := a.permits - 1 } .holding []
  | abandon {a : Claims n} : ClaimStep w a .holding a .free []
  | enter {a : Claims n} (h : a.lock = none) : ClaimStep w a .holding { a with lock := some w } .reading []
  | ungated {a : Claims n} (h : a.gate = false) : ClaimStep w a .reading a (.limited none) []
  | cursor {a : Claims n} : ClaimStep w a .reading a (.bounding a.applied) []
  | bound {a : Claims n} {applied : Nat} :
      ClaimStep w a (.bounding applied) a (.limited (some (applied + a.workers))) []
  | load {a : Claims n} {limit : Option Nat} : ClaimStep w a (.limited limit) a (.swapping limit a.next) []
  | reload {a : Claims n} {limit : Option Nat} {cur : Nat} :
      ClaimStep w a (.swapping limit cur) a (.swapping limit a.next) []
  | refuse {a : Claims n} {limit : Option Nat} {cur : Nat} : ClaimStep w a (.swapping limit cur) a .refused []
  | claim {a : Claims n} {limit : Option Nat} (h : ∀ l, limit = some l → a.next < l) :
      ClaimStep w a (.swapping limit a.next) { a with next := a.next + 1 } .locked [a.next]
  | retreat {a : Claims n} : ClaimStep w a .refused { a with lock := none } .holding []
  | acquire {a : Claims n} (h : a.lock = none) : ClaimStep w a .free { a with lock := some w } .locked []
  | engage {a : Claims n} : ClaimStep w a .locked { a with gate := true } .locked []
  | release {a : Claims n} : ClaimStep w a .locked { a with lock := none } .free []

/-- What holds of the claim protocol in every state of a pass that began at round `start`.  `owed` are the permits the
apply loop has yet to hand out; before it has stored the number of workers, no worker has a permit. -/
structure Claims.Sound {n : Nat} (start owed : Nat) (spawned : Prop) (a : Claims n) (stage : Fin n → Stage)
    (claimed : List Nat) : Prop where
  consecutive : claimed = List.range' start claimed.length
  next : a.next = start + claimed.length
  window : a.permits + ∑ w, (stage w).permits + owed + a.next ≤ fetchWindow n + a.applied
  lock : ∀ w, (stage w).holdsLock = true → a.lock = some w
  started : a.workers = n ∨ spawned ∧ a.permits = 0 ∧ ∀ w, (stage w).permits = 0
  bounded : ∀ w, (stage w).Bounded a

section Claims

variable {n start owed : Nat} {spawned : Prop} {a a' : Claims n} {stage : Fin n → Stage} {claimed rounds : List Nat}
  {w : Fin n} {st : Stage}

theorem sum_permits_update (stage : Fin n → Stage) (w : Fin n) (st : Stage) :
    ∑ v, (Function.update stage w st v).permits + (stage w).permits = ∑ v, (stage v).permits + st.permits := by
  have hsplit : ∀ f : Fin n → Nat, ∑ v, f v = f w + ∑ v ∈ Finset.univ.erase w, f v := fun f =>
    (Finset.add_sum_erase _ f (Finset.mem_univ w)).symm
  have hrest : ∑ v ∈ Finset.univ.erase w, (Function.update stage w st v).permits =
      ∑ v ∈ Finset.univ.erase w, (stage v).permits := by
    refine Finset.sum_congr rfl fun v hv => ?_
    rw [Function.update_of_ne (Finset.ne_of_mem_erase hv)]
  rw [hsplit, hsplit (fun v => (stage v).permits), hrest, Function.update_self]
  omega

/-- Nobody else is beyond its reading of the gate while `w` holds the lock. -/
theorem Claims.Sound.alone (h : a.Sound start owed spawned stage claimed) (hw : (stage w).holdsLock = true) {v : Fin n}
    (hv : v ≠ w) : (stage v).holdsLock = false := by
  by_contra hlock
  rw [Bool.not_eq_false] at hlock
  have hboth := (h.lock v hlock).symm.trans (h.lock w hw)
  exact hv (Option.some.inj hboth)

theorem Claims.Sound.lockFree (h : a.Sound start owed spawned stage claimed) (hfree : a.lock = none) (v : Fin n) :
    (stage v).holdsLock = false := by
  by_contra hlock
  rw [Bool.not_eq_false] at hlock
  rw [h.lock v hlock] at hfree
  cases hfree

theorem Stage.Bounded.of_unlocked {st : Stage} (h : st.holdsLock = false) (a : Claims n) : st.Bounded a := by
  cases st <;> trivial

/-- The bound a worker knows stays one while the cursor moves on and the gate stays as it is. -/
theorem Stage.Bounded.mono {st : Stage} (h : st.Bounded a) (hle : a.applied ≤ a'.applied)
    (hgate : a'.gate = true → a.gate = true) : st.Bounded a' := by
  cases st with
  | bounding applied => exact Nat.le_trans h hle
  | limited limit =>
    intro hg
    obtain ⟨l, hl, hb⟩ := h (hgate hg)
    exact ⟨l, hl, by omega⟩
  | swapping limit cur =>
    intro hg
    obtain ⟨l, hl, hb⟩ := h (hgate hg)
    exact ⟨l, hl, by omega⟩
  | free | holding | reading | refused | locked => trivial

/-- A worker that moves on without a new permit and with a known bound, whoever holds the lock then. -/
theorem Claims.Sound.restaged (hs : a.Sound start owed spawned stage claimed) {lock : Option (Fin n)}
    (hp : st.permits ≤ (stage w).permits)
    (hlock : ∀ v, (Function.update stage w st v).holdsLock = true → lock = some v)
    (hb : st.Bounded { a with lock := lock }) :
    ({ a with lock := lock } : Claims n).Sound start owed spawned (Function.update stage w st) (claimed ++ []) where
  consecutive := by rw [List.append_nil]; exact hs.consecutive
  next := by rw [List.append_nil]; exact hs.next
  window := by
    have hsum := sum_permits_update stage w st
    have := hs.window
    simp only
    omega
  lock := hlock
  started := hs.started.imp_right fun ⟨hsp, h0, hnone⟩ =>
    ⟨hsp, h0, (Function.forall_update_iff stage (fun _ st => st.permits = 0)).2
      ⟨by have := hnone w; omega, fun v _ => hnone v⟩⟩
  bounded := (Function.forall_update_iff stage (fun _ st => st.Bounded { a with lock := lock })).2
    ⟨hb, fun v _ => (hs.bounded v).mono (Nat.le_refl _) fun h => h⟩

/-- It does not take the lock anew, -/
theorem Claims.Sound.moved (hs : a.Sound start owed spawned stage claimed) (hp : st.permits ≤ (stage w).permits)
    (hl : st.holdsLock = true → (stage w).holdsLock = true) (hb : st.Bounded a) :
    a.Sound start owed spawned (Function.update stage w st) (claimed ++ []) :=
  hs.restaged hp ((Function.forall_update_iff stage (fun v st => st.holdsLock = true → a.lock = some v)).2
    ⟨fun h => hs.lock w (hl h), fun v _ => hs.lock v⟩) hb

/-- takes the free lock, and has read nothing under it, -/
theorem Claims.Sound.entered (hs : a.Sound start owed spawned stage claimed) (hfree : a.lock = none)
    (hp : st.permits ≤ (stage w).permits) (hb : ∀ a' : Claims n, st.Bounded a') :
    ({ a with lock := some w } : Claims n).Sound start owed spawned (Function.update stage w st) (claimed ++ []) :=
  hs.restaged hp ((Function.forall_update_iff stage (fun v st => st.holdsLock = true → some w = some v)).2
    ⟨fun _ => rfl, fun v _ hv => by rw [hs.lockFree hfree v] at hv; cases hv⟩) (hb _)

/-- or holds it and lets it go. -/
theorem Claims.Sound.left (hs : a.Sound start owed spawned stage claimed) (hw : (stage w).holdsLock = true)
    (hp : st.permits ≤ (stage w).permits) (hl : st.holdsLock = false) :
    ({ a with lock := none } : Claims n).Sound start owed spawned (Function.update stage w st) (claimed ++ []) :=
  hs.restaged hp ((Function.forall_update_iff stage (fun v st => st.holdsLock = true → none = some v)).2
    ⟨fun h => (by rw [hl] at h; cases h), fun v hv h => (by rw [hs.alone hw hv] at h; cases h)⟩) (.of_unlocked hl _)

/-- **Once the gate is engaged, a claimed round lies below the cursor plus the number of workers.** -/
theorem ClaimStep.lt_of_gate (hs : a.Sound start owed spawned stage claimed)
    (h : ClaimStep w a (stage w) a' st rounds) (hgate : a.gate = true) : ∀ r ∈ rounds, r < a.applied + n := by
  have hb := hs.bounded w
  revert hb
  generalize hst : stage w = st₀ at h
  cases h with
  | claim hlim =>
    intro hb r hr
    rw [List.mem_singleton] at hr
    obtain ⟨l, hl, hle⟩ := hb hgate
    have := hlim l hl
    omega
  | _ => intro _ r hr; cases hr

/-- The apply loop owes no more than before. -/
theorem Claims.Sound.owes {owed' : Nat} {spawned' : Prop} (hs : a.Sound start owed spawned stage claimed)
    (hle : owed' ≤ owed) (hsp : spawned → spawned') : a.Sound start owed' spawned' stage claimed :=
  ⟨hs.consecutive, hs.next, Nat.le_trans (by omega) hs.window, hs.lock, hs.started.imp_left id |>.imp_right
    fun ⟨h, h'⟩ => ⟨hsp h, h'⟩, hs.bounded⟩

/-- The number of workers is stored. -/
theorem Claims.Sound.stored (hs : a.Sound start owed spawned stage claimed) (spawned' : Prop) :
    ({ a with workers := n } : Claims n).Sound start owed spawned' stage claimed :=
  ⟨hs.consecutive, hs.next, hs.window, hs.lock, .inl rfl, fun v => (hs.bounded v).mono (Nat.le_refl _) fun h => h⟩

/-- A permit is handed out. -/
theorem Claims.Sound.handed (hs : a.Sound start (owed + 1) spawned stage claimed) (hsp : ¬ spawned) (spawned' : Prop) :
    ({ a with permits := a.permits + 1 } : Claims n).Sound start owed spawned' stage claimed :=
  ⟨hs.consecutive, hs.next, (by have := hs.window; simp only; omega), hs.lock,
    .inl (hs.started.resolve_right fun h => hsp h.1), fun v => (hs.bounded v).mono (Nat.le_refl _) fun h => h⟩

/-- The cursor moves on, and a permit is owed for it. -/
theorem Claims.Sound.advanced (hs : a.Sound start owed spawned stage claimed) (hsp : ¬ spawned) (spawned' : Prop) :
    ({ a with applied := a.applied + 1 } : Claims n).Sound start (owed + 1) spawned' stage claimed :=
  ⟨hs.consecutive, hs.next, (by have := hs.window; simp only; omega), hs.lock,
    .inl (hs.started.resolve_right fun h => hsp h.1), fun v => (hs.bounded v).mono (Nat.le_succ _) fun h => h⟩

/-- **A step of a worker keeps the claim protocol sound.** -/
theorem ClaimStep.sound (hs : a.Sound start owed spawned stage claimed) (h : ClaimStep w a (stage w) a' st rounds) :
    a'.Sound start owed spawned (Function.update stage w st) (claimed ++ rounds) := by
  have hb := hs.bounded w
  generalize hst : stage w = st₀ at h
  rw [hst] at hb
  cases h with
  | stay => exact hs.moved (by rw [hst]) (by rw [hst]; exact id) hb
  | abandon => exact hs.moved (by rw [hst]; decide) (fun h => by cases h) trivial
  | ungated hgate =>
    refine hs.moved (by rw [hst]; decide) (by rw [hst]; exact fun _ => rfl) fun h => ?_
    rw [hgate] at h
    cases h
  | cursor => exact hs.moved (by rw [hst]; exact Nat.le_refl _) (by rw [hst]; exact fun _ => rfl) (Nat.le_refl a.applied)
  | @bound applied =>
    refine hs.moved (by rw [hst]; exact Nat.le_refl _) (by rw [hst]; exact fun _ => rfl) fun _ => ?_
    -- a worker that reads the number of workers holds a permit, so the number is stored
    have hworkers : a.workers = n := hs.started.resolve_right fun ⟨_, _, hnone⟩ => by
      have := hnone w
      rw [hst] at this
      cases this
    have hle : applied ≤ a.applied := hb
    exact ⟨_, rfl, by omega⟩
  | load => exact hs.moved (by rw [hst]; exact Nat.le_refl _) (by rw [hst]; exact fun _ => rfl) hb
  | reload => exact hs.moved (by rw [hst]; exact Nat.le_refl _) (by rw [hst]; exact fun _ => rfl) hb
  | refuse => exact hs.moved (by rw [hst]; exact Nat.le_refl _) (by rw [hst]; exact fun _ => rfl) trivial
  | enter hfree => exact hs.entered hfree (by rw [hst]; decide) fun _ => trivial
  | acquire hfree => exact hs.entered hfree (by rw [hst]; decide) fun _ => trivial
  | retreat => exact hs.left (by rw [hst]; rfl) (by rw [hst]; decide) rfl
  | release => exact hs.left (by rw [hst]; rfl) (by rw [hst]; decide) rfl
  | take hpos =>
    have hsum := sum_permits_update stage w .holding
    rw [hst, show Stage.permits .free = 0 from rfl, show Stage.permits .holding = 1 from rfl] at hsum
    have hwin := hs.window
    refine ⟨by rw [List.append_nil]; exact hs.consecutive, by rw [List.append_nil]; exact hs.next, ?_, ?_, ?_, ?_⟩
    · simp only
      omega
    · exact (Function.forall_update_iff stage (fun v st => st.holdsLock = true → a.lock = some v)).2
        ⟨fun h => (by cases h), fun v _ => hs.lock v⟩
    · exact .inl (hs.started.resolve_right fun ⟨_, h0, _⟩ => by omega)
    · exact (Function.forall_update_iff stage (fun _ st => st.Bounded { a with permits := a.permits - 1 })).2
        ⟨trivial, fun v _ => (hs.bounded v).mono (Nat.le_refl _) fun h => h⟩
  | @claim limit hlim =>
    have hsum := sum_permits_update stage w .locked
    rw [hst, show Stage.permits (.swapping limit a.next) = 1 from rfl, show Stage.permits .locked = 0 from rfl] at hsum
    have hwin := hs.window
    have hnext := hs.next
    refine ⟨?_, ?_, ?_, ?_, ?_, ?_⟩
    · rw [List.length_append, List.length_singleton, List.range'_1_concat, ← hs.consecutive, hnext]
    · rw [List.length_append, List.length_singleton, ← Nat.add_assoc, ← hnext]
    · simp only
      omega
    · exact (Function.forall_update_iff stage (fun v st => st.holdsLock = true → a.lock = some v)).2
        ⟨fun _ => hs.lock w (by rw [hst]; rfl), fun v _ => hs.lock v⟩
    · refine .inl (hs.started.resolve_right fun ⟨_, _, hnone⟩ => ?_)
      have := hnone w
      rw [hst] at this
      cases this
    · exact (Function.forall_update_iff stage (fun _ st => st.Bounded { a with next := a.next + 1 })).2
        ⟨trivial, fun v _ => (hs.bounded v).mono (Nat.le_refl _) fun h => h⟩
  | engage =>
    have hw : (stage w).holdsLock = true := by rw [hst]; rfl
    have hself : Function.update stage w .locked = stage := by rw [← hst]; exact Function.update_eq_self w stage
    rw [hself]
    refine ⟨by rw [List.append_nil]; exact hs.consecutive, by rw [List.append_nil]; exact hs.next, hs.window, hs.lock,
      hs.started, fun v => ?_⟩
    -- whoever might have read an open gate would hold the lock
    by_cases hv : v = w
    · subst hv
      rw [hst]
      trivial
    · exact .of_unlocked (hs.alone hw hv) _

end Claims

/-! ## The steps of a pass -/

section Steps

variable {Λ Cert Waiter : Type} {P : Pass Λ Cert} {n : Nat}

def PassCtx.claims (c : PassCtx Λ Cert n) : Claims n :=
  ⟨c.nextToFetch, c.applied, c.fetchFailed, c.claimLock, c.workers, c.permits⟩

def WorkerState.stage : WorkerState Cert → Stage
  | .permitted | .claiming | .locking | .gated => .holding
  | .readingGate | .readingApplied => .reading
  | .readingWorkers applied => .bounding applied
  | .loadingNext limit => .limited limit
  | .swapping limit cur => .swapping limit cur
  | .releasing none => .refused
  | .releasing (some _) | .engaged _ _ | .disengaging _ _ => .locked
  | _ => .free

/-- A step that is none of the claim protocol. -/
theorem ClaimStep.of_eq {w : Fin n} {a a' : Claims n} {st st' : Stage} (ha : a' = a) (hst : st' = st) :
    ClaimStep w a st a' st' [] := by
  subst ha hst
  exact .stay

theorem claimRound_claims (w : Fin n) (c : PassCtx Λ Cert n) (limit : Option Nat) (cur : Nat) :
    ClaimStep w c.claims (.swapping limit cur) (claimRound c limit cur).1.claims
      (claimRound c limit cur).2.1.stage (claimRound c limit cur).2.2 := by
  unfold claimRound
  split
  · exact .refuse
  · rename_i hlimit
    split
    · rename_i hcur
      subst hcur
      refine .claim fun l hl => ?_
      rw [hl, Option.any_some, decide_eq_true_eq] at hlimit
      exact Nat.lt_of_not_le hlimit
    · exact .reload

theorem fetchAnswered_claims (c : PassCtx Λ Cert n) (round left noBlock : Nat) (elapsed : Bool)
    (r : Except FetchError (FetchedBlockCert Cert)) :
    (fetchAnswered P c round left noBlock elapsed r).1.claims = c.claims ∧
      (fetchAnswered P c round left noBlock elapsed r).2.stage = .free := by
  unfold fetchAnswered
  split
  · exact ⟨rfl, rfl⟩
  · exact ⟨rfl, rfl⟩
  · refine ⟨rfl, ?_⟩
    simp only
    split <;> rfl
  · refine ⟨rfl, ?_⟩
    simp only
    split <;> rfl

theorem settle_claims (c : PassCtx Λ Cert n) (round : Nat) (outcome : FetchOutcome Cert) :
    (settle c round outcome).1.claims = c.claims ∧ (settle c round outcome).2.stage = .free := by
  unfold settle
  split <;> exact ⟨rfl, rfl⟩

theorem workerStep_claims {w : Fin n} {c c' : PassCtx Λ Cert n} {ws ws' : WorkerState Cert}
    {choice : Choice Λ Cert Waiter} {rounds : List Nat} (h : workerStep P w c ws choice = some (c', ws', rounds)) :
    ClaimStep w c.claims ws.stage c'.claims ws'.stage rounds := by
  cases ws <;> cases choice <;> simp only [workerStep, reduceCtorEq] at h
  case idle.go | claimed.go | limiting.go | asking.go => cases h; split <;> exact .stay
  case waiting.go =>
    split at h
    · rename_i hpos
      cases h
      exact .take hpos
    · split at h
      · cases h
      · cases h
        exact .stay
  case permitted.go | claiming.go =>
    cases h
    split
    · exact .abandon
    · exact .stay
  case locking.go =>
    split at h
    · rename_i hfree
      cases h
      exact .enter hfree
    · cases h
  case readingGate.go =>
    cases h
    split
    · exact .stay
    · rename_i hgate
      exact .ungated (Bool.eq_false_iff.2 hgate)
  case readingApplied.go => cases h; exact .cursor
  case readingWorkers.go => cases h; exact .bound
  case loadingNext.go => cases h; exact .load
  case swapping.go limit cur =>
    have hclaim := claimRound_claims w c limit cur
    rw [Option.some.inj h] at hclaim
    exact hclaim
  case releasing.go round =>
    cases round with
    | none => cases h; exact .retreat
    | some round => cases h; exact .release
  case gated.go | asking.panic | fetching.panic | leaving.go => cases h; exact .stay
  case attempting.go round left noBlock last =>
    cases left with
    | zero => cases h; exact .stay
    | succ left => cases h; split <;> exact .stay
  case fetching.answer round left noBlock r elapsed =>
    cases h
    obtain ⟨hc, hst⟩ := fetchAnswered_claims (P := P) c round left noBlock elapsed r
    exact .of_eq hc hst
  case probing.go =>
    cases h
    refine .of_eq rfl ?_
    split
    · split <;> rfl
    · rfl
  case settling.go round outcome =>
    cases h
    obtain ⟨hc, hst⟩ := settle_claims c round outcome
    exact .of_eq hc hst
  case engaging.go =>
    split at h
    · rename_i hfree
      cases h
      exact .acquire hfree
    · cases h
  case engaged.go => cases h; exact .engage
  case disengaging.go => cases h; exact .release
  case sending.go =>
    split at h
    · cases h
      split <;> exact .stay
    · cases h

/-- The permits the apply loop has yet to hand out. -/
def ApplyState.owed (n : Nat) : ApplyState Λ Cert → Nat
  | .spawned => fetchWindow n
  | .handingOut left => left
  | .giving => 1
  | _ => 0

def ApplyState.isSpawned : ApplyState Λ Cert → Bool
  | .spawned => true
  | _ => false

/-- The rounds that are committed and not yet behind the cursor. -/
def ApplyState.ahead : ApplyState Λ Cert → Nat
  | .advancing | .pressing | .moving => 1
  | _ => 0

/-- The phases of a pass that commits nothing more. -/
def ApplyState.isQuiet : ApplyState Λ Cert → Bool
  | .receiving | .raising | .closing | .finishing | .over => true
  | _ => false

/-- What is known of the block in hand while the cursor stands at `next`. -/
def ApplyState.Checked (P : Pass Λ Cert) (next : Nat) : ApplyState Λ Cert → Prop
  | .authenticating f _ => f.block.round = next
  | .matching f cert seen => f.block.round = next ∧ P.ledger.authenticateBlock seen f.block cert = .ok ()
  | .ensuring f cert seen =>
    f.block.round = next ∧ P.ledger.authenticateBlock seen f.block cert = .ok () ∧ P.contentsMatchHeader f = .ok true
  | _ => True

/-- The certificate of a committed block is the fetched one's and was accepted, and its contents match its header. -/
structure Ensured.Accepted (P : Pass Λ Cert) (e : Ensured Λ Cert) : Prop where
  authenticated : P.ledger.authenticateBlock e.seen e.fetched.block e.cert = .ok ()
  contents : P.contentsMatchHeader e.fetched = .ok true

/-- What the apply loop has committed: consecutive accepted blocks, up to its cursor unless the pass is stopped. -/
structure Committed (P : Pass Λ Cert) (start : Nat) (m : ApplyLoop Λ Cert Waiter) (blocks : List (Ensured Λ Cert)) :
    Prop where
  rounds : blocks.map (fun e => e.fetched.block.round) = List.range' start blocks.length
  accepted : ∀ e ∈ blocks, e.Accepted P
  count : m.stopped = false → start + blocks.length = m.nextApply + m.phase.ahead
  behind : m.nextApply ≤ start + blocks.length
  stopped : m.stopped = true → m.phase.isQuiet = true
  checked : m.phase.Checked P m.nextApply

section Commit

variable {start : Nat} {m : ApplyLoop Λ Cert Waiter} {blocks : List (Ensured Λ Cert)} {m' : ApplyLoop Λ Cert Waiter}
  {c c' : PassCtx Λ Cert n}

theorem Committed.live (h : Committed P start m blocks) (hq : m.phase.isQuiet = false) : m.stopped = false := by
  by_contra hstop
  rw [h.stopped (Bool.eq_true_of_not_eq_false hstop)] at hq
  cases hq

theorem Committed.raised (h : Committed P start m blocks) (reason : SyncExitReason) :
    Committed P start (m.raise reason) blocks :=
  ⟨h.rounds, h.accepted, fun hstop => (by cases hstop), h.behind, fun _ => rfl, trivial⟩

/-- The loop goes on to a phase in which the same rounds are committed. -/
theorem Committed.goes (h : Committed P start m blocks) {phase : ApplyState Λ Cert}
    {buffer : Nat → Option (FetchOutcome Cert)}
    {waiters : List Waiter} (ha : phase.ahead = m.phase.ahead) (hq : m.stopped = true → phase.isQuiet = true)
    (hc : phase.Checked P m.nextApply) : Committed P start { m with phase, buffer, waiters } blocks :=
  ⟨h.rounds, h.accepted, fun hstop => (by rw [ha]; exact h.count hstop), h.behind, hq, hc⟩

theorem Committed.examine (h : Committed P start m blocks) (hl : m.stopped = false) (ha : m.phase.ahead = 0)
    (outcome : FetchOutcome Cert) : Committed P start (m.examine outcome) blocks := by
  unfold ApplyLoop.examine
  split
  · exact h.raised _
  · exact h.raised _
  · split
    · exact h.raised _
    · rename_i hround
      split
      · exact h.raised _
      · have hexpected : _ = m.nextApply := Decidable.not_not.1 hround
        exact h.goes ha.symm (fun hs => by rw [hl] at hs; cases hs) hexpected

theorem Committed.accept (h : Committed P start m blocks) (ha : m.phase.ahead = 0) (round : Nat)
    (outcome : FetchOutcome Cert) : Committed P start (m.accept round outcome) blocks := by
  unfold ApplyLoop.accept
  split
  · exact h
  · rename_i hs
    exact h.goes ha.symm (fun hstop => absurd hstop hs) trivial

theorem Committed.scan (h : Committed P start m blocks) (hl : m.stopped = false) (ha : m.phase.ahead = 0) :
    Committed P start m.scan blocks := by
  unfold ApplyLoop.scan
  split
  · exact h.goes ha.symm (fun _ => rfl) trivial
  · exact h.goes ha.symm (fun hs => by rw [hl] at hs; cases hs) trivial

/-- **A step of the apply loop commits the next round, accepted, or nothing.** -/
theorem applyStep_committed {gone : Bool}
    {choice : Choice Λ Cert Waiter} {more : List (Ensured Λ Cert)} (hm : Committed P start m blocks)
    (h : applyStep P gone c m m.phase choice = some (c', m', more)) : Committed P start m' (blocks ++ more) := by
  have hchecked := hm.checked
  have hlive := hm.live
  generalize hphase : m.phase = phase at h hchecked hlive
  have hahead : m.phase.ahead = phase.ahead := by rw [hphase]
  cases phase <;> cases choice <;> simp only [applyStep, reduceCtorEq] at h
  case spawned.go | giving.go =>
    cases h
    rw [List.append_nil]
    exact hm.goes hahead.symm (fun hs => (by rw [hlive rfl] at hs; cases hs)) trivial
  case raising.go | closing.go | finishing.go =>
    cases h
    rw [List.append_nil]
    exact hm.goes hahead.symm (fun _ => rfl) trivial
  case handingOut.go left =>
    cases left with
    | zero =>
      cases h
      rw [List.append_nil]
      exact hm.goes hahead.symm (fun _ => rfl) trivial
    | succ left =>
      dsimp only at h
      split at h
      · cases h
        rw [List.append_nil]
        exact hm.goes hahead.symm (fun hs => (by rw [hlive rfl] at hs; cases hs)) trivial
      · cases h
  case receiving.trigger w =>
    split at h
    · cases h
      rw [List.append_nil]
      exact hm.goes rfl hm.stopped hm.checked
    · cases h
  case receiving.go =>
    split at h
    · cases h
      rw [List.append_nil]
      exact hm.accept hahead _ _
    · split at h
      · cases h
        rw [List.append_nil]
        exact hm.goes hahead.symm (fun _ => rfl) trivial
      · cases h
  case receiving.timeout shutdown =>
    split at h
    · cases h
      rw [List.append_nil]
      split
      · exact hm.raised _
      · exact hm
    · cases h
  case scanning.go =>
    cases h
    rw [List.append_nil]
    exact hm.scan (hlive rfl) hahead
  case polling.poll outcome shutdown =>
    cases h
    rw [List.append_nil]
    split
    · exact hm.raised _
    · exact hm.examine (hlive rfl) hahead outcome
  case authenticating.go f cert =>
    split at h
    · cases h
      rw [List.append_nil]
      exact hm.raised _
    · rename_i hauth
      cases h
      rw [List.append_nil]
      exact hm.goes hahead.symm (fun hs => (by rw [hlive rfl] at hs; cases hs)) ⟨hchecked, hauth⟩
  case matching.go f cert seen =>
    split at h
    · rename_i hcontents
      cases h
      rw [List.append_nil]
      exact hm.goes hahead.symm (fun hs => (by rw [hlive rfl] at hs; cases hs)) ⟨hchecked.1, hchecked.2, hcontents⟩
    · cases h
      rw [List.append_nil]
      exact hm.raised _
  case ensuring.ledgerAfter f cert seen l =>
    cases h
    obtain ⟨hround, hauth, hcontents⟩ := hchecked
    have hcount := hm.count (hlive rfl)
    rw [hahead] at hcount
    refine ⟨?_, ?_, fun _ => ?_, ?_, fun hs => ?_, trivial⟩
    · rw [List.map_append, hm.rounds, List.length_append, List.length_singleton, List.range'_1_concat, hcount]
      exact congrArg _ (congrArg (fun r => [r]) hround)
    · intro e he
      rcases List.mem_append.1 he with he | he
      · exact hm.accepted e he
      · rw [List.mem_singleton] at he
        subst he
        exact ⟨hauth, hcontents⟩
    · rw [List.length_append, List.length_singleton, ← Nat.add_assoc, hcount]
      rfl
    · have := hm.behind
      simp only [List.length_append]
      omega
    · rw [show _ = false from hlive rfl] at hs
      cases hs
  case advancing.go =>
    cases h
    rw [List.append_nil]
    split
    · exact hm.raised _
    · exact hm.goes hahead.symm (fun hs => (by rw [hlive rfl] at hs; cases hs)) trivial
  case pressing.go =>
    cases h
    rw [List.append_nil]
    split
    · exact hm.raised _
    · exact hm.goes hahead.symm (fun hs => (by rw [hlive rfl] at hs; cases hs)) trivial
  case moving.go =>
    cases h
    rw [List.append_nil]
    have hcount := hm.count (hlive rfl)
    rw [hahead] at hcount
    refine ⟨hm.rounds, hm.accepted, fun _ => hcount, Nat.le_of_eq hcount.symm, fun hs => ?_, trivial⟩
    · rw [show _ = false from hlive rfl] at hs
      cases hs

/-- The loop goes on with the same cursor, and owes no permit. -/
structure ApplyLoop.Serves (n : Nat) (m m' : ApplyLoop Λ Cert Waiter) : Prop where
  cursor : m'.nextApply = m.nextApply
  owed : m'.phase.owed n = 0

theorem ApplyLoop.serves_raise (m : ApplyLoop Λ Cert Waiter) (reason : SyncExitReason) : m.Serves n (m.raise reason) :=
  ⟨rfl, rfl⟩

theorem ApplyLoop.serves_examine (m : ApplyLoop Λ Cert Waiter) (outcome : FetchOutcome Cert) :
    m.Serves n (m.examine outcome) := by
  unfold ApplyLoop.examine
  split
  · exact m.serves_raise _
  · exact m.serves_raise _
  · split
    · exact m.serves_raise _
    · split
      · exact m.serves_raise _
      · exact ⟨rfl, rfl⟩

theorem ApplyLoop.serves_accept (m : ApplyLoop Λ Cert Waiter) (hm : m.phase.owed n = 0) (round : Nat)
    (outcome : FetchOutcome Cert) : m.Serves n (m.accept round outcome) := by
  unfold ApplyLoop.accept
  split
  · exact ⟨rfl, hm⟩
  · exact ⟨rfl, rfl⟩

theorem ApplyLoop.serves_scan (m : ApplyLoop Λ Cert Waiter) : m.Serves n m.scan := by
  unfold ApplyLoop.scan
  split <;> exact ⟨rfl, rfl⟩

/-- The part of a pass that the apply loop and the workers share, seen through the claim protocol. -/
structure Shares (start : Nat) (c : PassCtx Λ Cert n) (m : ApplyLoop Λ Cert Waiter) (stage : Fin n → Stage)
    (claimed : List Nat) : Prop where
  sound : c.claims.Sound start (m.phase.owed n) (m.phase.isSpawned = true) stage claimed
  cursor : c.applied = m.nextApply

theorem Shares.serves {stage : Fin n → Stage} {claimed : List Nat}
    (h : Shares start c m stage claimed) (hspawned : m.phase.isSpawned = false) (hc : c'.claims = c.claims)
    (hm : m.Serves n m') : Shares start c' m' stage claimed where
  sound := by
    rw [hc, hm.owed]
    exact h.sound.owes (Nat.zero_le _) fun hs => (by rw [hspawned] at hs; cases hs)
  cursor := by
    have happlied : c'.applied = c.applied := congrArg Claims.applied hc
    rw [happlied, hm.cursor]
    exact h.cursor

/-- **A step of the apply loop keeps the claim protocol sound.** -/
theorem applyStep_shares {stage : Fin n → Stage} {claimed : List Nat} {gone : Bool}
    {choice : Choice Λ Cert Waiter} {more : List (Ensured Λ Cert)}
    (hm : Shares start c m stage claimed) (h : applyStep P gone c m m.phase choice = some (c', m', more)) :
    Shares start c' m' stage claimed := by
  obtain ⟨hsound, hcursor⟩ := id hm
  generalize hphase : m.phase = phase at h hsound
  have howed : m.phase.owed n = phase.owed n := by rw [hphase]
  have hspawned : m.phase.isSpawned = phase.isSpawned := by rw [hphase]
  cases phase <;> cases choice <;> simp only [applyStep, reduceCtorEq] at h
  case spawned.go =>
    cases h
    exact ⟨hsound.stored _, hcursor⟩
  case handingOut.go left =>
    cases left with
    | zero =>
      cases h
      exact hm.serves hspawned rfl ⟨rfl, rfl⟩
    | succ left =>
      dsimp only at h
      split at h
      · cases h
        exact ⟨hsound.handed (fun hs => by cases hs) _, hcursor⟩
      · cases h
  case receiving.trigger w =>
    split at h
    · cases h
      exact hm.serves hspawned rfl ⟨rfl, howed⟩
    · cases h
  case receiving.go =>
    split at h
    · cases h
      exact hm.serves hspawned rfl (m.serves_accept howed _ _)
    · split at h
      · cases h
        exact hm.serves hspawned rfl ⟨rfl, rfl⟩
      · cases h
  case receiving.timeout shutdown =>
    split at h
    · cases h
      split
      · exact hm.serves hspawned rfl (m.serves_raise _)
      · exact hm
    · cases h
  case scanning.go =>
    cases h
    exact hm.serves hspawned rfl m.serves_scan
  case polling.poll outcome shutdown =>
    cases h
    split
    · exact hm.serves hspawned rfl (m.serves_raise _)
    · exact hm.serves hspawned rfl (m.serves_examine outcome)
  case authenticating.go f cert =>
    split at h
    · cases h
      exact hm.serves hspawned rfl (m.serves_raise _)
    · cases h
      exact hm.serves hspawned rfl ⟨rfl, rfl⟩
  case matching.go f cert seen =>
    split at h
    · cases h
      exact hm.serves hspawned rfl ⟨rfl, rfl⟩
    · cases h
      exact hm.serves hspawned rfl (m.serves_raise _)
  case ensuring.ledgerAfter f cert seen l =>
    cases h
    exact hm.serves hspawned rfl ⟨rfl, rfl⟩
  case advancing.go | pressing.go =>
    cases h
    split
    · exact hm.serves hspawned rfl (m.serves_raise _)
    · exact hm.serves hspawned rfl ⟨rfl, rfl⟩
  case moving.go =>
    cases h
    refine ⟨?_, rfl⟩
    rw [← hcursor]
    exact hsound.advanced (fun hs => by cases hs) _
  case giving.go =>
    cases h
    refine ⟨?_, hcursor⟩
    split
    · exact hsound.handed (fun hs => by cases hs) _
    · exact hsound.owes (Nat.zero_le _) fun hs => by cases hs
  case raising.go | closing.go | finishing.go =>
    cases h
    exact hm.serves hspawned rfl ⟨rfl, rfl⟩

end Commit

/-! ## Every schedule -/

section Schedules

variable {start : Nat} {tr : List (PassEvent Λ Cert P.workers)}

theorem claimedRounds_append (tr tr' : List (PassEvent Λ Cert n)) :
    claimedRounds (tr ++ tr') = claimedRounds tr ++ claimedRounds tr' := List.filterMap_append

theorem ensuredBlocks_append (tr tr' : List (PassEvent Λ Cert n)) :
    ensuredBlocks (tr ++ tr') = ensuredBlocks tr ++ ensuredBlocks tr' := List.filterMap_append

@[simp] theorem claimedRounds_claimed (w : Fin n) (rounds : List Nat) :
    claimedRounds (rounds.map (.claimed w) : List (PassEvent Λ Cert n)) = rounds := by
  simp [claimedRounds, List.filterMap_map]

@[simp] theorem ensuredBlocks_claimed (w : Fin n) (rounds : List Nat) :
    ensuredBlocks (rounds.map (.claimed w) : List (PassEvent Λ Cert n)) = [] := by
  simp [ensuredBlocks, List.filterMap_map]

@[simp] theorem claimedRounds_ensured (blocks : List (Ensured Λ Cert)) :
    claimedRounds (blocks.map .ensured : List (PassEvent Λ Cert n)) = [] := by
  simp [claimedRounds, List.filterMap_map]

@[simp] theorem ensuredBlocks_ensured (blocks : List (Ensured Λ Cert)) :
    ensuredBlocks (blocks.map .ensured : List (PassEvent Λ Cert n)) = blocks := by
  simp [ensuredBlocks, List.filterMap_map]

/-- **What holds of a pass in every state it reaches.** -/
structure PassState.Valid (P : Pass Λ Cert) (start : Nat) (tr : List (PassEvent Λ Cert P.workers))
    (s : PassState Λ Cert Waiter P.workers) : Prop where
  shares : Shares start s.ctx s.loop (fun w => (s.worker w).stage) (claimedRounds tr)
  committed : Committed P start s.loop (ensuredBlocks tr)

theorem syncPass_valid (P : Pass Λ Cert) (l : Λ) :
    (syncPass P l : PassState Λ Cert Waiter P.workers).Valid P (P.ledger.nextRound l) [] where
  shares := by
    refine ⟨⟨rfl, rfl, ?_, fun _ h => (by cases h), .inr ⟨rfl, rfl, fun _ => rfl⟩, fun _ => trivial⟩, rfl⟩
    have hsum : ∑ w : Fin P.workers, (((syncPass P l : PassState Λ Cert Waiter P.workers).worker w).stage).permits = 0 :=
      Finset.sum_eq_zero fun _ _ => rfl
    rw [hsum]
    exact Nat.le_of_eq (congrArg (· + _) (Nat.zero_add _))
  committed := ⟨rfl, fun _ he => (by cases he), fun _ => rfl, Nat.le_refl _, fun h => (by cases h), trivial⟩

theorem ClaimStep.applied_eq {w : Fin n} {a a' : Claims n} {st st' : Stage} {rounds : List Nat}
    (h : ClaimStep w a st a' st' rounds) : a'.applied = a.applied := by
  cases h <;> rfl

/-- **Every step of a pass keeps it valid.** -/
theorem passStep_valid {s s' : PassState Λ Cert Waiter P.workers}
    {move : Move Λ Cert Waiter P.workers} {events : List (PassEvent Λ Cert P.workers)} (hs : s.Valid P start tr)
    (h : passStep P s move = .ok (s', events)) : s'.Valid P start (tr ++ events) := by
  cases move with
  | worker w choice =>
    simp only [passStep] at h
    split at h
    · cases h
    · rename_i ctx ws rounds hstep
      cases h
      have hclaim := workerStep_claims hstep
      constructor
      · rw [claimedRounds_append, claimedRounds_claimed]
        have hstage : (fun v => (Function.update s.worker w ws v).stage) =
            Function.update (fun v => (s.worker v).stage) w ws.stage := by
          funext v
          rw [Function.apply_update (fun _ => WorkerState.stage)]
        refine ⟨?_, ?_⟩
        · rw [hstage]
          exact hclaim.sound hs.shares.sound
        · exact hclaim.applied_eq.trans hs.shares.cursor
      · rw [ensuredBlocks_append, ensuredBlocks_claimed, List.append_nil]
        exact hs.committed
  | apply choice =>
    simp only [passStep] at h
    split at h
    · cases h
    · rename_i ctx loop blocks hstep
      cases h
      constructor
      · rw [claimedRounds_append, claimedRounds_ensured, List.append_nil]
        exact applyStep_shares hs.shares hstep
      · rw [ensuredBlocks_append, ensuredBlocks_ensured]
        exact applyStep_committed hs.committed hstep
  | ledger l =>
    cases h
    rw [List.append_nil]
    exact ⟨⟨hs.shares.sound, hs.shares.cursor⟩, hs.committed⟩

theorem passStep_claims_lt {s s' : PassState Λ Cert Waiter P.workers}
    {move : Move Λ Cert Waiter P.workers} {events : List (PassEvent Λ Cert P.workers)} (hs : s.Valid P start tr)
    (h : passStep P s move = .ok (s', events)) (hgate : s.ctx.fetchFailed = true) :
    ∀ r ∈ claimedRounds events, r < s.ctx.applied + P.workers := by
  cases move with
  | worker w choice =>
    simp only [passStep] at h
    split at h
    · cases h
    · rename_i ctx ws rounds hstep
      cases h
      rw [claimedRounds_claimed]
      exact (workerStep_claims hstep).lt_of_gate hs.shares.sound hgate
  | apply choice =>
    simp only [passStep] at h
    split at h
    · cases h
    · cases h
      rw [claimedRounds_ensured]
      intro r hr
      cases hr
  | ledger l =>
    cases h
    intro r hr
    cases hr

theorem run_passStep_valid (l : Λ) {schedule : List (Move Λ Cert Waiter P.workers)}
    {s : PassState Λ Cert Waiter P.workers}
    (h : Run.run (passStep P) (syncPass P l) schedule = .ok (s, tr)) : s.Valid P (P.ledger.nextRound l) tr := by
  have hpath : Path (fun s move s' events => passStep P s move = .ok (s', events)) (syncPass P l) tr s :=
    Path.of_run (P := fun _ => True) (fun _ _ _ _ _ hstep => hstep) (fun _ _ => trivial) h
  exact hpath.invariant (fun tr s => s.Valid P (P.ledger.nextRound l) tr) (syncPass_valid P l)
    fun _ _ _ _ _ hs hstep => passStep_valid hs hstep

/-- The claimed rounds that the cursor has not passed fit the window. -/
theorem Claims.Sound.outstanding {owed : Nat} {spawned : Prop} {a : Claims n} {stage : Fin n → Stage}
    {claimed : List Nat} (h : a.Sound start owed spawned stage claimed) :
    (claimed.filter (fun r => decide (a.applied ≤ r))).length ≤ fetchWindow n := by
  have hwindow := h.window
  have hnext := h.next
  -- the rounds below the cursor come first, and none of them is counted
  let passed := min claimed.length (a.applied - start)
  have hsplit : claimed = List.range' start passed ++ List.range' (start + passed) (claimed.length - passed) := by
    rw [List.range'_append_1, Nat.add_sub_cancel' (Nat.min_le_left _ _)]
    exact h.consecutive
  have hpassed : (List.range' start passed).filter (fun r => decide (a.applied ≤ r)) = [] := by
    rw [List.filter_eq_nil_iff]
    intro r hr
    rw [List.mem_range'_1] at hr
    rw [decide_eq_true_eq]
    have : passed ≤ a.applied - start := Nat.min_le_right _ _
    omega
  calc (claimed.filter (fun r => decide (a.applied ≤ r))).length
      = ((List.range' (start + passed) (claimed.length - passed)).filter (fun r => decide (a.applied ≤ r))).length := by
        rw [hsplit, List.filter_append, hpassed, List.nil_append, ← hsplit]
    _ ≤ claimed.length - passed := by
        have hlen := List.length_filter_le (fun r => decide (a.applied ≤ r))
          (List.range' (start + passed) (claimed.length - passed))
        rwa [List.length_range'] at hlen
    _ ≤ fetchWindow n := by omega

/-- **A pass commits consecutive authenticated blocks under every schedule.**  Whatever the fetcher answers, however the
ledger moves and in whatever order the threads take their steps: the committed blocks have the rounds from the start of
the pass on, each with an accepted certificate and the contents its header commits to; no round is claimed twice; the
rounds claimed and not yet applied fit the window of the started workers; and once the tip gate is engaged, no claim
reaches the cursor plus the number of the workers.  The cursor has passed committed rounds only. -/
theorem syncPass_commits_consecutive (P : Pass Λ Cert) (l : Λ) (schedule : List (Move Λ Cert Waiter P.workers))
    (s : PassState Λ Cert Waiter P.workers) (tr : List (PassEvent Λ Cert P.workers))
    (h : Run.run (passStep P) (syncPass P l) schedule = .ok (s, tr)) :
    (ensuredBlocks tr).map (fun e => e.fetched.block.round) =
        List.range' (P.ledger.nextRound l) (ensuredBlocks tr).length ∧
      (∀ e ∈ ensuredBlocks tr, P.ledger.authenticateBlock e.seen e.fetched.block e.cert = .ok () ∧
        P.contentsMatchHeader e.fetched = .ok true) ∧
      s.ctx.applied ≤ P.ledger.nextRound l + (ensuredBlocks tr).length ∧
      (claimedRounds tr).Nodup ∧
      ((claimedRounds tr).filter (fun r => decide (s.ctx.applied ≤ r))).length ≤ fetchWindow P.workers ∧
      ∀ move s' events, passStep P s move = .ok (s', events) → s.ctx.fetchFailed = true →
        ∀ r ∈ claimedRounds events, r < s.ctx.applied + P.workers := by
  have hs := run_passStep_valid l h
  refine ⟨hs.committed.rounds, fun e he => ?_, ?_, ?_, hs.shares.sound.outstanding, ?_⟩
  · have haccepted := hs.committed.accepted e he
    exact ⟨haccepted.authenticated, haccepted.contents⟩
  · rw [hs.shares.cursor]
    exact hs.committed.behind
  · rw [hs.shares.sound.consecutive]
    exact List.nodup_range'
  · intro move s' events hstep hgate
    exact passStep_claims_lt hs hstep hgate

end Schedules

end Steps

/-- Two workers over a ledger that accepts every certificate. -/
def twoWorkers : Pass Nat Unit where
  ledger := ⟨id, fun _ _ => false, fun _ => false, fun _ _ _ => .ok ()⟩
  hashes := ⟨fun _ => 0, fun _ => 0, fun _ => 0⟩
  protocols := fun _ => some default
  defaultParams := default
  noBlockThreshold := 5
  parallelBlocks := 2
  workers := 2

def firstBlock : FetchedBlockCert Unit :=
  { block := { (default : Block) with round := 1, currentProtocol := "p" }, cert := some (), rawPaysetBlobs := none }

/-- Both workers claim a round; the second finds no peer and engages the gate, the first's block is committed. -/
def tipSchedule : List (Move Nat Unit Unit 2) :=
  List.replicate 6 (.apply .go) ++ List.replicate 13 (.worker 0 .go) ++ List.replicate 13 (.worker 1 .go) ++
    [.worker 1 (.answer (.error .noPeersAvailable) false)] ++ List.replicate 6 (.worker 1 .go) ++
    [.worker 0 (.answer (.ok firstBlock) false)] ++ List.replicate 3 (.worker 0 .go) ++
    List.replicate 4 (.apply .go) ++ [.apply (.poll false), .apply .go, .apply .go, .apply (.ledgerAfter 2)] ++
    List.replicate 4 (.apply .go)

theorem tipSchedule_runs :
    (Run.run (passStep twoWorkers) (syncPass twoWorkers 1) tipSchedule).toOption.any (fun p =>
      (claimedRounds p.2 == [1, 2]) && ((ensuredBlocks p.2).length == 1) && p.1.ctx.fetchFailed) = true := by
  decide +kernel

theorem syncPass_commits_consecutive_tipSchedule : ∃ s tr,
    Run.run (passStep twoWorkers) (syncPass twoWorkers 1) tipSchedule = .ok (s, tr) ∧
      (ensuredBlocks tr).length = 1 ∧ s.ctx.fetchFailed = true ∧
      (ensuredBlocks tr).map (fun e => e.fetched.block.round) = [1] ∧
      ((claimedRounds tr).filter (fun r => decide (s.ctx.applied ≤ r))).length ≤ 4 := by
  obtain ⟨⟨s, tr⟩, hrun, htest⟩ := Run.ok_of_any tipSchedule_runs
  simp only [Bool.and_eq_true, beq_iff_eq] at htest
  obtain ⟨⟨_, hone⟩, hgate⟩ := htest
  obtain ⟨hrounds, -, -, -, hwindow, -⟩ := syncPass_commits_consecutive twoWorkers 1 tipSchedule s tr hrun
  rw [hone] at hrounds
  exact ⟨s, tr, hrun, hone, hgate, hrounds, hwindow⟩

end Ledger
end Algod
