import AlgodRust.Lib.FinMap
/-!
# ElasticRateLimiter — reservations for clients out of one capacity

`elastic_rate_limiter.rs`: a shared queue of capacity units, a reservation for each client that is filled from it, and
guards that stand for the units handed out.  The congestion manager is any object with the three methods of the trait;
`M` is its state.  A `Session` is a limiter with the guards it has granted, in the order of the grants.

Units are conserved except in two cases.  A client's first request takes a guard from its new reservation whether or
not the reservation could be filled; a guard whose client has closed its reservation has no queue to return its unit
to, and the unit is gone.
-/
namespace Algod
namespace Pool

/-- A counter of free units with a bound. -/
structure CapacityQueue where
  available : Nat
  max : Nat
deriving DecidableEq, Repr

namespace CapacityQueue

def tryConsume (q : CapacityQueue) : Bool × CapacityQueue :=
  if 0 < q.available then (true, { q with available := q.available - 1 }) else (false, q)

def tryRelease (q : CapacityQueue) : Bool × CapacityQueue :=
  if q.available < q.max then (true, { q with available := q.available + 1 }) else (false, q)

/-- The loop of `open_reservation`: at most `n` units, one by one, until the shared queue is empty. -/
def fill : Nat → CapacityQueue → CapacityQueue → CapacityQueue × CapacityQueue
  | 0, shared, q => (shared, q)
  | n + 1, shared, q =>
    match shared.tryConsume with
    | (true, shared) => fill n shared q.tryRelease.2
    | (false, shared) => (shared, q)

/-- The loop of `close_reservation`: at most `n` units, one by one, until the shared queue is full. -/
def giveBack : Nat → CapacityQueue → CapacityQueue
  | 0, shared => shared
  | n + 1, shared =>
    match shared.tryRelease with
    | (true, shared) => giveBack n shared
    | (false, shared) => shared

end CapacityQueue

/-- The queue a guard draws from. -/
inductive QueueKind (C : Type)
  | shared
  | reservation (client : C)
deriving DecidableEq, Repr

structure CapacityGuard (C : Type) where
  origin : QueueKind C
  released : Bool
deriving DecidableEq, Repr

def CapacityGuard.new {C : Type} (origin : QueueKind C) : CapacityGuard C := ⟨origin, false⟩

inductive ElasticRateLimiterError
  | congestionDropped
  | noCapacity
  | reservationExists
  | insufficientCapacity (remaining requested : Nat)
deriving DecidableEq, Repr

/-- The methods of the `CongestionManager` trait; instants are natural numbers. -/
structure CongestionManager (C M : Type) where
  consumed : C → Nat → M → M
  served : Nat → M → M
  shouldDrop : C → M → Bool × M

structure ElasticRateLimiter (C M : Type) [DecidableEq C] where
  maxCapacity : Nat
  capacityPerReservation : Nat
  sharedCapacity : CapacityQueue
  capacityByClient : FinMap C CapacityQueue
  cm : Option M
  enableCm : Bool

namespace ElasticRateLimiter

variable {C M : Type} [DecidableEq C] (manager : CongestionManager C M)

def new (maxCapacity capacityPerReservation : Nat) (cm : M) : ElasticRateLimiter C M where
  maxCapacity := maxCapacity
  capacityPerReservation := capacityPerReservation
  sharedCapacity := ⟨maxCapacity, maxCapacity⟩
  capacityByClient := ∅
  cm := some cm
  enableCm := false

def reservationCount (l : ElasticRateLimiter C M) : Nat := l.capacityByClient.entries.length

def openReservation (l : ElasticRateLimiter C M) (client : C) :
    Except ElasticRateLimiterError Unit × ElasticRateLimiter C M :=
  if (l.capacityByClient.lookup client).isSome then
    (.error .reservationExists, l)
  else
    let remaining := l.maxCapacity - l.capacityPerReservation * l.reservationCount
    if remaining < l.capacityPerReservation then
      (.error (.insufficientCapacity remaining l.capacityPerReservation), l)
    else
      let (shared, q) := CapacityQueue.fill l.capacityPerReservation l.sharedCapacity ⟨0, l.capacityPerReservation⟩
      (.ok (), { l with sharedCapacity := shared, capacityByClient := l.capacityByClient.insert client q })

/-- Take a unit out of a reservation that was just opened; whether there was one is not looked at. -/
def takeFirst (l : ElasticRateLimiter C M) (client : C) : ElasticRateLimiter C M :=
  match l.capacityByClient.lookup client with
  | some q => { l with capacityByClient := l.capacityByClient.insert client q.tryConsume.2 }
  | none => l

def notifyConsumed (l : ElasticRateLimiter C M) (client : C) (now : Nat) : ElasticRateLimiter C M :=
  { l with cm := l.cm.map (manager.consumed client now) }

/-- Step 3: a unit of the shared pool. -/
def consumeShared (l : ElasticRateLimiter C M) (client : C) (now : Nat) :
    Except ElasticRateLimiterError (CapacityGuard C) × ElasticRateLimiter C M :=
  match l.sharedCapacity.tryConsume with
  | (true, shared) =>
    (.ok (CapacityGuard.new .shared), notifyConsumed manager { l with sharedCapacity := shared } client now)
  | (false, shared) => (.error .noCapacity, { l with sharedCapacity := shared })

/-- Step 2: the congestion manager stands before the shared pool where it is enabled. -/
def consumeGated (l : ElasticRateLimiter C M) (client : C) (now : Nat) :
    Except ElasticRateLimiterError (CapacityGuard C) × ElasticRateLimiter C M :=
  match l.enableCm, l.cm with
  | true, some cm =>
    match manager.shouldDrop client cm with
    | (true, cm) => (.error .congestionDropped, { l with cm := some cm })
    | (false, cm) => consumeShared manager { l with cm := some cm } client now
  | _, _ => consumeShared manager l client now

def consumeCapacity (l : ElasticRateLimiter C M) (client : C) (now : Nat) :
    (Bool × Except ElasticRateLimiterError (CapacityGuard C)) × ElasticRateLimiter C M :=
  let isCmEnabled := l.enableCm
  match l.capacityByClient.lookup client with
  | none =>
    -- step 0: a client without a reservation gets one, and its first unit comes out of it
    if 0 < l.capacityPerReservation then
      match openReservation l client with
      | (.ok (), l) => ((isCmEnabled, .ok (CapacityGuard.new (.reservation client))), takeFirst l client)
      | (.error e, l) => ((isCmEnabled, .error e), l)
    else
      let (r, l) := consumeGated manager l client now
      ((isCmEnabled, r), l)
  | some q =>
    -- step 1: reserved capacity is never subject to the congestion manager
    match q.tryConsume with
    | (true, q) =>
      ((isCmEnabled, .ok (CapacityGuard.new (.reservation client))),
        notifyConsumed manager { l with capacityByClient := l.capacityByClient.insert client q } client now)
    | (false, _) =>
      let (r, l) := consumeGated manager l client now
      ((isCmEnabled, r), l)

/-- The result, the limiter and the guard, whose flag `release` sets. -/
def release (l : ElasticRateLimiter C M) (guard : CapacityGuard C) :
    Except ElasticRateLimiterError Unit × ElasticRateLimiter C M × CapacityGuard C :=
  if guard.released then
    (.ok (), l, guard)
  else
    match guard.origin with
    | .shared =>
      match l.sharedCapacity.tryRelease with
      | (true, q) => (.ok (), { l with sharedCapacity := q }, { guard with released := true })
      | (false, _) => (.error .noCapacity, l, guard)
    | .reservation client =>
      match l.capacityByClient.lookup client with
      | some q =>
        match q.tryRelease with
        | (true, q) =>
          (.ok (), { l with capacityByClient := l.capacityByClient.insert client q }, { guard with released := true })
        | (false, _) => (.error .noCapacity, l, guard)
      -- the client has closed its reservation: nowhere to return to
      | none => (.ok (), l, { guard with released := true })

def closeReservation (l : ElasticRateLimiter C M) (client : C) : ElasticRateLimiter C M :=
  match l.capacityByClient.lookup client with
  | none => l
  | some q =>
    { l with
      sharedCapacity := CapacityQueue.giveBack q.available l.sharedCapacity
      capacityByClient := l.capacityByClient.erase client }

/-! ## Sessions -/

/-- A limiter with every guard it has granted. -/
structure Session (C M : Type) [DecidableEq C] where
  limiter : ElasticRateLimiter C M
  guards : List (CapacityGuard C)

/-- The calls on a limiter; a guard is named by its place among the grants. -/
inductive Call (C M : Type)
  | consumeCapacity (client : C) (now : Nat)
  | release (guard : Nat)
  | closeReservation (client : C)
  | served (now : Nat)
  | setCongestionControl (enabled : Bool)
  | setCongestionManager (cm : Option M)

def Session.start (maxCapacity capacityPerReservation : Nat) (cm : M) : Session C M :=
  ⟨new maxCapacity capacityPerReservation cm, []⟩

def Session.perform (s : Session C M) : Call C M → Session C M
  | .consumeCapacity client now =>
    match consumeCapacity manager s.limiter client now with
    | ((_, .ok guard), l) => ⟨l, s.guards ++ [guard]⟩
    | ((_, .error _), l) => ⟨l, s.guards⟩
  | .release i =>
    match s.guards[i]? with
    | none => s
    | some guard =>
      let (_, l, guard) := release s.limiter guard
      ⟨l, s.guards.set i guard⟩
  | .closeReservation client => { s with limiter := closeReservation s.limiter client }
  | .served now => { s with limiter := { s.limiter with cm := s.limiter.cm.map (manager.served now) } }
  | .setCongestionControl enabled => { s with limiter := { s.limiter with enableCm := enabled } }
  | .setCongestionManager cm => { s with limiter := { s.limiter with cm := cm } }

def Session.performAll (s : Session C M) (calls : List (Call C M)) : Session C M :=
  calls.foldl (Session.perform manager) s

/-- The free units of all open reservations. -/
def reserved (l : ElasticRateLimiter C M) : Nat := FinMap.total (fun _ q => q.available) l.capacityByClient

/-- The guards that were granted and are not released. -/
def Session.outstanding (s : Session C M) : Nat := s.guards.countP (fun g => !g.released)

/-- A request of a client opens a reservation although the shared queue has no unit to fill it with. -/
def opensDry (l : ElasticRateLimiter C M) (client : C) : Bool :=
  (l.capacityByClient.lookup client).isNone && decide (0 < l.capacityPerReservation) &&
    decide (l.capacityPerReservation ≤ l.maxCapacity - l.capacityPerReservation * l.reservationCount) &&
    decide (l.sharedCapacity.available = 0)

/-- A guard is out and its client has closed the reservation it came from. -/
def orphans (l : ElasticRateLimiter C M) : CapacityGuard C → Bool
  | ⟨.reservation client, false⟩ => (l.capacityByClient.lookup client).isNone
  | _ => false

def Session.opensDry (s : Session C M) : Call C M → Bool
  | .consumeCapacity client _ => s.limiter.opensDry client
  | _ => false

/-- A call releases a guard whose client has closed its reservation. -/
def Session.strands (s : Session C M) : Call C M → Bool
  | .release i => s.guards[i]?.any s.limiter.orphans
  | _ => false

/-- No call of a run opens a reservation on an exhausted queue. -/
def Session.opensFilled : Session C M → List (Call C M) → Bool
  | _, [] => true
  | s, c :: cs => !s.opensDry c && opensFilled (s.perform manager c) cs

/-- How many guards a run releases after their client closed its reservation. -/
def Session.stranded : Session C M → List (Call C M) → Nat
  | _, [] => 0
  | s, c :: cs => (s.strands c).toNat + stranded (s.perform manager c) cs

end ElasticRateLimiter

/-! ## What the queues do -/

namespace CapacityQueue

variable {q : CapacityQueue}

theorem tryConsume_of_pos (h : 0 < q.available) :
    q.tryConsume = (true, { q with available := q.available - 1 }) := if_pos h

theorem tryConsume_of_zero (h : q.available = 0) : q.tryConsume = (false, q) := by
  unfold tryConsume
  rw [if_neg (by omega)]

theorem tryRelease_of_lt (h : q.available < q.max) :
    q.tryRelease = (true, { q with available := q.available + 1 }) := if_pos h

theorem tryRelease_of_le (h : q.max ≤ q.available) : q.tryRelease = (false, q) := by
  unfold tryRelease
  rw [if_neg (by omega)]

/-- A fill moves what is asked for as far as the shared queue has it. -/
theorem fill_eq : ∀ (n : Nat) (shared q : CapacityQueue), q.available + n ≤ q.max →
    fill n shared q = ({ shared with available := shared.available - min n shared.available },
      { q with available := q.available + min n shared.available })
  | 0, shared, q, _ => by simp [fill]
  | n + 1, shared, q, hroom => by
    unfold fill
    rcases Nat.eq_zero_or_pos shared.available with hz | hpos
    · rw [tryConsume_of_zero hz]
      dsimp only
      rw [hz, Nat.min_zero, Nat.sub_zero, Nat.add_zero, ← hz]
    · rw [tryConsume_of_pos hpos, tryRelease_of_lt (by omega)]
      dsimp only
      rw [fill_eq n _ _ (by dsimp only; omega)]
      dsimp only
      congr 2 <;> omega

/-- Where there is room for all of it, everything is given back. -/
theorem giveBack_eq : ∀ (n : Nat) (shared : CapacityQueue), shared.available + n ≤ shared.max →
    giveBack n shared = { shared with available := shared.available + n }
  | 0, _, _ => rfl
  | n + 1, shared, hroom => by
    unfold giveBack
    rw [tryRelease_of_lt (by omega)]
    dsimp only
    rw [giveBack_eq n _ (by dsimp only; omega)]
    dsimp only
    congr 1
    omega

end CapacityQueue

namespace ElasticRateLimiter

variable {C M : Type} [DecidableEq C] (manager : CongestionManager C M) {q : CapacityQueue}

/-! ## The units of a limiter -/

/-- All free units. -/
def free (l : ElasticRateLimiter C M) : Nat := l.sharedCapacity.available + l.reserved

/-- The capacity is one number, the shared queue is as large, and the reservations were never overcommitted. -/
structure Sized (maxCapacity : Nat) (l : ElasticRateLimiter C M) : Prop where
  capacity : l.maxCapacity = maxCapacity
  shared : l.sharedCapacity.max = maxCapacity
  committed : l.capacityPerReservation * l.reservationCount ≤ maxCapacity

variable {maxCapacity : Nat} {l : ElasticRateLimiter C M} {client : C}

theorem reserved_insert_of_some (q' : CapacityQueue) (h : l.capacityByClient.lookup client = some q) :
    FinMap.total (fun _ q => q.available) (l.capacityByClient.insert client q') + q.available =
      l.reserved + q'.available := by
  have := FinMap.total_insert (fun _ q => q.available) l.capacityByClient client q'
  rw [h] at this
  exact this

theorem reserved_insert_of_none {q' : CapacityQueue} (h : l.capacityByClient.lookup client = none) :
    FinMap.total (fun _ q => q.available) (l.capacityByClient.insert client q') = l.reserved + q'.available := by
  have := FinMap.total_insert (fun _ q => q.available) l.capacityByClient client q'
  rw [h] at this
  exact this

theorem reserved_erase (h : l.capacityByClient.lookup client = some q) :
    FinMap.total (fun _ q => q.available) (l.capacityByClient.erase client) + q.available = l.reserved := by
  have := FinMap.total_erase (fun _ q => q.available) l.capacityByClient client
  rw [h] at this
  exact this.symm

theorem reservationCount_insert_of_some {q q' : CapacityQueue} (h : l.capacityByClient.lookup client = some q) :
    (l.capacityByClient.insert client q').entries.length = l.reservationCount := by
  have := FinMap.total_insert (fun _ _ => 1) l.capacityByClient client q'
  rw [h, ← FinMap.length_entries, ← FinMap.length_entries] at this
  exact Nat.add_right_cancel this

theorem reservationCount_insert_of_none {q' : CapacityQueue} (h : l.capacityByClient.lookup client = none) :
    (l.capacityByClient.insert client q').entries.length = l.reservationCount + 1 := by
  have := FinMap.total_insert (fun _ _ => 1) l.capacityByClient client q'
  rw [h, ← FinMap.length_entries, ← FinMap.length_entries] at this
  exact this

theorem reservationCount_erase_le :
    (l.capacityByClient.erase client).entries.length ≤ l.reservationCount := by
  have := FinMap.total_erase (fun _ _ => 1) l.capacityByClient client
  rw [← FinMap.length_entries, ← FinMap.length_entries] at this
  unfold reservationCount
  omega

/-- The product of the overcommitment check stays in the capacity. -/
theorem Sized.insert (h : Sized maxCapacity l) (q' : CapacityQueue) (hq : l.capacityByClient.lookup client = some q) :
    Sized maxCapacity { l with capacityByClient := l.capacityByClient.insert client q' } where
  capacity := h.capacity
  shared := h.shared
  committed := by
    unfold reservationCount
    rw [reservationCount_insert_of_some hq]
    exact h.committed

/-- What a request does to the units: a guard is one unit less, an error is none. -/
def Accounted (l : ElasticRateLimiter C M) (r : Except ElasticRateLimiterError (CapacityGuard C))
    (l' : ElasticRateLimiter C M) : Prop :=
  match r with
  | .ok guard => guard.released = false ∧ l'.free + 1 = l.free
  | .error _ => l'.free = l.free

theorem consumeShared_accounted (h : Sized maxCapacity l) (now : Nat) :
    Sized maxCapacity (consumeShared manager l client now).2 ∧
      Accounted l (consumeShared manager l client now).1 (consumeShared manager l client now).2 := by
  unfold consumeShared
  rcases Nat.eq_zero_or_pos l.sharedCapacity.available with hz | hpos
  · rw [CapacityQueue.tryConsume_of_zero hz]
    exact ⟨⟨h.capacity, h.shared, h.committed⟩, rfl⟩
  · rw [CapacityQueue.tryConsume_of_pos hpos]
    refine ⟨⟨h.capacity, h.shared, h.committed⟩, rfl, ?_⟩
    unfold free notifyConsumed
    dsimp only
    have hreserved : reserved { l with
      sharedCapacity := { l.sharedCapacity with available := l.sharedCapacity.available - 1 }
      cm := l.cm.map (manager.consumed client now) } = l.reserved := rfl
    rw [hreserved]
    omega

theorem consumeGated_accounted (h : Sized maxCapacity l) (now : Nat) :
    Sized maxCapacity (consumeGated manager l client now).2 ∧
      Accounted l (consumeGated manager l client now).1 (consumeGated manager l client now).2 := by
  unfold consumeGated
  split
  · rename_i cm _ _
    split
    · exact ⟨⟨h.capacity, h.shared, h.committed⟩, rfl⟩
    · rename_i cm' _
      have h' : Sized maxCapacity { l with cm := some cm' } := ⟨h.capacity, h.shared, h.committed⟩
      exact consumeShared_accounted manager h' now
  · exact consumeShared_accounted manager h now

theorem takeFirst_insert {shared q : CapacityQueue} :
    takeFirst { l with sharedCapacity := shared, capacityByClient := l.capacityByClient.insert client q } client =
      { l with sharedCapacity := shared, capacityByClient := l.capacityByClient.insert client q.tryConsume.2 } := by
  unfold takeFirst
  dsimp only
  rw [AList.lookup_insert]
  dsimp only
  rw [AList.insert_insert]

/-- A reservation is refused, or it is opened; its first unit is a unit where the shared queue had one. -/
theorem openReservation_accounted (h : Sized maxCapacity l) (hnone : l.capacityByClient.lookup client = none)
    (hpos : 0 < l.capacityPerReservation) :
    (∃ e, openReservation l client = (.error e, l)) ∨
      l.capacityPerReservation ≤ l.maxCapacity - l.capacityPerReservation * l.reservationCount ∧
        ∃ l', openReservation l client = (.ok (), l') ∧ Sized maxCapacity (takeFirst l' client) ∧
          (0 < l.sharedCapacity.available → (takeFirst l' client).free + 1 = l.free) := by
  unfold openReservation
  rw [hnone, Option.isSome_none, if_neg Bool.false_ne_true]
  dsimp only
  by_cases hroom : l.maxCapacity - l.capacityPerReservation * l.reservationCount < l.capacityPerReservation
  · rw [if_pos hroom]
    exact .inl ⟨_, rfl⟩
  rw [if_neg hroom, CapacityQueue.fill_eq _ _ _ (by dsimp only; omega)]
  refine .inr ⟨Nat.le_of_not_lt hroom, _, rfl, ?_, ?_⟩
  · dsimp only
    rw [takeFirst_insert]
    refine ⟨h.capacity, h.shared, ?_⟩
    unfold reservationCount
    dsimp only
    rw [reservationCount_insert_of_none hnone, Nat.mul_succ]
    have := h.committed
    have := h.capacity
    omega
  · intro hshared
    dsimp only
    rw [takeFirst_insert, CapacityQueue.tryConsume_of_pos (by dsimp only; omega)]
    unfold free reserved
    dsimp only
    rw [reserved_insert_of_none hnone]
    unfold reserved
    dsimp only
    omega

/-- **A request is accounted for**, unless it opens a reservation on an exhausted queue. -/
theorem consumeCapacity_accounted (h : Sized maxCapacity l) (client : C) (now : Nat) :
    Sized maxCapacity (consumeCapacity manager l client now).2 ∧
      (l.opensDry client = false →
        Accounted l (consumeCapacity manager l client now).1.2 (consumeCapacity manager l client now).2) := by
  unfold consumeCapacity
  cases hq : l.capacityByClient.lookup client with
  | none =>
    dsimp only
    by_cases hpos : 0 < l.capacityPerReservation
    · rw [if_pos hpos]
      obtain ⟨e, he⟩ | ⟨hroom, l', hl', hsized, hfree⟩ := openReservation_accounted h hq hpos
      · rw [he]
        exact ⟨h, fun _ => rfl⟩
      · rw [hl']
        refine ⟨hsized, fun hdry => ⟨rfl, hfree ?_⟩⟩
        apply Nat.pos_of_ne_zero
        intro hz
        simp [opensDry, hq, hpos, hroom, hz] at hdry
    · rw [if_neg hpos]
      exact ⟨(consumeGated_accounted manager h now).1, fun _ => (consumeGated_accounted manager h now).2⟩
  | some q =>
    dsimp only
    rcases Nat.eq_zero_or_pos q.available with hz | hpos
    · rw [CapacityQueue.tryConsume_of_zero hz]
      exact ⟨(consumeGated_accounted manager h now).1, fun _ => (consumeGated_accounted manager h now).2⟩
    · rw [CapacityQueue.tryConsume_of_pos hpos]
      have hs := h.insert { q with available := q.available - 1 } hq
      refine ⟨⟨hs.capacity, hs.shared, hs.committed⟩, fun _ => ⟨rfl, ?_⟩⟩
      have := reserved_insert_of_some { q with available := q.available - 1 } hq
      unfold free reserved notifyConsumed
      unfold reserved at this
      dsimp only at this ⊢
      omega

/-- A release returns one unit, unless the guard stays as it was or its client has no reservation. -/
theorem release_accounted (h : Sized maxCapacity l) (guard : CapacityGuard C) :
    Sized maxCapacity (release l guard).2.1 ∧
      (((release l guard).2.2 = guard ∧ (release l guard).2.1.free = l.free ∧ l.orphans guard = false) ∨
        guard.released = false ∧ (release l guard).2.2.released = true ∧
          (release l guard).2.1.free + (l.orphans guard).toNat = l.free + 1) := by
  obtain ⟨origin, released⟩ := guard
  unfold release
  cases released with
  | true => exact ⟨h, .inl ⟨rfl, rfl, by cases origin <;> rfl⟩⟩
  | false =>
    rw [if_neg Bool.false_ne_true]
    cases origin with
    | shared =>
      dsimp only
      by_cases hroom : l.sharedCapacity.available < l.sharedCapacity.max
      · rw [CapacityQueue.tryRelease_of_lt hroom]
        refine ⟨⟨h.capacity, h.shared, h.committed⟩, .inr ⟨rfl, rfl, ?_⟩⟩
        unfold free reserved orphans
        dsimp only [Bool.toNat_false]
        omega
      · rw [CapacityQueue.tryRelease_of_le (Nat.le_of_not_lt hroom)]
        exact ⟨h, .inl ⟨rfl, rfl, rfl⟩⟩
    | reservation client =>
      dsimp only
      cases hq : l.capacityByClient.lookup client with
      | none =>
        refine ⟨h, .inr ⟨rfl, rfl, ?_⟩⟩
        simp [orphans, hq]
      | some q =>
        dsimp only
        by_cases hroom : q.available < q.max
        · rw [CapacityQueue.tryRelease_of_lt hroom]
          refine ⟨h.insert _ hq, .inr ⟨rfl, rfl, ?_⟩⟩
          have := reserved_insert_of_some { q with available := q.available + 1 } hq
          unfold free orphans
          unfold reserved at this ⊢
          dsimp only at this ⊢
          rw [hq, Option.isNone_some, Bool.toNat_false]
          omega
        · rw [CapacityQueue.tryRelease_of_le (Nat.le_of_not_lt hroom)]
          exact ⟨h, .inl ⟨rfl, rfl, by unfold orphans; dsimp only; rw [hq]; rfl⟩⟩

/-- Where all free units fit the capacity, a closed reservation gives all of its own back. -/
theorem closeReservation_accounted (h : Sized maxCapacity l) (client : C) (hfree : l.free ≤ maxCapacity) :
    Sized maxCapacity (closeReservation l client) ∧ (closeReservation l client).free = l.free := by
  unfold closeReservation
  cases hq : l.capacityByClient.lookup client with
  | none => exact ⟨h, rfl⟩
  | some q =>
    have herase := reserved_erase hq
    unfold free at hfree
    have hshared := h.shared
    dsimp only
    rw [CapacityQueue.giveBack_eq _ _ (by omega)]
    refine ⟨⟨h.capacity, h.shared, ?_⟩, ?_⟩
    · exact (Nat.mul_le_mul_left _ reservationCount_erase_le).trans h.committed
    · unfold free
      unfold reserved at herase ⊢
      dsimp only
      omega

/-! ## The units of a session -/

/-- The free units, the guards that are out and the units that were stranded make up the capacity. -/
structure Session.Balanced (maxCapacity stranded : Nat) (s : Session C M) : Prop where
  sized : Sized maxCapacity s.limiter
  balance : s.limiter.free + s.outstanding + stranded = maxCapacity

theorem Session.balanced_start (maxCapacity capacityPerReservation : Nat) (cm : M) :
    Balanced maxCapacity 0 (start maxCapacity capacityPerReservation cm : Session C M) where
  sized := ⟨rfl, rfl, Nat.zero_le _⟩
  balance := rfl

omit [DecidableEq C] in
theorem countP_set_released {guards : List (CapacityGuard C)} {i : Nat} {guard guard' : CapacityGuard C}
    (hi : guards[i]? = some guard) (hout : guard.released = false) (hin : guard'.released = true) :
    (guards.set i guard').countP (fun g => !g.released) + 1 = guards.countP (fun g => !g.released) := by
  obtain ⟨hlt, hget⟩ := List.getElem?_eq_some_iff.1 hi
  rw [List.countP_set hlt]
  have hpos : 0 < guards.countP (fun g => !g.released) :=
    List.countP_pos_iff.2 ⟨guard, List.mem_of_getElem? hi, by rw [hout]; rfl⟩
  rw [hget, hout, hin]
  simp only [Bool.not_false, Bool.not_true, if_true, Bool.false_eq_true, if_false]
  omega

variable {s : Session C M} {stranded : Nat}

/-- **One call keeps the balance.** -/
theorem Session.balanced_perform (h : s.Balanced maxCapacity stranded) (c : Call C M) (hdry : s.opensDry c = false) :
    (s.perform manager c).Balanced maxCapacity (stranded + (s.strands c).toNat) := by
  obtain ⟨hs, hbalance⟩ := h
  cases c with
  | consumeCapacity client now =>
    obtain ⟨hsized, hacc⟩ := consumeCapacity_accounted manager hs client now
    have hacc := hacc hdry
    simp only [perform]
    generalize consumeCapacity manager s.limiter client now = r at hsized hacc ⊢
    obtain ⟨⟨enabled, result⟩, l'⟩ := r
    cases result with
    | error e =>
      have hfree : l'.free = s.limiter.free := hacc
      have hout : outstanding ⟨l', s.guards⟩ = s.outstanding := rfl
      exact ⟨hsized, by dsimp only; rw [hfree, hout]; exact hbalance⟩
    | ok guard =>
      have hfree : l'.free + 1 = s.limiter.free := hacc.2
      have hout : outstanding ⟨l', s.guards ++ [guard]⟩ = s.outstanding + 1 := by
        unfold outstanding
        rw [List.countP_append, List.countP_singleton, hacc.1]
        rfl
      exact ⟨hsized, by dsimp only [strands, Bool.toNat_false]; omega⟩
  | release i =>
    simp only [perform, strands]
    cases hi : s.guards[i]? with
    | none => exact ⟨hs, hbalance⟩
    | some guard =>
      obtain ⟨hsized, hacc⟩ := release_accounted hs guard
      rw [Option.any_some]
      rcases hr : release s.limiter guard with ⟨result, l', guard'⟩
      rw [hr] at hsized hacc
      dsimp only
      rw [hr]
      refine ⟨hsized, ?_⟩
      unfold outstanding at hbalance ⊢
      dsimp only
      rcases hacc with ⟨rfl, hfree, horphan⟩ | ⟨hout, hin, hfree⟩
      · obtain ⟨hlt, rfl⟩ := List.getElem?_eq_some_iff.1 hi
        rw [List.set_getElem_self, hfree, horphan]
        exact hbalance
      · have := countP_set_released hi hout hin
        dsimp only at this hfree
        omega
  | closeReservation client =>
    obtain ⟨hsized, hfree⟩ := closeReservation_accounted hs client (by omega)
    refine ⟨hsized, ?_⟩
    have hout : (s.perform manager (.closeReservation client)).outstanding = s.outstanding := rfl
    rw [hout, ← hbalance, ← hfree]
    rfl
  | served now => exact ⟨⟨hs.capacity, hs.shared, hs.committed⟩, hbalance⟩
  | setCongestionControl enabled => exact ⟨⟨hs.capacity, hs.shared, hs.committed⟩, hbalance⟩
  | setCongestionManager cm => exact ⟨⟨hs.capacity, hs.shared, hs.committed⟩, hbalance⟩

/-- A run keeps the balance. -/
theorem Session.balanced_performAll : ∀ (calls : List (Call C M)) {s : Session C M} {stranded : Nat},
    s.Balanced maxCapacity stranded → s.opensFilled manager calls = true →
      (s.performAll manager calls).Balanced maxCapacity (stranded + s.stranded manager calls)
  | [], _, _, h, _ => h
  | c :: cs, s, k, h, hfilled => by
    unfold opensFilled at hfilled
    rw [Bool.and_eq_true, Bool.not_eq_true'] at hfilled
    have hstep := balanced_perform manager h c hfilled.1
    have hrun := balanced_performAll cs hstep hfilled.2
    unfold Session.stranded
    rw [← Nat.add_assoc]
    exact hrun

/-- **The capacity is conserved**: in every run in which no reservation is opened on an exhausted queue the free units
of the shared queue and of the open reservations, the guards that are out and the guards that were released after their
client closed its reservation make up the capacity. -/
theorem capacity_conserved (maxCapacity capacityPerReservation : Nat) (cm : M) (calls : List (Call C M))
    (hfilled : (Session.start maxCapacity capacityPerReservation cm).opensFilled manager calls = true) :
    let s := (Session.start maxCapacity capacityPerReservation cm).performAll manager calls
    let stranded := (Session.start maxCapacity capacityPerReservation cm).stranded manager calls
    s.limiter.sharedCapacity.available + s.limiter.reserved + s.outstanding + stranded = maxCapacity ∧
      s.outstanding ≤ maxCapacity ∧
      ((∀ g ∈ s.guards, g.released = true) → s.limiter.reservationCount = 0 →
        s.limiter.sharedCapacity.available + stranded = maxCapacity) := by
  have h := (Session.balanced_performAll manager calls
    (Session.balanced_start maxCapacity capacityPerReservation cm) hfilled).balance
  rw [Nat.zero_add] at h
  unfold free at h
  refine ⟨h, ?_, fun hreleased hclosed => ?_⟩
  · omega
  · generalize (Session.start maxCapacity capacityPerReservation cm).performAll manager calls = s at h hreleased hclosed ⊢
    have hout : s.outstanding = 0 := by
      unfold Session.outstanding
      rw [List.countP_eq_zero]
      intro g hg
      rw [hreleased g hg]
      exact Bool.false_ne_true
    have hreserved : s.limiter.reserved = 0 := by
      unfold reserved FinMap.total
      rw [List.eq_nil_of_length_eq_zero hclosed]
      rfl
    omega

/-- A congestion manager that drops nothing. -/
def lenient : CongestionManager Nat Unit := ⟨fun _ _ _ => (), fun _ _ => (), fun _ _ => (false, ())⟩

/-- Two clients open reservations and one of them releases its guard. -/
theorem capacity_conserved_two_clients :
    (Session.start 4 2 ()).opensFilled lenient
        [.consumeCapacity 1 0, .consumeCapacity 2 0, .release 0, .closeReservation 1] = true ∧
      ((Session.start 4 2 ()).performAll lenient
        [.consumeCapacity 1 0, .consumeCapacity 2 0, .release 0, .closeReservation 1]).outstanding ≤ 4 :=
  ⟨by decide, (capacity_conserved lenient 4 2 ()
    [.consumeCapacity 1 0, .consumeCapacity 2 0, .release 0, .closeReservation 1] (by decide)).2.1⟩

/-- A client closes its reservation while its guard is out.  Once the guard is released nothing is out and nothing is
reserved, and the shared queue is empty. -/
theorem capacity_stranded :
    let s := (Session.start 1 1 ()).performAll lenient [.consumeCapacity 1 0, .closeReservation 1, .release 0]
    s.guards = [⟨.reservation 1, true⟩] ∧ s.limiter.reservationCount = 0 ∧
      s.limiter.sharedCapacity.available + s.limiter.reserved + s.outstanding ≠ 1 := by decide

end ElasticRateLimiter
end Pool
end Algod
