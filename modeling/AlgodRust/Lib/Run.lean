import Mathlib.Data.List.Forall2
import Mathlib.Order.Basic
/-!
# Run — fallible steps and their runs

A machine is a step function that takes a state and an event and either fails or returns the next state with the
outputs of the step.  `run` folds it over a list of events; `Path` is the relation between a state, the outputs
emitted so far and a state reached, for any step relation.  An invariant of the step is an invariant of every path
(`Path.invariant`).  `Logged` is for outputs that bear a time stamp: where every step logs between its clock readings,
so does a run, and no stamp occurs twice.
-/
namespace Run

variable {σ ε α π β γ : Type} {x : Except π β}

theorem bind_eq_ok {f : β → Except π γ} {c : γ} :
    (x >>= f) = .ok c ↔ ∃ b, x = .ok b ∧ f b = .ok c := by
  cases x with
  | error e =>
    constructor
    · intro h; cases h
    · rintro ⟨_, h, _⟩; cases h
  | ok b =>
    constructor
    · intro h; exact ⟨b, rfl, h⟩
    · rintro ⟨_, h, hf⟩; cases h; exact hf

@[simp] theorem ok_bind (b : β) (f : β → Except π γ) : ((.ok b : Except π β) >>= f) = f b := rfl

@[simp] theorem error_bind (e : π) (f : β → Except π γ) : ((.error e : Except π β) >>= f) = .error e := rfl

theorem map_eq_ok {f : β → γ} {c : γ} : x.map f = .ok c ↔ ∃ b, x = .ok b ∧ f b = c := by
  cases x with
  | error e =>
    constructor
    · intro h; cases h
    · rintro ⟨_, h, _⟩; cases h
  | ok b =>
    constructor
    · intro h; cases h; exact ⟨b, rfl, rfl⟩
    · rintro ⟨_, h, rfl⟩; cases h; rfl

theorem map_fst_eq_ok {x : Except π (β × γ)} {b : β} : x.map Prod.fst = .ok b ↔ ∃ c, x = .ok (b, c) := by
  cases x with
  | error e =>
    constructor
    · intro h; cases h
    · rintro ⟨_, h⟩; cases h
  | ok p =>
    constructor
    · intro h; cases h; exact ⟨p.2, rfl⟩
    · rintro ⟨c, h⟩; cases h; rfl

/-- A result that passes a test is a result. -/
theorem ok_of_any {P : β → Bool} (h : x.toOption.any P = true) : ∃ b, x = .ok b ∧ P b = true := by
  cases x with
  | error e => cases h
  | ok b => exact ⟨b, rfl, h⟩

/-- Every failure of a computation has a property. -/
def Raises (P : π → Prop) (x : Except π β) : Prop := ∀ e, x = .error e → P e

theorem Raises.ok {P : π → Prop} (b : β) : Raises P (.ok b) := fun _ h => by cases h

theorem Raises.error {P : π → Prop} {e : π} (h : P e) : Raises P (.error e : Except π β) := fun _ he => by
  cases he
  exact h

theorem Raises.bind {P : π → Prop} {f : β → Except π γ} (hx : Raises P x) (hf : ∀ b, Raises P (f b)) :
    Raises P (x >>= f) := by
  intro e h
  cases x with
  | error e' =>
    cases h
    exact hx _ rfl
  | ok b => exact hf b e h

theorem mapError_eq_ok {ρ : Type} {g : π → ρ} {b : β} : x.mapError g = .ok b ↔ x = .ok b := by
  cases x with
  | error e => exact ⟨fun h => (by cases h), fun h => (by cases h)⟩
  | ok c => exact ⟨fun h => by rw [Except.ok.inj h], fun h => by rw [Except.ok.inj h]; rfl⟩

theorem Raises.mapError {ρ : Type} {P : ρ → Prop} {g : π → ρ} (hx : Raises (fun e => P (g e)) x) :
    Raises P (x.mapError g) := by
  intro e h
  cases x with
  | error e' =>
    cases h
    exact hx _ rfl
  | ok b => cases h

/-! ## Fallible computations on a state that survives a failure -/

section State

variable {τ : Type}

theorem state_bind_eq_ok {x : EStateM π σ β} {f : β → EStateM π σ γ} {s s' : σ} {c : γ} :
    (x >>= f) s = .ok c s' ↔ ∃ b s₁, x s = .ok b s₁ ∧ f b s₁ = .ok c s' := by
  have hbind : (x >>= f) s = EStateM.bind x f s := rfl
  rw [hbind]
  unfold EStateM.bind
  cases x s with
  | error e s₁ =>
    constructor
    · intro h; cases h
    · rintro ⟨_, _, h, _⟩; cases h
  | ok b s₁ =>
    constructor
    · intro h; exact ⟨b, s₁, rfl, h⟩
    · rintro ⟨_, _, h, hf⟩; cases h; exact hf

theorem state_bind_eq_error {x : EStateM π σ β} {f : β → EStateM π σ γ} {s s' : σ} {e : π} :
    (x >>= f) s = .error e s' ↔ x s = .error e s' ∨ ∃ b s₁, x s = .ok b s₁ ∧ f b s₁ = .error e s' := by
  have hbind : (x >>= f) s = EStateM.bind x f s := rfl
  rw [hbind]
  unfold EStateM.bind
  cases x s with
  | error e₁ s₁ =>
    constructor
    · intro h; cases h; exact .inl rfl
    · rintro (h | ⟨_, _, h, _⟩) <;> cases h; rfl
  | ok b s₁ =>
    constructor
    · intro h; exact .inr ⟨b, s₁, rfl, h⟩
    · rintro (h | ⟨_, _, h, hf⟩) <;> cases h; exact hf

/-- A computation succeeded, in a state that passes a test. -/
def okAnd (P : σ → Bool) : EStateM.Result π σ β → Bool
  | .ok _ s => P s
  | .error _ _ => false

theorem ok_of_okAnd {r : EStateM.Result π σ β} {P : σ → Bool} (h : okAnd P r = true) : ∃ b s, r = .ok b s ∧ P s = true := by
  cases r with
  | ok b s => exact ⟨b, s, rfl, h⟩
  | error e s => cases h

/-- A computation failed, and left a state that passes a test. -/
def errorAnd (P : σ → Bool) : EStateM.Result π σ β → Bool
  | .ok _ _ => false
  | .error _ s => P s

theorem error_of_errorAnd {r : EStateM.Result π σ β} {P : σ → Bool} (h : errorAnd P r = true) :
    ∃ e s, r = .error e s ∧ P s = true := by
  cases r with
  | ok b s => cases h
  | error e s => exact ⟨e, s, rfl, h⟩

/-- Run a computation on a part of the state. -/
def zoom (get : σ → τ) (set : τ → σ → σ) (x : EStateM π τ β) : EStateM π σ β := fun s =>
  match x (get s) with
  | .ok b t => .ok b (set t s)
  | .error e t => .error e (set t s)

theorem zoom_eq_ok {get : σ → τ} {set : τ → σ → σ} {x : EStateM π τ β} {s s' : σ} {b : β} :
    zoom get set x s = .ok b s' ↔ ∃ t, x (get s) = .ok b t ∧ set t s = s' := by
  unfold zoom
  cases x (get s) with
  | error e t =>
    constructor
    · intro h; cases h
    · rintro ⟨_, h, _⟩; cases h
  | ok b t =>
    constructor
    · intro h; cases h; exact ⟨t, rfl, rfl⟩
    · rintro ⟨_, h, rfl⟩; cases h; rfl

theorem zoom_eq_error {get : σ → τ} {set : τ → σ → σ} {x : EStateM π τ β} {s s' : σ} {e : π}
    (h : zoom get set x s = .error e s') : ∃ t, set t s = s' := by
  unfold zoom at h
  cases hx : x (get s) with
  | error e₁ t => rw [hx] at h; cases h; exact ⟨t, rfl⟩
  | ok b t => rw [hx] at h; cases h

/-- Every success of a computation relates the state before it to the state after it. -/
def Respects (R : σ → σ → Prop) (x : EStateM π σ β) : Prop := ∀ s b s', x s = .ok b s' → R s s'

section Respects

variable {R : σ → σ → Prop}

theorem Respects.bind (htrans : ∀ s₁ s₂ s₃, R s₁ s₂ → R s₂ s₃ → R s₁ s₃) {x : EStateM π σ β} {f : β → EStateM π σ γ}
    (hx : Respects R x) (hf : ∀ b, Respects R (f b)) : Respects R (x >>= f) := by
  intro s c s' h
  obtain ⟨b, s₁, h₁, h₂⟩ := state_bind_eq_ok.1 h
  exact htrans _ _ _ (hx _ _ _ h₁) (hf b _ _ _ h₂)

theorem Respects.pure (hrefl : ∀ s, R s s) (b : β) : Respects R (Pure.pure b : EStateM π σ β) := by
  intro s c s' h
  cases h
  exact hrefl s

theorem Respects.throw (e : π) : Respects R (throw e : EStateM π σ β) := by
  intro s c s' h
  cases h

theorem Respects.modify {f : σ → σ} (hf : ∀ s, R s (f s)) : Respects R (modify f : EStateM π σ PUnit) := by
  intro s c s' h
  cases h
  exact hf s

/-- The state that is read is the state the rest starts from. -/
theorem Respects.get_bind {f : σ → EStateM π σ β} (hf : ∀ s b s', f s s = .ok b s' → R s s') :
    Respects R (get >>= f) := by
  intro s b s' h
  obtain ⟨s₀, s₁, hget, h⟩ := state_bind_eq_ok.1 h
  cases hget
  exact hf s b s' h

end Respects

/-! ## Steps that fail before they change anything -/

/-- The state a computation ends in, whether it succeeds or fails. -/
def final : EStateM.Result π σ β → σ
  | .ok _ s => s
  | .error _ s => s

/-- The outcome of a computation, with the state of a success only. -/
def outcome : EStateM.Result π σ β → Except π (σ × β)
  | .ok b s => .ok (s, b)
  | .error e _ => .error e

/-- A step that either changes the state or fails and leaves it as it was. -/
def atomic (f : σ → Except π (σ × β)) : EStateM π σ β := fun s =>
  match f s with
  | .ok p => .ok p.2 p.1
  | .error e => .error e s

theorem atomic_eq_ok {f : σ → Except π (σ × β)} {s s' : σ} {b : β} : atomic f s = .ok b s' ↔ f s = .ok (s', b) := by
  unfold atomic
  cases f s with
  | error e =>
    constructor
    · intro h; cases h
    · intro h; cases h
  | ok p =>
    constructor
    · intro h; cases h; rfl
    · intro h; cases h; rfl

theorem atomic_eq_error {f : σ → Except π (σ × β)} {s s' : σ} {e : π} (h : atomic f s = .error e s') : s' = s := by
  unfold atomic at h
  cases hf : f s with
  | error e' => rw [hf] at h; cases h; rfl
  | ok p => rw [hf] at h; cases h

theorem outcome_bind (x : EStateM π σ β) (f : β → EStateM π σ γ) (s : σ) :
    outcome ((x >>= f) s) = outcome (x s) >>= fun p => outcome (f p.2 p.1) := by
  have hbind : (x >>= f) s = EStateM.bind x f s := rfl
  rw [hbind]
  unfold EStateM.bind
  cases x s <;> rfl

/-- Every run of a computation, also one that fails, relates the state before it to the state it ends in. -/
def Confined (R : σ → σ → Prop) (x : EStateM π σ β) : Prop := ∀ s, R s (final (x s))

section Confined

variable {R : σ → σ → Prop} {x : EStateM π σ β}

theorem Confined.pure (hrefl : ∀ s, R s s) (b : β) : Confined R (Pure.pure b : EStateM π σ β) := hrefl

theorem Confined.bind (htrans : ∀ s₁ s₂ s₃, R s₁ s₂ → R s₂ s₃ → R s₁ s₃) {f : β → EStateM π σ γ}
    (hx : Confined R x) (hf : ∀ b, Confined R (f b)) : Confined R (x >>= f) := by
  intro s
  have hs := hx s
  have hbind : (x >>= f) s = EStateM.bind x f s := rfl
  rw [hbind]
  unfold EStateM.bind
  cases hxs : x s with
  | error e s₁ => rw [hxs] at hs; exact hs
  | ok b s₁ => rw [hxs] at hs; exact htrans _ _ _ hs (hf b s₁)

theorem Confined.atomic (hrefl : ∀ s, R s s) {f : σ → Except π (σ × β)} (hf : ∀ s p, f s = .ok p → R s p.1) :
    Confined R (atomic f) := by
  intro s
  unfold Run.atomic
  cases h : f s with
  | error e => exact hrefl s
  | ok p => exact hf s p h

theorem Confined.ite {p : Prop} [Decidable p] {x y : EStateM π σ β} (hx : Confined R x) (hy : Confined R y) :
    Confined R (if p then x else y) := by
  split
  · exact hx
  · exact hy

theorem Confined.foldlM (hrefl : ∀ s, R s s) (htrans : ∀ s₁ s₂ s₃, R s₁ s₂ → R s₂ s₃ → R s₁ s₃) {δ : Type}
    {f : β → δ → EStateM π σ β} : ∀ (ds : List δ) (b : β), (∀ d ∈ ds, ∀ b, Confined R (f b d)) →
      Confined R (ds.foldlM f b)
  | [], b, _ => Confined.pure hrefl b
  | d :: ds, b, hf => by
    rw [List.foldlM_cons]
    exact (hf d List.mem_cons_self b).bind htrans fun b' =>
      Confined.foldlM hrefl htrans ds b' fun d' hd' => hf d' (List.mem_cons_of_mem _ hd')

theorem Confined.ok (hx : Confined R x) {s s' : σ} {b : β} (h : x s = .ok b s') : R s s' := by
  have := hx s
  rw [h] at this
  exact this

theorem Confined.error (hx : Confined R x) {s s' : σ} {e : π} (h : x s = .error e s') : R s s' := by
  have := hx s
  rw [h] at this
  exact this

end Confined

/-- Every failure of a computation relates the state before it to the state it leaves. -/
def Breaks (R : σ → σ → Prop) (x : EStateM π σ β) : Prop := ∀ s e s', x s = .error e s' → R s s'

section Breaks

variable {R : σ → σ → Prop} {x : EStateM π σ β}

theorem Breaks.of_confined (hx : Confined R x) : Breaks R x := fun _ _ _ h => hx.error h

theorem Breaks.atomic (hrefl : ∀ s, R s s) (f : σ → Except π (σ × β)) : Breaks R (atomic f) := by
  intro s e s' h
  rw [atomic_eq_error h]
  exact hrefl s

theorem Breaks.bind (htrans : ∀ s₁ s₂ s₃, R s₁ s₂ → R s₂ s₃ → R s₁ s₃) {f : β → EStateM π σ γ}
    (hx : Confined R x) (hf : ∀ b, Breaks R (f b)) : Breaks R (x >>= f) := by
  intro s e s' h
  rcases state_bind_eq_error.1 h with h | ⟨b, s₁, h₁, h₂⟩
  · exact hx.error h
  · exact htrans _ _ _ (hx.ok h₁) (hf b _ _ _ h₂)

/-- What follows cannot fail. -/
theorem Breaks.bind_pure (hx : Breaks R x) (g : β → γ) : Breaks R (x >>= fun b => pure (g b)) := by
  intro s e s' h
  rcases state_bind_eq_error.1 h with h | ⟨b, s₁, _, h₂⟩
  · exact hx _ _ _ h
  · cases h₂

theorem Breaks.ite {p : Prop} [Decidable p] {x y : EStateM π σ β} (hx : Breaks R x) (hy : Breaks R y) :
    Breaks R (if p then x else y) := by
  split
  · exact hx
  · exact hy

end Breaks

/-! ## Invariants -/

/-- A success keeps the invariant and its value has a property; a failure is one of the allowed ones. -/
def Fine (I : σ → Prop) (allowed : π → Prop) (Q : β → Prop) : EStateM.Result π σ β → Prop
  | .ok b s => I s ∧ Q b
  | .error e _ => allowed e

/-- From every state with the invariant a computation goes well in this sense. -/
def Upholds (I : σ → Prop) (allowed : π → Prop) (x : EStateM π σ β) (Q : β → Prop) : Prop :=
  ∀ s, I s → Fine I allowed Q (x s)

section Upholds

variable {I : σ → Prop} {allowed : π → Prop} {Q : β → Prop} {x : EStateM π σ β}

theorem Upholds.bind {R : γ → Prop} {f : β → EStateM π σ γ} (hx : Upholds I allowed x Q)
    (hf : ∀ b, Q b → Upholds I allowed (f b) R) : Upholds I allowed (x >>= f) R := by
  intro s hs
  have hxs := hx s hs
  have hbind : (x >>= f) s = EStateM.bind x f s := rfl
  rw [hbind]
  unfold EStateM.bind
  cases hr : x s with
  | error e s₁ => rw [hr] at hxs; exact hxs
  | ok b s₁ => rw [hr] at hxs; exact hf b hxs.2 s₁ hxs.1

theorem Upholds.pure {b : β} (hb : Q b) : Upholds I allowed (Pure.pure b : EStateM π σ β) Q := fun _ hs => ⟨hs, hb⟩

theorem Upholds.throw {e : π} (he : allowed e) : Upholds I allowed (throw e : EStateM π σ β) Q := fun _ _ => he

/-- The state that is read is the state the rest starts from. -/
theorem Upholds.get_bind {f : σ → EStateM π σ β} (hf : ∀ s, I s → Fine I allowed Q (f s s)) :
    Upholds I allowed (get >>= f) Q := hf

theorem Upholds.modify {f : σ → σ} (hf : ∀ s, I s → I (f s)) :
    Upholds I allowed (modify f : EStateM π σ PUnit) (fun _ => True) := fun s hs => ⟨hf s hs, trivial⟩

theorem Upholds.mono {R : β → Prop} (hx : Upholds I allowed x Q) (h : ∀ b, Q b → R b) :
    Upholds I allowed x R := by
  intro s hs
  have hxs := hx s hs
  cases hr : x s with
  | error e s₁ => rw [hr] at hxs; exact hxs
  | ok b s₁ => rw [hr] at hxs; exact ⟨hxs.1, h b hxs.2⟩

theorem Upholds.ite {p : Prop} [Decidable p] {x y : EStateM π σ β} (hx : p → Upholds I allowed x Q)
    (hy : ¬p → Upholds I allowed y Q) : Upholds I allowed (if p then x else y) Q := by
  by_cases hp : p
  · rw [if_pos hp]; exact hx hp
  · rw [if_neg hp]; exact hy hp

theorem Upholds.zoom {J : τ → Prop} {get : σ → τ} {set : τ → σ → σ} {x : EStateM π τ β} (hx : Upholds J allowed x Q)
    (hget : ∀ s, I s → J (get s)) (hset : ∀ t s, J t → I s → I (set t s)) : Upholds I allowed (zoom get set x) Q := by
  intro s hs
  have hxs := hx (get s) (hget s hs)
  unfold Run.zoom
  cases hr : x (get s) with
  | error e t => rw [hr] at hxs; exact hxs
  | ok b t => rw [hr] at hxs; exact ⟨hset t s hxs.1 hs, hxs.2⟩

theorem Upholds.ok (hx : Upholds I allowed x Q) {s s' : σ} {b : β} (hs : I s) (h : x s = .ok b s') :
    I s' ∧ Q b := by
  have hxs := hx s hs
  rw [h] at hxs
  exact hxs

end Upholds

/-! ## Observers -/

/-- What is left of a result when the state of an observer is forgotten. -/
def erase : EStateM.Result π (σ × τ) β → EStateM.Result π σ β
  | .ok b s => .ok b s.1
  | .error e s => .error e s.1

/-- A computation beside which an observer runs is, seen without the observer, another computation. -/
def Erases (x : EStateM π (σ × τ) β) (y : EStateM π σ β) : Prop := ∀ s t, erase (x (s, t)) = y s

variable {x : EStateM π (σ × τ) β} {y : EStateM π σ β}

theorem Erases.bind {f : β → EStateM π (σ × τ) γ}
    {g : β → EStateM π σ γ} (hx : Erases x y) (hf : ∀ b, Erases (f b) (g b)) : Erases (x >>= f) (y >>= g) := by
  intro s t
  have hy : (y >>= g) s = EStateM.bind y g s := rfl
  have hxs : (x >>= f) (s, t) = EStateM.bind x f (s, t) := rfl
  rw [hy, hxs]
  unfold EStateM.bind
  rw [← hx s t]
  cases x (s, t) with
  | ok b p => exact hf b p.1 p.2
  | error e p => rfl

/-- A computation that does not know of the observer. -/
def beside (y : EStateM π σ β) : EStateM π (σ × τ) β := zoom Prod.fst (fun s p => (s, p.2)) y

theorem Erases.beside (y : EStateM π σ β) : Erases (beside y : EStateM π (σ × τ) β) y := by
  intro s t
  unfold Run.beside Run.zoom
  cases y s <;> rfl

/-- Tell the observer. -/
def observe (f : σ → τ → τ) : EStateM π (σ × τ) PUnit := modify (fun p => (p.1, f p.1 p.2))

theorem Erases.observe_bind (f : σ → τ → τ) (hx : Erases x y) :
    Erases (observe f >>= fun _ => x) y := by
  intro s t
  exact hx s (f s t)

theorem Erases.get_bind {f : σ × τ → EStateM π (σ × τ) β} {g : σ → EStateM π σ β} (hf : ∀ s t, Erases (f (s, t)) (g s)) :
    Erases (get >>= f) (get >>= g) := by
  intro s t
  exact hf s t s t

/-- Tell the observer of a failure. -/
def onFailure (f : π → σ → τ → τ) (x : EStateM π (σ × τ) β) : EStateM π (σ × τ) β := fun p =>
  match x p with
  | .ok b q => .ok b q
  | .error e q => .error e (q.1, f e q.1 q.2)

theorem Erases.onFailure (f : π → σ → τ → τ) (hx : Erases x y) :
    Erases (onFailure f x) y := by
  intro s t
  rw [← hx s t]
  unfold Run.onFailure
  cases x (s, t) <;> rfl

end State

variable {f : β → Except π γ}

/-- A fallible map over a list succeeds where it succeeds at every element. -/
theorem mapM_eq_ok : ∀ {as : List β} {bs : List γ},
    as.mapM f = .ok bs ↔ List.Forall₂ (fun a b => f a = .ok b) as bs
  | [], bs => by
    rw [List.mapM_nil, List.forall₂_nil_left_iff]
    constructor
    · intro h; cases h; rfl
    · rintro rfl; rfl
  | a :: as, bs => by
    rw [List.mapM_cons, bind_eq_ok]
    constructor
    · rintro ⟨b, hb, h⟩
      obtain ⟨bs', hbs, h⟩ := bind_eq_ok.1 h
      cases h
      exact .cons hb (mapM_eq_ok.1 hbs)
    · intro h
      cases h with
      | cons hb hbs => exact ⟨_, hb, bind_eq_ok.2 ⟨_, mapM_eq_ok.2 hbs, rfl⟩⟩

theorem mapM_ok {P : β → γ → Prop} : ∀ {as : List β}, (∀ a ∈ as, ∃ b, f a = .ok b ∧ P a b) →
    ∃ bs, as.mapM f = .ok bs ∧ List.Forall₂ P as bs
  | [], _ => ⟨[], rfl, .nil⟩
  | a :: as, h => by
    obtain ⟨b, hb, hP⟩ := h a List.mem_cons_self
    obtain ⟨bs, hbs, hall⟩ := mapM_ok (fun a' ha' => h a' (List.mem_cons_of_mem _ ha'))
    refine ⟨b :: bs, ?_, .cons hP hall⟩
    rw [List.mapM_cons, hb, ok_bind, hbs, ok_bind]
    rfl

theorem mapM_eq_map {g : β → γ} {as : List β} (h : ∀ a ∈ as, f a = .ok (g a)) :
    as.mapM f = .ok (as.map g) := by
  rw [mapM_eq_ok, List.forall₂_map_right_iff]
  exact List.forall₂_same.2 h

theorem forM_eq_ok {f : β → Except π PUnit} : ∀ {as : List β}, as.forM f = .ok () ↔ ∀ a ∈ as, f a = .ok ()
  | [] => ⟨fun _ _ h => (by cases h), fun _ => rfl⟩
  | a :: as => by
    rw [List.forM_eq_forM, List.forM_cons, bind_eq_ok, List.forall_mem_cons, ← forM_eq_ok, List.forM_eq_forM]
    exact ⟨fun ⟨_, ha, h⟩ => ⟨ha, h⟩, fun ⟨ha, h⟩ => ⟨(), ha, h⟩⟩

/-- The run of a step function over a list of events: it stops at the first failure. -/
def run (step : σ → ε → Except π (σ × List α)) : σ → List ε → Except π (σ × List α)
  | s, [] => .ok (s, [])
  | s, e :: es => do
    let r ← step s e
    let r' ← run step r.1 es
    return (r'.1, r.2 ++ r'.2)

variable {step : σ → ε → Except π (σ × List α)}

theorem run_cons_eq_ok {s : σ} {e : ε} {es : List ε} {c : σ × List α} :
    run step s (e :: es) = .ok c ↔
      ∃ s₁ as s₂ bs, step s e = .ok (s₁, as) ∧ run step s₁ es = .ok (s₂, bs) ∧ c = (s₂, as ++ bs) := by
  show (step s e >>= fun r => run step r.1 es >>= fun r' => .ok (r'.1, r.2 ++ r'.2)) = .ok c ↔ _
  constructor
  · intro h
    obtain ⟨⟨s₁, as⟩, h₁, h⟩ := bind_eq_ok.1 h
    obtain ⟨⟨s₂, bs⟩, h₂, h⟩ := bind_eq_ok.1 h
    cases h
    exact ⟨s₁, as, s₂, bs, h₁, h₂, rfl⟩
  · rintro ⟨s₁, as, s₂, bs, h₁, h₂, rfl⟩
    rw [h₁, ok_bind, h₂, ok_bind]

/-- The states reachable from `s` by the steps of a relation, with everything emitted on the way. -/
inductive Path (R : σ → ε → σ → List α → Prop) (s : σ) : List α → σ → Prop
  | nil : Path R s [] s
  | snoc {tr as : List α} {s₁ s₂ : σ} {e : ε} : Path R s tr s₁ → R s₁ e s₂ as → Path R s (tr ++ as) s₂

variable {R : σ → ε → σ → List α → Prop}

/-- **An invariant of every step holds along every path.** -/
theorem Path.invariant {s s' : σ} {tr : List α} (Inv : List α → σ → Prop)
    (h₀ : Inv [] s) (hstep : ∀ tr s₁ e s₂ as, Inv tr s₁ → R s₁ e s₂ as → Inv (tr ++ as) s₂)
    (h : Path R s tr s') : Inv tr s' := by
  induction h with
  | nil => exact h₀
  | snoc _ hs ih => exact hstep _ _ _ _ _ ih hs

theorem Path.append {s s₁ s₂ : σ} {tr tr' : List α} (h : Path R s tr s₁)
    (h' : Path R s₁ tr' s₂) : Path R s (tr ++ tr') s₂ := by
  induction h' with
  | nil =>
    rw [List.append_nil]
    exact h
  | snoc _ hs ih =>
    rw [← List.append_assoc]
    exact ih.snoc hs

theorem Path.mono {R R' : σ → ε → σ → List α → Prop} (hR : ∀ s e s' as, R s e s' as → R' s e s' as) {s s' : σ}
    {tr : List α} (h : Path R s tr s') : Path R' s tr s' := by
  induction h with
  | nil => exact .nil
  | snoc _ hs ih => exact ih.snoc (hR _ _ _ _ hs)

/-- A run of a step function on events that the relation allows is a path of the relation. -/
theorem Path.of_run {P : ε → Prop} (hR : ∀ s e s' as, P e → step s e = .ok (s', as) → R s e s' as) :
    ∀ {es : List ε} {s s' : σ} {tr : List α}, (∀ e ∈ es, P e) → run step s es = .ok (s', tr) → Path R s tr s'
  | [], _, _, _, _, h => by
    cases h
    exact .nil
  | e :: es, s, _, _, hP, h => by
    obtain ⟨s₁, as, s₂, bs, h₁, h₂, hc⟩ := run_cons_eq_ok.1 h
    cases hc
    have hfirst : Path R s ([] ++ as) s₁ := .snoc .nil (hR _ _ _ _ (hP e List.mem_cons_self) h₁)
    exact hfirst.append (Path.of_run hR (fun e' he' => hP e' (List.mem_cons_of_mem _ he')) h₂)

/-! ## Logs between two readings of a clock -/

section Log

variable {τ : Type} [Preorder τ] {stamp : α → τ} {lo mid hi : τ}

/-- The entries of a log, in order, are stamped from `lo` on and before `hi`, each after the one before it. -/
structure Logged (stamp : α → τ) (lo : τ) (log : List α) (hi : τ) : Prop where
  le : lo ≤ hi
  within : ∀ a ∈ log, lo ≤ stamp a ∧ stamp a < hi
  sorted : log.Pairwise (fun a b => stamp a < stamp b)

theorem Logged.nil (h : lo ≤ hi) : Logged stamp lo [] hi :=
  ⟨h, fun _ ha => absurd ha List.not_mem_nil, .nil⟩

theorem Logged.single {a : α} (h : lo ≤ stamp a) (h' : stamp a < hi) : Logged stamp lo [a] hi := by
  refine ⟨le_of_lt (lt_of_le_of_lt h h'), fun b hb => ?_, List.pairwise_singleton _ _⟩
  rw [List.mem_singleton] at hb
  subst hb
  exact ⟨h, h'⟩

theorem Logged.append {log log' : List α} (h : Logged stamp lo log mid) (h' : Logged stamp mid log' hi) :
    Logged stamp lo (log ++ log') hi where
  le := le_trans h.le h'.le
  within a ha := by
    rcases List.mem_append.1 ha with ha | ha
    · exact ⟨(h.within a ha).1, lt_of_lt_of_le (h.within a ha).2 h'.le⟩
    · exact ⟨le_trans h.le (h'.within a ha).1, (h'.within a ha).2⟩
  sorted := by
    rw [List.pairwise_append]
    exact ⟨h.sorted, h'.sorted, fun a ha b hb => lt_of_lt_of_le (h.within a ha).2 (h'.within b hb).1⟩

theorem Logged.filter {log : List α} (h : Logged stamp lo log hi) (f : α → Bool) : Logged stamp lo (log.filter f) hi :=
  ⟨h.le, fun a ha => h.within a (List.mem_of_mem_filter ha), h.sorted.filter f⟩

/-- **Two entries of a log with the same stamp are one.** -/
theorem Logged.eq_of_stamp_eq {log : List α} (h : Logged stamp lo log hi) {a b : α} (ha : a ∈ log) (hb : b ∈ log)
    (hab : stamp a = stamp b) : a = b := by
  have key : ∀ {l : List α}, l.Pairwise (fun a b => stamp a < stamp b) → a ∈ l → b ∈ l → a = b := by
    intro l hl
    induction hl with
    | nil => intro hm; cases hm
    | cons hx _ ih =>
      intro hma hmb
      rcases List.mem_cons.1 hma with hxa | hta
      · rcases List.mem_cons.1 hmb with hxb | htb
        · rw [hxa, hxb]
        · subst hxa
          exact absurd hab (ne_of_lt (hx b htb))
      · rcases List.mem_cons.1 hmb with hxb | htb
        · subst hxb
          exact absurd hab.symm (ne_of_lt (hx a hta))
        · exact ih hta htb
  exact key h.sorted ha hb

end Log

end Run
