import Mathlib.Data.List.Basic
/-!
# Reader — sequential readers of a list, and what they read

A reader takes a value off the front of a list or fails.  `Reads r x a` says that `r` reads `a` off any list that starts
with `x` and takes exactly `x`; `AtMost r n` that `r` never takes more than `n` elements.  Both compose along binds, so
that what a format writes in order is read back in order.
-/
namespace Reading

variable {σ ε α β γ : Type} {x : List σ}

abbrev Reader (σ ε α : Type) := StateT (List σ) (Except ε) α

def Reads (r : Reader σ ε α) (x : List σ) (a : α) : Prop := ∀ rest, r (x ++ rest) = .ok (a, rest)

/-! ## Composition -/

theorem Reads.pure (a : α) : Reads (Pure.pure a : Reader σ ε α) [] a := fun _ => rfl

theorem Reads.pure_of_eq {a b : α} (h : a = b) : Reads (Pure.pure a : Reader σ ε α) [] b := h ▸ .pure a

theorem bind_apply (r : Reader σ ε α) (f : α → Reader σ ε β) (s : List σ) :
    (r >>= f) s = r s >>= fun p => f p.1 p.2 := rfl

theorem Reads.bind {r : Reader σ ε α} {f : α → Reader σ ε β} {x y : List σ} {a : α} {b : β} (hr : Reads r x a)
    (hf : Reads (f a) y b) : Reads (r >>= f) (x ++ y) b := by
  intro rest
  rw [List.append_assoc, bind_apply, hr]
  exact hf rest

/-- The last of a sequence of readers only computes a result. -/
theorem Reads.bind_pure {r : Reader σ ε α} {f : α → Reader σ ε β} {a : α} {b : β} (hr : Reads r x a)
    (hf : Reads (f a) [] b) : Reads (r >>= f) x b := by
  have h := hr.bind hf
  rwa [List.append_nil] at h

/-- A value read off the whole of a list. -/
theorem Reads.whole {r : Reader σ ε α} {a : α} (h : Reads r x a) : r x = .ok (a, []) := by
  have := h []
  rwa [List.append_nil] at this

/-- What is read off a list is one value. -/
theorem Reads.inj {r : Reader σ ε α} {a b : α} (h : Reads r x a) (h' : Reads r x b) : a = b := by
  have hwhole := h.whole
  rw [h'.whole] at hwhole
  cases hwhole
  rfl

/-! ## Parts of a fixed length -/

/-- The first elements, as many as are asked for. -/
def takeN (n : Nat) (short : ε) : Reader σ ε (List σ) := fun s =>
  if s.length < n then .error short else .ok (s.take n, s.drop n)

theorem takeN_reads {n : Nat} (short : ε) (h : x.length = n) : Reads (takeN n short) x x := by
  intro rest
  have hlen : ¬ (x ++ rest).length < n := by
    rw [List.length_append]
    omega
  unfold takeN
  rw [if_neg hlen, List.take_left' h, List.drop_left' h]

/-! ## Repetition -/

/-- A reader that updates an accumulator, a number of times. -/
def times (r : α → Reader σ ε α) : Nat → α → Reader σ ε α
  | 0, a => Pure.pure a
  | n + 1, a => r a >>= times r n

/-- What was written part by part is read part by part. -/
theorem times_reads {r : α → Reader σ ε α} {write : γ → List σ} {update : α → γ → α} :
    ∀ {cs : List γ} (a : α), (∀ c ∈ cs, ∀ a, Reads (r a) (write c) (update a c)) →
      Reads (times r cs.length a) (cs.flatMap write) (cs.foldl update a)
  | [], a, _ => .pure a
  | c :: cs, a, h => by
    rw [List.flatMap_cons]
    exact (h c List.mem_cons_self a).bind (times_reads _ (fun c' hc' => h c' (List.mem_cons_of_mem _ hc')))

theorem times_add (r : α → Reader σ ε α) : ∀ (m n : Nat) (a : α), times r (m + n) a = times r m a >>= times r n
  | 0, n, a => by
    rw [Nat.zero_add]
    rfl
  | m + 1, n, a => by
    rw [Nat.succ_add]
    show r a >>= times r (m + n) = (r a >>= times r m) >>= times r n
    rw [bind_assoc]
    congr
    funext b
    exact times_add r m n b

/-- Two runs of repetitions, one after the other. -/
theorem Reads.times_add {r : α → Reader σ ε α} {m n : Nat} {x y : List σ} {a b c : α} (h : Reads (times r m a) x b)
    (h' : Reads (times r n b) y c) : Reads (times r (m + n) a) (x ++ y) c := by
  rw [Reading.times_add]
  exact h.bind h'

end Reading
