import Mathlib.Data.List.Basic
import Mathlib.Algebra.GroupWithZero.Nat
/-!
# HeadTail — records of a head and tails

The head of a record holds its parts one after another: a part of known size in line, any other one as an offset of fixed
width.  The parts behind the offsets follow the head, in order.  A reader that knows the sizes finds the parts again
(`read_write`), and it finds them in other inputs too: an offset only has to lie before the next one.  Among these the
input that was written is the one whose first tail starts where the head ends (`write_eq_iff`), since then no byte is left
out and none is read twice.
-/
namespace HeadTail

variable {α : Type} {data : List α} {slots : List Slot}

/-- How an offset is written. -/
structure Offsets (α : Type) where
  width : Nat
  bound : Nat
  put : Nat → List α
  get : List α → Nat
  length_put : ∀ n, (put n).length = width
  get_put : ∀ n < bound, get (put n) = n
  put_get : ∀ bs, bs.length = width → put (get bs) = bs
  get_lt : ∀ bs, bs.length = width → get bs < bound

inductive Slot
  | inline (size : Nat)
  | pointed
deriving DecidableEq, Repr

inductive Piece (α β : Type)
  | inline (bs : List α)
  | pointed (b : β)
deriving DecidableEq, Repr

/-- A part of a record, with its bytes. -/
abbrev Part (α : Type) := Piece α (List α)

/-- What a reader finds in the head: bytes or an offset. -/
abbrev Entry (α : Type) := Piece α Nat

def Piece.slot {β : Type} : Piece α β → Slot
  | .inline bs => .inline bs.length
  | .pointed _ => .pointed

def Part.content : Part α → List α
  | .inline bs => bs
  | .pointed bs => bs

variable (O : Offsets α)

def Slot.size : Slot → Nat
  | .inline size => size
  | .pointed => O.width

def headLen (slots : List Slot) : Nat := (slots.map (Slot.size O)).sum

/-! ## Writing -/

/-- The head, where the first tail starts at an offset. -/
def heads : Nat → List (Part α) → List α
  | _, [] => []
  | off, .inline bs :: ps => bs ++ heads off ps
  | off, .pointed bs :: ps => O.put off ++ heads (off + bs.length) ps

def tails : List (Part α) → List α
  | [] => []
  | .inline _ :: ps => tails ps
  | .pointed bs :: ps => bs ++ tails ps

def write (ps : List (Part α)) : List α := heads O (headLen O (ps.map Piece.slot)) ps ++ tails ps

/-- Every offset can be written. -/
def Fits : Nat → List (Part α) → Prop
  | _, [] => True
  | off, .inline _ :: ps => Fits off ps
  | off, .pointed bs :: ps => off < O.bound ∧ Fits (off + bs.length) ps

/-! ## Reading -/

def scan : List Slot → List α → Option (List (Entry α) × List α)
  | [], data => some ([], data)
  | .inline size :: slots, data =>
    if size ≤ data.length then (scan slots (data.drop size)).map (fun p => (.inline (data.take size) :: p.1, p.2)) else none
  | .pointed :: slots, data =>
    if O.width ≤ data.length then
      (scan slots (data.drop O.width)).map (fun p => (.pointed (O.get (data.take O.width)) :: p.1, p.2))
    else none

/-- Where the first tail of some entries starts; without one, where the input ends. -/
def nextOffset (total : Nat) : List (Entry α) → Nat
  | [] => total
  | .inline _ :: es => nextOffset total es
  | .pointed start :: _ => start

def resolve (data : List α) : List (Entry α) → Option (List (Part α))
  | [] => some []
  | .inline bs :: es => (resolve data es).map (.inline bs :: ·)
  | .pointed start :: es =>
    let stop := nextOffset data.length es
    if start > stop ∨ stop > data.length then none
    else (resolve data es).map (.pointed ((data.drop start).take (stop - start)) :: ·)

def read (slots : List Slot) (data : List α) : Option (List (Part α)) :=
  (scan O slots data).bind (fun p => resolve data p.1)

/-- Where the first tail of an input starts, by the first offset of its head. -/
def tailStart (total : Nat) : List Slot → List α → Nat
  | [], _ => total
  | .inline size :: slots, data => tailStart total slots (data.drop size)
  | .pointed :: _, data => O.get (data.take O.width)

/-- The first tail starts where the head ends. -/
def Tight (slots : List Slot) (data : List α) : Prop := tailStart O data.length slots data = headLen O slots

instance (slots : List Slot) (data : List α) : Decidable (Tight O slots data) := inferInstanceAs (Decidable (_ = _))

/-! ## What was written is read -/

variable {O}

@[simp] theorem headLen_cons (slot : Slot) (slots : List Slot) :
    headLen O (slot :: slots) = slot.size O + headLen O slots := by
  unfold headLen
  rw [List.map_cons, List.sum_cons]

theorem length_heads : ∀ (off : Nat) (ps : List (Part α)), (heads O off ps).length = headLen O (ps.map Piece.slot)
  | _, [] => rfl
  | off, .inline bs :: ps => by
    rw [heads, List.length_append, length_heads off ps, List.map_cons, headLen_cons]
    rfl
  | off, .pointed bs :: ps => by
    rw [heads, List.length_append, length_heads _ ps, List.map_cons, headLen_cons, O.length_put]
    rfl

/-- The entries of written parts. -/
def entries : Nat → List (Part α) → List (Entry α)
  | _, [] => []
  | off, .inline bs :: ps => .inline bs :: entries off ps
  | off, .pointed bs :: ps => .pointed off :: entries (off + bs.length) ps

theorem scan_heads : ∀ {off : Nat} {ps : List (Part α)} (rest : List α), Fits O off ps →
    scan O (ps.map Piece.slot) (heads O off ps ++ rest) = some (entries off ps, rest)
  | _, [], _, _ => rfl
  | off, .inline bs :: ps, rest, h => by
    have ih := scan_heads rest (show Fits O off ps from h)
    rw [List.map_cons, heads, List.append_assoc, Piece.slot, scan, if_pos (by rw [List.length_append]; omega),
      List.drop_left, List.take_left, ih]
    rfl
  | off, .pointed bs :: ps, rest, h => by
    obtain ⟨hoff, h⟩ := h
    have ih := scan_heads rest h
    have hwidth := O.length_put off
    rw [List.map_cons, heads, List.append_assoc, Piece.slot, scan,
      if_pos (by rw [List.length_append, hwidth]; omega), List.drop_left' hwidth, List.take_left' hwidth, ih,
      O.get_put off hoff]
    rfl

/-- The tails follow each other. -/
theorem nextOffset_entries : ∀ {off : Nat} {ps : List (Part α)} {total : Nat}, total = off + (tails ps).length →
    nextOffset total (entries off ps) = off
  | _, [], _, h => h
  | off, .inline _ :: ps, total, h => @nextOffset_entries off ps total h
  | _, .pointed _ :: _, _, _ => rfl

theorem resolve_entries (data : List α) : ∀ {off : Nat} {ps : List (Part α)}, off ≤ data.length →
    data.drop off = tails ps → resolve data (entries off ps) = some ps
  | _, [], _, _ => rfl
  | off, .inline bs :: ps, hle, h => by
    rw [entries, resolve, resolve_entries data hle (show data.drop off = tails ps from h)]
    rfl
  | off, .pointed bs :: ps, hle, h => by
    rw [tails] at h
    have hlen := congrArg List.length h
    rw [List.length_drop, List.length_append] at hlen
    have hdrop : data.drop (off + bs.length) = tails ps := by
      rw [← List.drop_drop, h, List.drop_left]
    have hnext : nextOffset data.length (entries (off + bs.length) ps) = off + bs.length :=
      nextOffset_entries (by omega)
    have hgood : ¬ (off > off + bs.length ∨ off + bs.length > data.length) := by omega
    rw [entries, resolve]
    simp only [hnext]
    rw [if_neg hgood, resolve_entries data (by omega) hdrop, h, Nat.add_sub_cancel_left, List.take_left]
    rfl

/-- **Parts are read back from what was written.** -/
theorem read_write {ps : List (Part α)} (h : Fits O (headLen O (ps.map Piece.slot)) ps) :
    read O (ps.map Piece.slot) (write O ps) = some ps := by
  have hlen := length_heads (O := O) (headLen O (ps.map Piece.slot)) ps
  unfold read write
  rw [scan_heads _ h, Option.bind_some]
  refine resolve_entries _ ?_ ?_
  · rw [List.length_append]
    omega
  · exact List.drop_left' hlen

/-! ## What is read was written -/

/-- The head that some entries were found in. -/
def entryBytes (O : Offsets α) : List (Entry α) → List α
  | [] => []
  | .inline bs :: es => bs ++ entryBytes O es
  | .pointed start :: es => O.put start ++ entryBytes O es

/-- Every offset is one that can be written. -/
def Bounded (O : Offsets α) : List (Entry α) → Prop
  | [] => True
  | .inline _ :: es => Bounded O es
  | .pointed start :: es => start < O.bound ∧ Bounded O es

theorem scan_eq_some : ∀ {slots : List Slot} {data rest : List α} {es : List (Entry α)},
    scan O slots data = some (es, rest) → data = entryBytes O es ++ rest ∧ (entryBytes O es).length = headLen O slots ∧
      Bounded O es ∧ ∀ total, nextOffset total es = tailStart O total slots data
  | [], data, rest, es, h => by
    cases h
    exact ⟨rfl, rfl, trivial, fun _ => rfl⟩
  | .inline size :: slots, data, rest, es, h => by
    rw [scan] at h
    split at h
    · rename_i hle
      obtain ⟨⟨es', rest'⟩, hscan, heq⟩ := Option.map_eq_some_iff.1 h
      cases heq
      obtain ⟨hdata, hlen, hbound, hnext⟩ := scan_eq_some hscan
      refine ⟨?_, ?_, hbound, hnext⟩
      · rw [entryBytes, List.append_assoc, ← hdata, List.take_append_drop]
      · rw [entryBytes, List.length_append, hlen, List.length_take, Nat.min_eq_left hle, headLen_cons]
        rfl
    · cases h
  | .pointed :: slots, data, rest, es, h => by
    rw [scan] at h
    split at h
    · rename_i hle
      obtain ⟨⟨es', rest'⟩, hscan, heq⟩ := Option.map_eq_some_iff.1 h
      cases heq
      obtain ⟨hdata, hlen, hbound, hnext⟩ := scan_eq_some hscan
      have hwidth : (data.take O.width).length = O.width := by rw [List.length_take, Nat.min_eq_left hle]
      refine ⟨?_, ?_, ⟨O.get_lt _ hwidth, hbound⟩, fun _ => rfl⟩
      · rw [entryBytes, O.put_get _ hwidth, List.append_assoc, ← hdata, List.take_append_drop]
      · rw [entryBytes, List.length_append, hlen, O.length_put, headLen_cons]
        rfl
    · cases h

/-- The parts of some entries, with the tails from the first offset to the end of the input. -/
theorem resolve_eq_some : ∀ {es : List (Entry α)} {ps : List (Part α)}, resolve data es = some ps →
    Bounded O es → nextOffset data.length es ≤ data.length ∧ tails ps = data.drop (nextOffset data.length es) ∧
      Fits O (nextOffset data.length es) ps ∧ heads O (nextOffset data.length es) ps = entryBytes O es
  | [], ps, h, _ => by
    cases h
    exact ⟨Nat.le_refl _, List.drop_length.symm, trivial, rfl⟩
  | .inline bs :: es, ps, h, hbound => by
    obtain ⟨ps', hps, rfl⟩ := Option.map_eq_some_iff.1 h
    obtain ⟨hle, htails, hfits, hheads⟩ := resolve_eq_some hps hbound
    refine ⟨hle, htails, hfits, ?_⟩
    rw [heads, entryBytes, ← hheads]
    rfl
  | .pointed start :: es, ps, h, ⟨hstart, hbound⟩ => by
    rw [resolve] at h
    split at h
    · cases h
    · rename_i hgood
      obtain ⟨ps', hps, rfl⟩ := Option.map_eq_some_iff.1 h
      obtain ⟨hle, htails, hfits, hheads⟩ := resolve_eq_some hps hbound
      generalize nextOffset data.length es = stop at *
      have hlen : ((data.drop start).take (stop - start)).length = stop - start := by
        rw [List.length_take, List.length_drop]
        omega
      have hstop : start + (stop - start) = stop := by omega
      refine ⟨?_, ?_, ⟨hstart, ?_⟩, ?_⟩
      · show start ≤ data.length
        omega
      · show _ ++ tails ps' = data.drop start
        have hcut := List.take_append_drop (stop - start) (data.drop start)
        rwa [List.drop_drop, hstop, ← htails] at hcut
      · rw [hlen, nextOffset, hstop]
        exact hfits
      · rw [heads, entryBytes, hlen, nextOffset, hstop, hheads]

theorem slot_of_scan : ∀ {slots : List Slot} {data rest : List α} {es : List (Entry α)} (whole : List α)
    {ps : List (Part α)}, scan O slots data = some (es, rest) → resolve whole es = some ps → ps.map Piece.slot = slots
  | [], data, rest, es, whole, ps, h, h' => by
    cases h
    cases h'
    rfl
  | .inline size :: slots, data, rest, es, whole, ps, h, h' => by
    rw [scan] at h
    split at h
    · rename_i hle
      obtain ⟨⟨es', rest'⟩, hscan, heq⟩ := Option.map_eq_some_iff.1 h
      cases heq
      obtain ⟨ps', hps, rfl⟩ := Option.map_eq_some_iff.1 h'
      rw [List.map_cons, slot_of_scan whole hscan hps, Piece.slot, List.length_take, Nat.min_eq_left hle]
    · cases h
  | .pointed :: slots, data, rest, es, whole, ps, h, h' => by
    rw [scan] at h
    split at h
    · obtain ⟨⟨es', rest'⟩, hscan, heq⟩ := Option.map_eq_some_iff.1 h
      cases heq
      rw [resolve] at h'
      split at h'
      · cases h'
      · obtain ⟨ps', hps, rfl⟩ := Option.map_eq_some_iff.1 h'
        rw [List.map_cons, slot_of_scan whole hscan hps]
        rfl
    · cases h

theorem slot_of_read {ps : List (Part α)} (h : read O slots data = some ps) :
    ps.map Piece.slot = slots := by
  obtain ⟨⟨es, rest⟩, hscan, hps⟩ := Option.bind_eq_some_iff.1 h
  exact slot_of_scan data hscan hps

/-- No part is longer than the input that it was found in. -/
theorem length_content_of_scan : ∀ {slots : List Slot} {data rest whole : List α} {es : List (Entry α)} {ps : List (Part α)},
    scan O slots data = some (es, rest) → data.length ≤ whole.length → resolve whole es = some ps →
      ∀ p ∈ ps, (Part.content p).length ≤ whole.length
  | [], data, rest, whole, es, ps, h, _, h' => by
    cases h
    cases h'
    exact fun _ hp => (by cases hp)
  | .inline size :: slots, data, rest, whole, es, ps, h, hle, h' => by
    rw [scan] at h
    split at h
    · obtain ⟨⟨es', rest'⟩, hscan, heq⟩ := Option.map_eq_some_iff.1 h
      cases heq
      obtain ⟨ps', hps, rfl⟩ := Option.map_eq_some_iff.1 h'
      intro p hp
      rcases List.mem_cons.1 hp with rfl | hp
      · show (data.take size).length ≤ _
        rw [List.length_take]
        omega
      · exact length_content_of_scan hscan (by rw [List.length_drop]; omega) hps p hp
    · cases h
  | .pointed :: slots, data, rest, whole, es, ps, h, hle, h' => by
    rw [scan] at h
    split at h
    · obtain ⟨⟨es', rest'⟩, hscan, heq⟩ := Option.map_eq_some_iff.1 h
      cases heq
      rw [resolve] at h'
      split at h'
      · cases h'
      · obtain ⟨ps', hps, rfl⟩ := Option.map_eq_some_iff.1 h'
        intro p hp
        rcases List.mem_cons.1 hp with rfl | hp
        · show ((whole.drop _).take _).length ≤ _
          rw [List.length_take, List.length_drop]
          omega
        · exact length_content_of_scan hscan (by rw [List.length_drop]; omega) hps p hp
    · cases h

theorem length_content_le {ps : List (Part α)} (h : read O slots data = some ps)
    {p : Part α} (hp : p ∈ ps) : (Part.content p).length ≤ data.length := by
  obtain ⟨⟨es, rest⟩, hscan, hps⟩ := Option.bind_eq_some_iff.1 h
  exact length_content_of_scan hscan (Nat.le_refl _) hps p hp

/-- **Of the inputs with some parts, the tight one is the one that was written.** -/
theorem write_eq_iff {ps : List (Part α)} (h : read O slots data = some ps) :
    (Fits O (headLen O slots) ps ∧ write O ps = data) ↔ Tight O slots data := by
  have hslots := slot_of_read h
  obtain ⟨⟨es, rest⟩, hscan, hps⟩ := Option.bind_eq_some_iff.1 h
  obtain ⟨hdata, hlen, hbound, hnext⟩ := scan_eq_some hscan
  unfold Tight
  rw [← hnext]
  constructor
  · rintro ⟨hfits, hwrite⟩
    unfold write at hwrite
    rw [hslots] at hwrite
    have hscan' := scan_heads (tails ps) hfits
    rw [hwrite, hslots, hscan] at hscan'
    obtain ⟨rfl, rfl⟩ := Prod.mk.inj (Option.some.inj hscan')
    have hheads := length_heads (O := O) (headLen O slots) ps
    rw [hslots] at hheads
    refine nextOffset_entries ?_
    rw [← hwrite, List.length_append, hheads]
  · intro htight
    obtain ⟨-, htails, hfits, hheads⟩ := resolve_eq_some hps hbound
    rw [htight] at htails hfits hheads
    refine ⟨hfits, ?_⟩
    unfold write
    rw [hslots, hheads, htails]
    conv_lhs => rw [hdata]
    rw [List.drop_left' hlen]
    exact hdata.symm

end HeadTail
