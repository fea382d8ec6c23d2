import Mathlib.Data.List.Basic
import Mathlib.Algebra.Group.Nat.Defs
/-!
# Numeral — numbers in a text

A text is a list of characters.  A number in it is read digit by digit in a radix, with the largest value of its type as
the bound.
-/
namespace Numeral

abbrev Str := List Char

def digitOf (radix : Nat) (c : Char) : Option Nat :=
  let n := c.toNat
  let d := if 0x30 ≤ n ∧ n ≤ 0x39 then n - 0x30
    else if 0x61 ≤ n ∧ n ≤ 0x7a then n - 0x61 + 10
    else if 0x41 ≤ n ∧ n ≤ 0x5a then n - 0x41 + 10
    else radix
  if d < radix then some d else none

def digitsFrom (radix : Nat) : Nat → Str → Option Nat
  | value, [] => some value
  | value, c :: s => (digitOf radix c).bind fun d => digitsFrom radix (value * radix + d) s

/-- A number without a sign, in front of which a plus may stand. -/
def magnitude (radix : Nat) (s : Str) : Option Nat :=
  let digits := match s with
    | '+' :: digits => digits
    | digits => digits
  if digits.isEmpty then none else digitsFrom radix 0 digits

/-- `from_str_radix` of an unsigned type with a largest value. -/
def fromStrRadix (radix largest : Nat) (s : Str) : Option Nat := (magnitude radix s).filter (· ≤ largest)

def u64Max : Nat := 2 ^ 64 - 1

end Numeral
