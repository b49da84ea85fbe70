import Scanout.Decimal.Binary

/-!
# Shortest decimal digits

The fewest decimal digits from which the same floating-point number is read back, and of those the
nearest to it. A decimal is read back if it lies between the midpoints to the neighbouring
floating-point numbers; the midpoints themselves count for an even mantissa. For each number of
digits only the two decimals next to the value need a look. Where both are equally near, the caller
says which one is taken.
-/

namespace Scanout.Decimal

structure Scientific where
  digits : Nat
  exponent : Int
  deriving DecidableEq, Repr

namespace Scientific

/-- The same number with no zeros at the end of its digits, looking at no more than `fuel`. -/
def trim : (fuel : Nat) → Scientific → Scientific
  | 0, s => s
  | fuel + 1, s =>
    if s.digits ≠ 0 ∧ s.digits % 10 = 0 then trim fuel ⟨s.digits / 10, s.exponent + 1⟩ else s

end Scientific

def powerOfTen (e : Int) : Nat × Nat := (Nat.pow 10 e.toNat, Nat.pow 10 (-e).toNat)

def digitCount (n : Nat) : Nat := (Nat.toDigits 10 n).length

/-- The exponent of the leading decimal digit of `num / den`, for positive numbers. A quotient below
one is scaled up first. -/
def leadingExponent (num den : Nat) : Int :=
  let shift := if num < den then digitCount (den / num) else 0
  (digitCount (num * (powerOfTen shift).1 / den) : Int) - 1 - shift

/-- The decimals with last digit at `10 ^ exponent` next to `num / den`, the lower one in front. -/
def neighbours (num den : Nat) (exponent : Int) : Nat × Nat :=
  let (up, down) := powerOfTen exponent
  let low := num * down / (den * up)
  (low, low + 1)

def readsBack (b : Binary) (digits : Nat) (exponent : Int) : Bool :=
  let (up, down) := Binary.powerOfTwo b.exponent
  let (tensUp, tensDown) := powerOfTen exponent
  -- Everything is compared in quarters of the distance to the number above.
  let decimal := 4 * digits * tensUp * down
  let scale := up * tensDown
  let lower := (4 * b.mantissa - if b.narrowBelow then 1 else 2) * scale
  let upper := (4 * b.mantissa + 2) * scale
  if b.mantissa % 2 = 0 then lower ≤ decimal && decimal ≤ upper
  else lower < decimal && decimal < upper

inductive Tie where
  | toEven
  | up
  deriving DecidableEq, Repr

def Tie.takesLow (tie : Tie) (low : Nat) : Bool := tie = .toEven && low % 2 = 0

def nearest? (tie : Tie) (b : Binary) (num den : Nat) (exponent : Int) : Option Nat :=
  let (low, high) := neighbours num den exponent
  let (up, down) := powerOfTen exponent
  let value := 2 * num * down
  let middle := (low + high) * den * up
  let lowIsNearer := value < middle || (value = middle && tie.takesLow low)
  match readsBack b low exponent, readsBack b high exponent with
  | true, true => some (if lowIsNearer then low else high)
  | true, false => some low
  | false, true => some high
  | false, false => none

def search (tie : Tie) (b : Binary) (num den : Nat) (lead : Int) : (fuel : Nat) → Scientific
  | 0 => ⟨(neighbours num den (lead - 16)).1, lead - 16⟩
  | fuel + 1 =>
    let exponent := lead - (16 - fuel : Nat)
    match nearest? tie b num den exponent with
    | some digits => ⟨digits, exponent⟩
    | none => search tie b num den lead fuel

def shortest (tie : Tie) (b : Binary) : Scientific :=
  if b.mantissa = 0 then ⟨0, 0⟩
  else
    let (num, den) := b.quotient
    (search tie b num den (leadingExponent num den) 17).trim 17

end Scanout.Decimal
