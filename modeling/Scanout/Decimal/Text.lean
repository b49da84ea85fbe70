import Scanout.Decimal.Shortest

namespace Scanout.Decimal

def digitText (n : Nat) : String := String.ofList (Nat.toDigits 10 n)

/-- A text of `n` zeros. -/
def zeros (n : Nat) : String := String.ofList (List.replicate n '0')

/-- Writes a number without an exponent; `whole` follows the digits of a whole number. -/
def positional (s : Scientific) (whole : String) : String :=
  if s.exponent ≥ 0 then digitText s.digits ++ zeros s.exponent.toNat ++ whole
  else
    let places := (-s.exponent).toNat
    let digits := digitText s.digits
    let padded := zeros (places + 1 - digits.length) ++ digits
    let cut := padded.length - places
    String.ofList (padded.toList.take cut) ++ "." ++ String.ofList (padded.toList.drop cut)

/-- The shortest digits of a number, whole numbers without a point; of two that are equally near,
the greater. -/
def plainText (x : Float) : String := positional (shortest .up (.ofFloat x)) ""

/-- The quotient to the nearest whole number; halves go to the even one. -/
def roundHalfEven (num den : Nat) : Nat :=
  let low := num / den
  let rest := 2 * (num % den)
  if rest < den || (rest = den && low % 2 = 0) then low else low + 1

/-- A number with one place after the point; the exact value is rounded, halves to even. -/
def onePlaceText (x : Float) : String :=
  let (num, den) := (Binary.ofFloat x).quotient
  let tenths := roundHalfEven (num * 10) den
  digitText (tenths / 10) ++ "." ++ digitText (tenths % 10)

end Scanout.Decimal
