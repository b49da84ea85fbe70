namespace Scanout.Decimal

/-- The number `mantissa * 2 ^ exponent`, with how far it is to the neighbouring floating-point
numbers. -/
structure Binary where
  mantissa : Nat
  exponent : Int
  narrowBelow : Bool
  deriving DecidableEq, Repr

namespace Binary

/-- The binary form of a non-negative finite number; the sign is ignored. -/
def ofBits (bits : UInt64) : Binary :=
  let fraction := (bits &&& 0xFFFFFFFFFFFFF).toNat
  let biased := ((bits >>> 52) &&& 0x7FF).toNat
  if biased = 0 then ⟨fraction, -1074, false⟩
  else ⟨0x10000000000000 + fraction, (biased : Int) - 1075, fraction = 0 && biased > 1⟩

def ofFloat (x : Float) : Binary := ofBits x.toBits

def powerOfTwo (e : Int) : Nat × Nat := (1 <<< e.toNat, 1 <<< (-e).toNat)

def quotient (b : Binary) : Nat × Nat :=
  let (up, down) := powerOfTwo b.exponent
  (b.mantissa * up, down)

end Binary

end Scanout.Decimal
