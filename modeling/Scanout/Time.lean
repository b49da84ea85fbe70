import Scanout.Error

namespace Scanout

structure HostTime where
  ticks : UInt64
  deriving DecidableEq, Repr, Inhabited

structure Duration where
  ticks : UInt64
  deriving DecidableEq, Repr, Inhabited

instance : LT HostTime := ⟨fun a b => a.ticks < b.ticks⟩
instance (a b : HostTime) : Decidable (a < b) := inferInstanceAs (Decidable (a.ticks < b.ticks))
instance : LE Duration := ⟨fun a b => a.ticks ≤ b.ticks⟩
instance (a b : Duration) : Decidable (a ≤ b) := inferInstanceAs (Decidable (a.ticks ≤ b.ticks))

/-- Sum of two 64-bit values, stopping at the greatest one. -/
def addUpTo64 (a b : UInt64) : UInt64 :=
  if a.toNat + b.toNat < UInt64.size then a + b else UInt64.ofNat (UInt64.size - 1)

namespace Duration

def zero : Duration := ⟨0⟩

def label (d : Duration) : String := s!"Duration({d.ticks})"

end Duration

namespace HostTime

def since (later earlier : HostTime) : Duration :=
  if earlier.ticks ≤ later.ticks then ⟨later.ticks - earlier.ticks⟩ else .zero

/-- The reading `d` later; the clock stops at its greatest reading. -/
def advance (t : HostTime) (d : UInt64) : HostTime := ⟨addUpTo64 t.ticks d⟩

def label (t : HostTime) : String := s!"HostTime({t.ticks})"

end HostTime

/-- Nanoseconds per tick as a quotient, with either part allowed to be zero. -/
structure TickRatio where
  numer : UInt32
  denom : UInt32
  deriving DecidableEq, Repr

namespace TickRatio

/-- `value * num / den` in exact arithmetic, cut to 64 bits. -/
def scale (value : UInt64) (num den : UInt32) : UInt64 :=
  UInt64.ofNat (value.toNat * num.toNat / den.toNat)

def ticksToNanos (r : TickRatio) (ticks : UInt64) : Except Fault UInt64 :=
  if r.denom = 0 then .error .zeroDivisor else .ok (scale ticks r.numer r.denom)

def nanosToTicks (r : TickRatio) (nanos : UInt64) : Except Fault UInt64 :=
  if r.numer = 0 then .error .zeroDivisor else .ok (scale nanos r.denom r.numer)

def label (r : TickRatio) : String := s!"Timebase({r.numer}/{r.denom})"

end TickRatio

/-- The rate of a clock: nanoseconds per tick, neither part zero. -/
structure Timebase extends TickRatio where
  numer_ne_zero : numer ≠ 0
  denom_ne_zero : denom ≠ 0
  deriving DecidableEq

namespace Timebase

def nanos : Timebase := ⟨⟨1, 1⟩, by decide, by decide⟩

instance : Inhabited Timebase := ⟨nanos⟩

/-- The rate with the given parts, refused when one is zero. -/
def make (numer denom : UInt32) : Except Fault Timebase :=
  if h : numer ≠ 0 ∧ denom ≠ 0 then .ok ⟨⟨numer, denom⟩, h.1, h.2⟩ else .error .zeroTimebasePart

def ticksToNanos (tb : Timebase) (ticks : UInt64) : UInt64 :=
  TickRatio.scale ticks tb.numer tb.denom

def nanosToTicks (tb : Timebase) (nanos : UInt64) : UInt64 :=
  TickRatio.scale nanos tb.denom tb.numer

def duration (tb : Timebase) (nanos : UInt64) : Duration := ⟨tb.nanosToTicks nanos⟩

end Timebase

end Scanout
