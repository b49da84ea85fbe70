namespace Scanout

/-- A 64-bit word read as a two's-complement number. -/
def signed64 (value : UInt64) : Int := (value.toNat : Int).bmod UInt64.size

/-- The low half of a 64-bit word read as a two's-complement number. -/
def signed32 (value : UInt64) : Int := (value.toNat : Int).bmod UInt32.size

namespace Property

inductive Kind where
  | range (min max : UInt64)
  | signedRange (min max : Int)
  | enumeration (values : List UInt64)
  /-- Any combination of the listed bit positions. -/
  | bitmask (bits : List UInt64)
  | blob
  | object
  /-- Anything else; only the driver can judge it. -/
  | other
  deriving DecidableEq, Repr

/-- The word with the listed bits set; positions past the word are ignored. -/
def maskOf (bits : List UInt64) : UInt64 :=
  (bits.filter (· < 64)).foldl (fun mask bit => mask ||| ((1 : UInt64) <<< bit)) 0

def Kind.accepts (kind : Kind) (value : UInt64) : Bool :=
  match kind with
  | .range min max => min ≤ value && value ≤ max
  | .signedRange min max => min ≤ signed64 value && signed64 value ≤ max
  | .enumeration values => values.contains value
  | .bitmask bits => value &&& ~~~ maskOf bits == 0
  | .blob | .object | .other => true

structure Descriptor where
  id : UInt32
  name : String
  kind : Kind
  immutable : Bool := false
  deriving DecidableEq, Repr

def Descriptor.accepts (d : Descriptor) (value : UInt64) : Bool :=
  !d.immutable && d.kind.accepts value

end Property

end Scanout
