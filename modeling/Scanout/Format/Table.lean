/-!
# Format tables

A plane lists the pixel formats it can show, and for each layout modifier which of them it can show
with that modifier. A record of the second list covers a window of 64 neighbours in the first.
-/

namespace Scanout
namespace Format

def fourcc (a b c d : UInt8) : UInt32 :=
  a.toUInt32 ||| b.toUInt32 <<< 8 ||| c.toUInt32 <<< 16 ||| d.toUInt32 <<< 24

def invalidModifier : UInt64 := 0x00ffffffffffffff

def window : Nat := 64

structure Record where
  /-- Bit `i` stands for the format at `offset + i`. -/
  formats : UInt64
  offset : UInt32
  modifier : UInt64
  deriving DecidableEq, Repr

def Record.covers (r : Record) (i : Nat) : Bool :=
  r.offset.toNat ≤ i && i < r.offset.toNat + window && r.formats.toNat.testBit (i - r.offset.toNat)

structure Table where
  formats : List UInt32 := []
  records : List Record := []
  deriving DecidableEq, Repr, Inhabited

namespace Table

def supports (t : Table) (format : UInt32) (modifier : UInt64) : Bool :=
  match t.formats.findIdx? (· == format) with
  | none => false
  | some i => t.records.any fun r => r.modifier == modifier && r.covers i

/-- The records with the bits of `new` joined to the record of its window and modifier. -/
def mergeRecord (records : List Record) (new : Record) : List Record :=
  match records.findIdx? fun r => r.modifier == new.modifier && r.offset == new.offset with
  | some i => records.modify i fun r => { r with formats := r.formats ||| new.formats }
  | none => records ++ [new]

def recordAt (i : Nat) (modifier : UInt64) : Record :=
  let offset := i / window * window
  ⟨1 <<< UInt64.ofNat (i - offset), UInt32.ofNat offset, modifier⟩

def insert (t : Table) (format : UInt32) (modifier : UInt64) : Table :=
  match t.formats.findIdx? (· == format) with
  | some i => { t with records := mergeRecord t.records (recordAt i modifier) }
  | none => ⟨t.formats ++ [format], mergeRecord t.records (recordAt t.formats.length modifier)⟩

def ofPairs (pairs : List (UInt32 × UInt64)) : Table :=
  pairs.foldl (fun t pair => t.insert pair.1 pair.2) {}

end Table

end Format
end Scanout
