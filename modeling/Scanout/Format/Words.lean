import Scanout.Format.Blob

/-!
# Format tables in machine words

The decoder and the look-up once more, as a machine with words of 64 bits carries them out: one read
after the other, with words for places, counts and positions. The steps end with an answer, or they give
up, which is how a block is refused. Or they go wrong, where the machine has no way to go on.
-/

namespace Scanout
namespace Format

inductive Slip where
  | overflow
  | overshift
  | outOfBounds
  | capacity
  deriving DecidableEq, Repr

abbrev Steps := OptionT (Except Slip)

namespace Steps

def goWrong {α : Type} (s : Slip) : Steps α := throwThe Slip s

def plus (a b : UInt64) : Steps UInt64 :=
  if a.toNat + b.toNat < UInt64.size then pure (a + b) else goWrong .overflow

/-- A sum that may turn out to be no word; then the steps give up. -/
def tryPlus (a b : UInt64) : Steps UInt64 :=
  if a.toNat + b.toNat < UInt64.size then pure (a + b) else failure

def minus (a b : UInt64) : Steps UInt64 :=
  if b ≤ a then pure (a - b) else goWrong .overflow

def times (a b : UInt64) : Steps UInt64 :=
  if a.toNat * b.toNat < UInt64.size then pure (a * b) else goWrong .overflow

/-- The word with one bit set. -/
def bit (i : UInt64) : Steps UInt64 :=
  if i < 64 then pure (1 <<< i) else goWrong .overshift

def reserve (count size : UInt64) : Steps Unit :=
  if count.toNat * size.toNat < UInt64.size / 2 then pure () else goWrong .capacity

def byteAt (blob : List UInt8) (place : UInt64) : Steps UInt8 :=
  match blob[place.toNat]? with
  | some byte => pure byte
  | none => goWrong .outOfBounds

/-- The number in the bytes from a place on; gives up if they are not all there. -/
def readNumber (blob : List UInt8) (width : Nat) (place : UInt64) : Steps Nat := do
  let stop ← tryPlus place (UInt64.ofNat width)
  if stop.toNat ≤ blob.length then
    let bytes ← (List.range width).mapM fun i => do byteAt blob (← plus place (UInt64.ofNat i))
    pure (numberOf bytes)
  else failure

def readWord (blob : List UInt8) (place : UInt64) : Steps UInt32 := do
  let n ← readNumber blob 4 place
  pure (UInt32.ofNat n)

def readLong (blob : List UInt8) (place : UInt64) : Steps UInt64 := do
  let n ← readNumber blob 8 place
  pure (UInt64.ofNat n)

def readRecord (blob : List UInt8) (place : UInt64) : Steps Record := do
  let formats ← readLong blob place
  let offset ← readWord blob (← plus place 8)
  let modifier ← readLong blob (← plus place 16)
  pure ⟨formats, offset, modifier⟩

def readItems {α : Type} (item : UInt64 → Steps α) (place size : UInt64) (count : UInt32) :
    Steps (List α) := do
  reserve count.toUInt64 size
  (List.range count.toNat).mapM fun i => do
    let far ← times (UInt64.ofNat i) size
    item (← tryPlus place far)

def readTable (blob : List UInt8) : Steps Table :=
  if blob.length < headerSize then failure
  else do
    let formatCount ← readWord blob 8
    let formatPlace ← readWord blob 12
    let recordCount ← readWord blob 16
    let recordPlace ← readWord blob 20
    let formats ← readItems (readWord blob) formatPlace.toUInt64 4 formatCount
    let records ← readItems (readRecord blob) recordPlace.toUInt64 24 recordCount
    pure ⟨formats, records⟩

def covers (r : Record) (i : UInt64) : Steps Bool := do
  let start := r.offset.toUInt64
  let stop ← plus start 64
  if start ≤ i && i < stop then
    let mark ← bit (← minus i start)
    pure (r.formats &&& mark != 0)
  else pure false

def supports (t : Table) (format : UInt32) (modifier : UInt64) : Steps Bool :=
  match t.formats.findIdx? (· == format) with
  | none => pure false
  | some i => t.records.anyM fun r =>
    if r.modifier == modifier then covers r (UInt64.ofNat i) else pure false

end Steps

end Format
end Scanout
