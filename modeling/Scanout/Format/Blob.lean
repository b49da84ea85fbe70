import Scanout.Format.Table

namespace Scanout
namespace Format

def numberOf (bytes : List UInt8) : Nat := bytes.foldr (fun b n => b.toNat + 256 * n) 0

def bytesOf : (width n : Nat) → List UInt8
  | 0, _ => []
  | width + 1, n => UInt8.ofNat n :: bytesOf width (n / 256)

/-- The 32-bit word at `pos`; bytes past the end count as zero. -/
def wordAt (bytes : List UInt8) (pos : Nat) : UInt32 :=
  UInt32.ofNat (numberOf ((bytes.drop pos).take 4))

/-- The 64-bit word at `pos`; bytes past the end count as zero. -/
def longAt (bytes : List UInt8) (pos : Nat) : UInt64 :=
  UInt64.ofNat (numberOf ((bytes.drop pos).take 8))

def headerSize : Nat := 24

def formatSize : Nat := 4

def recordSize : Nat := 24

def Record.decode (bytes : List UInt8) : Record :=
  ⟨longAt bytes 0, wordAt bytes 8, longAt bytes 16⟩

def readAll {α : Type} (read : List UInt8 → α) (size : Nat) : (count : Nat) → List UInt8 → List α
  | 0, _ => []
  | count + 1, bytes => read (bytes.take size) :: readAll read size count (bytes.drop size)

def itemsAt? (blob : List UInt8) (place count size : Nat) : Option (List UInt8) :=
  if count = 0 || place + count * size ≤ blob.length then some (blob.drop place) else none

/-- Decodes a block; `none` if it is cut short or a count or place points outside of it. -/
def Table.decode? (blob : List UInt8) : Option Table :=
  if blob.length < headerSize then none
  else do
    let formatCount := (wordAt blob 8).toNat
    let recordCount := (wordAt blob 16).toNat
    let formats ← itemsAt? blob (wordAt blob 12).toNat formatCount formatSize
    let records ← itemsAt? blob (wordAt blob 20).toNat recordCount recordSize
    pure ⟨readAll (wordAt · 0) formatSize formatCount formats,
      readAll Record.decode recordSize recordCount records⟩

def Record.encode (r : Record) : List UInt8 :=
  bytesOf 8 r.formats.toNat ++ bytesOf 4 r.offset.toNat ++ bytesOf 4 0 ++
    bytesOf 8 r.modifier.toNat

def headerNumber (n : Nat) : Nat := min n (UInt32.size - 1)

def recordPlaceOf (count : Nat) : Nat := (headerSize + formatSize * count + 7) / 8 * 8

def Table.encode (t : Table) : List UInt8 :=
  let place := recordPlaceOf t.formats.length
  let head := [1, 0, headerNumber t.formats.length, headerSize, headerNumber t.records.length,
    headerNumber place].flatMap (bytesOf 4)
  let formats := t.formats.flatMap fun f => bytesOf formatSize f.toNat
  let padding := List.replicate (place - (headerSize + formatSize * t.formats.length)) 0
  head ++ formats ++ padding ++ t.records.flatMap Record.encode

end Format
end Scanout
