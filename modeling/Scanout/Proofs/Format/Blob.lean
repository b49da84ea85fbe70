import Scanout.Format.Blob
import Scanout.Proofs.Format.Table

namespace Scanout
namespace Format

@[simp]
theorem length_bytesOf (width n : Nat) : (bytesOf width n).length = width := by
  induction width generalizing n with
  | zero => rfl
  | succ width ih => rw [bytesOf, List.length_cons, ih]

theorem numberOf_bytesOf (width n : Nat) : numberOf (bytesOf width n) = n % 256 ^ width := by
  -- Digit by digit, from the lowest.
  induction width generalizing n with
  | zero => rw [Nat.pow_zero, Nat.mod_one]; rfl
  | succ width ih =>
    calc numberOf (bytesOf (width + 1) n)
        = n % 256 + 256 * numberOf (bytesOf width (n / 256)) := by
          rw [bytesOf, numberOf, List.foldr_cons, UInt8.toNat_ofNat']
          rfl
      _ = n % 256 + 256 * (n / 256 % 256 ^ width) := by rw [ih]
      _ = n % 256 ^ (width + 1) := by rw [Nat.pow_succ', Nat.mod_mul]

/-- A number that stands behind other bytes is read at its place. -/
theorem numberOf_take_drop (front rest : List UInt8) (width n : Nat) :
    numberOf (((front ++ (bytesOf width n ++ rest)).drop front.length).take width) =
      n % 256 ^ width := by
  rw [List.drop_left, List.take_left' (length_bytesOf width n), numberOf_bytesOf]

theorem wordAt_append (front rest : List UInt8) (n : Nat) :
    wordAt (front ++ (bytesOf 4 n ++ rest)) front.length = UInt32.ofNat n := by
  rw [wordAt, numberOf_take_drop]
  exact UInt32.ofNat_mod_size

theorem longAt_append (front rest : List UInt8) (n : Nat) :
    longAt (front ++ (bytesOf 8 n ++ rest)) front.length = UInt64.ofNat n := by
  rw [longAt, numberOf_take_drop]
  exact UInt64.ofNat_mod_size

/-- Of words that follow one another, the `i`-th is read at its place. -/
theorem wordAt_flatMap {words : List Nat} {i n : Nat} (h : words[i]? = some n) (rest : List UInt8) :
    wordAt (words.flatMap (bytesOf 4) ++ rest) (4 * i) = UInt32.ofNat n := by
  obtain ⟨hi, hat⟩ := List.getElem?_eq_some_iff.mp h
  have hlength : ∀ ws : List Nat, (ws.flatMap (bytesOf 4)).length = 4 * ws.length := by
    intro ws
    simp [List.length_flatMap, Nat.mul_comm]
  -- The word begins after the words before it.
  have hfront : ((words.take i).flatMap (bytesOf 4)).length = 4 * i := by
    rw [hlength, List.length_take_of_le (Nat.le_of_lt hi)]
  have hsplit : words = words.take i ++ n :: words.drop (i + 1) := by
    rw [← hat, List.getElem_cons_drop, List.take_append_drop]
  rw [hsplit, List.flatMap_append, List.flatMap_cons, List.append_assoc, List.append_assoc, ← hfront]
  exact wordAt_append _ _ n

/-- Items of one size that are written one after the other are read one after the other. -/
theorem readAll_flatMap {α : Type} {read : List UInt8 → α} {write : α → List UInt8} {size : Nat}
    (hsize : ∀ a, (write a).length = size) (hread : ∀ a, read (write a) = a) (as : List α)
    (rest : List UInt8) : readAll read size as.length (as.flatMap write ++ rest) = as := by
  induction as with
  | nil => rfl
  | cons a as ih =>
    rw [List.flatMap_cons, List.append_assoc, List.length_cons, readAll,
      List.take_left' (hsize a), List.drop_left' (hsize a), hread, ih]

theorem wordAt_bytesOf (format : UInt32) : wordAt (bytesOf formatSize format.toNat) 0 = format := by
  have hread := wordAt_append [] [] format.toNat
  rwa [List.append_nil, UInt32.ofNat_toNat] at hread

namespace Record

theorem length_encode (r : Record) : r.encode.length = recordSize := by
  simp [encode, recordSize]

/-- A record reads back from its bytes. -/
theorem decode_encode (r : Record) : decode r.encode = r := by
  -- Each field is read where it was written, past those before it.
  have hbits : longAt r.encode 0 = r.formats := by
    have hread := longAt_append [] (bytesOf 4 r.offset.toNat ++ bytesOf 4 0 ++ bytesOf 8 r.modifier.toNat)
      r.formats.toNat
    rw [UInt64.ofNat_toNat] at hread
    simpa [encode] using hread
  have hoffset : wordAt r.encode 8 = r.offset := by
    have hread := wordAt_append (bytesOf 8 r.formats.toNat) (bytesOf 4 0 ++ bytesOf 8 r.modifier.toNat)
      r.offset.toNat
    rw [UInt32.ofNat_toNat, length_bytesOf] at hread
    simpa [encode] using hread
  have hmodifier : longAt r.encode 16 = r.modifier := by
    have hread := longAt_append
      (bytesOf 8 r.formats.toNat ++ bytesOf 4 r.offset.toNat ++ bytesOf 4 0) [] r.modifier.toNat
    rw [UInt64.ofNat_toNat] at hread
    simpa [encode] using hread
  rw [decode, hbits, hoffset, hmodifier]

end Record

theorem itemsAt?_of_le {blob : List UInt8} {place count size : Nat}
    (h : place + count * size ≤ blob.length) : itemsAt? blob place count size = some (blob.drop place) :=
  if_pos (by simp [h])

namespace Table

/-- The counts and places of the table are numbers that the header can hold. -/
structure Fits (t : Table) : Prop where
  formats : t.formats.length < UInt32.size
  records : t.records.length < UInt32.size
  place : recordPlaceOf t.formats.length < UInt32.size

def headerWords (t : Table) : List Nat :=
  [1, 0, headerNumber t.formats.length, headerSize, headerNumber t.records.length,
    headerNumber (recordPlaceOf t.formats.length)]

def formatBytes (t : Table) : List UInt8 := t.formats.flatMap fun f => bytesOf formatSize f.toNat

def padding (t : Table) : List UInt8 :=
  List.replicate (recordPlaceOf t.formats.length - (headerSize + formatSize * t.formats.length)) 0

def recordBytes (t : Table) : List UInt8 := t.records.flatMap Record.encode

variable (t : Table)

theorem encode_eq : t.encode =
    t.headerWords.flatMap (bytesOf 4) ++ (t.formatBytes ++ (t.padding ++ t.recordBytes)) := by
  simp [encode, headerWords, formatBytes, padding, recordBytes]

theorem length_header : (t.headerWords.flatMap (bytesOf 4)).length = headerSize := rfl

theorem length_formatBytes : t.formatBytes.length = formatSize * t.formats.length := by
  simp [formatBytes, List.length_flatMap, Nat.mul_comm]

theorem length_recordBytes : t.recordBytes.length = t.records.length * recordSize := by
  simp [recordBytes, List.length_flatMap, Record.length_encode]

/-- The formats end where the records begin, or before. -/
theorem formats_end_le (count : Nat) : headerSize + formatSize * count ≤ recordPlaceOf count := by
  rw [recordPlaceOf]
  omega

/-- What comes before the records ends where they begin. -/
theorem length_before_records :
    (t.headerWords.flatMap (bytesOf 4) ++ (t.formatBytes ++ t.padding)).length =
      recordPlaceOf t.formats.length := by
  have hgap := formats_end_le t.formats.length
  rw [List.length_append, List.length_append, length_header, length_formatBytes, padding,
    List.length_replicate]
  omega

theorem length_encode :
    t.encode.length = recordPlaceOf t.formats.length + t.records.length * recordSize := by
  rw [encode_eq, ← List.append_assoc t.formatBytes, ← List.append_assoc, List.length_append,
    length_before_records, length_recordBytes]

theorem drop_header :
    t.encode.drop headerSize = t.formatBytes ++ (t.padding ++ t.recordBytes) := by
  rw [encode_eq, List.drop_left' t.length_header]

theorem drop_recordPlace : t.encode.drop (recordPlaceOf t.formats.length) = t.recordBytes := by
  rw [encode_eq, ← List.append_assoc t.formatBytes, ← List.append_assoc,
    List.drop_left' t.length_before_records]

theorem wordAt_encode {i n : Nat} (h : t.headerWords[i]? = some n) :
    wordAt t.encode (4 * i) = UInt32.ofNat n := by
  rw [encode_eq, wordAt_flatMap h]

theorem toNat_headerNumber {n : Nat} (h : n < UInt32.size) :
    (UInt32.ofNat (headerNumber n)).toNat = n := by
  have hheld : headerNumber n = n := Nat.min_eq_left (by omega)
  rw [hheld, UInt32.toNat_ofNat_of_lt' h]

theorem readAll_formats : readAll (wordAt · 0) formatSize t.formats.length
    (t.formatBytes ++ (t.padding ++ t.recordBytes)) = t.formats :=
  readAll_flatMap (fun f => length_bytesOf formatSize f.toNat) wordAt_bytesOf t.formats _

theorem readAll_records :
    readAll Record.decode recordSize t.records.length t.recordBytes = t.records := by
  have hread := readAll_flatMap Record.length_encode Record.decode_encode t.records []
  rwa [List.append_nil] at hread

variable {t} in
theorem decode?_encode (h : t.Fits) : decode? t.encode = some t := by
  -- The table is long enough for a header, formats and records.
  have hlength := t.length_encode
  have hgap := formats_end_le t.formats.length
  have hlong : ¬ t.encode.length < headerSize := by omega
  -- The four numbers of the header that the decoder looks at.
  have hformatCount : (wordAt t.encode 8).toNat = t.formats.length := by
    rw [t.wordAt_encode (i := 2) rfl, toNat_headerNumber h.formats]
  have hformatPlace : (wordAt t.encode 12).toNat = headerSize := by
    rw [t.wordAt_encode (i := 3) rfl]
    rfl
  have hrecordCount : (wordAt t.encode 16).toNat = t.records.length := by
    rw [t.wordAt_encode (i := 4) rfl, toNat_headerNumber h.records]
  have hrecordPlace : (wordAt t.encode 20).toNat = recordPlaceOf t.formats.length := by
    rw [t.wordAt_encode (i := 5) rfl, toNat_headerNumber h.place]
  -- Both lists are within the blob.
  have hformats : itemsAt? t.encode headerSize t.formats.length formatSize =
      some (t.formatBytes ++ (t.padding ++ t.recordBytes)) := by
    rw [itemsAt?_of_le (by rw [Nat.mul_comm]; omega), drop_header]
  have hrecords : itemsAt? t.encode (recordPlaceOf t.formats.length) t.records.length recordSize =
      some t.recordBytes := by
    rw [itemsAt?_of_le (Nat.le_of_eq hlength.symm), drop_recordPlace]
  simp only [decode?, if_neg hlong, hformatCount, hformatPlace, hrecordCount, hrecordPlace, hformats,
    hrecords, Option.bind_eq_bind, Option.bind_some, readAll_formats, readAll_records]
  rfl

/-- The table stands for a set of pairs: it supports these and no others, lists no format twice, and has
one record at most for a modifier and a window. -/
structure Represents (t : Table) (pairs : List (UInt32 × UInt64)) : Prop where
  supports_iff : ∀ format modifier, t.supports format modifier = true ↔ (format, modifier) ∈ pairs
  formats_nodup : t.formats.Nodup
  aligned : ∀ r ∈ t.records, window ∣ r.offset.toNat
  slots_nodup : (t.records.map Record.slot).Nodup

theorem represents_ofPairs (pairs : List (UInt32 × UInt64)) : (ofPairs pairs).Represents pairs := by
  have h := lists_ofPairs pairs
  exact ⟨h.supports_iff, h.formats_nodup, h.aligned, h.slots_nodup⟩

/-- Every table whose counts and places the header can hold reads back from its block. The table made of
some pairs represents them, and so does what reads back from its block. -/
theorem reads_back_and_represents :
    (∀ t : Table, t.Fits → decode? t.encode = some t) ∧
      ∀ pairs : List (UInt32 × UInt64), (ofPairs pairs).Represents pairs ∧
        ((ofPairs pairs).Fits →
          ∃ t, decode? (ofPairs pairs).encode = some t ∧ t.Represents pairs) := by
  refine ⟨fun t => decode?_encode, fun pairs => ⟨represents_ofPairs pairs, fun hfits => ?_⟩⟩
  exact ⟨ofPairs pairs, decode?_encode hfits, represents_ofPairs pairs⟩

/-- Seventy formats, so two windows, with one modifier, and one of them with another. -/
theorem represents_seventyFormats :
    let pairs := (List.range 70).map (fun i => (UInt32.ofNat (4096 + i), (0 : UInt64))) ++ [(4164, 5)]
    (ofPairs pairs).Fits ∧ (ofPairs pairs).formats.length = 70 ∧
      (ofPairs pairs).records.map Record.slot = [(0, 0), (0, 1), (5, 1)] ∧
      ∃ t, decode? (ofPairs pairs).encode = some t ∧ t.Represents pairs ∧
        t.supports 4165 0 = true ∧ t.supports 4164 5 = true ∧ t.supports 4099 5 = false := by
  intro pairs
  -- Seventy formats need two windows, so two records.
  have hfits : (ofPairs pairs).Fits := ⟨by decide +kernel, by decide +kernel, by decide +kernel⟩
  obtain ⟨t, hread, ht⟩ := (reads_back_and_represents.2 pairs).2 hfits
  refine ⟨hfits, by decide +kernel, by decide +kernel, t, hread, ht, ?_, ?_, ?_⟩
  · exact (ht.supports_iff _ _).mpr (by decide +kernel)
  · exact (ht.supports_iff _ _).mpr (by decide +kernel)
  · exact Bool.eq_false_iff.mpr fun h => absurd ((ht.supports_iff _ _).mp h) (by decide +kernel)

end Table
end Format
end Scanout
