import Mathlib.Data.Nat.Bitwise
import Scanout.Format.Words
import Scanout.Proofs.Format.Table

namespace Scanout
namespace Format

variable {α β : Type}

namespace Steps

def Answers (x : Steps α) (a : α) : Prop := x.run = .ok (some a)

def Reads (x : Steps α) (c : Prop) (a : α) : Prop :=
  (c → x.run = .ok (some a)) ∧ (¬ c → x.run = .ok none)

variable {x : Steps α} {f : α → Steps β} {c c' : Prop} {a : α} {b : β}

theorem answers_pure (a : α) : Answers (pure a) a := rfl

theorem Answers.bind (hx : Answers x a) (hf : Answers (f a) b) : Answers (x >>= f) b := by
  rw [Answers, OptionT.run_bind, hx]
  exact hf

theorem Answers.reads (hx : Answers x a) (hf : Reads (f a) c b) : Reads (x >>= f) c b := by
  refine ⟨fun h => ?_, fun h => ?_⟩
  · rw [OptionT.run_bind, hx]
    exact hf.1 h
  · rw [OptionT.run_bind, hx]
    exact hf.2 h

theorem reads_failure (h : ¬ c) (a : α) : Reads (failure : Steps α) c a :=
  ⟨fun hc => absurd hc h, fun _ => rfl⟩

theorem reads_pure (h : c) (a : α) : Reads (pure a : Steps α) c a :=
  ⟨fun _ => rfl, fun hn => absurd h hn⟩

theorem Reads.congr (hx : Reads x c a) (h : c ↔ c') : Reads x c' a :=
  ⟨fun hc => hx.1 (h.mpr hc), fun hc => hx.2 fun hc' => hc (h.mp hc')⟩

/-- Steps that follow one another end with an answer if each part does. -/
theorem Reads.bind (hx : Reads x c a) (hf : c → Reads (f a) c' b) : Reads (x >>= f) (c ∧ c') b := by
  refine ⟨fun h => ?_, fun h => ?_⟩
  · rw [OptionT.run_bind, hx.1 h.1]
    exact (hf h.1).1 h.2
  · by_cases hc : c
    · rw [OptionT.run_bind, hx.1 hc]
      exact (hf hc).2 fun hc' => h ⟨hc, hc'⟩
    · rw [OptionT.run_bind, hx.2 hc]
      rfl

theorem Reads.map (hx : Reads x c a) (g : α → β) : Reads (do let a ← x; pure (g a)) c (g a) :=
  (hx.bind fun _ => reads_pure trivial (g a)).congr (and_iff_left trivial)

theorem answers_mapM {f : α → Steps β} {g : α → β} {as : List α}
    (h : ∀ a ∈ as, Answers (f a) (g a)) : Answers (as.mapM f) (as.map g) := by
  induction as with
  | nil => exact answers_pure []
  | cons a as ih =>
    rw [List.forall_mem_cons] at h
    rw [List.mapM_cons]
    exact h.1.bind ((ih h.2).bind (answers_pure _))

theorem reads_mapM {f : α → Steps β} {c : α → Prop} {g : α → β} {as : List α}
    (h : ∀ a ∈ as, Reads (f a) (c a) (g a)) : Reads (as.mapM f) (∀ a ∈ as, c a) (as.map g) := by
  induction as with
  | nil => exact reads_pure (by simp) []
  | cons a as ih =>
    rw [List.forall_mem_cons] at h
    rw [List.mapM_cons]
    refine (h.1.bind fun _ => (ih h.2).map (g a :: ·)).congr ?_
    rw [List.forall_mem_cons]

theorem answers_anyM {f : α → Steps Bool} {p : α → Bool} {as : List α}
    (h : ∀ a ∈ as, Answers (f a) (p a)) : Answers (as.anyM f) (as.any p) := by
  -- The elements are asked in turn, up to the first yes.
  induction as with
  | nil => exact answers_pure false
  | cons a as ih =>
    rw [List.forall_mem_cons] at h
    rw [List.anyM, List.any_cons]
    refine h.1.bind ?_
    cases p a with
    | true => exact answers_pure true
    | false => exact ih h.2

theorem toNat_word {n : Nat} (h : n < UInt64.size) : (UInt64.ofNat n).toNat = n :=
  UInt64.toNat_ofNat_of_lt' h

section Arithmetic

variable {m n : Nat}

/-- Numbers whose sum is a word are words themselves. -/
theorem toNat_words (h : m + n < UInt64.size) :
    (UInt64.ofNat m).toNat = m ∧ (UInt64.ofNat n).toNat = n :=
  ⟨toNat_word (by omega), toNat_word (by omega)⟩

theorem answers_plus (h : m + n < UInt64.size) :
    Answers (plus (UInt64.ofNat m) (UInt64.ofNat n)) (UInt64.ofNat (m + n)) := by
  obtain ⟨hm, hn⟩ := toNat_words h
  rw [plus, hm, hn, if_pos h, UInt64.ofNat_add]
  rfl

theorem answers_tryPlus (h : m + n < UInt64.size) :
    Answers (tryPlus (UInt64.ofNat m) (UInt64.ofNat n)) (UInt64.ofNat (m + n)) := by
  obtain ⟨hm, hn⟩ := toNat_words h
  rw [tryPlus, hm, hn, if_pos h, UInt64.ofNat_add]
  rfl

theorem answers_minus (hm : m < UInt64.size) (hle : n ≤ m) :
    Answers (minus (UInt64.ofNat m) (UInt64.ofNat n)) (UInt64.ofNat (m - n)) := by
  have hwords : UInt64.ofNat n ≤ UInt64.ofNat m := by
    rwa [UInt64.le_iff_toNat_le, toNat_word hm, toNat_word (Nat.lt_of_le_of_lt hle hm)]
  rw [minus, if_pos hwords, UInt64.ofNat_sub hle]
  rfl

theorem answers_times (hm : m < UInt64.size) (hn : n < UInt64.size) (h : m * n < UInt64.size) :
    Answers (times (UInt64.ofNat m) (UInt64.ofNat n)) (UInt64.ofNat (m * n)) := by
  rw [times, toNat_word hm, toNat_word hn, if_pos h, UInt64.ofNat_mul]
  rfl

theorem answers_bit (h : n < window) : Answers (bit (UInt64.ofNat n)) (1 <<< UInt64.ofNat n) := by
  have hword : (UInt64.ofNat n).toNat = n := toNat_word (Nat.lt_trans h (by decide))
  have hwithin : UInt64.ofNat n < 64 := by
    rw [UInt64.lt_iff_toNat_lt, hword]
    exact h
  rw [bit, if_pos hwithin]
  rfl

end Arithmetic

section Reading

variable (blob : List UInt8) {place : Nat}

/-- Bytes that are taken one after the other. -/
theorem map_getD_range {bytes : List UInt8} {width : Nat} (h : place + width ≤ bytes.length) :
    (List.range width).map (fun i => bytes.getD (place + i) 0) = (bytes.drop place).take width := by
  apply List.ext_getElem
  · simp
    omega
  · intro i hi _
    have hlt : i < width := by simpa using hi
    have hthere : place + i < bytes.length := by omega
    simp [List.getD_eq_getElem?_getD, List.getElem?_eq_getElem hthere]

/-- A number is read if all of its bytes are there. -/
theorem reads_readNumber {width : Nat} (h : place + width < UInt64.size) :
    Reads (readNumber blob width (UInt64.ofNat place)) (place + width ≤ blob.length)
      (numberOf ((blob.drop place).take width)) := by
  rw [readNumber]
  -- The end of the number is a word, so the length of the block alone decides.
  refine (answers_tryPlus h).reads ?_
  simp only [toNat_word h]
  split
  -- Within the block, every byte of the number is there.
  · rename_i hwithin
    have hbyte : ∀ i ∈ List.range width,
        Answers (do byteAt blob (← plus (UInt64.ofNat place) (UInt64.ofNat i)))
          (blob.getD (place + i) 0) := by
      intro i hi
      have hlt : i < width := List.mem_range.mp hi
      refine (answers_plus (by omega)).bind ?_
      have hget : blob[place + i]? = some (blob.getD (place + i) 0) := by
        rw [List.getD_eq_getElem?_getD, List.getElem?_eq_getElem (by omega), Option.getD_some]
      rw [byteAt, toNat_word (by omega), hget]
      rfl
    refine (answers_mapM hbyte).reads ?_
    rw [map_getD_range hwithin]
    exact reads_pure hwithin _
  · rename_i hbeyond
    exact reads_failure hbeyond _

theorem reads_readWord (h : place + 4 < UInt64.size) :
    Reads (readWord blob (UInt64.ofNat place)) (place + 4 ≤ blob.length) (wordAt blob place) :=
  (reads_readNumber blob h).map UInt32.ofNat

theorem reads_readLong (h : place + 8 < UInt64.size) :
    Reads (readLong blob (UInt64.ofNat place)) (place + 8 ≤ blob.length) (longAt blob place) :=
  (reads_readNumber blob h).map UInt64.ofNat

def recordIn (blob : List UInt8) (place : Nat) : Record :=
  ⟨longAt blob place, wordAt blob (place + 8), longAt blob (place + 16)⟩

/-- A record is read whole exactly if all of its 24 bytes are there. -/
theorem reads_readRecord (h : place + 24 < UInt64.size) :
    Reads (readRecord blob (UInt64.ofNat place)) (place + 24 ≤ blob.length) (recordIn blob place) := by
  have hformats := reads_readLong blob (show place + 8 < UInt64.size by omega)
  have hoffset := reads_readWord blob (show place + 8 + 4 < UInt64.size by omega)
  have hmodifier := reads_readLong blob (show place + 16 + 8 < UInt64.size by omega)
  -- Each of the three fields has to be within the block.
  have hfields : place + 24 ≤ blob.length ↔ place + 8 ≤ blob.length ∧ place + 8 + 4 ≤ blob.length ∧
      place + 16 + 8 ≤ blob.length := by
    omega
  rw [readRecord, hfields]
  refine hformats.bind fun _ => ?_
  refine (answers_plus (n := 8) (by omega)).reads (hoffset.bind fun _ => ?_)
  exact (answers_plus (n := 16) (by omega)).reads (hmodifier.map _)

end Reading

def Within (place count size bound : Nat) : Prop := count = 0 ∨ place + count * size ≤ bound

instance (place count size bound : Nat) : Decidable (Within place count size bound) :=
  inferInstanceAs (Decidable (_ ∨ _))

/-- All of the items lie within bounds exactly if there are none, or the last one does. -/
theorem forall_within_iff (place count size bound : Nat) :
    (∀ i ∈ List.range count, place + i * size + size ≤ bound) ↔ Within place count size bound := by
  constructor
  -- If the last item is within the bound, so are those before it.
  · intro h
    cases count with
    | zero => exact .inl rfl
    | succ count =>
      have hlast := h count (List.mem_range.mpr (Nat.lt_succ_self count))
      right
      rw [Nat.succ_mul]
      omega
  · intro h i hi
    have hlt : i < count := List.mem_range.mp hi
    have hle : (i + 1) * size ≤ count * size := Nat.mul_le_mul_right size hlt
    rw [Nat.succ_mul] at hle
    rcases h with rfl | h <;> omega

/-- Items are read if there are none, or if they end within the block. -/
theorem reads_readItems {item : UInt64 → Steps α} {value : Nat → α} {size bound : Nat}
    (hsize : size ≤ 24) (hitem : ∀ place, place + 24 < UInt64.size →
      Reads (item (UInt64.ofNat place)) (place + size ≤ bound) (value place)) (place count : UInt32) :
    Reads (readItems item place.toUInt64 (UInt64.ofNat size) count)
      (Within place.toNat count.toNat size bound)
      ((List.range count.toNat).map fun i => value (place.toNat + i * size)) := by
  have hplace : place.toNat < 4294967296 := place.toNat_lt
  have hcount : count.toNat < 4294967296 := count.toNat_lt
  have hword : (UInt64.ofNat size).toNat = size := toNat_word (Nat.lt_of_le_of_lt hsize (by decide))
  have hsteps : UInt64.size = 18446744073709551616 := rfl
  -- Counts and places are half as wide as a word, so there is room for any item.
  have hroom : ∀ i ≤ count.toNat, i * size ≤ 4294967296 * 24 := fun i hi =>
    Nat.mul_le_mul (by omega) hsize
  have hreserve : Answers (reserve count.toUInt64 (UInt64.ofNat size)) () := by
    have hlt : count.toUInt64.toNat * (UInt64.ofNat size).toNat < UInt64.size / 2 := by
      rw [UInt32.toNat_toUInt64, hword, hsteps]
      have := hroom count.toNat (Nat.le_refl _)
      omega
    rw [reserve, if_pos hlt]
    rfl
  -- Each place is computed without a wrap, and then read.
  have hread : ∀ i ∈ List.range count.toNat,
      Reads (do
          let far ← times (UInt64.ofNat i) (UInt64.ofNat size)
          item (← tryPlus place.toUInt64 far))
        (place.toNat + i * size + size ≤ bound) (value (place.toNat + i * size)) := by
    intro i hi
    have hlt : i < count.toNat := List.mem_range.mp hi
    have hfar := hroom i (Nat.le_of_lt hlt)
    rw [← UInt64.ofNat_uInt32ToNat]
    refine (answers_times (by omega) (by omega) (by omega)).reads ?_
    refine (answers_tryPlus (by omega)).reads ?_
    exact hitem _ (by omega)
  rw [readItems]
  refine hreserve.reads ((reads_mapM hread).congr ?_)
  exact forall_within_iff place.toNat count.toNat size bound

section Blocks

variable (blob : List UInt8)

def InBounds : Prop :=
  headerSize ≤ blob.length ∧
    Within (wordAt blob 12).toNat (wordAt blob 8).toNat formatSize blob.length ∧
    Within (wordAt blob 20).toNat (wordAt blob 16).toNat recordSize blob.length

instance : Decidable (InBounds blob) := inferInstanceAs (Decidable (_ ∧ _))

def tableIn : Table :=
  ⟨(List.range (wordAt blob 8).toNat).map fun i =>
      wordAt blob ((wordAt blob 12).toNat + i * formatSize),
    (List.range (wordAt blob 16).toNat).map fun i =>
      recordIn blob ((wordAt blob 20).toNat + i * recordSize)⟩

/-- The steps read what stands where the header says, if all of it is there. -/
theorem reads_readTable : Reads (readTable blob) (InBounds blob) (tableIn blob) := by
  rw [readTable]
  by_cases hheader : headerSize ≤ blob.length
  · -- With the header there, only the items can be missing.
    have hwithin : 24 ≤ blob.length := hheader
    -- The numbers of the header are there.
    have hword : ∀ place, place + 4 ≤ 24 →
        Answers (readWord blob (UInt64.ofNat place)) (wordAt blob place) := by
      intro place hplace
      exact (reads_readWord blob (Nat.lt_of_le_of_lt hplace (by decide))).1 (by omega)
    -- The two lists are read by the same loop, for other sizes.
    have hformats := reads_readItems (show 4 ≤ 24 by decide)
      (fun place h => reads_readWord blob (show place + 4 < UInt64.size by omega))
      (wordAt blob 12) (wordAt blob 8)
    have hrecords := reads_readItems (Nat.le_refl 24) (fun place => reads_readRecord blob)
      (wordAt blob 20) (wordAt blob 16)
    rw [if_neg (Nat.not_lt.mpr hheader)]
    refine (hword 8 (by decide)).reads ((hword 12 (by decide)).reads ?_)
    refine (hword 16 (by decide)).reads ((hword 20 (by decide)).reads ?_)
    refine Reads.congr ?_ (and_iff_right hheader).symm
    refine hformats.bind fun _ => ?_
    exact hrecords.map _
  · rw [if_pos (Nat.not_le.mp hheader)]
    exact reads_failure (fun h => hheader h.1) _

theorem wordAt_take_drop (place : Nat) :
    wordAt ((blob.drop place).take formatSize) 0 = wordAt blob place := by
  rw [wordAt, wordAt, List.drop_zero, List.take_take]
  rfl

/-- The fields of a record stand at the same places in the block and in the bytes of the record. -/
theorem decode_take_drop (place : Nat) :
    Record.decode ((blob.drop place).take recordSize) = recordIn blob place := by
  have hfield : ∀ skip width, skip + width ≤ recordSize →
      (((blob.drop place).take recordSize).drop skip).take width =
        (blob.drop (place + skip)).take width := by
    intro skip width h
    rw [List.drop_take, List.take_take, List.drop_drop, Nat.min_eq_left (by omega)]
  simp only [Record.decode, recordIn, wordAt, longAt]
  rw [hfield 0 8 (by decide), hfield 8 4 (by decide), hfield 16 8 (by decide), Nat.add_zero]

theorem itemsAt?_of_within {place count size : Nat} (h : Within place count size blob.length) :
    itemsAt? blob place count size = some (blob.drop place) :=
  if_pos (by simpa [Within] using h)

theorem itemsAt?_of_not_within {place count size : Nat} (h : ¬ Within place count size blob.length) :
    itemsAt? blob place count size = none :=
  if_neg (by simpa [Within] using h)

theorem readAll_drop {read : List UInt8 → α} {size : Nat} (place count : Nat) :
    readAll read size count (blob.drop place) =
      (List.range count).map fun i => read ((blob.drop (place + i * size)).take size) := by
  -- Induction for all places at once: the other items begin one item later.
  induction count generalizing place with
  | zero => rfl
  | succ count ih =>
    have hstep : ∀ i, place + size + i * size = place + (i + 1) * size := by
      intro i
      rw [Nat.succ_mul]
      omega
    rw [readAll, List.drop_drop, ih, List.range_succ_eq_map, List.map_cons, List.map_map]
    simp only [hstep, Nat.zero_mul, Nat.add_zero]
    rfl

variable {blob} in
theorem decode?_of_inBounds (h : InBounds blob) : Table.decode? blob = some (tableIn blob) := by
  obtain ⟨hheader, hformats, hrecords⟩ := h
  simp only [Table.decode?, if_neg (Nat.not_lt.mpr hheader), itemsAt?_of_within blob hformats,
    itemsAt?_of_within blob hrecords, Option.bind_eq_bind, Option.bind_some, readAll_drop,
    wordAt_take_drop, decode_take_drop]
  rfl

variable {blob} in
theorem decode?_of_not_inBounds (h : ¬ InBounds blob) : Table.decode? blob = none := by
  rw [Table.decode?]
  -- Too short for a header, or for one of the lists.
  split
  · rfl
  · rename_i hheader
    -- The first list that is out of bounds ends the decoding.
    by_cases hformats : Within (wordAt blob 12).toNat (wordAt blob 8).toNat formatSize blob.length
    · have hrecords : ¬ Within (wordAt blob 20).toNat (wordAt blob 16).toNat recordSize blob.length :=
        fun hrecords => h ⟨Nat.not_lt.mp hheader, hformats, hrecords⟩
      simp only [itemsAt?_of_within blob hformats, itemsAt?_of_not_within blob hrecords]
      rfl
    · simp only [itemsAt?_of_not_within blob hformats]
      rfl

/-- The decoder gives what the steps read. -/
theorem run_readTable : (readTable blob).run = .ok (Table.decode? blob) := by
  by_cases h : InBounds blob
  · rw [(reads_readTable blob).1 h, decode?_of_inBounds h]
  · rw [(reads_readTable blob).2 h, decode?_of_not_inBounds h]

end Blocks

/-- A word has a bit in common with the word of that bit alone if the bit is set in it. -/
theorem and_one_shiftLeft_ne_zero {k : Nat} (hk : k < window) (w : UInt64) :
    (w &&& (1 <<< UInt64.ofNat k) != 0) = w.toNat.testBit k := by
  have hand : (w &&& (1 <<< UInt64.ofNat k)).toNat = (w.toNat.testBit k).toNat * 2 ^ k := by
    rw [UInt64.toNat_and, toNat_one_shiftLeft hk, Nat.and_two_pow]
  rw [Bool.eq_iff_iff, bne_iff_ne, ne_eq, ← UInt64.toNat_inj, hand]
  cases w.toNat.testBit k <;> simp

theorem answers_covers {i : Nat} (hi : i < UInt64.size) (r : Record) :
    Answers (covers r (UInt64.ofNat i)) (r.covers i) := by
  have hoffset : r.offset.toNat < 4294967296 := r.offset.toNat_lt
  -- Offsets are half as wide as a word, so the window ends at a word, whatever the offset.
  have hroom : r.offset.toNat + window < UInt64.size :=
    Nat.lt_trans (Nat.add_lt_add_right hoffset window) (by decide)
  rw [covers, ← UInt64.ofNat_uInt32ToNat]
  refine (answers_plus (n := 64) hroom).bind ?_
  -- Both comparisons are of numbers that fit, so of the numbers themselves.
  have hstart : UInt64.ofNat r.offset.toNat ≤ UInt64.ofNat i ↔ r.offset.toNat ≤ i := by
    rw [UInt64.le_iff_toNat_le, toNat_word (by omega), toNat_word hi]
  have hstop : UInt64.ofNat i < UInt64.ofNat (r.offset.toNat + 64) ↔ i < r.offset.toNat + window := by
    rw [UInt64.lt_iff_toNat_lt, toNat_word hi]
    exact iff_of_eq (congrArg (i < ·) (toNat_word hroom))
  simp only [Bool.and_eq_true, decide_eq_true_eq, hstart, hstop]
  split
  · rename_i hinside
    obtain ⟨hle, hlt⟩ := hinside
    -- Inside the window, the bit for the format decides.
    have hbit : i - r.offset.toNat < window := by omega
    refine (answers_minus hi hle).bind ((answers_bit hbit).bind ?_)
    rw [and_one_shiftLeft_ne_zero hbit, Record.covers]
    simp only [hle, hlt, decide_true, Bool.true_and]
    exact answers_pure _
  · rename_i houtside
    rw [show r.covers i = false by simp [Record.covers, houtside]]
    exact answers_pure false

/-- Whether a format is supported is answered without a wrap, as by the table. -/
theorem answers_supports {t : Table} (h : t.formats.length ≤ UInt64.size) (format : UInt32)
    (modifier : UInt64) : Answers (supports t format modifier) (t.supports format modifier) := by
  rw [supports, Table.supports]
  cases hfound : t.formats.findIdx? (· == format) with
  | none => exact answers_pure false
  | some i =>
    obtain ⟨hi, -⟩ := List.findIdx?_eq_some_iff_getElem.mp hfound
    -- Only records for the modifier are looked into.
    refine answers_anyM fun r _ => ?_
    cases r.modifier == modifier with
    | true => exact answers_covers (Nat.lt_of_lt_of_le hi h) r
    | false => exact answers_pure false

end Steps

theorem Table.isSome_decode?_iff (blob : List UInt8) :
    (decode? blob).isSome = true ↔ Steps.InBounds blob := by
  by_cases h : Steps.InBounds blob
  · simp [Steps.decode?_of_inBounds h, h]
  · simp [Steps.decode?_of_not_inBounds h, h]

/-- Counts are half as wide as a word. -/
theorem Steps.length_formats_tableIn (blob : List UInt8) :
    (tableIn blob).formats.length ≤ UInt64.size := by
  rw [tableIn, List.length_map, List.length_range]
  exact Nat.le_trans (Nat.le_of_lt (wordAt blob 8).toNat_lt) (by decide)

/-- In words, the decoder ends with the same answer for every block, and nothing goes wrong on the way.
It takes the blocks whose header, formats and records lie within them, and lists what stands there.
Nor does anything go wrong when a format is looked up in what was decoded. -/
theorem Table.decodes_in_words (blob : List UInt8) :
    (Steps.readTable blob).run = .ok (decode? blob) ∧
      ((decode? blob).isSome = true ↔ Steps.InBounds blob) ∧
      ∀ t, decode? blob = some t → t = Steps.tableIn blob ∧
        ∀ format modifier,
          (Steps.supports t format modifier).run = .ok (some (t.supports format modifier)) := by
  -- The bounds hold exactly if the table could be decoded.
  refine ⟨Steps.run_readTable blob, isSome_decode?_iff blob, fun t ht => ?_⟩
  have hbounds : Steps.InBounds blob := (isSome_decode?_iff blob).mp (by rw [ht, Option.isSome_some])
  obtain rfl : t = Steps.tableIn blob := by
    rw [Steps.decode?_of_inBounds hbounds] at ht
    exact (Option.some.inj ht).symm
  exact ⟨rfl, Steps.answers_supports (Steps.length_formats_tableIn blob)⟩

/-- A block whose formats stand in the header and whose record is for a window beyond all formats. -/
example :
    let header := [1, 0, 6, 0, 1, 24].flatMap (bytesOf 4)
    let record : Record := ⟨1, 4294967295, 0⟩
    Steps.InBounds (header ++ record.encode) ∧
      Table.decode? (header ++ record.encode) = some ⟨[1, 0, 6, 0, 1, 24], [record]⟩ ∧
      (Steps.supports ⟨[1, 0, 6, 0, 1, 24], [record]⟩ 24 0).run = .ok (some false) :=
  ⟨by decide +kernel, by decide +kernel, rfl⟩

end Format
end Scanout
