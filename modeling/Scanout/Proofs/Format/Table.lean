import Mathlib.Algebra.Group.Nat.Defs
import Mathlib.Data.List.Nodup
import Mathlib.Data.List.Perm.Subperm
import Scanout.Format.Table

namespace Scanout
namespace Format

/-- One bit, moved to its place within a word. -/
theorem toNat_one_shiftLeft {k : Nat} (hk : k < window) :
    ((1 : UInt64) <<< UInt64.ofNat k).toNat = 2 ^ k := by
  have hword : k < UInt64.size := Nat.lt_trans hk (by decide)
  calc ((1 : UInt64) <<< UInt64.ofNat k).toNat
      = 1 <<< (k % 64) % 2 ^ 64 := by
        rw [UInt64.toNat_shiftLeft, UInt64.toNat_ofNat_of_lt' hword, UInt64.toNat_one]
    _ = 2 ^ k % 2 ^ 64 := by
        rw [show k % 64 = k from Nat.mod_eq_of_lt hk, Nat.shiftLeft_eq, Nat.one_mul]
    _ = 2 ^ k := Nat.mod_eq_of_lt (Nat.pow_lt_pow_right (by decide) hk)

theorem testBit_one_shiftLeft {k : Nat} (hk : k < window) (j : Nat) :
    ((1 : UInt64) <<< UInt64.ofNat k).toNat.testBit j = decide (k = j) := by
  rw [toNat_one_shiftLeft hk, Nat.testBit_two_pow]

namespace Record

def slot (r : Record) : UInt64 × Nat := (r.modifier, r.offset.toNat / window)

theorem covers_eq_true_iff (r : Record) (i : Nat) :
    r.covers i = true ↔ r.offset.toNat ≤ i ∧ i < r.offset.toNat + window ∧
      r.formats.toNat.testBit (i - r.offset.toNat) = true := by
  simp [covers, and_assoc]

theorem slot_eq_iff {r r' : Record} (h : window ∣ r.offset.toNat) (h' : window ∣ r'.offset.toNat) :
    r.slot = r'.slot ↔ r.modifier = r'.modifier ∧ r.offset = r'.offset := by
  rw [slot, slot, Prod.mk.injEq, Nat.div_left_inj h h', UInt32.toNat_inj]

end Record

namespace Table

theorem offset_recordAt {i : Nat} (hi : i < UInt32.size) (modifier : UInt64) :
    (recordAt i modifier).offset.toNat = i / window * window :=
  UInt32.toNat_ofNat_of_lt' (Nat.lt_of_le_of_lt (Nat.div_mul_le_self i window) hi)

theorem dvd_offset_recordAt {i : Nat} (hi : i < UInt32.size) (modifier : UInt64) :
    window ∣ (recordAt i modifier).offset.toNat :=
  offset_recordAt hi modifier ▸ Nat.dvd_mul_left window _

/-- The record made for one position allows nothing else. -/
theorem covers_recordAt {i : Nat} (hi : i < UInt32.size) (modifier : UInt64) (j : Nat) :
    (recordAt i modifier).covers j = true ↔ j = i := by
  have hoffset := offset_recordAt hi modifier
  have hbelow : i / window * window ≤ i := Nat.div_mul_le_self i window
  have habove : i < i / window * window + window := Nat.lt_div_mul_add (by decide)
  have hbits : (recordAt i modifier).formats =
      (1 : UInt64) <<< UInt64.ofNat (i - i / window * window) := rfl
  rw [Record.covers_eq_true_iff, hoffset, hbits, testBit_one_shiftLeft (by omega), decide_eq_true_eq]
  omega

def allows (records : List Record) (i : Nat) (modifier : UInt64) : Bool :=
  records.any fun r => r.modifier == modifier && r.covers i

variable {records : List Record} {new : Record}

theorem mergeRecord_cons (r : Record) (records : List Record) (new : Record) :
    mergeRecord (r :: records) new =
      if r.modifier = new.modifier ∧ r.offset = new.offset then
        { r with formats := r.formats ||| new.formats } :: records
      else r :: mergeRecord records new := by
  simp only [mergeRecord, List.findIdx?_cons, Bool.and_eq_true, beq_iff_eq]
  -- The first record may be the one to join, or it is passed.
  by_cases hsame : r.modifier = new.modifier ∧ r.offset = new.offset
  · simp [hsame]
  · simp only [if_neg hsame]
    cases records.findIdx? fun r => r.modifier == new.modifier && r.offset == new.offset <;> rfl

/-- What a new record allows is added, and nothing else. -/
theorem allows_mergeRecord (i : Nat) (modifier : UInt64) :
    allows (mergeRecord records new) i modifier = true ↔
      allows records i modifier = true ∨ new.modifier = modifier ∧ new.covers i = true := by
  -- Induction on the list, up to the record that the new one is joined to.
  induction records with
  | nil => simp [mergeRecord, allows]
  | cons r records ih =>
    have hcons : ∀ r' records', allows (r' :: records') i modifier = true ↔
        (r'.modifier = modifier ∧ r'.covers i = true) ∨ allows records' i modifier = true := by
      intro r' records'
      simp [allows]
    rw [mergeRecord_cons]
    split
    -- Joined, the record covers what either of the two did.
    · rename_i hsame
      obtain ⟨hmodifier, hoffset⟩ := hsame
      have hjoined : ({ r with formats := r.formats ||| new.formats } : Record).covers i = true ↔
          r.covers i = true ∨ new.covers i = true := by
        simp only [Record.covers_eq_true_iff, UInt64.toNat_or, Nat.testBit_or, Bool.or_eq_true,
          ← hoffset]
        tauto
      rw [hcons, hcons, hjoined, ← hmodifier]
      tauto
    · rw [hcons, hcons, ih, or_assoc]

/-- Merging keeps every window at a multiple of its length. -/
theorem dvd_offset_mergeRecord (h : ∀ r ∈ records, window ∣ r.offset.toNat)
    (hnew : window ∣ new.offset.toNat) :
    ∀ r ∈ mergeRecord records new, window ∣ r.offset.toNat := by
  -- Induction on the records that are passed.
  induction records with
  | nil => simpa [mergeRecord] using hnew
  | cons r records ih =>
    rw [List.forall_mem_cons] at h
    rw [mergeRecord_cons]
    split
    · exact List.forall_mem_cons.mpr h
    · exact List.forall_mem_cons.mpr ⟨h.1, ih h.2⟩

/-- A slot is added only if there is no record for it. -/
theorem slots_mergeRecord (h : ∀ r ∈ records, window ∣ r.offset.toNat)
    (hnew : window ∣ new.offset.toNat) : (mergeRecord records new).map Record.slot =
      if new.slot ∈ records.map Record.slot then records.map Record.slot
      else records.map Record.slot ++ [new.slot] := by
  -- The record is joined to one of its slot, or comes last.
  induction records with
  | nil => simp [mergeRecord]
  | cons r records ih =>
    rw [List.forall_mem_cons] at h
    simp only [mergeRecord_cons, ← Record.slot_eq_iff h.1 hnew]
    by_cases hslot : r.slot = new.slot
    · rw [if_pos hslot, if_pos (List.mem_map.mpr ⟨r, .head _, hslot⟩)]
      rfl
    · have hmem : new.slot ∈ r.slot :: records.map Record.slot ↔ new.slot ∈ records.map Record.slot := by
        rw [List.mem_cons, or_iff_right (Ne.symm hslot)]
      simp only [if_neg hslot, List.map_cons, hmem, ih h.2]
      split <;> rfl

theorem nodup_slots_mergeRecord (h : ∀ r ∈ records, window ∣ r.offset.toNat)
    (hnew : window ∣ new.offset.toNat) (hnodup : (records.map Record.slot).Nodup) :
    ((mergeRecord records new).map Record.slot).Nodup := by
  rw [slots_mergeRecord h hnew]
  split
  · exact hnodup
  · rename_i hfresh
    exact List.nodup_append_comm.mp (List.nodup_cons.mpr ⟨hfresh, hnodup⟩)

/-- The table has each format of the pairs at one position, and a position is allowed with a modifier
exactly if the format there is paired with it. -/
structure Lists (t : Table) (pairs : List (UInt32 × UInt64)) : Prop where
  formats_nodup : t.formats.Nodup
  mem_formats_iff : ∀ format, format ∈ t.formats ↔ ∃ modifier, (format, modifier) ∈ pairs
  aligned : ∀ r ∈ t.records, window ∣ r.offset.toNat
  slots_nodup : (t.records.map Record.slot).Nodup
  allows_iff : ∀ i modifier, allows t.records i modifier = true ↔
    ∃ format, t.formats[i]? = some format ∧ (format, modifier) ∈ pairs

theorem lists_empty : Lists {} [] :=
  ⟨List.nodup_nil, by simp, by simp, List.nodup_nil, by simp [allows]⟩

/-- There are no more different formats than words. -/
theorem length_le_of_nodup {formats : List UInt32} (h : formats.Nodup) :
    formats.length ≤ UInt32.size := by
  -- There are no more formats than 32-bit numbers.
  have hnumbers : (formats.map UInt32.toNat).Nodup :=
    h.map fun _ _ he => UInt32.toNat_inj.mp he
  have hbelow : formats.map UInt32.toNat ⊆ List.range UInt32.size := by
    intro n hn
    obtain ⟨format, -, rfl⟩ := List.mem_map.mp hn
    exact List.mem_range.mpr format.toNat_lt
  calc formats.length = (formats.map UInt32.toNat).length := List.length_map _ |>.symm
    _ ≤ (List.range UInt32.size).length := (hnumbers.subperm hbelow).length_le
    _ = UInt32.size := List.length_range

variable {t : Table} {pairs : List (UInt32 × UInt64)}

/-- One more pair, whose format stands at position `i` of the formats there are then. -/
theorem Lists.pair (h : t.Lists pairs) {formats : List UInt32} {i : Nat} {format : UInt32}
    (hnodup : formats.Nodup) (hbegins : t.formats <+: formats) (hi : formats[i]? = some format)
    (honly : ∀ format' ∈ formats, format' ∈ t.formats ∨ format' = format) (modifier : UInt64) :
    Lists ⟨formats, mergeRecord t.records (recordAt i modifier)⟩ (pairs ++ [(format, modifier)]) := by
  -- The pairs are the earlier ones and the new one.
  have hpaired : ∀ format' modifier', (format', modifier') ∈ pairs ++ [(format, modifier)] ↔
      (format', modifier') ∈ pairs ∨ format' = format ∧ modifier' = modifier := by
    simp
  -- No format has moved.
  have hkept : ∀ {j : Nat} {format'}, t.formats[j]? = some format' →
      formats[j]? = some format' := by
    intro j format' hj
    obtain ⟨hlt, -⟩ := List.getElem?_eq_some_iff.mp hj
    obtain ⟨new, rfl⟩ := hbegins
    rw [List.getElem?_append_left hlt, hj]
  -- No format stands at two positions.
  have hplace : ∀ {j k : Nat} {format'}, formats[j]? = some format' → formats[k]? = some format' →
      j = k := by
    intro j k format' hj hk
    obtain ⟨hlt, -⟩ := List.getElem?_eq_some_iff.mp hj
    exact (List.getElem?_inj hlt hnodup).mp (hj.trans hk.symm)
  have hsize : i < UInt32.size := by
    obtain ⟨hlt, -⟩ := List.getElem?_eq_some_iff.mp hi
    exact Nat.lt_of_lt_of_le hlt (length_le_of_nodup hnodup)
  have hdvd := dvd_offset_recordAt hsize modifier
  refine ⟨hnodup, fun format' => ?_, dvd_offset_mergeRecord h.aligned hdvd,
    nodup_slots_mergeRecord h.aligned hdvd h.slots_nodup, fun j modifier' => ?_⟩
  -- The formats are those of the pairs.
  · simp only [hpaired, exists_or, ← h.mem_formats_iff]
    constructor
    · intro hmem
      rcases honly format' hmem with hknown | rfl
      · exact .inl hknown
      · exact .inr ⟨modifier, rfl, rfl⟩
    · rintro (hknown | ⟨_, rfl, -⟩)
      · exact hbegins.subset hknown
      · exact List.mem_of_getElem? hi
  -- What the records allow is what the pairs say.
  · rw [allows_mergeRecord, h.allows_iff, covers_recordAt hsize]
    constructor
    · rintro (⟨format', hj, hmem⟩ | ⟨rfl, rfl⟩)
      · exact ⟨format', hkept hj, (hpaired _ _).mpr (.inl hmem)⟩
      · exact ⟨format, hi, (hpaired _ _).mpr (.inr ⟨rfl, rfl⟩)⟩
    · rintro ⟨format', hj, hmem⟩
      rcases (hpaired _ _).mp hmem with hmem | ⟨rfl, rfl⟩
      · -- A format that was paired before has a position already, so it is this one.
        obtain ⟨k, hk⟩ := List.mem_iff_getElem?.mp ((h.mem_formats_iff format').mpr ⟨_, hmem⟩)
        obtain rfl := hplace hj (hkept hk)
        exact .inl ⟨format', hk, hmem⟩
      · exact .inr ⟨rfl, hplace hj hi⟩

theorem notMem_of_findIdx? {format : UInt32} (h : t.formats.findIdx? (· == format) = none) :
    format ∉ t.formats := by
  intro hmem
  have hother := List.findIdx?_eq_none_iff.mp h format hmem
  simp at hother

theorem getElem?_of_findIdx? {format : UInt32} {i : Nat}
    (h : t.formats.findIdx? (· == format) = some i) : t.formats[i]? = some format := by
  obtain ⟨hi, hat, -⟩ := List.findIdx?_eq_some_iff_getElem.mp h
  rw [List.getElem?_eq_getElem hi, beq_iff_eq.mp hat]

/-- A table that lists some pairs lists one more after an insertion. -/
theorem Lists.insert (h : t.Lists pairs) (format : UInt32) (modifier : UInt64) :
    (t.insert format modifier).Lists (pairs ++ [(format, modifier)]) := by
  rw [Table.insert]
  -- The format is known, or is added at the end.
  split
  · rename_i i hfound
    exact h.pair h.formats_nodup List.prefix_rfl (getElem?_of_findIdx? hfound) (fun _ => .inl) modifier
  · rename_i hunknown
    have hnodup : (t.formats ++ [format]).Nodup :=
      List.nodup_append_comm.mp
        (List.nodup_cons.mpr ⟨notMem_of_findIdx? hunknown, h.formats_nodup⟩)
    exact h.pair hnodup (List.prefix_append _ _) (by simp) (by simp) modifier

/-- The table made from pairs lists exactly these. -/
theorem lists_ofPairs (pairs : List (UInt32 × UInt64)) : (ofPairs pairs).Lists pairs := by
  -- Generalized to a table that lists some pairs already.
  have hfold : ∀ (rest : List (UInt32 × UInt64)) {t : Table} {seen : List (UInt32 × UInt64)},
      t.Lists seen →
      (rest.foldl (fun t pair => t.insert pair.1 pair.2) t).Lists (seen ++ rest) := by
    intro rest
    induction rest with
    | nil =>
      intro t seen h
      rwa [List.append_nil]
    | cons pair rest ih =>
      intro t seen h
      have hrest := ih (h.insert pair.1 pair.2)
      rwa [List.append_assoc] at hrest
  exact hfold pairs lists_empty

/-- A table that lists some pairs supports them, and no others. -/
theorem Lists.supports_iff (h : t.Lists pairs) (format : UInt32) (modifier : UInt64) :
    t.supports format modifier = true ↔ (format, modifier) ∈ pairs := by
  rw [supports]
  split
  -- A format that is not in the table is in no pair.
  · rename_i hunknown
    refine ⟨fun hfalse => absurd hfalse Bool.false_ne_true, fun hmem => ?_⟩
    exact absurd ((h.mem_formats_iff format).mpr ⟨modifier, hmem⟩) (notMem_of_findIdx? hunknown)
  · rename_i i hfound
    have hget := getElem?_of_findIdx? hfound
    refine (h.allows_iff i modifier).trans ⟨?_, fun hmem => ⟨format, hget, hmem⟩⟩
    rintro ⟨format', hget', hmem⟩
    rw [hget] at hget'
    exact Option.some.inj hget' ▸ hmem

end Table
end Format
end Scanout
