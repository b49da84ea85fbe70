import Scanout.Arena

namespace Scanout
namespace Arena

variable {α : Type}

/-- The free list holds the empty slots, each once, and every slot has an index that fits into a
handle. -/
structure WellFormed (a : Arena α) : Prop where
  length_le : a.slots.length ≤ UInt32.size
  free_nodup : a.free.Nodup
  mem_free_iff : ∀ i, i ∈ a.free ↔ ∃ g, a.slots[i]? = some ⟨g, none⟩

def HasRoom (a : Arena α) : Prop := a.slots.length < UInt32.size

theorem get?_eq_some_iff (a : Arena α) (h : Handle) (x : α) :
    a.get? h = some x ↔ a.slots[h.index.toNat]? = some ⟨h.generation, some x⟩ := by
  simp only [get?, slot?, Option.bind_eq_some_iff, Option.filter_eq_some_iff, decide_eq_true_eq]
  constructor
  · rintro ⟨s, ⟨hs, hg⟩, hx⟩
    rw [hs, ← hg, ← hx]
  · intro hs
    exact ⟨_, ⟨hs, rfl⟩, rfl⟩

/-- The position of a slot survives in its handle. -/
theorem toNat_index {i : Nat} (hi : i < UInt32.size) : (UInt32.ofNat i).toNat = i :=
  UInt32.toNat_ofNat_of_lt' hi

/-- Handles of one slot and one generation are the same. -/
theorem handle_eq {h h' : Handle} (hi : h.index.toNat = h'.index.toNat)
    (hg : h.generation = h'.generation) : h = h' := by
  cases h
  cases h'
  simp_all [UInt32.toNat_inj]

/-- An edit shows under its own handle only. -/
theorem get?_modify (a : Arena α) (h : Handle) (f : α → α) (h' : Handle) :
    (a.modify h f).get? h' = if h' = h then (a.get? h').map f else a.get? h' := by
  simp only [get?, slot?, modify, List.getElem?_modify]
  -- The slots are compared first, and then the generations.
  by_cases hi : h.index.toNat = h'.index.toNat
  · cases hs : a.slots[h'.index.toNat]? with
    | none => simp
    | some s =>
      by_cases hg : s.generation = h'.generation
      · by_cases hh : h' = h
        · subst hh
          simp [Option.filter, hg]
        · have hne : h'.generation ≠ h.generation := fun he => hh (handle_eq hi.symm he)
          simp [Option.filter, hi, hg, hh, hne]
      · -- The slot has moved on from `h'`, and an edit through `h` does not change that.
        have hstays : (if s.generation = h.generation then { s with value := s.value.map f }
            else s).generation ≠ h'.generation := by
          split <;> exact hg
        simp [Option.filter, hi, hg, hstays]
  -- Another slot is not edited.
  · have hh : h' ≠ h := fun he => hi (by rw [he])
    simp [hi, hh]

/-- Two edits through a handle are one. -/
theorem modify_modify (a : Arena α) (h : Handle) (f g : α → α) :
    (a.modify h f).modify h g = a.modify h (g ∘ f) := by
  simp only [modify, List.modify_modify_eq]
  congr 2
  funext s
  simp only [Function.comp]
  split <;> simp [*]

theorem get?_map (a : Arena α) (f : α → α) (h : Handle) :
    (a.map f).get? h = (a.get? h).map f := by
  simp only [get?, slot?, map, List.getElem?_map]
  cases hs : a.slots[h.index.toNat]? with
  | none => rfl
  | some s => by_cases hg : s.generation = h.generation <;> simp [Option.filter, hg]

/-- After its removal an object's handle resolves to nothing, and no other handle is touched. -/
theorem get?_remove (a : Arena α) (h h' : Handle) :
    (a.remove h).get? h' = if h' = h then none else a.get? h' := by
  unfold remove
  split
  · rename_i hl
    obtain ⟨x, hx⟩ := Option.isSome_iff_exists.mp hl
    have hslot := (get?_eq_some_iff a h x).mp hx
    simp only [get?, slot?, List.getElem?_modify]
    -- The slot is emptied, so older handles to it resolve to nothing as well.
    by_cases hi : h.index.toNat = h'.index.toNat
    · rw [← hi, hslot]
      by_cases hg : h.generation = h'.generation
      · have hh := handle_eq hi hg
        simp [Option.filter, hh]
      · have hh : h' ≠ h := fun he => hg (by rw [he])
        simp [Option.filter, hg, hh]
    · have hh : h' ≠ h := fun he => hi (by rw [he])
      simp [hi, hh]
  · rename_i hl
    by_cases hh : h' = h
    · subst hh
      simpa using hl
    · simp [hh]

section Insert

variable {a : Arena α} (hw : a.WellFormed)
include hw

/-- A slot that is given out again: where it is, and what becomes of the arena. -/
theorem insert_of_free {i : Nat} {free : List Nat} (hfree : a.free = i :: free) (x : α) :
    ∃ g, a.slots[i]? = some ⟨g, none⟩ ∧
      a.insert x = (⟨UInt32.ofNat i, g + 1⟩, ⟨a.slots.set i ⟨g + 1, some x⟩, free⟩) := by
  obtain ⟨g, hg⟩ := (hw.mem_free_iff i).mp (by simp [hfree])
  exact ⟨g, hg, by simp [insert, hfree, hg]⟩

/-- The object's handle resolves to it, and no other handle is touched. -/
theorem get?_insert (hr : a.HasRoom) (x : α) (h : Handle) :
    (a.insert x).2.get? h = if h = (a.insert x).1 then some x else a.get? h := by
  cases hfree : a.free with
  | nil =>
    -- A slot is added at the end; `HasRoom` makes its index fit into a handle.
    have hins : a.insert x =
        (⟨UInt32.ofNat a.slots.length, 0⟩, { a with slots := a.slots ++ [⟨0, some x⟩] }) := by
      simp [insert, hfree]
    rw [hins]
    -- Is it the new slot that is asked for?
    by_cases hi : h.index.toNat = a.slots.length
    · have hlen : a.slots[h.index.toNat]? = none := by simp [hi]
      by_cases hg : (0 : UInt32) = h.generation
      · have hh : h = ⟨UInt32.ofNat a.slots.length, 0⟩ :=
          handle_eq (hi.trans (toNat_index hr).symm) hg.symm
        simp [get?, slot?, hh, toNat_index hr, Option.filter]
      · have hh : h ≠ ⟨UInt32.ofNat a.slots.length, 0⟩ := fun he => hg (by rw [he])
        simp [get?, slot?, hh, hi, hg, Option.filter]
    · have hh : h ≠ ⟨UInt32.ofNat a.slots.length, 0⟩ := by
        rintro rfl
        exact hi (toNat_index hr)
      -- All older slots are found as before.
      have happ : (a.slots ++ [⟨0, some x⟩])[h.index.toNat]? = a.slots[h.index.toNat]? := by
        rcases Nat.lt_or_ge h.index.toNat a.slots.length with hlt | hge
        · exact List.getElem?_append_left hlt
        · rw [List.getElem?_append_right hge, List.getElem?_eq_none hge]
          exact List.getElem?_eq_none (by simp; omega)
      simp [get?, slot?, hh, happ]
  | cons i free =>
    obtain ⟨g, hg, hins⟩ := insert_of_free hw hfree x
    have hilt : i < a.slots.length := (List.getElem?_eq_some_iff.mp hg).1
    -- A free slot is used again, in its next generation.
    have hi32 : (UInt32.ofNat i).toNat = i := toNat_index (Nat.lt_of_lt_of_le hilt hw.length_le)
    rw [hins]
    -- A handle to the slot that is used again is the new one, or an outdated one.
    by_cases hi : i = h.index.toNat
    · by_cases hgen : g + 1 = h.generation
      · have hh : h = ⟨UInt32.ofNat i, g + 1⟩ := handle_eq (hi.symm.trans hi32.symm) hgen.symm
        simp [get?, slot?, hh, hi32, hilt, Option.filter]
      · -- The empty slot resolves for no handle, whatever its generation.
        have hh : h ≠ ⟨UInt32.ofNat i, g + 1⟩ := fun he => hgen (by rw [he])
        have hnone : a.get? h = none := by
          apply Option.eq_none_iff_forall_ne_some.mpr
          intro y hy
          have hslot := (get?_eq_some_iff a h y).mp hy
          rw [← hi, hg] at hslot
          simp at hslot
        rw [if_neg hh, hnone]
        simp [get?, slot?, ← hi, hilt, hgen, Option.filter]
    · have hh : h ≠ ⟨UInt32.ofNat i, g + 1⟩ := fun he => hi (by rw [he]; exact hi32.symm)
      simp [get?, slot?, hh, List.getElem?_set_ne hi]

/-- The object's handle named nothing before. -/
theorem get?_insert_fst (hr : a.HasRoom) (x : α) : a.get? (a.insert x).1 = none := by
  apply Option.eq_none_iff_forall_ne_some.mpr
  intro y hy
  have hslot := (get?_eq_some_iff a _ y).mp hy
  -- A new slot was not there, and a free one was empty.
  cases hfree : a.free with
  | nil =>
    have hins : (a.insert x).1 = ⟨UInt32.ofNat a.slots.length, 0⟩ := by simp [insert, hfree]
    simp [hins, toNat_index hr] at hslot
  | cons i free =>
    obtain ⟨g, hg, hins⟩ := insert_of_free hw hfree x
    have hilt : i < a.slots.length := (List.getElem?_eq_some_iff.mp hg).1
    simp [hins, toNat_index (Nat.lt_of_lt_of_le hilt hw.length_le), hg] at hslot

theorem wellFormed_insert (hr : a.HasRoom) (x : α) : (a.insert x).2.WellFormed := by
  -- A new slot at the end, or one from the free list.
  cases hfree : a.free with
  | nil =>
    have hins : (a.insert x).2 = { a with slots := a.slots ++ [⟨0, some x⟩] } := by
      simp [insert, hfree]
    rw [hins]
    refine ⟨by simpa using Nat.succ_le_of_lt hr, hw.free_nodup, fun i => ?_⟩
    rw [hw.mem_free_iff i]
    rcases Nat.lt_trichotomy i a.slots.length with hlt | heq | hgt
    · simp [List.getElem?_append_left hlt]
    · simp [heq]
    · simp only [List.getElem?_append_right (Nat.le_of_lt hgt), List.getElem?_eq_none
        (Nat.le_of_lt hgt)]
      rw [List.getElem?_eq_none (by simp; omega)]
  | cons i free =>
    obtain ⟨g, hg, hins⟩ := insert_of_free hw hfree x
    have hnodup : i ∉ free ∧ free.Nodup := by simpa [hfree] using hw.free_nodup
    have hilt : i < a.slots.length := (List.getElem?_eq_some_iff.mp hg).1
    rw [hins]
    refine ⟨by simpa using hw.length_le, hnodup.2, fun j => ?_⟩
    by_cases hij : i = j
    · subst hij
      simp [hnodup.1, hilt]
    · have hmem := hw.mem_free_iff j
      rw [hfree, List.mem_cons, or_iff_right (Ne.symm hij)] at hmem
      simpa [List.getElem?_set_ne hij] using hmem

/-- A stored object has a handle that named nothing before, and no other handle notices. -/
theorem exists_insert (hr : a.HasRoom) (x : α) :
    ∃ h b, a.insert x = (h, b) ∧ b.WellFormed ∧ a.get? h = none ∧
      ∀ h', b.get? h' = if h' = h then some x else a.get? h' :=
  ⟨_, _, rfl, wellFormed_insert hw hr x, get?_insert_fst hw hr x, get?_insert hw hr x⟩

end Insert

section Edits

variable {a : Arena α} (hw : a.WellFormed)
include hw

/-- An edit through a handle fills and empties no slot. -/
theorem wellFormed_modify (h : Handle) (f : α → α) : (a.modify h f).WellFormed := by
  refine ⟨by simpa [modify] using hw.length_le, hw.free_nodup, fun i => ?_⟩
  rw [show (a.modify h f).free = a.free from rfl, hw.mem_free_iff i]
  simp only [modify, List.getElem?_modify]
  cases hs : a.slots[i]? with
  | none => simp
  | some s =>
    obtain ⟨g, v⟩ := s
    -- The slot keeps its generation, and its value is there or not as before.
    by_cases hi : h.index.toNat = i
    · by_cases hg : g = h.generation <;> cases v <;> simp [hi, hg]
    · simp [hi]

theorem wellFormed_map (f : α → α) : (a.map f).WellFormed := by
  refine ⟨by simpa [map] using hw.length_le, hw.free_nodup, fun i => ?_⟩
  rw [show (a.map f).free = a.free from rfl, hw.mem_free_iff i]
  simp only [map, List.getElem?_map]
  cases hs : a.slots[i]? with
  | none => simp
  | some s =>
    obtain ⟨g, v⟩ := s
    cases v <;> simp

theorem wellFormed_remove (h : Handle) : (a.remove h).WellFormed := by
  unfold remove
  split
  · rename_i hl
    obtain ⟨x, hx⟩ := Option.isSome_iff_exists.mp hl
    have hslot := (get?_eq_some_iff a h x).mp hx
    -- The slot is still in use, so it is not on the free list yet.
    have hfresh : h.index.toNat ∉ a.free := by
      rw [hw.mem_free_iff, hslot]
      simp
    refine ⟨by simpa using hw.length_le, List.nodup_cons.mpr ⟨hfresh, hw.free_nodup⟩, fun i => ?_⟩
    rw [List.mem_cons, hw.mem_free_iff i, List.getElem?_modify]
    -- The emptied slot is on the list now, and all others as before.
    by_cases hi : i = h.index.toNat
    · simp [hi, hslot]
    · simp [hi, Ne.symm hi]
  · exact hw

end Edits

structure SameSlots (a b : Arena α) : Prop where
  generations : b.slots.map Slot.generation = a.slots.map Slot.generation
  free : b.free = a.free

theorem SameSlots.trans {a b c : Arena α} (h : SameSlots a b) (h' : SameSlots b c) :
    SameSlots a c := ⟨h'.generations.trans h.generations, h'.free.trans h.free⟩

theorem SameSlots.symm {a b : Arena α} (h : SameSlots a b) : SameSlots b a :=
  ⟨h.generations.symm, h.free.symm⟩

theorem sameSlots_modify (a : Arena α) (h : Handle) (f : α → α) : SameSlots a (a.modify h f) := by
  refine ⟨List.ext_getElem? fun i => ?_, rfl⟩
  simp only [modify, List.getElem?_map, List.getElem?_modify]
  cases a.slots[i]? with
  | none => simp
  | some s =>
    by_cases hi : h.index.toNat = i
    · by_cases hg : s.generation = h.generation <;> simp [hi, hg]
    · simp [hi]

theorem sameSlots_map (a : Arena α) (f : α → α) : SameSlots a (a.map f) := by
  refine ⟨?_, rfl⟩
  simp [map, Function.comp_def]

/-- Arenas with the same slots differ at most in what their handles resolve to. -/
theorem SameSlots.eq {a b : Arena α} (h : SameSlots a b) (hw : a.WellFormed)
    (hget : ∀ h, b.get? h = a.get? h) : b = a := by
  obtain ⟨slots, free⟩ := a
  obtain ⟨slots', free'⟩ := b
  obtain rfl : free' = free := h.free
  -- The slots agree one by one, in generation and in value.
  have hslots : slots' = slots := by
    refine List.ext_getElem? fun i => ?_
    have hgen := congrArg (·[i]?) h.generations
    simp only [List.getElem?_map] at hgen
    cases hs : slots[i]? with
    | none => simpa [hs] using hgen
    | some s =>
      rw [hs] at hgen
      obtain ⟨s', hs', hg⟩ := Option.map_eq_some_iff.mp hgen
      have hi : (UInt32.ofNat i).toNat = i :=
        toNat_index (Nat.lt_of_lt_of_le (List.getElem?_eq_some_iff.mp hs).1 hw.length_le)
      -- The handle of the slot's present generation tells what is in it.
      have hvalue := hget ⟨UInt32.ofNat i, s.generation⟩
      simp only [get?, slot?, hi, hs, hs'] at hvalue
      rw [hs']
      cases s
      cases s'
      simp_all [Option.filter]
  rw [hslots]

theorem wellFormed_empty : ({} : Arena α).WellFormed :=
  ⟨Nat.zero_le _, by simp, by simp⟩

end Arena
end Scanout
