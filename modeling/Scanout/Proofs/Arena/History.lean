import Mathlib.Data.List.Induction
import Scanout.Proofs.Arena

/-! Handles over a whole history of edits. As long as no generation starts over, a handle names the object
that was stored under it, from then until it is taken out, and it never names another one. -/

namespace Scanout
namespace Arena

variable {α : Type}

inductive Edit (α : Type) where
  | insert (x : α)
  | modify (h : Handle) (f : α → α)
  | remove (h : Handle)

def edit (a : Arena α) : Edit α → Arena α
  | .insert x => (a.insert x).2
  | .modify h f => a.modify h f
  | .remove h => a.remove h

def editAll (a : Arena α) (edits : List (Edit α)) : Arena α := edits.foldl edit a

def issued? (a : Arena α) : Edit α → Option Handle
  | .insert x => some (a.insert x).1
  | .modify _ _ => none
  | .remove _ => none

def issued (a : Arena α) : List (Edit α) → List Handle
  | [] => []
  | e :: edits => (a.issued? e).toList ++ (a.edit e).issued edits

def handlesOf (handles : List Handle) (i : Nat) : Nat := handles.countP fun h => h.index.toNat = i

def reuses (edits : List (Edit α)) (i : Nat) : Nat := handlesOf (issued {} edits) i - 1

def Edit.seen (h : Handle) (x : α) : Edit α → α
  | .modify h' f => if h' = h then f x else x
  | _ => x

def Holds (edits : List (Edit α)) (h : Handle) (y : α) : Prop :=
  ∃ earlier x later, edits = earlier ++ .insert x :: later ∧
    ((({} : Arena α).editAll earlier).insert x).1 = h ∧ .remove h ∉ later ∧
    y = later.foldl (Edit.seen h) x

def take? (a : Arena α) (h : Handle) : Option (α × Arena α) :=
  (a.slot? h).bind fun s => s.value.map fun x =>
    (x, ⟨a.slots.set h.index.toNat { s with value := none }, h.index.toNat :: a.free⟩)

theorem editAll_append (a : Arena α) (edits : List (Edit α)) (e : Edit α) :
    a.editAll (edits ++ [e]) = (a.editAll edits).edit e := by
  simp [editAll]

theorem issued_append (a : Arena α) (edits : List (Edit α)) (e : Edit α) :
    a.issued (edits ++ [e]) = a.issued edits ++ ((a.editAll edits).issued? e).toList := by
  induction edits generalizing a with
  | nil => simp [issued, editAll]
  | cons e' edits ih =>
    simp only [List.cons_append, issued, ih, List.append_assoc]
    rfl

/-- Exactly what a handle names can be taken out, and then the rest is left as by a removal. -/
theorem take?_eq_some_iff (a : Arena α) (h : Handle) (x : α) (b : Arena α) :
    a.take? h = some (x, b) ↔ a.get? h = some x ∧ b = a.remove h := by
  -- To empty the slot through its handle is to set it to an empty one.
  have hmodify : ∀ s, a.slots[h.index.toNat]? = some s →
      a.slots.modify h.index.toNat (fun s => { s with value := none }) =
        a.slots.set h.index.toNat { s with value := none } := by
    intro s hs
    obtain ⟨hlt, rfl⟩ := List.getElem?_eq_some_iff.mp hs
    refine List.ext_getElem? fun i => ?_
    by_cases hi : h.index.toNat = i
    · subst hi
      simp [hlt]
    · simp [hi]
  constructor
  -- The handle resolves, and taking it is removing it.
  · intro htake
    obtain ⟨s, hs, hvalue⟩ := Option.bind_eq_some_iff.mp htake
    obtain ⟨x', hx', hpair⟩ := Option.map_eq_some_iff.mp hvalue
    cases hpair
    have hget : a.get? h = some x := by rw [get?, hs, Option.bind_some, hx']
    have hslot := (Option.filter_eq_some_iff.mp hs).1
    refine ⟨hget, ?_⟩
    rw [remove, hget, Option.isSome_some, if_pos rfl, hmodify s hslot]
  · rintro ⟨hget, rfl⟩
    obtain ⟨s, hs, hvalue⟩ := Option.bind_eq_some_iff.mp hget
    have hslot := (Option.filter_eq_some_iff.mp hs).1
    rw [take?, hs, Option.bind_some, hvalue, Option.map_some, remove, hget, Option.isSome_some,
      if_pos rfl, hmodify s hslot]

/-- No edit gives up a slot. -/
theorem length_slots_edit_le (a : Arena α) (e : Edit α) :
    a.slots.length ≤ (a.edit e).slots.length := by
  cases e with
  | insert x =>
    simp only [edit, insert]
    split <;> simp
  | modify h f => simp [edit, modify]
  | remove h =>
    simp only [edit, remove]
    split <;> simp

theorem wellFormed_edit {a : Arena α} (hw : a.WellFormed) {e : Edit α}
    (hroom : (a.edit e).slots.length < UInt32.size) : (a.edit e).WellFormed := by
  have hr : a.HasRoom := Nat.lt_of_le_of_lt (length_slots_edit_le a e) hroom
  cases e with
  | insert x => exact wellFormed_insert hw hr x
  | modify h f => exact wellFormed_modify hw h f
  | remove h => exact wellFormed_remove hw h

theorem handlesOf_append (handles : List Handle) (h : Handle) (i : Nat) :
    handlesOf (handles ++ [h]) i = handlesOf handles i + if h.index.toNat = i then 1 else 0 := by
  simp [handlesOf, List.countP_append, List.countP_singleton]

/-- The handles that were answered so far are accounted for by the slots: none is ahead of its slot's
generation, and the generation tells how many there are. -/
structure Accounts (handles : List Handle) (a : Arena α) : Prop where
  nodup : handles.Nodup
  not_ahead : ∀ h ∈ handles, ∃ s, a.slots[h.index.toNat]? = some s ∧ h.generation ≤ s.generation
  count : ∀ i s, a.slots[i]? = some s → handlesOf handles i = s.generation.toNat + 1

theorem accounts_nil : Accounts [] ({} : Arena α) :=
  ⟨List.nodup_nil, by simp, by simp⟩

/-- Only the generations of the slots matter. -/
theorem Accounts.of_generations {handles : List Handle} {a b : Arena α} (h : Accounts handles a)
    (hsame : b.slots.map Slot.generation = a.slots.map Slot.generation) : Accounts handles b := by
  -- The generation of each slot is all that the account is about.
  have hat : ∀ i : Nat, b.slots[i]?.map Slot.generation = a.slots[i]?.map Slot.generation := by
    intro i
    rw [← List.getElem?_map, hsame, List.getElem?_map]
  refine ⟨h.nodup, fun h' hmem => ?_, fun i s hs => ?_⟩
  · obtain ⟨s, hs, hle⟩ := h.not_ahead h' hmem
    obtain ⟨s', hs', hgen⟩ := Option.map_eq_some_iff.mp ((hat _).trans (by rw [hs, Option.map_some]))
    exact ⟨s', hs', hgen ▸ hle⟩
  · obtain ⟨s', hs', hgen⟩ :=
      Option.map_eq_some_iff.mp ((hat i).symm.trans (by rw [hs, Option.map_some]))
    rw [h.count i s' hs', hgen]

/-- Removing a value leaves the generations as they are. -/
theorem generations_remove (a : Arena α) (h : Handle) :
    (a.remove h).slots.map Slot.generation = a.slots.map Slot.generation := by
  unfold remove
  split
  -- The slot is emptied, and stays in its generation.
  · refine List.ext_getElem? fun i => ?_
    simp only [List.getElem?_map, List.getElem?_modify]
    cases a.slots[i]? with
    | none => simp
    | some s => by_cases hi : h.index.toNat = i <;> simp [hi]
  · rfl

section Insert

variable {handles : List Handle} {a : Arena α} (h : Accounts handles a) (hw : a.WellFormed)
include h

/-- A new slot has had no handle before. -/
theorem Accounts.grow (hfree : a.free = []) (hr : a.HasRoom) (x : α) :
    Accounts (handles ++ [(a.insert x).1]) (a.insert x).2 := by
  have hins : a.insert x =
      (⟨UInt32.ofNat a.slots.length, 0⟩, { a with slots := a.slots ++ [⟨0, some x⟩] }) := by
    simp [insert, hfree]
  -- All earlier handles are to slots that were there.
  have hold : ∀ h' ∈ handles, h'.index.toNat < a.slots.length := by
    intro h' hmem
    obtain ⟨s, hs, -⟩ := h.not_ahead h' hmem
    exact (List.getElem?_eq_some_iff.mp hs).1
  have hindex : (UInt32.ofNat a.slots.length).toNat = a.slots.length := toNat_index hr
  rw [hins]
  refine ⟨?_, ?_, ?_⟩
  -- The new slot has had no handle yet.
  · refine List.nodup_append.mpr ⟨h.nodup, by simp, fun h' hmem h'' hnew heq => ?_⟩
    have hlt := hold h' hmem
    rw [heq, List.mem_singleton.mp hnew, hindex] at hlt
    exact Nat.lt_irrefl _ hlt
  · intro h' hmem
    rcases List.mem_append.mp hmem with hmem | hmem
    · obtain ⟨s, hs, hle⟩ := h.not_ahead h' hmem
      exact ⟨s, by rw [List.getElem?_append_left (hold h' hmem), hs], hle⟩
    · rw [List.mem_singleton.mp hmem]
      exact ⟨⟨0, some x⟩, by simp [hindex], UInt32.le_refl _⟩
  -- One handle has been issued for each generation of a slot, the new one included.
  · intro i s hs
    rw [handlesOf_append, hindex]
    rcases Nat.lt_trichotomy i a.slots.length with hlt | rfl | hgt
    · rw [List.getElem?_append_left hlt] at hs
      rw [h.count i s hs, if_neg (Nat.ne_of_gt hlt), Nat.add_zero]
    · have hnone : handlesOf handles a.slots.length = 0 := by
        refine List.countP_eq_zero.mpr fun h' hmem => ?_
        simpa using Nat.ne_of_lt (hold h' hmem)
      obtain rfl : s = ⟨0, some x⟩ := by simpa using hs.symm
      simp [hnone]
    · rw [List.getElem?_eq_none (by simp; omega)] at hs
      cases hs

include hw

/-- A slot that is given out again moves on to a generation that no handle has had. -/
theorem Accounts.reuse {i : Nat} {free : List Nat} (hfree : a.free = i :: free) (x : α)
    (hcount : handlesOf handles i < UInt32.size) :
    Accounts (handles ++ [(a.insert x).1]) (a.insert x).2 := by
  obtain ⟨g, hg, hins⟩ := insert_of_free hw hfree x
  have hlt : i < a.slots.length := (List.getElem?_eq_some_iff.mp hg).1
  have hindex : (UInt32.ofNat i).toNat = i := toNat_index (Nat.lt_of_lt_of_le hlt hw.length_le)
  have hcounted : handlesOf handles i = g.toNat + 1 := h.count i _ hg
  -- The generation cannot wrap, as there are still handles to come for the slot.
  have hnext : (g + 1).toNat = g.toNat + 1 := by
    rw [UInt32.toNat_add, UInt32.toNat_one, Nat.mod_eq_of_lt (hcounted ▸ hcount)]
  rw [hins]
  refine ⟨?_, ?_, ?_⟩
  -- No earlier handle is ahead of its slot, so none is of the next generation.
  · refine List.nodup_append.mpr ⟨h.nodup, by simp, fun h' hmem h'' hnew heq => ?_⟩
    obtain ⟨s, hs, hle⟩ := h.not_ahead h' hmem
    rw [heq, List.mem_singleton.mp hnew] at hs hle
    rw [hindex, hg] at hs
    cases hs
    rw [UInt32.le_iff_toNat_le, hnext] at hle
    exact Nat.not_succ_le_self _ hle
  · intro h' hmem
    rcases List.mem_append.mp hmem with hmem | hmem
    · obtain ⟨s, hs, hle⟩ := h.not_ahead h' hmem
      by_cases hi : i = h'.index.toNat
      · subst hi
        rw [hg] at hs
        cases hs
        have hnewer : g ≤ g + 1 := by rw [UInt32.le_iff_toNat_le, hnext]; exact Nat.le_succ _
        exact ⟨_, List.getElem?_set_self hlt, UInt32.le_trans hle hnewer⟩
      · exact ⟨s, by rw [List.getElem?_set_ne hi, hs], hle⟩
    · rw [List.mem_singleton.mp hmem]
      exact ⟨_, by rw [hindex]; exact List.getElem?_set_self hlt, UInt32.le_refl _⟩
  -- The slot has now had one more handle.
  · intro j s hs
    rw [handlesOf_append, hindex]
    by_cases hij : i = j
    · subst hij
      rw [List.getElem?_set_self hlt] at hs
      cases hs
      rw [hcounted, if_pos rfl, hnext]
    · rw [List.getElem?_set_ne hij] at hs
      rw [h.count j s hs, if_neg hij, Nat.add_zero]

end Insert

theorem Accounts.edit {handles : List Handle} {a : Arena α} (h : Accounts handles a)
    (hw : a.WellFormed) {e : Edit α} (hroom : (a.edit e).slots.length < UInt32.size)
    (hcount : ∀ i, handlesOf (handles ++ (a.issued? e).toList) i ≤ UInt32.size) :
    Accounts (handles ++ (a.issued? e).toList) (a.edit e) := by
  cases e with
  | insert x =>
    cases hfree : a.free with
    | nil => exact h.grow hfree (Nat.lt_of_le_of_lt (length_slots_edit_le a _) hroom) x
    | cons i free =>
      refine h.reuse hw hfree x ?_
      obtain ⟨g, hg, hins⟩ := insert_of_free hw hfree x
      have hlt : i < a.slots.length := (List.getElem?_eq_some_iff.mp hg).1
      have hindex : (a.insert x).1.index.toNat = i := by
        rw [hins]
        exact toNat_index (Nat.lt_of_lt_of_le hlt hw.length_le)
      -- The handle to come counts as well.
      have hnext := hcount i
      rw [issued?, Option.toList_some, handlesOf_append, if_pos hindex] at hnext
      exact hnext
  | modify h' f =>
    rw [issued?, Option.toList_none, List.append_nil]
    exact h.of_generations (sameSlots_modify a h' f).generations
  | remove h' =>
    rw [issued?, Option.toList_none, List.append_nil]
    exact h.of_generations (generations_remove a h')

/-- No slot of a new arena is given out again so often that its generation starts over, and the indices
of all slots fit into handles. -/
structure Bounded (edits : List (Edit α)) : Prop where
  slots : (({} : Arena α).editAll edits).slots.length < UInt32.size
  reuses : ∀ i, reuses edits i < UInt32.size

theorem Bounded.earlier {edits : List (Edit α)} {e : Edit α} (h : Bounded (edits ++ [e])) :
    Bounded edits := by
  have hslots := h.slots
  rw [editAll_append] at hslots
  refine ⟨Nat.lt_of_le_of_lt (length_slots_edit_le _ e) hslots, fun i => ?_⟩
  refine Nat.lt_of_le_of_lt (Nat.sub_le_sub_right ?_ 1) (h.reuses i)
  rw [issued_append, handlesOf, handlesOf, List.countP_append]
  exact Nat.le_add_right _ _

theorem Bounded.accounts {edits : List (Edit α)} (h : Bounded edits) :
    (({} : Arena α).editAll edits).WellFormed ∧
      Accounts (issued {} edits) (({} : Arena α).editAll edits) := by
  -- The edits are taken up from the end, as each one counts what came before it.
  induction edits using List.reverseRecOn with
  | nil => exact ⟨wellFormed_empty, accounts_nil⟩
  | append_singleton edits e ih =>
    obtain ⟨hw, haccounts⟩ := ih h.earlier
    have hslots := h.slots
    rw [editAll_append] at hslots
    rw [editAll_append, issued_append]
    refine ⟨wellFormed_edit hw hslots, haccounts.edit hw hslots fun i => ?_⟩
    -- The bound on reuses leaves room for one more handle to each slot.
    have hreuses := h.reuses i
    rw [Arena.reuses, issued_append] at hreuses
    omega

/-- The last edit stores an object under the handle, or edits the one that is there already and does
not take it out. -/
theorem holds_append {edits : List (Edit α)} {e : Edit α} {h : Handle} {y : α} :
    Holds (edits ++ [e]) h y ↔
      e = .insert y ∧ ((({} : Arena α).editAll edits).insert y).1 = h ∨
        e ≠ .remove h ∧ ∃ x, Holds edits h x ∧ y = e.seen h x := by
  constructor
  -- The last edit is the insertion itself, or one after it.
  · rintro ⟨earlier, x, later, heq, hhandle, hkept, rfl⟩
    rcases List.eq_nil_or_concat later with rfl | ⟨later, e', rfl⟩
    · obtain ⟨rfl, hlast⟩ := List.append_inj' heq rfl
      obtain rfl := List.singleton_inj.mp hlast
      exact .inl ⟨rfl, hhandle⟩
    · rw [List.concat_eq_append, ← List.cons_append, ← List.append_assoc] at heq
      obtain ⟨rfl, hlast⟩ := List.append_inj' heq rfl
      obtain rfl := List.singleton_inj.mp hlast
      simp only [List.concat_eq_append, List.mem_append, List.mem_singleton, not_or] at hkept
      refine .inr ⟨Ne.symm hkept.2, _, ⟨earlier, x, later, rfl, hhandle, hkept.1, rfl⟩, ?_⟩
      simp
  · rintro (⟨rfl, hhandle⟩ | ⟨hkept, _, ⟨earlier, x, later, rfl, hhandle, hnot, rfl⟩, rfl⟩)
    · exact ⟨edits, y, [], rfl, hhandle, by simp, rfl⟩
    · refine ⟨earlier, x, later ++ [e], by simp, hhandle, ?_, by simp⟩
      simpa [hnot] using Ne.symm hkept

/-- After an edit a handle resolves to what the edit stores under it, or to what was there before and is
edited and not taken out. -/
theorem get?_edit_eq_some_iff {a : Arena α} (hw : a.WellFormed) {e : Edit α}
    (hroom : (a.edit e).slots.length < UInt32.size) (h : Handle) (y : α) :
    (a.edit e).get? h = some y ↔ e = .insert y ∧ (a.insert y).1 = h ∨
      e ≠ .remove h ∧ ∃ x, a.get? h = some x ∧ y = e.seen h x := by
  -- An insertion adds one handle, a modification changes one value, and a removal drops one.
  cases e with
  | insert x =>
    have hr : a.HasRoom := Nat.lt_of_le_of_lt (length_slots_edit_le a _) hroom
    rw [edit, get?_insert hw hr]
    by_cases hh : h = (a.insert x).1
    · -- The handle is new, so nothing was under it before.
      subst hh
      simp only [get?_insert_fst hw hr, ↓reduceIte, Option.some.injEq, Edit.insert.injEq]
      constructor
      · rintro rfl
        exact .inl ⟨rfl, rfl⟩
      · rintro (⟨rfl, -⟩ | ⟨-, _, hnone, -⟩)
        · rfl
        · cases hnone
    · have hother : ¬ (Edit.insert x = .insert y ∧ (a.insert y).1 = h) := by
        rintro ⟨heq, hhandle⟩
        cases heq
        exact hh hhandle.symm
      rw [if_neg hh, or_iff_right hother]
      simp [Edit.seen]
  | modify h' f =>
    rw [edit, get?_modify]
    by_cases hh : h = h'
    · subst hh
      simp only [↓reduceIte, Option.map_eq_some_iff, Edit.seen]
      simp [eq_comm]
    · simp [hh, Ne.symm hh, Edit.seen]
  | remove h' =>
    rw [edit, get?_remove]
    by_cases hh : h = h'
    · simp [hh]
    · simp [hh, Ne.symm hh, Edit.seen]

/-- A handle resolves to what the history has put under it. -/
theorem Bounded.get?_eq_some_iff {edits : List (Edit α)} (hb : Bounded edits) (h : Handle) (y : α) :
    (({} : Arena α).editAll edits).get? h = some y ↔ Holds edits h y := by
  induction edits using List.reverseRecOn generalizing y with
  | nil => simp [editAll, get?, slot?, Holds]
  | append_singleton edits e ih =>
    have hslots := hb.slots
    rw [editAll_append] at hslots ⊢
    rw [get?_edit_eq_some_iff hb.earlier.accounts.1 hslots, holds_append]
    simp only [ih hb.earlier]

/-- The list holds every value under the handle that resolves to it. -/
theorem mem_toList_iff {a : Arena α} (hw : a.WellFormed) (h : Handle) (x : α) :
    (h, x) ∈ a.toList ↔ a.get? h = some x := by
  rw [Arena.get?_eq_some_iff, toList, List.mem_filterMap]
  constructor
  · rintro ⟨⟨s, i⟩, hmem, hx⟩
    have hs := List.mem_zipIdx_iff_getElem?.mp hmem
    obtain ⟨_, hvalue, hpair⟩ := Option.map_eq_some_iff.mp hx
    cases hpair
    have hlt : i < a.slots.length := (List.getElem?_eq_some_iff.mp hs).1
    -- The place of a slot fits into the index of its handle.
    simp only [toNat_index (Nat.lt_of_lt_of_le hlt hw.length_le)]
    rw [hs, ← hvalue]
  · intro hs
    exact ⟨(_, h.index.toNat), List.mem_zipIdx_iff_getElem?.mpr hs, by simp⟩

/-- Each live object is listed once. -/
theorem nodup_toList {a : Arena α} (hw : a.WellFormed) : (a.toList.map Prod.fst).Nodup := by
  -- No place is listed twice.
  have hplaces : a.slots.zipIdx.Pairwise fun p q => p.2 ≠ q.2 := by
    have hnodup : (a.slots.zipIdx.map Prod.snd).Nodup := by
      rw [List.zipIdx_map_snd]
      exact List.nodup_range'
    exact List.pairwise_map.mp hnodup
  have hplace : ∀ p ∈ a.slots.zipIdx, (UInt32.ofNat p.2).toNat = p.2 := by
    intro p hp
    have hlt : p.2 < a.slots.length :=
      (List.getElem?_eq_some_iff.mp (List.mem_zipIdx_iff_getElem?.mp hp)).1
    exact toNat_index (Nat.lt_of_lt_of_le hlt hw.length_le)
  rw [List.Nodup, List.pairwise_map, toList, List.pairwise_filterMap]
  refine hplaces.imp_of_mem fun {p q} hp hq hne => ?_
  -- The places are told apart by the indices of the handles.
  intro y hy y' hy' hsame
  obtain ⟨_, -, rfl⟩ := Option.map_eq_some_iff.mp hy
  obtain ⟨_, -, rfl⟩ := Option.map_eq_some_iff.mp hy'
  have hindex : (UInt32.ofNat p.2).toNat = (UInt32.ofNat q.2).toNat :=
    congrArg (fun h : Handle => h.index.toNat) hsame
  rw [hplace p hp, hplace q hq] at hindex
  exact hne hindex

theorem remove_eq_self {a : Arena α} {h : Handle} (hnone : a.get? h = none) : a.remove h = a := by
  simp [remove, hnone]

/-- Handles are safe in an arena that was new once, whatever was done to it, if no generation has started
over. All handles that it has answered are different. A handle resolves from when its object is stored
until it is taken out and at no other time, and to the object as it was edited last. An object can be
taken out exactly while its handle resolves, and no other handle notices. All live objects are listed once
under their handles, and the free list has each empty slot once. -/
theorem handles_safe {edits : List (Edit α)} (hb : Bounded edits) :
    let a := ({} : Arena α).editAll edits
    (issued {} edits).Nodup ∧
      (∀ h y, a.get? h = some y ↔ Holds edits h y) ∧
      (∀ h x b, a.take? h = some (x, b) ↔ a.get? h = some x ∧ b = a.remove h) ∧
      (∀ h h', (a.remove h).get? h' = if h' = h then none else a.get? h') ∧
      (∀ h, a.get? h = none → a.remove h = a) ∧
      (a.toList.map Prod.fst).Nodup ∧ (∀ h x, (h, x) ∈ a.toList ↔ a.get? h = some x) ∧
      a.free.Nodup ∧ ∀ i, i ∈ a.free ↔ ∃ g, a.slots[i]? = some ⟨g, none⟩ := by
  intro a
  obtain ⟨hw, haccounts⟩ := hb.accounts
  exact ⟨haccounts.nodup, hb.get?_eq_some_iff, take?_eq_some_iff a, get?_remove a,
    fun _ => remove_eq_self, nodup_toList hw, mem_toList_iff hw, hw.free_nodup, hw.mem_free_iff⟩

/-- Two numbers are stored, and the first is taken out twice. Its slot then serves for a third number,
which is edited through its own handle and through the one that has gone stale. -/
def recycled : List (Edit Nat) :=
  [.insert 1, .insert 2, .remove ⟨0, 0⟩, .remove ⟨0, 0⟩, .insert 3, .modify ⟨0, 1⟩ (· + 10),
    .modify ⟨0, 0⟩ (· + 100)]

/-- The stale handle resolves no more, and nothing that was done through it shows. -/
theorem handles_safe_recycled :
    Bounded recycled ∧ issued {} recycled = [⟨0, 0⟩, ⟨1, 0⟩, ⟨0, 1⟩] ∧ (issued {} recycled).Nodup ∧
      Holds recycled ⟨0, 1⟩ 13 ∧ Holds recycled ⟨1, 0⟩ 2 ∧ ∀ y, ¬ Holds recycled ⟨0, 0⟩ y := by
  have hissued : issued {} recycled = [⟨0, 0⟩, ⟨1, 0⟩, ⟨0, 1⟩] := by decide
  have hbounded : Bounded recycled := by
    refine ⟨by decide, fun i => ?_⟩
    -- There are three handles in all, so no slot can have had more.
    have hfew : handlesOf (issued {} recycled) i ≤ 3 := hissued ▸ List.countP_le_length
    have hreuses : reuses recycled i ≤ 3 := Nat.le_trans (Nat.sub_le _ _) hfew
    exact Nat.lt_of_le_of_lt hreuses (by decide)
  obtain ⟨hnodup, hresolves, -⟩ := handles_safe hbounded
  refine ⟨hbounded, hissued, hnodup, (hresolves _ _).mp (by decide), (hresolves _ _).mp (by decide),
    fun y hy => ?_⟩
  have hstale := (hresolves _ _).mpr hy
  rw [show (({} : Arena Nat).editAll recycled).get? ⟨0, 0⟩ = none by decide] at hstale
  cases hstale

end Arena
end Scanout
