import Scanout.Proofs.Property.Bag

namespace Scanout
namespace Property

inductive Edit where
  | set (name : String) (value : UInt64)
  | remove (name : String)
  | markClean
  deriving DecidableEq, Repr

namespace Edit

def valueFor? (name : String) : Edit → Option UInt64
  | set name' value => if name' = name then some value else none
  | _ => none

end Edit

/-- The edits since a property was last removed, the latest in front. -/
def sinceRemoved (name : String) (latest : List Edit) : List Edit :=
  latest.takeWhile (· ≠ .remove name)

def lastValue? (name : String) (latest : List Edit) : Option UInt64 :=
  latest.findSome? (Edit.valueFor? name)

/-- The value that a property had at the latest clean mark; zero if it was not there then. -/
def valueAtMark (name : String) (latest : List Edit) : UInt64 :=
  (lastValue? name (latest.dropWhile (· ≠ .markClean))).getD 0

def recalled (name : String) (latest : List Edit) : Option (UInt64 × UInt64) :=
  (lastValue? name (sinceRemoved name latest)).map fun value =>
    (value, valueAtMark name (sinceRemoved name latest))

section Recalled

variable {name : String} {latest : List Edit}

theorem valueAtMark_eq_zero (h : lastValue? name latest = none) : valueAtMark name latest = 0 := by
  have hbefore : lastValue? name (latest.dropWhile (· ≠ .markClean)) = none := by
    rw [lastValue?, List.findSome?_eq_none_iff] at h ⊢
    exact fun e he => h e ((List.dropWhile_sublist _).subset he)
  rw [valueAtMark, hbefore, Option.getD_none]

theorem recalled_set (name' : String) (value : UInt64) :
    recalled name (.set name' value :: latest) =
      if name' = name then some (value, ((recalled name latest).map Prod.snd).getD 0)
      else recalled name latest := by
  have hsince : sinceRemoved name (.set name' value :: latest) =
      .set name' value :: sinceRemoved name latest := by
    simp [sinceRemoved]
  have hmark : valueAtMark name (.set name' value :: sinceRemoved name latest) =
      valueAtMark name (sinceRemoved name latest) := by
    simp [valueAtMark]
  simp only [recalled, hsince, hmark]
  by_cases hname : name' = name
  · have hlast : lastValue? name (.set name' value :: sinceRemoved name latest) = some value := by
      simp [lastValue?, Edit.valueFor?, hname]
    rw [if_pos hname, hlast, Option.map_some]
    -- A property that was not there has no clean value yet.
    cases hbefore : lastValue? name (sinceRemoved name latest) with
    | none => rw [valueAtMark_eq_zero hbefore]; rfl
    | some _ => rfl
  · have hlast : lastValue? name (.set name' value :: sinceRemoved name latest) =
        lastValue? name (sinceRemoved name latest) := by
      simp [lastValue?, Edit.valueFor?, hname]
    rw [if_neg hname, hlast]

/-- Removing a property forgets its value and its clean value. -/
theorem recalled_remove (name' : String) : recalled name (.remove name' :: latest) =
    if name' = name then none else recalled name latest := by
  by_cases hname : name' = name
  -- The removal is the latest edit, so nothing came after it.
  · simp [recalled, sinceRemoved, hname, lastValue?]
  · have hsince : sinceRemoved name (.remove name' :: latest) =
        .remove name' :: sinceRemoved name latest := by
      simp [sinceRemoved, hname]
    -- Another property sees none of this.
    have hlast : lastValue? name (.remove name' :: sinceRemoved name latest) =
        lastValue? name (sinceRemoved name latest) := rfl
    have hmark : valueAtMark name (.remove name' :: sinceRemoved name latest) =
        valueAtMark name (sinceRemoved name latest) := by
      simp [valueAtMark]
    simp only [recalled, hsince, hlast, hmark, if_neg hname]

theorem recalled_markClean : recalled name (.markClean :: latest) =
    (recalled name latest).map fun values => (values.1, values.1) := by
  have hsince : sinceRemoved name (.markClean :: latest) = .markClean :: sinceRemoved name latest := by
    simp [sinceRemoved]
  have hlast : lastValue? name (.markClean :: sinceRemoved name latest) =
      lastValue? name (sinceRemoved name latest) := rfl
  simp only [recalled, hsince, hlast, valueAtMark, List.dropWhile_cons, ne_eq, not_true_eq_false,
    decide_false, Bool.false_eq_true, ↓reduceIte]
  cases lastValue? name (sinceRemoved name latest) <;> rfl

end Recalled

namespace Bag

def edit (b : Bag) : Edit → Bag
  | .set name value => (b.set name value).2
  | .remove name => (b.remove name).2
  | .markClean => b.markClean

def editAll (b : Bag) (edits : List Edit) : Bag := edits.foldl edit b

def values? (b : Bag) (name : String) : Option (UInt64 × UInt64) :=
  (b.entries.find? fun e => e.name == name).map fun e => (e.value, e.cleanValue)

variable {b : Bag}

theorem wellFormed_edit (hb : b.WellFormed) (e : Edit) : (b.edit e).WellFormed := by
  cases e with
  | set name value => exact wellFormed_set hb name value
  | remove name => exact wellFormed_remove hb name
  | markClean => exact wellFormed_markClean hb

theorem wellFormed_editAll (hb : b.WellFormed) (edits : List Edit) : (b.editAll edits).WellFormed := by
  induction edits generalizing b with
  | nil => exact hb
  | cons e edits ih => exact ih (wellFormed_edit hb e)

theorem mem_names_iff {name : String} : name ∈ b.names ↔ ∃ e ∈ b.entries, e.name = name := by
  simp [names]

/-- An entry of another name is found as before a change that keeps the names. -/
theorem find?_map_of_name (f : Entry → Entry) (hf : ∀ e, (f e).name = e.name) (name : String) :
    ((b.entries.map f).find? fun e => e.name == name) =
      (b.entries.find? fun e => e.name == name).map f := by
  rw [List.find?_map]
  congr 2
  funext e
  simp only [Function.comp, hf]

section WellFormed

variable (hb : b.WellFormed)
include hb

/-- To set a property at its place is to set it wherever its name is. -/
theorem modify_eq_map {i : Nat} {name : String} (hi : b.names[i]? = some name) (value : UInt64) :
    b.entries.modify i ({ · with value }) =
      b.entries.map fun e => if e.name = name then { e with value } else e := by
  refine List.ext_getElem? fun j => ?_
  rw [List.getElem?_modify, List.getElem?_map]
  -- Entry by entry, the one at the place given is the one of that name.
  cases hj : b.entries[j]? with
  | none => rfl
  | some e =>
    have hname : b.names[j]? = some e.name := getElem?_names.mpr ⟨e, hj, rfl⟩
    by_cases hij : i = j
    · subst hij
      obtain rfl := Option.some.inj (hname.symm.trans hi)
      simp
    · have hother : e.name ≠ name := by
        rintro rfl
        obtain ⟨hlt, -⟩ := List.getElem?_eq_some_iff.mp hi
        exact hij ((List.getElem?_inj hlt hb.nodup).mp (hi.trans hname.symm))
      simp [hij, hother]

theorem place?_isSome_iff (name : String) : (b.place? name).isSome ↔ name ∈ b.names := by
  rw [Option.isSome_iff_exists, List.mem_iff_getElem?]
  exact exists_congr fun i => place?_eq_some_iff hb name

theorem values?_set (name name' : String) (value : UInt64) : (b.set name' value).2.values? name =
    if name' = name then some (value, ((b.values? name).map Prod.snd).getD 0) else b.values? name := by
  -- An existing entry takes the value where it is, and a new one comes last.
  unfold set
  cases hplace : b.place? name' with
  | some i =>
    have hi := (place?_eq_some_iff hb name').mp hplace
    simp only [values?, modify_eq_map hb hi value]
    rw [find?_map_of_name _ fun e => by split <;> rfl]
    cases hfind : b.entries.find? fun e => e.name == name with
    | none =>
      -- The name that was set is there, so it is another one.
      obtain ⟨e, he, hname⟩ := getElem?_names.mp hi
      have hne : name' ≠ name := by
        rintro rfl
        have := List.find?_eq_none.mp hfind e (List.mem_of_getElem? he)
        simp [hname] at this
      rw [if_neg hne]
      rfl
    | some e =>
      obtain rfl : e.name = name := by simpa using List.find?_some hfind
      by_cases hname : name' = e.name
      · simp [hname]
      · simp [hname, Ne.symm hname]
  -- No entry has the name, so the appended one is found for it.
  | none =>
    have hnew := notMem_of_place?_eq_none hb name' hplace
    have hfind : (b.entries.find? fun e => e.name == name') = none := by
      rw [List.find?_eq_none]
      intro e he
      simpa using fun hname => hnew (mem_names_iff.mpr ⟨e, he, hname⟩)
    simp only [values?, List.find?_append]
    by_cases hname : name' = name
    · subst hname
      simp [hfind]
    · cases b.entries.find? fun e => e.name == name <;> simp [hname]

/-- What is left after a removal is every entry of another name. -/
theorem mem_entries_remove (name : String) {e : Entry} :
    e ∈ (b.remove name).2.entries ↔ e ∈ b.entries ∧ e.name ≠ name := by
  unfold remove
  cases hfind : b.entries.findIdx? fun e => e.name == name with
  -- Nothing to remove, so the name was not there.
  | none =>
    have habsent : ∀ e ∈ b.entries, e.name ≠ name := by simpa using hfind
    exact ⟨fun he => ⟨he, habsent e he⟩, And.left⟩
  | some i =>
    obtain ⟨hi, hname, -⟩ := List.findIdx?_eq_some_iff_getElem.mp hfind
    have hname : b.entries[i].name = name := by simpa using hname
    have hswap : e ∈ swapRemove b.entries i ↔ e ∈ b.entries ∧ e.name ≠ name := by
      have hafter : ∀ j, (swapRemove b.entries i)[j]? = some e ↔
          e ≠ b.entries[i] ∧ if b.entries.getLast? = some e then j = i else b.entries[j]? = some e :=
        fun j => getElem?_swapRemove_eq_some_iff (List.Nodup.of_map Entry.name hb.nodup)
          (List.getElem?_eq_getElem hi)
      have hother : e ∈ b.entries → (e ≠ b.entries[i] ↔ e.name ≠ name) := fun he =>
        not_congr ⟨fun h => h ▸ hname, fun h =>
          List.inj_on_of_nodup_map hb.nodup he (List.getElem_mem hi) (h.trans hname.symm)⟩
      simp only [List.mem_iff_getElem? (l := swapRemove b.entries i), hafter, exists_and_left]
      -- The last entry moves to the free place, and the others stay.
      by_cases hlast : b.entries.getLast? = some e
      · have he := List.mem_of_getLast? hlast
        simp [hlast, he, hother he]
      · simp only [hlast, ↓reduceIte, ← List.mem_iff_getElem?]
        exact ⟨fun h => ⟨h.2, (hother h.2).mp h.1⟩, fun h => ⟨(hother h.1).mpr h.2, h.1⟩⟩
    simp only
    split <;> exact hswap

/-- Removing a property takes its own values away and no others. -/
theorem values?_remove (name name' : String) : (b.remove name').2.values? name =
    if name' = name then none else b.values? name := by
  have hfind : ((b.remove name').2.entries.find? fun e => e.name == name) =
      if name' = name then none else b.entries.find? fun e => e.name == name := by
    -- Names do not repeat, so to find an entry is to be one of that name.
    refine Option.ext fun e => ?_
    rw [find?_eq_some_iff (wellFormed_remove hb name').nodup, mem_entries_remove hb]
    split
    · rename_i hname
      simp [hname]
    · rename_i hname
      rw [find?_eq_some_iff hb.nodup]
      exact ⟨fun h => ⟨h.1.1, h.2⟩, fun h => ⟨⟨h.1, h.2 ▸ Ne.symm hname⟩, h.2⟩⟩
  rw [values?, hfind]
  split <;> rfl

omit hb in
theorem values?_markClean (name : String) :
    b.markClean.values? name = (b.values? name).map fun values => (values.1, values.1) := by
  simp only [values?, markClean]
  rw [find?_map_of_name (fun e => { e with cleanValue := e.value }) fun _ => rfl]
  simp only [Option.map_map, Function.comp_def]

/-- What an edit makes of a property is what one more edit makes of its past. -/
theorem values?_edit {name : String} {latest : List Edit} (h : b.values? name = recalled name latest)
    (e : Edit) : (b.edit e).values? name = recalled name (e :: latest) := by
  cases e with
  | set name' value => rw [edit, values?_set hb, recalled_set, h]
  | remove name' => rw [edit, values?_remove hb, recalled_remove, h]
  | markClean => rw [edit, values?_markClean, recalled_markClean, h]

theorem values?_editAll {name : String} (edits : List Edit) {latest : List Edit}
    (h : b.values? name = recalled name latest) :
    (b.editAll edits).values? name = recalled name (edits.reverse ++ latest) := by
  induction edits generalizing b latest with
  | nil => exact h
  | cons e edits ih =>
    rw [List.reverse_cons, List.append_assoc]
    exact ih (wellFormed_edit hb e) (values?_edit hb h e)

theorem set_fst_iff (name : String) (value : UInt64) :
    (b.set name value).1 = true ↔ name ∉ b.names := by
  rw [← place?_isSome_iff hb]
  unfold set
  cases b.place? name <;> simp

omit hb in
theorem remove_fst_iff (name : String) : (b.remove name).1 = true ↔ name ∈ b.names := by
  rw [mem_names_iff, ← not_iff_not]
  unfold remove
  -- It is found by its name in the list of entries.
  cases hfind : b.entries.findIdx? fun e => e.name == name with
  | none => simpa using hfind
  | some i =>
    obtain ⟨hi, hname, -⟩ := List.findIdx?_eq_some_iff_getElem.mp hfind
    have hthere : ∃ e ∈ b.entries, e.name = name :=
      ⟨b.entries[i], List.getElem_mem hi, by simpa using hname⟩
    simp only
    split <;> simpa using hthere

/-- The two look-ups of an entry agree with a linear search. -/
theorem get?_eq_find? (name : String) : b.get? name = b.entries.find? fun e => e.name == name :=
  Option.ext fun _ => (get?_eq_some_iff hb name).trans (find?_eq_some_iff hb.nodup).symm

theorem wellKnown?_eq_find? (p : WellKnown) :
    b.wellKnown? p = b.entries.find? fun e => e.name == p.name :=
  Option.ext fun _ => (wellKnown?_eq_some_iff hb).trans (find?_eq_some_iff hb.nodup).symm

theorem places_eq_none_iff (p : WellKnown) : b.places.get p.index = none ↔ p.name ∉ b.names := by
  rw [List.mem_iff_getElem?, Option.eq_none_iff_forall_ne_some, not_exists]
  exact forall_congr' fun i => not_congr (hb.places p i)

theorem lt_size_of_place? {name : String} {i : Nat} (h : b.place? name = some i) : i < b.size := by
  obtain ⟨hi, -⟩ := List.getElem?_eq_some_iff.mp ((place?_eq_some_iff hb name).mp h)
  simpa [names, size] using hi

end WellFormed

/-- A new bag is a finite map after every sequence of edits. The names are unique, and the side table
has the place of each well-known name that is there and nothing for the others. The look-ups find what
a linear search finds, at places within the bag. A property has the value that was set last since it was
last removed, and for a clean value the one it had at the latest mark since then. One more edit tells
whether it has added or removed something. -/
theorem editAll_refines_map (edits : List Edit) :
    let b := empty.editAll edits
    let since := fun name => sinceRemoved name edits.reverse
    b.names.Nodup ∧
      (∀ (p : WellKnown) i, b.places.get p.index = some i ↔
        ∃ e, b.entries[i]? = some e ∧ e.name = p.name) ∧
      (∀ p : WellKnown, b.places.get p.index = none ↔ p.name ∉ b.names) ∧
      (∀ name i, b.place? name = some i → i < b.size) ∧
      (∀ name, b.get? name = b.entries.find? fun e => e.name == name) ∧
      (∀ p : WellKnown, b.wellKnown? p = b.entries.find? fun e => e.name == p.name) ∧
      (∀ name, (b.get? name).map Entry.value = lastValue? name (since name)) ∧
      (∀ name e, b.get? name = some e → e.cleanValue = valueAtMark name (since name)) ∧
      (∀ name value, (b.set name value).1 = true ↔ name ∉ b.names) ∧
      ∀ name, (b.remove name).1 = true ↔ name ∈ b.names := by
  intro b since
  -- The entries and the table of places agree after every edit.
  have hb : b.WellFormed := wellFormed_editAll wellFormed_empty edits
  -- Value and clean value are both what the edits so far say.
  have hvalues : ∀ name, (b.get? name).map (fun e => (e.value, e.cleanValue)) =
      (lastValue? name (since name)).map (·, valueAtMark name (since name)) := by
    intro name
    have hrecalled : b.values? name = recalled name (edits.reverse ++ []) :=
      values?_editAll wellFormed_empty edits rfl
    rw [List.append_nil] at hrecalled
    rw [get?_eq_find? hb]
    exact hrecalled
  refine ⟨hb.nodup, fun p i => (hb.places p i).trans getElem?_names, places_eq_none_iff hb,
    fun name i => lt_size_of_place? hb, get?_eq_find? hb, wellKnown?_eq_find? hb, fun name => ?_,
    fun name e he => ?_, set_fst_iff hb, remove_fst_iff⟩
  -- The value alone, and then the clean value alone.
  · have hvalue := congrArg (Option.map Prod.fst) (hvalues name)
    simpa [Option.map_map, Function.comp_def] using hvalue
  · have hboth := hvalues name
    rw [he, Option.map_some, eq_comm, Option.map_eq_some_iff] at hboth
    obtain ⟨_, -, hpair⟩ := hboth
    exact (Prod.ext_iff.mp hpair).2.symm

end Bag
end Property
end Scanout
