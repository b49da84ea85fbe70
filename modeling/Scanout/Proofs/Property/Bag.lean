import Mathlib.Data.List.Nodup
import Scanout.Property.Bag

namespace Scanout
namespace Property

/-- What stands where after a removal: the last element at `i`, and all others where they were. -/
theorem getElem?_swapRemove {α : Type} {xs : List α} {i : Nat} (hi : i < xs.length) (j : Nat) :
    (swapRemove xs i)[j]? =
      if j + 1 < xs.length then if j = i then xs.getLast? else xs[j]? else none := by
  -- The list is some front and its last element, which moves to the place that becomes free.
  rcases List.eq_nil_or_concat xs with rfl | ⟨front, x, rfl⟩
  · cases hi
  · simp only [List.concat_eq_append] at hi ⊢
    simp only [swapRemove, List.getLast?_append, List.getLast?_singleton, Option.some_or,
      List.getElem?_dropLast, List.length_set, List.getElem?_set, hi, ↓reduceIte,
      Nat.lt_sub_iff_add_lt]
    by_cases hj : j = i
    · simp [hj]
    · simp [hj, Ne.symm hj]

theorem map_swapRemove {α β : Type} (f : α → β) (xs : List α) (i : Nat) :
    (swapRemove xs i).map f = swapRemove (xs.map f) i := by
  unfold swapRemove
  rw [List.getLast?_map]
  cases xs.getLast? with
  | none => rfl
  | some x => simp only [Option.map_some, List.map_dropLast, List.map_set]

theorem nodup_swapRemove {α : Type} {xs : List α} (hxs : xs.Nodup) {i : Nat} (hi : i < xs.length) :
    (swapRemove xs i).Nodup := by
  rw [List.nodup_iff_getElem?_ne_getElem?]
  intro j k hjk hk heq
  -- A place before the last one of the old list, or nothing would be there.
  have hlength : k + 1 < xs.length := by
    by_contra hnot
    rw [List.getElem?_eq_getElem hk] at heq
    have hnone := getElem?_swapRemove hi k
    rw [if_neg hnot, List.getElem?_eq_getElem hk] at hnone
    cases hnone
  rw [getElem?_swapRemove hi, getElem?_swapRemove hi, if_pos (by omega), if_pos hlength,
    List.getLast?_eq_getElem?] at heq
  -- Both places held what they hold now, or it came from the end.
  have hinj : ∀ {a b : Nat}, a < xs.length → xs[a]? = xs[b]? → a = b := fun ha h =>
    (List.getElem?_inj ha hxs).mp h
  by_cases hji : j = i
  · rw [if_pos hji, if_neg (by omega)] at heq
    have := hinj (by omega) heq
    omega
  · rw [if_neg hji] at heq
    by_cases hki : k = i
    · rw [if_pos hki] at heq
      have := hinj (by omega) heq
      omega
    · rw [if_neg hki] at heq
      have := hinj (by omega) heq
      omega

theorem getElem?_swapRemove_eq_some_iff {α : Type} [DecidableEq α] {xs : List α} (hxs : xs.Nodup)
    {i : Nat} {x : α} (hx : xs[i]? = some x) {y : α} {j : Nat} :
    (swapRemove xs i)[j]? = some y ↔
      y ≠ x ∧ if xs.getLast? = some y then j = i else xs[j]? = some y := by
  obtain ⟨hi, -⟩ := List.getElem?_eq_some_iff.mp hx
  have hinj : ∀ {a b : Nat}, a < xs.length → xs[a]? = xs[b]? → a = b := fun ha h =>
    (List.getElem?_inj ha hxs).mp h
  rw [getElem?_swapRemove hi, List.getLast?_eq_getElem?]
  constructor
  -- Forward: what is at the place now was there before, or it was the last.
  · intro h
    split at h
    · rename_i hj
      by_cases hji : j = i
      · rw [if_pos hji] at h
        refine ⟨?_, by rw [if_pos h]; exact hji⟩
        rintro rfl
        have := hinj hi (hx.trans h.symm)
        omega
      · rw [if_neg hji] at h
        refine ⟨?_, ?_⟩
        · rintro rfl
          exact hji (hinj (by omega) (h.trans hx.symm))
        · rw [if_neg]
          · exact h
          · intro hlast
            have := hinj (by omega) (h.trans hlast.symm)
            omega
    · cases h
  -- Backward: it was not the element removed, so it is still there.
  · rintro ⟨hne, h⟩
    split at h
    · rename_i hlast
      subst h
      -- The removed element was not the last, since that one is another.
      have hj : j + 1 < xs.length := by
        by_contra hnot
        have hend : j = xs.length - 1 := by omega
        rw [← hend, hx] at hlast
        exact hne (Option.some.inj hlast).symm
      rw [if_pos hj, if_pos rfl]
      exact hlast
    · rename_i hlast
      have hlt : j < xs.length := (List.getElem?_eq_some_iff.mp h).1
      have hj : j + 1 < xs.length := by
        by_contra hnot
        have hend : j = xs.length - 1 := by omega
        exact hlast (hend ▸ h)
      have hji : j ≠ i := by
        rintro rfl
        exact hne (Option.some.inj (h.symm.trans hx))
      rw [if_pos hj, if_neg hji]
      exact h

namespace Bag

variable {b : Bag}

def names (b : Bag) : List String := b.entries.map Entry.name

/-- No name occurs twice, and the side table knows where the well-known ones are. -/
structure WellFormed (b : Bag) : Prop where
  nodup : b.names.Nodup
  places : ∀ (p : WellKnown) i, b.places.get p.index = some i ↔ b.names[i]? = some p.name

theorem getElem?_names {i : Nat} {name : String} :
    b.names[i]? = some name ↔ ∃ e, b.entries[i]? = some e ∧ e.name = name := by
  simp [names]

/-- An entry that gets another value keeps its name. -/
theorem names_modify (i : Nat) (value : UInt64) :
    (b.entries.modify i ({ · with value })).map Entry.name = b.names := by
  refine List.ext_getElem? fun j => ?_
  simp only [names, List.getElem?_map, List.getElem?_modify]
  cases b.entries[j]? with
  | none => rfl
  | some e => by_cases hij : i = j <;> simp [hij]

theorem wellFormed_empty : ({} : Bag).WellFormed := by
  refine ⟨List.nodup_nil, fun p i => ?_⟩
  show ({} : Bag).places[p.index] = some i ↔ _
  simp [names]

theorem WellFormed.of_names {b' : Bag} (hb : b.WellFormed) (hnames : b'.names = b.names)
    (hplaces : b'.places = b.places) : b'.WellFormed :=
  ⟨hnames ▸ hb.nodup, fun p i => by rw [hplaces, hnames, hb.places]⟩

theorem get_movePlace (places : Vector (Option Nat) WellKnown.count) (name : String)
    (place : Option Nat) (p : WellKnown) : (movePlace places name place).get p.index =
      if p.name = name then place else places.get p.index := by
  show (movePlace places name place)[p.index] = if p.name = name then place else places[p.index]
  unfold movePlace
  -- Names that are not well known have no place in the table.
  cases hknown : WellKnown.ofName? name with
  | none =>
    have hne : p.name ≠ name := by
      rintro rfl
      rw [WellKnown.ofName?_name] at hknown
      cases hknown
    simp only [if_neg hne]
  | some q =>
    have hq := WellKnown.name_eq_of_ofName? hknown
    by_cases hpq : p = q
    · subst hpq
      simp [hq]
    · have hindex : q.index.val ≠ p.index.val := fun h =>
        hpq (WellKnown.index_injective (Fin.ext h)).symm
      have hne : p.name ≠ name := by
        rintro rfl
        rw [WellKnown.ofName?_name] at hknown
        exact hpq (Option.some.inj hknown)
      simp [hne, Vector.getElem_set_ne, hindex]

/-- In entries of different names the one of a given name is found from either end. -/
theorem find?_eq_some_iff {es : List Entry} (hnodup : (es.map Entry.name).Nodup) {name : String}
    {e : Entry} : (es.find? fun e => e.name == name) = some e ↔ e ∈ es ∧ e.name = name := by
  constructor
  · intro h
    -- The first entry of the name is the only one, since names do not repeat.
    exact ⟨List.mem_of_find?_eq_some h, by simpa using List.find?_some h⟩
  · rintro ⟨he, rfl⟩
    have hfound : (es.find? fun e' => e'.name == e.name).isSome := by
      rw [List.find?_isSome]
      exact ⟨e, he, beq_self_eq_true e.name⟩
    obtain ⟨e', he'⟩ := Option.isSome_iff_exists.mp hfound
    have hname : e'.name = e.name := by simpa using List.find?_some he'
    rw [he', List.inj_on_of_nodup_map hnodup (List.mem_of_find?_eq_some he') he hname]

section Edits

variable (hb : b.WellFormed) (name : String)
include hb

/-- The table of places finds the entry of a well-known property, and only that one. -/
theorem wellKnown?_eq_some_iff {p : WellKnown} {e : Entry} :
    b.wellKnown? p = some e ↔ e ∈ b.entries ∧ e.name = p.name := by
  simp only [wellKnown?, Option.bind_eq_some_iff]
  constructor
  · rintro ⟨i, hplace, he⟩
    obtain ⟨e', he', hname⟩ := getElem?_names.mp ((hb.places p i).mp hplace)
    obtain rfl := Option.some.inj (he.symm.trans he')
    exact ⟨List.mem_of_getElem? he, hname⟩
  · rintro ⟨hmem, hname⟩
    obtain ⟨i, he⟩ := List.mem_iff_getElem?.mp hmem
    exact ⟨i, (hb.places p i).mpr (getElem?_names.mpr ⟨e, he, hname⟩), he⟩

theorem get?_eq_some_iff {e : Entry} : b.get? name = some e ↔ e ∈ b.entries ∧ e.name = name := by
  unfold get?
  cases hknown : WellKnown.ofName? name with
  | some p =>
    rw [← WellKnown.name_eq_of_ofName? hknown]
    exact wellKnown?_eq_some_iff hb
  | none => exact find?_eq_some_iff hb.nodup

/-- A name has a place exactly when an entry there is called so, well known or not. -/
theorem place?_eq_some_iff {i : Nat} : b.place? name = some i ↔ b.names[i]? = some name := by
  unfold place?
  cases hknown : WellKnown.ofName? name with
  | some p =>
    rw [← WellKnown.name_eq_of_ofName? hknown]
    exact hb.places p i
  | none =>
    simp only [List.findIdx?_eq_some_iff_getElem, names, List.getElem?_map, Option.map_eq_some_iff,
      List.getElem?_eq_some_iff]
    constructor
    · rintro ⟨hi, hname, -⟩
      exact ⟨_, ⟨hi, rfl⟩, by simpa using hname⟩
    · rintro ⟨e, ⟨hi, rfl⟩, hname⟩
      refine ⟨hi, by simpa using hname, fun j hj => ?_⟩
      -- An earlier entry of the name would be a second one.
      intro hsame
      have hsame : b.entries[j].name = name := by simpa using hsame
      have heq : b.names[j]? = b.names[i]? := by
        have hlt : j < b.entries.length := by omega
        simp [names, hi, hlt, hname, hsame]
      have := (List.getElem?_inj (by simp [names]; omega) hb.nodup).mp heq
      omega

theorem notMem_of_place?_eq_none (h : b.place? name = none) : name ∉ b.names := by
  intro hmem
  obtain ⟨i, hi⟩ := List.mem_iff_getElem?.mp hmem
  rw [(place?_eq_some_iff hb name).mpr hi] at h
  cases h

/-- Setting a property keeps the names distinct and the table of places right. -/
theorem wellFormed_set (value : UInt64) : (b.set name value).2.WellFormed := by
  unfold set
  cases hplace : b.place? name with
  | some i => exact hb.of_names (names_modify i value) rfl
  -- A new property comes last, and its place is the length before.
  | none =>
    have hnew := notMem_of_place?_eq_none hb name hplace
    have hnames : ∀ places, (⟨b.entries ++ [{ name, value : Entry }], places⟩ : Bag).names =
        b.names ++ [name] := fun places => by simp [names]
    -- First the names, then the table of places.
    refine ⟨?_, fun p i => ?_⟩
    · rw [hnames]
      exact List.nodup_append.mpr ⟨hb.nodup, List.nodup_singleton _, by
        rintro x hx _ hy rfl
        exact hnew (List.mem_singleton.mp hy ▸ hx)⟩
    · rw [hnames, get_movePlace, List.getElem?_append]
      have hlength : b.names.length = b.entries.length := List.length_map _
      by_cases hp : p.name = name
      · -- The new entry is the only one of its name.
        have hother : b.names[i]? ≠ some name := fun h => hnew (List.mem_of_getElem? h)
        rw [if_pos hp, hp, Option.some.injEq, ← hlength]
        split
        · rename_i hi
          exact iff_of_false (by omega) hother
        · rw [List.getElem?_singleton]
          split
          · rename_i hi
            exact iff_of_true (by omega) rfl
          · exact iff_of_false (by omega) nofun
      · rw [if_neg hp, hb.places]
        split
        · rfl
        · rename_i hi
          rw [List.getElem?_eq_none (by omega), List.getElem?_singleton]
          split
          · simp [Ne.symm hp]
          · rfl

/-- The entry that a removal moves is noted at its new place. -/
theorem wellFormed_remove : (b.remove name).2.WellFormed := by
  unfold remove
  cases hfind : b.entries.findIdx? fun e => e.name == name with
  | none => exact hb
  | some i =>
    obtain ⟨hi, hname, -⟩ := List.findIdx?_eq_some_iff_getElem.mp hfind
    have hin : i < b.names.length := by simpa [names] using hi
    have hgone : b.names[i]? = some name := by simpa [names, hi] using hname
    -- The names move as the entries do.
    have hnames : (swapRemove b.entries i).map Entry.name = swapRemove b.names i :=
      map_swapRemove Entry.name b.entries i
    have hnodup := nodup_swapRemove hb.nodup hin
    have hafter : ∀ {y j}, (swapRemove b.names i)[j]? = some y ↔
        y ≠ name ∧ if b.names.getLast? = some y then j = i else b.names[j]? = some y :=
      getElem?_swapRemove_eq_some_iff hb.nodup hgone
    have hmoved : ((swapRemove b.entries i)[i]?).map Entry.name = (swapRemove b.names i)[i]? := by
      rw [← hnames, List.getElem?_map]
    have hplace : ∀ (p : WellKnown) j, b.places.get p.index = some j ↔ b.names[j]? = some p.name :=
      hb.places
    simp only
    split
    -- The last entry was moved into the free place, and its own place must follow.
    · rename_i moved hentry
      rw [hentry, Option.map_some, eq_comm, hafter] at hmoved
      obtain ⟨hne, hlast⟩ := hmoved
      have hlast : b.names.getLast? = some moved.name := by
        by_contra hnot
        rw [if_neg hnot, hgone] at hlast
        exact hne (Option.some.inj hlast).symm
      refine ⟨by rw [names, hnames]; exact hnodup, fun p j => ?_⟩
      rw [names, hnames, hafter, get_movePlace, get_movePlace]
      simp only [hlast, Option.some.injEq]
      by_cases hpm : p.name = moved.name
      · simp [hpm, hne, eq_comm]
      · rw [if_neg hpm, if_neg (Ne.symm hpm)]
        -- The name removed has no place any more.
        by_cases hpn : p.name = name
        · simp [hpn]
        · rw [if_neg hpn, hplace]
          simp [hpn]
    · rename_i hentry
      rw [hentry, Option.map_none] at hmoved
      -- Nothing was moved, so the removed entry was the last.
      have hlast : b.names.getLast? = some name := by
        rw [getElem?_swapRemove hin] at hmoved
        split at hmoved
        · rw [if_pos rfl, eq_comm, List.getLast?_eq_none_iff] at hmoved
          rw [hmoved] at hin
          cases hin
        · rw [List.getLast?_eq_getElem?, ← hgone]
          congr 1
          omega
      refine ⟨by rw [names, hnames]; exact hnodup, fun p j => ?_⟩
      rw [names, hnames, hafter, get_movePlace]
      simp only [hlast, Option.some.injEq]
      by_cases hpn : p.name = name
      · simp [hpn]
      · rw [if_neg hpn, if_neg (Ne.symm hpn), hplace]
        simp [hpn]

theorem mem_set {value : UInt64} {e : Entry} (he : e ∈ (b.set name value).2.entries) :
    e ∈ b.entries ∨ e.name = name ∧ e.value = value := by
  unfold set at he
  -- A property that is there keeps its place, and a new one comes last.
  cases hplace : b.place? name with
  | some i =>
    simp only [hplace] at he
    obtain ⟨j, hj⟩ := List.mem_iff_getElem?.mp he
    rw [List.getElem?_modify] at hj
    obtain ⟨e₀, he₀, rfl⟩ := Option.map_eq_some_iff.mp hj
    split
    · rename_i hij
      subst hij
      obtain ⟨e₁, he₁, hname⟩ := getElem?_names.mp ((place?_eq_some_iff hb name).mp hplace)
      obtain rfl := Option.some.inj (he₀.symm.trans he₁)
      exact .inr ⟨hname, rfl⟩
    · exact .inl (List.mem_of_getElem? he₀)
  | none =>
    simp only [hplace] at he
    rcases List.mem_append.mp he with he | he
    · exact .inl he
    · rw [List.mem_singleton.mp he]
      exact .inr ⟨rfl, rfl⟩

omit hb in
theorem names_set (value : UInt64) : b.names ⊆ (b.set name value).2.names := by
  unfold set
  -- A property that is there keeps its name, and a new one adds its own.
  cases b.place? name with
  | some i =>
    intro other hother
    rw [← names_modify i value] at hother
    exact hother
  | none =>
    simp only [names, List.map_append]
    exact List.subset_append_left _ _

omit hb in
/-- Setting a property gives the bag no other new name. -/
theorem names_set_subset (value : UInt64) : (b.set name value).2.names ⊆ name :: b.names := by
  unfold set
  -- The names are the same as before, or one more.
  cases b.place? name with
  | some i =>
    intro other hother
    have hold : other ∈ (b.entries.modify i ({ · with value })).map Entry.name := hother
    rw [names_modify] at hold
    exact List.mem_cons_of_mem name hold
  | none =>
    simp only [names, List.map_append, List.map_cons, List.map_nil]
    exact (List.perm_append_singleton name b.names).subset

omit hb in
theorem mem_remove {e : Entry} (he : e ∈ (b.remove name).2.entries) : e ∈ b.entries := by
  -- Removing an entry from the list can only move another one.
  have hswap : ∀ i, e ∈ swapRemove b.entries i → e ∈ b.entries := by
    intro i he
    unfold swapRemove at he
    split at he
    · rename_i x hx
      rcases List.mem_or_eq_of_mem_set ((List.dropLast_subset _) he) with he | rfl
      · exact he
      · exact List.mem_of_getLast? hx
    · cases he
  unfold remove at he
  split at he
  · exact he
  · simp only at he
    split at he <;> exact hswap _ he

omit hb in
theorem remove_eq_self (h : (b.remove name).1 = false) : (b.remove name).2 = b := by
  unfold remove at h ⊢
  split
  · rfl
  · rename_i i hfind
    simp only [hfind] at h
    split at h <;> cases h

theorem wellFormed_markClean : b.markClean.WellFormed := by
  refine hb.of_names ?_ rfl
  simp [names, markClean]

end Edits

end Bag
end Property
end Scanout
