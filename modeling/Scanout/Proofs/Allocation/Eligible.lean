import Scanout.Proofs.Device.Reach

/-! What an output may keep its allocation for. Layers are edited after a clean mark, and as long as no
layer asks for a new allocation, the stacking rules see in them what they saw at the mark. -/

namespace Scanout

namespace Property.Entry

def mark (e : Entry) : String × UInt64 := (e.name, e.cleanValue)

theorem eq_cleanValue_of_not_isDirty {e : Entry} (h : e.isDirty = false) : e.value = e.cleanValue := by
  simpa [isDirty] using h

end Property.Entry

namespace Layer

def IsClean (l : Layer) : Prop := l.markClean = l

instance (l : Layer) : Decidable l.IsClean := inferInstanceAs (Decidable (l.markClean = l))

def shape (l : Layer) :
    Bool × Option UInt32 × Vector (Option Nat) WellKnown.count × List (String × UInt64) :=
  (l.forcedComposition, l.plane, l.properties.places, l.properties.entries.map Property.Entry.mark)

/-- A later state of a layer, in which the layer knows whether its shape is still the same. -/
structure Remembers (l l' : Layer) : Prop where
  changed : l.changed = true → l'.changed = true
  shape : l'.changed = false → l'.shape = l.shape

instance : IsPreorder Layer Remembers where
  refl l := ⟨id, fun _ => rfl⟩
  trans l l' l'' h h' := by
    refine ⟨h'.changed ∘ h.changed, fun hchanged => ?_⟩
    -- If the last state is unaware of a change, so is the one in the middle.
    have hmiddle : l'.changed = false := by
      rw [← Bool.not_eq_true]
      intro htrue
      rw [h'.changed htrue] at hchanged
      cases hchanged
    exact (h'.shape hchanged).trans (h.shape hmiddle)

theorem remembers_of_changed {l l' : Layer} (h : l'.changed = true) : l.Remembers l' :=
  ⟨fun _ => h, fun hchanged => by rw [h] at hchanged; cases hchanged⟩

/-- Setting a value the bag already has moves no entry and keeps every mark. -/
theorem marks_set {b : Property.Bag} {name : String} {value : UInt64}
    (h : (b.set name value).1 = false) :
    (b.set name value).2.places = b.places ∧
      (b.set name value).2.entries.map Property.Entry.mark =
        b.entries.map Property.Entry.mark := by
  unfold Property.Bag.set at h ⊢
  cases hplace : b.place? name with
  -- A name that is not there would have been added, which counts as a change.
  | none => simp [hplace] at h
  | some i =>
    refine ⟨rfl, List.ext_getElem? fun j => ?_⟩
    simp only [List.getElem?_map, List.getElem?_modify]
    cases b.entries[j]? with
    | none => rfl
    | some e => by_cases hij : i = j <;> simp [hij, Property.Entry.mark]

/-- Setting a property either marks the layer as changed or keeps its shape. -/
theorem remembers_setProperty {l l' : Layer} {name : String} {value : UInt64}
    (h : l.setProperty name value = .ok l') : l.Remembers l' := by
  simp only [setProperty] at h
  split at h
  -- The visible property either changes the layer or is one it has had.
  · cases h
  · split at h
    · cases h
      exact remembers_of_changed rfl
    · cases h
      refine ⟨fun hchanged => by simp [hchanged], fun hchanged => ?_⟩
      obtain ⟨-, hset⟩ := Bool.or_eq_false_iff.mp hchanged
      obtain ⟨hplaces, hmarks⟩ := marks_set hset
      simp only [shape, hplaces, hmarks]

theorem remembers_unsetProperty (l : Layer) (name : String) : l.Remembers (l.unsetProperty name) := by
  refine ⟨fun hchanged => by simp [unsetProperty, hchanged], fun hchanged => ?_⟩
  obtain ⟨-, hremoved⟩ := Bool.or_eq_false_iff.mp hchanged
  have hsame := Property.Bag.remove_eq_self name hremoved
  simp only [shape, unsetProperty, hsame]

theorem remembers_forceComposition (l : Layer) : l.Remembers l.forceComposition := by
  unfold forceComposition
  split
  · exact refl_of Remembers l
  · exact remembers_of_changed rfl

section Marks

variable {l l' : Layer}

/-- The entry of a well-known property of the later state carries the value that the earlier state has,
if that one was clean. -/
theorem value?_of_shape (hshape : l'.shape = l.shape) (hclean : l.IsClean) (p : WellKnown) :
    (l'.properties.wellKnown? p).map Property.Entry.cleanValue = l.properties.value? p := by
  have hplaces : l'.properties.places = l.properties.places := congrArg (·.2.2.1) hshape
  have hmarks : l'.properties.entries.map Property.Entry.mark =
      l.properties.entries.map Property.Entry.mark := congrArg (·.2.2.2) hshape
  have hentries : l.properties.entries.map (fun e => { e with cleanValue := e.value }) =
      l.properties.entries := congrArg (·.properties.entries) hclean
  -- Both bags have the entry at the same place, with the same mark.
  simp only [Property.Bag.value?, Property.Bag.wellKnown?, hplaces]
  cases l.properties.places[p.index] with
  | none => rfl
  | some i =>
    have hi := congrArg (·[i]?) hmarks
    have hvalue := congrArg (·[i]?) hentries
    simp only [List.getElem?_map] at hi hvalue
    simp only [Option.bind_some]
    cases he : l.properties.entries[i]? with
    -- Neither bag has the entry, or both have it and the mark is the value of then.
    | none =>
      rw [he, Option.map_none, Option.map_eq_none_iff] at hi
      rw [hi]
      rfl
    | some e =>
      rw [he, Option.map_some] at hi hvalue
      obtain ⟨e', he', hmark⟩ := Option.map_eq_some_iff.mp hi
      have hsame : e'.cleanValue = e.cleanValue := congrArg Prod.snd hmark
      have hpresent : e.value = e.cleanValue :=
        congrArg Property.Entry.cleanValue (Option.some.inj hvalue)
      rw [he', Option.map_some, Option.map_some, hsame, hpresent]

theorem cleanScreenRect_of_shape (hshape : l'.shape = l.shape) (hclean : l.IsClean) :
    l'.cleanScreenRect = l.screenRect := by
  have hvalues : ∀ p, (l'.properties.wellKnown? p).map Property.Entry.cleanValue =
      (l.properties.wellKnown? p).map Property.Entry.value := value?_of_shape hshape hclean
  simp only [cleanScreenRect, screenRect, rectOf, hvalues]

theorem wellFormed_of_shape (hshape : l'.shape = l.shape) (hbag : l.properties.WellFormed) :
    l'.properties.WellFormed := by
  have hplaces : l'.properties.places = l.properties.places := congrArg (·.2.2.1) hshape
  have hmarks : l'.properties.entries.map Property.Entry.mark =
      l.properties.entries.map Property.Entry.mark := congrArg (·.2.2.2) hshape
  refine hbag.of_names ?_ hplaces
  have hnames := congrArg (List.map Prod.fst) hmarks
  rwa [List.map_map, List.map_map] at hnames

end Marks

section Causes

variable {l : Layer} {e : Property.Entry}

theorem zero_iff_of_reallocCause? {p : WellKnown} (hp : p = .fbId ∨ p = .alpha)
    (hknown : e.wellKnown? = some p) (h : l.reallocCause? e = none) :
    e.value = 0 ↔ e.cleanValue = 0 := by
  -- A buffer that comes or goes is a cause of its own, a change of one is none.
  rcases hp with rfl | rfl
  · simp only [reallocCause?, hknown] at h
    by_cases hvalue : e.value = 0 <;> by_cases hmark : e.cleanValue = 0 <;> simp_all
  · simp only [reallocCause?, hknown, Property.Entry.isMove] at h
    cases hdirty : e.isDirty with
    | false => rw [Property.Entry.eq_cleanValue_of_not_isDirty hdirty]
    | true =>
      -- The two ends of the range ask for a new allocation, so neither value is zero.
      simp only [hdirty, Bool.not_true, Bool.and_false, Bool.or_false, Bool.false_eq_true, ↓reduceIte,
        isExtremeAlpha] at h
      by_cases hvalue : e.value = 0
      · simp [hvalue] at h
      · by_cases hmark : e.cleanValue = 0
        · simp [hmark] at h
        · exact iff_of_false hvalue hmark

theorem value_eq_of_reallocCause? (hknown : e.wellKnown? = some .zpos)
    (h : l.reallocCause? e = none) : e.value = e.cleanValue := by
  apply Property.Entry.eq_cleanValue_of_not_isDirty
  have hname : "zpos" = e.name := WellKnown.name_eq_of_ofName? hknown
  cases hdirty : e.isDirty with
  | false => rfl
  | true =>
    simp [reallocCause?, hknown, Property.Entry.isMove, hdirty, ← hname] at h

theorem screenRect_of_unmoved (hbag : l.properties.WellFormed)
    (h : l.properties.entries.any Property.Entry.isMove = false) :
    l.screenRect = l.cleanScreenRect := by
  -- The four coordinates are well known, so each entry of one of them would count as a move.
  have hcoordinate : ∀ p, p = .crtcX ∨ p = .crtcY ∨ p = .crtcW ∨ p = .crtcH →
      (l.properties.wellKnown? p).map Property.Entry.value =
        (l.properties.wellKnown? p).map Property.Entry.cleanValue := by
    intro p hp
    cases he : l.properties.wellKnown? p with
    | none => rfl
    | some e =>
      obtain ⟨hmem, hname⟩ := (Property.Bag.wellKnown?_eq_some_iff hbag).mp he
      have hstill : e.isMove = false := by
        rw [← Bool.not_eq_true]
        exact (List.any_eq_false.mp h) e hmem
      have hknown : e.wellKnown? = some p := by
        rw [Property.Entry.wellKnown?, hname, WellKnown.ofName?_name]
      have hdirty : e.isDirty = false := by
        simp only [Property.Entry.isMove, hknown] at hstill
        rcases hp with rfl | rfl | rfl | rfl <;> simpa using hstill
      simp only [Option.map_some, Property.Entry.eq_cleanValue_of_not_isDirty hdirty]
  -- So no coordinate has left its mark.
  simp only [screenRect, cleanScreenRect, rectOf, hcoordinate .crtcX (.inl rfl),
    hcoordinate .crtcY (.inr (.inl rfl)), hcoordinate .crtcW (.inr (.inr (.inl rfl))),
    hcoordinate .crtcH (.inr (.inr (.inr rfl)))]

end Causes

end Layer

namespace Allocation

/-- Two states of an output's layers that no stacking rule tells apart. -/
structure StacksAlike (layers layers' : Arena Layer) (out : Output) : Prop where
  alone : ∀ id ∈ out.layers, ∃ l l', layers.get? id.toHandle = some l ∧
    layers'.get? id.toHandle = some l' ∧ l'.plane = l.plane ∧ l'.isVisible = l.isVisible ∧
    l'.zpos? = l.zpos? ∧ l'.forcedComposition = l.forcedComposition
  together : ∀ id ∈ out.layers, ∀ other ∈ out.layers, other ≠ id → ∀ l l' k k',
    layers.get? id.toHandle = some l → layers'.get? id.toHandle = some l' →
    layers.get? other.toHandle = some k → layers'.get? other.toHandle = some k' →
    l'.screenRect.overlaps k'.screenRect = l.screenRect.overlaps k.screenRect ∧
      l'.intersects k' = l.intersects k

end Allocation

namespace Layer

variable {l l' k k' : Layer}

/-- A clean layer that asks for no new allocation later is as visible as it was, at the same stacking
position, and composited by force or not as before. -/
theorem alone_of_needsRealloc (hclean : l.IsClean) (hremembers : l.Remembers l')
    (hbag : l.properties.WellFormed) (hchanged : l'.changed = false)
    (hcauses : ∀ e ∈ l'.properties.entries, l'.reallocCause? e = none) :
    l'.plane = l.plane ∧ l'.isVisible = l.isVisible ∧ l'.zpos? = l.zpos? ∧
      l'.forcedComposition = l.forcedComposition := by
  have hshape := hremembers.shape hchanged
  have hforced : l'.forcedComposition = l.forcedComposition := congrArg Prod.fst hshape
  have hplane : l'.plane = l.plane := congrArg (·.2.1) hshape
  have hbag' := wellFormed_of_shape hshape hbag
  have hmarked := value?_of_shape hshape hclean
  -- What the entry of a well-known property must not do without asking.
  have hentry : ∀ p e, l'.properties.wellKnown? p = some e →
      e.wellKnown? = some p ∧ l'.reallocCause? e = none := by
    intro p e he
    obtain ⟨hmem, hname⟩ := (Property.Bag.wellKnown?_eq_some_iff hbag').mp he
    exact ⟨by rw [Property.Entry.wellKnown?, hname, WellKnown.ofName?_name], hcauses e hmem⟩
  have hzero : ∀ p, p = .fbId ∨ p = .alpha →
      (l'.properties.value? p = some 0 ↔ l.properties.value? p = some 0) ∧
        ((l'.properties.value? p).getD 0 = 0 ↔ (l.properties.value? p).getD 0 = 0) := by
    intro p hp
    rw [← hmarked p, Property.Bag.value?]
    cases he : l'.properties.wellKnown? p with
    | none => exact ⟨Iff.rfl, Iff.rfl⟩
    | some e =>
      obtain ⟨hknown, hcause⟩ := hentry p e he
      have hiff := zero_iff_of_reallocCause? hp hknown hcause
      simpa using hiff
  have hzpos : l'.properties.value? .zpos = l.properties.value? .zpos := by
    rw [← hmarked .zpos, Property.Bag.value?]
    cases he : l'.properties.wellKnown? .zpos with
    | none => rfl
    | some e =>
      obtain ⟨hknown, hcause⟩ := hentry .zpos e he
      rw [Option.map_some, Option.map_some, value_eq_of_reallocCause? hknown hcause]
  refine ⟨hplane, ?_, by rw [zpos?, zpos?, hzpos], hforced⟩
  -- A layer is visible if it has a buffer, or is forced, and is not wholly transparent.
  have hfb : l'.hasFramebuffer = l.hasFramebuffer := by
    rw [Bool.eq_iff_iff, hasFramebuffer, hasFramebuffer, bne_iff_ne, bne_iff_ne]
    exact not_congr (hzero .fbId (.inl rfl)).2
  have halpha : (l'.properties.value? .alpha != some 0) = (l.properties.value? .alpha != some 0) := by
    rw [Bool.eq_iff_iff, bne_iff_ne, bne_iff_ne]
    exact not_congr (hzero .alpha (.inr rfl)).1
  simp only [isVisible, hforced, hfb, halpha]

/-- Two layers overlap as at the clean mark if each of them would have told that it moved away from the
other one or towards it. -/
theorem overlaps_of_needsRealloc
    (hl : l'.cleanScreenRect = l.screenRect) (hk : k'.cleanScreenRect = k.screenRect)
    (hlbag : l'.properties.WellFormed) (hkbag : k'.properties.WellFormed)
    (hlk : l'.properties.entries.any Property.Entry.isMove = true → l'.overlapChanged k' = false)
    (hkl : k'.properties.entries.any Property.Entry.isMove = true → k'.overlapChanged l' = false) :
    l'.screenRect.overlaps k'.screenRect = l.screenRect.overlaps k.screenRect := by
  rw [← hl, ← hk]
  cases hlmoved : l'.properties.entries.any Property.Entry.isMove with
  | true => simpa [overlapChanged] using hlk hlmoved
  -- If neither layer has moved, neither rectangle has.
  | false =>
    cases hkmoved : k'.properties.entries.any Property.Entry.isMove with
    | true =>
      have hsame := hkl hkmoved
      simp only [overlapChanged, bne_eq_false_iff_eq] at hsame
      -- The other layer was asked, and overlapping is symmetric.
      calc l'.screenRect.overlaps k'.screenRect
        _ = k'.screenRect.overlaps l'.screenRect := Rect.overlaps_comm _ _
        _ = k'.cleanScreenRect.overlaps l'.cleanScreenRect := hsame
        _ = l'.cleanScreenRect.overlaps k'.cleanScreenRect := Rect.overlaps_comm _ _
    | false => rw [screenRect_of_unmoved hlbag hlmoved, screenRect_of_unmoved hkbag hkmoved]

end Layer

namespace Allocation

/-- Layers that were clean, and of which none asks for a new allocation later, stack alike. -/
theorem stacksAlike_of_needsRealloc {layers layers' : Arena Layer} {out : Output}
    (hlive : ∀ id ∈ out.layers, ∃ l, layers.get? id.toHandle = some l ∧ l.IsClean ∧
      l.properties.WellFormed)
    (hedits : ∀ id ∈ out.layers, Option.Rel Layer.Remembers (layers.get? id.toHandle)
      (layers'.get? id.toHandle))
    (hkeeps : ∀ id ∈ out.layers, needsRealloc layers' out id = none) :
    StacksAlike layers layers' out := by
  -- For each layer, what it was, what it is, and what it would have told.
  have hlayer : ∀ id ∈ out.layers, ∃ l l', layers.get? id.toHandle = some l ∧
      layers'.get? id.toHandle = some l' ∧ l.IsClean ∧ l.properties.WellFormed ∧
      l.Remembers l' ∧ l'.changed = false ∧
      (∀ e ∈ l'.properties.entries, l'.reallocCause? e = none) ∧
      (l'.properties.entries.any Property.Entry.isMove = true → ∀ other ∈ out.layers, other ≠ id →
        ∀ k, layers'.get? other.toHandle = some k → l'.overlapChanged k = false) := by
    intro id hid
    obtain ⟨l, hl, hclean, hbag⟩ := hlive id hid
    have hrel := hedits id hid
    rw [hl] at hrel
    generalize hl' : layers'.get? id.toHandle = found at hrel
    cases hrel with
    | some hremembers =>
      obtain ⟨hchanged, hcauses, hmoved⟩ := needsRealloc_eq_none hl' (hkeeps id hid)
      exact ⟨l, _, hl, rfl, hclean, hbag, hremembers, hchanged, hcauses, hmoved⟩
  have halone : ∀ id ∈ out.layers, ∃ l l', layers.get? id.toHandle = some l ∧
      layers'.get? id.toHandle = some l' ∧ l'.plane = l.plane ∧ l'.isVisible = l.isVisible ∧
      l'.zpos? = l.zpos? ∧ l'.forcedComposition = l.forcedComposition := by
    intro id hid
    obtain ⟨l, l', hl, hl', hclean, hbag, hremembers, hchanged, hcauses, -⟩ := hlayer id hid
    exact ⟨l, l', hl, hl', Layer.alone_of_needsRealloc hclean hremembers hbag hchanged hcauses⟩
  refine ⟨halone, fun id hid other hother hne l l' k k' hl hl' hk hk' => ?_⟩
  -- Both layers are told apart by what each of them remembers.
  have hoverlaps : l'.screenRect.overlaps k'.screenRect = l.screenRect.overlaps k.screenRect := by
    obtain ⟨l₁, l₁', hl₁, hl₁', hlclean, hlbag, hlremembers, hlchanged, -, hlmoved⟩ := hlayer id hid
    obtain ⟨k₁, k₁', hk₁, hk₁', hkclean, hkbag, hkremembers, hkchanged, -, hkmoved⟩ :=
      hlayer other hother
    obtain rfl := Option.some.inj (hl.symm.trans hl₁)
    obtain rfl := Option.some.inj (hl'.symm.trans hl₁')
    obtain rfl := Option.some.inj (hk.symm.trans hk₁)
    obtain rfl := Option.some.inj (hk'.symm.trans hk₁')
    have hlshape := hlremembers.shape hlchanged
    have hkshape := hkremembers.shape hkchanged
    exact Layer.overlaps_of_needsRealloc (Layer.cleanScreenRect_of_shape hlshape hlclean)
      (Layer.cleanScreenRect_of_shape hkshape hkclean) (Layer.wellFormed_of_shape hlshape hlbag)
      (Layer.wellFormed_of_shape hkshape hkbag) (fun h => hlmoved h other hother hne k' hk')
      fun h => hkmoved h id hid hne.symm l' hl'
  have hvisible : ∀ id ∈ out.layers, ∀ l l', layers.get? id.toHandle = some l →
      layers'.get? id.toHandle = some l' → l'.isVisible = l.isVisible := by
    intro id hid l l' hl hl'
    obtain ⟨l₁, l₁', hl₁, hl₁', -, hsame, -⟩ := halone id hid
    rwa [Option.some.inj (hl.symm.trans hl₁), Option.some.inj (hl'.symm.trans hl₁')]
  refine ⟨hoverlaps, ?_⟩
  rw [Layer.intersects, Layer.intersects, hoverlaps, hvisible id hid l l' hl hl',
    hvisible other hother k k' hk hk']

section Rules

variable {s s' : Search.Scene} {path : Search.Path}

section Path

variable (halike : StacksAlike s.layers s'.layers s.output)
  (hpath : ∀ c ∈ path, ∀ id, c.layer = some id → id ∈ s.output.layers)
include halike hpath

theorem StacksAlike.chosen? {c : Search.Choice} (hc : c ∈ path) :
    (s.chosen? c = none ∧ s'.chosen? c = none) ∨ ∃ id l l', c.layer = some id ∧
      s.layers.get? id.toHandle = some l ∧ s'.layers.get? id.toHandle = some l' ∧
      s.chosen? c = some l ∧ s'.chosen? c = some l' ∧ l'.zpos? = l.zpos? := by
  -- A choice that leaves its plane empty has no layer in either scene.
  cases hlayer : c.layer with
  | none => exact .inl ⟨by simp [Search.Scene.chosen?, hlayer], by simp [Search.Scene.chosen?, hlayer]⟩
  | some id =>
    obtain ⟨l, l', hl, hl', -, -, hzpos, -⟩ := halike.alone id (hpath c hc id hlayer)
    refine .inr ⟨id, l, l', rfl, hl, hl', ?_, ?_, hzpos⟩
    · rw [Search.Scene.chosen?, hlayer]
      exact hl
    · rw [Search.Scene.chosen?, hlayer]
      exact hl'

theorem StacksAlike.chosenZpos? {c : Search.Choice} (hc : c ∈ path) :
    s'.chosenZpos? c = s.chosenZpos? c := by
  unfold Search.Scene.chosenZpos?
  rcases halike.chosen? hpath hc with ⟨hnone, hnone'⟩ | ⟨-, l, l', -, -, -, hl, hl', hzpos⟩
  · rw [hnone, hnone']
  · rw [hl, hl', Option.bind_some, Option.bind_some, hzpos]

theorem StacksAlike.lastOverlayZpos : s'.lastOverlayZpos path = s.lastOverlayZpos path := by
  unfold Search.Scene.lastOverlayZpos
  rw [← List.head?_filterMap, ← List.head?_filterMap]
  have hsame : ∀ c ∈ path.filter fun c => !c.plane.isPrimary, s'.chosenZpos? c = s.chosenZpos? c :=
    fun c hc => halike.chosenZpos? hpath (List.mem_of_mem_filter hc)
  rw [List.filterMap_congr hsame]

theorem StacksAlike.primaryZpos : s'.primaryZpos path = s.primaryZpos path := by
  unfold Search.Scene.primaryZpos
  rw [← List.head?_filterMap, ← List.head?_filterMap]
  have hsame : ∀ c ∈ path.filter fun c => c.plane.isPrimary,
      (s'.chosenZpos? c).map (fun z => (z, c.plane.zpos)) =
        (s.chosenZpos? c).map fun z => (z, c.plane.zpos) :=
    fun c hc => by rw [halike.chosenZpos? hpath (List.mem_of_mem_filter hc)]
  rw [List.filterMap_congr hsame]

/-- A question about a layer and those on earlier planes has the same answer in both states. -/
theorem StacksAlike.any_placed {id : LayerId} (hid : id ∈ s.output.layers)
    (hfresh : path.holds id = false) {l l' : Layer} (hl : s.layers.get? id.toHandle = some l)
    (hl' : s'.layers.get? id.toHandle = some l') (ask : Plane → Option Int → Bool) :
    ((s'.placed path).any fun q => ask q.1 q.2.zpos? && l'.intersects q.2) =
      (s.placed path).any fun q => ask q.1 q.2.zpos? && l.intersects q.2 := by
  -- Both sides ask the same choices, one after the other.
  simp only [Search.Scene.placed, List.any_filterMap, List.any_filter]
  rw [Bool.eq_iff_iff, List.any_eq_true, List.any_eq_true]
  refine exists_congr fun c => and_congr_right fun hc => ?_
  rcases halike.chosen? hpath hc with ⟨hnone, hnone'⟩ | ⟨id', k, k', hlayer, hk, hk', hck, hck', hzpos⟩
  · simp only [hnone, hnone', Option.map_none]
  · -- The layer itself is on no earlier plane, so the question is about two layers.
    have hne : id' ≠ id := by
      rintro rfl
      have hheld : path.holds id' = true := List.any_eq_true.mpr ⟨c, hc, by simpa using hlayer⟩
      rw [hheld] at hfresh
      cases hfresh
    have hintersects :=
      (halike.together id hid id' (hpath c hc id' hlayer) hne l l' k k' hl hl' hk hk').2
    simp only [hck, hck', Option.map_some, hzpos, hintersects]

end Path

variable (halike : StacksAlike s.layers s'.layers s.output) (hout : s'.output = s.output)
include halike hout

/-- Which composited layers lie over a layer is asked of the same layers with the same answers. -/
theorem StacksAlike.hasCompositedLayerOver {id : LayerId} (hid : id ∈ s.output.layers) {l l' : Layer}
    (hl : s.layers.get? id.toHandle = some l) (hl' : s'.layers.get? id.toHandle = some l') :
    s'.hasCompositedLayerOver path l' = s.hasCompositedLayerOver path l := by
  obtain ⟨l₁, l₁', hl₁, hl₁', -, -, hlzpos, -⟩ := halike.alone id hid
  obtain rfl := Option.some.inj (hl.symm.trans hl₁)
  obtain rfl := Option.some.inj (hl'.symm.trans hl₁')
  unfold Search.Scene.hasCompositedLayerOver
  rw [hlzpos, hout]
  cases hzpos : l.zpos? with
  | none => simp only [Option.any_none]
  | some zpos =>
    simp only [Option.any_some]
    rw [Bool.eq_iff_iff, List.any_eq_true, List.any_eq_true]
    refine exists_congr fun id' => and_congr_right fun hid' => ?_
    obtain ⟨k, k', hk, hk', -, -, hkzpos, -⟩ := halike.alone id' hid'
    simp only [Search.Scene.layer?, hk, hk', Option.any_some, hkzpos]
    by_cases hself : id' = id
    · -- No layer is above itself.
      subst hself
      obtain rfl := Option.some.inj (hl.symm.trans hk)
      have hnot : decide (zpos > zpos) = false := decide_eq_false (lt_irrefl zpos)
      rw [hzpos, Option.any_some, hnot, Bool.false_and, Bool.false_and]
    · rw [(halike.together id hid id' hid' hself l l' k k' hl hl' hk hk').2]

/-- The first rule that keeps a layer off a plane is the same. -/
theorem StacksAlike.rejection? (hpath : ∀ c ∈ path, ∀ id, c.layer = some id → id ∈ s.output.layers)
    (p : Plane) {id : LayerId} (hid : id ∈ s.output.layers) (hfresh : path.holds id = false)
    {l l' : Layer} (hl : s.layers.get? id.toHandle = some l)
    (hl' : s'.layers.get? id.toHandle = some l') :
    s'.rejection? path p id l' = s.rejection? path p id l := by
  obtain ⟨l₁, l₁', hl₁, hl₁', -, -, hzpos, -⟩ := halike.alone id hid
  obtain rfl := Option.some.inj (hl.symm.trans hl₁)
  obtain rfl := Option.some.inj (hl'.symm.trans hl₁')
  -- The rules ask about visibility, position and overlap, and all three answer as before.
  have habove : ∀ zpos, s'.isAbovePlaced path l' zpos = s.isAbovePlaced path l zpos := by
    intro zpos
    have hany := halike.any_placed hpath hid hfresh hl hl' fun _ z => z.any (zpos > ·)
    rw [Search.Scene.isAbovePlaced, Search.Scene.isAbovePlaced, hany, halike.lastOverlayZpos hpath]
  have hbelow : ∀ zpos, s'.isNotBelowPlaced path p l' zpos = s.isNotBelowPlaced path p l zpos := by
    intro zpos
    have hany := halike.any_placed hpath hid hfresh hl hl' fun q _ => p.zpos ≥ q.zpos
    rw [Search.Scene.isNotBelowPlaced, Search.Scene.isNotBelowPlaced, hany,
      halike.lastOverlayZpos hpath]
  have hcomposition : s'.isComposition id = s.isComposition id := by
    rw [Search.Scene.isComposition, Search.Scene.isComposition, hout]
  rw [Search.Scene.rejection?, Search.Scene.rejection?, hzpos, hcomposition,
    halike.primaryZpos hpath, halike.hasCompositedLayerOver hout hid hl hl']
  simp only [habove, hbelow]

/-- A path is valid in both scenes or in neither: the same layers count. -/
theorem StacksAlike.isValid : s'.isValid path = s.isValid path := by
  have hcount : s'.ordinaryCount = s.ordinaryCount := by
    unfold Search.Scene.ordinaryCount
    -- The count is over the layers of the output, which are as visible as before.
    rw [hout]
    apply List.countP_congr
    intro id hid
    obtain ⟨l, l', hl, hl', -, hvisible, -⟩ := halike.alone id hid
    simp only [Search.Scene.isComposition, Search.Scene.layer?, hl, hl', hout, Option.any_some,
      hvisible]
  have hcomposition : s'.isComposition = s.isComposition := by
    funext id
    rw [Search.Scene.isComposition, Search.Scene.isComposition, hout]
  rw [Search.Scene.isValid, Search.Scene.isValid, Search.Scene.score, Search.Scene.score,
    Search.Scene.isComposited, Search.Scene.isComposited, hcomposition, hcount, hout]

end Rules

end Allocation

/-- What happens to layers between a clean mark and the next decision. The driver may know framebuffers
by other ids at any time. -/
inductive Edit (σ : Type) where
  | setProperty (id : LayerId) (name : String) (value : UInt64)
  | unsetProperty (id : LayerId) (name : String)
  | forceComposition (id : LayerId)
  | refreshFramebuffers (o : OutputId)
  | drive (f : σ → σ)

def Edit.perform {σ : Type} [Kernel σ] : Edit σ → DeviceM σ Unit
  | setProperty id name value => Device.setProperty id name value
  | unsetProperty id name => Device.unsetProperty id name
  | forceComposition id => Device.forceComposition id
  | refreshFramebuffers o => Allocation.refreshFramebuffers o
  | drive f => modify fun d => { d with session := { d.session with kernel := f d.session.kernel } }

namespace Device

variable {σ : Type}

def edited [Kernel σ] (d : Device σ) (edits : List (Edit σ)) : Device σ :=
  edits.foldl (fun d edit => leftBy (edit.perform d)) d

structure Edited (d d' : Device σ) : Prop where
  outputs : d'.outputs = d.outputs
  layers : ∀ id, Option.Rel Layer.Remembers (d.layer? id) (d'.layer? id)

instance : IsPreorder (Device σ) Edited where
  refl d := by
    refine ⟨rfl, fun id => ?_⟩
    cases d.layer? id with
    | none => exact .none
    | some l => exact .some (refl_of Layer.Remembers l)
  trans d d' d'' h h' := by
    refine ⟨h'.outputs.trans h.outputs, fun id => ?_⟩
    have hfirst := h.layers id
    have hsecond := h'.layers id
    generalize d.layer? id = l, d'.layer? id = l', d''.layer? id = l'' at hfirst hsecond ⊢
    cases hfirst with
    | none => exact hsecond
    | some hl =>
      cases hsecond with
      | some hl' => exact .some (trans_of Layer.Remembers hl hl')

theorem edited_withLayer {d : Device σ} {id : LayerId} {f : Layer → Layer}
    (hf : ∀ l, d.layer? id = some l → l.Remembers (f l)) : Edited d (d.withLayer id f) := by
  refine ⟨rfl, fun id' => ?_⟩
  rw [layer?_withLayer]
  -- Only the layer that is edited has to remember anything.
  by_cases hid : id' = id
  · subst hid
    rw [if_pos rfl]
    cases hl : d.layer? id' with
    | none => exact .none
    | some l => exact .some (hf l hl)
  · rw [if_neg hid]
    exact (refl_of Edited d).layers id'

theorem edited_editLayer {id : LayerId} {edit : Layer → Except Error Layer}
    (hedit : ∀ l l', edit l = .ok l' → l.Remembers l') : Stays Edited (editLayer (σ := σ) id edit) := by
  intro d
  simp only [editLayer, ensures_bind, ensures_layer]
  refine ⟨fun l hl => ?_, fun _ => refl_of Edited d⟩
  -- An edit that fails leaves the device as it was.
  split
  · rename_i l' hl'
    refine edited_withLayer fun l₁ hl₁ => ?_
    obtain rfl := Option.some.inj (hl.symm.trans hl₁)
    exact hedit l l' hl'
  · exact refl_of Edited d

variable [Kernel σ]

theorem edited_refreshFramebuffers (o : OutputId) :
    Stays Edited (Allocation.refreshFramebuffers (σ := σ) o) :=
  Allocation.stays_refreshFramebuffers
    (fun _ _ _ => edited_withLayer fun _ _ => ⟨fun h => h, fun _ => rfl⟩)
    (fun _ _ d => ⟨rfl, (refl_of Edited d).layers⟩) o

theorem edited_perform (edit : Edit σ) : Stays Edited edit.perform := by
  cases edit with
  | setProperty id name value => exact edited_editLayer fun _ _ => Layer.remembers_setProperty
  | unsetProperty id name => exact edited_editLayer (rel_of_ok (Layer.remembers_unsetProperty · name))
  | forceComposition id => exact edited_editLayer (rel_of_ok Layer.remembers_forceComposition)
  | refreshFramebuffers o => exact edited_refreshFramebuffers o
  | drive f => exact stays_modify fun d => ⟨rfl, (refl_of Edited d).layers⟩

theorem edited_edited (d : Device σ) (edits : List (Edit σ)) : Edited d (d.edited edits) := by
  induction edits generalizing d with
  | nil => exact refl_of Edited d
  | cons edit edits ih =>
    have hfirst : Edited d (leftBy (edit.perform d)) := (edited_perform edit d).leftBy
    exact trans_of Edited hfirst (ih _)

end Device

open Allocation in
/-- If all layers of an output were clean, whatever edits there were since, and none of them asks for a
new allocation now, then no stacking rule sees a difference: each layer is as visible as it was, at the
same stacking position, and composited by force or not as before, any two layers overlap as before, and
so the search would accept and refuse what it did. -/
theorem Device.Reachable.stacksAlike_of_eligible {σ : Type} [Kernel σ] {d : Device σ} (hd : d.Reachable)
    {o : OutputId} {out : Output} (hout : d.output? o = some out)
    (hclean : ∀ id ∈ out.layers, ∀ l, d.layer? id = some l → l.IsClean) (edits : List (Edit σ))
    (hkeeps : ∀ id ∈ out.layers, needsRealloc (d.edited edits).layers out id = none) :
    (d.edited edits).output? o = some out ∧
      StacksAlike d.layers (d.edited edits).layers out ∧
      ∀ s s' : Search.Scene, s.output = out → s'.output = out → s.layers = d.layers →
        s'.layers = (d.edited edits).layers →
        ∀ path : Search.Path, (∀ c ∈ path, ∀ id, c.layer = some id → id ∈ out.layers) →
          s'.isValid path = s.isValid path ∧
          ∀ p, ∀ id ∈ out.layers, ∀ l l', d.layer? id = some l → (d.edited edits).layer? id = some l' →
            path.isOpen id l' = path.isOpen id l ∧
            (path.holds id = false → s'.rejection? path p id l' = s.rejection? path p id l) := by
  -- The edits keep the outputs, and each layer remembers its own.
  obtain ⟨houtputs, hlayers⟩ := d.edited_edited edits
  have hlive : ∀ id ∈ out.layers, ∃ l, d.layers.get? id.toHandle = some l ∧ l.IsClean ∧
      l.properties.WellFormed := by
    intro id hid
    obtain ⟨l, hl, -⟩ := Device.layer_of_output hd.wellFormed hout hid
    exact ⟨l, hl, hclean id hid l hl, hd.wellFormed_properties hl⟩
  have halike := stacksAlike_of_needsRealloc hlive (fun id _ => hlayers id) hkeeps
  refine ⟨by rw [Device.output?, houtputs]; exact hout, halike, ?_⟩
  rintro s s' rfl hs' hslayers hslayers' path hpath
  rw [← hslayers, ← hslayers'] at halike
  refine ⟨halike.isValid hs', fun p id hid l l' hl hl' => ⟨?_, fun hfresh => ?_⟩⟩
  -- What a layer is open to depends on its plane and on its being visible.
  · obtain ⟨l₁, l₁', hl₁, hl₁', hplane, hvisible, -⟩ := halike.alone id hid
    rw [Device.layer?, ← hslayers] at hl
    rw [Device.layer?, ← hslayers'] at hl'
    obtain rfl := Option.some.inj (hl.symm.trans hl₁)
    obtain rfl := Option.some.inj (hl'.symm.trans hl₁')
    rw [Search.Path.isOpen, Search.Path.isOpen, hplane, hvisible]
  · exact halike.rejection? hs' hpath p hid hfresh (hslayers ▸ hl) (hslayers' ▸ hl')

/-- The edits of a frame that keeps the small device's allocation: the lowest layer moves where nothing
is, and the middle one closer to the one on top, which it overlaps as before. -/
def smallMoves : List (Edit Scripted) :=
  [.setProperty ⟨⟨2, 0⟩⟩ "CRTC_X" 600, .setProperty ⟨⟨1, 0⟩⟩ "CRTC_X" 40,
    .refreshFramebuffers .first]

/-- The layers of the small device stack as before after these moves, the two that overlap included. -/
theorem Device.stacksAlike_threeShown : ∃ out, threeShown.output? .first = some out ∧
    Allocation.StacksAlike threeShown.layers (threeShown.edited smallMoves).layers out := by
  have hlive : (threeShown.output? .first).isSome = true := by decide +kernel
  obtain ⟨out, hout⟩ := Option.isSome_iff_exists.mp hlive
  have hcheck : (threeShown.output? .first).all (fun out => out.layers.all fun id =>
      (threeShown.layer? id).all (fun l => decide l.IsClean) &&
        (Allocation.needsRealloc (threeShown.edited smallMoves).layers out id).isNone) = true := by
    decide +kernel
  -- The one layer that moved does not ask for a new allocation.
  rw [hout, Option.all_some, List.all_eq_true] at hcheck
  refine ⟨out, hout, (Device.Reachable.stacksAlike_of_eligible reachable_threeShown hout
    (fun id hid l hl => ?_) smallMoves fun id hid => ?_).2.1⟩
  · have hclean := (Bool.and_eq_true_iff.mp (hcheck id hid)).1
    rw [hl, Option.all_some] at hclean
    exact of_decide_eq_true hclean
  · exact Option.isNone_iff_eq_none.mp (Bool.and_eq_true_iff.mp (hcheck id hid)).2

end Scanout
