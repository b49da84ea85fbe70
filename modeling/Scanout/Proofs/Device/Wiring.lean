import Mathlib.Data.List.Nodup
import Mathlib.Data.Multiset.Defs
import Scanout.Device.Basic
import Scanout.Proofs.Arena

/-! Who owns a layer and which plane shows it. Both are written on two sides; a wiring is consistent
when the two sides say the same. -/

namespace Scanout

variable {σ : Type}

namespace LayerId

theorem toHandle_inj {id id' : LayerId} : id.toHandle = id'.toHandle ↔ id = id' := by
  cases id
  cases id'
  simp

end LayerId

namespace OutputId

theorem toHandle_inj {id id' : OutputId} : id.toHandle = id'.toHandle ↔ id = id' := by
  cases id
  cases id'
  simp

end OutputId

namespace Device

variable (d : Device σ)

theorem layer?_withLayer (id : LayerId) (f : Layer → Layer) (id' : LayerId) :
    (d.withLayer id f).layer? id' = if id' = id then (d.layer? id').map f else d.layer? id' := by
  simp only [layer?, withLayer, Arena.get?_modify, LayerId.toHandle_inj]

theorem output?_withOutput (o : OutputId) (f : Output → Output) (o' : OutputId) :
    (d.withOutput o f).output? o' = if o' = o then (d.output? o').map f else d.output? o' := by
  simp only [output?, withOutput, Arena.get?_modify, OutputId.toHandle_inj]

theorem withOutput_withOutput (o : OutputId) (f g : Output → Output) :
    (d.withOutput o f).withOutput o g = d.withOutput o (g ∘ f) := by
  simp only [withOutput, Arena.modify_modify]

@[simp]
theorem output?_withLayer (id : LayerId) (f : Layer → Layer) (o : OutputId) :
    (d.withLayer id f).output? o = d.output? o := rfl

@[simp]
theorem layer?_withOutput (o : OutputId) (f : Output → Output) (id : LayerId) :
    (d.withOutput o f).layer? id = d.layer? id := rfl

@[simp]
theorem layer?_withPlane (q : UInt32) (f : Plane → Plane) (id : LayerId) :
    (d.withPlane q f).layer? id = d.layer? id := rfl

@[simp]
theorem output?_withPlane (q : UInt32) (f : Plane → Plane) (o : OutputId) :
    (d.withPlane q f).output? o = d.output? o := rfl

end Device

/-- The search may visit `p` before `q`: primary planes come first, the others from the highest
stacking position down. -/
def Plane.mayPrecede (p q : Plane) : Prop :=
  p.isPrimary = true ∨ (q.isPrimary = false ∧ q.zpos ≤ p.zpos)

structure Wiring where
  planes : List Plane
  layers : LayerId → Option (OutputId × Option UInt32)
  outputs : OutputId → Option (Multiset LayerId × Option LayerId)

def Layer.place (l : Layer) : OutputId × Option UInt32 := (l.output, l.plane)

def Output.members (o : Output) : Multiset LayerId × Option LayerId := (o.layers, o.compositionLayer)

def Device.wiring (d : Device σ) : Wiring where
  planes := d.planes
  layers id := (d.layer? id).map Layer.place
  outputs o := (d.output? o).map Output.members

namespace Wiring

/-- Both sides of every link agree, and so do both sides of every ownership. -/
structure Consistent (w : Wiring) : Prop where
  ids_nodup : (w.planes.map Plane.id).Nodup
  sorted : w.planes.Pairwise Plane.mayPrecede
  layer_of_plane : ∀ p ∈ w.planes, ∀ id, p.layer = some id → ∃ o, w.layers id = some (o, some p.id)
  plane_of_layer : ∀ id o q, w.layers id = some (o, some q) →
    ∃ p ∈ w.planes, p.id = q ∧ p.layer = some id
  owned_iff : ∀ o id, (∃ m c, w.outputs o = some (m, c) ∧ id ∈ m) ↔ ∃ q, w.layers id = some (o, q)
  layers_nodup : ∀ o m c, w.outputs o = some (m, c) → m.Nodup
  composition_mem : ∀ o m id, w.outputs o = some (m, some id) → id ∈ m

def links (w : Wiring) (o : OutputId) : Set (UInt32 × LayerId) :=
  {x | w.layers x.2 = some (o, some x.1)}

instance (w : Wiring) (o : OutputId) (x : UInt32 × LayerId) : Decidable (x ∈ w.links o) :=
  inferInstanceAs (Decidable (w.layers x.2 = some (o, some x.1)))

def unlink (w : Wiring) (q : UInt32) : Wiring where
  planes := w.planes.map fun p => if p.id = q then { p with layer := none } else p
  layers id := (w.layers id).map fun l => (l.1, if l.2 = some q then none else l.2)
  outputs := w.outputs

/-- The wiring with a layer on a plane; neither keeps another partner. -/
def link (w : Wiring) (q : UInt32) (id : LayerId) : Wiring where
  planes := w.planes.map fun p =>
    if p.id = q then { p with layer := some id }
    else if p.layer = some id then { p with layer := none } else p
  layers id' := (w.layers id').map fun l =>
    (l.1, if id' = id then some q else if l.2 = some q then none else l.2)
  outputs := w.outputs

/-- Unlinking a plane takes its links out, and no others. -/
theorem links_unlink (w : Wiring) (q : UInt32) (o : OutputId) :
    (w.unlink q).links o = {x ∈ w.links o | x.1 ≠ q} := by
  ext ⟨q', id⟩
  simp only [links, unlink, Set.mem_ofPred_eq, Option.map_eq_some_iff, Prod.mk.injEq]
  constructor
  · rintro ⟨⟨o', q''⟩, hl, rfl, hq⟩
    split at hq
    · cases hq
    · rename_i hne
      simp only at hq hne
      subst hq
      exact ⟨hl, fun he => hne (by rw [he])⟩
  · rintro ⟨hl, hne⟩
    exact ⟨_, hl, rfl, by simp [hne]⟩

namespace Consistent

variable {w : Wiring} (hw : w.Consistent)
include hw

/-- Planes with one id are the same. -/
theorem plane_eq {p p' : Plane} (hp : p ∈ w.planes) (hp' : p' ∈ w.planes) (h : p.id = p'.id) :
    p = p' := List.inj_on_of_nodup_map hw.ids_nodup hp hp' h

/-- Two layers never share a plane. -/
theorem layer_unique {id id' : LayerId} {o o' : OutputId} {q : UInt32}
    (h : w.layers id = some (o, some q)) (h' : w.layers id' = some (o', some q)) : id = id' := by
  -- The plane tells which layer it shows.
  obtain ⟨p, hp, hpq, hpl⟩ := hw.plane_of_layer id o q h
  obtain ⟨p', hp', hpq', hpl'⟩ := hw.plane_of_layer id' o' q h'
  have he := hw.plane_eq hp hp' (hpq.trans hpq'.symm)
  subst he
  exact Option.some.inj (hpl.symm.trans hpl')

theorem unlink (q : UInt32) : (w.unlink q).Consistent where
  ids_nodup := by
    -- No id and no place in the order changes.
    have hids : (w.unlink q).planes.map Plane.id = w.planes.map Plane.id := by
      simp only [Wiring.unlink, List.map_map]
      apply List.map_congr_left
      intro p _
      simp only [Function.comp]
      split <;> rfl
    rw [hids]
    exact hw.ids_nodup
  sorted := by
    simp only [Wiring.unlink, List.pairwise_map]
    apply hw.sorted.imp
    intro p p' h
    simpa only [Plane.mayPrecede, Plane.isPrimary, apply_ite Plane.kind, apply_ite Plane.zpos,
      ite_self] using h
  layer_of_plane := by
    intro p hp id hid
    -- The plane in question shows nothing, all others what they did.
    obtain ⟨p', hp', rfl⟩ := List.mem_map.mp hp
    by_cases hne : p'.id = q
    · simp [hne] at hid
    · simp only [hne, ↓reduceIte] at hid ⊢
      obtain ⟨o, ho⟩ := hw.layer_of_plane p' hp' id hid
      refine ⟨o, ?_⟩
      simp [Wiring.unlink, ho, hne]
  plane_of_layer := by
    intro id o q' h
    -- Nor does a layer name that plane any more.
    obtain ⟨⟨o', q''⟩, hl, he⟩ := Option.map_eq_some_iff.mp h
    obtain ⟨rfl, hq⟩ := Prod.mk.inj he
    split at hq
    · cases hq
    · rename_i hne
      simp only at hq hne
      subst hq
      obtain ⟨p, hp, hpq, hpl⟩ := hw.plane_of_layer id o' q' hl
      refine ⟨p, List.mem_map.mpr ⟨p, hp, ?_⟩, hpq, hpl⟩
      rw [if_neg]
      rintro rfl
      exact hne (by rw [hpq])
  owned_iff := by
    intro o id
    rw [show (w.unlink q).outputs = w.outputs from rfl, hw.owned_iff o id]
    simp only [Wiring.unlink]
    cases w.layers id <;> simp [Prod.ext_iff]
  layers_nodup := hw.layers_nodup
  composition_mem := hw.composition_mem

theorem link {q : UInt32} {id : LayerId} (hq : ∃ p ∈ w.planes, p.id = q)
    (hid : (w.layers id).isSome) : (w.link q id).Consistent where
  ids_nodup := by
    -- Linking edits planes in place, too.
    have hids : (w.link q id).planes.map Plane.id = w.planes.map Plane.id := by
      simp only [Wiring.link, List.map_map]
      apply List.map_congr_left
      intro p _
      simp only [Function.comp]
      split
      · rfl
      · split <;> rfl
    rw [hids]
    exact hw.ids_nodup
  sorted := by
    simp only [Wiring.link, List.pairwise_map]
    apply hw.sorted.imp
    intro p p' h
    simpa only [Plane.mayPrecede, Plane.isPrimary, apply_ite Plane.kind, apply_ite Plane.zpos,
      ite_self] using h
  layer_of_plane := by
    intro p hp id' hid'
    obtain ⟨p', hp', rfl⟩ := List.mem_map.mp hp
    -- Plane `q` shows `id` now, the plane that did before shows nothing, and no other changes.
    by_cases hpq : p'.id = q
    · simp only [hpq, ↓reduceIte, Option.some.injEq] at hid' ⊢
      subst hid'
      obtain ⟨l, hl⟩ := Option.isSome_iff_exists.mp hid
      exact ⟨l.1, by simp [Wiring.link, hl]⟩
    · simp only [hpq, ↓reduceIte] at hid' ⊢
      by_cases hpl : p'.layer = some id
      · simp [hpl] at hid'
      · simp only [hpl, ↓reduceIte] at hid' ⊢
        obtain ⟨o, ho⟩ := hw.layer_of_plane p' hp' id' hid'
        have hne : id' ≠ id := fun he => hpl (by rw [hid', he])
        exact ⟨o, by simp [Wiring.link, ho, hne, hpq]⟩
  plane_of_layer := by
    intro id' o q' h
    obtain ⟨⟨o', q''⟩, hl, he⟩ := Option.map_eq_some_iff.mp h
    obtain ⟨rfl, hq'⟩ := Prod.mk.inj he
    -- Layer `id` is on `q` now, and the layer that was there is on no plane.
    by_cases hid : id' = id
    · subst hid
      simp only [↓reduceIte, Option.some.injEq] at hq'
      subst hq'
      obtain ⟨p, hp, hpq⟩ := hq
      exact ⟨_, List.mem_map.mpr ⟨p, hp, rfl⟩, by simp [hpq], by simp [hpq]⟩
    · simp only [hid, ↓reduceIte] at hq'
      split at hq'
      · cases hq'
      · rename_i hne
        subst hq'
        obtain ⟨p, hp, hpq, hpl⟩ := hw.plane_of_layer id' o' q' hl
        have hpne : p.id ≠ q := fun he => hne (by rw [← hpq, he])
        have hplne : p.layer ≠ some id := fun he => hid (Option.some.inj (hpl.symm.trans he))
        exact ⟨p, List.mem_map.mpr ⟨p, hp, by simp [hpne, hplne]⟩, hpq, hpl⟩
  owned_iff := by
    intro o id'
    rw [show (w.link q id).outputs = w.outputs from rfl, hw.owned_iff o id']
    simp only [Wiring.link]
    cases w.layers id' <;> simp [Prod.ext_iff]
  layers_nodup := hw.layers_nodup
  composition_mem := hw.composition_mem

end Consistent

end Wiring

namespace Device

@[simp]
theorem outputs_unlink (d : Device σ) (q : UInt32) : (d.unlink q).outputs = d.outputs := by
  unfold unlink
  split <;> rfl

@[simp]
theorem outputs_link (d : Device σ) (q : UInt32) (id : LayerId) :
    (d.link q id).outputs = d.outputs := by
  cases hprev : ((d.unlink q).layer? id).bind Layer.plane <;>
    simp [link, hprev, withPlane, withLayer]

variable {d : Device σ} (hd : d.wiring.Consistent)
include hd

theorem plane?_eq_some {p : Plane} (hp : p ∈ d.planes) : d.plane? p.id = some p := by
  have hfound : (d.plane? p.id).isSome := List.find?_isSome.mpr ⟨p, hp, decide_eq_true rfl⟩
  obtain ⟨p', hp'⟩ := Option.isSome_iff_exists.mp hfound
  have hid : p'.id = p.id := by simpa using List.find?_some hp'
  rw [hp', hd.plane_eq (List.mem_of_find?_eq_some hp') hp hid]

theorem layer_of_plane {p : Plane} (hp : p ∈ d.planes) {id : LayerId} (hl : p.layer = some id) :
    ∃ l, d.layer? id = some l ∧ l.plane = some p.id := by
  obtain ⟨o, ho⟩ := hd.layer_of_plane p hp id hl
  obtain ⟨l, hl, he⟩ := Option.map_eq_some_iff.mp ho
  exact ⟨l, hl, congrArg Prod.snd he⟩

theorem plane_of_layer {id : LayerId} {l : Layer} (hl : d.layer? id = some l) {q : UInt32}
    (hq : l.plane = some q) : ∃ p ∈ d.planes, p.id = q ∧ p.layer = some id :=
  hd.plane_of_layer id l.output q (by simp [wiring, hl, Layer.place, hq])

omit hd in
theorem mem_links_iff {o : OutputId} {q : UInt32} {id : LayerId} :
    (q, id) ∈ d.wiring.links o ↔ ∃ l, d.layer? id = some l ∧ l.output = o ∧ l.plane = some q := by
  simp [wiring, Wiring.links, Layer.place]

theorem mem_links_of_plane {p : Plane} (hp : p ∈ d.planes) {id : LayerId} (hlayer : p.layer = some id)
    {l : Layer} (hl : d.layer? id = some l) : (p.id, id) ∈ d.wiring.links l.output := by
  obtain ⟨l', hl', hq⟩ := layer_of_plane hd hp hlayer
  obtain rfl := Option.some.inj (hl.symm.trans hl')
  exact mem_links_iff.mpr ⟨l, hl, rfl, hq⟩

/-- A link is seen from the plane as well. -/
theorem plane_of_link {o : OutputId} {x : UInt32 × LayerId} (hx : x ∈ d.wiring.links o) :
    ∃ p ∈ d.planes, p.id = x.1 ∧ p.layer = some x.2 := hd.plane_of_layer x.2 o x.1 hx

/-- Where no plane shows a layer there are no links. -/
theorem links_eq_empty (h : ∀ p ∈ d.planes, p.layer = none) (o : OutputId) : d.wiring.links o = ∅ := by
  refine Set.ext fun x => ⟨fun hx => ?_, False.elim⟩
  obtain ⟨p, hp, -, hlayer⟩ := plane_of_link hd hx
  cases (h p hp).symm.trans hlayer

/-- Unlinked, the plane has lost its layer, and every other plane is as before. -/
theorem planes_unlink (q : UInt32) :
    (d.unlink q).planes = d.planes.map fun p => if p.id = q then { p with layer := none } else p := by
  unfold unlink
  split
  · rfl
  -- With no layer on the plane, nothing was edited.
  · rename_i hnone
    conv_lhs => rw [← List.map_id d.planes]
    apply List.map_congr_left
    intro p hp
    split
    · rename_i hq
      rw [← hq, plane?_eq_some hd hp, Option.bind_some] at hnone
      cases p
      simp_all
    · rfl

theorem layer?_unlink (q : UInt32) (id : LayerId) :
    (d.unlink q).layer? id =
      (d.layer? id).map fun l => if l.plane = some q then { l with plane := none } else l := by
  cases hl : d.layer? id with
  | none =>
    unfold unlink
    split <;> simp [hl, layer?_withLayer]
  | some l =>
    -- The layer is on plane `q` exactly if that plane shows it.
    by_cases hq : l.plane = some q
    · obtain ⟨p, hp, rfl, hpl⟩ := plane_of_layer hd hl hq
      have hp? : (d.plane? p.id).bind Plane.layer = some id := by
        rw [plane?_eq_some hd hp, Option.bind_some, hpl]
      simp [unlink, hp?, layer?_withLayer, hl, hq]
    · unfold unlink
      split
      · rename_i old hold
        obtain ⟨p, hp, hpl⟩ := Option.bind_eq_some_iff.mp hold
        have hpq : p.id = q := by simpa using List.find?_some hp
        have hne : id ≠ old := by
          rintro rfl
          obtain ⟨l', hl', hq'⟩ := layer_of_plane hd (List.mem_of_find?_eq_some hp) hpl
          rw [hl] at hl'
          obtain rfl := Option.some.inj hl'
          exact hq (hq'.trans (by rw [hpq]))
        simp [layer?_withLayer, hl, hne, hq]
      · simp [hl, hq]

theorem wiring_unlink (q : UInt32) : (d.unlink q).wiring = d.wiring.unlink q := by
  simp only [wiring, Wiring.unlink, Wiring.mk.injEq]
  refine ⟨planes_unlink hd q, funext fun id => ?_, ?_⟩
  · rw [layer?_unlink hd, Option.map_map, Option.map_map]
    refine congrArg (Option.map · (d.layer? id)) (funext fun l => ?_)
    by_cases hq : l.plane = some q <;> simp [Layer.place, hq]
  · simp only [output?, outputs_unlink]

theorem planes_link {q : UInt32} {id : LayerId} (hid : (d.layer? id).isSome) :
    (d.link q id).planes = d.planes.map fun p =>
      if p.id = q then { p with layer := some id }
      else if p.layer = some id then { p with layer := none } else p := by
  obtain ⟨l, hl⟩ := Option.isSome_iff_exists.mp hid
  -- Whether a plane shows `id` can be told from the layer alone.
  have hshown : ∀ p ∈ d.planes, (p.layer = some id ↔ l.plane = some p.id) := by
    intro p hp
    constructor
    · intro hpl
      obtain ⟨l', hl', hq⟩ := layer_of_plane hd hp hpl
      rw [hl] at hl'
      rw [Option.some.inj hl', hq]
    · intro hq
      obtain ⟨p', hp', hpp, hpl⟩ := plane_of_layer hd hl hq
      rwa [← hd.plane_eq hp' hp hpp]
  have hnow : (d.unlink q).layer? id =
      some (if l.plane = some q then { l with plane := none } else l) := by
    rw [layer?_unlink hd, hl, Option.map_some]
  simp only [link, hnow, Option.bind_some]
  -- On its own plane already, the layer comes back to it.
  by_cases hq : l.plane = some q
  · simp only [hq, ↓reduceIte, withPlane, withLayer, planes_unlink hd, List.map_map]
    apply List.map_congr_left
    intro p hp
    have := hshown p hp
    simp only [hq, Option.some.injEq] at this
    by_cases hpq : p.id = q
    · simp [hpq]
    · have hne : p.layer ≠ some id := fun h => hpq (this.mp h).symm
      simp [hpq, hne]
  · simp only [hq, ↓reduceIte]
    -- It was on no plane, or left another one.
    cases hprev : l.plane with
    | none =>
      simp only [withPlane, withLayer, planes_unlink hd, List.map_map]
      apply List.map_congr_left
      intro p hp
      have := hshown p hp
      simp only [hprev, reduceCtorEq, iff_false] at this
      by_cases hpq : p.id = q <;> simp [hpq, this]
    | some q' =>
      simp only [withPlane, withLayer, planes_unlink hd, List.map_map]
      apply List.map_congr_left
      intro p hp
      have := hshown p hp
      simp only [hprev, Option.some.injEq] at this
      by_cases hpq : p.id = q
      · have hqq : q ≠ q' := fun he => hq (by rw [hprev, he])
        simp [hpq, hqq]
      · by_cases hpq' : q' = p.id
        · subst hpq'
          have hpl := this.mpr rfl
          simp [hpq, hpl]
        · have hpl : p.layer ≠ some id := fun h => hpq' (this.mp h)
          simp [hpq, Ne.symm hpq', hpl]

theorem layer?_link {q : UInt32} {id : LayerId} (id' : LayerId) :
    (d.link q id).layer? id' = (d.layer? id').map fun l =>
      if id' = id then { l with plane := some q }
      else if l.plane = some q then { l with plane := none } else l := by
  -- Taking `id` off its old plane is an edit of that plane only.
  have hsame : (d.link q id).layer? id' =
      ((d.unlink q).withLayer id ({ · with plane := some q })).layer? id' := by
    cases hprev : ((d.unlink q).layer? id).bind Layer.plane <;>
      simp only [link, hprev, layer?_withPlane, layer?_withLayer]
  rw [hsame, layer?_withLayer, layer?_unlink hd]
  cases d.layer? id' with
  | none => simp
  | some l =>
    by_cases hid : id' = id
    · by_cases hq : l.plane = some q <;> simp [hid, hq]
    · simp [hid]

/-- The wiring after linking is what linking does to the wiring. -/
theorem wiring_link {q : UInt32} {id : LayerId} (hid : (d.layer? id).isSome) :
    (d.link q id).wiring = d.wiring.link q id := by
  simp only [wiring, Wiring.link, Wiring.mk.injEq]
  refine ⟨planes_link hd hid, funext fun id' => ?_, ?_⟩
  · rw [layer?_link hd, Option.map_map, Option.map_map]
    refine congrArg (Option.map · (d.layer? id')) (funext fun l => ?_)
    -- The layer itself, the one that was on the plane, and all others.
    by_cases hid : id' = id
    · simp [Layer.place, hid]
    · by_cases hq : l.plane = some q <;> simp [Layer.place, hid, hq]
  · simp only [output?, outputs_link]

end Device

/-- What every operation keeps: the two sides of the wiring agree, and the storage is in order. -/
structure Device.WellFormed (d : Device σ) : Prop where
  wiring : d.wiring.Consistent
  layers : d.layers.WellFormed
  outputs : d.outputs.WellFormed

namespace Device

variable {d : Device σ} (hd : d.WellFormed)
include hd

/-- Unlinking keeps a device in order. -/
theorem wellFormed_unlink (q : UInt32) : (d.unlink q).WellFormed where
  wiring := by
    rw [wiring_unlink hd.wiring]
    exact hd.wiring.unlink q
  layers := by
    unfold unlink
    split
    · exact Arena.wellFormed_modify hd.layers _ _
    · exact hd.layers
  outputs := by
    rw [outputs_unlink]
    exact hd.outputs

/-- So does linking a layer to a plane, if there are the two. -/
theorem wellFormed_link {q : UInt32} {id : LayerId} (hq : ∃ p ∈ d.planes, p.id = q)
    (hid : (d.layer? id).isSome) : (d.link q id).WellFormed where
  wiring := by
    rw [wiring_link hd.wiring hid]
    exact hd.wiring.link hq (by simpa [wiring] using hid)
  layers := by
    -- Unlinking comes first, and then the edit of one layer.
    have hunlinked := (wellFormed_unlink hd q).layers
    cases hprev : ((d.unlink q).layer? id).bind Layer.plane <;>
      simp only [link, hprev] <;> exact Arena.wellFormed_modify hunlinked _ _
  outputs := by
    rw [outputs_link]
    exact hd.outputs

end Device

end Scanout
