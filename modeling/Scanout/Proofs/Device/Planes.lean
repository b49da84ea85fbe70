import Scanout.Device.Planes
import Scanout.Proofs.Device.Layers

namespace Scanout

variable {σ : Type}

namespace Plane

/-- The plane has this id and the properties of the description, and shows nothing yet. -/
structure Describes (p : Plane) (q : UInt32) (info : PlaneInfo) : Prop where
  id : p.id = q
  layer : p.layer = none
  descriptors : p.descriptors = info.properties.map Prod.fst

/-- A plane that is put in its place is there besides all others. -/
theorem insertInto_perm (p : Plane) (planes : List Plane) :
    (p.insertInto planes).Perm (p :: planes) := by
  -- Induction on the list, down to the place.
  induction planes with
  | nil => simp [insertInto]
  | cons q planes ih =>
    by_cases hfirst : (p.isPrimary || (!q.isPrimary && p.zpos ≥ q.zpos)) = true
    · simp [insertInto, hfirst]
    · rw [insertInto, if_neg hfirst]
      apply (List.Perm.cons q ih).trans
      exact List.Perm.swap p q planes

/-- Putting a plane in its place keeps the order of visits. -/
theorem pairwise_insertInto (p : Plane) {planes : List Plane}
    (hs : planes.Pairwise mayPrecede) : (p.insertInto planes).Pairwise mayPrecede := by
  induction planes with
  | nil => exact List.pairwise_singleton _ _
  | cons q planes ih =>
    -- Either `p` goes in front of `q`, and so in front of all that `q` may precede, or further down.
    obtain ⟨hq, hs⟩ := List.pairwise_cons.mp hs
    simp only [insertInto]
    split
    · rename_i hfirst
      simp only [Bool.or_eq_true, Bool.and_eq_true, Bool.not_eq_true', decide_eq_true_eq] at hfirst
      refine List.pairwise_cons.mpr ⟨fun r hr => ?_, List.pairwise_cons.mpr ⟨hq, hs⟩⟩
      rcases hfirst with hp | ⟨hkind, hz⟩
      · exact .inl hp
      · rcases List.mem_cons.mp hr with rfl | hr
        · exact .inr ⟨hkind, hz⟩
        · rcases hq r hr with hqp | ⟨hrk, hrz⟩
          · rw [hkind] at hqp
            cases hqp
          · exact .inr ⟨hrk, by omega⟩
    · rename_i hlater
      simp only [Bool.or_eq_true, Bool.and_eq_true, Bool.not_eq_true', decide_eq_true_eq, not_or,
        not_and, Bool.not_eq_true] at hlater
      -- Further down, the plane keeps behind all that may precede it.
      refine List.pairwise_cons.mpr ⟨fun r hr => ?_, ih hs⟩
      rcases List.mem_cons.mp ((insertInto_perm p planes).mem_iff.mp hr) with rfl | hr
      · by_cases hqp : q.isPrimary = true
        · exact .inl hqp
        -- A plane that is passed is primary or is at least as high.
        · exact .inr ⟨hlater.1, by have := hlater.2 (by simpa using hqp); omega⟩
      · exact hq r hr

end Plane

namespace Wiring.Consistent

variable {w : Wiring} (hw : w.Consistent)
include hw

/-- A plane that is new and shows nothing can be put in its place. -/
theorem register {p : Plane} (hfresh : ∀ p' ∈ w.planes, p'.id ≠ p.id) (hnone : p.layer = none) :
    ({ w with planes := p.insertInto w.planes } : Wiring).Consistent where
  ids_nodup := by
    apply ((p.insertInto_perm w.planes).map Plane.id).nodup_iff.mpr
    refine List.nodup_cons.mpr ⟨fun hmem => ?_, hw.ids_nodup⟩
    obtain ⟨p', hp', he⟩ := List.mem_map.mp hmem
    exact hfresh p' hp' he
  sorted := p.pairwise_insertInto hw.sorted
  layer_of_plane := by
    intro p' hp' id hid
    -- The new plane shows nothing, so there is nothing to agree on.
    rcases List.mem_cons.mp ((p.insertInto_perm w.planes).mem_iff.mp hp') with rfl | hp'
    · rw [hnone] at hid
      cases hid
    · exact hw.layer_of_plane p' hp' id hid
  -- A link to a plane is still one, as no plane has gone.
  plane_of_layer := by
    intro id o q hl
    obtain ⟨p', hp', hq⟩ := hw.plane_of_layer id o q hl
    exact ⟨p', (p.insertInto_perm w.planes).mem_iff.mpr (List.mem_cons_of_mem p hp'), hq⟩
  owned_iff := hw.owned_iff
  layers_nodup := hw.layers_nodup
  composition_mem := hw.composition_mem

/-- A plane that shows nothing can be forgotten. -/
theorem unregister {q : UInt32} (hfree : ∀ id o, w.layers id ≠ some (o, some q)) :
    ({ w with planes := w.planes.filter fun p => p.id ≠ q } : Wiring).Consistent where
  ids_nodup := hw.ids_nodup.sublist (List.filter_sublist.map Plane.id)
  sorted := hw.sorted.sublist List.filter_sublist
  layer_of_plane := by
    intro p hp id hid
    exact hw.layer_of_plane p (List.mem_filter.mp hp).1 id hid
  -- No link leads to the plane that goes.
  plane_of_layer := by
    intro id o q' hl
    obtain ⟨p, hp, rfl, hpl⟩ := hw.plane_of_layer id o q' hl
    have hne : p.id ≠ q := by
      rintro rfl
      exact hfree id o hl
    exact ⟨p, List.mem_filter.mpr ⟨hp, by simpa using hne⟩, rfl, hpl⟩
  owned_iff := hw.owned_iff
  layers_nodup := hw.layers_nodup
  composition_mem := hw.composition_mem

end Wiring.Consistent

namespace Device

def Talks (d d' : Device σ) : Prop := ∃ session, d' = { d with session }

instance : IsPreorder (Device σ) Talks where
  refl d := ⟨d.session, rfl⟩
  trans := by
    rintro d _ _ ⟨s, rfl⟩ ⟨s', rfl⟩
    exact ⟨s', rfl⟩

def Idles (d d' : Device σ) : Prop := ∃ trace, d' = { d with session := { d.session with trace } }

instance : IsPreorder (Device σ) Idles where
  refl d := ⟨d.session.trace, rfl⟩
  trans := by
    rintro d _ _ ⟨trace, rfl⟩ ⟨trace', rfl⟩
    exact ⟨trace', rfl⟩

theorem idles_log (severity : Severity) (note : Note) : Stays Idles (log (σ := σ) severity note) :=
  fun _ => ⟨_, rfl⟩

theorem talks_onSession {α : Type} (x : SessionM σ α) : Stays Talks (onSession x) := by
  intro d
  rw [ensures_onSession]
  unfold Ensures
  cases x d.session <;> exact ⟨_, rfl⟩

theorem WellFormed.of_talks {d d' : Device σ} (hd : d.WellFormed) (h : Talks d d') :
    d'.WellFormed := by
  obtain ⟨s, rfl⟩ := h
  exact ⟨hd.wiring, hd.layers, hd.outputs⟩

def LinksNone (d d' : Device σ) : Prop := ∀ p ∈ d'.planes, p.layer.isSome → p ∈ d.planes

instance : IsPreorder (Device σ) LinksNone where
  refl _ := fun _ hp _ => hp
  trans _ _ _ h h' := fun p hp hshows => h p (h' p hp hshows) hshows

theorem linksNone_of_eq {d d' : Device σ} (h : d'.planes = d.planes) : LinksNone d d' :=
  fun _ hp _ => h ▸ hp

/-- What registering planes keeps: order, and everything about links, layers and outputs. -/
structure Registers (d d' : Device σ) : Prop where
  wellFormed : d.WellFormed → d'.WellFormed
  planes : LinksNone d d'
  layers : d'.layers = d.layers
  outputs : d'.outputs = d.outputs

instance : IsPreorder (Device σ) Registers where
  refl d := ⟨fun h => h, refl_of LinksNone d, rfl, rfl⟩
  trans _ _ _ h h' :=
    ⟨fun hd => h'.wellFormed (h.wellFormed hd), trans_of LinksNone h.planes h'.planes,
      h'.layers.trans h.layers, h'.outputs.trans h.outputs⟩

theorem Idles.talks {d d' : Device σ} (h : Idles d d') : Talks d d' := by
  obtain ⟨trace, rfl⟩ := h
  exact ⟨_, rfl⟩

theorem Registers.of_talks {d d' : Device σ} (h : Talks d d') : Registers d d' := by
  refine ⟨fun hd => hd.of_talks h, linksNone_of_eq ?_, ?_, ?_⟩ <;> obtain ⟨s, rfl⟩ := h <;> rfl

/-- A plane with a new id and no layer is registered as it is put in its place. -/
theorem registers_insert {d : Device σ} {p : Plane} (hfresh : d.plane? p.id = none)
    (hnone : p.layer = none) : Registers d { d with planes := p.insertInto d.planes } := by
  refine ⟨fun hd => ⟨hd.wiring.register (fun p' hp' he => ?_) hnone, hd.layers, hd.outputs⟩,
    fun p' hp' hshows => ?_, rfl, rfl⟩
  · have := List.find?_eq_none.mp hfresh p' hp'
    simp [he] at this
  · rcases List.mem_cons.mp ((p.insertInto_perm d.planes).mem_iff.mp hp') with rfl | hp'
    · rw [hnone] at hshows
      cases hshows
    · exact hp'

variable [Kernel σ]

theorem stays_formatsOf {R : Device σ → Device σ → Prop} [IsPreorder (Device σ) R]
    (hlog : ∀ severity note, Stays R (log (σ := σ) severity note)) (plane : UInt32) (blob : UInt64) :
    Stays R (formatsOf (σ := σ) plane blob) := by
  apply (stays_query _).bind
  intro bytes
  simp only
  split
  · exact (hlog _ _).bind fun _ => stays_pure _
  · exact stays_pure _

def GainsPlane (q : UInt32) (d d' : Device σ) : Prop :=
  d.plane? q = none ∧ ∃ (p : Plane) (info : PlaneInfo) (d₁ : Device σ),
    Kernel.plane d.session.kernel q = .ok info ∧ p.Describes q info ∧ Idles d d₁ ∧
      d' = { d₁ with planes := p.insertInto d.planes }

theorem registerPlane_spec (d : Device σ) (q : UInt32) :
    Ensures (registerPlane q) d (fun _ => GainsPlane q d) (fun _ => Idles d) := by
  have hidle : ∀ {α : Type} {x : DeviceM σ α} {d₁ : Device σ} {Q : α → Device σ → Prop},
      Stays Idles x → Idles d d₁ → (∀ a d₂, Idles d d₂ → Q a d₂) →
      Ensures x d₁ Q fun _ => Idles d := by
    intro α x d₁ Q hx h₁ hQ
    exact (hx d₁).mono (fun a d₂ h₂ => hQ a d₂ (trans_of Idles h₁ h₂)) fun _ d₂ h₂ =>
      trans_of Idles h₁ h₂
  simp only [registerPlane, ensures_bind, ensures_get]
  -- The plane is known already, or the driver is asked about it.
  split
  · simp only [ensures_bind]
    exact hidle (idles_log _ _) (refl_of Idles d) fun _ _ h => h
  · rename_i hfresh
    rw [ensures_bind, ensures_query]
    refine ⟨fun info hinfo => ?_, fun _ _ => refl_of Idles d⟩
    -- Whatever is found out about the plane, it is put into the list that was there before.
    have hplace : ∀ (p : Plane) (d₁ : Device σ) note, Idles d d₁ → p.Describes q info →
        Ensures (do log .debug note; modify ({ · with planes := p.insertInto d₁.planes })) d₁
          (fun _ => GainsPlane q d) (fun _ => Idles d) := by
      intro p d₁ note h₁ hp
      rw [ensures_bind]
      apply hidle (idles_log _ _) h₁
      intro _ d₂ h₂
      obtain ⟨trace, rfl⟩ := h₁
      exact ⟨Option.not_isSome_iff_eq_none.mp hfresh, p, info, d₂, hinfo, hp, h₂, rfl⟩
    simp only [ensures_bind] at hplace ⊢
    -- Formats are only asked for if the plane has the property.
    split
    · split
      · simp only [ensures_bind, ensures_get]
        apply hidle (stays_formatsOf idles_log _ _) (refl_of Idles d)
        intro formats d₁ h₁
        exact hplace _ d₁ _ h₁ ⟨rfl, rfl, rfl⟩
      · simp only [ensures_bind, ensures_get, ensures_pure]
        exact hplace _ d _ (refl_of Idles d) ⟨rfl, rfl, rfl⟩
    · simp only [ensures_bind]
      exact hidle (idles_log _ _) (refl_of Idles d) fun _ _ h => h

theorem registers_registerPlane (q : UInt32) : Stays Registers (registerPlane (σ := σ) q) := by
  refine fun d => (registerPlane_spec d q).mono ?_ fun _ _ h => .of_talks h.talks
  rintro - _ ⟨hfresh, p, info, d₁, -, hdescribes, hidles, rfl⟩
  have htalks := hidles.talks
  obtain ⟨trace, rfl⟩ := hidles
  exact trans_of Registers (.of_talks htalks)
    (registers_insert (hdescribes.id.symm ▸ hfresh) hdescribes.layer)

theorem registers_registerAllPlanes : Stays Registers (registerAllPlanes (σ := σ)) := by
  apply (stays_query _).bind
  exact fun ids => stays_forM fun id _ => registers_registerPlane id

omit [Kernel σ] in
/-- A plane that is forgotten takes its link with it, and no other link. -/
theorem unregisterPlane_spec {d : Device σ} (hd : d.WellFormed) (id : UInt32) :
    Ensures (unregisterPlane id) d
      (fun _ d' => d'.WellFormed ∧ d'.outputs = d.outputs ∧
        ∀ o, d'.wiring.links o = {x ∈ d.wiring.links o | x.1 ≠ id})
      (fun _ _ => False) := by
  simp only [unregisterPlane, ensures_bind, ensures_get]
  -- A known plane is unlinked before it goes.
  split
  · simp only [ensures_bind, ensures_setLink_none, ensures_modify, ensures_pure]
    have hd' := wellFormed_unlink hd id
    have hlinks : ∀ o, (d.unlink id).wiring.links o = {x ∈ d.wiring.links o | x.1 ≠ id} := by
      intro o
      rw [wiring_unlink hd.wiring, Wiring.links_unlink]
    refine ⟨⟨hd'.wiring.unregister fun id' o hl => ?_, hd'.layers, hd'.outputs⟩,
      outputs_unlink d id, hlinks⟩
    have hmem : (id, id') ∈ (d.unlink id).wiring.links o := hl
    rw [hlinks] at hmem
    exact hmem.2 rfl
  · rename_i hnone
    refine ⟨hd, rfl, fun o => Eq.symm ?_⟩
    -- A plane that is not registered is in no link.
    refine Set.sep_eq_self_iff_mem_true.mpr fun x hx (hxid : x.1 = id) => hnone ?_
    obtain ⟨p, hp, hpid, -⟩ := hd.wiring.plane_of_layer x.2 o x.1 hx
    rw [← hxid, ← hpid, plane?_eq_some hd.wiring hp]
    rfl

end Device

end Scanout
