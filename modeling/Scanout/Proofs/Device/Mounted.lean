import Scanout.Proofs.Allocation.Shown
import Scanout.Proofs.Device.Reach
import Scanout.Proofs.Kernel.Objects

namespace Scanout

namespace Layer

structure Owns (m : Mock) (id : LayerId) (l : Layer) : Prop where
  bag : l.properties.WellFormed
  pipe : ∀ e ∈ l.properties.entries, e.name ≠ WellKnown.crtcId.name
  framebuffer : ∀ e ∈ l.properties.entries, e.name = WellKnown.fbId.name →
    e.value = 0 ∨ m.fbLayer? e.value = some id

/-- A layer owns its framebuffer if each property it has is harmless or was there before. -/
theorem Owns.of_entries {m : Mock} {id : LayerId} {l l' : Layer} (h : l.Owns m id)
    (hbag : l'.properties.WellFormed)
    (hentries : ∀ e' ∈ l'.properties.entries, e'.name ≠ WellKnown.crtcId.name ∧
      (e'.name = WellKnown.fbId.name → e'.value = 0 ∨ m.fbLayer? e'.value = some id) ∨
      ∃ e ∈ l.properties.entries, e.name = e'.name ∧ e.value = e'.value) : l'.Owns m id := by
  -- It names no pipe, and no framebuffer but its own.
  refine ⟨hbag, fun e' he' => ?_, fun e' he' => ?_⟩
  · rcases hentries e' he' with ⟨hpipe, -⟩ | ⟨e, he, hname, -⟩
    · exact hpipe
    · exact hname ▸ h.pipe e he
  · rcases hentries e' he' with ⟨-, hfb⟩ | ⟨e, he, hname, hvalue⟩
    · exact hfb
    · rw [← hname, ← hvalue]
      exact h.framebuffer e he

theorem Owns.grows {m m' : Mock} (hm : m.Grows m') {id : LayerId} {l : Layer} (h : l.Owns m id) :
    l.Owns m' id :=
  ⟨h.bag, h.pipe, fun e he hname => (h.framebuffer e he hname).imp_right hm.fbLayer?⟩

theorem NamesFb.of_names {l l' : Layer} (h : l.NamesFb)
    (hnames : l.properties.names ⊆ l'.properties.names) : l'.NamesFb := by
  obtain ⟨e, he, hname⟩ := h
  obtain ⟨e', he', hname'⟩ := List.mem_map.mp (hnames (List.mem_map_of_mem he))
  exact ⟨e', he', hname'.trans hname⟩

/-- A layer that accounts for its plane does so after a property is set. -/
theorem Accounts.setProperty {l l' : Layer} (h : l.Accounts) {name : String} {value : UInt64}
    (hl' : l.setProperty name value = .ok l') : l'.Accounts := by
  intro hshown
  have hplace := congrArg Prod.snd (place_setProperty hl')
  obtain ⟨-, hproperties⟩ := properties_setProperty hl'
  -- Setting a property never takes a change back.
  have hchanged : l.changed = true → l'.changed = true := by
    intro hchanged
    simp only [Layer.setProperty] at hl'
    split at hl'
    · cases hl'
    · split at hl' <;> cases hl'
      · rfl
      · simp [hchanged]
  have hplane : l'.plane = l.plane := hplace
  refine (h (hplane ▸ hshown)).imp hchanged fun hnames => hnames.of_names ?_
  rw [hproperties]
  exact Property.Bag.names_set name value

theorem Accounts.unsetProperty {l : Layer} (h : l.Accounts) (name : String) :
    (l.unsetProperty name).Accounts := by
  intro hshown
  -- With the property removed, the layer has changed.
  cases hremoved : (l.properties.remove name).1 with
  | true => exact .inl (by simp [Layer.unsetProperty, hremoved])
  | false =>
    -- The layer did not have the property.
    have hsame := Property.Bag.remove_eq_self name hremoved
    have hlayer : l.unsetProperty name = l := by
      simp only [Layer.unsetProperty, hremoved, hsame, Bool.or_false]
    rw [hlayer]
    exact h hshown

theorem Accounts.forceComposition {l : Layer} (h : l.Accounts) : l.forceComposition.Accounts := by
  unfold Layer.forceComposition
  split
  · exact h
  · exact fun _ => .inl rfl

end Layer

namespace Device

/-- The operation does nothing to the driver that would pass a property off as a basic one, and gives
framebuffers only to the layers that they were made for. -/
def Respects (d : Device Mock) : Operation Mock → Prop
  | .drive f => ∃ call : Mock.Call, call.NamesNew ∧ f = call.after
  | .setProperty id name value => name = WellKnown.fbId.name →
      value = 0 ∨ d.session.kernel.fbLayer? value = some id
  | _ => True

/-- The device is on a mock driver in order, and refers to objects of this driver only. -/
structure Mounted (d : Device Mock) : Prop where
  reachable : d.Reachable
  kernel : d.session.kernel.WellFormed
  crtcs : ∀ crtc ∈ d.crtcs, crtc ≠ 0
  outputs : ∀ o out, d.output? o = some out → out.crtc ≠ 0
  planes : ∀ p ∈ d.planes, (d.session.kernel.plane? p.id).isSome ∧
    ∀ descriptor ∈ p.descriptors, descriptor ∈ d.session.kernel.properties
  layers : ∀ id l, d.layer? id = some l → l.Owns d.session.kernel id
  accounted : d.Accounted

theorem mounted_create {m : Mock} (hm : m.WellFormed) {d : Device Mock} (h : create m = .ok d) :
    d.Mounted := by
  obtain rfl := Except.ok.inj h
  refine ⟨⟨m, {}, _, [], .nil⟩, hm, fun crtc hcrtc => ?_, nofun, nofun, nofun, nofun⟩
  obtain ⟨i, -, rfl⟩ := List.mem_map.mp hcrtc
  exact Mock.objectId_ne_zero (by decide) i

variable {d : Device Mock} {op : Operation Mock}

theorem allowed_of_respects (h : d.Respects op) :
    op.Allowed Mock.Grows fun id l l' => l.Owns d.session.kernel id → l'.Owns d.session.kernel id := by
  refine ⟨refl_of Mock.Grows, fun id l hl => ⟨hl.bag, hl.pipe, hl.framebuffer⟩, ?_⟩
  -- Only two operations give a layer a property that it had not: one names what it sets, the other
  -- sets no framebuffer and no pipe.
  cases op with
  | drive f =>
    obtain ⟨call, hnames, rfl⟩ := h
    exact Mock.grows_after hnames
  | commit request flags => exact fun m => m.grows_commit request flags
  | setProperty id name value =>
    intro l l' hl' hl
    obtain ⟨hpipe, hproperties⟩ := Layer.properties_setProperty hl'
    refine hl.of_entries ?_ fun e' he' => ?_
    · rw [hproperties]
      exact Property.Bag.wellFormed_set hl.bag name value
    · rw [hproperties] at he'
      rcases Property.Bag.mem_set hl.bag name he' with he | ⟨hname, hvalue⟩
      · exact .inr ⟨e', he, rfl, rfl⟩
      · exact .inl ⟨hname ▸ hpipe, fun hfb => hvalue ▸ h (hname ▸ hfb)⟩
  | unsetProperty id name =>
    intro l hl
    refine hl.of_entries (Property.Bag.wellFormed_remove hl.bag name) fun e' he' => ?_
    exact .inr ⟨e', Property.Bag.mem_remove name he', rfl, rfl⟩
  | forceComposition id =>
    intro l hl
    -- Forcing composition sets the framebuffer to zero, which is nobody's.
    unfold Layer.forceComposition
    split
    · exact hl
    · refine hl.of_entries (Property.Bag.wellFormed_set hl.bag _ 0) fun e' he' => ?_
      rcases Property.Bag.mem_set hl.bag _ he' with he | ⟨hname, hvalue⟩
      · exact .inr ⟨e', he, rfl, rfl⟩
      · exact .inl ⟨by rw [hname]; decide, fun _ => .inl hvalue⟩
  | apply o request flags options =>
    -- An apply leaves properties alone, except for their marks.
    refine ⟨fun _ _ => Mock.grows_asks, fun id l l' hcontent hl => ?_, fun id l hl => ?_⟩
    · have hproperties : l'.properties = l.properties := congrArg (·.2.1) hcontent
      exact hl.of_entries (hproperties ▸ hl.bag) fun e' he' => .inr ⟨e', hproperties ▸ he', rfl, rfl⟩
    · refine hl.of_entries (Property.Bag.wellFormed_markClean hl.bag) fun e' he' => ?_
      obtain ⟨e, he, rfl⟩ := List.mem_map.mp he'
      exact .inr ⟨e, he, rfl, rfl⟩
  | _ => trivial

omit d op in
theorem described_of_plane {m : Mock} {p : Plane} {info : PlaneInfo}
    (hinfo : Kernel.plane m p.id = .ok info) (hp : p.descriptors = info.properties.map Prod.fst) :
    (m.plane? p.id).isSome ∧ ∀ descriptor ∈ p.descriptors, descriptor ∈ m.properties := by
  -- The driver lists the properties of the plane it knows.
  simp only [Kernel.plane] at hinfo
  split at hinfo
  · rename_i q hq
    obtain rfl := Except.ok.inj hinfo
    refine ⟨Option.isSome_of_eq_some hq, fun descriptor hmem => ?_⟩
    rw [hp] at hmem
    obtain ⟨x, hx, rfl⟩ := List.mem_map.mp hmem
    obtain ⟨v, -, hv⟩ := List.mem_filterMap.mp hx
    obtain ⟨e, he, rfl⟩ := Option.map_eq_some_iff.mp hv
    exact List.mem_of_getElem? he
  · cases hinfo

/-- Every layer accounts for its plane after an operation, if it did before. -/
theorem accounted_after (hd : d.Mounted) (hpermits : d.Permits op) : (d.after op).Accounted := by
  -- An apply may link layers, and no other operation does.
  by_cases happly : ∃ o request flags options, op = .apply o request flags options
  · obtain ⟨o, request, flags, options, rfl⟩ := happly
    have hbags : d.BagsWellFormed := fun id l hl => hd.reachable.wellFormed_properties hl
    rw [after_apply]
    exact (Allocation.apply_accounted hd.reachable.wellFormed hd.accounted hbags o flags options
      request).leftBy (P := fun f : Frame Mock => f.device.Accounted)
  · have hallowed : op.Allowed (fun _ _ => True) fun _ l l' => l.Accounts → l'.Accounts := by
      refine ⟨fun _ => trivial, fun _ l _ => nofun, ?_⟩
      cases op with
      | apply o request flags options => exact absurd ⟨o, request, flags, options, rfl⟩ happly
      | setProperty id name value => exact fun l l' hl' hl => hl.setProperty hl'
      | unsetProperty id name => exact fun l hl => hl.unsetProperty name
      | forceComposition id => exact fun l hl => hl.forceComposition
      | drive f => exact fun _ => trivial
      | commit request flags => exact fun _ => trivial
      | _ => trivial
    exact layers_after (fun _ _ => nofun) hallowed hd.reachable.wellFormed hpermits
      hd.accounted

/-- An operation that treats the driver as it should keeps the device mounted. -/
theorem Mounted.after (hd : d.Mounted) (hpermits : d.Permits op) (hrespects : d.Respects op) :
    (d.after op).Mounted := by
  have hwell := hd.reachable.wellFormed
  have hallowed := allowed_of_respects hrespects
  have hlayers := layers_after (fun id o => ⟨Property.Bag.wellFormed_empty, nofun, nofun⟩) hallowed
    hwell hpermits hd.layers
  -- What an operation changes grows out of what there was; what it makes is blank.
  rcases changes_or_gains hallowed hwell hpermits with hchanges | hgains
  -- The driver only grows, in whatever happens to it.
  · have hgrows : d.session.kernel.Grows (d.after op).session.kernel :=
      hchanges.kernel fun _ _ h => h
    refine ⟨hd.reachable.after hpermits, hgrows.wellFormed hd.kernel, ?_, ?_, ?_,
      fun id l hl => (hlayers id l hl).grows hgrows, accounted_after hd hpermits⟩
    · rw [hchanges.crtcs]
      exact hd.crtcs
    · intro o out' hout'
      obtain ⟨out, hout, hpipe⟩ := hchanges.exists_output hout'
      have hcrtc : out'.crtc = out.crtc := congrArg Prod.fst hpipe
      rw [hcrtc]
      exact hd.outputs o out hout
    -- A plane that is new comes with what the driver says about it.
    · refine hchanges.planes (P := fun (m : Mock) p => (m.plane? p.id).isSome ∧
        ∀ descriptor ∈ p.descriptors, descriptor ∈ m.properties) ?_ (fun _ _ _ hp => hp) ?_ hd.planes
      · rintro m m' p hm ⟨hp, hdescriptors⟩
        exact ⟨hm.plane hp, fun descriptor hmem => hm.properties.subset (hdescriptors _ hmem)⟩
      · exact fun m p info => described_of_plane
  · refine ⟨hd.reachable.after hpermits, ?_, ?_, ?_, ?_, ?_, accounted_after hd hpermits⟩
    · rw [hgains.session]
      exact hd.kernel
    · rw [hgains.crtcs]
      exact hd.crtcs
    · intro o out' hout'
      rcases hgains.outputs o out' hout' with ⟨out, hout, hpipe⟩ | ⟨-, hcrtc⟩
      · have hcrtc : out'.crtc = out.crtc := congrArg Prod.fst hpipe
        rw [hcrtc]
        exact hd.outputs o out hout
      · exact hd.crtcs _ hcrtc
    · rw [hgains.planes, hgains.session]
      exact hd.planes
    · rw [hgains.session]
      exact hlayers

end Device

end Scanout
