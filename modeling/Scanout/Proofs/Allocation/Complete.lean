import Scanout.Proofs.Allocation.Apart
import Scanout.Proofs.Allocation.Paired

namespace Scanout

variable {σ : Type}

namespace Plane

open Property (Descriptor)

variable {p p' : Plane} {w : Write}

def Dresses (p : Plane) (w : Write) : Prop :=
  w.object = p.id ∧ ∀ d ∈ p.descriptors, d.name = WellKnown.zpos.name → w.property ≠ d.id

theorem dresses_of_bare (h : p'.bare = p.bare) (hw : p.Dresses w) : p'.Dresses w := by
  have hid : p'.id = p.id := id_of_bare h
  have hdescriptors : p'.descriptors = p.descriptors := (congrArg Plane.descriptors h :)
  rw [Dresses, hid, hdescriptors]
  exact hw

theorem distinctIds_of_bare (h : p'.bare = p.bare) (hp : p.DistinctIds) : p'.DistinctIds := by
  have hdescriptors : p'.descriptors = p.descriptors := (congrArg Plane.descriptors h :)
  rwa [DistinctIds, hdescriptors]

section Ids

variable (hids : p.DistinctIds)
include hids

/-- A write to a property of another name misses the position. -/
theorem dresses_writeOf? {name : String} {value : UInt64} (hname : name ≠ WellKnown.zpos.name)
    (hw : p.writeOf? name value = some w) : p.Dresses w := by
  obtain ⟨d, hd, rfl⟩ := Option.map_eq_some_iff.mp hw
  obtain ⟨hmem, hdname⟩ := descriptor?_spec hd
  refine ⟨rfl, fun d' hmem' hzpos hid => hname ?_⟩
  have hsame : d = d' := List.inj_on_of_nodup_map hids hmem hmem' hid
  rw [← hdname, hsame, hzpos]

theorem dresses_disabledWrites : ∀ w ∈ p.disabledWrites, p.Dresses w := by
  intro w hw
  obtain ⟨property, hproperty, hw⟩ := List.mem_flatMap.mp hw
  have hname : property.name ≠ WellKnown.zpos.name := by
    simp only [List.mem_cons, List.not_mem_nil, or_false] at hproperty
    rcases hproperty with rfl | rfl <;> decide
  exact dresses_writeOf? hids hname (Option.mem_toList.mp hw)

theorem dresses_layerWrites (l : Layer) (crtc : UInt32) : ∀ w ∈ p.layerWrites l crtc, p.Dresses w := by
  intro w hw
  -- Either the write of the pipe or one of the layer's own properties.
  rcases List.mem_append.mp hw with hw | hw
  · exact dresses_writeOf? hids (by decide) (Option.mem_toList.mp hw)
  · obtain ⟨e, -, hw⟩ := List.mem_flatMap.mp hw
    unfold entryWrites at hw
    split at hw
    · cases hw
    · rename_i hname
      exact dresses_writeOf? hids hname (Option.mem_toList.mp hw)

end Ids

end Plane

namespace Device

variable {d d' : Device σ} {ws ws' : List Write} {p : Plane}

def Addresses (d : Device σ) (ws : List Write) : Prop := ∀ w ∈ ws, ∃ p ∈ d.planes, p.Dresses w

/-- What counts for the plane is what the links say: zeros if it is empty, and else the pipe of its
layer's output and each property of the layer that the plane has, but for the position. -/
def Displays (d : Device σ) (p : Plane) (r : Request) : Prop :=
  match p.layer with
  | none => p.staged? r .fbId = some 0 ∧ p.staged? r .crtcId = some 0
  | some id => ∃ l out, d.layer? id = some l ∧ d.output? l.output = some out ∧
      p.staged? r .crtcId = some out.crtc.toUInt64 ∧
      ∀ name value property, l.property? name = some value → name ≠ WellKnown.zpos.name →
        p.descriptor? name = some property → r.value? p.id property.id = some value

theorem Addresses.append (h : d.Addresses ws) (h' : d.Addresses ws') : d.Addresses (ws ++ ws') :=
  fun w hw => (List.mem_append.mp hw).elim (h w) (h' w)

/-- Links make no difference to what is addressed. -/
theorem Addresses.of_scenery (h : d.Addresses ws) (hscenery : d'.scenery = d.scenery) :
    d'.Addresses ws := by
  intro w hw
  obtain ⟨p, hp, hdresses⟩ := h w hw
  obtain ⟨p', hp', hbare⟩ := plane_of_scenery hscenery hp
  exact ⟨p', hp', Plane.dresses_of_bare hbare hdresses⟩

theorem distinctIds_of_scenery (hscenery : d'.scenery = d.scenery)
    (hids : ∀ p ∈ d.planes, p.DistinctIds) : ∀ p ∈ d'.planes, p.DistinctIds := by
  intro p' hp'
  obtain ⟨p, hp, hbare⟩ := plane_of_scenery hscenery.symm hp'
  exact Plane.distinctIds_of_bare hbare.symm (hids p hp)

section Ids

variable (hids : ∀ p ∈ d.planes, p.DistinctIds)
include hids

theorem addresses_idleWrites : d.Addresses d.idleWrites := by
  intro w hw
  obtain ⟨p, hp, hw⟩ := List.mem_flatMap.mp hw
  have hmem : p ∈ d.planes := (List.mem_filter.mp hp).1
  exact ⟨p, hmem, Plane.dresses_disabledWrites (hids p hmem) w hw⟩

theorem addresses_planeWrites : d.Addresses (d.planes.flatMap d.planeWrites) := by
  intro w hw
  obtain ⟨p, hp, hw⟩ := List.mem_flatMap.mp hw
  -- A free plane gets its zeros, one with a layer the layer's writes.
  refine ⟨p, hp, ?_⟩
  unfold planeWrites at hw
  split at hw
  · exact Plane.dresses_disabledWrites (hids p hp) w hw
  · split at hw
    · cases hw
    · split at hw
      · cases hw
      · exact Plane.dresses_layerWrites (hids p hp) _ _ w hw

/-- The path of a question writes only to the planes that it goes over. -/
theorem addresses_of_said {s : Search.Scene} {entry : Request} {t : Search.Trial}
    (ht : t.Says s entry d.planes) :
    d.Addresses (t.path.reverse.flatMap (Search.Choice.writes s)) := by
  intro w hw
  obtain ⟨c, hc, hw⟩ := List.mem_flatMap.mp hw
  -- A path only visits planes of the device.
  have hmem : c.plane ∈ d.planes := ht.visits.subset (List.mem_map_of_mem hc)
  refine ⟨c.plane, hmem, ?_⟩
  unfold Search.Choice.writes at hw
  split at hw
  · exact Plane.dresses_layerWrites (hids _ hmem) _ _ w hw
  · cases hw

end Ids

/-- After the writes for the links, what counts for each plane is what its link says. -/
theorem displays_planeWrites (hd : d.WellFormed) (hp : p ∈ d.planes) (hids : p.DistinctIds)
    (hsuits : d.Suits p)
    (hbags : ∀ id l, d.layer? id = some l → l.properties.WellFormed)
    (hpipes : ∀ id l, d.layer? id = some l → WellKnown.crtcId.name ∉ l.properties.names)
    (base : Request) : d.Displays p (base.append (d.planes.flatMap d.planeWrites)) := by
  -- A free plane has to show nothing, a held one its layer.
  unfold Displays
  split
  · rename_i hempty
    have hstops : p.Stops := by simpa only [Suits, hempty] using hsuits
    have hzero : ∀ w ∈ [WellKnown.fbId, .crtcId],
        p.staged? (base.append (d.planes.flatMap d.planeWrites)) w = some 0 := by
      intro w hw
      rw [staged?_planeWrites hd hp, planeWrites, hempty,
        Plane.staged?_disabledWrites hids hstops hw, Option.some_or]
    exact ⟨hzero _ (by simp), hzero _ (by simp)⟩
  · rename_i id hlayer
    obtain ⟨l, hl, -⟩ := layer_of_plane hd.wiring hp hlayer
    obtain ⟨out, hout, -⟩ := output_of_layer hd hl
    -- Of all writes for the links only those for this layer are about the plane.
    have hwrites : d.planeWrites p = p.layerWrites l out.crtc := by
      simp only [planeWrites, hlayer, hl, hout]
    have htakes : p.Takes l := by
      simpa only [Suits, hlayer, hl, Option.some.injEq, exists_eq_left'] using hsuits
    refine ⟨l, out, hl, hout, ?_, fun name value property hvalue hzpos hproperty => ?_⟩
    · rw [staged?_planeWrites hd hp, hwrites, Plane.staged?_pipe hids htakes (hpipes id l hl),
        Option.some_or]
    · -- The layer does not choose its pipe itself, so the property is not that.
      have hcrtc : name ≠ WellKnown.crtcId.name := by
        rintro rfl
        obtain ⟨e, he, -⟩ := Option.map_eq_some_iff.mp hvalue
        obtain ⟨hmem, hname⟩ := (Property.Bag.get?_eq_some_iff (hbags id l hl) _).mp he
        -- So the layer's properties do not name it.
        exact hpipes id l hl (List.mem_map.mpr ⟨e, hmem, hname⟩)
      rw [value?_planeWrites hd hp, hwrites,
        Plane.value?_layerWrites hids (hbags id l hl) out.crtc hproperty hcrtc hzpos, hvalue,
        Option.some_or]

end Device

namespace Allocation

open Device

section Runs

variable [Kernel σ] {flags : CommitFlags} {o : OutputId} {noted : σ → Request → Prop}
  {request r : Request} {d d' : Device σ}

/-- What an apply that succeeds adds to the request: perhaps zeros for planes, then the writes for the
links. -/
theorem Applied.exists_idle (h : Applied flags o noted request r d d') (hd : d.WellFormed) :
    (∀ p ∈ d'.planes, d'.Suits p) ∧ ∃ idle : List Write,
      r = (request.append idle).append (d'.planes.flatMap d'.planeWrites) ∧
      (idle = [] ∨ ∃ d₁ : Device σ, d₁.scenery = d.scenery ∧ idle = d₁.idleWrites) := by
  obtain ⟨hsuits, base, hr, ⟨rfl, -⟩ | ⟨d₁, d₂, outcome, hdecides, hlaid, -⟩⟩ := h.staged
  -- An allocation that is kept adds no zeros first, one that is searched does.
  · exact ⟨hsuits, [], by simpa [Request.append] using hr, .inl rfl⟩
  · obtain ⟨rfl, -⟩ := (d₁.cleared o).adds_disables request base hlaid.disabled
    have hscenery : (d₁.cleared o).scenery = d.scenery :=
      (sameScene_cleared d₁ o).scenery.trans (hdecides.keepsLinks (o := o) hd).scenery
    exact ⟨hsuits, (d₁.cleared o).idleWrites, hr, .inr ⟨_, hscenery, rfl⟩⟩

theorem Applied.addresses (h : Applied flags o noted request r d d') (hd : d.WellFormed)
    (hids : ∀ p ∈ d.planes, p.DistinctIds) : ∃ ws, r = request.append ws ∧ d'.Addresses ws := by
  -- What an apply stages is the zeros, if it searched, and then the links.
  obtain ⟨-, idle, hr, hidle⟩ := h.exists_idle hd
  have hscenery : d'.scenery = d.scenery := (h.keepsLinks hd).scenery
  have hlinks := addresses_planeWrites (distinctIds_of_scenery hscenery hids)
  refine ⟨idle ++ d'.planes.flatMap d'.planeWrites, by simpa [Request.append] using hr, ?_⟩
  rcases hidle with rfl | ⟨d₁, hscenery₁, rfl⟩
  · exact hlinks
  · have hzeros := addresses_idleWrites (distinctIds_of_scenery hscenery₁ hids)
    exact (hzeros.of_scenery (hscenery.trans hscenery₁.symm)).append hlinks

omit [Kernel σ] in
/-- A question of a search adds to the request only what is for planes and not for their positions. -/
theorem Sought.addresses {t : Search.Trial} (h : Sought o d request t)
    (hids : ∀ p ∈ d.planes, p.DistinctIds) :
    ∃ ws, t.request = request.append ws ∧ d.Addresses ws := by
  obtain ⟨d₁, s, hkeeps, hsaid⟩ := h
  have hids₁ := distinctIds_of_scenery hkeeps.scenery hids
  have hwrites := (addresses_idleWrites hids₁).append (addresses_of_said hids₁ hsaid)
  refine ⟨_, ?_, hwrites.of_scenery hkeeps.scenery.symm⟩
  rw [hsaid.request]
  simp [Search.Path.staged, Request.append]

end Runs

/-- When an apply succeeds, the request begins with what the caller wrote, what comes after is for planes
of the device and never for their positions, and what counts for each plane is what the links say by then.
Nor does any request that an apply tests, however it ends, set a position. -/
theorem complete_of_apply [Kernel σ] (o : OutputId) (flags : CommitFlags) (options : ApplyOptions)
    (request : Request) :
    (∀ (d : Device σ) (f : Frame σ), d.Reachable → (∀ p ∈ d.planes, p.DistinctIds) →
      Frame.apply o flags options ⟨d, request⟩ = .ok () f →
      ∃ ws, f.request = request.append ws ∧ f.device.Addresses ws ∧
        ∀ p ∈ f.device.planes, f.device.Displays p f.request) ∧
    ∀ d : Device (Recorded σ), d.Reachable → (∀ p ∈ d.planes, p.DistinctIds) →
      ∃ asked, (leftBy (Frame.apply o flags options ⟨d, request⟩)).device.session.kernel.log =
          asked ++ d.session.kernel.log ∧
        ∀ tested ∈ asked, ∃ ws, tested.1 = request.append ws ∧ d.Addresses ws := by
  -- The request that is left, and then the requests that were tested.
  constructor
  · intro d f hreachable hids hrun
    have hd := hreachable.wellFormed
    have hnotes : Kernel.Notes flags _ _ := notes_asks d.session.kernel
    have hcases := apply_cases (o := o) hd hnotes .refl options request
    rw [ensures_of_eq_ok hrun] at hcases
    obtain ⟨ws, hws, haddresses⟩ := hcases.addresses hd hids
    obtain ⟨hsuits, idle, hr, -⟩ := hcases.exists_idle hd
    refine ⟨ws, hws, haddresses, fun p hp => ?_⟩
    -- After the apply the device is still one the operations lead to.
    have hafter := hreachable.of_apply hrun
    have hids' := distinctIds_of_scenery (hcases.keepsLinks hd).scenery hids
    rw [hr]
    exact displays_planeWrites hafter.wellFormed hp (hids' p hp) (hsuits p hp)
      (fun _ _ hl => hafter.wellFormed_properties hl) (fun _ _ hl => hafter.crtcId_notMem hl) _
  · intro d hreachable hids
    have hheard := apply_heard (Recorded.tracks flags) hreachable.wellFormed (o := o) options request
    obtain ⟨ts, ⟨-, reuse, hreuse, hlog⟩, hsought⟩ := hheard.leftBy
    refine ⟨_, hlog, fun tested htested => ?_⟩
    obtain ⟨t, ht, htested⟩ := List.mem_flatMap.mp (List.mem_reverse.mp htested)
    have hrequest : tested.1 = t.request := (Recorded.eq_of_mem_entries htested).1
    rw [hrequest]
    -- It was asked to keep the allocation, or by the search.
    rcases List.mem_append.mp ht with ht | ht
    · exact ⟨_, hreuse t (Option.mem_toList.mp ht), addresses_planeWrites hids⟩
    · exact (hsought t ht).addresses hids

/-- What the first apply of the small device says of the plane with the topmost layer. -/
theorem displays_threeShown : ∃ f : Frame Scripted,
    Frame.apply .first {} {} ⟨threeLayers, {}⟩ = .ok () f ∧ f.device = threeShown ∧
      ∃ p ∈ f.device.planes, p.layer = some ⟨⟨0, 0⟩⟩ ∧ f.device.Displays p f.request := by
  obtain ⟨f, hrun, hf⟩ := apply_threeLayers
  have hids : ∀ p ∈ threeLayers.planes, p.DistinctIds := by decide +kernel
  have hplane : ∃ p ∈ threeShown.planes, p.layer = some (⟨⟨0, 0⟩⟩ : LayerId) := by decide +kernel
  obtain ⟨p, hp, hlayer⟩ := hplane
  obtain ⟨-, -, -, hdisplays⟩ :=
    (complete_of_apply .first {} {} {}).1 threeLayers f reachable_threeLayers hids hrun
  have hmem : p ∈ f.device.planes := hf ▸ hp
  exact ⟨f, hrun, hf, p, hmem, hlayer, hdisplays p hmem⟩

end Allocation

end Scanout
