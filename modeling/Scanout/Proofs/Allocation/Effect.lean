import Scanout.Proofs.Allocation.Apply
import Scanout.Proofs.Device.Run
import Scanout.Proofs.Kernel.Recorded

/-! What the request of an apply does. The search takes back all that it staged, and the links are
staged anew, in another order and with planes switched off twice. The values that count in the end are
those that the driver has let pass. -/

namespace Scanout

variable {σ : Type}

namespace Plane

theorem disabledWrites_of_map_bare {ps ps' : List Plane} (h : ps'.map bare = ps.map bare) :
    ps'.flatMap disabledWrites = ps.flatMap disabledWrites := by
  have hplane : ∀ p : Plane, p.bare.disabledWrites = p.disabledWrites := by
    intro p
    apply disabledWrites_of_bare
    rfl
  -- Such writes only read what a link does not touch.
  have hbare : ∀ ps : List Plane, (ps.map bare).flatMap disabledWrites = ps.flatMap disabledWrites := by
    intro ps
    rw [List.flatMap_map]
    exact List.flatMap_congr fun p _ => hplane p
  rw [← hbare, h, hbare]

end Plane

namespace Device

def OwnedBy (d : Device σ) (o : OutputId) : Prop :=
  ∀ p ∈ d.planes, ∀ id l, p.layer = some id → d.layer? id = some l → l.output = o

instance (d : Device σ) (o : OutputId) : Decidable (d.OwnedBy o) :=
  decidable_of_iff (∀ p ∈ d.planes, ∀ id ∈ p.layer, ∀ l ∈ d.layer? id, l.output = o)
    ⟨fun h p hp id l hid hl => h p hp id hid l hl, fun h p hp id hid l hl => h p hp id l hid hl⟩

theorem OwnedBy.of_wiring {d d' : Device σ} {o : OutputId} (h : d.OwnedBy o)
    (hwiring : d'.wiring = d.wiring) : d'.OwnedBy o := by
  -- A plane and its layer are both read off the wiring.
  intro p hp id l' hpl hl'
  have hplanes : d'.planes = d.planes := congrArg Wiring.planes hwiring
  have hplace : d.wiring.layers id = some l'.place := by
    rw [← hwiring]
    simp [wiring, hl']
  obtain ⟨l, hl, heq⟩ := Option.map_eq_some_iff.mp hplace
  have houtput : l.output = l'.output := congrArg Prod.fst heq
  exact houtput.symm.trans (h p (hplanes ▸ hp) id l hpl hl)

theorem ownedBy_of_single {d : Device σ} {o : OutputId} (hd : d.WellFormed)
    (hsingle : ∀ o', (d.output? o').isSome → o' = o) : d.OwnedBy o := by
  intro p _ id l _ hl
  obtain ⟨out, hout, -⟩ := output_of_layer hd hl
  exact hsingle _ (Option.isSome_of_eq_some hout)

theorem OwnedBy.links {d : Device σ} {o : OutputId} (h : d.OwnedBy o) (hd : d.WellFormed)
    {o' : OutputId} (ho' : o' ≠ o) (x : UInt32 × LayerId) : x ∉ d.wiring.links o' := by
  intro hx
  obtain ⟨l, hl, hlo, -⟩ := mem_links_iff.mp hx
  obtain ⟨p, hp, -, hpl⟩ := plane_of_link hd.wiring hx
  exact ho' (hlo.symm.trans (h p hp x.2 l hpl hl))

theorem OwnedBy.layer_cleared {d : Device σ} {o : OutputId} (h : d.OwnedBy o) (hd : d.WellFormed)
    {p : Plane} (hp : p ∈ (d.cleared o).planes) : p.layer = none := by
  -- Each plane was held by the output or by nobody.
  obtain ⟨p₀, hp₀, rfl⟩ := List.mem_map.mp hp
  split
  · rfl
  · rename_i hheld
    cases hlayer : p₀.layer with
    | none => rfl
    | some id =>
      obtain ⟨l, hl, -⟩ := layer_of_plane hd.wiring hp₀ hlayer
      refine absurd ?_ hheld
      simp only [Allocation.isHeldBy, hlayer, Option.bind_some, hl, Option.any_some,
        decide_eq_true_eq]
      exact h p₀ hp₀ id l hlayer hl

/-- Marking layers clean makes no difference to what is staged for the links. -/
theorem Marks.planeWrites {o : OutputId} {d d' : Device σ} (h : Marks o d d') (p : Plane) :
    d'.planeWrites p = d.planeWrites p ∧ (d.Suits p → d'.Suits p) := by
  -- Staging reads what a layer wears and the pipe of its output, and a clean mark touches neither.
  have hworn : ∀ id, (d'.layer? id).map Layer.worn = (d.layer? id).map Layer.worn := by
    intro id
    rcases h.layers id with hsame | ⟨-, hmarked⟩
    · rw [hsame]
    · rw [hmarked, Option.map_map]
      exact Option.map_congr fun l _ => l.worn_markClean
  unfold Device.planeWrites Suits
  cases p.layer with
  -- A free plane stays free, and one with a layer stages what that layer wears.
  | none => exact ⟨rfl, fun hstops => hstops⟩
  | some id =>
    have hid := hworn id
    cases hl' : d'.layer? id with
    | none =>
      rw [hl', Option.map_none, eq_comm, Option.map_eq_none_iff] at hid
      simp only [hl', hid]
      exact ⟨trivial, fun htakes => htakes⟩
    | some l' =>
      rw [hl', Option.map_some, eq_comm, Option.map_eq_some_iff] at hid
      obtain ⟨l, hl, hsame⟩ := hid
      have houtput : l'.output = l.output := (congrArg Prod.fst hsame).symm
      have hpipe := h.pipes l.output
      simp only [hl, hl', houtput, Option.some.injEq, exists_eq_left']
      -- The pipe is the one of the layer's output, if there is such an output.
      refine ⟨?_, p.takes_congr hsame.symm⟩
      cases hout : d.output? l.output with
      | none =>
        rw [hout, Option.map_none, Option.map_eq_none_iff] at hpipe
        simp only [hpipe]
      | some out =>
        rw [hout, Option.map_some, Option.map_eq_some_iff] at hpipe
        obtain ⟨out', hout', heq⟩ := hpipe
        have hcrtc : out'.crtc = out.crtc := congrArg Prod.fst heq
        simp only [hout', hcrtc]
        exact p.layerWrites_congr hsame.symm out.crtc

theorem Marks.staged {o : OutputId} {d d' : Device σ} (h : Marks o d d') :
    d'.planes.flatMap d'.planeWrites = d.planes.flatMap d.planeWrites ∧
      ((∀ p ∈ d.planes, d.Suits p) → ∀ p ∈ d'.planes, d'.Suits p) := by
  have hplanes : d'.planes = d.planes := congrArg Wiring.planes h.wiring
  rw [hplanes]
  refine ⟨List.flatMap_congr fun p _ => (h.planeWrites p).1, fun hsuits p hp => ?_⟩
  exact (h.planeWrites p).2 (hsuits p hp)

end Device

namespace Allocation

open Device

section Laid

variable [Kernel σ] {flags : CommitFlags} {o : OutputId} {noted : σ → Request → Prop}
  {request entry : Request} {d₁ d₂ : Device σ} (hd₁ : d₁.WellFormed) (howned : d₁.OwnedBy o)
  (h : Laid flags o noted request entry d₁ d₂)
include hd₁ howned h

/-- A full search starts from a request in which every plane is switched off. -/
theorem Laid.entry_eq : entry = request.append (d₂.planes.flatMap Plane.disabledWrites) ∧
    ∀ p ∈ d₂.planes, p.Stops := by
  obtain ⟨s, best, -, -, hallocated⟩ := h.allocated
  have hfree : ((d₁.cleared o).planes.filter fun p => p.layer.isNone) = (d₁.cleared o).planes := by
    rw [List.filter_eq_self]
    intro p hp
    rw [howned.layer_cleared hd₁ hp]
    -- All planes are free once cleared, so all of them get zeros.
    rfl
  have hbare : d₂.planes.map Plane.bare = (d₁.cleared o).planes.map Plane.bare := by
    have hscenery := hallocated.scene.scenery.trans (sameScene_cleared d₁ o).scenery.symm
    exact congrArg Scenery.hardware hscenery
  obtain ⟨hentry, hstops⟩ := (d₁.cleared o).adds_disables request entry h.disabled
  -- Whether a plane can be stopped is a matter of its descriptors.
  rw [hfree] at hentry hstops
  refine ⟨by rw [hentry, Plane.disabledWrites_of_map_bare hbare], fun p hp => ?_⟩
  have hmem : p.bare ∈ (d₁.cleared o).planes.map Plane.bare := hbare ▸ List.mem_map_of_mem hp
  obtain ⟨p₀, hp₀, heq⟩ := List.mem_map.mp hmem
  have hdescriptors : p.descriptors = p₀.descriptors := (congrArg Plane.descriptors heq :).symm
  simpa only [Plane.Stops, Plane.descriptor?, hdescriptors] using hstops p₀ hp₀

omit [Kernel σ] h in
/-- After a search a plane shows the layer that the best walk gives it, and nothing else. -/
theorem layer_eq_some_iff {s : Search.Scene} {passes : Request → Prop} {best : Option Search.Best}
    (hallocated : Allocated d₁ o s noted passes entry False best d₂) {p : Plane} (hp : p ∈ d₂.planes)
    (id : LayerId) :
    p.layer = some id ↔ ∃ b, best = some b ∧ (p.id, id) ∈ assignments b.path := by
  have hd₂ := hallocated.wellFormed
  rw [← hallocated.links]
  -- From the plane to the link and back.
  constructor
  · intro hlayer
    obtain ⟨l, hl, -⟩ := layer_of_plane hd₂.wiring hp hlayer
    have hlink := mem_links_of_plane hd₂.wiring hp hlayer hl
    by_cases hlo : l.output = o
    · exact hlo ▸ hlink
    -- A link of another output was there before, which owned every plane.
    · rw [hallocated.others _ hlo] at hlink
      exact absurd hlink (howned.links hd₁ hlo _)
  · intro hlink
    obtain ⟨p', hp', hid, hpl⟩ := plane_of_link hd₂.wiring hlink
    rwa [← hd₂.wiring.plane_eq hp' hp hid]

/-- What the best walk writes for a plane is what its link says, unless the walk leaves it empty. -/
theorem Laid.writes_eq {s : Search.Scene} {b : Search.Best} (hout : d₁.output? o = some s.output)
    (hlayers : s.layers = (d₁.cleared o).layers)
    (hallocated : Allocated d₁ o s noted (fun _ => True) entry False (some b) d₂)
    {c : Search.Choice} (hc : c ∈ b.path) {p : Plane} (hp : p ∈ d₂.planes)
    (hbare : p.bare = c.plane.bare) {id : LayerId} (hid : c.layer = some id) :
    d₂.planeWrites p = c.writes s := by
  have hd₂ := hallocated.wellFormed
  have hassigned : (p.id, id) ∈ assignments b.path :=
    Search.mem_assignments.mpr ⟨c, hc, (Plane.id_of_bare hbare).symm, hid⟩
  have hlayer := (layer_eq_some_iff hd₁ howned hallocated hp id).mpr ⟨b, rfl, hassigned⟩
  -- The layer on the plane is the one that the search saw.
  obtain ⟨l₂, hl₂, -⟩ := layer_of_plane hd₂.wiring hp hlayer
  obtain ⟨l, hl⟩ := h.exists_seen hlayers hl₂
  have hworn : l₂.worn = l.worn := Layer.worn_of_content (h.content_eq hlayers hl hl₂)
  have ho : l₂.output = o := by
    have hlink := (hallocated.links (p.id, id)).mpr ⟨b, rfl, hassigned⟩
    obtain ⟨l₂', hl₂', ho, -⟩ := mem_links_iff.mp hlink
    rwa [Option.some.inj (hl₂.symm.trans hl₂')]
  -- Neither the look of the layer nor the pipe of the output has changed since.
  obtain ⟨out₂, hout₂, -⟩ := output_of_layer hd₂ hl₂
  obtain ⟨out₁, hout₁, hpipe⟩ := h.changes.exists_output hout₂
  rw [ho, hout] at hout₁
  obtain rfl := Option.some.inj hout₁
  have hcrtc : out₂.crtc = s.output.crtc := congrArg Prod.fst hpipe
  have hchosen : s.chosen? c = some l := by
    rw [Search.Scene.chosen?, hid]
    exact hl
  -- The walk and the device then stage one and the same.
  simp only [planeWrites, hlayer, hl₂, hout₂, Search.Choice.writes, hchosen, hcrtc]
  rw [Plane.layerWrites_of_bare hbare, c.plane.layerWrites_congr hworn]

omit [Kernel σ] hd₁ howned h in
theorem bare_of_walk {s : Search.Scene} {b : Search.Best}
    (hallocated : Allocated d₁ o s noted (fun _ => True) entry False (some b) d₂)
    {passes : Request → Prop} {r : Request}
    (hwalk : Search.Walk s passes [] entry (d₁.cleared o).planes b.path r) :
    (b.path.reverse.map fun c => c.plane.bare) = d₂.planes.map Plane.bare := by
  have hscenery := hallocated.scene.scenery.trans (sameScene_cleared d₁ o).scenery.symm
  have hhardware : d₂.planes.map Plane.bare = (d₁.cleared o).planes.map Plane.bare :=
    congrArg Scenery.hardware hscenery
  -- A whole walk visits every plane, in the order of the device.
  have hvisits : b.path.reverse.map Search.Choice.plane = (d₁.cleared o).planes := by
    rw [List.map_reverse, hwalk.visits, List.map_nil, List.append_nil, List.reverse_reverse]
  calc (b.path.reverse.map fun c => c.plane.bare)
    _ = (b.path.reverse.map Search.Choice.plane).map Plane.bare := by rw [List.map_map]; rfl
    _ = (d₁.cleared o).planes.map Plane.bare := by rw [hvisits]
    _ = d₂.planes.map Plane.bare := hhardware.symm

omit [Kernel σ] h in
theorem layer_eq_none {s : Search.Scene} {b : Search.Best}
    (hallocated : Allocated d₁ o s noted (fun _ => True) entry False (some b) d₂)
    (hids : (b.path.reverse.map fun c => c.plane.id) = d₂.planes.map Plane.id)
    {c : Search.Choice} (hc : c ∈ b.path.reverse) (hnone : c.layer = none)
    {p : Plane} (hp : p ∈ d₂.planes) (hcid : c.plane.id = p.id) : p.layer = none := by
  have hnodup : (d₂.planes.map Plane.id).Nodup := hallocated.wellFormed.wiring.ids_nodup
  -- A layer on the plane would come from another choice on the same plane.
  rw [Option.eq_none_iff_forall_ne_some]
  intro id hid
  obtain ⟨b', hb', hassigned⟩ := (layer_eq_some_iff hd₁ howned hallocated hp id).mp hid
  obtain rfl := Option.some.inj hb'
  obtain ⟨c', hc', hcid', hlayer'⟩ := Search.mem_assignments.mp hassigned
  have hsame : c' = c := List.inj_on_of_nodup_map (hids ▸ hnodup) (List.mem_reverse.mpr hc') hc
    (hcid'.trans hcid.symm)
  rw [hsame, hnone] at hlayer'
  cases hlayer'

/-- The request at the end of the best walk and the one that is staged for the links give every property
the same value. -/
theorem Laid.value?_eq {s : Search.Scene} {b : Search.Best} (hout : d₁.output? o = some s.output)
    (hlayers : s.layers = (d₁.cleared o).layers)
    (hallocated : Allocated d₁ o s noted (fun _ => True) entry False (some b) d₂)
    {passes : Request → Prop} {r r' : Request}
    (hwalk : Search.Walk s passes [] entry (d₁.cleared o).planes b.path r')
    (hstage : d₂.stageCurrent entry = .ok () r) (q x : UInt32) : r'.value? q x = r.value? q x := by
  have hnodup : (d₂.planes.map Plane.id).Nodup := hallocated.wellFormed.wiring.ids_nodup
  obtain ⟨hentry, -⟩ := h.entry_eq hd₁ howned
  have hr' : r' = entry.append (b.path.reverse.flatMap (Search.Choice.writes s)) :=
    hwalk.writes (by simp [Request.append])
  obtain ⟨hr, -⟩ := d₂.adds_stageCurrent entry r hstage
  -- Either request is the zeros and then one write per plane.
  rw [hr', hr, Request.value?_append, Request.value?_append]
  have hbare := bare_of_walk hallocated hwalk
  have hids : (b.path.reverse.map fun c => c.plane.id) = d₂.planes.map Plane.id := by
    have hmap := congrArg (List.map Plane.id) hbare
    rwa [List.map_map, List.map_map] at hmap
  -- A value is that of the one plane it is about, if there is such a plane.
  by_cases hq : q ∈ d₂.planes.map Plane.id
  · obtain ⟨p, hp, rfl⟩ := List.mem_map.mp hq
    have hmem : p.bare ∈ b.path.reverse.map fun c => c.plane.bare := hbare ▸ List.mem_map_of_mem hp
    obtain ⟨c, hc, hcbare⟩ := List.mem_map.mp hmem
    have hcid : c.plane.id = p.id := Plane.id_of_bare hcbare
    have hwalked := Request.value?_flatMap (fun c : Search.Choice => c.plane.id)
      (fun c _ => c.object_writes s) (hids ▸ hnodup) hc x
    have hstaged := Request.value?_flatMap Plane.id (fun p _ => d₂.object_planeWrites p) hnodup hp x
    rw [hcid] at hwalked
    rw [hwalked, hstaged]
    cases hlayer : c.layer with
    | some id =>
      rw [h.writes_eq hd₁ howned hout hlayers hallocated (List.mem_reverse.mp hc) hp hcbare.symm hlayer]
    | none =>
      -- A plane that the walk leaves empty is switched off once more, which changes nothing.
      have hempty := layer_eq_none hd₁ howned hallocated hids hc hlayer hp hcid
      have hnothing : c.writes s = [] := by
        simp only [Search.Choice.writes, Search.Scene.chosen?, hlayer, Option.bind_none]
      have hoff : d₂.planeWrites p = p.disabledWrites := by
        simp only [planeWrites, hempty]
      have hbefore := Request.value?_flatMap Plane.id (fun p _ => p.object_disabledWrites) hnodup hp x
      rw [hnothing, hoff, hentry, Request.value?_append, hbefore, Request.value?_nil, Option.none_or,
        ← Option.or_assoc, Option.or_self]
  · have hwalked := Request.value?_flatMap_of_notMem (fun c : Search.Choice => c.plane.id)
      (fun c _ => c.object_writes s) (hids ▸ hq) x
    have hstaged := Request.value?_flatMap_of_notMem Plane.id (fun p _ => d₂.object_planeWrites p) hq x
    rw [hwalked, hstaged]

/-- If the search placed a layer, then what is staged for the links has the effect of a request that
has passed; otherwise no plane shows anything. -/
theorem Laid.passed {r : Request} (hstage : d₂.stageCurrent entry = .ok () r) :
    (∃ r', noted d₂.session.kernel r' ∧ ∀ q x, r'.value? q x = r.value? q x) ∨
      ∀ p ∈ d₂.planes, p.layer = none := by
  obtain ⟨s, best, hout, hlayers, hallocated⟩ := h.allocated
  -- With nothing assigned, no plane has a layer.
  have hnothing : (∀ x b, best = some b → x ∉ assignments b.path) →
      ∀ p ∈ d₂.planes, p.layer = none := by
    intro hempty p hp
    rw [Option.eq_none_iff_forall_ne_some]
    intro id hlayer
    obtain ⟨b, hb, hmem⟩ := (layer_eq_some_iff hd₁ howned hallocated hp id).mp hlayer
    exact hempty _ b hb hmem
  cases best with
  | none => exact .inr (hnothing nofun)
  | some b =>
    obtain ⟨-, hfeasible⟩ := hallocated.feasible b rfl
    obtain ⟨r', hwalk⟩ := hfeasible.walk
    -- A walk is judged when it has placed its last layer; one that places none was never tested.
    rcases hwalk.passed with hpassed | ⟨-, hempty⟩
    · exact .inl ⟨r', hpassed, h.value?_eq hd₁ howned hout hlayers hallocated hwalk hstage⟩
    · refine .inr (hnothing fun x b' hb' hx => ?_)
      obtain rfl := Option.some.inj hb'
      obtain ⟨c, hc, -, hlayer⟩ := Search.mem_assignments.mp hx
      rcases hempty c hc with hmem | hnone
      · cases hmem
      · rw [hnone] at hlayer
        cases hlayer

end Laid

section Applied

variable [Kernel σ] {flags : CommitFlags} {o : OutputId} {K : σ → Prop} {noted : σ → Request → Prop}
  {request r : Request} {d d' : Device σ} (h : Applied flags o noted request r d d')
include h

theorem Applied.kernel (hn : Kernel.Notes flags K noted) (hK : K d.session.kernel) :
    K d'.session.kernel := by
  obtain ⟨d₁, d₂, outcome, hdecides, hmarks, hkernel, hend⟩ := h
  -- The driver is only met by decisions, searches and looks at the clock.
  have hK₁ := (hdecides.changes.kernel (fun _ _ => hn.later) hK).1
  have hK₂ : K d₂.session.kernel := by
    rcases hend with ⟨-, rfl, -⟩ | ⟨-, entry, hlaid, -⟩
    · exact hK₁
    · exact (hlaid.changes.kernel (fun _ _ => hn.later) hK₁).1
  rw [hkernel]
  exact (hn.now _ hK₂).1

theorem Applied.planes : d'.planes.map Plane.bare = d.planes.map Plane.bare := by
  obtain ⟨d₁, d₂, outcome, hdecides, hmarks, -, hend⟩ := h
  have hplanes₁ : d₁.planes = d.planes := congrArg Wiring.planes hdecides.wiring
  have hplanes' : d'.planes = d₂.planes := congrArg Wiring.planes hmarks.wiring
  rw [hplanes', ← hplanes₁]
  rcases hend with ⟨-, rfl, -⟩ | ⟨-, entry, hlaid, -⟩
  · rfl
  · obtain ⟨s, best, -, -, hallocated⟩ := hlaid.allocated
    exact congrArg Scenery.hardware hallocated.scene.scenery

theorem Applied.isSome_plane? (q : UInt32) : (d'.plane? q).isSome = (d.plane? q).isSome := by
  have hsame : d'.planes.map Plane.id = d.planes.map Plane.id := by
    have hmap := congrArg (List.map Plane.id) h.planes
    rwa [List.map_map, List.map_map] at hmap
  have hplane : ∀ d : Device σ, (d.plane? q).isSome ↔ q ∈ d.planes.map Plane.id := by
    intro d
    simp [plane?]
  rw [Bool.eq_iff_iff, hplane, hplane, hsame]

/-- What an apply that succeeds has staged: the links, on top of the caller's request if it kept the
allocation, or else of what a full search has started from. -/
theorem Applied.staged : (∀ p ∈ d'.planes, d'.Suits p) ∧
    ∃ base, r = base.append (d'.planes.flatMap d'.planeWrites) ∧
      (base = request ∧ Session.Reports [(o, .accepted)] d.session d'.session ∨
        ∃ d₁ d₂ outcome, Decides flags o outcome d d₁ ∧ Laid flags o noted request base d₁ d₂ ∧
          Marks o d₂ d') := by
  obtain ⟨d₁, d₂, outcome, hdecides, hmarks, -, hend⟩ := h
  obtain ⟨hsame, hmarked⟩ := hmarks.staged
  rw [hsame]
  -- Kept, the writes are those of the request that was tested; searched, those of the last staging.
  rcases hend with ⟨rfl, rfl, hkept⟩ | ⟨-, entry, hlaid, hstage⟩
  · have hreports := hdecides.reports.trans hmarks.reports
    exact ⟨hmarked hkept.suits, request, hkept.writes, .inl ⟨rfl, hreports⟩⟩
  · obtain ⟨hr, hsuits⟩ := d₂.adds_stageCurrent entry r hstage
    exact ⟨hmarked hsuits, entry, hr, .inr ⟨d₁, d₂, outcome, hdecides, hlaid, hmarks⟩⟩

variable (hd : d.WellFormed)
include hd

theorem Applied.wellFormed : d'.WellFormed := by
  obtain ⟨d₁, d₂, outcome, hdecides, hmarks, -, ⟨-, rfl, -⟩ | ⟨-, entry, hlaid, -⟩⟩ := h
  · exact hmarks.wellFormed (hdecides.wellFormed hd)
  · obtain ⟨s, best, -, -, hallocated⟩ := hlaid.allocated
    exact hmarks.wellFormed hallocated.wellFormed

variable (howned : d.OwnedBy o)
include howned

/-- If anything shows after an apply that succeeds, then what the apply has staged has the effect of a
request that has passed. -/
theorem Applied.passed (hn : Kernel.Notes flags K noted) (hK : K d.session.kernel) :
    (∃ r', noted d'.session.kernel r' ∧ ∀ q x, r'.value? q x = r.value? q x) ∨
      ∀ p ∈ d'.planes, p.layer = none := by
  obtain ⟨d₁, d₂, outcome, hdecides, hmarks, hkernel, hend⟩ := h
  have hd₁ := hdecides.wellFormed hd
  have hK₁ := (hdecides.changes.kernel (fun _ _ => hn.later) hK).1
  have hplanes : d'.planes = d₂.planes := congrArg Wiring.planes hmarks.wiring
  rw [hkernel, hplanes]
  -- Either the reuse was tested, or the walk to the best path.
  rcases hend with ⟨-, rfl, hkept⟩ | ⟨-, entry, hlaid, hstage⟩
  · exact .inl ⟨r, (hn.now _ hK₁).2 r hkept.passed, fun _ _ => rfl⟩
  · have hK₂ := (hlaid.changes.kernel (fun _ _ => hn.later) hK₁).1
    have howned₁ := howned.of_wiring hdecides.wiring
    refine (hlaid.passed hd₁ howned₁ hstage).imp_left ?_
    rintro ⟨r', hpassed, hsame⟩
    exact ⟨r', (hn.now _ hK₂).2 r' hpassed, hsame⟩

/-- What an apply that succeeds has staged: the links, and before that perhaps zeros for all planes. -/
theorem Applied.writes :
    (r = request.append (d'.planes.flatMap d'.planeWrites) ∨
      r = (request.append (d'.planes.flatMap Plane.disabledWrites)).append
        (d'.planes.flatMap d'.planeWrites)) ∧ ∀ p ∈ d'.planes, d'.Suits p := by
  obtain ⟨hsuits, base, hr, ⟨rfl, -⟩ | ⟨d₁, d₂, outcome, hdecides, hlaid, hmarks⟩⟩ := h.staged
  · exact ⟨.inl hr, hsuits⟩
  · obtain ⟨hentry, -⟩ := hlaid.entry_eq (hdecides.wellFormed hd) (howned.of_wiring hdecides.wiring)
    rw [show d₂.planes = d'.planes from (congrArg Wiring.planes hmarks.wiring).symm] at hentry
    exact ⟨.inr (hentry ▸ hr), hsuits⟩

end Applied

/-- If an apply succeeds and some layer of its output is on a plane then, one of the tests that it made
passed with a request that gives every property the same value as what it leaves staged. -/
theorem exists_test_of_shown [Kernel σ] {d : Device (Recorded σ)} {o : OutputId} {flags : CommitFlags}
    {options : ApplyOptions} {request : Request} {f : Frame (Recorded σ)} (hreachable : d.Reachable)
    (howned : d.OwnedBy o) (happly : Frame.apply o flags options ⟨d, request⟩ = .ok () f)
    (hshown : ∃ id l, f.device.layer? id = some l ∧ l.output = o ∧ l.plane.isSome) :
    ∃ asked tested, f.device.session.kernel.log = asked ++ d.session.kernel.log ∧
      (tested, flags.forTest, .ok ()) ∈ asked ∧
      ∀ object property, tested.value? object property = f.request.value? object property := by
  have hd := hreachable.wellFormed
  have hnotes := Recorded.notes d.session.kernel flags
  have hcases := apply_cases (o := o) hd hnotes ⟨[], rfl⟩ options request
  rw [ensures_of_eq_ok happly] at hcases
  -- Either one of the tests passed with the same values, or there is nothing to show.
  rcases hcases.passed hd howned hnotes ⟨[], rfl⟩ with ⟨tested, ⟨asked, hlog, hmem⟩, hsame⟩ | hempty
  · exact ⟨asked, tested, hlog, hmem, hsame⟩
  · obtain ⟨id, l, hl, -, hplane⟩ := hshown
    obtain ⟨q, hq⟩ := Option.isSome_iff_exists.mp hplane
    obtain ⟨p, hp, -, hpl⟩ := plane_of_layer (hcases.wellFormed hd).wiring hl hq
    rw [hempty p hp] at hpl
    cases hpl

/-- The small device on a recorded driver, with its layers shown and one of them moved from under
another. -/
def movedLayers : Device (Recorded Scripted) :=
  ({ session := { kernel := ⟨.threeOverlays, []⟩ }, crtcs := [1] } :
      Device (Recorded Scripted)).afterAll
    ([.registerAllPlanes, .createOutput 1] ++ Operation.layerAt 0 0 3 ++ Operation.layerAt 1 50 2 ++
      Operation.layerAt 2 500 1 ++ [.apply .first {} {} {}, .setProperty ⟨⟨1, 0⟩⟩ "CRTC_X" 300])

/-- The search of the second apply has asked for what it leaves staged, in another order. -/
theorem exists_test_of_movedLayers :
    ∃ f : Frame (Recorded Scripted), Frame.apply .first {} {} ⟨movedLayers, {}⟩ = .ok () f ∧
      ∃ asked tested, f.device.session.kernel.log = asked ++ movedLayers.session.kernel.log ∧
        (tested, CommitFlags.forTest {}, .ok ()) ∈ asked ∧
        ∀ object property, tested.value? object property = f.request.value? object property := by
  have happly := eq_ok_of_succeeded (x := Frame.apply .first {} {} ⟨movedLayers, {}⟩)
    (by decide +kernel)
  have hreachable : movedLayers.Reachable :=
    ⟨⟨.threeOverlays, []⟩, {}, [1], _, run_afterAll (by decide +kernel)⟩
  have howned : movedLayers.OwnedBy .first := by decide +kernel
  have hshown : ∃ l ∈ (leftBy (Frame.apply .first {} {} ⟨movedLayers, {}⟩)).device.layer? ⟨⟨1, 0⟩⟩,
      l.output = .first ∧ l.plane.isSome = true := by decide +kernel
  obtain ⟨l, hl, hplace⟩ := hshown
  exact ⟨_, happly, exists_test_of_shown hreachable howned happly ⟨_, l, hl, hplace⟩⟩

end Allocation

end Scanout
