import Scanout.Proofs.Allocation.Stacking

/-! What a full search promises about the primary plane. A layer that belongs under the one shown there
stays off the overlays above it, as long as no other primary plane comes in between. That a layer which
belongs over it stays off the overlays below is not promised. -/

namespace Scanout

variable {σ : Type}

namespace Device

/-- Between two planes a primary one shows a layer that does not belong over `z`, or is not below the
second of the two. -/
def ShowsPrimaryBetween (d : Device σ) (o : OutputId) (p q : Plane) (z : Int) : Prop :=
  ∃ id l r z', d.Shows o id l r ∧ r.isPrimary = true ∧ l.zpos? = some z' ∧
    (z' ≤ z ∨ q.zpos ≤ r.zpos) ∧ [p, r, q].Sublist d.planes

/-- No overlay comes before a primary plane. -/
theorem WellFormed.not_sublist_of_primary {d : Device σ} (hd : d.WellFormed) {p q : Plane}
    (hp : p.isPrimary = false) (hq : q.isPrimary = true) : ¬ [p, q].Sublist d.planes := by
  intro hsub
  obtain ⟨hprecede, -⟩ := List.pairwise_cons.mp (hd.wiring.sorted.sublist hsub)
  rcases hprecede q List.mem_cons_self with hprimary | ⟨hoverlay, -⟩
  · rw [hp] at hprimary
    cases hprimary
  · rw [hq] at hoverlay
    cases hoverlay

end Device

namespace Search

/-- What the rules say of a layer on an overlay and of the primary plane decided on last. -/
theorem le_or_le_of_rejection?_eq_none {s : Scene} {path : Path} {p : Plane} {id : LayerId} {l : Layer}
    (hrule : s.rejection? path p id l = none) (hoverlay : p.isPrimary = false) {z : Int}
    (hz : l.zpos? = some z) :
    (s.primaryZpos path).1 ≤ z ∨ p.zpos ≤ (s.primaryZpos path).2 := by
  simp only [Scene.rejection?, Option.or_eq_none_iff, Option.bind_eq_none_iff] at hrule
  have hstacking := hrule.1 z hz
  -- Were it neither over the layer nor on a plane that is low enough, a rule would have objected.
  by_contra hunder
  rw [not_or, not_le, not_le] at hunder
  split at hstacking
  · cases hstacking
  · split at hstacking
    · cases hstacking
    · simp [hoverlay, hunder] at hstacking

/-- The primary plane that the rules ask about is the one that `c` stands for, or comes after it. -/
theorem exists_primaryZpos {s : Scene} {path : Path} {c : Choice} {z : Int} (hc : c ∈ path)
    (hprimary : c.plane.isPrimary = true) (hz : s.chosenZpos? c = some z) :
    ∃ b zb, s.primaryZpos path = (zb, b.plane.zpos) ∧ b.plane.isPrimary = true ∧
      s.chosenZpos? b = some zb ∧ (b = c ∨ [b, c].Sublist path) := by
  have hmem : c ∈ path.filter fun c => c.plane.isPrimary := List.mem_filter.mpr ⟨hc, hprimary⟩
  -- The values come from the latest choice that puts such a layer on a primary plane.
  obtain ⟨b, y, hfirst, hb, hy, hplace⟩ := exists_findSome?
    (f := fun c => (s.chosenZpos? c).map fun z => (z, c.plane.zpos)) hmem (by simp [hz])
  obtain ⟨zb, hzb, rfl⟩ := Option.map_eq_some_iff.mp hy
  refine ⟨b, zb, by rw [Scene.primaryZpos, hfirst, Option.getD_some], ?_, hzb, ?_⟩
  · exact (List.mem_filter.mp hb).2
  · exact hplace.imp_right fun hsub => hsub.trans List.filter_sublist

end Search

namespace Allocation

open Device

section Layouts

variable {d : Device σ} {o : OutputId} {s : Search.Scene} {path : Search.Path}
  (h : Layout d o s path) (hd : d.WellFormed)
include h hd

/-- A primary plane was decided on before any overlay. -/
theorem Layout.mem_earlier {later earlier : Search.Path} {c c' : Search.Choice}
    (hpath : path = later ++ c :: earlier) {x y : LayerId} {lx ly : Layer} {px py : Plane}
    (hx : Puts d o s c x lx px) (hpx : px.isPrimary = false) (hc' : c' ∈ path)
    (hy : Puts d o s c' y ly py) (hpy : py.isPrimary = true) : c' ∈ earlier := by
  rw [hpath] at hc'
  -- A choice comes later on the path, is the same one, or comes earlier.
  rcases List.mem_append.mp hc' with hlater | hrest
  · exfalso
    apply hd.not_sublist_of_primary hpx hpy
    -- Were it later, the primary plane would come before one that is not.
    have hpair : [c', c].Sublist path := by
      rw [hpath]
      exact (List.singleton_sublist.mpr hlater).append (List.singleton_sublist.mpr List.mem_cons_self)
    apply h.sublist hd (List.reverse_sublist.mpr hpair)
    · intro p hp
      rcases List.mem_pair.mp hp with rfl | rfl
      · exact hx.shows.plane
      · exact hy.shows.plane
    · simp [hx.bare, hy.bare]
  · rcases List.mem_cons.mp hrest with rfl | hearlier
    · rw [← hy.kind, hx.kind, hpx] at hpy
      cases hpy
    · exact hearlier

/-- A layer that belongs under one on a primary plane is on an overlay above it only if a further
primary plane has taken the place of that one in the rules. -/
theorem Layout.under_primary {x y : LayerId} {lx ly : Layer} {px py : Plane} {zx zy : Int}
    (hx : d.Shows o x lx px) (hpx : px.isPrimary = false) (hzx : lx.zpos? = some zx)
    (hy : d.Shows o y ly py) (hpy : py.isPrimary = true) (hzy : ly.zpos? = some zy) (hlt : zx < zy) :
    px.zpos ≤ py.zpos ∨ d.ShowsPrimaryBetween o py px zx := by
  obtain ⟨c, hc, hx⟩ := h.choice hd hx
  -- The path is cut at the choice for the lower layer.
  obtain ⟨c', hc', hy⟩ := h.choice hd hy
  obtain ⟨later, earlier, hpath⟩ := List.append_of_mem hc
  have hearlier := h.mem_earlier hd hpath hx hpx hc' hy hpy
  obtain ⟨lx', hplaced⟩ := h.legal later c earlier x hpath hx.layer
  obtain ⟨lx₁, hlx₁, hlookx⟩ := hx.seen
  obtain rfl := Option.some.inj (hplaced.layer.symm.trans hlx₁)
  obtain ⟨ly', hly', hlooky⟩ := hy.seen
  have hzc' : s.chosenZpos? c' = some zy := by
    simp only [Search.Scene.chosenZpos?, Search.Scene.chosen?, hy.layer, Option.bind_some, hly']
    exact (congrArg Prod.fst hlooky).trans hzy
  -- What the rule compared with is the latest primary choice before it.
  obtain ⟨b, zb, hvalues, hpb, hzb, hplace⟩ :=
    Search.exists_primaryZpos hearlier (hy.kind.trans hpy) hzc'
  have hrule := Search.le_or_le_of_rejection?_eq_none hplaced.rule (hx.kind.trans hpx)
    ((congrArg Prod.fst hlookx).trans hzx)
  rw [hvalues, hx.zpos] at hrule
  rcases hplace with rfl | hsub
  -- The rule was applied to `py` itself.
  · rw [hzc'] at hzb
    obtain rfl := Option.some.inj hzb
    rw [hy.zpos] at hrule
    exact .inl (hrule.resolve_left hlt.not_ge)
  -- The rule was applied to another primary plane, which lies in between.
  · obtain ⟨z, lz, pz, hz, hzz, hplanes⟩ := h.shows_between hd hpath hx hy hsub hzb
    rw [hz.zpos] at hrule
    exact .inr ⟨z, lz, pz, zb, hz.shows, hz.kind.symm.trans hpb, hzz, hrule, hplanes⟩

end Layouts

end Allocation

namespace Scripted

def ofType (type : UInt64) : PlaneInfo where
  possibleCrtcs := 1
  properties :=
    [(⟨1, "type", .other, false⟩, type), (⟨2, "FB_ID", .other, false⟩, 0),
      (⟨3, "CRTC_ID", .other, false⟩, 0), (⟨4, "CRTC_X", .other, false⟩, 0),
      (⟨5, "CRTC_W", .other, false⟩, 0), (⟨6, "CRTC_H", .other, false⟩, 0)]

def twoPrimaries : Scripted where
  crtcs := .ok [1]
  planeIds := .ok [20, 21, 30, 10]
  planes := [(20, .ok (ofType 1)), (21, .ok (ofType 1)), (30, .ok (ofType 0)), (10, .ok (ofType 0))]
  allowed := some [(21, 1), (20, 2), (30, 3), (10, 4)]

end Scripted

namespace Device

def fourLayers : Device Scripted :=
  ({ session := { kernel := .twoPrimaries }, crtcs := [1] } : Device Scripted).afterAll
    ([.registerAllPlanes, .createOutput 1] ++ Operation.layerAt 0 0 3 ++ Operation.layerAt 1 500 1 ++
      Operation.layerAt 2 50 2 ++ Operation.layerAt 3 550 4)

theorem reachable_fourLayers : fourLayers.Reachable :=
  ⟨.twoPrimaries, {}, [1], _, run_afterAll (by decide +kernel)⟩

def fourShown : Device Scripted := fourLayers.after (.apply .first {} {} {})

theorem apply_fourLayers : ∃ f : Frame Scripted,
    Frame.apply .first {} {} ⟨fourLayers, {}⟩ = .ok () f ∧ f.device = fourShown :=
  exists_after_apply fourLayers .first {} {} {} (by decide +kernel)

theorem decisions_fourShown : fourShown.session.decisions =
    (.first, .skipped .layersChanged) :: fourLayers.session.decisions := by decide +kernel

/-- A link of the four layers shows a layer at `z` on a plane at `zpos`. -/
theorem exists_shows_fourShown (q : UInt32) (id : LayerId) (primary : Bool) (z zpos : Int)
    (h : (q, id) ∈ fourShown.wiring.links .first ∧
      (∀ p ∈ fourShown.planes, p.id = q → p.isPrimary = primary ∧ p.zpos = zpos) ∧
      (fourShown.layer? id).bind Layer.zpos? = some z) :
    ∃ l p, fourShown.Shows .first id l p ∧ p.isPrimary = primary ∧ p.zpos = zpos ∧ l.zpos? = some z := by
  obtain ⟨hlink, hplane, hlayer⟩ := h
  have hreachable : fourShown.Reachable := reachable_fourLayers.after trivial
  obtain ⟨l, p, hshows, hq⟩ := hreachable.wellFormed.exists_shows hlink
  obtain ⟨hprimary, hzpos⟩ := hplane p hshows.plane hq
  -- The zpos is that of the layer the device shows.
  rw [hshows.layer, Option.bind_some] at hlayer
  exact ⟨l, p, hshows, hprimary, hzpos, hlayer⟩

end Device

namespace Allocation

open Device

variable [Kernel σ] {d : Device σ} {o : OutputId} {flags : CommitFlags} {options : ApplyOptions}
  {request : Request} {f : Frame σ}

/-- After a full search a layer that belongs under one on a primary plane is on no overlay above that
plane, unless another primary plane was given a layer in between, which the rules ask about instead. -/
theorem zpos_le_of_under_primary (hd : d.WellFormed)
    (hrun : Frame.apply o flags options ⟨d, request⟩ = .ok () f) {outcome : ReuseOutcome}
    (hsearch : f.device.session.decisions = (o, outcome) :: d.session.decisions)
    (hne : outcome ≠ .accepted) {x y : LayerId} {lx ly : Layer} {px py : Plane} {zx zy : Int}
    (hx : f.device.Shows o x lx px) (hpx : px.isPrimary = false) (hzx : lx.zpos? = some zx)
    (hy : f.device.Shows o y ly py) (hpy : py.isPrimary = true) (hzy : ly.zpos? = some zy)
    (hlt : zx < zy) :
    px.zpos ≤ py.zpos ∨ f.device.ShowsPrimaryBetween o py px zx := by
  obtain ⟨hd', s, path, hlayout⟩ := layout_of_shows hd hrun hsearch hne hx
  exact hlayout.under_primary hd' hx hpx hzx hy hpy hzy hlt

/-- With a second primary plane in between, a layer may be above the primary plane of the layer that it
belongs under. -/
theorem showsPrimaryBetween_fourShown : ∃ lx ly px py,
    fourShown.Shows .first ⟨⟨2, 0⟩⟩ lx px ∧ fourShown.Shows .first ⟨⟨0, 0⟩⟩ ly py ∧
      py.zpos < px.zpos ∧ fourShown.ShowsPrimaryBetween .first py px 2 := by
  obtain ⟨f, hrun, hf⟩ := apply_fourLayers
  obtain ⟨lx, px, hx, hpx, hzposx, hzx⟩ := exists_shows_fourShown 30 ⟨⟨2, 0⟩⟩ false 2 1
    (by decide +kernel)
  obtain ⟨ly, py, hy, hpy, hzposy, hzy⟩ := exists_shows_fourShown 21 ⟨⟨0, 0⟩⟩ true 3 0
    (by decide +kernel)
  -- The plane of the higher layer is stacked below.
  have hlt : py.zpos < px.zpos := by omega
  rw [← hf] at hx hy
  have hcases := zpos_le_of_under_primary reachable_fourLayers.wellFormed hrun
    (hf ▸ decisions_fourShown) (by decide) hx hpx hzx hy hpy hzy (by decide)
  rw [hf] at hx hy hcases
  exact ⟨lx, ly, px, py, hx, hy, hlt, hcases.resolve_left hlt.not_ge⟩

/-- A layer that belongs over one on a primary plane, which it intersects, may be on an overlay below. -/
theorem not_forall_zpos_le_of_primary :
    ¬ ∀ (d : Device Scripted) (o : OutputId) (f : Frame Scripted) (outcome : ReuseOutcome)
      (x y : LayerId) (lx ly : Layer) (px py : Plane) (zx zy : Int), d.Reachable →
      Frame.apply o {} {} ⟨d, {}⟩ = .ok () f →
      f.device.session.decisions = (o, outcome) :: d.session.decisions → outcome ≠ .accepted →
      f.device.Shows o x lx px → px.isPrimary = false → lx.zpos? = some zx →
      f.device.Shows o y ly py → py.isPrimary = true → ly.zpos? = some zy → lx.intersects ly →
      (zy < zx → py.zpos ≤ px.zpos) ∧ (zx < zy → px.zpos ≤ py.zpos) := by
  intro h
  obtain ⟨f, hrun, hf⟩ := apply_fourLayers
  obtain ⟨lx, px, hx, hpx, hzposx, hzx⟩ := exists_shows_fourShown 10 ⟨⟨3, 0⟩⟩ false 4 (-1)
    (by decide +kernel)
  obtain ⟨ly, py, hy, hpy, hzposy, hzy⟩ := exists_shows_fourShown 20 ⟨⟨1, 0⟩⟩ true 1 0
    (by decide +kernel)
  have hint : ((fourShown.layer? ⟨⟨3, 0⟩⟩).bind fun lx =>
      (fourShown.layer? ⟨⟨1, 0⟩⟩).map lx.intersects) = some true := by decide +kernel
  -- The two layers intersect, as the claim wants it.
  rw [hx.layer, hy.layer, Option.bind_some, Option.map_some] at hint
  obtain ⟨hover, -⟩ := h fourLayers .first f (.skipped .layersChanged) _ _ lx ly px py 4 1
    reachable_fourLayers hrun (hf ▸ decisions_fourShown) (by decide) (hf ▸ hx) hpx hzx (hf ▸ hy) hpy hzy
    (Option.some.inj hint)
  have hle := hover (by decide)
  omega

end Allocation

end Scanout
