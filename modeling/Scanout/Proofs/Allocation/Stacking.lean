import Scanout.Proofs.Device.Run

namespace Scanout

variable {σ : Type}

/-- A function that tells the elements of two lists apart takes only equal ones to the same list. -/
theorem eq_of_map_eq {α β : Type} {f : α → β} {xs ys : List α} (h : xs.map f = ys.map f)
    (hinj : ∀ x ∈ xs, ∀ y ∈ ys, f x = f y → x = y) : xs = ys := by
  -- Induction on the first list; the second has a head exactly if the first has.
  induction xs generalizing ys with
  | nil => exact (List.map_eq_nil_iff.mp h.symm).symm
  | cons x xs ih =>
    cases ys with
    | nil => cases h
    | cons y ys =>
      obtain ⟨hhead, htail⟩ := List.cons.inj h
      rw [hinj x List.mem_cons_self y List.mem_cons_self hhead, ih htail fun x hx y hy =>
        hinj x (List.mem_cons_of_mem _ hx) y (List.mem_cons_of_mem _ hy)]

/-- What is found first is found no later than at `a`, if there is something to find at `a`. -/
theorem exists_findSome? {α β : Type} {f : α → Option β} {xs : List α} {a : α} (ha : a ∈ xs)
    (hfa : (f a).isSome) :
    ∃ b y, xs.findSome? f = some y ∧ b ∈ xs ∧ f b = some y ∧ (b = a ∨ [b, a].Sublist xs) := by
  cases hfirst : xs.findSome? f with
  -- The element itself has a value, so the search finds one.
  | none =>
    rw [List.findSome?_eq_none_iff.mp hfirst a ha] at hfa
    cases hfa
  | some y =>
    obtain ⟨before, b, behind, rfl, hy, hnone⟩ := List.findSome?_eq_some_iff.mp hfirst
    refine ⟨b, y, rfl, List.mem_append_right before List.mem_cons_self, hy, ?_⟩
    -- The element is the one found, or comes behind it.
    rcases List.mem_append.mp ha with hbefore | hrest
    · rw [hnone a hbefore] at hfa
      cases hfa
    · rcases List.mem_cons.mp hrest with rfl | hbehind
      · exact .inl rfl
      · have hpair : [b, a].Sublist (b :: behind) := (List.singleton_sublist.mpr hbehind).cons_cons b
        exact .inr (hpair.trans (List.sublist_append_right before _))

namespace Device

structure Shows (d : Device σ) (o : OutputId) (id : LayerId) (l : Layer) (p : Plane) : Prop where
  layer : d.layer? id = some l
  output : l.output = o
  plane : p ∈ d.planes
  link : l.plane = some p.id

theorem Shows.mem_links {d : Device σ} {o : OutputId} {id : LayerId} {l : Layer} {p : Plane}
    (h : d.Shows o id l p) : (p.id, id) ∈ d.wiring.links o := by
  simp [Wiring.links, wiring, h.layer, Layer.place, h.output, h.link]

/-- A link shows a layer on a plane. -/
theorem WellFormed.exists_shows {d : Device σ} (hd : d.WellFormed) {o : OutputId} {q : UInt32}
    {id : LayerId} (h : (q, id) ∈ d.wiring.links o) : ∃ l p, d.Shows o id l p ∧ p.id = q := by
  obtain ⟨l, hl, hplace⟩ := Option.map_eq_some_iff.mp h
  obtain ⟨houtput, hplane⟩ := Prod.mk.inj hplace
  obtain ⟨p, hp, hq, -⟩ := hd.wiring.plane_of_layer id o q h
  exact ⟨l, p, ⟨hl, houtput, hp, by rw [hplane, hq]⟩, hq⟩

/-- A layer is on one plane only. -/
theorem Shows.plane_eq {d : Device σ} (hd : d.WellFormed) {o : OutputId} {id : LayerId}
    {l l' : Layer} {p p' : Plane} (h : d.Shows o id l p) (h' : d.Shows o id l' p') : p = p' := by
  have hl := Option.some.inj (h.layer.symm.trans h'.layer)
  have hq : some p.id = some p'.id := by rw [← h.link, hl, h'.link]
  exact hd.wiring.plane_eq h.plane h'.plane (Option.some.inj hq)

/-- Planes after one another in the list stand so in the stack too. -/
theorem WellFormed.zpos_le {d : Device σ} (hd : d.WellFormed) {p q : Plane}
    (hsub : [p, q].Sublist d.planes) (hp : p.isPrimary = false) : q.zpos ≤ p.zpos := by
  have hsorted := hd.wiring.sorted.sublist hsub
  obtain ⟨hprecede, -⟩ := List.pairwise_cons.mp hsorted
  rcases hprecede q List.mem_cons_self with hprimary | ⟨-, hle⟩
  · rw [hp] at hprimary
    cases hprimary
  · exact hle

def ShowsBetween (d : Device σ) (o : OutputId) (p q : Plane) (z : Int) : Prop :=
  ∃ id l r z', d.Shows o id l r ∧ r.isPrimary = false ∧ l.zpos? = some z' ∧ z' ≤ z ∧
    [p, r, q].Sublist d.planes

end Device

namespace Search

/-- What the rules say of a layer on a plane that is not primary. -/
theorem of_rejection?_eq_none {s : Scene} {path : Path} {p : Plane} {id : LayerId} {l : Layer}
    (hrule : s.rejection? path p id l = none) (hoverlay : p.isPrimary = false) :
    s.hasCompositedLayerOver path l = false ∧
      ∀ z, l.zpos? = some z → s.isNotBelowPlaced path p l z = false := by
  simp only [Scene.rejection?, Option.or_eq_none_iff, Option.bind_eq_none_iff] at hrule
  obtain ⟨hstacking, hrest⟩ := hrule
  constructor
  -- Had a composited layer been over it, the rule would have objected.
  · cases hover : s.hasCompositedLayerOver path l with
    | false => rfl
    | true => simp [hoverlay, hover] at hrest
  · intro z hz
    cases hbelow : s.isNotBelowPlaced path p l z with
    | false => rfl
    | true =>
      have hz := hstacking z hz
      split at hz
      · cases hz
      · cases hz

/-- What intersects a layer from above and is not on the path keeps it off overlays. -/
theorem hasCompositedLayerOver_of_intersects {s : Scene} {path : Path} {id : LayerId} {l l' : Layer}
    (mem : id ∈ s.output.layers) (fresh : path.holds id = false) (layer : s.layer? id = some l')
    {z z' : Int} (hz : l.zpos? = some z) (hz' : l'.zpos? = some z') (hlt : z < z')
    (hint : l.intersects l' = true) : s.hasCompositedLayerOver path l = true := by
  simp only [Scene.hasCompositedLayerOver, hz, Option.any_some]
  exact List.any_eq_true.mpr ⟨id, mem, by simp [fresh, layer, hz', hlt, hint]⟩

/-- Only the overlay decided on last is asked about. It must have hidden the one that `c` stands for,
if a layer below that one goes to a plane that is not below. -/
theorem exists_between {s : Scene} {path : Path} {p : Plane} {l l' : Layer} {c : Choice} {z z' : Int}
    (hrule : s.isNotBelowPlaced path p l z = false) (hc : c ∈ path)
    (hoverlay : c.plane.isPrimary = false) (hl' : s.chosen? c = some l') (hz' : l'.zpos? = some z')
    (hlt : z < z') (hint : l.intersects l' = true) (hle : c.plane.zpos ≤ p.zpos) :
    ∃ b zb, [b, c].Sublist path ∧ b.plane.isPrimary = false ∧ s.chosenZpos? b = some zb ∧
      zb ≤ z := by
  -- The earlier choice has all that the rule asks for, but for the last overlay.
  have hzc : s.chosenZpos? c = some z' := by simp [Scene.chosenZpos?, hl', hz']
  have hplaced : (s.placed path).any (fun q => decide (p.zpos ≥ q.1.zpos) && l.intersects q.2) =
      true := by
    refine List.any_eq_true.mpr ⟨(c.plane, l'), ?_, by simp [hle, hint]⟩
    exact List.mem_filterMap.mpr ⟨c, List.mem_filter.mpr ⟨hc, by simp [hoverlay]⟩, by simp [hl']⟩
  have hlast : s.lastOverlayZpos path ≤ z := by
    rw [Scene.isNotBelowPlaced, hplaced, Bool.and_true, decide_eq_false_iff_not] at hrule
    omega
  have hmem : c ∈ path.filter fun c => !c.plane.isPrimary :=
    List.mem_filter.mpr ⟨hc, by simp [hoverlay]⟩
  obtain ⟨b, zb, hfirst, hb, hzb, hplace⟩ :=
    exists_findSome? (f := s.chosenZpos?) hmem (Option.isSome_of_eq_some hzc)
  have hle : zb ≤ z := by simpa [Scene.lastOverlayZpos, hfirst] using hlast
  refine ⟨b, zb, ?_, by simpa using (List.mem_filter.mp hb).2, hzb, hle⟩
  rcases hplace with rfl | hsub
  -- The earlier choice itself is of a higher layer.
  · have := Option.some.inj (hzb.symm.trans hzc)
    omega
  · exact hsub.trans List.filter_sublist

/-- Choices on a path are in the order of the planes once it is reversed. -/
theorem sublist_reverse {path later earlier cs : Path} {c : Choice}
    (hpath : path = later ++ c :: earlier) (hcs : cs.Sublist earlier) :
    (cs.reverse ++ [c]).Sublist path.reverse := by
  rw [hpath, List.reverse_append, List.reverse_cons, List.append_assoc]
  exact (List.reverse_sublist.mpr hcs).append (List.singleton_sublist.mpr List.mem_cons_self)

end Search

namespace Allocation

open Device

/-- A choice on a path is where a layer is shown now, and the layer looks as it did in the search. -/
structure Puts (d : Device σ) (o : OutputId) (s : Search.Scene) (c : Search.Choice) (id : LayerId)
    (l : Layer) (p : Plane) : Prop where
  shows : d.Shows o id l p
  layer : c.layer = some id
  bare : c.plane.bare = p.bare
  seen : ∃ l', s.layer? id = some l' ∧ l'.look = l.look

namespace Puts

variable {d : Device σ} {o : OutputId} {s : Search.Scene} {c : Search.Choice} {id : LayerId}
  {l : Layer} {p : Plane} (h : Puts d o s c id l p)
include h

theorem kind : c.plane.isPrimary = p.isPrimary := (congrArg Plane.isPrimary h.bare :)

theorem zpos : c.plane.zpos = p.zpos := (congrArg Plane.zpos h.bare :)

end Puts

section Layouts

variable {d : Device σ} {o : OutputId} {s : Search.Scene} {path : Search.Path}
  (h : Layout d o s path) (hd : d.WellFormed)
include h hd

/-- Planes stand in the order in which the path visits them. -/
theorem Layout.sublist {cs : Search.Path} (hsub : cs.Sublist path.reverse) {ps : List Plane}
    (hps : ∀ p ∈ ps, p ∈ d.planes) (hbare : ps.map Plane.bare = cs.map fun c => c.plane.bare) :
    ps.Sublist d.planes := by
  have hmap := hsub.map fun c => c.plane.bare
  rw [h.planes, ← hbare] at hmap
  obtain ⟨ps', hps', heq⟩ := List.sublist_map_iff.mp hmap
  rwa [eq_of_map_eq heq fun p hp p' hp' he =>
    hd.wiring.plane_eq (hps p hp) (hps'.subset hp') (congrArg Plane.id he :)]

/-- The path knows a plane by its id. -/
theorem Layout.bare {c : Search.Choice} (hc : c ∈ path) {p : Plane} (hp : p ∈ d.planes)
    (hid : p.id = c.plane.id) : c.plane.bare = p.bare := by
  have hbare : c.plane.bare ∈ d.planes.map Plane.bare := by
    rw [← h.planes]
    exact List.mem_map_of_mem (List.mem_reverse.mpr hc)
  obtain ⟨p', hp', he⟩ := List.mem_map.mp hbare
  rw [← he, hd.wiring.plane_eq hp' hp ((congrArg Plane.id he).trans hid.symm)]

omit hd in
/-- The search saw the layers as they are now. -/
theorem Layout.seen {id : LayerId} {l : Layer} (hl : d.layer? id = some l) :
    ∃ l', s.layer? id = some l' ∧ l'.look = l.look := by
  have hlook := h.looks id
  rw [hl] at hlook
  exact Option.map_eq_some_iff.mp hlook

/-- The search knew the layers of the output. -/
theorem Layout.mem_output_iff {id : LayerId} {l : Layer} (hl : d.layer? id = some l) :
    id ∈ s.output.layers ↔ l.output = o := by
  obtain ⟨out, hout, hmembers⟩ := h.members
  have hlayers : (s.output.layers : Multiset LayerId) = out.layers := congrArg Prod.fst hmembers
  rw [← Multiset.mem_coe, hlayers, Multiset.mem_coe]
  exact listed_iff hd hout hl

/-- A layer that is shown was put on its plane by the path. -/
theorem Layout.choice {id : LayerId} {l : Layer} {p : Plane} (hshows : d.Shows o id l p) :
    ∃ c ∈ path, Puts d o s c id l p := by
  have hlink := hshows.mem_links
  rw [h.links] at hlink
  obtain ⟨c, hc, hq, hid⟩ := Search.mem_assignments.mp hlink
  exact ⟨c, hc, hshows, hid, h.bare hd hc hshows.plane hq.symm, h.seen hshows.layer⟩

/-- What the path puts on a plane is shown there. -/
theorem Layout.puts {c : Search.Choice} (hc : c ∈ path) {id : LayerId} (hid : c.layer = some id) :
    ∃ l p, Puts d o s c id l p := by
  have hlink : (c.plane.id, id) ∈ d.wiring.links o := by
    rw [h.links]
    exact Search.mem_assignments.mpr ⟨c, hc, rfl, hid⟩
  obtain ⟨l, p, hshows, hq⟩ := hd.exists_shows hlink
  exact ⟨l, p, hshows, hid, h.bare hd hc hshows.plane hq, h.seen hshows.layer⟩

/-- What the path chose in between is shown in between. -/
theorem Layout.shows_between {later earlier : Search.Path} {c c' b : Search.Choice}
    (hpath : path = later ++ c :: earlier) {x y : LayerId} {lx ly : Layer} {px py : Plane}
    (hx : Puts d o s c x lx px) (hy : Puts d o s c' y ly py) (hsub : [b, c'].Sublist earlier) {zb : Int}
    (hzb : s.chosenZpos? b = some zb) :
    ∃ z lz pz, Puts d o s b z lz pz ∧ lz.zpos? = some zb ∧ [py, pz, px].Sublist d.planes := by
  obtain ⟨lb, hlb, hzb⟩ := Option.bind_eq_some_iff.mp hzb
  obtain ⟨z, hbz, hlb⟩ := Option.bind_eq_some_iff.mp hlb
  -- The choice is on the path, since it comes before one that is.
  have hb : b ∈ path := by
    rw [hpath]
    exact List.mem_append_right later (List.mem_cons_of_mem c (hsub.subset List.mem_cons_self))
  obtain ⟨lz, pz, hz⟩ := h.puts hd hb hbz
  obtain ⟨lb₁, hlb₁, hlookz⟩ := hz.seen
  obtain rfl := Option.some.inj (hlb.symm.trans hlb₁)
  refine ⟨z, lz, pz, hz, (congrArg Prod.fst hlookz).symm.trans hzb, ?_⟩
  apply h.sublist hd (Search.sublist_reverse hpath hsub)
  -- All three planes are the device's, in the order of the path.
  · intro p hp
    simp only [List.mem_cons, List.not_mem_nil, or_false] at hp
    rcases hp with rfl | rfl | rfl
    · exact hy.shows.plane
    · exact hz.shows.plane
    · exact hx.shows.plane
  · simp [hx.bare, hy.bare, hz.bare]

section Below

variable {later earlier : Search.Path} {c : Search.Choice} (hpath : path = later ++ c :: earlier)
  {x : LayerId} {lx : Layer} {px : Plane} (hx : Puts d o s c x lx px)
  (hpx : px.isPrimary = false) {zx : Int} (hzx : lx.zpos? = some zx)
include hpath hx hpx

omit hd in
/-- The rules that a layer on an overlay was held to when it was put there. -/
theorem Layout.rules : ∃ lx', lx'.look = lx.look ∧ s.hasCompositedLayerOver earlier lx' = false ∧
    ∀ z, lx'.zpos? = some z → s.isNotBelowPlaced earlier c.plane lx' z = false := by
  obtain ⟨lx', hplaced⟩ := h.legal later c earlier x hpath hx.layer
  obtain ⟨lx₁, hlx₁, hlook⟩ := hx.seen
  obtain rfl := Option.some.inj (hplaced.layer.symm.trans hlx₁)
  exact ⟨lx', hlook, Search.of_rejection?_eq_none hplaced.rule (hx.kind.trans hpx)⟩

include hzx

/-- What intersects a layer on an overlay from above was put on its plane before. -/
theorem Layout.covered {y : LayerId} {ly : Layer} (hly : d.layer? y = some ly)
    (hyo : ly.output = o) {zy : Int} (hzy : ly.zpos? = some zy) (hlt : zx < zy)
    (hint : lx.intersects ly) : ∃ c' ∈ earlier, ∃ py, Puts d o s c' y ly py := by
  obtain ⟨lx', hlookx, hover, -⟩ := h.rules hpath hx hpx
  obtain ⟨ly', hly', hlooky⟩ := h.seen hly
  have hmem : y ∈ s.output.layers := (h.mem_output_iff hd hly).mpr hyo
  -- Otherwise it would have been left to composition over an overlay.
  have hholds : Search.Path.holds earlier y = true := by
    by_contra hfree
    have hzx' : lx'.zpos? = some zx := (congrArg Prod.fst hlookx).trans hzx
    have hzy' : ly'.zpos? = some zy := (congrArg Prod.fst hlooky).trans hzy
    have hint' : lx'.intersects ly' = true := (Layer.intersects_congr hlookx hlooky).trans hint
    have hany : s.hasCompositedLayerOver earlier lx' = true :=
      Search.hasCompositedLayerOver_of_intersects hmem (Bool.eq_false_iff.mpr hfree) hly' hzx' hzy' hlt
        hint'
    rw [hover] at hany
    cases hany
  -- So an earlier choice has put it on a plane.
  obtain ⟨c', hc', hy⟩ := List.any_eq_true.mp hholds
  have hc'path : c' ∈ path := by
    rw [hpath]
    exact List.mem_append_right later (List.mem_cons_of_mem c hc')
  obtain ⟨ly₁, py, hputs⟩ := h.puts hd hc'path (of_decide_eq_true hy)
  obtain rfl := Option.some.inj (hly.symm.trans hputs.shows.layer)
  exact ⟨c', hc', py, hputs⟩

/-- Two overlays that do not differ in position can only hold two intersecting layers in order if one
between them holds a layer that belongs no higher than the lower of the two. -/
theorem Layout.between {c' : Search.Choice} (hc' : c' ∈ earlier) {y : LayerId} {ly : Layer}
    {py : Plane} (hy : Puts d o s c' y ly py) (hpy : py.isPrimary = false) {zy : Int}
    (hzy : ly.zpos? = some zy) (hlt : zx < zy) (hint : lx.intersects ly) (hle : py.zpos ≤ px.zpos) :
    d.ShowsBetween o py px zx := by
  obtain ⟨lx', hlookx, -, hbelow⟩ := h.rules hpath hx hpx
  obtain ⟨ly', hly', hlooky⟩ := hy.seen
  have hchosen : s.chosen? c' = some ly' := by simp [Search.Scene.chosen?, hy.layer, hly']
  have hle' : c'.plane.zpos ≤ c.plane.zpos := by rwa [hx.zpos, hy.zpos]
  -- The rule asked only about the overlay decided on last, and that one hid `py`.
  obtain ⟨b, zb, hsub, hpb, hzb, hlez⟩ := Search.exists_between
    (hbelow zx ((congrArg Prod.fst hlookx).trans hzx)) hc' (hy.kind.trans hpy) hchosen
    ((congrArg Prod.fst hlooky).trans hzy) hlt
    ((Layer.intersects_congr hlookx hlooky).trans hint) hle'
  obtain ⟨z, lz, pz, hz, hzz, hplanes⟩ := h.shows_between hd hpath hx hy hsub hzb
  exact ⟨z, lz, pz, zb, hz.shows, hz.kind.symm.trans hpb, hzz, hlez, hplanes⟩

end Below

/-- A layer that intersects one on an overlay from above is on an earlier plane. If that is not above
the overlay, another one between them is to blame. -/
theorem Layout.shows_above {x : LayerId} {lx : Layer} {px : Plane} (hx : d.Shows o x lx px)
    (hpx : px.isPrimary = false) {zx : Int} (hzx : lx.zpos? = some zx) {y : LayerId}
    {ly : Layer} (hly : d.layer? y = some ly) (hyo : ly.output = o) {zy : Int}
    (hzy : ly.zpos? = some zy) (hlt : zx < zy) (hint : lx.intersects ly) :
    ∃ py, d.Shows o y ly py ∧ [py, px].Sublist d.planes ∧
      (py.isPrimary = false → py.zpos ≤ px.zpos → d.ShowsBetween o py px zx) := by
  -- The two choices, the later one for the lower layer.
  obtain ⟨c, hc, hx⟩ := h.choice hd hx
  obtain ⟨later, earlier, hpath⟩ := List.append_of_mem hc
  obtain ⟨c', hc', py, hy⟩ := h.covered hd hpath hx hpx hzx hly hyo hzy hlt hint
  refine ⟨py, hy.shows, ?_, fun hpy hle => h.between hd hpath hx hpx hzx hc' hy hpy hzy hlt hint hle⟩
  apply h.sublist hd (Search.sublist_reverse hpath (List.singleton_sublist.mpr hc'))
  · intro p hp
    rcases List.mem_pair.mp hp with rfl | rfl
    · exact hy.shows.plane
    · exact hx.shows.plane
  · simp [hx.bare, hy.bare]

end Layouts

variable [Kernel σ] {d : Device σ} {o : OutputId} {flags : CommitFlags} {options : ApplyOptions}
  {request : Request} {f : Frame σ}

/-- An apply that succeeds and has not kept the previous allocation has made a full search. -/
theorem searched_of_apply (hd : d.WellFormed)
    (hrun : Frame.apply o flags options ⟨d, request⟩ = .ok () f) {outcome : ReuseOutcome}
    (hsearch : f.device.session.decisions = (o, outcome) :: d.session.decisions)
    (hne : outcome ≠ .accepted) : Searched o d f.device := by
  have hspec := apply_spec (o := o) hd flags options request
  rw [ensures_of_eq_ok hrun] at hspec
  apply hspec.resolve_left
  intro hreused
  -- A kept allocation would have been told as one.
  have hdecision := hreused.reports.decisions.symm.trans hsearch
  simp only [List.cons_append, List.nil_append, List.cons.injEq, Prod.mk.injEq] at hdecision
  exact hne hdecision.1.2.symm

/-- What a full search shows, it shows where a path says. -/
theorem layout_of_shows (hd : d.WellFormed)
    (hrun : Frame.apply o flags options ⟨d, request⟩ = .ok () f) {outcome : ReuseOutcome}
    (hsearch : f.device.session.decisions = (o, outcome) :: d.session.decisions)
    (hne : outcome ≠ .accepted) {x : LayerId} {lx : Layer} {px : Plane}
    (hx : f.device.Shows o x lx px) :
    f.device.WellFormed ∧ ∃ s path, Layout f.device o s path := by
  have hsearched := searched_of_apply hd hrun hsearch hne
  refine ⟨hsearched.wellFormed, hsearched.layout.resolve_left fun hempty => ?_⟩
  -- A layer that is shown has a link.
  have hlink := hx.mem_links
  rw [hempty] at hlink
  exact hlink

/-- After a full search nothing that is composited belongs over an overlay. Whatever intersects the
layer there from above is shown too, on an earlier plane. -/
theorem shows_of_over_overlay (hd : d.WellFormed)
    (hrun : Frame.apply o flags options ⟨d, request⟩ = .ok () f) {outcome : ReuseOutcome}
    (hsearch : f.device.session.decisions = (o, outcome) :: d.session.decisions)
    (hne : outcome ≠ .accepted) {x y : LayerId} {lx ly : Layer} {px : Plane} {zx zy : Int}
    (hx : f.device.Shows o x lx px) (hpx : px.isPrimary = false) (hzx : lx.zpos? = some zx)
    (hly : f.device.layer? y = some ly) (hyo : ly.output = o) (hzy : ly.zpos? = some zy)
    (hlt : zx < zy) (hint : lx.intersects ly) :
    ∃ py, f.device.Shows o y ly py ∧ [py, px].Sublist f.device.planes := by
  obtain ⟨hd', s, path, hlayout⟩ := layout_of_shows hd hrun hsearch hne hx
  obtain ⟨py, hy, hsub, -⟩ := hlayout.shows_above hd' hx hpx hzx hly hyo hzy hlt hint
  exact ⟨py, hy, hsub⟩

/-- In the small device the two layers that intersect are on overlays of one position. -/
theorem exists_overlap_threeShown : ∃ lx ly px py,
    threeShown.Shows .first ⟨⟨1, 0⟩⟩ lx px ∧ px.isPrimary = false ∧ lx.zpos? = some 2 ∧
    threeShown.Shows .first ⟨⟨0, 0⟩⟩ ly py ∧ py.isPrimary = false ∧ ly.zpos? = some 3 ∧
    lx.intersects ly ∧ px.zpos = py.zpos := by
  have hd := reachable_threeShown.wellFormed
  have hplanes : ∀ p ∈ threeShown.planes, p.isPrimary = false ∧ p.zpos = 1 := by decide +kernel
  have hlooks : (threeShown.layer? ⟨⟨1, 0⟩⟩).bind Layer.zpos? = some 2 ∧
      (threeShown.layer? ⟨⟨0, 0⟩⟩).bind Layer.zpos? = some 3 ∧
      ((threeShown.layer? ⟨⟨1, 0⟩⟩).bind fun lx =>
        (threeShown.layer? ⟨⟨0, 0⟩⟩).map lx.intersects) = some true := by decide +kernel
  have hlinks : (10, ⟨⟨1, 0⟩⟩) ∈ threeShown.wiring.links .first ∧
      (12, ⟨⟨0, 0⟩⟩) ∈ threeShown.wiring.links .first := by decide +kernel
  obtain ⟨lx, px, hx, -⟩ := hd.exists_shows hlinks.1
  obtain ⟨ly, py, hy, -⟩ := hd.exists_shows hlinks.2
  -- What the two layers look like is evaluated, and so is where they are.
  simp only [hx.layer, hy.layer, Option.bind_some, Option.map_some] at hlooks
  obtain ⟨hzx, hzy, hint⟩ := hlooks
  obtain ⟨hpx, hzpos⟩ := hplanes px hx.plane
  obtain ⟨hpy, hzpos'⟩ := hplanes py hy.plane
  exact ⟨lx, ly, px, py, hx, hpx, hzx, hy, hpy, hzy, Option.some.inj hint, hzpos.trans hzpos'.symm⟩

/-- The layer on top is on the overlay that comes first. -/
theorem shows_of_over_overlay_threeShown : ∃ lx ly px py,
    threeShown.Shows .first ⟨⟨1, 0⟩⟩ lx px ∧ threeShown.Shows .first ⟨⟨0, 0⟩⟩ ly py ∧
      [py, px].Sublist threeShown.planes := by
  obtain ⟨f, hrun, hf⟩ := apply_threeLayers
  obtain ⟨lx, ly, px, py, hx, hpx, hzx, hy, -, hzy, hint, -⟩ := exists_overlap_threeShown
  rw [← hf] at hx hy
  obtain ⟨py', hy', hsub⟩ := shows_of_over_overlay reachable_threeLayers.wellFormed hrun
    (hf ▸ decisions_threeShown) (by decide) hx hpx hzx hy.layer hy.output hzy (by decide) hint
  rw [hf] at hx hy' hsub
  exact ⟨lx, ly, px, py', hx, hy', hsub⟩

/-- After a full search the overlays of two layers that intersect are in order. They are never the
wrong way round, and they share a position only with another overlay between them, whose layer does
not belong over the lower of the two. -/
theorem zpos_lt_iff_of_overlays (hd : d.WellFormed)
    (hrun : Frame.apply o flags options ⟨d, request⟩ = .ok () f) {outcome : ReuseOutcome}
    (hsearch : f.device.session.decisions = (o, outcome) :: d.session.decisions)
    (hne : outcome ≠ .accepted) {x y : LayerId} {lx ly : Layer} {px py : Plane} {zx zy : Int}
    (hx : f.device.Shows o x lx px) (hpx : px.isPrimary = false) (hzx : lx.zpos? = some zx)
    (hy : f.device.Shows o y ly py) (hpy : py.isPrimary = false) (hzy : ly.zpos? = some zy)
    (hlt : zx < zy) (hint : lx.intersects ly) :
    [py, px].Sublist f.device.planes ∧ px.zpos ≤ py.zpos ∧
      (px.zpos < py.zpos ↔ ¬ (px.zpos = py.zpos ∧ f.device.ShowsBetween o py px zx)) := by
  obtain ⟨hd', s, path, hlayout⟩ := layout_of_shows hd hrun hsearch hne hx
  obtain ⟨py', hy', hsub, hbetween⟩ :=
    hlayout.shows_above hd' hx hpx hzx hy.layer hy.output hzy hlt hint
  obtain rfl := hy'.plane_eq hd' hy
  have hle := hd'.zpos_le hsub hpy
  refine ⟨hsub, hle, fun hlt' h => hlt'.ne h.1, fun hnot => ?_⟩
  -- The zpos could only be equal, and that is the exception.
  by_contra hge
  have heq : px.zpos = py'.zpos := by omega
  exact hnot ⟨heq, hbetween hpy heq.ge⟩

/-- Two overlays of one position show layers that intersect, and a third one is between them. -/
theorem showsBetween_threeShown : ∃ lx ly px py,
    threeShown.Shows .first ⟨⟨1, 0⟩⟩ lx px ∧ threeShown.Shows .first ⟨⟨0, 0⟩⟩ ly py ∧
      lx.intersects ly ∧ px.zpos = py.zpos ∧ threeShown.ShowsBetween .first py px 2 := by
  obtain ⟨f, hrun, hf⟩ := apply_threeLayers
  obtain ⟨lx, ly, px, py, hx, hpx, hzx, hy, hpy, hzy, hint, hzpos⟩ := exists_overlap_threeShown
  rw [← hf] at hx hy
  obtain ⟨-, -, hiff⟩ := zpos_lt_iff_of_overlays reachable_threeLayers.wellFormed hrun
    (hf ▸ decisions_threeShown) (by decide) hx hpx hzx hy hpy hzy (by decide) hint
  have hbetween := not_not.mp (mt hiff.mpr hzpos.not_lt)
  rw [hf] at hx hy hbetween
  exact ⟨lx, ly, px, py, hx, hy, hint, hzpos, hbetween.2⟩

/-- Layers that intersect may be stacked on overlays whose order is not defined. -/
theorem not_forall_zpos_lt_of_overlays :
    ¬ ∀ (d : Device Scripted) (o : OutputId) (f : Frame Scripted) (outcome : ReuseOutcome)
      (x y : LayerId) (lx ly : Layer) (px py : Plane) (zx zy : Int), d.Reachable →
      Frame.apply o {} {} ⟨d, {}⟩ = .ok () f →
      f.device.session.decisions = (o, outcome) :: d.session.decisions → outcome ≠ .accepted →
      f.device.Shows o x lx px → px.isPrimary = false → lx.zpos? = some zx →
      f.device.Shows o y ly py → py.isPrimary = false → ly.zpos? = some zy →
      zx < zy → lx.intersects ly → px.zpos < py.zpos := by
  intro h
  obtain ⟨f, hrun, hf⟩ := apply_threeLayers
  obtain ⟨lx, ly, px, py, hx, hpx, hzx, hy, hpy, hzy, hint, hzpos⟩ := exists_overlap_threeShown
  have hlt := h threeLayers .first f (.skipped .layersChanged) _ _ lx ly px py 2 3
    reachable_threeLayers hrun (hf ▸ decisions_threeShown) (by decide) (hf ▸ hx) hpx hzx (hf ▸ hy)
    hpy hzy (by decide) hint
  -- The zpos are equal, which the claim excludes.
  exact hzpos.not_lt hlt

end Allocation

end Scanout
