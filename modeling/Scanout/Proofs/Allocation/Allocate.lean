import Scanout.Proofs.Allocation.Clear
import Scanout.Proofs.Search.Upkeep

namespace Scanout

variable {σ : Type}

def Plane.bare (p : Plane) : Plane := { p with layer := none }

namespace Wiring

/-- A layer without a plane on a plane without a layer is one more link, and no link goes. -/
theorem mem_links_link {w : Wiring} {q : UInt32} {id : LayerId} {o : OutputId}
    (hq : ∀ id' o', w.layers id' ≠ some (o', some q)) (hid : w.layers id = some (o, none))
    (o' : OutputId) (x : UInt32 × LayerId) :
    x ∈ (w.link q id).links o' ↔ x ∈ w.links o' ∨ o' = o ∧ x = (q, id) := by
  obtain ⟨q', id'⟩ := x
  simp only [links, link, Set.mem_ofPred_eq, Prod.mk.injEq]
  by_cases he : id' = id
  · subst he
    simp only [hid, ↓reduceIte, Option.map_some, Option.some.injEq, Prod.mk.injEq, and_true,
      reduceCtorEq, and_false, false_or]
    rw [eq_comm, @eq_comm _ q]
  · cases hl : w.layers id' with
    | none => simp [he]
    | some l =>
      have hne : l.2 ≠ some q := fun h => hq id' l.1 (by rw [hl, ← h])
      simp [he, hne]

def linkAll (w : Wiring) (links : List (UInt32 × LayerId)) : Wiring :=
  links.foldl (fun w x => w.link x.1 x.2) w

/-- If neither planes nor layers are taken, all of the links are made and none is lost. -/
theorem mem_links_linkAll {w : Wiring} {links : List (UInt32 × LayerId)} {o : OutputId}
    (hplanes : (links.map Prod.fst).Nodup) (hlayers : (links.map Prod.snd).Nodup)
    (hfree : ∀ x ∈ links, ∀ id o', w.layers id ≠ some (o', some x.1))
    (hopen : ∀ x ∈ links, w.layers x.2 = some (o, none)) (o' : OutputId) (x : UInt32 × LayerId) :
    x ∈ (w.linkAll links).links o' ↔ x ∈ w.links o' ∨ o' = o ∧ x ∈ links := by
  induction links generalizing w with
  | nil => simp [linkAll]
  | cons y links ih =>
    obtain ⟨hy1, hplanes⟩ := List.nodup_cons.mp hplanes
    obtain ⟨hy2, hlayers⟩ := List.nodup_cons.mp hlayers
    -- The first link takes neither a plane nor a layer that the others need.
    have hfree' : ∀ x ∈ links, ∀ id o', (w.link y.1 y.2).layers id ≠ some (o', some x.1) := by
      intro x hx id o' h
      have hne : x.1 ≠ y.1 := fun he => hy1 (List.mem_map.mpr ⟨x, hx, he⟩)
      have hmem : (x.1, id) ∈ (w.link y.1 y.2).links o' := h
      rw [mem_links_link (hfree y List.mem_cons_self) (hopen y List.mem_cons_self)] at hmem
      rcases hmem with hmem | ⟨-, he⟩
      · exact hfree x (List.mem_cons_of_mem y hx) id o' hmem
      · exact hne (Prod.mk.inj he).1
    have hopen' : ∀ x ∈ links, (w.link y.1 y.2).layers x.2 = some (o, none) := by
      intro x hx
      have hne : x.2 ≠ y.2 := fun he => hy2 (List.mem_map.mpr ⟨x, hx, he⟩)
      simp [link, hopen x (List.mem_cons_of_mem y hx), hne]
    have hrest := ih hplanes hlayers hfree' hopen'
    rw [show w.linkAll (y :: links) = (w.link y.1 y.2).linkAll links from rfl, hrest,
      mem_links_link (hfree y List.mem_cons_self) (hopen y List.mem_cons_self), List.mem_cons,
      or_assoc, ← and_or_left]

end Wiring

namespace Device

/-- What the stacking rules look at, apart from the links: the planes, the members of the outputs, and
what can be seen of the layers. -/
structure Scenery where
  hardware : List Plane
  members : OutputId → Option (Multiset LayerId × Option LayerId)
  looks : LayerId → Option (Option Int × Bool × Rect)

def scenery (d : Device σ) : Scenery where
  hardware := d.planes.map Plane.bare
  members := d.wiring.outputs
  looks id := (d.layer? id).map Layer.look

structure SameScene (d d' : Device σ) : Prop where
  scenery : d'.scenery = d.scenery
  changed : ∀ o, (d'.output? o).map Output.layersChanged = (d.output? o).map Output.layersChanged
  reports : Session.Reports [] d.session d'.session

instance : IsPreorder (Device σ) SameScene where
  refl _ := ⟨rfl, fun _ => rfl, refl_of (Session.Reports []) _⟩
  trans _ _ _ h h' :=
    ⟨h'.scenery.trans h.scenery, fun o => (h'.changed o).trans (h.changed o),
      trans_of (Session.Reports []) h.reports h'.reports⟩

variable {d d' : Device σ}

theorem plane_of_scenery (h : d'.scenery = d.scenery) {p : Plane} (hp : p ∈ d.planes) :
    ∃ p' ∈ d'.planes, p'.bare = p.bare := by
  have hmem : p.bare ∈ d'.planes.map Plane.bare := by
    rw [show d'.planes.map Plane.bare = d.planes.map Plane.bare from congrArg Scenery.hardware h]
    exact List.mem_map_of_mem hp
  exact List.mem_map.mp hmem

theorem look_of_scenery (h : d'.scenery = d.scenery) (id : LayerId) :
    (d'.layer? id).map Layer.look = (d.layer? id).map Layer.look :=
  congrFun (congrArg Scenery.looks h) id

theorem Keeps.scenery (h : Keeps d d') : d'.scenery = d.scenery := by
  have hplanes : d'.planes = d.planes := congrArg Wiring.planes h.wiring
  simp only [Device.scenery, hplanes, h.wiring, h.looks]

theorem Quiet.sameScene (h : Quiet d d') : SameScene d d' :=
  ⟨h.scenery, h.changed, h.reports⟩

theorem SameScene.layersChanged (h : SameScene d d') (o : OutputId) :
    d'.LayersChanged o ↔ d.LayersChanged o := layersChanged_congr (h.changed o)

/-- What is cleared is only what no stacking rule reads. -/
theorem sameScene_cleared (d : Device σ) (o : OutputId) : SameScene d (d.cleared o) where
  scenery := by
    simp only [scenery, Scenery.mk.injEq]
    refine ⟨?_, rfl, funext fun id => ?_⟩
    · simp only [cleared, List.map_map]
      apply List.map_congr_left
      intro p _
      simp only [Function.comp]
      split <;> rfl
    · rw [layer?_cleared, Option.map_map]
      apply Option.map_congr
      intro l _
      simp only [Function.comp]
      split <;> rfl
  changed _ := rfl
  reports := refl_of (Session.Reports []) _

theorem session_link (d : Device σ) (q : UInt32) (id : LayerId) :
    (d.link q id).session = d.session := by
  cases hprev : ((d.unlink q).layer? id).bind Layer.plane <;>
    simp [link, hprev, withPlane, withLayer, session_unlink]

/-- A link shows in no scenery. -/
theorem sameScene_link (hd : d.WellFormed) {q : UInt32} {id : LayerId}
    (hid : (d.layer? id).isSome) : SameScene d (d.link q id) where
  scenery := by
    simp only [scenery, Scenery.mk.injEq]
    -- A link moves nothing but the plane of a layer and the layer of a plane, which no rule reads.
    refine ⟨?_, by rw [wiring_link hd.wiring hid]; rfl, funext fun id' => ?_⟩
    · rw [planes_link hd.wiring hid, List.map_map]
      apply List.map_congr_left
      intro p _
      simp only [Function.comp]
      split
      · rfl
      · split <;> rfl
    · rw [layer?_link hd.wiring, Option.map_map]
      apply Option.map_congr
      intro l _
      simp only [Function.comp]
      split
      · rfl
      · split <;> rfl
  changed o := by simp only [output?, outputs_link]
  reports := by
    rw [session_link]
    exact refl_of (Session.Reports []) _

end Device

namespace Search

section Assignments

variable {s : Scene} {passes : Request → Prop} {entry : Request} {planes : List Plane} {path : Path}

theorem mem_assignments {path : Path} {x : UInt32 × LayerId} :
    x ∈ Allocation.assignments path ↔
      ∃ c ∈ path, c.plane.id = x.1 ∧ c.layer = some x.2 := by
  simp only [Allocation.assignments, List.mem_filterMap, List.mem_reverse, Option.map_eq_some_iff]
  constructor
  · rintro ⟨c, hc, id, hid, rfl⟩
    exact ⟨c, hc, rfl, hid⟩
  · rintro ⟨c, hc, hq, hid⟩
    exact ⟨c, hc, x.2, hid, by rw [hq]⟩

/-- Every plane is visited once, so none is given two layers. -/
theorem Feasible.planes_nodup (h : Feasible s passes entry planes path)
    (hids : (planes.map Plane.id).Nodup) : ((Allocation.assignments path).map Prod.fst).Nodup := by
  -- Layers are at most on the planes that were visited, in the same order.
  have hsub : ∀ cs : List Choice,
      ((cs.filterMap fun c => c.layer.map fun id => (c.plane.id, id)).map Prod.fst).Sublist
        ((cs.map Choice.plane).map Plane.id) := by
    intro cs
    induction cs with
    | nil => exact List.Sublist.refl _
    | cons c cs ih =>
      cases hc : c.layer with
      | none => simpa [hc] using ih.cons c.plane.id
      | some id => simpa [hc] using ih.cons_cons c.plane.id
  rw [← h.visits] at hids
  exact hids.sublist (hsub path.reverse)

theorem Legal.tail {c : Choice} (h : Legal s (c :: path)) : Legal s path := by
  intro later c' earlier id he
  exact h (c :: later) c' earlier id (by rw [he, List.cons_append])

/-- No layer stands twice on a path. -/
theorem Legal.nodup (h : Legal s path) : (path.filterMap Choice.layer).Nodup := by
  induction path with
  | nil => exact List.nodup_nil
  | cons c path ih =>
    cases hc : c.layer with
    | none => simpa [hc] using ih h.tail
    | some id =>
      obtain ⟨l, hplaced⟩ := h [] c path id rfl hc
      -- The rules allowed the layer only because the path did not hold it.
      have hnew : id ∉ path.filterMap Choice.layer := by
        intro hmem
        obtain ⟨c', hc', he⟩ := List.mem_filterMap.mp hmem
        have hholds : Path.holds path id = true := List.any_eq_true.mpr ⟨c', hc', decide_eq_true he⟩
        rw [hplaced.fresh] at hholds
        cases hholds
      rw [List.filterMap_cons_some hc]
      exact List.nodup_cons.mpr ⟨hnew, ih h.tail⟩

/-- No layer is given two planes. -/
theorem Legal.layers_nodup (h : Legal s path) :
    ((Allocation.assignments path).map Prod.snd).Nodup := by
  have hmap : (Allocation.assignments path).map Prod.snd = (path.filterMap Choice.layer).reverse := by
    simp only [Allocation.assignments, List.map_filterMap, ← List.filterMap_reverse]
    refine congrArg (List.filterMap · path.reverse) (funext fun c => ?_)
    cases c.layer <;> rfl
  rw [hmap]
  exact List.nodup_reverse.mpr h.nodup

end Assignments

end Search

namespace Allocation

open Device

variable {d : Device σ}

/-- To assign a layer is to link it and to say so. -/
theorem assign_spec (hd : d.WellFormed) {o : OutputId} {q : UInt32} {id : LayerId}
    (hq : ∃ p ∈ d.planes, p.id = q) (hid : (d.layer? id).isSome) :
    Ensures (assign o q id) d
      (fun _ d' => d'.WellFormed ∧ d'.wiring = d.wiring.link q id ∧ SameScene d d' ∧
        d'.session.kernel = d.session.kernel)
      (fun _ _ => False) := by
  simp only [assign, ensures_bind, ensures_setLink_some hid]
  -- Both sides of the link are written before anything is told.
  have hlink := wellFormed_link hd hq hid
  have hscene := sameScene_link hd (q := q) hid
  refine ⟨hlink.of_talks ⟨_, rfl⟩, wiring_link hd.wiring hid, trans_of SameScene hscene ?_, ?_⟩
  · exact (quiet_session ⟨[.assignment o q id], rfl, rfl⟩).sameScene
  · exact (congrArg Session.kernel (session_link d q id) :)

/-- Nothing keeps a search from linking what it has found, as long as its planes and layers are there. -/
theorem assignAll_spec (hd : d.WellFormed) {o : OutputId} {links : List (UInt32 × LayerId)}
    (hlinks : ∀ x ∈ links, (∃ p ∈ d.planes, p.id = x.1) ∧ (d.layer? x.2).isSome) :
    Ensures (links.forM fun (q, id) => assign o q id) d
      (fun _ d' => d'.WellFormed ∧ d'.wiring = d.wiring.linkAll links ∧ SameScene d d' ∧
        d'.session.kernel = d.session.kernel)
      (fun _ _ => False) := by
  -- What is linked first stays in the wiring, so the later planes and layers are still there.
  induction links generalizing d with
  | nil => exact ⟨hd, rfl, refl_of SameScene d, rfl⟩
  | cons x links ih =>
    rw [ensures_forM_cons]
    obtain ⟨hq, hid⟩ := hlinks x List.mem_cons_self
    refine (assign_spec hd hq hid).mono ?_ fun _ _ => False.elim
    rintro - d1 ⟨hd1, hwiring1, hscene1, hkernel1⟩
    refine (ih hd1 fun y hy => ?_).mono ?_ fun _ _ => False.elim
    -- The rest of the links is about planes and layers that the first link has not touched.
    · obtain ⟨⟨p, hp, hpq⟩, hyid⟩ := hlinks y (List.mem_cons_of_mem x hy)
      constructor
      · obtain ⟨p', hp', he⟩ := plane_of_scenery hscene1.scenery hp
        exact ⟨p', hp', (congrArg Plane.id he).trans hpq⟩
      · rw [← Option.isSome_map, look_of_scenery hscene1.scenery y.2, Option.isSome_map]
        exact hyid
    · rintro - d2 ⟨hd2, hwiring2, hscene2, hkernel2⟩
      refine ⟨hd2, ?_, trans_of SameScene hscene1 hscene2, hkernel2.trans hkernel1⟩
      rw [hwiring2, hwiring1]
      rfl

def connect (o : OutputId) (free : Nat) (found : Option Search.Best × List (LayerId × UInt32)) :
    DeviceM σ Unit := do
  found.2.forM fun (id, plane) => editLayer id fun l => .ok (l.addCandidatePlane plane)
  let tests := (← get).session.testCommits
  log .debug (.allocationFound o (found.1.map Search.Best.score) free tests)
  let links := (found.1.map fun b => assignments b.path).getD []
  links.forM fun (plane, id) => assign o plane id
  if links.isEmpty then log .debug .noLayerPlaced

/-- What follows a search adds its links to the wiring, and changes nothing else that a rule reads. -/
theorem connect_spec (hd : d.WellFormed) {o : OutputId} {free : Nat}
    {found : Option Search.Best × List (LayerId × UInt32)}
    (hhints : ∀ h ∈ found.2, (d.layer? h.1).isSome)
    (hlinks : ∀ x ∈ (found.1.map fun b => assignments b.path).getD [],
      (∃ p ∈ d.planes, p.id = x.1) ∧ (d.layer? x.2).isSome) :
    Ensures (connect o free found) d
      (fun _ d' => d'.WellFormed ∧
        d'.wiring = d.wiring.linkAll ((found.1.map fun b => assignments b.path).getD []) ∧
        SameScene d d' ∧ d'.session.kernel = d.session.kernel)
      (fun _ _ => False) := by
  unfold connect
  obtain ⟨best, hints⟩ := found
  dsimp only at hhints hlinks ⊢
  generalize (best.map fun b => assignments b.path).getD [] = links at hlinks ⊢
  -- Three things come before the links and between them: hints, a message, and the links' own events.
  have hlog : ∀ (d1 : Device σ) note, Ensures (log .debug note) d1
      (fun _ d2 => Quiet d1 d2 ∧ d2.session.kernel = d1.session.kernel) (fun _ _ => False) :=
    fun d1 note => ⟨quiet_session ⟨[_], rfl, rfl⟩, rfl⟩
  have hhint : Ensures (hints.forM fun x => editLayer x.1 fun l => .ok (l.addCandidatePlane x.2)) d
      (fun _ d1 => Quiet d d1 ∧ d1.session.kernel = d.session.kernel) (fun _ _ => False) := by
    refine ensures_forM (fun x hx d1 h1 => ?_) ⟨refl_of Quiet d, rfl⟩
    simp only [editLayer, ensures_bind, ensures_layer, ensures_modify]
    refine ⟨fun l hl => ⟨trans_of Quiet h1.1 (quiet_withLayer ?_ ?_), h1.2⟩, fun hnone => ?_⟩
    · intro l' hl'
      obtain rfl := Option.some.inj (hl.symm.trans hl')
      exact l.place_addCandidatePlane x.2
    · intro l' hl'
      obtain rfl := Option.some.inj (hl.symm.trans hl')
      exact l.look_addCandidatePlane x.2
    · -- Hints only change what no look shows, so the layer is there until the last of them.
      have hlive := hhints x hx
      rw [← Option.isSome_map, ← h1.1.looks, hnone] at hlive
      cases hlive
  simp only [ensures_bind, ensures_get]
  refine hhint.mono (fun _ d1 h1 => ?_) fun _ _ h => h
  refine (hlog d1 _).mono (fun _ d2 h2 => ?_) fun _ _ h => h
  have hkernel2 := h2.2.trans h1.2
  have h2 : Quiet d d2 := trans_of Quiet h1.1 h2.1
  -- Planes and layers are found again after the messages.
  have hlinks2 : ∀ x ∈ links, (∃ p ∈ d2.planes, p.id = x.1) ∧ (d2.layer? x.2).isSome := by
    intro x hx
    have hplanes : d2.planes = d.planes := congrArg Wiring.planes h2.wiring
    rw [hplanes, ← Option.isSome_map, h2.looks, Option.isSome_map]
    exact hlinks x hx
  refine (assignAll_spec (h2.wellFormed hd) hlinks2).mono ?_ fun _ _ h => h
  rintro - d3 ⟨hd3, hwiring3, hscene3, hkernel3⟩
  rw [h2.wiring] at hwiring3
  have hscene3 := trans_of SameScene h2.sameScene hscene3
  have hkernel3 := hkernel3.trans hkernel2
  -- The last message depends on whether anything was placed.
  split
  · refine (hlog d3 _).mono ?_ fun _ _ h => h
    rintro - d4 ⟨h4, hkernel4⟩
    exact ⟨h4.wellFormed hd3, h4.wiring.trans hwiring3, trans_of SameScene hscene3 h4.sameScene,
      hkernel4.trans hkernel3⟩
  · exact ⟨hd3, hwiring3, hscene3, hkernel3⟩

variable [Kernel σ]

def sceneOf (d : Device σ) (out : Output) (flags : CommitFlags) (options : ApplyOptions)
    (started : HostTime) : Search.Scene :=
  { layers := d.layers, output := out, flags, started
    timeout := (Kernel.timebase d.session.kernel).duration (options.searchTime d.config) }

/-- Of the driver a search reads the rate of its clock only. -/
theorem sceneOf_session {session : Session σ} (h : session.kernel = d.session.kernel) (out : Output)
    (flags : CommitFlags) (options : ApplyOptions) (started : HostTime) :
    sceneOf { d with session } out flags options started = sceneOf d out flags options started := by
  simp only [sceneOf, h]

theorem search_of_output {o : OutputId} {out : Output} (hout : d.output? o = some out)
    (flags : CommitFlags) (options : ApplyOptions) (started : HostTime) (entry : Request) :
    search o flags options started ⟨d, entry⟩ =
      match Search.choose (sceneOf d out flags options started) d.planes []
        ⟨d.session, entry, none, []⟩ with
      | .ok _ st => .ok (st.best, st.hints.reverse) ⟨{ d with session := st.session }, st.request⟩
      | .error e st => .error e ⟨{ d with session := st.session }, st.request⟩ := by
  simp only [search, hout]
  rfl

theorem search_of_choose {o : OutputId} {out : Output} (hout : d.output? o = some out)
    {flags : CommitFlags} {options : ApplyOptions} {started : HostTime} {entry : Request}
    {st : Search.State σ} (h : Search.choose (sceneOf d out flags options started) d.planes []
      ⟨d.session, entry, none, []⟩ = .ok () st) :
    search o flags options started ⟨d, entry⟩ =
      .ok (st.best, st.hints.reverse) ⟨{ d with session := st.session }, st.request⟩ := by
  rw [search_of_output hout, h]

theorem search_spec {K : Session σ → Prop} {noted : σ → Request → Prop} {passes : Request → Prop}
    {E : σ → Failure → Prop} {steady : Prop} {o : OutputId} {out : Output}
    (hout : d.output? o = some out) (flags : CommitFlags) (options : ApplyOptions)
    (started : HostTime)
    (hs : Search.Setting (sceneOf d out flags options started) K noted passes E steady)
    (hK : K d.session) (entry : Request) :
    Ensures (search o flags options started) ⟨d, entry⟩
      (fun found f' => f'.request = entry ∧ (∃ session, f'.device = { d with session } ∧ K session) ∧
        (∀ b, found.1 = some b → b.score = (sceneOf d out flags options started).score b.path ∧
          Search.Feasible (sceneOf d out flags options started) (noted f'.device.session.kernel)
            entry d.planes b.path) ∧
        (∀ h ∈ found.2, (d.layer? h.1).isSome) ∧
        (steady → ∀ path,
          Search.Feasible (sceneOf d out flags options started) passes entry d.planes path →
          Search.Reaches found.1 ((sceneOf d out flags options started).score path)))
      (fun e f' => ∃ session, f'.device = { d with session } ∧ K session ∧ E session.kernel e) := by
  -- The search starts on the empty path, with nothing found and nothing written.
  have hstart : Search.Sound (sceneOf d out flags options started) K noted entry d.planes [] [] entry
      ⟨d.session, entry, none, []⟩ := ⟨hK, rfl, .done, by simp, by simp⟩
  have h := Search.choose_spec hs (List.nil_append d.planes) hstart
  unfold Ensures at h ⊢
  rw [search_of_output hout]
  cases hrun : Search.choose (sceneOf d out flags options started) d.planes []
      ⟨d.session, entry, none, []⟩ with
  | ok a st =>
    rw [hrun] at h
    obtain ⟨hsound, hprogress⟩ := h
    refine ⟨hsound.request, ⟨st.session, rfl, hsound.session⟩, hsound.best, fun x hx => ?_, ?_⟩
    -- The candidates of layers were noted in reverse order of discovery.
    · exact hsound.hints x (List.mem_reverse.mp hx)
    · exact fun hsteady path hpath => hprogress.improves.covers hsteady path hpath.walk hpath.valid
  | error e st =>
    rw [hrun] at h
    exact ⟨st.session, rfl, h.1, h.2⟩

/-- What each step of a search keeps up holds of the session that it leaves and of its answer. -/
theorem search_upholds {I : Search.Path → Session σ → Option Search.Best → Prop} {E : Session σ → Prop}
    {o : OutputId} {out : Output} (hout : d.output? o = some out) {flags : CommitFlags}
    {options : ApplyOptions} {started : HostTime}
    (h : Search.Upkeep (sceneOf d out flags options started) I E) (hI : I [] d.session none)
    (entry : Request) :
    Ensures (search o flags options started) ⟨d, entry⟩ (fun found f' => I [] f'.device.session found.1)
      (fun _ f' => E f'.device.session) := by
  -- The search itself knows neither frame nor request of the caller.
  have hchoose := Search.upholds_choose h d.planes [] ⟨d.session, entry, none, []⟩ hI
  unfold Ensures at hchoose ⊢
  rw [search_of_output hout]
  cases hrun : Search.choose (sceneOf d out flags options started) d.planes []
      ⟨d.session, entry, none, []⟩ with
  | ok _ st =>
    rw [hrun] at hchoose
    exact hchoose
  | error e st =>
    rw [hrun] at hchoose
    exact hchoose

def disables (d : Device σ) : Staging Failure Unit :=
  ((d.planes.filter fun p => p.layer.isNone).forM Plane.stageDisabled).adaptExcept .error

structure Spares (d : Device σ) (o : OutputId) (d' : Device σ) : Prop where
  wellFormed : d'.WellFormed
  scene : SameScene d d'
  others : ∀ o' ≠ o, d'.wiring.links o' = d.wiring.links o'

/-- What a full search on `d` leaves once it has found its best allocation, if there is one. -/
structure Allocated (d : Device σ) (o : OutputId) (s : Search.Scene) (noted : σ → Request → Prop)
    (passes : Request → Prop) (entry : Request) (steady : Prop) (best : Option Search.Best)
    (d' : Device σ) : Prop extends Spares d o d' where
  links : ∀ x, x ∈ d'.wiring.links o ↔ ∃ b, best = some b ∧ x ∈ assignments b.path
  feasible : ∀ b, best = some b → b.score = s.score b.path ∧
    Search.Feasible s (noted d'.session.kernel) entry (d.cleared o).planes b.path
  optimal : steady → ∀ path, Search.Feasible s passes entry (d.cleared o).planes path →
    Search.Reaches best (s.score path)

omit [Kernel σ] in
/-- What a search gives an output can be linked: the planes are free and the layers are its own. -/
theorem linkable {s : Search.Scene} {passes : Request → Prop} {entry : Request} {path : Search.Path}
    (hd : d.WellFormed) {o : OutputId} {out : Output} (hout : d.output? o = some out)
    (hmembers : s.output = out)
    (h : Search.Feasible s passes entry (d.cleared o).planes path) {x : UInt32 × LayerId}
    (hx : x ∈ assignments path) :
    (∃ p ∈ (d.cleared o).planes, p.id = x.1) ∧
      (∀ id o', (d.cleared o).wiring.layers id ≠ some (o', some x.1)) ∧
      (d.cleared o).wiring.layers x.2 = some (o, none) := by
  have hcleared := wellFormed_cleared hd (o := o) (by simp [hout])
  -- What a path places was legal at its place, so the layer was free then.
  obtain ⟨c, hc, hq, hid⟩ := Search.mem_assignments.mp hx
  obtain ⟨earlier, l, -, hplaced⟩ := h.legal.exists_placed hc hid
  -- The path visits the planes of the cleared device.
  have hplane : c.plane ∈ (d.cleared o).planes := by
    rw [← h.visits]
    exact List.mem_map_of_mem (List.mem_reverse.mpr hc)
  have hfree : c.plane.layer = none := (Plane.isFreeFor_eq_true_iff.mp hplaced.free).1
  refine ⟨⟨c.plane, hplane, hq⟩, fun id o' hl => ?_, ?_⟩
  -- A plane that is linked shows its layer, but the plane of a choice showed nothing.
  · obtain ⟨p, hp, hpq, hpl⟩ := hcleared.wiring.plane_of_layer id o' x.1 hl
    obtain rfl := hcleared.wiring.plane_eq hp hplane (hpq.trans hq.symm)
    rw [hfree] at hpl
    cases hpl
  · obtain ⟨l', hl', ho'⟩ := layer_of_output hd hout (hmembers ▸ hplaced.mem)
    simp only [wiring, layer?_cleared, hl', ho', Option.map_some, ↓reduceIte]
    rfl

omit [Kernel σ] in
/-- Linking what was found on the cleared device allocates it. -/
theorem allocated_of_linkAll {s : Search.Scene} {noted : σ → Request → Prop}
    {passes : Request → Prop} {entry : Request} {steady : Prop} {best : Option Search.Best}
    (hd : d.WellFormed) {o : OutputId} {out : Output} (hout : d.output? o = some out)
    (hmembers : s.output = out) {d' : Device σ}
    (hbest : ∀ b, best = some b → b.score = s.score b.path ∧
      Search.Feasible s (noted d'.session.kernel) entry (d.cleared o).planes b.path)
    (hoptimal : steady → ∀ path, Search.Feasible s passes entry (d.cleared o).planes path →
      Search.Reaches best (s.score path))
    (hd' : d'.WellFormed) (hscene : SameScene d d')
    (hwiring : d'.wiring =
      (d.cleared o).wiring.linkAll ((best.map fun b => assignments b.path).getD [])) :
    Allocated d o s noted passes entry steady best d' := by
  have hcleared := wellFormed_cleared hd (o := o) (by simp [hout])
  -- All links of other outputs survive, since the search links layers of this output only.
  have hlinks : ∀ o' x, x ∈ d'.wiring.links o' ↔ (o' ≠ o ∧ x ∈ d.wiring.links o') ∨
      o' = o ∧ ∃ b, best = some b ∧ x ∈ assignments b.path := by
    intro o' x
    rw [hwiring, ← mem_links_cleared]
    cases hb : best with
    | none => simp [Wiring.linkAll]
    | some b =>
      obtain ⟨-, hfeasible⟩ := hbest b hb
      -- Each link of the best path can be made without taking a plane or a layer from another.
      have hlinkable := fun x hx => linkable hd hout hmembers hfeasible (x := x) hx
      simp only [Option.map_some, Option.getD_some, Option.some.injEq, exists_eq_left']
      exact Wiring.mem_links_linkAll (hfeasible.planes_nodup hcleared.wiring.ids_nodup)
        hfeasible.legal.layers_nodup (fun x hx => (hlinkable x hx).2.1)
        (fun x hx => (hlinkable x hx).2.2) o' x
  refine ⟨⟨hd', hscene, fun o' ho' => ?_⟩, fun x => ?_, hbest, hoptimal⟩
  · ext x
    simp [hlinks, ho']
  · simp [hlinks]

def settle (o : OutputId) (free : Nat)
    (found : Option Search.Best × List (LayerId × UInt32)) : FrameM σ (Option Nat) := do
  Frame.onDevice (connect o free found)
  Frame.onRequest (← get).device.stageCurrent
  pure (found.1.map Search.Best.score)

theorem allocate_eq (o : OutputId) (flags : CommitFlags) (options : ApplyOptions)
    (started : HostTime) :
    (allocate o flags options started : FrameM σ (Option Nat)) = (do
      Frame.onDevice (clear o)
      let d := (← get).device
      Frame.onRequest (disables d)
      let found ← search o flags options started
      settle o (d.planes.filter fun p => p.layer.isNone).length found) := rfl

/-- What a full search does on the cleared device. -/
theorem allocate_of_clear {o : OutputId} {session : Session σ}
    (h : clear o d = .ok () { d.cleared o with session }) (flags : CommitFlags) (options : ApplyOptions)
    (started : HostTime) (request : Request) :
    allocate o flags options started ⟨d, request⟩ = (do
      Frame.onRequest (disables (d.cleared o))
      let found ← search o flags options started
      settle o ((d.cleared o).planes.filter fun p : Plane => p.layer.isNone).length found)
        ⟨{ d.cleared o with session }, request⟩ := by
  rw [allocate_eq, bind_of_ok (Frame.onDevice_of_ok h)]
  rfl

section Settle

variable {noted : σ → Request → Prop} {passes : Request → Prop} {steady : Prop} {o : OutputId}
  {out : Output}

omit [Kernel σ] in
/-- Until links are made, only the session of the cleared device moves on. -/
theorem spares_cleared (hd : d.WellFormed) (hout : d.output? o = some out) {session : Session σ}
    (hreports : Session.Reports [] d.session session) :
    Spares d o { d.cleared o with session } := by
  have hcleared := wellFormed_cleared hd (o := o) (Option.isSome_of_eq_some hout)
  refine ⟨hcleared.of_talks ⟨session, rfl⟩, ?_, fun o' ho' => ?_⟩
  · exact trans_of SameScene (sameScene_cleared d o)
      (quiet_session (d := d.cleared o) hreports).sameScene
  · ext x
    exact (mem_links_cleared d o o' x).trans (and_iff_right ho')

omit [Kernel σ] in
/-- What a search has found can be linked, so only the staging of the links may fail. -/
theorem settle_eq (hd : d.WellFormed) (hout : d.output? o = some out) {session : Session σ}
    (hreports : Session.Reports [] d.session session) {s : Search.Scene} (hmembers : s.output = out)
    {entry : Request} {best : Option Search.Best} {hints : List (LayerId × UInt32)}
    (hbest : ∀ b, best = some b → b.score = s.score b.path ∧
      Search.Feasible s (noted session.kernel) entry (d.cleared o).planes b.path)
    (hhints : ∀ h ∈ hints, ((d.cleared o).layer? h.1).isSome)
    (hoptimal : steady → ∀ path, Search.Feasible s passes entry (d.cleared o).planes path →
      Search.Reaches best (s.score path)) (free : Nat) (request : Request) :
    ∃ d', Allocated d o s noted passes entry steady best d' ∧
      settle o free (best, hints) ⟨{ d.cleared o with session }, request⟩ =
        (do Frame.onRequest d'.stageCurrent; pure (best.map Search.Best.score)) ⟨d', request⟩ := by
  have hspared := spares_cleared hd hout hreports
  -- What the search has found, it has found on the cleared device, which has the same planes and layers.
  have hlinkable : ∀ x ∈ (best.map fun b => assignments b.path).getD [],
      (∃ p ∈ (d.cleared o).planes, p.id = x.1) ∧ ((d.cleared o).layer? x.2).isSome := by
    intro x hx
    cases hb : best with
    | none => simp [hb] at hx
    | some b =>
      rw [hb, Option.map_some, Option.getD_some] at hx
      obtain ⟨hplane, -, hlayer⟩ := linkable hd hout hmembers (hbest b hb).2 hx
      obtain ⟨l, hl, -⟩ := Option.map_eq_some_iff.mp hlayer
      exact ⟨hplane, Option.isSome_of_eq_some hl⟩
  have hconnect : Ensures (connect o free (best, hints)) { d.cleared o with session } _ _ :=
    connect_spec hspared.wellFormed hhints hlinkable
  -- Linking cannot fail, so the only run is the one that goes on to staging.
  cases hrun : connect o free (best, hints) { d.cleared o with session } with
  | error e d' =>
    rw [ensures_of_eq_error hrun] at hconnect
    exact hconnect.elim
  | ok _ d' =>
    rw [ensures_of_eq_ok hrun] at hconnect
    obtain ⟨hd', hwiring, hscene, hkernel⟩ := hconnect
    have hallocated : Allocated d o s noted passes entry steady best d' := by
      refine allocated_of_linkAll hd hout hmembers (fun b hb => ?_) hoptimal hd'
        (trans_of SameScene hspared.scene hscene) hwiring
      rw [hkernel]
      exact hbest b hb
    refine ⟨d', hallocated, ?_⟩
    rw [settle, bind_of_ok (Frame.onDevice_of_ok hrun)]
    rfl

end Settle

/-- A full search clears the output, asks for the best allocation and makes its links; what it stages
in the end is not tested again. It fails before the search on a plane that cannot be switched off, by
a question to the driver, or in the end on a plane that does not take its layer. -/
theorem allocate_spec {K : Session σ → Prop} {noted : σ → Request → Prop} {passes : Request → Prop}
    {E : σ → Failure → Prop} {steady : Prop} (hd : d.WellFormed) {o : OutputId} {out : Output}
    (hout : d.output? o = some out) (flags : CommitFlags) (options : ApplyOptions)
    (started : HostTime)
    (hs : Search.Setting (sceneOf (d.cleared o) out flags options started) K noted passes E steady)
    (hstart : ∀ session, session.kernel = d.session.kernel →
      Session.Reports [] d.session session → K session)
    (hreports : ∀ session, K session → Session.Reports [] d.session session) (request : Request) :
    let s := sceneOf (d.cleared o) out flags options started
    Ensures (allocate o flags options started) ⟨d, request⟩
      (fun score f' => ∃ entry best, disables (d.cleared o) request = .ok () entry ∧
        Allocated d o s noted passes entry steady best f'.device ∧
        score = best.map Search.Best.score ∧ f'.device.stageCurrent entry = .ok () f'.request)
      (fun e f' => Spares d o f'.device ∧
        ((∃ session, f'.device = { d.cleared o with session } ∧
          ((∃ entry, disables (d.cleared o) request = .error e entry) ∨ E session.kernel e)) ∨
        ∃ entry best, disables (d.cleared o) request = .ok () entry ∧
          Allocated d o s noted passes entry steady best f'.device ∧
          f'.device.stageCurrent entry = .error e f'.request)) := by
  intro s
  -- The search begins on the cleared device, whose scene does not depend on what was logged.
  obtain ⟨session, hclear, hkernel, hreports₁⟩ := clear_eq hd hout
  rw [ensures_congr (allocate_of_clear hclear flags options started request)]
  have hscene := sceneOf_session (d := d.cleared o) hkernel out flags options started
  simp only [ensures_bind, Frame.ensures_onRequest]
  -- Switching planes off may fail, and then the search is never begun.
  cases hdisables : disables (d.cleared o) request with
  | error e entry =>
    rw [ensures_of_eq_error hdisables]
    exact ⟨spares_cleared hd hout hreports₁, .inl ⟨session, rfl, .inl ⟨entry, rfl⟩⟩⟩
  | ok _ entry =>
    rw [ensures_of_eq_ok hdisables]
    have hout₁ : ({ d.cleared o with session } : Device σ).output? o = some out := hout
    have hsearch := search_spec hout₁ flags options started (hscene ▸ hs)
      (hstart session hkernel hreports₁) entry
    rw [hscene] at hsearch
    refine hsearch.mono ?_ ?_
    · rintro ⟨best, hints⟩ ⟨d₂, request₂⟩ ⟨rfl, ⟨session₂, rfl, hK⟩, hbest, hhints, hoptimal⟩
      obtain ⟨d₃, hallocated, hsettle⟩ := settle_eq hd hout (hreports session₂ hK) rfl hbest hhints
        hoptimal ((d.cleared o).planes.filter fun p => p.layer.isNone).length request₂
      rw [ensures_congr hsettle, ensures_bind, Frame.ensures_onRequest]
      -- The links are there by now, whether they can be staged or not.
      cases hstage : d₃.stageCurrent request₂ with
      | ok _ r =>
        rw [ensures_of_eq_ok hstage]
        exact ⟨request₂, best, rfl, hallocated, rfl, hstage⟩
      | error e r =>
        rw [ensures_of_eq_error hstage]
        exact ⟨hallocated.toSpares, .inr ⟨request₂, best, rfl, hallocated, hstage⟩⟩
    · rintro e ⟨d₂, request₂⟩ ⟨session₂, rfl, hK, he⟩
      -- A search that fails has linked nothing.
      exact ⟨spares_cleared hd hout (hreports session₂ hK), .inl ⟨session₂, rfl, .inr he⟩⟩

end Allocation

end Scanout
