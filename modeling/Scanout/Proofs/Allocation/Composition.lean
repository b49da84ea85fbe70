import Mathlib.Data.List.Perm.Subperm
import Scanout.Proofs.Allocation.Primary

namespace Scanout

variable {σ : Type}

namespace Search

variable {s : Scene} {path : Path}

theorem mem_layers_iff {id : LayerId} : id ∈ path.filterMap Choice.layer ↔ path.holds id = true := by
  simp [Path.holds]

def Scene.ordinaryOn (s : Scene) (path : Path) : List LayerId :=
  (path.filterMap Choice.layer).filter fun id => !s.isComposition id

def Scene.ordinary (s : Scene) : List LayerId :=
  s.output.layers.filter fun id => !s.isComposition id && (s.layer? id).any Layer.isVisible

theorem length_ordinaryOn (s : Scene) (path : Path) : (s.ordinaryOn path).length = s.score path := by
  rw [Scene.ordinaryOn, ← List.countP_eq_length_filter, List.countP_filterMap, Scene.score]
  refine List.countP_congr fun c _ => ?_
  cases c.layer <;> rfl

theorem length_ordinary (s : Scene) : s.ordinary.length = s.ordinaryCount :=
  List.countP_eq_length_filter.symm

/-- What stands on a path is a visible layer of the output. -/
theorem Legal.ordinaryOn_subset (h : Legal s path) : s.ordinaryOn path ⊆ s.ordinary := by
  intro id hid
  obtain ⟨hid, hordinary⟩ := List.mem_filter.mp hid
  obtain ⟨c, hc, hlayer⟩ := List.mem_filterMap.mp hid
  obtain ⟨earlier, l, -, hplaced⟩ := h.exists_placed hc hlayer
  apply List.mem_filter.mpr
  exact ⟨hplaced.mem, by simp [hplaced.layer, hplaced.visible, hordinary]⟩

/-- The score tells whether all that could be placed is placed. -/
theorem Legal.score_eq_iff (h : Legal s path) (hnodup : s.output.layers.Nodup) :
    s.score path = s.ordinaryCount ↔ ∀ id ∈ s.ordinary, path.holds id = true := by
  have hsub := h.ordinaryOn_subset
  have hpath : (s.ordinaryOn path).Nodup := h.nodup.filter _
  rw [← length_ordinaryOn, ← length_ordinary]
  constructor
  · intro hlength id hid
    -- As many different ones out of a list as it has are all of it.
    have hperm : (s.ordinaryOn path).Perm s.ordinary :=
      (List.subperm_of_subset hpath hsub).perm_of_length_le hlength.ge
    have hmem : id ∈ s.ordinaryOn path := hperm.symm.subset hid
    -- The other way round, the layers that count are all on the path.
    exact mem_layers_iff.mp (List.mem_filter.mp hmem).1
  · intro hall
    have hback : s.ordinary ⊆ s.ordinaryOn path := by
      intro id hid
      obtain ⟨hordinary, -⟩ := Bool.and_eq_true_iff.mp (List.mem_filter.mp hid).2
      exact List.mem_filter.mpr ⟨mem_layers_iff.mpr (hall id hid), hordinary⟩
    have hle := hpath.length_le_of_subset hsub
    have hge := (hnodup.filter _).length_le_of_subset hback
    exact Nat.le_antisymm hle hge

theorem isComposited_iff {c : LayerId} (hc : s.output.compositionLayer = some c) :
    s.isComposited path = true ↔ path.holds c = true := by
  have hself : ∀ id, s.isComposition id = true ↔ id = c := by
    intro id
    simp [Scene.isComposition, hc, eq_comm]
  simp [Scene.isComposited, Path.holds, Option.any_eq_true, hself]

/-- A path is an allocation if it places what receives the composition exactly when some other layer is
left over. -/
theorem Legal.isValid_iff (h : Legal s path) (hnodup : s.output.layers.Nodup) {c : LayerId}
    (hc : s.output.compositionLayer = some c) :
    s.isValid path = true ↔ (path.holds c = true ↔ ¬ ∀ id ∈ s.ordinary, path.holds id = true) := by
  rw [← h.score_eq_iff hnodup, ← isComposited_iff hc, Scene.isValid, hc]
  cases s.isComposited path <;> simp

/-- What receives the composition may stand on a primary plane only. -/
theorem isPrimary_of_rejection?_eq_none {p : Plane} {id : LayerId} {l : Layer}
    (hrule : s.rejection? path p id l = none) (hid : s.isComposition id = true) :
    p.isPrimary = true := by
  cases hp : p.isPrimary with
  | true => rfl
  | false =>
    simp only [Scene.rejection?, Option.or_eq_none_iff, hp, hid] at hrule
    obtain ⟨-, hrest⟩ := hrule
    split at hrest <;> simp at hrest

end Search

namespace Device

def ShowsAllBut (d : Device σ) (o : OutputId) (c : LayerId) : Prop :=
  ∀ id l, d.layer? id = some l → l.output = o → id ≠ c → l.isVisible = true → ∃ p, d.Shows o id l p

def LeavesOut (d : Device σ) (o : OutputId) (c : LayerId) : Prop :=
  ∃ id l, d.layer? id = some l ∧ l.output = o ∧ id ≠ c ∧ l.needsComposition = true

theorem WellFormed.shows_of_plane {d : Device σ} (hd : d.WellFormed) {id : LayerId} {l : Layer}
    (hl : d.layer? id = some l) {q : UInt32} (hq : l.plane = some q) :
    ∃ p, d.Shows l.output id l p := by
  obtain ⟨p, hp, rfl, -⟩ := plane_of_layer hd.wiring hl hq
  exact ⟨p, hl, rfl, hp, hq⟩

/-- What has no plane is left to the caller. -/
theorem WellFormed.not_showsAllBut_iff {d : Device σ} (hd : d.WellFormed) {o : OutputId}
    {c : LayerId} : ¬ d.ShowsAllBut o c ↔ d.LeavesOut o c := by
  constructor
  -- With no layer left out, each visible one is on a plane and so shown.
  · intro hnot
    by_contra hnone
    apply hnot
    intro id l hl ho hne hvisible
    subst ho
    cases hq : l.plane with
    | none => exact absurd ⟨id, l, hl, rfl, hne, by simp [Layer.needsComposition, hvisible, hq]⟩ hnone
    | some q => exact hd.shows_of_plane hl hq
  · rintro ⟨id, l, hl, ho, hne, hneeds⟩ hall
    obtain ⟨hvisible, hplane⟩ := Bool.and_eq_true_iff.mp hneeds
    -- A layer that is shown needs no composition.
    obtain ⟨p, hshows⟩ := hall id l hl ho hne hvisible
    rw [hshows.link] at hplane
    cases hplane

end Device

namespace Allocation

open Device

section Layouts

variable {d : Device σ} {o : OutputId} {s : Search.Scene} {path : Search.Path}
  (h : Layout d o s path) (hd : d.WellFormed)
include h hd

omit hd in
/-- The layers that the search saw are there now. -/
theorem Layout.exists_layer {id : LayerId} {l' : Layer} (hl' : s.layer? id = some l') :
    ∃ l, d.layer? id = some l ∧ l'.look = l.look := by
  have hlook := h.looks id
  rw [hl', Option.map_some] at hlook
  obtain ⟨l, hl, he⟩ := Option.map_eq_some_iff.mp hlook.symm
  exact ⟨l, hl, he.symm⟩

theorem Layout.members_nodup : s.output.layers.Nodup := by
  obtain ⟨out, hout, hmembers⟩ := h.members
  have hlayers : (s.output.layers : Multiset LayerId) = out.layers := congrArg Prod.fst hmembers
  have hnodup : (out.layers : Multiset LayerId).Nodup := by
    apply hd.wiring.layers_nodup o _ out.compositionLayer
    simp [wiring, hout, Output.members]
  rw [← hlayers] at hnodup
  exact Multiset.coe_nodup.mp hnodup

/-- What receives the composition is a layer of the output. -/
theorem Layout.output_composition {c : LayerId} (hc : s.output.compositionLayer = some c) {l : Layer}
    (hl : d.layer? c = some l) : l.output = o := by
  obtain ⟨out, hout, hmembers⟩ := h.members
  have hmem : c ∈ (s.output.layers : Multiset LayerId) := by
    apply hd.wiring.composition_mem o
    rw [← hc]
    exact (congrArg (Option.map Output.members) hout).trans (congrArg some hmembers.symm)
  exact (h.mem_output_iff hd hl).mp (Multiset.mem_coe.mp hmem)

theorem Layout.holds_iff {id : LayerId} : path.holds id = true ↔ ∃ l p, d.Shows o id l p := by
  constructor
  · intro hholds
    obtain ⟨c, hc, hlayer⟩ := List.any_eq_true.mp hholds
    obtain ⟨l, p, hputs⟩ := h.puts hd hc (of_decide_eq_true hlayer)
    exact ⟨l, p, hputs.shows⟩
  · rintro ⟨l, p, hshows⟩
    obtain ⟨c, hc, hputs⟩ := h.choice hd hshows
    exact List.any_eq_true.mpr ⟨c, hc, decide_eq_true hputs.layer⟩

/-- The path holds all that it could, apart from `c`, if the device shows all visible layers but `c`. -/
theorem Layout.showsAllBut_iff {c : LayerId} (hc : s.output.compositionLayer = some c) :
    (∀ id ∈ s.ordinary, path.holds id = true) ↔ d.ShowsAllBut o c := by
  -- The composition layer is the only one that does not count.
  have hself : ∀ id, s.isComposition id = false ↔ id ≠ c := by
    intro id
    simp [Search.Scene.isComposition, hc, eq_comm]
  constructor
  · intro hall id l hl ho hne hvisible
    -- What the search looked at is what the layer is like after the apply.
    obtain ⟨l', hl', hlook⟩ := h.seen hl
    have hvisible' : l'.isVisible = true := (congrArg (·.2.1) hlook).trans hvisible
    have hordinary : id ∈ s.ordinary := by
      apply List.mem_filter.mpr
      refine ⟨(h.mem_output_iff hd hl).mpr ho, ?_⟩
      simp [(hself id).mpr hne, hl', hvisible']
    obtain ⟨l₁, p, hshows⟩ := (h.holds_iff hd).mp (hall id hordinary)
    rw [Option.some.inj (hl.symm.trans hshows.layer)]
    exact ⟨p, hshows⟩
  · intro hall id hid
    obtain ⟨hmem, hordinary⟩ := List.mem_filter.mp hid
    obtain ⟨hne, hvisible⟩ := Bool.and_eq_true_iff.mp hordinary
    obtain ⟨l', hl', hvisible⟩ := (Option.any_eq_true _ _).mp hvisible
    obtain ⟨l, hl, hlook⟩ := h.exists_layer hl'
    have hvisible' : l.isVisible = true := (congrArg (·.2.1) hlook).symm.trans hvisible
    obtain ⟨p, hshows⟩ :=
      hall id l hl ((h.mem_output_iff hd hl).mp hmem) ((hself id).mp (by simpa using hne)) hvisible'
    exact (h.holds_iff hd).mpr ⟨l, p, hshows⟩

/-- A path shows what receives the composition on a primary plane, and only if it has to. -/
theorem Layout.composition {c : LayerId} (hc : s.output.compositionLayer = some c) {l : Layer}
    {p : Plane} (hshows : d.Shows o c l p) : p.isPrimary = true ∧ ¬ d.ShowsAllBut o c := by
  have hcomposition : s.isComposition c = true := decide_eq_true hc
  -- The search found the path valid, which settles when the layer may be on it.
  have hvalid := (h.legal.isValid_iff (h.members_nodup hd) hc).mp h.valid
  constructor
  · obtain ⟨choice, hchoice, hputs⟩ := h.choice hd hshows
    obtain ⟨earlier, l', -, hplaced⟩ := h.legal.exists_placed hchoice hputs.layer
    rw [← hputs.kind]
    -- No rule rejected the composition layer on its plane, so that is a primary one.
    exact Search.isPrimary_of_rejection?_eq_none hplaced.rule hcomposition
  · rw [← h.showsAllBut_iff hd hc]
    exact hvalid.mp ((h.holds_iff hd).mpr ⟨l, p, hshows⟩)

end Layouts

end Allocation

def Scripted.primaryAndOverlay : Scripted where
  crtcs := .ok [1]
  planeIds := .ok [20, 30]
  planes := [(20, .ok (ofType 1)), (30, .ok (ofType 0))]
  allowed := some [(20, 3), (30, 1)]

namespace Device

def composed : Device Scripted :=
  ({ session := { kernel := .primaryAndOverlay }, crtcs := [1] } : Device Scripted).afterAll
    ([.registerAllPlanes, .createOutput 1] ++ Operation.layerAt 0 0 3 ++ Operation.layerAt 1 500 1 ++
      Operation.layerAt 2 50 0 ++ [.setCompositionLayer .first ⟨⟨2, 0⟩⟩])

theorem reachable_composed : composed.Reachable :=
  ⟨.primaryAndOverlay, {}, [1], _, run_afterAll (by decide +kernel)⟩

def composedShown : Device Scripted := composed.after (.apply .first {} {} {})

theorem apply_composed : ∃ f : Frame Scripted,
    Frame.apply .first {} {} ⟨composed, {}⟩ = .ok () f ∧ f.device = composedShown :=
  exists_after_apply composed .first {} {} {} (by decide +kernel)

end Device

namespace Allocation

open Device

variable [Kernel σ] {d : Device σ} {o : OutputId} {flags : CommitFlags} {options : ApplyOptions}
  {request : Request} {f : Frame σ}

/-- An apply that succeeds leaves every output its members. -/
theorem outputs_of_apply (hd : d.WellFormed)
    (hrun : Frame.apply o flags options ⟨d, request⟩ = .ok () f) :
    f.device.wiring.outputs = d.wiring.outputs := by
  have hnotes : Kernel.Notes flags _ _ := notes_asks d.session.kernel
  have hcases := apply_cases (o := o) hd hnotes .refl options request
  -- An allocation that is kept changes no output, and a search links layers only.
  rw [ensures_of_eq_ok hrun] at hcases
  obtain ⟨d₁, d₂, outcome, hdecides, hmarks, -, ⟨-, rfl, -⟩ | ⟨-, entry, hlaid, -⟩⟩ := hcases
  · rw [hmarks.wiring, hdecides.wiring]
  · obtain ⟨s, best, -, -, hallocated⟩ := hlaid.allocated
    have hmembers : d₂.wiring.outputs = d₁.wiring.outputs :=
      congrArg Scenery.members hallocated.scene.scenery
    rw [hmarks.wiring, hmembers, hdecides.wiring]

/-- After a full search for an output whose layer `c` receives the composition, no layer has a plane, or
`c` has none and all other visible layers have one, or `c` is on a primary plane and some other visible
layer has none. Wherever `c` is shown, it has to be. -/
theorem composition_of_apply (hd : d.WellFormed) {out : Output} (hout : d.output? o = some out)
    {c : LayerId} (hc : out.compositionLayer = some c)
    (hrun : Frame.apply o flags options ⟨d, request⟩ = .ok () f) {outcome : ReuseOutcome}
    (hsearch : f.device.session.decisions = (o, outcome) :: d.session.decisions)
    (hne : outcome ≠ .accepted) :
    ((∀ id l, f.device.layer? id = some l → l.output = o → l.plane = none) ∨
      ((∀ l, f.device.layer? c = some l → l.plane = none) ∧ f.device.ShowsAllBut o c) ∨
      ((∃ l p, f.device.Shows o c l p ∧ p.isPrimary = true) ∧ f.device.LeavesOut o c)) ∧
    ∀ l p, f.device.Shows o c l p → p.isPrimary = true ∧ ¬ f.device.ShowsAllBut o c := by
  have hsearched := searched_of_apply hd hrun hsearch hne
  have hd' := hsearched.wellFormed
  rcases hsearched.layout with hempty | ⟨s, path, hlayout⟩
  -- With no links nothing is shown, and the first case holds.
  · have hnone : ∀ id l p, ¬ f.device.Shows o id l p := by
      intro id l p hshows
      have hlink := hshows.mem_links
      rw [hempty] at hlink
      exact hlink
    refine ⟨.inl fun id l hl ho => ?_, fun l p hshows => absurd hshows (hnone c l p)⟩
    subst ho
    cases hq : l.plane with
    | none => rfl
    | some q =>
      obtain ⟨p, hshows⟩ := hd'.shows_of_plane hl hq
      exact absurd hshows (hnone id l p)
  · -- The search knew the same members.
    have hcs : s.output.compositionLayer = some c := by
      obtain ⟨out', hout', hmembers⟩ := hlayout.members
      have houtputs : (f.device.output? o).map Output.members = (d.output? o).map Output.members :=
        congrFun (outputs_of_apply hd hrun) o
      rw [hout', hout, Option.map_some, Option.map_some, Option.some.injEq, ← hmembers] at houtputs
      exact (congrArg Prod.snd houtputs).trans hc
    have hshown := fun l p => hlayout.composition hd' hcs (l := l) (p := p)
    refine ⟨.inr ?_, hshown⟩
    have hvalid := (hlayout.legal.isValid_iff (hlayout.members_nodup hd') hcs).mp hlayout.valid
    rw [hlayout.holds_iff hd', hlayout.showsAllBut_iff hd' hcs] at hvalid
    by_cases hall : f.device.ShowsAllBut o c
    · refine .inl ⟨fun l hl => ?_, hall⟩
      cases hq : l.plane with
      | none => rfl
      | some q =>
        obtain ⟨p, hshows⟩ := hd'.shows_of_plane hl hq
        -- A valid path has the composition layer exactly if another one is missing.
        rw [hlayout.output_composition hd' hcs hl] at hshows
        exact absurd hall (hvalid.mp ⟨l, p, hshows⟩)
    · obtain ⟨l, p, hshows⟩ := hvalid.mpr hall
      exact .inr ⟨⟨l, p, hshows, (hshown l p hshows).1⟩, hd'.not_showsAllBut_iff.mp hall⟩

/-- With two planes for three layers the lowest one is on the primary plane, for the one left out. -/
theorem composition_composedShown : ∃ l p, composedShown.Shows .first ⟨⟨2, 0⟩⟩ l p ∧
    p.isPrimary = true ∧ composedShown.LeavesOut .first ⟨⟨2, 0⟩⟩ := by
  have hd := reachable_composed.wellFormed
  have hpermits : composed.Permits (.apply .first {} {} {}) := trivial
  have hd' : composedShown.WellFormed := (reachable_composed.after hpermits).wellFormed
  obtain ⟨f, hrun, hf⟩ := apply_composed
  obtain ⟨out, hout, hc⟩ : ∃ out, composed.output? .first = some out ∧
      out.compositionLayer = some ⟨⟨2, 0⟩⟩ :=
    Option.bind_eq_some_iff.mp (by decide +kernel)
  have hdecisions : composedShown.session.decisions =
      (.first, .skipped .layersChanged) :: composed.session.decisions := by decide +kernel
  have hlink : (20, ⟨⟨2, 0⟩⟩) ∈ composedShown.wiring.links .first := by decide +kernel
  obtain ⟨l, p, hshows, -⟩ := hd'.exists_shows hlink
  obtain ⟨-, hshown⟩ := composition_of_apply hd hout hc hrun (hf ▸ hdecisions) (by decide)
  rw [hf] at hshown
  obtain ⟨hprimary, hall⟩ := hshown l p hshows
  exact ⟨l, p, hshows, hprimary, hd'.not_showsAllBut_iff.mp hall⟩

end Allocation

end Scanout
