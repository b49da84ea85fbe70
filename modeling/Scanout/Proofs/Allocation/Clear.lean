import Scanout.Proofs.Allocation.Quiet

namespace Scanout

variable {σ : Type}

namespace Device

def cleared (d : Device σ) (o : OutputId) : Device σ :=
  { d with
    planes := d.planes.map fun p =>
      if Allocation.isHeldBy d o p then { p with layer := none } else p
    layers := d.layers.map fun l =>
      if l.output = o then { l with plane := none, candidatePlanes := [] } else l }

structure Rewires (d d' : Device σ) : Prop where
  config : d'.config = d.config
  crtcs : d'.crtcs = d.crtcs
  outputs : d'.outputs = d.outputs
  applyCount : d'.applyCount = d.applyCount
  slots : Arena.SameSlots d.layers d'.layers

instance : IsPreorder (Device σ) Rewires where
  refl _ := ⟨rfl, rfl, rfl, rfl, rfl, rfl⟩
  trans _ _ _ h h' :=
    ⟨h'.config.trans h.config, h'.crtcs.trans h.crtcs, h'.outputs.trans h.outputs,
      h'.applyCount.trans h.applyCount, h.slots.trans h'.slots⟩

theorem rewires_withLayer (d : Device σ) (id : LayerId) (f : Layer → Layer) :
    Rewires d (d.withLayer id f) :=
  ⟨rfl, rfl, rfl, rfl, Arena.sameSlots_modify d.layers id.toHandle f⟩

theorem rewires_unlink (d : Device σ) (q : UInt32) : Rewires d (d.unlink q) := by
  unfold unlink
  split
  · rename_i old _
    have h := rewires_withLayer d old ({ · with plane := none })
    exact ⟨rfl, rfl, rfl, rfl, h.slots⟩
  · exact refl_of Rewires d

theorem session_unlink (d : Device σ) (q : UInt32) : (d.unlink q).session = d.session := by
  unfold unlink
  split <;> rfl

end Device

namespace Allocation

open Device

variable {d : Device σ}

theorem unlinkPlanes_spec (hd : d.WellFormed) (ps : List Plane) :
    Ensures (ps.forM fun p => setLink p.id none) d
      (fun _ d' => d'.WellFormed ∧ Rewires d d' ∧ d'.session = d.session ∧
        (d'.planes = d.planes.map fun p =>
          if p.id ∈ ps.map Plane.id then { p with layer := none } else p) ∧
        ∀ id, d'.layer? id = (d.layer? id).map fun l =>
          if l.plane.any (· ∈ ps.map Plane.id) then { l with plane := none } else l)
      (fun _ _ => False) := by
  -- Induction on the planes, over every device the ones before may have left.
  induction ps generalizing d with
  | nil =>
    rw [ensures_forM_nil]
    refine ⟨hd, refl_of Rewires d, rfl, by simp, fun id => by simp⟩
  | cons p ps ih =>
    rw [ensures_forM_cons, ensures_setLink_none]
    refine (ih (wellFormed_unlink hd p.id)).mono ?_ fun _ _ => False.elim
    rintro - d' ⟨hd', hrewires, hsession, hplanes, hlayers⟩
    refine ⟨hd', trans_of Rewires (rewires_unlink d p.id) hrewires,
      hsession.trans (session_unlink d p.id), ?_, fun id => ?_⟩
    -- Unlinking `p` first and the others then unlinks all of them.
    · rw [hplanes, planes_unlink hd.wiring, List.map_map]
      apply List.map_congr_left
      intro p' _
      by_cases hp : p'.id = p.id
      · simp [hp]
      · simp [hp]
    · rw [hlayers, layer?_unlink hd.wiring, Option.map_map]
      apply Option.map_congr
      intro l _
      cases hl : l.plane with
      | none => simp [hl]
      | some q => by_cases hq : q = p.id <;> simp [hl, hq]

theorem resetLayers_spec {ids : List LayerId} (hids : ∀ id ∈ ids, (d.layer? id).isSome) :
    Ensures (ids.forM fun id => editLayer id fun l => .ok { l with candidatePlanes := [] }) d
      (fun _ d' => (Rewires d d' ∧ d'.session = d.session ∧ d'.planes = d.planes) ∧
        ∀ id, d'.layer? id = (d.layer? id).map fun l =>
          if id ∈ ids then { l with candidatePlanes := [] } else l)
      (fun _ _ => False) := by
  -- It is simpler to say which layers are reset, and to join the two cases afterwards.
  have hreset : Ensures
      (ids.forM fun id => editLayer id fun l => .ok { l with candidatePlanes := [] }) d
      (fun _ d' => (Rewires d d' ∧ d'.session = d.session ∧ d'.planes = d.planes) ∧
        ∀ id, d'.layer? id =
          if id ∈ ids then (d.layer? id).map ({ · with candidatePlanes := [] }) else d.layer? id)
      (fun _ _ => False) := by
    -- Each reset keeps the invariant and changes the one layer.
    refine ensures_forM_layers
      (I := fun d' => Rewires d d' ∧ d'.session = d.session ∧ d'.planes = d.planes) (fun _ => rfl)
      (fun id hid d₁ h₁ hsome => ?_) ⟨refl_of Rewires d, rfl, rfl⟩
    obtain ⟨l, hl⟩ := Option.isSome_iff_exists.mp (hsome.trans (hids id hid))
    simp only [editLayer, ensures_bind, ensures_layer, ensures_modify]
    refine ⟨fun l' hl' => ⟨?_, fun id' => ?_⟩, fun hnone => by rw [hl] at hnone; cases hnone⟩
    · exact ⟨trans_of Rewires h₁.1 (rewires_withLayer d₁ id _), h₁.2⟩
    · rw [layer?_withLayer]
      split
      · rename_i heq
        subst heq
        simp [hl']
      · rfl
  refine hreset.mono (fun _ d' h => ⟨h.1, fun id => ?_⟩) fun _ _ => False.elim
  rw [h.2]
  by_cases hid : id ∈ ids <;> simp [hid]

def Tells (d d' : Device σ) : Prop :=
  ∃ session, d' = { d with session } ∧ session.kernel = d.session.kernel ∧
    Session.Reports [] d.session session

instance : IsPreorder (Device σ) Tells where
  refl d := ⟨d.session, rfl, rfl, refl_of (Session.Reports []) _⟩
  trans := by
    rintro d _ _ ⟨s, rfl, hk, hr⟩ ⟨s', rfl, hk', hr'⟩
    exact ⟨s', rfl, hk'.trans hk, trans_of (Session.Reports []) hr hr'⟩

theorem Tells.facts {d' : Device σ} (h : Tells d d') :
    Quiet d d' ∧ Rewires d d' ∧ d'.planes = d.planes ∧ ∀ id, d'.layer? id = d.layer? id := by
  obtain ⟨session, rfl, -, hreports⟩ := h
  exact ⟨quiet_session hreports, ⟨rfl, rfl, rfl, rfl, rfl, rfl⟩, rfl, fun _ => rfl⟩

/-- Logging only tells. -/
theorem tells_log {d₀ : Device σ} (h : Tells d₀ d) (severity : Severity) (note : Note) :
    Ensures (log severity note) d (fun _ => Tells d₀) (fun _ _ => False) := by
  have htells : Tells d { d with session :=
      { d.session with trace := .log severity note :: d.session.trace } } :=
    ⟨_, rfl, rfl, [.log severity note], rfl, rfl⟩
  exact trans_of Tells h htells

theorem logLayers_spec {o : OutputId} {out : Output} (hout : d.output? o = some out) :
    Ensures (logLayers o) d (fun _ => Tells d) (fun _ _ => False) := by
  simp only [logLayers, ensures_bind, ensures_output]
  refine ⟨fun out' _ => ?_, fun hnone => by rw [hout] at hnone; cases hnone⟩
  refine (tells_log (refl_of Tells d) _ _).mono (fun _ d1 h1 => ?_) fun _ _ => False.elim
  -- The layers one by one, and of each its properties.
  refine ensures_forM (fun id _ d2 h2 => ?_) h1
  simp only [ensures_bind, ensures_get]
  split
  · split
    · rw [ensures_bind]
      refine (tells_log h2 _ _).mono (fun _ d3 h3 => ?_) fun _ _ => False.elim
      exact ensures_forM (fun e _ d4 h4 => tells_log h4 _ _) h3
    · exact h2
  · exact h2

theorem isHeldBy_eq (d : Device σ) (o : OutputId) (p : Plane) :
    isHeldBy d o p = (p.layer.bind d.wiring.layers).any fun l => l.1 = o := by
  unfold isHeldBy
  cases p.layer with
  | none => rfl
  | some id =>
    simp only [Option.bind_some, wiring]
    cases d.layer? id <;> rfl

section Held

variable (hd : d.WellFormed) (o : OutputId)
include hd

/-- The id of a plane tells whether an output holds it. -/
theorem mem_held_iff {p : Plane} (hp : p ∈ d.planes) :
    p.id ∈ (d.planes.filter (isHeldBy d o)).map Plane.id ↔ isHeldBy d o p = true := by
  simp only [List.mem_map, List.mem_filter, and_assoc]
  constructor
  · rintro ⟨p', hp', hheld, hid⟩
    rwa [← hd.wiring.plane_eq hp' hp hid]
  · exact fun hheld => ⟨p, hp, hheld, rfl⟩

/-- An output holds the planes of its layers and no others. -/
theorem plane_mem_held_iff {id : LayerId} {l : Layer} (hl : d.layer? id = some l) {q : UInt32}
    (hq : l.plane = some q) :
    q ∈ (d.planes.filter (isHeldBy d o)).map Plane.id ↔ l.output = o := by
  obtain ⟨p, hp, rfl, hpl⟩ := plane_of_layer hd.wiring hl hq
  rw [mem_held_iff hd o hp]
  simp only [isHeldBy, hpl, Option.bind_some, hl, Option.any_some, decide_eq_true_eq]

end Held

/-- Forgetting the hints of the layers that an output lists and taking the planes that it holds from
their layers clears its layers. -/
theorem layer?_cleared_eq (hd : d.WellFormed) {o : OutputId} {out : Output} (hout : d.output? o = some out)
    (id : LayerId) :
    (d.cleared o).layer? id = ((d.layer? id).map fun l =>
        if id ∈ out.layers then { l with candidatePlanes := [] } else l).map fun l =>
      if l.plane.any (· ∈ (d.planes.filter (isHeldBy d o)).map Plane.id) then { l with plane := none }
      else l := by
  have hcleared : (d.cleared o).layer? id = (d.layer? id).map fun l =>
      if l.output = o then { l with plane := none, candidatePlanes := [] } else l :=
    Arena.get?_map d.layers _ id.toHandle
  -- First the candidates are forgotten and then the links; the cleared device does both at once.
  rw [hcleared, Option.map_map]
  apply Option.map_congr
  intro l hl
  have hlisted : id ∈ out.layers ↔ l.output = o := listed_iff hd hout hl
  cases hq : l.plane with
  -- A layer on no plane has no link to lose, one on a plane loses it with that plane.
  | none =>
    by_cases ho : l.output = o <;>
      simp only [Function.comp, hlisted, ho, ↓reduceIte, hq, Option.any_none, Bool.false_eq_true]
  | some q =>
    have htaken := plane_mem_held_iff hd o hl hq
    by_cases ho : l.output = o
    · simp only [Function.comp, hlisted, ho, ↓reduceIte, hq, Option.any_some, htaken.mpr ho,
        decide_true]
    · simp only [Function.comp, hlisted, ho, ↓reduceIte, hq, Option.any_some, mt htaken.mp ho,
        decide_false, Bool.false_eq_true]

/-- A device is cleared once its planes are, and its layers as far as handles resolve. -/
theorem eq_cleared (hd : d.WellFormed) {o : OutputId} {d' : Device σ} (hrewires : Rewires d d')
    (hplanes : d'.planes = (d.cleared o).planes)
    (hlayers : ∀ id, d'.layer? id = (d.cleared o).layer? id) :
    d' = { d.cleared o with session := d'.session } := by
  -- Devices that agree on the slots differ at most in what the handles resolve to.
  have hmap := Arena.sameSlots_map d.layers fun l =>
    if l.output = o then { l with plane := none, candidatePlanes := [] } else l
  have heq : d'.layers = (d.cleared o).layers :=
    (hmap.symm.trans hrewires.slots).eq (Arena.wellFormed_map hd.layers _) fun h => hlayers ⟨h⟩
  -- Beside the layers and the planes, no part of the device has changed at all.
  obtain ⟨hconfig, hcrtcs, houtputs, hcount, -⟩ := hrewires
  cases d'
  simp only [cleared] at *
  simp [*]

def clear (o : OutputId) : DeviceM σ Unit := do
  resetSearch o
  logLayers o
  unlinkAll o

/-- At the beginning everything is cleared, the tests are counted anew, and nothing else happens but
reports. -/
theorem clear_spec (hd : d.WellFormed) {o : OutputId} {out : Output}
    (hout : d.output? o = some out) :
    Ensures (clear o) d
      (fun _ d' => d'.WellFormed ∧ d' = { d.cleared o with session := d'.session } ∧
        d'.session.kernel = d.session.kernel ∧ Session.Reports [] d.session d'.session)
      (fun _ _ => False) := by
  -- The candidates, the count of tests, the log and the links, in this order.
  simp only [clear, ensures_bind, resetSearch, ensures_output]
  refine ⟨fun out' hout' => ?_, fun hnone => by rw [hout] at hnone; cases hnone⟩
  obtain rfl := Option.some.inj (hout.symm.trans hout')
  have hlive : ∀ id ∈ out.layers, (d.layer? id).isSome := by
    intro id hid
    obtain ⟨l, hl, -⟩ := layer_of_output hd hout hid
    simp [hl]
  have hquiet : Stays Quiet (out.layers.forM fun id =>
      (editLayer id fun l => .ok { l with candidatePlanes := [] } : DeviceM σ Unit)) :=
    stays_forM fun id _ => quiet_editLayer (fun _ => rfl) fun _ => rfl
  refine ((resetLayers_spec hlive).and (hquiet d)).mono ?_ fun _ _ h => h.1
  rintro - d1 ⟨⟨⟨hrewires1, hsession1, hplanes1⟩, hlayers1⟩, hquiet1⟩
  rw [ensures_modify]
  have hout1 : ({ d1 with session := { d1.session with testCommits := 0 } } : Device σ).output? o =
      some out := by
    -- None of the first steps takes the output away.
    simpa only [output?, hrewires1.outputs] using hout
  refine (logLayers_spec hout1).mono ?_ fun _ _ => False.elim
  rintro - d2 ⟨session, hd2, hkernel, hreports⟩
  -- What has been said so far changes neither planes nor layers.
  have htells : Tells d1 d2 := by
    refine ⟨session, hd2, hkernel, trans_of (Session.Reports []) ?_ hreports⟩
    exact Session.reports_of_trace rfl
  clear hd2 hkernel hreports
  obtain ⟨hquiet2, hrewires2, hplanes2, hlayers2⟩ := htells.facts
  have hquiet2 : Quiet d d2 := trans_of Quiet hquiet1 hquiet2
  -- The planes to unlink are those the output held at the start.
  simp only [unlinkAll, ensures_bind, ensures_get]
  refine (unlinkPlanes_spec (hquiet2.wellFormed hd) _).mono ?_ fun _ _ => False.elim
  rintro - d3 ⟨hd3, hrewires3, hsession3, hplanes3, hlayers3⟩
  have hheld : d2.planes.filter (isHeldBy d2 o) = d.planes.filter (isHeldBy d o) := by
    have hsame : isHeldBy d2 o = isHeldBy d o := by
      funext p
      rw [isHeldBy_eq, isHeldBy_eq, hquiet2.wiring]
    rw [hsame, hplanes2, hplanes1]
  rw [hheld] at hplanes3 hlayers3
  refine ⟨hd3, eq_cleared hd ?_ ?_ fun id => ?_, ?_, ?_⟩
  · exact trans_of Rewires hrewires1 (trans_of Rewires hrewires2 hrewires3)
  · rw [hplanes3, hplanes2, hplanes1, cleared]
    apply List.map_congr_left
    intro p hp
    simp only [mem_held_iff hd o hp]
  · rw [hlayers3, hlayers2, hlayers1]
    exact (layer?_cleared_eq hd hout id).symm
  -- Unlinking leaves the session as it was, so it is the one that told.
  · obtain ⟨session, rfl, hkernel, -⟩ := htells
    rw [hsession3, hkernel, hsession1]
  · obtain ⟨session, rfl, -, hreports⟩ := htells
    rw [hsession3, ← hsession1]
    exact hreports

/-- The beginning does not fail. -/
theorem clear_eq (hd : d.WellFormed) {o : OutputId} {out : Output} (hout : d.output? o = some out) :
    ∃ session, clear o d = .ok () { d.cleared o with session } ∧
      session.kernel = d.session.kernel ∧ Session.Reports [] d.session session := by
  -- The specification leaves no other outcome.
  have h := clear_spec hd hout
  cases hrun : clear o d with
  | error e d' =>
    rw [ensures_of_eq_error hrun] at h
    exact h.elim
  | ok _ d' =>
    rw [ensures_of_eq_ok hrun] at h
    obtain ⟨-, heq, hkernel, hreports⟩ := h
    exact ⟨d'.session, congrArg (EStateM.Result.ok ()) heq, hkernel, hreports⟩

end Allocation

namespace Device

open Allocation

variable {d : Device σ}

theorem layer?_cleared (d : Device σ) (o : OutputId) (id : LayerId) :
    (d.cleared o).layer? id = (d.layer? id).map fun l =>
      if l.output = o then { l with plane := none, candidatePlanes := [] } else l :=
  Arena.get?_map d.layers _ id.toHandle

/-- The cleared device is one that a search may begin with. -/
theorem wellFormed_cleared (hd : d.WellFormed) {o : OutputId} (ho : (d.output? o).isSome) :
    (d.cleared o).WellFormed := by
  obtain ⟨out, hout⟩ := Option.isSome_iff_exists.mp ho
  have h := clear_spec hd hout
  unfold Ensures at h
  split at h
  · obtain ⟨hd', heq, -⟩ := h
    exact (heq ▸ hd').of_talks ⟨_, rfl⟩
  · exact h.elim

/-- A cleared output is without links, and the others keep theirs. -/
theorem mem_links_cleared (d : Device σ) (o o' : OutputId) (x : UInt32 × LayerId) :
    x ∈ (d.cleared o).wiring.links o' ↔ o' ≠ o ∧ x ∈ d.wiring.links o' := by
  simp only [Wiring.links, wiring, Set.mem_ofPred_eq, layer?_cleared]
  cases hl : d.layer? x.2 with
  | none => simp
  | some l =>
    -- A layer of the output itself has no place any more, any other keeps its own.
    by_cases ho : l.output = o
    · simp only [Layer.place, ho, Option.map_some, ↓reduceIte, Option.some.injEq, Prod.mk.injEq]
      constructor
      · rintro ⟨-, hnone⟩
        cases hnone
      · rintro ⟨hne, he, -⟩
        exact absurd he.symm hne
    · simp only [Layer.place, ho, Option.map_some, ↓reduceIte, Option.some.injEq, Prod.mk.injEq]
      constructor
      · rintro ⟨he, hq⟩
        exact ⟨fun h => ho (he.trans h), he, hq⟩
      · exact fun h => h.2

end Device

end Scanout
