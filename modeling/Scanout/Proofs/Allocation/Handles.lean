import Scanout.Proofs.Allocation.Course

namespace Scanout

variable {σ : Type}

def Failure.isFault : Failure → Bool
  | .fault _ => true
  | _ => false

namespace Device

variable {d : Device σ}

/-- The layers and outputs behind the links are all there, so at most a property is missing or does not
fit. -/
theorem stageCurrent_no_fault (hd : d.WellFormed) (r : Request) :
    Ensures d.stageCurrent r (fun _ _ => True) fun e _ => e.isFault = false := by
  rw [stageCurrent, Staging.ensures_allOrNothing]
  -- Plane by plane, with nothing to keep from one to the next.
  refine ensures_forM (I := fun _ => True) (fun p hp r _ => ?_) trivial
  unfold stagePlane
  cases hlayer : p.layer with
  | none =>
    rw [ensures_adaptExcept]
    exact (p.stageDisabled_fails r).mono (fun _ _ _ => trivial) fun _ _ _ => rfl
  | some id =>
    -- The layer of a plane and its output are both live.
    obtain ⟨l, hl, -⟩ := layer_of_plane hd.wiring hp hlayer
    obtain ⟨out, hout, -⟩ := output_of_layer hd hl
    simp only [hl, hout]
    rw [ensures_adaptExcept]
    exact (p.stageLayer_fails l out.crtc r).mono (fun _ _ _ => trivial) fun _ _ _ => rfl

theorem output_eq_ok {o : OutputId} {out : Output} (h : d.output? o = some out) :
    Device.output o d = .ok out d := by
  have hread : (get : DeviceM σ (Device σ)) d = .ok d d := rfl
  refine (bind_of_ok hread).trans ?_
  simp only [h]
  rfl

theorem layer_eq_ok {id : LayerId} {l : Layer} (h : d.layer? id = some l) : layer id d = .ok l d := by
  have hread : (get : DeviceM σ (Device σ)) d = .ok d d := rfl
  refine (bind_of_ok hread).trans ?_
  simp only [h]
  rfl

theorem needsComposition_of_live {ids : List LayerId} (hids : ∀ id ∈ ids, (d.layer? id).isSome) :
    ids.anyM (fun id => Layer.needsComposition <$> layer id) d =
      .ok (ids.any fun id => (d.layer? id).any Layer.needsComposition) d := by
  induction ids with
  -- Each layer is read, until the first that needs composition.
  | nil => rfl
  | cons id ids ih =>
    obtain ⟨l, hl⟩ := Option.isSome_iff_exists.mp (hids id List.mem_cons_self)
    have hrest := ih fun id' hid' => hids id' (List.mem_cons_of_mem id hid')
    have hread : (Layer.needsComposition <$> layer id : DeviceM σ Bool) d = .ok l.needsComposition d := by
      simp only [Functor.map, EStateM.map, layer_eq_ok hl]
    rw [List.anyM, bind_of_ok hread, List.any_cons, hl, Option.any_some]
    cases l.needsComposition with
    | true => rfl
    | false => exact hrest

end Device

namespace Session

variable [Kernel σ]

theorem testCommit_no_fault (r : Request) (flags : CommitFlags) (s : Session σ) :
    Ensures (testCommit r flags) s (fun _ _ => True) fun e _ => e.isFault = false := by
  refine (testCommit_spec r flags s).mono (fun _ _ _ => trivial) fun e s' h => ?_
  obtain ⟨-, -, hreply⟩ := h
  cases e with
  | fault f => exact hreply.elim
  | _ => rfl

end Session

namespace Allocation

open Device

variable [Kernel σ] {flags : CommitFlags} {o : OutputId} {d : Device σ}

theorem tryReuse_no_fault (hd : d.WellFormed) (request : Request) :
    Ensures (tryReuse flags) ⟨d, request⟩ (fun _ _ => True) fun e _ => e.isFault = false := by
  refine (tryReuse_fails ⟨d, request⟩).mono (fun _ _ _ => trivial) ?_
  rintro e f' ⟨-, ⟨r, hstage⟩ | ⟨r, session, htest⟩⟩
  · exact (ensures_of_eq_error hstage).mp (stageCurrent_no_fault hd request)
  · exact (ensures_of_eq_error htest).mp (Session.testCommit_no_fault r flags d.session)

theorem setting_no_fault (s : Search.Scene) (s₀ : Session σ) :
    Search.Setting s (fun session => True ∧ Session.Reports [] s₀ session) (fun _ _ => True)
      (fun _ => True) (fun _ e => e.isFault = false) False := by
  refine Search.setting_of_kernel (K := fun _ => True)
    (fun _ _ => ⟨trivial, fun _ h => h, False.elim⟩) (fun r session _ => ?_) False.elim s₀
  exact (Session.testCommit_no_fault r s.flags session).mono
    (fun _ _ _ => ⟨trivial, fun _ h => h, fun _ => trivial, False.elim⟩) fun _ _ h => ⟨trivial, h⟩

theorem allocate_no_fault (hd : d.WellFormed) (ho : (d.output? o).isSome) (options : ApplyOptions)
    (started : HostTime) (request : Request) :
    Ensures (allocate o flags options started) ⟨d, request⟩ (fun _ _ => True)
      fun e _ => e.isFault = false := by
  obtain ⟨out, hout⟩ := Option.isSome_iff_exists.mp ho
  refine (allocate_spec hd hout flags options started
    (setting_no_fault (sceneOf (d.cleared o) out flags options started) d.session)
    (fun _ _ hreports => ⟨trivial, hreports⟩) (fun _ h => h.2) request).mono (fun _ _ _ => trivial) ?_
  -- Switching off, the search and the staging fail with an answer of the driver only.
  rintro e f' ⟨hspares, ⟨session, -, ⟨entry, hdisables⟩ | hasked⟩ | ⟨entry, best, -, -, hstage⟩⟩
  · have hfails := (d.cleared o).disables_fails request
    rw [ensures_of_eq_error hdisables] at hfails
    obtain ⟨q, name, rfl⟩ := hfails
    rfl
  · exact hasked
  · exact (ensures_of_eq_error hstage).mp (stageCurrent_no_fault hspares.wellFormed entry)

/-- An apply on an output that is there comes upon no dead handle, whatever the driver does. -/
theorem apply_no_fault (hd : d.WellFormed) (ho : (d.output? o).isSome) (options : ApplyOptions)
    (request : Request) :
    Ensures (Frame.apply o flags options) ⟨d, request⟩ (fun _ _ => True)
      fun e _ => e.isFault = false := by
  refine (apply_course d o flags options request).mono (fun _ _ _ => trivial) ?_
  -- The three places at which an apply may leave.
  rintro e f' (⟨hdead, -⟩ | ⟨out, changed, d₁, -, -, hbides, hreuse⟩ |
    ⟨out, changed, outcome, d₁, d₂, started, hdecided, -, hsearch⟩)
  · rw [hdead] at ho
    cases ho
  · exact (ensures_of_eq_error hreuse).mp (tryReuse_no_fault (hbides.wellFormed hd) request)
  · have hd₂ := hdecided.decides.wellFormed hd
    exact (ensures_of_eq_error hsearch).mp
      (allocate_no_fault hd₂ hdecided.isSome_output options started request)

end Allocation

namespace Device

/-- In every device that can be reached, the output of a live layer is there, and an output lists the live
layers that name it, each of them once, and among them its composition layer. So an apply on a live output
never ends in a fault, a live output can be destroyed and asked whether it needs composition, and a live
layer can be destroyed. -/
theorem Reachable.handles_resolve [Kernel σ] {d : Device σ} (h : d.Reachable) :
    (∀ id l, d.layer? id = some l →
      (∃ out, d.output? l.output = some out ∧ id ∈ out.layers) ∧ succeeded (destroyLayer id d)) ∧
    ∀ o out, d.output? o = some out →
      out.layers.Nodup ∧ (∀ id, id ∈ out.layers ↔ ∃ l, d.layer? id = some l ∧ l.output = o) ∧
      (∀ id, out.compositionLayer = some id → id ∈ out.layers) ∧
      (∀ flags options request fault f,
        Frame.apply o flags options ⟨d, request⟩ ≠ .error (.fault fault) f) ∧
      succeeded (destroyOutput o d) ∧
      outputNeedsComposition o d =
        .ok (out.layers.any fun id => (d.layer? id).any Layer.needsComposition) d := by
  have hd := h.wellFormed
  refine ⟨fun id l hl => ⟨output_of_layer hd hl, ?_⟩, fun o out hout => ⟨?_, fun id => ⟨?_, ?_⟩, ?_, ?_, ?_, ?_⟩⟩
  -- Neither destroying operation can fail on a live handle.
  · have hdestroy := destroyLayer_spec hd id
    cases hrun : destroyLayer id d with
    | ok => rfl
    | error e d' =>
      rw [ensures_of_eq_error hrun] at hdestroy
      cases hl.symm.trans hdestroy.2
  -- No layer is listed twice.
  · have hmembers : d.wiring.outputs o = some out.members := by simp [wiring, hout]
    exact Multiset.coe_nodup.mp (hd.wiring.layers_nodup o _ _ hmembers)
  · exact fun hid => layer_of_output hd hout hid
  · rintro ⟨l, hl, ho⟩
    exact (listed_iff hd hout hl).mpr ho
  -- The composition layer is one of the listed ones.
  · intro id hid
    have hmembers : d.wiring.outputs o = some (↑out.layers, some id) := by
      simp [wiring, hout, Output.members, hid]
    exact Multiset.mem_coe.mp (hd.wiring.composition_mem o _ id hmembers)
  · intro flags options request fault f hrun
    have hsafe := (ensures_of_eq_error hrun).mp
      (Allocation.apply_no_fault hd (Option.isSome_of_eq_some hout) options request)
    cases hsafe
  · have hdestroy := destroyOutput_spec hd o
    cases hrun : destroyOutput o d with
    | ok => rfl
    | error e d' =>
      rw [ensures_of_eq_error hrun] at hdestroy
      cases hout.symm.trans hdestroy.2
  -- The output is read, and then each of its layers.
  · refine (bind_of_ok (output_eq_ok hout)).trans ?_
    apply needsComposition_of_live
    intro id hid
    obtain ⟨l, hl, -⟩ := layer_of_output hd hout hid
    exact Option.isSome_of_eq_some hl

/-- The small device without its second layer, whose output and layers are asked for. -/
theorem handles_resolve_threeShown :
    let d := threeShown.after (.destroyLayer ⟨⟨1, 0⟩⟩)
    ∃ out, d.output? .first = some out ∧
      (∀ id, id ∈ out.layers ↔ ∃ l, d.layer? id = some l ∧ l.output = .first) ∧
      (∀ flags options request fault f,
        Frame.apply .first flags options ⟨d, request⟩ ≠ .error (.fault fault) f) ∧
      succeeded (destroyOutput .first d) := by
  intro d
  have hpermits : threeShown.Permits (.destroyLayer ⟨⟨1, 0⟩⟩) := trivial
  have hreachable : d.Reachable := reachable_threeShown.after hpermits
  obtain ⟨out, hout⟩ := Option.isSome_iff_exists.mp (show (d.output? .first).isSome by decide +kernel)
  obtain ⟨-, hlisted, -, hsafe, hdestroy, -⟩ := hreachable.handles_resolve.2 .first out hout
  exact ⟨out, hout, hlisted, hsafe, hdestroy⟩

end Device

end Scanout
