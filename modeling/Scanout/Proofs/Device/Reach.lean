import Scanout.Proofs.Allocation.Changes
import Scanout.Proofs.Device.Run
import Scanout.Proofs.Property.Bag

namespace Scanout

variable {σ : Type} [Kernel σ]

namespace Operation

/-- `T` and `E` allow all that the operation does to the driver and to the layers there are. -/
structure Allowed (op : Operation σ) (T : σ → σ → Prop) (E : LayerId → Layer → Layer → Prop) : Prop where
  rest : ∀ k, T k k
  lose : ∀ id l, E id l { l with plane := none }
  act : match op with
    | .drive f => ∀ k, T k (f k)
    | .commit request flags => ∀ k, T k (Kernel.commit k request flags).2
    | .setProperty id name value => ∀ l l', l.setProperty name value = .ok l' → E id l l'
    | .unsetProperty id name => ∀ l, E id l (l.unsetProperty name)
    | .forceComposition id => ∀ l, E id l l.forceComposition
    | .apply _ _ flags _ => (∀ k k', Kernel.Asks flags k k' → T k k') ∧
        (∀ id l l', l'.content = l.content → E id l l') ∧ ∀ id l, E id l l.markClean
    | _ => True

def Makes : Operation σ → Prop
  | .createOutput _ | .createLayer _ => True
  | _ => False

open Device in
/-- An operation that makes nothing only changes what is there. -/
theorem changes_perform {op : Operation σ} {T : σ → σ → Prop} {E : LayerId → Layer → Layer → Prop}
    (h : op.Allowed T E) (hmakes : ¬ op.Makes) : Stays (Changes T E) op.perform := by
  obtain ⟨hrest, hlose, hact⟩ := h
  -- Operations that make something are excluded; all others are chains of small changes.
  cases op with
  | configure config => exact stays_modify fun d => .single (.configure d config)
  | drive f => exact stays_modify fun d => .single (.talk d _ (hact _))
  | registerPlane q => exact changes_registerPlane hrest q
  | registerAllPlanes => exact changes_registerAllPlanes hrest
  | unregisterPlane q => exact (changes_unregisterPlane hlose q).bind fun _ => stays_pure _
  | createOutput crtc => exact absurd trivial hmakes
  | destroyOutput o => exact changes_destroyOutput hlose o
  | createLayer o => exact absurd trivial hmakes
  | destroyLayer id => exact changes_destroyLayer hlose id
  | setProperty id name value => exact changes_editLayer hact
  | unsetProperty id name => exact changes_editLayer (rel_of_ok hact)
  | forceComposition id => exact changes_editLayer (rel_of_ok hact)
  | setCompositionLayer o id => exact changes_setCompositionLayer o id
  | apply o request flags options =>
    obtain ⟨hasks, hcontent, hmark⟩ := hact
    have happly : Stays (Frame.Within (Changes (Kernel.Asks flags) E))
        (Frame.apply (σ := σ) o flags options) :=
      Allocation.changes_apply (fun id l l' h => hcontent id l l' h.1) hmark o options
    exact (stays_perform_apply happly request).mono fun _ _ => Changes.mono hasks fun _ _ _ h => h
  | commit request flags => exact changes_commit hrest hact

end Operation

namespace Device

variable {d : Device σ} {op : Operation σ}

/-- At most a blank layer or an output on a pipe of the device is new. -/
structure Gains (d d' : Device σ) : Prop where
  session : d'.session = d.session
  crtcs : d'.crtcs = d.crtcs
  planes : d'.planes = d.planes
  layers : ∀ id l, d'.layer? id = some l → d.layer? id = some l ∨ ∃ o, l = { output := o }
  outputs : ∀ o out', d'.output? o = some out' →
    (∃ out, d.output? o = some out ∧ out'.pipe = out.pipe) ∨ d.output? o = none ∧ out'.crtc ∈ d.crtcs

omit [Kernel σ] in
theorem gains_of_eq {d' : Device σ} (h : d' = d) : Gains d d' := by
  subst h
  exact ⟨rfl, rfl, rfl, fun _ _ => .inl, fun _ out' hout' => .inl ⟨out', hout', rfl⟩⟩

/-- An operation that makes something changes nothing. -/
theorem gains_after (hd : d.WellFormed) (hpermits : d.Permits op) (hmakes : op.Makes) :
    Gains d (d.after op) := by
  apply Ensures.leftBy (P := Gains d)
  cases op with
  | createOutput crtc =>
    simp only [Operation.perform, ensures_bind, ensures_pure]
    refine (createOutput_outputs hd.outputs hpermits crtc).mono ?_ fun _ _ h => gains_of_eq h
    -- What there was is still there, and what is new is blank.
    rintro - d' ⟨hsession, hcrtcs, hplanes, hlayers, houtputs⟩
    refine ⟨hsession, hcrtcs, hplanes, fun id l hl => .inl ?_, fun o out' hout' => ?_⟩
    · simpa only [layer?, hlayers] using hl
    · exact (houtputs o out' hout').imp_left fun hout => ⟨out', hout, rfl⟩
  | createLayer o =>
    simp only [Operation.perform, ensures_bind, ensures_pure]
    refine (createLayer_layers hd.layers hpermits o).mono ?_ fun _ _ h => gains_of_eq h
    rintro id d' ⟨hsession, hcrtcs, hplanes, hlayers, houtputs⟩
    refine ⟨hsession, hcrtcs, hplanes, fun id' l hl => ?_, fun o out' hout' => .inl ?_⟩
    · rw [hlayers] at hl
      split at hl
      · exact .inr ⟨o, (Option.some.inj hl).symm⟩
      · exact .inl hl
    · exact houtputs o out' hout'
  | _ => exact hmakes.elim

/-- An operation changes what is there, or it makes something. -/
theorem changes_or_gains {T : σ → σ → Prop} {E : LayerId → Layer → Layer → Prop}
    (hop : op.Allowed T E) (hd : d.WellFormed) (hpermits : d.Permits op) :
    Changes T E d (d.after op) ∨ Gains d (d.after op) := by
  by_cases hmakes : op.Makes
  · exact .inr (gains_after hd hpermits hmakes)
  · exact .inl (Operation.changes_perform hop hmakes d).leftBy

/-- What a new layer has and no edit takes away, an operation leaves to all layers. -/
theorem layers_after {T : σ → σ → Prop} {P : LayerId → Layer → Prop}
    (hfresh : ∀ id o, P id { output := o }) (hop : op.Allowed T fun id l l' => P id l → P id l')
    (hd : d.WellFormed) (hpermits : d.Permits op) (h : ∀ id l, d.layer? id = some l → P id l) :
    ∀ id l, (d.after op).layer? id = some l → P id l := by
  intro id l' hl'
  -- Either there was the layer before, or it is new.
  rcases changes_or_gains hop hd hpermits with hchanges | hgains
  · obtain ⟨l, hl, hedit⟩ := hchanges.exists_layer (fun _ _ h => h) (fun h h' hl => h' (h hl)) hl'
    exact hedit (h id l hl)
  · rcases hgains.layers id l' hl' with hl | ⟨o, rfl⟩
    · exact h id l' hl
    · exact hfresh id o

/-- What holds of fresh devices and is kept by every operation holds of all that can be reached. -/
theorem Reachable.induction {P : Device σ → Prop}
    (hfresh : ∀ kernel config crtcs, P { session := { kernel }, config, crtcs })
    (hstep : ∀ (d : Device σ) (op : Operation σ), d.WellFormed → d.Permits op → P d → P (d.after op))
    (h : d.Reachable) : P d := by
  obtain ⟨kernel, config, crtcs, ops, hrun⟩ := h
  have hstart := hfresh kernel config crtcs
  have hwell := wellFormed_fresh kernel config crtcs
  generalize ({ session := { kernel }, config, crtcs } : Device σ) = d₀ at hrun hstart hwell
  -- Induction on the run, with a well-formed device at each step.
  induction hrun with
  | nil => exact hstart
  | cons hpermits _ ih =>
    exact ih (hstep _ _ hwell hpermits hstart) (follows_after hwell hpermits).wellFormed

/-- What a new layer has and no edit takes away, every layer has that can be reached. -/
theorem Reachable.forall_layer {P : LayerId → Layer → Prop} (hfresh : ∀ id o, P id { output := o })
    (hop : ∀ op : Operation σ, op.Allowed (fun _ _ => True) fun id l l' => P id l → P id l')
    (h : d.Reachable) : ∀ id l, d.layer? id = some l → P id l :=
  h.induction (P := fun d => ∀ id l, d.layer? id = some l → P id l)
    (fun _ _ _ _ _ hl => by cases hl)
    fun _ op hwell hpermits => layers_after hfresh (hop op) hwell hpermits

/-- Every output that can be reached drives a pipe of the device. -/
theorem Reachable.crtc_mem (h : d.Reachable) {o : OutputId} {out : Output}
    (hout : d.output? o = some out) : out.crtc ∈ d.crtcs := by
  refine h.induction (P := fun d => ∀ o out, d.output? o = some out → out.crtc ∈ d.crtcs)
    (fun _ _ _ _ _ hout => by cases hout) (fun d op hwell hpermits hd o out' hout' => ?_) o out hout
  -- Nothing need be known of layers for this, so anything is allowed.
  have hallowed : op.Allowed (fun _ _ => True) fun _ _ _ => True := by
    refine ⟨fun _ => trivial, fun _ _ => trivial, ?_⟩
    cases op with
    | apply => exact ⟨fun _ _ _ => trivial, fun _ _ _ _ => trivial, fun _ _ => trivial⟩
    | _ => simp
  -- An output is there with the same pipe, or is new on a pipe of the device.
  rcases changes_or_gains hallowed hwell hpermits with hchanges | hgains
  · obtain ⟨out, hout, hpipe⟩ := hchanges.exists_output hout'
    rw [show out'.crtc = out.crtc from congrArg Prod.fst hpipe, hchanges.crtcs]
    exact hd o out hout
  · rw [hgains.crtcs]
    rcases hgains.outputs o out' hout' with ⟨out, hout, hpipe⟩ | ⟨-, hmem⟩
    · rw [show out'.crtc = out.crtc from congrArg Prod.fst hpipe]
      exact hd o out hout
    · exact hmem

end Device

namespace Layer

theorem properties_setProperty {l l' : Layer} {name : String} {value : UInt64}
    (h : l.setProperty name value = .ok l') :
    name ≠ WellKnown.crtcId.name ∧ l'.properties = (l.properties.set name value).2 := by
  obtain ⟨hname, _, _, rfl⟩ := exists_of_setProperty h
  exact ⟨hname, rfl⟩

end Layer

/-- The bags of all layers that can be reached are in order. -/
theorem Device.Reachable.wellFormed_properties {d : Device σ} (h : d.Reachable) {id : LayerId}
    {l : Layer} (hl : d.layer? id = some l) : l.properties.WellFormed := by
  refine h.forall_layer (P := fun _ l => l.properties.WellFormed)
    (fun _ _ => Property.Bag.wellFormed_empty) (fun op => ⟨fun _ => trivial, fun _ _ h => h, ?_⟩) id l hl
  -- Four operations touch a bag, and each does so in a way that keeps it in order.
  cases op with
  | setProperty id name value =>
    intro l l' hl' hbag
    rw [(Layer.properties_setProperty hl').2]
    exact Property.Bag.wellFormed_set hbag name value
  | unsetProperty id name =>
    exact fun l hbag => Property.Bag.wellFormed_remove hbag name
  | forceComposition id =>
    intro l hbag
    unfold Layer.forceComposition
    split
    · exact hbag
    · exact Property.Bag.wellFormed_set hbag _ 0
  | apply o request flags options =>
    refine ⟨fun _ _ _ => trivial, fun _ l l' hcontent hbag => ?_, fun _ l hbag => ?_⟩
    · have hproperties : l'.properties = l.properties := congrArg (·.2.1) hcontent
      rw [hproperties]
      exact hbag
    · exact Property.Bag.wellFormed_markClean hbag
  | drive f => exact fun _ => trivial
  | commit request flags => exact fun _ => trivial
  | _ => exact trivial

/-- No layer that can be reached chooses its pipe itself. -/
theorem Device.Reachable.crtcId_notMem {d : Device σ} (h : d.Reachable) {id : LayerId} {l : Layer}
    (hl : d.layer? id = some l) : WellKnown.crtcId.name ∉ l.properties.names := by
  refine h.forall_layer (P := fun _ l => WellKnown.crtcId.name ∉ l.properties.names)
    (fun _ _ => List.not_mem_nil) (fun op => ⟨fun _ => trivial, fun _ _ h => h, ?_⟩) id l hl
  -- Only two operations bring in a name, and none of them this one.
  cases op with
  | setProperty id name value =>
    intro l l' hl' hpipe hmem
    obtain ⟨hname, hproperties⟩ := Layer.properties_setProperty hl'
    rw [hproperties] at hmem
    rcases List.mem_cons.mp (Property.Bag.names_set_subset name value hmem) with heq | hmem
    · exact hname heq.symm
    · exact hpipe hmem
  | unsetProperty id name =>
    intro l hpipe hmem
    obtain ⟨e, he, hname⟩ := List.mem_map.mp hmem
    exact hpipe (List.mem_map.mpr ⟨e, Property.Bag.mem_remove name he, hname⟩)
  | forceComposition id =>
    intro l hpipe
    unfold Layer.forceComposition
    split
    · exact hpipe
    · intro hmem
      rcases List.mem_cons.mp (Property.Bag.names_set_subset _ 0 hmem) with heq | hmem
      · exact absurd heq (by decide)
      · exact hpipe hmem
  | apply o request flags options =>
    refine ⟨fun _ _ _ => trivial, fun _ l l' hcontent hpipe => ?_, fun _ l hpipe => ?_⟩
    · have hproperties : l'.properties = l.properties := congrArg (·.2.1) hcontent
      rwa [hproperties]
    · have hnames : l.markClean.properties.names = l.properties.names := by
        simp [Layer.markClean, Property.Bag.names, Property.Bag.markClean]
      rwa [hnames]
  | drive f => exact fun _ => trivial
  | commit request flags => exact fun _ => trivial
  | _ => exact trivial

end Scanout
