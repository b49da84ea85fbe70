import Scanout.Device.Layers
import Scanout.Device.Planes
import Scanout.Proofs.Kernel.Alike

namespace Scanout

variable {σ α β : Type} {R : σ → σ → Prop} {E : Failure → σ → σ → Prop}

namespace Device

def Over (R : σ → σ → Prop) (d d' : Device σ) : Prop :=
  ∃ session, d' = { d with session } ∧ d.session.Over R session

abbrev Agree (R : σ → σ → Prop) (E : Failure → σ → σ → Prop) (x y : DeviceM σ α) : Prop :=
  Alike (Over R) (fun e => Over (E e)) x y

theorem alike_onSession {x y : SessionM σ α} (h : Session.Agree R E x y) :
    Agree R E (onSession x) (onSession y) := by
  rintro d _ ⟨session, rfl, hover⟩
  have hend := h _ _ hover
  -- The device goes along unread, so only the results of the sessions matter.
  simp only [onSession]
  generalize x d.session = r at hend ⊢
  generalize y session = r' at hend ⊢
  cases hend with
  | ok h => exact .ok ⟨_, rfl, h⟩
  | error h => exact .error ⟨_, rfl, h⟩

theorem alike_emit (e : Event) :
    Agree R E (onSession (Session.emit e)) (onSession (Session.emit e)) :=
  alike_onSession (Session.alike_emit e)

theorem alike_log (severity : Severity) (note : Note) :
    Agree R E (log severity note) (log severity note) := alike_emit _

/-- An edit that has nothing to do with the driver does the same on both sides. -/
theorem alike_edit {f : Device σ → Device σ}
    (hf : ∀ d session, f { d with session } = { f d with session }) :
    Agree R E (modify f) (modify f) := by
  apply alike_modify
  rintro d _ ⟨session, rfl, hover⟩
  have hsession : (f d).session = d.session := (congrArg Device.session (hf d d.session) :)
  exact ⟨session, hf d session, hsession.symm ▸ hover⟩

theorem alike_withLayer (id : LayerId) (f : Layer → Layer) :
    Agree R E (modify (·.withLayer id f)) (modify (·.withLayer id f)) :=
  alike_edit fun _ _ => rfl

theorem alike_withOutput (o : OutputId) (f : Output → Output) :
    Agree R E (modify (·.withOutput o f)) (modify (·.withOutput o f)) :=
  alike_edit fun _ _ => rfl

/-- Of the device only what is not the driver's is read. -/
theorem alike_read {f g : Device σ → DeviceM σ β}
    (hf : ∀ d session, d.session.Over R session → Agree R E (f d) (g { d with session })) :
    Agree R E (get >>= f) (get >>= g) := by
  apply alike_get_bind
  rintro d _ ⟨session, rfl, hover⟩
  exact hf d session hover

theorem output?_session (d : Device σ) (session : Session σ) (o : OutputId) :
    ({ d with session } : Device σ).output? o = d.output? o := rfl

theorem layer?_session (d : Device σ) (session : Session σ) (id : LayerId) :
    ({ d with session } : Device σ).layer? id = d.layer? id := rfl

theorem unlink_session (d : Device σ) (session : Session σ) (q : UInt32) :
    ({ d with session } : Device σ).unlink q = { d.unlink q with session } := by
  have hplane : ({ d with session } : Device σ).plane? q = d.plane? q := rfl
  unfold unlink
  rw [hplane]
  split <;> rfl

theorem link_session (d : Device σ) (session : Session σ) (q : UInt32) (id : LayerId) :
    ({ d with session } : Device σ).link q id = { d.link q id with session } := by
  unfold link
  rw [unlink_session]
  dsimp only
  rw [layer?_session (d.unlink q) session]
  split <;> rfl

section Kernels

variable [Kernel σ] {flags : CommitFlags} (h : Kernel.Alike flags R E)
include h

/-- A failure that the driver has nothing to do with may come at any time. -/
theorem over_of_failure {d d' : Device σ} (hover : Over R d d') (e : Failure) : Over (E e) d d' := by
  obtain ⟨_, rfl, kernel, rfl, hR⟩ := hover
  exact ⟨_, rfl, kernel, rfl, h.fail hR e⟩

theorem alike_fails (e : Failure) : Agree R E (throw e : DeviceM σ α) (throw e) :=
  alike_throw fun _ _ hover => over_of_failure h hover e

theorem alike_output (o : OutputId) : Agree R E (Device.output o) (Device.output o) := by
  apply alike_read
  intro d session _
  rw [output?_session d session]
  cases d.output? o with
  | none => exact alike_fails h _
  | some out => exact alike_pure out

theorem alike_layer (id : LayerId) : Agree R E (layer id) (layer id) := by
  apply alike_read
  intro d session _
  rw [layer?_session d session]
  cases d.layer? id with
  | none => exact alike_fails h _
  | some l => exact alike_pure l

theorem alike_editLayer (id : LayerId) (edit : Layer → Except Error Layer) :
    Agree R E (editLayer id edit) (editLayer id edit) := by
  refine (alike_layer h id).bind fun l => ?_
  cases edit l with
  | ok l' => exact alike_withLayer id _
  | error e => exact alike_fails h _

theorem alike_setLink (q : UInt32) (layer : Option LayerId) :
    Agree R E (setLink q layer) (setLink q layer) := by
  have hunlink : Agree R E (modify (·.unlink q)) (modify (·.unlink q)) :=
    alike_edit fun d session => d.unlink_session session q
  cases layer with
  | none => exact hunlink
  -- To link depends on the layer, which both devices have or lack.
  | some id =>
    apply alike_read
    intro d session _
    rw [layer?_session d session]
    split
    · exact alike_edit fun d session => d.link_session session q id
    · exact hunlink.bind fun _ => alike_fails h _

theorem alike_query {ask : σ → Except Errno α} (hask : ∀ {k k'}, R k k' → ask k' = ask k) :
    Agree R E (query ask) (query ask) := by
  apply alike_read
  rintro d _ ⟨kernel, rfl, hR⟩
  dsimp only
  rw [hask hR]
  cases ask d.session.kernel with
  | ok a => exact alike_pure a
  | error e => exact alike_fails h _

theorem alike_formatsOf (q : UInt32) (blob : UInt64) :
    Agree R E (formatsOf q blob) (formatsOf q blob) := by
  refine (alike_query h fun hR => h.blob hR blob).bind fun bytes => ?_
  dsimp only
  split
  · exact (alike_log _ _).bind fun _ => alike_pure _
  · exact alike_pure _

theorem alike_registerPlane (q : UInt32) : Agree R E (registerPlane q) (registerPlane q) := by
  apply alike_read
  -- Both devices know the plane, or neither does.
  intro d session _
  have hplane : ({ d with session } : Device σ).plane? q = d.plane? q := rfl
  rw [hplane]
  dsimp only
  split
  · exact (alike_log _ _).bind fun _ => alike_fails h (.error (.duplicatePlane q))
  · refine (alike_query h fun hR => h.plane hR q).bind fun info => ?_
    have hstore : ∀ planes, Agree R E (modify ({ · with planes })) (modify ({ · with planes })) :=
      fun _ => alike_edit fun _ _ => rfl
    split
    · -- What the plane becomes depends on the planes that are there, and these are the same.
      split
      · refine (alike_formatsOf h q _).bind fun formats => ?_
        apply alike_read
        intro d session _
        exact (alike_log _ _).bind fun _ => hstore _
      · refine (alike_pure none).bind fun formats => ?_
        apply alike_read
        intro d session _
        exact (alike_log _ _).bind fun _ => hstore _
    · exact (alike_log _ _).bind fun _ => alike_fails h _

theorem alike_registerAllPlanes : Agree R E registerAllPlanes registerAllPlanes :=
  (alike_query h h.planeIds).bind fun _ => alike_forM fun q _ => alike_registerPlane h q

theorem alike_unregisterPlane (q : UInt32) : Agree R E (unregisterPlane q) (unregisterPlane q) := by
  apply alike_read
  intro d session _
  have hplane : ({ d with session } : Device σ).plane? q = d.plane? q := rfl
  rw [hplane]
  split
  · exact (alike_setLink h q none).bind fun _ => (alike_edit fun _ _ => rfl).bind fun _ => alike_pure _
  · exact alike_pure _

theorem alike_createOutput (crtc : UInt32) : Agree R E (createOutput crtc) (createOutput crtc) := by
  apply alike_read
  intro d session hover
  dsimp only
  cases d.crtcs.findIdx? (· == crtc) with
  | none => exact alike_fails h _
  | some index => exact (alike_set ⟨session, rfl, hover⟩).bind fun _ => alike_pure _

theorem alike_createLayer (o : OutputId) : Agree R E (createLayer o) (createLayer o) := by
  refine (alike_output h o).bind fun _ => ?_
  apply alike_read
  intro d session hover
  exact (alike_set ⟨session, rfl, hover⟩).bind fun _ => alike_pure _

theorem alike_destroyLayer (id : LayerId) : Agree R E (destroyLayer id) (destroyLayer id) := by
  refine (alike_layer h id).bind fun l => ?_
  -- Whether the layer has a plane decides only what is done first.
  have hrest : Agree R E (do
      modify fun d : Device σ => { d with layers := d.layers.remove id.toHandle }
      let _ ← Device.output l.output
      modify (·.withOutput l.output fun o =>
        { o with
          compositionLayer := if o.compositionLayer = some id then none else o.compositionLayer
          layers := o.layers.filter (· ≠ id)
          layersChanged := true })) _ :=
    (alike_edit fun _ _ => rfl).bind fun _ => (alike_output h _).bind fun _ => alike_withOutput _ _
  cases l.plane with
  | none => exact hrest
  | some q => exact (alike_setLink h q none).bind fun _ => hrest

theorem alike_destroyOutput (o : OutputId) : Agree R E (destroyOutput o) (destroyOutput o) := by
  refine (alike_output h o).bind fun out => ?_
  exact (alike_forM fun id _ => alike_destroyLayer h id).bind fun _ => alike_edit fun _ _ => rfl

theorem alike_setCompositionLayer (o : OutputId) (id : LayerId) :
    Agree R E (setCompositionLayer o id) (setCompositionLayer o id) := by
  refine (alike_layer h id).bind fun l => ?_
  split
  · exact (alike_fails h _).bind fun _ => (alike_output h o).bind fun _ => alike_withOutput o _
  · exact (alike_output h o).bind fun _ => alike_withOutput o _

end Kernels

end Device

end Scanout
