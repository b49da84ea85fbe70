import Mathlib.Logic.Relation
import Scanout.Proofs.Device.Planes

/-! Whatever an operation does to a device, it does in small changes. What each change keeps is kept
by the whole operation, also by one that stops half-way. -/

namespace Scanout

variable {σ : Type}

def Output.pipe (out : Output) : UInt32 × Nat := (out.crtc, out.crtcIndex)

def Output.order (out : Output) : List LayerId × Option LayerId := (out.layers, out.compositionLayer)

namespace Device

section Rules

variable {R : Device σ → Device σ → Prop} [IsPreorder (Device σ) R]

/-- What putting the edited layer in its place is kept by, an edit is kept by that may be refused. -/
theorem stays_editLayer {id : LayerId} {edit : Layer → Except Error Layer}
    (hedit : ∀ d l l', d.layer? id = some l → edit l = .ok l' → R d (d.withLayer id fun _ => l')) :
    Stays R (editLayer id edit) := by
  intro d
  simp only [editLayer, ensures_bind, ensures_layer]
  refine ⟨fun l hl => ?_, fun _ => refl_of R d⟩
  -- An edit may be refused, and then the device is left alone.
  split
  · rename_i l' hl'
    exact hedit d l l' hl hl'
  · exact refl_of R d

section Outputs

variable (houtput : ∀ d o f, (∀ out : Output, (f out).pipe = out.pipe) → R d (d.withOutput o f))
include houtput

/-- What edits of an output are kept by that leave it on its pipe, the choice of a layer for composition is
kept by. -/
theorem stays_setCompositionLayer (o : OutputId) (id : LayerId) : Stays R (setCompositionLayer o id) := by
  apply (stays_layer id).bind
  intro l
  -- After the check for the owner, one output is edited.
  have hrest : Stays R (do
      let _ ← Device.output o
      modify (·.withOutput o fun out => { out with
        layersChanged := out.layersChanged || out.compositionLayer != some id
        compositionLayer := some id }) : DeviceM σ Unit) := by
    apply (stays_output o).bind
    exact fun _ => stays_modify fun d => houtput d o _ fun _ => rfl
  split
  · exact (stays_throw _).bind fun _ => hrest
  · exact hrest

variable (hunlink : ∀ d q, R d (d.unlink q))
  (hdrop : ∀ d (id : LayerId), R d { d with layers := d.layers.remove id.toHandle })
include hunlink hdrop

/-- The end of a layer takes its plane, then its place in the arena, then its place in the output. -/
theorem stays_destroyLayer (id : LayerId) : Stays R (destroyLayer id) := by
  apply (stays_layer id).bind
  intro l
  -- What is dropped is first the layer, and then its name with the output.
  have hrest : Stays R (do
      modify fun d : Device σ => { d with layers := d.layers.remove id.toHandle }
      let _ ← output l.output
      modify (·.withOutput l.output (·.without id))) := by
    refine Stays.bind (stays_modify fun d => hdrop d id) fun _ => ?_
    exact (stays_output _).bind fun _ => stays_modify fun d => houtput d _ _ fun _ => rfl
  split
  · exact Stays.bind (fun d => hunlink d _) fun _ => hrest
  · exact hrest

theorem stays_destroyOutput
    (hend : ∀ d (o : OutputId), R d { d with outputs := d.outputs.remove o.toHandle })
    (o : OutputId) : Stays R (destroyOutput o) := by
  apply (stays_output o).bind
  intro out
  apply (stays_forM fun id _ => stays_destroyLayer houtput hunlink hdrop id).bind
  exact fun _ => stays_modify fun d => hend d o

end Outputs

theorem stays_unregisterPlane (hunlink : ∀ d q, R d (d.unlink q))
    (hforget : ∀ d q, R d { d with planes := d.planes.filter fun p => p.id ≠ q }) (q : UInt32) :
    Stays R (unregisterPlane q) := by
  apply stays_get.bind
  intro d
  split
  · refine Stays.bind (fun d => hunlink d q) fun _ => ?_
    exact Stays.bind (stays_modify fun d => hforget d q) fun _ => stays_pure _
  · exact stays_pure _

section Links

variable (hplane : ∀ d q (layer : Option LayerId), R d (d.withPlane q ({ · with layer })))
include hplane

/-- What is kept when one side of a link is written, is kept when both are. -/
theorem rel_unlink (hlose : ∀ d id, R d (d.withLayer id ({ · with plane := none }))) (d : Device σ)
    (q : UInt32) : R d (d.unlink q) := by
  unfold unlink
  split
  · exact trans_of R (hlose d _) (hplane _ q none)
  · exact refl_of R d

theorem rel_link (hlayer : ∀ d id (plane : Option UInt32), R d (d.withLayer id ({ · with plane })))
    (d : Device σ) (q : UInt32) (id : LayerId) : R d (d.link q id) := by
  simp only [link]
  -- A layer on the new plane loses its place first.
  have hplaced : ∀ d₁ : Device σ, R d₁
      ((d₁.withLayer id ({ · with plane := some q })).withPlane q ({ · with layer := some id })) :=
    fun d₁ => trans_of R (hlayer d₁ id (some q)) (hplane _ q (some id))
  -- So does the plane that the layer had.
  refine trans_of R (rel_unlink hplane (fun d id => hlayer d id none) d q) ?_
  split
  · exact trans_of R (hplane _ _ none) (hplaced _)
  · exact hplaced _

end Links

end Rules

/-- A change of a device that makes neither a layer nor an output. The driver moves on as `T` allows,
and layers are edited as `E` allows. -/
inductive Change [Kernel σ] (T : σ → σ → Prop) (E : LayerId → Layer → Layer → Prop) :
    Device σ → Device σ → Prop
  | configure (d : Device σ) (config : Config) : Change T E d { d with config }
  | talk (d : Device σ) (session : Session σ) (moves : T d.session.kernel session.kernel) :
      Change T E d { d with session }
  | editLayer (d : Device σ) (id : LayerId) (f : Layer → Layer)
      (edits : ∀ l, d.layer? id = some l → E id l (f l)) : Change T E d (d.withLayer id f)
  | editLayers (d : Device σ) (applyCount : Nat) (f : Layer → Layer)
      (edits : ∀ id l, E id l (f l)) :
      Change T E d { d with applyCount, layers := d.layers.map f }
  | dropLayer (d : Device σ) (id : LayerId) :
      Change T E d { d with layers := d.layers.remove id.toHandle }
  | editOutput (d : Device σ) (o : OutputId) (f : Output → Output)
      (keeps : ∀ out, (f out).pipe = out.pipe) : Change T E d (d.withOutput o f)
  | dropOutput (d : Device σ) (o : OutputId) :
      Change T E d { d with outputs := d.outputs.remove o.toHandle }
  | rewire (d : Device σ) (q : UInt32) (layer : Option LayerId) :
      Change T E d (d.withPlane q ({ · with layer }))
  | addPlane (d : Device σ) (p : Plane) (info : PlaneInfo)
      (described : Kernel.plane d.session.kernel p.id = .ok info)
      (descriptors : p.descriptors = info.properties.map Prod.fst) :
      Change T E d { d with planes := p.insertInto d.planes }
  | dropPlane (d : Device σ) (q : UInt32) :
      Change T E d { d with planes := d.planes.filter fun p => p.id ≠ q }

abbrev Changes [Kernel σ] (T : σ → σ → Prop) (E : LayerId → Layer → Layer → Prop) :
    Device σ → Device σ → Prop := Relation.ReflTransGen (Change T E)

instance [Kernel σ] (T : σ → σ → Prop) (E : LayerId → Layer → Layer → Prop) :
    IsPreorder (Device σ) (Changes T E) where
  refl _ := .refl
  trans _ _ _ := .trans

variable [Kernel σ] {T : σ → σ → Prop} {E : LayerId → Layer → Layer → Prop} {d d' : Device σ}

theorem Changes.mono {T' : σ → σ → Prop} {E' : LayerId → Layer → Layer → Prop}
    (hT : ∀ k k', T k k' → T' k k') (hE : ∀ id l l', E id l l' → E' id l l') (h : Changes T E d d') :
    Changes T' E' d d' := by
  -- Each change of the chain is one of the wider kind.
  refine Relation.ReflTransGen.mono (fun d d' hchange => ?_) _ _ h
  cases hchange with
  | configure config => exact .configure d config
  | talk session moves => exact .talk d session (hT _ _ moves)
  | editLayer id f edits => exact .editLayer d id f fun l hl => hE id _ _ (edits l hl)
  | editLayers n f edits => exact .editLayers d n f fun id l => hE id _ _ (edits id l)
  | dropLayer id => exact .dropLayer d id
  | editOutput o f keeps => exact .editOutput d o f keeps
  | dropOutput o => exact .dropOutput d o
  | rewire q layer => exact .rewire d q layer
  | addPlane p info described descriptors => exact .addPlane d p info described descriptors
  | dropPlane q => exact .dropPlane d q

theorem Changes.kernel (h : Changes T E d d') {R : σ → σ → Prop} [IsPreorder σ R]
    (hT : ∀ k k', T k k' → R k k') : R d.session.kernel d'.session.kernel := by
  induction h with
  | refl => exact refl_of R _
  | tail _ hchange ih =>
    apply trans_of R ih
    cases hchange with
    | talk session moves => exact hT _ _ moves
    | _ => exact refl_of R _

theorem Changes.crtcs (h : Changes T E d d') : d'.crtcs = d.crtcs := by
  induction h with
  | refl => rfl
  | tail _ hchange ih =>
    refine Eq.trans ?_ ih
    cases hchange <;> rfl

/-- Each layer is one that was there before, edited as allowed. -/
theorem Changes.exists_layer (h : Changes T E d d') (hrefl : ∀ id l, E id l l)
    (htrans : ∀ {id l l' l''}, E id l l' → E id l' l'' → E id l l'') {id : LayerId} {l' : Layer}
    (hl' : d'.layer? id = some l') : ∃ l, d.layer? id = some l ∧ E id l l' := by
  -- Induction on the changes. Three of them touch layers, and none makes one.
  induction h generalizing l' with
  | refl => exact ⟨l', hl', hrefl id l'⟩
  | tail _ hchange ih =>
    cases hchange with
    | editLayer id' f edits =>
      rw [layer?_withLayer] at hl'
      split at hl'
      · rename_i hid
        subst hid
        obtain ⟨l₁, hl₁, rfl⟩ := Option.map_eq_some_iff.mp hl'
        obtain ⟨l, hl, hedits⟩ := ih hl₁
        exact ⟨l, hl, htrans hedits (edits l₁ hl₁)⟩
      · exact ih hl'
    | editLayers n f edits =>
      rw [layer?, Arena.get?_map] at hl'
      obtain ⟨l₁, hl₁, rfl⟩ := Option.map_eq_some_iff.mp hl'
      obtain ⟨l, hl, hedits⟩ := ih hl₁
      exact ⟨l, hl, htrans hedits (edits id l₁)⟩
    | dropLayer id' =>
      rw [layer?, Arena.get?_remove] at hl'
      split at hl'
      · cases hl'
      · exact ih hl'
    | _ => exact ih hl'

/-- Each output is one that was there before, on the same pipe. -/
theorem Changes.exists_output (h : Changes T E d d') {o : OutputId} {out' : Output}
    (hout' : d'.output? o = some out') : ∃ out, d.output? o = some out ∧ out'.pipe = out.pipe := by
  -- Induction on the changes. Two of them touch outputs, and none makes one.
  induction h generalizing out' with
  | refl => exact ⟨out', hout', rfl⟩
  | tail _ hchange ih =>
    cases hchange with
    | editOutput o' f keeps =>
      rw [output?_withOutput] at hout'
      split at hout'
      · obtain ⟨out₁, hout₁, rfl⟩ := Option.map_eq_some_iff.mp hout'
        obtain ⟨out, hout, hpipe⟩ := ih hout₁
        exact ⟨out, hout, (keeps out₁).trans hpipe⟩
      · exact ih hout'
    | dropOutput o' =>
      rw [output?, Arena.get?_remove] at hout'
      split at hout'
      · cases hout'
      · exact ih hout'
    | _ => exact ih hout'

/-- What holds of a plane as the driver describes it, whatever the plane shows, holds of all planes. -/
theorem Changes.planes (h : Changes T E d d') {P : σ → Plane → Prop}
    (hT : ∀ k k' p, T k k' → P k p → P k' p) (hlayer : ∀ k p layer, P k p → P k { p with layer })
    (hnew : ∀ k p info, Kernel.plane k p.id = .ok info →
      p.descriptors = info.properties.map Prod.fst → P k p)
    (hd : ∀ p ∈ d.planes, P d.session.kernel p) : ∀ p ∈ d'.planes, P d'.session.kernel p := by
  -- Induction on the changes. The driver may move, and planes come, go and are linked.
  induction h with
  | refl => exact hd
  | tail _ hchange ih =>
    cases hchange with
    | talk session moves => exact fun p hp => hT _ _ p moves (ih p hp)
    | rewire q layer =>
      intro p hp
      obtain ⟨p₁, hp₁, rfl⟩ := List.mem_map.mp hp
      split
      · exact hlayer _ p₁ layer (ih p₁ hp₁)
      · exact ih p₁ hp₁
    | addPlane p₁ info described descriptors =>
      intro p hp
      rcases List.mem_cons.mp ((p₁.insertInto_perm _).mem_iff.mp hp) with rfl | hp
      · exact hnew _ p info described descriptors
      · exact ih p hp
    | dropPlane q => exact fun p hp => ih p (List.mem_of_mem_filter hp)
    | _ => exact ih

section Operations

theorem changes_onSession {α : Type} {x : SessionM σ α}
    (hx : Stays (fun s s' => T s.kernel s'.kernel) x) : Stays (Changes T E) (onSession x) := by
  intro d
  rw [ensures_onSession]
  exact (hx d.session).imp fun session h => .single (.talk d session h)

theorem changes_editLayer {id : LayerId} {edit : Layer → Except Error Layer}
    (hedit : ∀ l l', edit l = .ok l' → E id l l') : Stays (Changes T E) (editLayer id edit) := by
  refine stays_editLayer fun d l l' hl hl' => .single (.editLayer d id _ fun l₁ hl₁ => ?_)
  obtain rfl := Option.some.inj (hl.symm.trans hl₁)
  exact hedit l l' hl'

theorem changes_setCompositionLayer (o : OutputId) (id : LayerId) :
    Stays (Changes T E) (setCompositionLayer o id) :=
  stays_setCompositionLayer (fun d o f keeps => .single (.editOutput d o f keeps)) o id

section Losses

variable (hlose : ∀ id l, E id l { l with plane := none })
include hlose

theorem changes_unlink (d : Device σ) (q : UInt32) : Changes T E d (d.unlink q) :=
  rel_unlink (fun d q layer => .single (.rewire d q layer))
    (fun d id => .single (.editLayer d id _ fun l _ => hlose id l)) d q

theorem changes_destroyLayer (id : LayerId) : Stays (Changes T E) (destroyLayer id) :=
  stays_destroyLayer (fun d o f keeps => .single (.editOutput d o f keeps)) (changes_unlink hlose)
    (fun d id => .single (.dropLayer d id)) id

theorem changes_destroyOutput (o : OutputId) : Stays (Changes T E) (destroyOutput o) :=
  stays_destroyOutput (fun d o f keeps => .single (.editOutput d o f keeps)) (changes_unlink hlose)
    (fun d id => .single (.dropLayer d id)) (fun d o => .single (.dropOutput d o)) o

theorem changes_unregisterPlane (q : UInt32) : Stays (Changes T E) (unregisterPlane q) :=
  stays_unregisterPlane (changes_unlink hlose) (fun d q => .single (.dropPlane d q)) q

end Losses

section Talks

variable (hrest : ∀ k, T k k)
include hrest

theorem changes_emit (e : Event) : Stays (Changes T E) (onSession (Session.emit e)) :=
  changes_onSession fun s => hrest s.kernel

theorem changes_log (severity : Severity) (note : Note) : Stays (Changes T E) (log severity note) :=
  changes_emit hrest _

theorem changes_commit {request : Request} {flags : CommitFlags}
    (hcommit : ∀ k, T k (Kernel.commit k request flags).2) :
    Stays (Changes T E) (Device.commit request flags) := by
  refine Stays.bind (fun d => .single (.talk d _ (hcommit _))) fun reply => ?_
  split
  · exact stays_pure _
  · exact (changes_log hrest _ _).bind fun _ => stays_throw _

theorem Idles.changes (h : Idles d d') : Changes T E d d' := by
  obtain ⟨trace, rfl⟩ := h
  exact .single (.talk d _ (hrest _))

theorem changes_registerPlane (q : UInt32) : Stays (Changes T E) (registerPlane q) := by
  refine fun d => (registerPlane_spec d q).mono ?_ fun _ _ h => h.changes hrest
  rintro - _ ⟨-, p, info, d₁, hinfo, hdescribes, hidles, rfl⟩
  have htalks := hidles.changes (T := T) (E := E) hrest
  obtain ⟨trace, rfl⟩ := hidles
  exact htalks.tail (.addPlane _ p info (hdescribes.id ▸ hinfo) hdescribes.descriptors)

theorem changes_registerAllPlanes : Stays (Changes T E) (registerAllPlanes (σ := σ)) := by
  apply (stays_query _).bind
  exact fun ids => stays_forM fun q _ => changes_registerPlane hrest q

end Talks

omit [Kernel σ] in
theorem createLayer_layers (hd : d.layers.WellFormed) (hr : d.layers.HasRoom) (o : OutputId) :
    Ensures (createLayer o) d
      (fun id d' => d'.session = d.session ∧ d'.crtcs = d.crtcs ∧ d'.planes = d.planes ∧
        (∀ id', d'.layer? id' = if id' = id then some { output := o } else d.layer? id') ∧
        ∀ o' out', d'.output? o' = some out' →
          ∃ out, d.output? o' = some out ∧ out'.pipe = out.pipe)
      (fun _ d' => d' = d) := by
  obtain ⟨h, layers, hinsert, -, -, hget⟩ := Arena.exists_insert hd hr { output := o }
  simp only [createLayer, hinsert, ensures_bind, ensures_output, ensures_get, ensures_set,
    ensures_pure]
  -- The new layer is blank, and found under the new handle.
  refine ⟨fun out hout => ⟨rfl, rfl, rfl, fun id' => ?_, fun o' out' hout' => ?_⟩,
    fun _ => trivial⟩
  · simp only [← LayerId.toHandle_inj]
    exact hget id'.toHandle
  -- The output it is for has one layer more, on the same pipe.
  · rw [output?_withOutput] at hout'
    split at hout'
    · obtain ⟨out₁, hout₁, rfl⟩ := Option.map_eq_some_iff.mp hout'
      exact ⟨out₁, hout₁, rfl⟩
    · exact ⟨out', hout', rfl⟩

omit [Kernel σ] in
theorem createOutput_outputs (hd : d.outputs.WellFormed) (hr : d.outputs.HasRoom) (crtc : UInt32) :
    Ensures (createOutput crtc) d
      (fun _ d' => d'.session = d.session ∧ d'.crtcs = d.crtcs ∧ d'.planes = d.planes ∧
        d'.layers = d.layers ∧
        ∀ o' out', d'.output? o' = some out' →
          d.output? o' = some out' ∨ d.output? o' = none ∧ out'.crtc ∈ d.crtcs)
      (fun _ d' => d' = d) := by
  simp only [createOutput, ensures_bind, ensures_get]
  -- Without such a pipe no output is created.
  cases hfind : d.crtcs.findIdx? (· == crtc) with
  | none => simp
  | some i =>
    obtain ⟨h, outputs, hinsert, -, hfresh, hget⟩ :=
      Arena.exists_insert hd hr { crtc, crtcIndex := i }
    simp only [hinsert, ensures_bind, ensures_set, ensures_pure]
    refine ⟨trivial, trivial, trivial, trivial, fun o' out' hout' => ?_⟩
    have hnew := hget o'.toHandle
    rw [output?, hnew] at hout'
    -- The new output is on the pipe that was asked for, which the device has.
    split at hout'
    · rename_i hnewest
      rw [← hnewest] at hfresh
      obtain ⟨hi, hcrtc, -⟩ := List.findIdx?_eq_some_iff_getElem.mp hfind
      rw [← Option.some.inj hout', ← (beq_iff_eq.mp hcrtc)]
      exact .inr ⟨hfresh, List.getElem_mem hi⟩
    · exact .inl hout'

end Operations

end Device

end Scanout
