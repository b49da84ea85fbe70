import Scanout.Proofs.Allocation.Apply
import Scanout.Proofs.Kernel.Steady

namespace Scanout

variable {σ : Type}

inductive Operation (σ : Type) where
  | configure (config : Config)
  | drive (f : σ → σ)
  | registerPlane (plane : UInt32)
  | registerAllPlanes
  | unregisterPlane (plane : UInt32)
  | createOutput (crtc : UInt32)
  | destroyOutput (o : OutputId)
  | createLayer (o : OutputId)
  | destroyLayer (id : LayerId)
  | setProperty (id : LayerId) (name : String) (value : UInt64)
  | unsetProperty (id : LayerId) (name : String)
  | forceComposition (id : LayerId)
  | setCompositionLayer (o : OutputId) (id : LayerId)
  | apply (o : OutputId) (request : Request) (flags : CommitFlags) (options : ApplyOptions)
  | commit (request : Request) (flags : CommitFlags)

namespace Operation

def perform [Kernel σ] : Operation σ → DeviceM σ Unit
  | configure config => modify ({ · with config })
  | drive f => modify fun d => { d with session := { d.session with kernel := f d.session.kernel } }
  | registerPlane plane => Device.registerPlane plane
  | registerAllPlanes => Device.registerAllPlanes
  | unregisterPlane plane => do let _ ← Device.unregisterPlane plane
  | createOutput crtc => do let _ ← Device.createOutput crtc
  | destroyOutput o => Device.destroyOutput o
  | createLayer o => do let _ ← Device.createLayer o
  | destroyLayer id => Device.destroyLayer id
  | setProperty id name value => Device.setProperty id name value
  | unsetProperty id name => Device.unsetProperty id name
  | forceComposition id => Device.forceComposition id
  | setCompositionLayer o id => Device.setCompositionLayer o id
  | apply o request flags options => fun d =>
    match Frame.apply o flags options ⟨d, request⟩ with
    | .ok _ f => .ok () f.device
    | .error e f => .error e f.device
  | commit request flags => Device.commit request flags

def appliesTo (o : OutputId) : Operation σ → Prop
  | apply o' _ _ _ => o' = o
  | _ => False

def lost : Operation σ → Set UInt32
  | unregisterPlane plane => {plane}
  | _ => ∅

theorem mem_lost {op : Operation σ} {q : UInt32} : q ∈ op.lost ↔ op = unregisterPlane q := by
  cases op with
  | unregisterPlane plane => simp [lost, eq_comm]
  | _ => simp [lost]

end Operation

namespace Device

/-- There is a handle left for what the operation makes. -/
def Permits (d : Device σ) : Operation σ → Prop
  | .createOutput _ => d.outputs.HasRoom
  | .createLayer _ => d.layers.HasRoom
  | _ => True

instance (d : Device σ) (op : Operation σ) : Decidable (d.Permits op) := by
  cases op with
  | createOutput _ => exact inferInstanceAs (Decidable (d.outputs.slots.length < UInt32.size))
  | createLayer _ => exact inferInstanceAs (Decidable (d.layers.slots.length < UInt32.size))
  | _ => exact isTrue trivial

def after [Kernel σ] (d : Device σ) (op : Operation σ) : Device σ := leftBy (op.perform d)

theorem after_apply [Kernel σ] (d : Device σ) (o : OutputId) (request : Request) (flags : CommitFlags)
    (options : ApplyOptions) : d.after (.apply o request flags options) =
      (leftBy (Frame.apply o flags options ⟨d, request⟩)).device := by
  simp only [after, Operation.perform]
  cases Frame.apply o flags options ⟨d, request⟩ <;> rfl

theorem stays_perform_apply [Kernel σ] {R : Device σ → Device σ → Prop} {o : OutputId} {flags : CommitFlags}
    {options : ApplyOptions} (h : Stays (Frame.Within R) (Frame.apply o flags options)) (request : Request) :
    Stays R (Operation.apply o request flags options).perform := by
  intro d
  have happly := h ⟨d, request⟩
  simp only [Ensures, Operation.perform] at happly ⊢
  cases hrun : Frame.apply o flags options ⟨d, request⟩ <;> rw [hrun] at happly <;> exact happly

/-- What an apply leaves that succeeds. -/
theorem exists_after_apply [Kernel σ] (d : Device σ) (o : OutputId) (request : Request)
    (flags : CommitFlags) (options : ApplyOptions)
    (h : succeeded (Frame.apply o flags options ⟨d, request⟩) = true) : ∃ f : Frame σ,
      Frame.apply o flags options ⟨d, request⟩ = .ok () f ∧
        f.device = d.after (.apply o request flags options) :=
  ⟨_, eq_ok_of_succeeded h, (after_apply d o request flags options).symm⟩

inductive Run [Kernel σ] (Step : Device σ → Operation σ → Prop) :
    Device σ → List (Operation σ) → Device σ → Prop
  | nil {d} : Run Step d [] d
  | cons {d op ops d'} : Step d op → Run Step (d.after op) ops d' → Run Step d (op :: ops) d'

def afterAll [Kernel σ] (d : Device σ) (ops : List (Operation σ)) : Device σ := ops.foldl after d

def permitsAll [Kernel σ] (d : Device σ) : List (Operation σ) → Bool
  | [] => true
  | op :: ops => decide (d.Permits op) && (d.after op).permitsAll ops

theorem run_afterAll [Kernel σ] {d : Device σ} {ops : List (Operation σ)}
    (h : d.permitsAll ops = true) : Run Permits d ops (d.afterAll ops) := by
  induction ops generalizing d with
  | nil => exact .nil
  | cons op ops ih =>
    obtain ⟨hop, hops⟩ := Bool.and_eq_true_iff.mp h
    exact .cons (of_decide_eq_true hop) (ih hops)

/-- A device as some run from a fresh one leaves it. -/
def Reachable [Kernel σ] (d : Device σ) : Prop :=
  ∃ kernel config crtcs ops,
    Run Permits ({ session := { kernel }, config, crtcs } : Device σ) ops d

def Leaves (o : OutputId) (op : Operation σ) (d d' : Device σ) : Prop :=
  op ≠ .destroyOutput o ∧ (op.appliesTo o → d'.session.decisions = d.session.decisions)

/-- Either the output knows that its layers have changed, or its links are those of before, up to
planes that were lost. -/
structure Notices (o : OutputId) (lost : Set UInt32) (d d' : Device σ) : Prop where
  changed : d.LayersChanged o → d'.LayersChanged o
  links : d'.LayersChanged o ∨ d'.wiring.links o = {x ∈ d.wiring.links o | x.1 ∉ lost}

/-- What two stretches of a run leave of an output's links: those that neither of them lost. -/
theorem Notices.trans {o : OutputId} {lost lost' : Set UInt32} {d d' d'' : Device σ}
    (h : Notices o lost d d') (h' : Notices o lost' d' d'') : Notices o (lost ∪ lost') d d'' where
  changed hchanged := h'.changed (h.changed hchanged)
  links := by
    -- A change that was noticed in either stretch is still noticed.
    rcases h.links with hchanged | hlinks
    · exact .inl (h'.changed hchanged)
    · apply h'.links.imp_right
      intro hlinks'
      rw [hlinks', hlinks]
      ext x
      simp only [Set.mem_ofPred_eq, Set.mem_union, not_or, and_assoc]

/-- Where neither links nor flags differ there is nothing to notice. -/
theorem notices_of_same {o : OutputId} {d d' : Device σ}
    (hlinks : d'.wiring.links o = d.wiring.links o)
    (hchanged : d.LayersChanged o → d'.LayersChanged o) : Notices o ∅ d d' :=
  ⟨hchanged, .inr (by simp [hlinks])⟩

/-- The device is well-formed still, and no output that the operation leaves fails to notice. -/
structure Follows (op : Operation σ) (d d' : Device σ) : Prop where
  wellFormed : d'.WellFormed
  notices : ∀ o, Leaves o op d d' → Notices o op.lost d d'

section Steps

variable {op : Operation σ} {d d' : Device σ}

theorem follows_of_same (hlost : op.lost = ∅) (hd' : d'.WellFormed)
    (hlinks : ∀ o, d'.wiring.links o = d.wiring.links o)
    (hchanged : ∀ o, d.LayersChanged o → d'.LayersChanged o) : Follows op d d' :=
  ⟨hd', fun o _ => hlost ▸ notices_of_same (hlinks o) (hchanged o)⟩

theorem links_eq {o : OutputId} (h : d'.wiring.layers = d.wiring.layers) :
    d'.wiring.links o = d.wiring.links o := by
  simp only [Wiring.links, h]

theorem layersChanged_eq {o : OutputId} (h : d'.output? o = d.output? o) :
    d.LayersChanged o → d'.LayersChanged o := by
  simp only [LayersChanged, h, imp_self]

variable (hd : d.WellFormed)
include hd

theorem follows_of_eq (hlost : op.lost = ∅) (h : d' = d) : Follows op d d' := by
  subst h
  exact follows_of_same hlost hd (fun _ => rfl) fun _ h => h

theorem follows_talks (hlost : op.lost = ∅) (h : Talks d d') : Follows op d d' := by
  obtain ⟨session, rfl⟩ := h
  exact follows_of_same hlost (hd.of_talks ⟨session, rfl⟩) (fun _ => rfl) fun _ h => h

theorem follows_registers (hlost : op.lost = ∅) (h : Registers d d') : Follows op d d' := by
  refine follows_of_same hlost (h.wellFormed hd) (fun o => links_eq ?_) fun o => layersChanged_eq ?_
  · simp only [wiring, layer?, h.layers]
  · simp only [output?, h.outputs]

theorem follows_quiet (hlost : op.lost = ∅) (h : Quiet d d') : Follows op d d' :=
  follows_of_same hlost (h.wellFormed hd) (fun o => by rw [h.wiring])
    fun o => (h.layersChanged o).mpr

omit hd in
/-- An apply that decides on one output leaves the others alone. -/
theorem follows_decided {o : OutputId} {request : Request} {flags : CommitFlags}
    {options : ApplyOptions} (hd' : d'.WellFormed)
    (hreports : ∃ outcome, Session.Reports [(o, outcome)] d.session d'.session)
    (hlinks : ∀ o' ≠ o, d'.wiring.links o' = d.wiring.links o')
    (hflags : ∀ o' ≠ o, (d'.LayersChanged o' ↔ d.LayersChanged o')) :
    Follows (.apply o request flags options) d d' := by
  refine ⟨hd', fun o' hleaves => ?_⟩
  by_cases ho : o' = o
  -- The output itself is not left alone by this operation: it got a decision.
  · subst ho
    obtain ⟨outcome, hdecided⟩ := hreports
    have hsilent := hdecided.decisions.symm.trans (hleaves.2 rfl)
    simp at hsilent
  · exact notices_of_same (hlinks o' ho) (hflags o' ho).mpr

/-- An edit of a layer that leaves it in its place. -/
theorem follows_editLayer (hlost : op.lost = ∅) (id : LayerId) {edit : Layer → Except Error Layer}
    (hplace : ∀ l l', edit l = .ok l' → l'.place = l.place) :
    Ensures (editLayer id edit) d (fun _ => Follows op d) (fun _ => Follows op d) := by
  simp only [editLayer, ensures_bind, ensures_layer]
  refine ⟨fun l hl => ?_, fun _ => follows_of_eq hd hlost rfl⟩
  split
  · rename_i l' hl'
    rw [ensures_modify]
    have hwiring : (d.withLayer id fun _ => l').wiring = d.wiring := by
      -- The edited layer is in the place it had.
      apply wiring_withLayer_of_place
      intro l₀ hl₀
      obtain rfl := Option.some.inj (hl.symm.trans hl₀)
      exact hplace l l' hl'
    refine follows_of_same hlost ?_ (fun o => by rw [hwiring]) fun o h => h
    exact hd.of_wiring hwiring (Arena.wellFormed_modify hd.layers _ _) hd.outputs
  · exact follows_of_eq hd hlost rfl

end Steps

end Device

namespace Layer

/-- A property that can be set only touches the bag, and what is noted about the layer. -/
theorem exists_of_setProperty {l l' : Layer} {name : String} {value : UInt64}
    (h : l.setProperty name value = .ok l') : name ≠ WellKnown.crtcId.name ∧ ∃ forcedComposition changed,
      l' = { l with properties := (l.properties.set name value).2, forcedComposition, changed } := by
  simp only [setProperty] at h
  split at h
  · cases h
  · rename_i hname
    refine ⟨hname, ?_⟩
    split at h <;> cases h <;> exact ⟨_, _, rfl⟩

theorem place_setProperty {l l' : Layer} {name : String} {value : UInt64}
    (h : l.setProperty name value = .ok l') : l'.place = l.place := by
  obtain ⟨-, _, _, rfl⟩ := exists_of_setProperty h
  rfl

theorem place_unsetProperty (l : Layer) (name : String) : (l.unsetProperty name).place = l.place := rfl

theorem place_forceComposition (l : Layer) : l.forceComposition.place = l.place := by
  unfold forceComposition
  split <;> rfl

end Layer

namespace Device

variable [Kernel σ] {d : Device σ}

theorem talks_commit (request : Request) (flags : CommitFlags) :
    Stays Talks (Device.commit (σ := σ) request flags) := by
  refine Stays.bind (fun d => ⟨_, rfl⟩) fun reply => ?_
  split
  · exact stays_pure _
  · exact (talks_onSession _).bind fun _ => stays_throw _

/-- An output that is made has a handle of its own. -/
theorem follows_createOutput (hd : d.WellFormed) (hr : d.outputs.HasRoom) (crtc : UInt32) :
    Ensures (Operation.createOutput crtc).perform d (fun _ => Follows (.createOutput crtc) d)
      (fun _ => Follows (.createOutput crtc) d) := by
  simp only [Operation.perform, ensures_bind, ensures_pure]
  refine (createOutput_spec hd hr crtc).mono ?_ fun _ _ h => follows_of_eq hd rfl h
  rintro o d' ⟨hd', hnone, hlayers, hothers⟩
  apply follows_of_same rfl hd' (fun o' => links_eq hlayers)
  intro o' hchanged
  -- The output that is new is none of those with a mark.
  have hne : o' ≠ o := by
    rintro rfl
    obtain ⟨out, hout, -⟩ := hchanged
    rw [hnone] at hout
    cases hout
  exact layersChanged_eq (hothers o' hne) hchanged

/-- Its output notices a layer that is made. -/
theorem follows_createLayer (hd : d.WellFormed) (hr : d.layers.HasRoom) (o : OutputId) :
    Ensures (Operation.createLayer o).perform d (fun _ => Follows (.createLayer o) d)
      (fun _ => Follows (.createLayer o) d) := by
  simp only [Operation.perform, ensures_bind, ensures_pure]
  refine (createLayer_spec hd hr o).mono ?_ fun _ _ h => follows_of_eq hd rfl h
  rintro id d' ⟨hd', hnone, hlayers, hchanged, hothers⟩
  refine ⟨hd', fun o' _ => ?_⟩
  by_cases ho : o' = o
  -- The output with the new layer is marked, and every other one keeps its links.
  · subst ho
    exact ⟨fun _ => hchanged, .inl hchanged⟩
  · refine notices_of_same ?_ (layersChanged_eq (hothers o' ho))
    ext ⟨q, id'⟩
    simp only [Wiring.links, hlayers, Set.mem_ofPred_eq, Function.update_apply]
    split
    · rename_i hid
      subst hid
      simp [wiring, hnone]
    · rfl

/-- Its output notices a layer that is gone, with its link. -/
theorem follows_destroyLayer (hd : d.WellFormed) (id : LayerId) :
    Ensures (Operation.destroyLayer id).perform d (fun _ => Follows (.destroyLayer id) d)
      (fun _ => Follows (.destroyLayer id) d) := by
  refine (destroyLayer_spec hd id).mono ?_ fun _ _ h => follows_of_eq hd rfl h.1
  rintro - d' ⟨hd', l, hl, hout', hothers⟩
  refine ⟨hd', fun o _ => ?_⟩
  by_cases ho : o = l.output
  -- The output that has lost the layer is marked.
  · obtain ⟨out, hout, -⟩ := output_of_layer hd hl
    have hchanged : d'.LayersChanged o := by
      refine ⟨out.without id, ?_, rfl⟩
      rw [ho, hout', hout]
      rfl
    exact ⟨fun _ => hchanged, .inl hchanged⟩
  · exact notices_of_same (hothers o ho).2 (layersChanged_eq (hothers o ho).1)

/-- An apply decides on its own output, or stops before anything matters. -/
theorem follows_apply (hd : d.WellFormed) (o : OutputId) (request : Request) (flags : CommitFlags)
    (options : ApplyOptions) :
    Ensures (Operation.apply o request flags options).perform d
      (fun _ => Follows (.apply o request flags options) d)
      (fun _ => Follows (.apply o request flags options) d) := by
  have hspec := Allocation.apply_spec (o := o) hd flags options request
  unfold Ensures at hspec
  simp only [Ensures, Operation.perform]
  cases hrun : Frame.apply o flags options ⟨d, request⟩ with
  | ok _ f =>
    rw [hrun] at hspec
    -- Kept or searched, no other output is touched.
    rcases hspec with hreused | hsearched
    · exact follows_decided hreused.wellFormed ⟨_, hreused.reports⟩
        (fun _ _ => by rw [hreused.wiring]) hreused.flags
    · obtain ⟨outcome, -, hreports⟩ := hsearched.reports
      exact follows_decided hsearched.wellFormed ⟨outcome, hreports⟩ hsearched.others
        hsearched.flags
  | error e f =>
    rw [hrun] at hspec
    -- It stopped before its decision, or after it.
    rcases hspec with hquiet | hunfinished
    · exact follows_quiet hd rfl hquiet
    · -- The links may be gone, but then a decision was reported.
      obtain ⟨outcome, -, hreports⟩ := hunfinished.reports
      exact follows_decided hunfinished.wellFormed ⟨outcome, hreports⟩ hunfinished.others
        fun o' _ => hunfinished.flags o'

/-- Every operation keeps the device well-formed, and links only go with planes or where the output
notices. -/
theorem follows_perform (hd : d.WellFormed) (op : Operation σ) (hpermits : d.Permits op) :
    Ensures op.perform d (fun _ => Follows op d) (fun _ => Follows op d) := by
  -- One case for each operation: it leaves links and marks alone, or it has a lemma of its own.
  cases op with
  | configure config =>
    exact follows_of_same rfl ⟨hd.wiring, hd.layers, hd.outputs⟩ (fun _ => rfl) fun _ h => h
  | drive f => exact follows_talks hd rfl ⟨_, rfl⟩
  | registerPlane plane =>
    exact (registers_registerPlane plane d).imp fun _ h => follows_registers hd rfl h
  | registerAllPlanes =>
    exact (registers_registerAllPlanes d).imp fun _ h => follows_registers hd rfl h
  | unregisterPlane plane =>
    simp only [Operation.perform, ensures_bind, ensures_pure]
    refine (unregisterPlane_spec hd plane).mono ?_ fun _ _ => False.elim
    rintro - d' ⟨hd', houtputs, hlinks⟩
    refine ⟨hd', fun o _ => ⟨layersChanged_eq (by simp only [output?, houtputs]), .inr ?_⟩⟩
    rw [hlinks]
    rfl
  | createOutput crtc => exact follows_createOutput hd hpermits crtc
  | destroyOutput o =>
    refine (destroyOutput_spec hd o).mono ?_ fun _ _ h => follows_of_eq hd rfl h.1
    rintro - d' ⟨hd', hothers⟩
    refine ⟨hd', fun o' hleaves => ?_⟩
    have hne : o' ≠ o := fun he => hleaves.1 (by rw [he])
    exact notices_of_same (hothers o' hne).2 (layersChanged_eq (hothers o' hne).1)
  | createLayer o => exact follows_createLayer hd hpermits o
  | destroyLayer id => exact follows_destroyLayer hd id
  | setProperty id name value =>
    have hlost : (Operation.setProperty (σ := σ) id name value).lost = ∅ := rfl
    exact follows_editLayer hd hlost id fun _ _ => Layer.place_setProperty
  | unsetProperty id name =>
    have hlost : (Operation.unsetProperty (σ := σ) id name).lost = ∅ := rfl
    exact follows_editLayer hd hlost id (rel_of_ok (Layer.place_unsetProperty · name))
  | forceComposition id =>
    have hlost : (Operation.forceComposition (σ := σ) id).lost = ∅ := rfl
    exact follows_editLayer hd hlost id (rel_of_ok Layer.place_forceComposition)
  | setCompositionLayer o id =>
    refine (setCompositionLayer_spec hd o id).mono ?_ fun _ _ h => follows_of_eq hd rfl h
    rintro - d' ⟨hd', hlayers, hchanged⟩
    exact follows_of_same rfl hd' (fun _ => links_eq hlayers) hchanged
  | apply o request flags options => exact follows_apply hd o request flags options
  | commit request flags =>
    exact (talks_commit request flags d).imp fun _ h => follows_talks hd rfl h

theorem follows_after (hd : d.WellFormed) {op : Operation σ} (hpermits : d.Permits op) :
    Follows op d (d.after op) := (follows_perform hd op hpermits).leftBy

theorem Run.wellFormed {ops : List (Operation σ)} {d' : Device σ} (h : Run Permits d ops d')
    (hd : d.WellFormed) : d'.WellFormed := by
  induction h with
  | nil => exact hd
  | cons hpermits _ ih => exact ih (follows_after hd hpermits).wellFormed

omit [Kernel σ] in
theorem wellFormed_fresh (kernel : σ) (config : Config) (crtcs : List UInt32) :
    ({ session := { kernel }, config, crtcs } : Device σ).WellFormed := by
  have hlayers : ∀ id, ({ session := { kernel }, config, crtcs } : Device σ).layer? id = none :=
    fun _ => rfl
  have houtputs : ∀ o, ({ session := { kernel }, config, crtcs } : Device σ).output? o = none :=
    fun _ => rfl
  -- There is no plane, no layer and no output to look at.
  refine ⟨⟨List.nodup_nil, .nil, ?_, ?_, ?_, ?_, ?_⟩, Arena.wellFormed_empty, Arena.wellFormed_empty⟩
  · simp [wiring]
  · simp [wiring, hlayers]
  · simp [wiring, hlayers, houtputs]
  · simp [wiring, houtputs]
  · simp [wiring, houtputs]

theorem Run.snoc {Step : Device σ → Operation σ → Prop} {ops : List (Operation σ)} {d' : Device σ}
    (h : Run Step d ops d') {op : Operation σ} (hstep : Step d' op) :
    Run Step d (ops ++ [op]) (d'.after op) := by
  induction h with
  | nil => exact .cons hstep .nil
  | cons hfirst _ ih => exact .cons hfirst (ih hstep)

theorem Run.and {Step Step' : Device σ → Operation σ → Prop} {ops : List (Operation σ)} {d' : Device σ}
    (h : Run Step d ops d') (h' : Run Step' d ops d') :
    Run (fun d op => Step d op ∧ Step' d op) d ops d' := by
  induction h with
  | nil => exact .nil
  | cons hstep _ ih =>
    cases h' with
    | cons hstep' h' => exact .cons ⟨hstep, hstep'⟩ (ih h')

theorem Reachable.after (h : Reachable d) {op : Operation σ} (hpermits : d.Permits op) :
    Reachable (d.after op) := by
  obtain ⟨kernel, config, crtcs, ops, hrun⟩ := h
  exact ⟨kernel, config, crtcs, ops ++ [op], hrun.snoc hpermits⟩

theorem Reachable.afterAll (h : Reachable d) {ops : List (Operation σ)}
    (hpermits : d.permitsAll ops = true) : Reachable (d.afterAll ops) := by
  induction ops generalizing d with
  | nil => exact h
  | cons op ops ih =>
    obtain ⟨hop, hops⟩ := Bool.and_eq_true_iff.mp hpermits
    exact ih (h.after (of_decide_eq_true hop)) hops

theorem Reachable.of_apply (h : Reachable d) {o : OutputId} {flags : CommitFlags}
    {options : ApplyOptions} {request : Request} {f : Frame σ}
    (hrun : Frame.apply o flags options ⟨d, request⟩ = .ok () f) : Reachable f.device := by
  have hpermits : d.Permits (.apply o request flags options) := trivial
  have heq := after_apply d o request flags options
  rw [hrun] at heq
  exact heq ▸ h.after hpermits

/-- Every device that can be reached is well-formed. -/
theorem Reachable.wellFormed (h : Reachable d) : d.WellFormed := by
  obtain ⟨kernel, config, crtcs, ops, hrun⟩ := h
  exact hrun.wellFormed (wellFormed_fresh kernel config crtcs)

/-- Over a run in which nothing ends the output or decides on its allocation, its links only go with
planes, unless the output notices. -/
theorem Run.notices {o : OutputId} {ops : List (Operation σ)} {d' : Device σ}
    (h : Run (fun d op => d.Permits op ∧ Leaves o op d (d.after op)) d ops d') (hd : d.WellFormed) :
    d'.WellFormed ∧ Notices o {q | .unregisterPlane q ∈ ops} d d' := by
  -- Induction on the run; what is lost adds up.
  induction h with
  | nil => exact ⟨hd, by simpa using notices_of_same rfl fun h => h⟩
  | cons hstep _ ih =>
    obtain ⟨hpermits, hleaves⟩ := hstep
    have hfollows := follows_after hd hpermits
    obtain ⟨hd', hnotices⟩ := ih hfollows.wellFormed
    refine ⟨hd', ?_⟩
    have hlost := (hfollows.notices o hleaves).trans hnotices
    refine Eq.mp (congrArg (Notices o · _ _) ?_) hlost
    ext q
    simp [Operation.mem_lost, eq_comm]

end Device

deriving instance DecidableEq for ScriptedFb, Scripted

def Operation.layerAt (index : UInt32) (x zpos : UInt64) : List (Operation σ) :=
  let id : LayerId := ⟨⟨index, 0⟩⟩
  [.createLayer ⟨⟨0, 0⟩⟩, .setProperty id "FB_ID" (index.toUInt64 + 1), .setProperty id "CRTC_X" x,
    .setProperty id "CRTC_W" 100, .setProperty id "CRTC_H" 100, .setProperty id "zpos" zpos]

def Device.threeLayers : Device Scripted :=
  ({ session := { kernel := .threeOverlays }, crtcs := [1] } : Device Scripted).afterAll
    ([.registerAllPlanes, .createOutput 1] ++ Operation.layerAt 0 0 3 ++ Operation.layerAt 1 50 2 ++
      Operation.layerAt 2 500 1)

theorem Device.reachable_threeLayers : threeLayers.Reachable :=
  ⟨.threeOverlays, {}, [1], _, run_afterAll (by decide +kernel)⟩

def OutputId.first : OutputId := ⟨⟨0, 0⟩⟩

def Device.threeShown : Device Scripted := threeLayers.after (.apply .first {} {} {})

theorem Device.reachable_threeShown : threeShown.Reachable := reachable_threeLayers.after trivial

theorem Device.apply_threeLayers : ∃ f : Frame Scripted,
    Frame.apply .first {} {} ⟨threeLayers, {}⟩ = .ok () f ∧ f.device = threeShown :=
  exists_after_apply threeLayers .first {} {} {} (by decide +kernel)

theorem Device.decisions_threeShown : threeShown.session.decisions =
    (.first, .skipped .layersChanged) :: threeLayers.session.decisions := by decide +kernel

def OutputId.second : OutputId := ⟨⟨1, 0⟩⟩

def Scripted.twoPipes : Scripted where
  crtcs := .ok [1, 2]
  planeIds := .ok [10, 11]
  planes := [(10, .ok { overlay with possibleCrtcs := 3 }), (11, .ok { overlay with possibleCrtcs := 3 })]

def Device.twoOutputs [Kernel σ] (kernel : σ) (edit : Operation σ) : Device σ :=
  ({ session := { kernel }, crtcs := [1, 2] } : Device σ).afterAll
    [.registerAllPlanes, .createOutput 1, .createOutput 2, .createLayer .first,
      .setProperty ⟨⟨0, 0⟩⟩ "FB_ID" 1, .createLayer .second, .setProperty ⟨⟨1, 0⟩⟩ "FB_ID" 2,
      .apply .first {} {} {}, edit]

namespace Device

/-- In every device that can be reached, planes and layers agree on who is shown where: what a plane
shows is a live layer that is on this plane, and the plane of a live layer is registered and shows it.
So no layer is on two planes, and no plane has two layers. -/
theorem Reachable.links_injective [Kernel σ] {d : Device σ} (h : d.Reachable) :
    (∀ p ∈ d.planes, ∀ id, p.layer = some id → ∃ l, d.layer? id = some l ∧ l.plane = some p.id) ∧
    (∀ id l q, d.layer? id = some l → l.plane = some q →
      ∃ p ∈ d.planes, d.plane? q = some p ∧ p.id = q ∧ p.layer = some id) ∧
    (∀ p ∈ d.planes, ∀ p' ∈ d.planes, ∀ id, p.layer = some id → p'.layer = some id → p = p') ∧
    ∀ id id' l l' q, d.layer? id = some l → d.layer? id' = some l' → l.plane = some q →
      l'.plane = some q → id = id' := by
  have hd := h.wellFormed.wiring
  refine ⟨fun p hp id => layer_of_plane hd hp, fun id l q hl hq => ?_, ?_, ?_⟩
  · obtain ⟨p, hp, rfl, hpl⟩ := plane_of_layer hd hl hq
    -- From the layer to its plane, which is found under its id.
    exact ⟨p, hp, plane?_eq_some hd hp, rfl, hpl⟩
  · intro p hp p' hp' id hpl hpl'
    -- The layer is on one plane only, and it names both.
    obtain ⟨l, hl, hq⟩ := layer_of_plane hd hp hpl
    obtain ⟨l', hl', hq'⟩ := layer_of_plane hd hp' hpl'
    obtain rfl : l = l' := Option.some.inj (hl.symm.trans hl')
    exact hd.plane_eq hp hp' (Option.some.inj (hq.symm.trans hq'))
  · intro id id' l l' q hl hl' hq hq'
    -- The plane shows one layer only, and both name it.
    obtain ⟨p, hp, rfl, hpl⟩ := plane_of_layer hd hl hq
    obtain ⟨p', hp', hpp, hpl'⟩ := plane_of_layer hd hl' hq'
    obtain rfl : p' = p := hd.plane_eq hp' hp hpp
    exact Option.some.inj (hpl.symm.trans hpl')

/-- In the small device the layer on top and its plane name each other, also once another plane is
forgotten. -/
theorem links_injective_threeShown :
    let d := threeShown.after (.unregisterPlane 11)
    ∃ p ∈ d.planes, p.layer = some ⟨⟨0, 0⟩⟩ ∧ ∃ l, d.layer? ⟨⟨0, 0⟩⟩ = some l ∧ l.plane = some p.id := by
  intro d
  have hlink : ∃ p ∈ d.planes, p.layer = some (⟨⟨0, 0⟩⟩ : LayerId) := by decide +kernel
  obtain ⟨p, hp, hpl⟩ := hlink
  have hpermits : threeShown.Permits (.unregisterPlane 11) := trivial
  have hreachable : d.Reachable := reachable_threeShown.after hpermits
  exact ⟨p, hp, hpl, hreachable.links_injective.1 p hp _ hpl⟩

end Device

end Scanout
