import Scanout.Proofs.Allocation.Prepare
import Scanout.Proofs.Allocation.Staged

/-! How an apply may end. It stops early and has changed nothing that matters, keeps the previous
allocation, makes a full search in vain, or lays the output out anew. Only the last three report a
decision, and they report exactly one. -/

namespace Scanout

variable {σ : Type}

namespace Layer

def SameContent (_ : LayerId) (l l' : Layer) : Prop := l'.content = l.content

theorem worn_of_content {l l' : Layer} (h : l'.content = l.content) : l'.worn = l.worn := by
  have houtput : l'.output = l.output := congrArg Prod.fst h
  have hproperties : l'.properties = l.properties := congrArg (·.2.1) h
  simp only [Layer.worn, houtput, hproperties]

theorem markClean_markClean (l : Layer) : l.markClean.markClean = l.markClean := by
  simp [markClean, Property.Bag.markClean]

end Layer

namespace Device

/-- The present state of an output is the one to compare with; all else is as before. -/
structure Marks (o : OutputId) (d d' : Device σ) : Prop where
  wellFormed : d.WellFormed → d'.WellFormed
  wiring : d'.wiring = d.wiring
  scenery : d'.scenery = d.scenery
  settled : ¬ d'.LayersChanged o
  others : ∀ o' ≠ o, (d'.LayersChanged o' ↔ d.LayersChanged o')
  layers : ∀ id, d'.layer? id = d.layer? id ∨
    (∃ out, d.output? o = some out ∧ id ∈ out.layers) ∧
      d'.layer? id = (d.layer? id).map Layer.markClean
  marked : ∀ out, d.output? o = some out → ∀ id ∈ out.layers,
    d'.layer? id = (d.layer? id).map Layer.markClean
  orders : ∀ o', (d'.output? o').map Output.order = (d.output? o').map Output.order
  pipes : ∀ o', (d'.output? o').map Output.pipe = (d.output? o').map Output.pipe
  reports : Session.Reports [] d.session d'.session

/-- What is told after the marks were set does not touch them. -/
theorem Marks.tells {o : OutputId} {d d' : Device σ} (h : Marks o d d') {session : Session σ}
    (hreports : Session.Reports [] d'.session session) : Marks o d { d' with session } where
  wellFormed hd := (h.wellFormed hd).of_talks ⟨session, rfl⟩
  wiring := h.wiring
  scenery := h.scenery
  settled := h.settled
  others := h.others
  layers := h.layers
  marked := h.marked
  orders := h.orders
  pipes := h.pipes
  reports := trans_of (Session.Reports []) h.reports hreports

theorem isSome_output_of_changed {d d' : Device σ} {o : OutputId}
    (h : (d'.output? o).map Output.layersChanged = (d.output? o).map Output.layersChanged) :
    (d'.output? o).isSome = (d.output? o).isSome := by
  rw [← Option.isSome_map, h, Option.isSome_map]

structure Bides [Kernel σ] (flags : CommitFlags) (d d' : Device σ) : Prop extends Quiet d d' where
  changes : Changes (Kernel.Asks flags) Layer.SameContent d d'

instance [Kernel σ] (flags : CommitFlags) : IsPreorder (Device σ) (Bides flags) where
  refl d := ⟨refl_of Quiet d, .refl⟩
  trans _ _ _ h h' := ⟨trans_of Quiet h.toQuiet h'.toQuiet, h.changes.trans h'.changes⟩

theorem stays_bides [Kernel σ] {flags : CommitFlags} {α : Type} {x : DeviceM σ α}
    (hquiet : Stays Quiet x) (hchanges : Stays (Changes (Kernel.Asks flags) Layer.SameContent) x) :
    Stays (Bides flags) x := (hquiet.and hchanges).mono fun _ _ h => ⟨h.1, h.2⟩

/-- Each layer is one that was there before, with the same content. -/
theorem Changes.sameContent [Kernel σ] {T : σ → σ → Prop} {d d' : Device σ}
    (h : Changes T Layer.SameContent d d') {id : LayerId} {l' : Layer} (hl' : d'.layer? id = some l') :
    ∃ l, d.layer? id = some l ∧ l'.content = l.content :=
  h.exists_layer (fun _ _ => rfl) (fun h h' => Eq.trans h' h) hl'

end Device

namespace Allocation

open Device

theorem markClean_spec {d : Device σ} {o : OutputId} (ho : (d.output? o).isSome) :
    Ensures (markClean o) d (fun _ d' => Marks o d d' ∧ d'.session = d.session)
      (fun _ _ => False) := by
  obtain ⟨out, hout⟩ := Option.isSome_iff_exists.mp ho
  simp only [markClean, ensures_bind, ensures_output]
  refine ⟨fun out' hout' => ?_, fun hnone => by rw [hout] at hnone; cases hnone⟩
  obtain rfl := Option.some.inj (hout.symm.trans hout')
  -- Marking goes layer by layer, and a layer that is marked twice is the same as one marked once.
  have hlayers : Ensures
      (out.layers.forM fun id => (modify (·.withLayer id Layer.markClean) : DeviceM σ Unit)) d
      (fun _ d1 => (Quiet d d1 ∧ d1.session = d.session ∧ d1.outputs = d.outputs) ∧
        ∀ id, d1.layer? id =
          if id ∈ out.layers then (d.layer? id).map Layer.markClean else d.layer? id)
      (fun _ _ => False) := by
    refine ensures_forM_layers
      (I := fun d1 => Quiet d d1 ∧ d1.session = d.session ∧ d1.outputs = d.outputs)
      Layer.markClean_markClean (fun id _ d1 h1 _ => ?_) ⟨refl_of Quiet d, rfl, rfl⟩
    have hmark : Quiet d1 (d1.withLayer id Layer.markClean) :=
      quiet_withLayer (fun l _ => rfl) fun l _ => l.look_markClean
    exact ⟨⟨trans_of Quiet h1.1 hmark, h1.2⟩, d1.layer?_withLayer id Layer.markClean⟩
  refine hlayers.mono ?_ fun _ _ => False.elim
  rintro - d1 ⟨⟨h1, hsession1, houtputs1⟩, hlayers1⟩
  rw [ensures_modify]
  have hwiring : (d1.withOutput o ({ · with layersChanged := false })).wiring = d1.wiring :=
    wiring_withOutput_of_members fun _ _ => rfl
  -- The flag is all that differs between the outputs.
  have houtput : ∀ {β : Type} (view : Output → β),
      (∀ out, view { out with layersChanged := false } = view out) → ∀ o',
      ((d1.withOutput o ({ · with layersChanged := false })).output? o').map view =
        (d.output? o').map view := by
    intro β view hview o'
    rw [output?_withOutput, show d1.output? o' = d.output? o' by simp only [output?, houtputs1]]
    split
    · rw [Option.map_map]
      exact Option.map_congr fun out _ => hview out
    · rfl
  refine ⟨⟨fun hd => ?_, hwiring.trans h1.wiring, ?_, ?_, fun o' ho' => ?_, fun id => ?_,
    fun out' hout' id hid => ?_, houtput _ fun _ => rfl, houtput _ fun _ => rfl, h1.reports⟩, hsession1⟩
  · have hd1 := h1.wellFormed hd
    exact hd1.of_wiring hwiring hd1.layers (Arena.wellFormed_modify hd1.outputs _ _)
  · refine Eq.trans ?_ h1.scenery
    simp only [scenery, hwiring]
    rfl
  -- The flag was taken back just now.
  · rintro ⟨out1, hout1, hchanged⟩
    rw [output?_withOutput, if_pos rfl] at hout1
    obtain ⟨out2, -, rfl⟩ := Option.map_eq_some_iff.mp hout1
    cases hchanged
  · rw [← h1.layersChanged o']
    simp only [LayersChanged, output?_withOutput, if_neg ho']
  · have hlayer := hlayers1 id
    split at hlayer
    · rename_i hid
      exact .inr ⟨⟨out, hout, hid⟩, hlayer⟩
    · exact .inl hlayer
  · obtain rfl := Option.some.inj (hout.symm.trans hout')
    exact (hlayers1 id).trans (if_pos hid)

structure Reused (o : OutputId) (d d' : Device σ) : Prop where
  unchanged : ¬ d.LayersChanged o
  wellFormed : d'.WellFormed
  wiring : d'.wiring = d.wiring
  settled : ¬ d'.LayersChanged o
  flags : ∀ o' ≠ o, (d'.LayersChanged o' ↔ d.LayersChanged o')
  reports : Session.Reports [(o, .accepted)] d.session d'.session

/-- The apply made a full search and stopped. What links the output has left is not said. -/
structure Unfinished (o : OutputId) (d d' : Device σ) : Prop where
  wellFormed : d'.WellFormed
  others : ∀ o' ≠ o, d'.wiring.links o' = d.wiring.links o'
  flags : ∀ o', (d'.LayersChanged o' ↔ d.LayersChanged o')
  reports : Session.ReportsSearch o d.session d'.session

/-- The output's layers are on the planes that a path gives them, which a search on `s` may answer. -/
structure Layout (d : Device σ) (o : OutputId) (s : Search.Scene) (path : Search.Path) : Prop where
  legal : Search.Legal s path
  valid : s.isValid path = true
  planes : path.reverse.map (fun c => c.plane.bare) = d.planes.map Plane.bare
  looks : ∀ id, (s.layer? id).map Layer.look = (d.layer? id).map Layer.look
  members : ∃ out, d.output? o = some out ∧ s.output.members = out.members
  links : d.wiring.links o = {x | x ∈ assignments path}

structure Searched (o : OutputId) (d d' : Device σ) : Prop where
  wellFormed : d'.WellFormed
  others : ∀ o' ≠ o, d'.wiring.links o' = d.wiring.links o'
  settled : ¬ d'.LayersChanged o
  flags : ∀ o' ≠ o, (d'.LayersChanged o' ↔ d.LayersChanged o')
  reports : Session.ReportsSearch o d.session d'.session
  layout : d'.wiring.links o = ∅ ∨ ∃ s path, Layout d' o s path

section Marked

variable {d d' d'' : Device σ} {o : OutputId} {s : Search.Scene} {noted : σ → Request → Prop}
  {passes : Request → Prop} {entry : Request} {steady : Prop} {best : Option Search.Best}
  (h : Allocated d o s noted passes entry steady best d') (hmarks : Marks o d' d'')
include h hmarks

/-- Without a best walk there is nothing to lay out. -/
theorem Allocated.links_eq_empty (hb : best = none) : d''.wiring.links o = ∅ := by
  refine Set.eq_empty_iff_forall_notMem.mpr fun x hx => ?_
  rw [hmarks.wiring] at hx
  obtain ⟨b, hb', -⟩ := (h.links x).mp hx
  rw [hb] at hb'
  cases hb'

/-- The best walk is laid out, and marked after that. -/
theorem Allocated.layout_best {out : Output} (hout : d.output? o = some out)
    (hlayers : s.layers = (d.cleared o).layers) (houtput : s.output = out) {b : Search.Best}
    (hb : best = some b) : Layout d'' o s b.path := by
  have hscenery : d''.scenery = (d.cleared o).scenery :=
    hmarks.scenery.trans (h.scene.scenery.trans (sameScene_cleared d o).scenery.symm)
  obtain ⟨-, hfeasible⟩ := h.feasible b hb
  refine ⟨hfeasible.legal, hfeasible.valid, ?_, fun id => ?_, ?_, ?_⟩
  -- The path visits all planes of the device, in the order of the device.
  · have hhardware : d''.planes.map Plane.bare = (d.cleared o).planes.map Plane.bare :=
      congrArg Scenery.hardware hscenery
    rw [hhardware, ← hfeasible.visits, List.map_map]
    rfl
  · have hlook := (look_of_scenery hscenery id).symm
    rwa [Device.layer?, ← hlayers] at hlook
  · have hmembers : d''.wiring.outputs o = d.wiring.outputs o :=
      congrFun (congrArg Scenery.members hscenery) o
    rw [show d.wiring.outputs o = some out.members by simp [wiring, hout]] at hmembers
    obtain ⟨out', hout', he⟩ := Option.map_eq_some_iff.mp hmembers
    exact ⟨out', hout', by rw [houtput, he]⟩
  · ext x
    rw [hmarks.wiring, h.links, hb]
    simp

/-- What is marked after an allocation is laid out. -/
theorem Allocated.layout {out : Output} (hout : d.output? o = some out)
    (hlayers : s.layers = (d.cleared o).layers) (houtput : s.output = out) :
    d''.wiring.links o = ∅ ∨ ∃ s path, Layout d'' o s path := by
  cases hb : best with
  | none => exact .inl (h.links_eq_empty hmarks hb)
  | some b => exact .inr ⟨s, b.path, h.layout_best hmarks hout hlayers houtput hb⟩

end Marked

/-- Nothing stands in the way only if the output's layers are those of its last apply and none of them
asks for a new allocation. -/
theorem settled_of_reuseBlocker {layers : Arena Layer} {out : Output} {orderChanged : Bool}
    (h : reuseBlocker layers out orderChanged = none) :
    out.layersChanged = false ∧ ∀ id ∈ out.layers, needsRealloc layers out id = none := by
  unfold reuseBlocker at h
  -- First the output's own flag, then one cause for each layer.
  split at h
  · cases h
  · rename_i hchanged
    split at h
    · cases h
    · rename_i hnone
      refine ⟨by simpa using hchanged, fun id hid => ?_⟩
      have hcause := List.findSome?_eq_none_iff.mp hnone id hid
      exact Option.map_eq_none_iff.mp hcause

/-- A layer that asks for nothing noticed no change, has no entry that asks by itself, and overlaps the
other layers as before if it moved. -/
theorem needsRealloc_eq_none {layers : Arena Layer} {out : Output} {id : LayerId} {l : Layer}
    (hl : layers.get? id.toHandle = some l) (h : needsRealloc layers out id = none) :
    l.changed = false ∧ (∀ e ∈ l.properties.entries, l.reallocCause? e = none) ∧
      (l.properties.entries.any Property.Entry.isMove = true → ∀ other ∈ out.layers, other ≠ id →
        ∀ k, layers.get? other.toHandle = some k → l.overlapChanged k = false) := by
  simp only [needsRealloc, hl, Option.bind_eq_bind, Option.bind_some] at h
  -- The changed flag, the properties one by one, and the overlaps, in the order in which they are asked.
  split at h
  · cases h
  · rename_i hchanged
    split at h
    · cases h
    · rename_i hcauses
      refine ⟨by simpa using hchanged, fun e he => ?_, fun hmoved other hmem hne k hk => ?_⟩
      · exact List.findSome?_eq_none_iff.mp (Option.eq_none_iff_forall_ne_some.mpr hcauses) e he
      · simp only [hmoved, Bool.true_and, ite_eq_right_iff] at h
        -- A layer that moved was compared with all others.
        have hothers : ¬ (List.filterMap (fun other : LayerId => layers.get? other.toHandle)
            (out.layers.filter (· ≠ id))).any l.overlapChanged = true := fun hany => nomatch h hany
        rw [Bool.not_eq_true, List.any_eq_false] at hothers
        have hother : k ∈ List.filterMap (fun other : LayerId => layers.get? other.toHandle)
            (out.layers.filter (· ≠ id)) := by
          refine List.mem_filterMap.mpr ⟨other, ?_, hk⟩
          simpa using ⟨hmem, hne⟩
        simpa using hothers k hother

open Request in
/-- Links that cannot be staged leave the request as it was. -/
theorem stageCurrent_spec (d : Device σ) (r : Request) :
    Ensures d.stageCurrent r (fun _ => Begins r) (fun _ r' => r' = r) := by
  refine Staging.allOrNothing_spec (stays_forM fun p _ => ?_) r
  unfold stagePlane
  -- A plane is switched off, or found wanting, or shows its layer.
  split
  · exact Staging.begins_adaptExcept p.begins_stageDisabled _
  · split
    · exact stays_throw _
    · split
      · exact stays_throw _
      · rename_i l _ _ out _
        refine Staging.begins_adaptExcept (fun r => ?_) _
        refine (p.stageLayer_spec l out.crtc r).mono (fun _ _ h => h) ?_
        rintro _ _ rfl
        exact refl_of Begins _

section Decision

variable [Kernel σ] {flags : CommitFlags} {K : σ → Prop} {noted : σ → Request → Prop}
  (hn : Kernel.Notes flags K noted)
include hn

/-- An allocation that nobody objects to was staged and has passed. After an objection nothing stays
staged. What is objected to in earnest is the question that was asked. -/
theorem tryReuse_spec (f : Frame σ) (hK : K f.device.session.kernel) :
    Ensures (tryReuse flags) f
      (fun objection f' =>
        (objection = none → f.device.stageCurrent f.request = .ok () f'.request ∧
          noted f'.device.session.kernel f'.request) ∧
        (objection ≠ none → f'.request = f.request))
      (fun e f' => Kernel.Justifies flags f.device.session.kernel f'.device.session.kernel e) := by
  have hspec := stageCurrent_spec f.device f.request
  simp only [tryReuse, ensures_bind, ensures_get, Frame.ensures_attempt, Frame.ensures_onRequest]
  cases hstage : f.device.stageCurrent f.request with
  -- A request that cannot be staged is rolled back by the staging itself, and one that is refused
  -- by the attempt.
  | error e r =>
    rw [ensures_of_eq_error hstage] at hspec ⊢
    cases hspec
    split
    · refine ⟨fun hnone => ?_, fun _ => rfl⟩
      cases hnone
    · -- An error of the driver would have been an objection.
      rename_i hother _
      rintro e' rfl
      exact (hother e' rfl).elim
    · rename_i heq
      cases heq
  | ok _ r =>
    rw [ensures_of_eq_ok hstage] at hspec ⊢
    simp only [ensures_bind, Frame.testCommit, ensures_get, Frame.ensures_onDevice,
      ensures_onSession]
    refine (Session.noted_testCommit hn r f.device.session hK).mono ?_ ?_
    · rintro reply session ⟨-, -, hpass⟩
      cases reply with
      | none => exact ⟨fun _ => ⟨rfl, hpass rfl⟩, fun hne => absurd rfl hne⟩
      | some e =>
        simp only [ensures_bind, Frame.ensures_rollback, ensures_pure]
        refine ⟨fun hnone => ?_, fun _ => hspec.rollback⟩
        cases hnone
    · rintro e session ⟨-, hjustified⟩
      simp only [Frame.ensures_rollback, ensures_throw]
      exact hjustified

theorem decideReuse_spec (o : OutputId) (orderChanged : Bool) (f : Frame σ)
    (hK : K f.device.session.kernel) :
    Ensures (decideReuse o flags orderChanged) f
      (fun outcome f' => Bides flags f.device f'.device ∧
        (outcome = .accepted → (∃ out, f.device.output? o = some out ∧
            reuseBlocker f.device.layers out orderChanged = none) ∧
          f.device.stageCurrent f.request = .ok () f'.request ∧
          noted f'.device.session.kernel f'.request) ∧
        (outcome ≠ .accepted → f'.request = f.request))
      (fun e f' => Bides flags f.device f'.device ∧
        Kernel.Justifies flags f.device.session.kernel f'.device.session.kernel e) := by
  simp only [decideReuse, ensures_bind, Frame.ensures_onDevice, Device.ensures_output, ensures_get]
  -- Without a blocker the attempt decides.
  refine ⟨fun out hout => ?_, fun _ => ⟨refl_of (Bides flags) f.device, fun _ he => by cases he⟩⟩
  split
  · refine ⟨refl_of (Bides flags) f.device, fun haccepted => ?_, fun _ => rfl⟩
    cases haccepted
  · rename_i hblocker
    rw [ensures_bind]
    -- That the attempt changes nothing is a fact about all of its ways to end; what it staged is
    -- one about its answers.
    have hbides : Stays (Frame.Within (Bides flags)) (tryReuse (σ := σ) flags) :=
      Frame.stays_tryReuse fun request => stays_bides
        (quiet_onSession (Session.silent_testCommit request flags)) (changes_testCommit request)
    refine ((hbides f).and (tryReuse_spec hn f hK)).mono ?_ fun _ _ h => h
    rintro objection f' ⟨hf', haccepted, hrejected⟩
    cases objection with
    | none =>
      obtain ⟨hstage, hnoted⟩ := haccepted rfl
      exact ⟨hf', fun _ => ⟨⟨out, hout, hblocker⟩, hstage, hnoted⟩, fun hne => absurd rfl hne⟩
    | some e =>
      refine ⟨hf', fun haccepted => ?_, fun _ => hrejected (Option.some_ne_none e)⟩
      cases haccepted

end Decision

/-- At the decision about an output's allocation all that matters is as before, and the decision is the
only one that was reported. -/
structure Decides [Kernel σ] (flags : CommitFlags) (o : OutputId) (outcome : ReuseOutcome)
    (d d₁ : Device σ) : Prop extends Keeps d d₁ where
  changes : Changes (Kernel.Asks flags) Layer.SameContent d d₁
  reports : Session.Reports [(o, outcome)] d.session d₁.session

/-- The previous allocation is kept: nobody noticed a change, and the writes for its links have
passed. -/
structure Kept (o : OutputId) (noted : σ → Request → Prop) (request r : Request) (d d₁ : Device σ) :
    Prop where
  unchanged : ¬ d.LayersChanged o
  unaware : ∀ id l, d₁.layer? id = some l → l.output = o → l.changed = false
  writes : r = request.append (d₁.planes.flatMap d₁.planeWrites)
  suits : ∀ p ∈ d₁.planes, d₁.Suits p
  passed : noted d₁.session.kernel r

/-- A full search has switched off the free planes and linked the best allocation it found. -/
structure Laid [Kernel σ] (flags : CommitFlags) (o : OutputId) (noted : σ → Request → Prop)
    (request entry : Request) (d₁ d₂ : Device σ) : Prop where
  changes : Changes (Kernel.Asks flags) Layer.SameContent d₁ d₂
  disabled : disables (d₁.cleared o) request = .ok () entry
  allocated : ∃ s best, d₁.output? o = some s.output ∧ s.layers = (d₁.cleared o).layers ∧
    Allocated d₁ o s noted (fun _ => True) entry False best d₂

section Ends

variable [Kernel σ] {o : OutputId}

/-- The last steps of an apply do not fail, and the last one tells its end. -/
theorem conclude_ends (f : Frame σ) (ho : (f.device.output? o).isSome) (outcome : ReuseOutcome)
    (started : HostTime) (score : Option Nat) :
    Ensures (conclude o outcome started score) f
      (fun _ f' => Marks o f.device f'.device ∧ f'.request = f.request ∧
        f'.device.session = { f.device.session with
          kernel := (Kernel.now f.device.session.kernel).2
          trace := .applyEnd o (outcome = .accepted) score
            (testsOf outcome f.device.session.testCommits)
            ((Kernel.now f.device.session.kernel).1.since started)
            (Kernel.now f.device.session.kernel).1 :: f.device.session.trace })
      (fun _ _ => False) := by
  simp only [conclude, ensures_bind, Frame.ensures_onDevice]
  refine (markClean_spec ho).mono ?_ fun _ _ => False.elim
  rintro - d1 ⟨h1, hsession⟩
  rw [← hsession]
  exact ⟨h1.tells ⟨[_], rfl, rfl⟩, rfl, rfl⟩

theorem conclude_spec (f : Frame σ) (ho : (f.device.output? o).isSome) (outcome : ReuseOutcome)
    (started : HostTime) (score : Option Nat) :
    Ensures (conclude o outcome started score) f
      (fun _ f' => Marks o f.device f'.device ∧ f'.request = f.request ∧
        f'.device.session.kernel = (Kernel.now f.device.session.kernel).2)
      (fun _ _ => False) :=
  (conclude_ends f ho outcome started score).mono
    (fun _ _ h => ⟨h.1, h.2.1, congrArg Session.kernel h.2.2⟩) fun _ _ => False.elim

theorem Decides.bides {flags : CommitFlags} {outcome : ReuseOutcome} {d d₁ d₂ : Device σ}
    (h : Decides flags o outcome d d₁) (h' : Bides flags d₁ d₂) : Decides flags o outcome d d₂ :=
  ⟨trans_of Keeps h.toKeeps h'.toKeeps, h.changes.trans h'.changes, h.reports.trans h'.reports⟩

theorem Decides.of_bides {flags : CommitFlags} {outcome : ReuseOutcome} {d d₁ d₂ : Device σ}
    (h : Bides flags d d₁) (h' : Decides flags o outcome d₁ d₂) : Decides flags o outcome d d₂ :=
  ⟨trans_of Keeps h.toKeeps h'.toKeeps, h.changes.trans h'.changes, h.reports.trans h'.reports⟩

/-- What was found out about the allocation before the decision holds after it too. -/
theorem kept_of_decides {flags : CommitFlags} {noted : σ → Request → Prop} {request r : Request}
    {d d₀ d₁ : Device σ} {out : Output} {orderChanged : Bool} (hd₀ : d₀.WellFormed)
    (hkeeps : Keeps d d₀) (hdecides : Decides flags o .accepted d₀ d₁)
    (hout : d₀.output? o = some out) (hblocker : reuseBlocker d₀.layers out orderChanged = none)
    (hstage : d₀.stageCurrent request = .ok () r) (hpassed : noted d₁.session.kernel r) :
    Kept o noted request r d d₁ := by
  -- What kept the blockers away is known of the device before the attempt, which has changed nothing
  -- since.
  obtain ⟨hchanged, hcauses⟩ := settled_of_reuseBlocker hblocker
  obtain ⟨hwrites, hsuits⟩ := d₀.adds_stageCurrent request r hstage
  have hd₁ := hdecides.wellFormed hd₀
  have hplanes : d₁.planes = d₀.planes := congrArg Wiring.planes hdecides.wiring
  have hworn : ∀ (id : LayerId) (l l' : Layer), Layer.SameContent id l l' → l'.worn = l.worn :=
    fun _ _ _ => Layer.worn_of_content
  refine ⟨?_, fun id l hl hlo => ?_, ?_, fun p hp => ?_, hpassed⟩
  · rw [← hkeeps.layersChanged o]
    rintro ⟨out', hout', hchanged'⟩
    obtain rfl := Option.some.inj (hout.symm.trans hout')
    rw [hchanged] at hchanged'
    cases hchanged'
  · -- The layer is the one that was asked whether it has changed.
    obtain ⟨l₀, hl₀, hcontent⟩ := hdecides.changes.sameContent hl
    have hl₀o : l₀.output = o := (congrArg Prod.fst hcontent).symm.trans hlo
    have hmem : id ∈ out.layers := (listed_iff hd₀ hout hl₀).mpr hl₀o
    have hsettled := (needsRealloc_eq_none hl₀ (hcauses id hmem)).1
    exact (congrArg (·.2.2.2) hcontent).trans hsettled
  · -- Staging reads the links and what the caller gave, and both are as before.
    rw [hwrites, flatMap_planeWrites_of_changes hd₁ hdecides.changes hworn hplanes]
  · exact (planeWrites_of_changes hd₁ hdecides.changes hworn hp).2.mpr (hsuits p (hplanes ▸ hp))

/-- A full search that an apply makes lays the output out. If it fails, the output is cleared and the
driver's answer is the reason, or it is laid out and cannot be staged. -/
theorem laid_spec {flags : CommitFlags} {K : σ → Prop} {noted : σ → Request → Prop} {d₁ : Device σ}
    (hd₁ : d₁.WellFormed) (hn : Kernel.Notes flags K noted) (hK : K d₁.session.kernel)
    (ho : (d₁.output? o).isSome) (options : ApplyOptions) (started : HostTime) (request : Request) :
    Ensures (allocate o flags options started) ⟨d₁, request⟩
      (fun _ f' => ∃ entry, Laid flags o noted request entry d₁ f'.device ∧
        f'.device.stageCurrent entry = .ok () f'.request)
      (fun e f' => Spares d₁ o f'.device ∧ ((∃ session, f'.device = { d₁.cleared o with session } ∧
          Kernel.Justifies flags d₁.session.kernel session.kernel e) ∨
        ∃ entry, Laid flags o noted request entry d₁ f'.device ∧
          f'.device.stageCurrent entry = .error e f'.request)) := by
  obtain ⟨out, hout⟩ := Option.isSome_iff_exists.mp ho
  have hspec := allocate_spec hd₁ hout flags options started
    (setting_of_notes (s := sceneOf (d₁.cleared o) out flags options started) hn d₁.session)
    (fun session hkernel hreports => ⟨⟨hkernel ▸ hK, hkernel ▸ .refl⟩, hreports⟩) (fun _ h => h.2)
    request
  have hchanges : Stays (Frame.Within (Changes (Kernel.Asks flags) Layer.SameContent))
      (allocate (σ := σ) o flags options started) :=
    changes_allocate (fun _ _ _ h => h.1) o options started
  -- What the search finds and what it changes on the way are proved apart.
  refine (hspec.and (hchanges ⟨d₁, request⟩)).mono ?_ ?_
  · rintro score f' ⟨⟨entry, best, hdisabled, hallocated, -, hstage⟩, hchanges⟩
    exact ⟨entry, ⟨hchanges, hdisabled, _, best, hout, rfl, hallocated⟩, hstage⟩
  · rintro e f' ⟨⟨hspares, ⟨session, hcleared, ⟨entry, hdisables⟩ | hjustified⟩ |
      ⟨entry, best, hdisabled, hallocated, hstage⟩⟩, hchanges⟩
    -- Switching planes off fails for want of a property, which is no error of the driver.
    · have hfails := (d₁.cleared o).disables_fails request
      rw [ensures_of_eq_error hdisables] at hfails
      obtain ⟨q, name, rfl⟩ := hfails
      exact ⟨hspares, .inl ⟨session, hcleared, fun _ he => by cases he⟩⟩
    · exact ⟨hspares, .inl ⟨session, hcleared, hjustified⟩⟩
    · exact ⟨hspares, .inr ⟨entry, ⟨hchanges, hdisabled, _, best, hout, rfl, hallocated⟩, hstage⟩⟩

section Seen

variable {noted : σ → Request → Prop} {flags : CommitFlags} {request entry : Request} {d₁ d₂ : Device σ}
  (h : Laid flags o noted request entry d₁ d₂) {s : Search.Scene}
  (hlayers : s.layers = (d₁.cleared o).layers) {id : LayerId} {l l₂ : Layer}
include h hlayers

theorem Laid.exists_seen (hl₂ : d₂.layer? id = some l₂) : ∃ l, s.layer? id = some l := by
  obtain ⟨l₁, hl₁, -⟩ := h.changes.sameContent hl₂
  have hcleared := layer?_cleared d₁ o id
  rw [hl₁, Option.map_some, Device.layer?, ← hlayers] at hcleared
  exact ⟨_, hcleared⟩

/-- The search has seen of a layer what the caller gave to it. -/
theorem Laid.content_eq (hl : s.layer? id = some l) (hl₂ : d₂.layer? id = some l₂) :
    l₂.content = l.content := by
  obtain ⟨l₁, hl₁, hcontent⟩ := h.changes.sameContent hl₂
  have hcleared := layer?_cleared d₁ o id
  rw [hl₁, Option.map_some, Device.layer?, ← hlayers] at hcleared
  rw [hcontent, Option.some.inj (hl.symm.trans hcleared)]
  split <;> rfl

end Seen

/-- What an apply that succeeds has done: it kept the previous allocation or laid the output out anew,
and marked its layers clean in the end. -/
def Applied (flags : CommitFlags) (o : OutputId) (noted : σ → Request → Prop) (request r : Request)
    (d d' : Device σ) : Prop :=
  ∃ d₁ d₂ outcome, Decides flags o outcome d d₁ ∧ Marks o d₂ d' ∧
    d'.session.kernel = (Kernel.now d₂.session.kernel).2 ∧
    ((outcome = .accepted ∧ d₂ = d₁ ∧ Kept o noted request r d d₁) ∨
      outcome ≠ .accepted ∧ ∃ entry, Laid flags o noted request entry d₁ d₂ ∧
        d₂.stageCurrent entry = .ok () r)

/-- What an apply has done that fails: nothing that matters, or it cleared the output, and the driver's
answer is the reason; or it laid the output out and could not stage that. -/
def Stopped (flags : CommitFlags) (o : OutputId) (noted : σ → Request → Prop) (request : Request)
    (failure : Failure) (d d' : Device σ) : Prop :=
  Bides flags d d' ∧ Kernel.Justifies flags d.session.kernel d'.session.kernel failure ∨
  ∃ d₁ outcome, outcome ≠ .accepted ∧ Decides flags o outcome d d₁ ∧ Spares d₁ o d' ∧
    ((∃ session, d' = { d₁.cleared o with session } ∧
        Kernel.Justifies flags d.session.kernel session.kernel failure) ∨
      ∃ entry r, Laid flags o noted request entry d₁ d' ∧ d'.stageCurrent entry = .error failure r)

/-- What follows the decision. Only a full search may fail. -/
theorem carryOut_spec {flags : CommitFlags} {K : σ → Prop} {noted : σ → Request → Prop} {d : Device σ}
    (hd : d.WellFormed) (hn : Kernel.Notes flags K noted) (hK : K d.session.kernel)
    {outcome : ReuseOutcome} (f : Frame σ) (hdecides : Decides flags o outcome d f.device)
    (ho : (d.output? o).isSome) {request : Request}
    (haccepted : outcome = .accepted →
      ∀ d₁, Bides flags f.device d₁ → Kept o noted request f.request d d₁)
    (hrefused : outcome ≠ .accepted → f.request = request) (options : ApplyOptions)
    (started : HostTime) :
    Ensures (carryOut o flags options started outcome) f
      (fun _ f' => Applied flags o noted request f'.request d f'.device)
      (fun e f' => Stopped flags o noted request e d f'.device) := by
  -- The output is there until the end, so neither counting nor marking can fail.
  have hlive : ∀ {d₁ : Device σ}, Bides flags f.device d₁ → (d₁.output? o).isSome := fun h => by
    rw [isSome_output_of_changed ((hdecides.bides h).changed o)]
    exact ho
  have hlive₀ := hlive (refl_of (Bides flags) f.device)
  have hcount : Ensures (countReuse o) f.device (fun _ => Bides flags f.device) fun _ _ => False :=
    ((countReuse_spec hlive₀).and (changes_countReuse o f.device)).mono
      (fun _ _ h => ⟨h.1, h.2⟩) fun _ _ h => h.1
  have hreset : Ensures (resetReuse o) f.device (fun _ => Bides flags f.device) fun _ _ => False :=
    ((resetReuse_spec hlive₀).and (changes_resetReuse o f.device)).mono
      (fun _ _ h => ⟨h.1, h.2⟩) fun _ _ h => h.1
  unfold carryOut
  split
  -- The allocation is kept: one count, and the end.
  · rename_i houtcome
    rw [ensures_bind, Frame.ensures_onDevice]
    refine hcount.mono (fun _ d₁ hbides => ?_) fun _ _ => False.elim
    refine (conclude_spec { f with device := d₁ } (hlive hbides) outcome started none).mono ?_
      fun _ _ => False.elim
    rintro - f' ⟨hmarks, hrequest, hkernel⟩
    refine ⟨d₁, d₁, outcome, hdecides.bides hbides, hmarks, hkernel, .inl ⟨houtcome, rfl, ?_⟩⟩
    rw [hrequest]
    exact haccepted houtcome d₁ hbides
  · rename_i houtcome
    -- A search is made, and its count of kept allocations starts anew.
    rw [ensures_bind, Frame.ensures_onDevice]
    refine hreset.mono (fun _ d₁ hbides => ?_) fun _ _ => False.elim
    have hdecides₁ := hdecides.bides hbides
    have hK₁ : K d₁.session.kernel := (hdecides₁.changes.kernel (fun _ _ => hn.later) hK).1
    -- A refused allocation has left the request as it was.
    rw [ensures_bind, hrefused houtcome]
    refine (laid_spec (hdecides₁.wellFormed hd) hn hK₁ (hlive hbides) options started request).mono
      ?_ ?_
    · rintro score f₂ ⟨entry, hlaid, hstage⟩
      obtain ⟨s, best, -, -, hallocated⟩ := hlaid.allocated
      have hlive₂ : (f₂.device.output? o).isSome := by
        rw [isSome_output_of_changed (hallocated.scene.changed o)]
        exact hlive hbides
      refine (conclude_spec f₂ hlive₂ outcome started score).mono ?_ fun _ _ => False.elim
      rintro - f' ⟨hmarks, hrequest, hkernel⟩
      refine ⟨d₁, f₂.device, outcome, hdecides₁, hmarks, hkernel, .inr ⟨houtcome, entry, hlaid, ?_⟩⟩
      rw [hrequest]
      exact hstage
    · rintro e f₂ ⟨hspares, ⟨session, hcleared, hjustified⟩ | ⟨entry, hlaid, hstage⟩⟩
      -- What the driver was asked before the search was part of the apply too.
      · have hasks := hdecides₁.changes.kernel (R := Relation.ReflTransGen (Kernel.Asks flags))
          fun _ _ => .single
        exact .inr ⟨d₁, outcome, houtcome, hdecides₁, hspares,
          .inl ⟨session, hcleared, hjustified.since hasks⟩⟩
      · exact .inr ⟨d₁, outcome, houtcome, hdecides₁, hspares, .inr ⟨entry, _, hlaid, hstage⟩⟩

theorem bides_emit {flags : CommitFlags} {e : Event} (he : e.decision? = none) :
    Stays (Bides (σ := σ) flags) (onSession (Session.emit e)) :=
  stays_bides (quiet_onSession (Session.silent_emit he)) (changes_emit .rest e)

theorem bides_now {flags : CommitFlags} : Stays (Bides (σ := σ) flags) (onSession Session.now) :=
  stays_bides (quiet_onSession Session.silent_now) changes_now

theorem bides_prepare {flags : CommitFlags} : Stays (Bides (σ := σ) flags)
    (do updatePriorities; refreshFramebuffers o; updateOrder o) := by
  apply stays_bides
  · exact quiet_updatePriorities.bind fun _ =>
      (quiet_refreshFramebuffers o).bind fun _ => quiet_updateOrder o
  · exact changes_prepare (fun _ _ _ h => h.1) o

/-- An apply stops at an output that is not there, and else it bides until all is prepared for its
decision. -/
theorem ensures_apply {flags : CommitFlags} {d : Device σ} {options : ApplyOptions} {request : Request}
    {Q : Unit → Frame σ → Prop} {E : Failure → Frame σ → Prop}
    (hdead : d.output? o = none → ∀ d', Bides flags d d' → E (.fault (.staleOutput o)) ⟨d', request⟩)
    (hdecision : ∀ out started changed d₁, d.output? o = some out →
      Prepared (Kernel.now d.session.kernel).2 out o changed d d₁ → Bides flags d d₁ →
      Ensures (do
        let outcome ← decideReuse o flags changed
        Frame.emit (.reuse o outcome)
        carryOut o flags options started outcome) ⟨d₁, request⟩ Q E) :
    Ensures (Frame.apply o flags options) ⟨d, request⟩ Q E := by
  -- The phases before the decision only bide.
  rw [apply_eq]
  exact ensures_until_decision bides_now (fun _ he => bides_emit he) bides_prepare hdead hdecision

/-- How an apply ends. -/
theorem apply_cases {flags : CommitFlags} {K : σ → Prop} {noted : σ → Request → Prop} {d : Device σ}
    (hd : d.WellFormed) (hn : Kernel.Notes flags K noted) (hK : K d.session.kernel)
    (options : ApplyOptions) (request : Request) :
    Ensures (Frame.apply o flags options) ⟨d, request⟩
      (fun _ f' => Applied flags o noted request f'.request d f'.device)
      (fun e f' => Stopped flags o noted request e d f'.device) := by
  refine ensures_apply (fun _ d' h => .inl ⟨h, fun _ he => by cases he⟩) ?_
  intro out started orderChanged d₃ hout _ h₃
  have ho : (d.output? o).isSome := Option.isSome_of_eq_some hout
  -- The driver may have been asked for the time, no more.
  have hasks₃ := h₃.changes.kernel (R := Relation.ReflTransGen (Kernel.Asks flags)) fun _ _ => .single
  have hK₃ : K d₃.session.kernel := (hn.laterAll hasks₃ hK).1
  rw [ensures_bind]
  refine (decideReuse_spec hn o orderChanged ⟨d₃, request⟩ hK₃).mono ?_
    fun _ f₄ h₄ => .inl ⟨trans_of (Bides flags) h₃ h₄.1, h₄.2.since hasks₃⟩
  rintro outcome f₄ ⟨h₄, haccepted, hrefused⟩
  -- What follows starts from the device that has told the decision.
  let d₄ : Device σ := { f₄.device with session :=
    { f₄.device.session with trace := .reuse o outcome :: f₄.device.session.trace } }
  have hreported : Decides flags o outcome f₄.device d₄ :=
    ⟨keeps_session _ _, .single (.talk _ _ (.rest _)), [.reuse o outcome], rfl, rfl⟩
  have hdecides : Decides flags o outcome d₃ d₄ := .of_bides h₄ hreported
  rw [ensures_bind]
  refine carryOut_spec hd hn hK ⟨d₄, f₄.request⟩ (.of_bides h₃ hdecides) ho (fun houtcome d₅ h₅ => ?_)
    hrefused options started
  subst houtcome
  -- The outcome is a kept allocation, so its writes were staged and let pass before it was told.
  obtain ⟨⟨out', hout', hblocker⟩, hstage, hpassed⟩ := haccepted rfl
  have hK₄ : K f₄.device.session.kernel := (h₄.changes.kernel (fun _ _ => hn.later) hK₃).1
  have hlater := h₅.changes.kernel (fun _ _ => hn.later) hK₄
  exact kept_of_decides (h₃.wellFormed hd) h₃.toKeeps (hdecides.bides h₅) hout' hblocker hstage
    (hlater.2 _ hpassed)

/-- An apply that fails has changed nothing that matters or made a full search; one that succeeds has
kept the previous allocation or made a full search. -/
theorem apply_spec {d : Device σ} (hd : d.WellFormed) (flags : CommitFlags) (options : ApplyOptions)
    (request : Request) :
    Ensures (Frame.apply o flags options) ⟨d, request⟩
      (fun _ f' => Reused o d f'.device ∨ Searched o d f'.device)
      (fun _ f' => Quiet d f'.device ∨ Unfinished o d f'.device) := by
  have hnotes : Kernel.Notes flags _ _ := notes_asks d.session.kernel
  have hcases := apply_cases (o := o) hd hnotes .refl options request
  -- A search leaves the other outputs alone, whether it ends or fails.
  have hunfinished : ∀ {outcome : ReuseOutcome} {d₁ d₂ : Device σ}, outcome ≠ .accepted →
      Decides flags o outcome d d₁ → Spares d₁ o d₂ → Unfinished o d d₂ := by
    intro outcome d₁ d₂ houtcome hdecides hspares
    refine ⟨hspares.wellFormed, fun o' ho' => ?_, fun o' => ?_, outcome, houtcome,
      hdecides.reports.trans hspares.scene.reports⟩
    · rw [hspares.others o' ho', hdecides.wiring]
    · exact (hspares.scene.layersChanged o').trans (hdecides.layersChanged o')
  refine hcases.mono ?_ ?_
  -- The layout comes from the best path, everything else from what each phase leaves alone.
  · rintro - f' ⟨d₁, d₂, outcome, hdecides, hmarks, -, ⟨rfl, rfl, hkept⟩ | ⟨houtcome, entry, hlaid, -⟩⟩
    · exact .inl {
        unchanged := hkept.unchanged
        wellFormed := hmarks.wellFormed (hdecides.wellFormed hd)
        wiring := hmarks.wiring.trans hdecides.wiring
        settled := hmarks.settled
        flags := fun o' ho' => (hmarks.others o' ho').trans (hdecides.layersChanged o')
        reports := hdecides.reports.trans hmarks.reports }
    · obtain ⟨s, best, hout, hlayers, hallocated⟩ := hlaid.allocated
      have hspared := hunfinished houtcome hdecides hallocated.toSpares
      exact .inr {
        wellFormed := hmarks.wellFormed hspared.wellFormed
        others := fun o' ho' => by rw [hmarks.wiring, hspared.others o' ho']
        settled := hmarks.settled
        flags := fun o' ho' => (hmarks.others o' ho').trans (hspared.flags o')
        reports := by
          have hsearched := hdecides.reports.trans hallocated.scene.reports
          exact ⟨outcome, houtcome, hsearched.trans hmarks.reports⟩
        layout := hallocated.layout hmarks hout hlayers rfl }
  · rintro e f' (⟨hbides, -⟩ | ⟨d₁, outcome, houtcome, hdecides, hspares, -⟩)
    · exact .inl hbides.toQuiet
    · exact .inr (hunfinished houtcome hdecides hspares)

end Ends

end Allocation

end Scanout
