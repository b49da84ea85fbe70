import Scanout.Proofs.Allocation.Eligible
import Scanout.Proofs.Allocation.Prepare

namespace Scanout

variable {σ : Type}

namespace Layer

variable {l : Layer}

theorem isClean_iff : l.IsClean ↔
    l.changed = false ∧ l.cleanFramebuffer = l.framebuffer ∧ l.properties.markClean = l.properties := by
  cases l
  simp [IsClean, markClean, @eq_comm _ false, @eq_comm (Option Framebuffer)]
  tauto

theorem IsClean.isDirty (h : l.IsClean) {e : Property.Entry} (he : e ∈ l.properties.entries) :
    e.isDirty = false := by
  have hentries := congrArg Property.Bag.entries (isClean_iff.mp h).2.2
  rw [← hentries] at he
  obtain ⟨e', -, rfl⟩ := List.mem_map.mp he
  simp [Property.Entry.isDirty]

/-- Counting an update that was not made leaves the layer untouched. -/
theorem IsClean.countUpdate (h : l.IsClean) (periodElapsed : Bool) :
    ({ l.countUpdate periodElapsed with framebuffer := l.framebuffer } : Layer).IsClean := by
  rw [isClean_iff] at h ⊢
  unfold Layer.countUpdate
  cases periodElapsed <;> exact h

/-- A layer that was not touched asks for nothing. -/
theorem IsClean.needsRealloc {layers : Arena Layer} {out : Output} {id : LayerId}
    (hl : layers.get? id.toHandle = some l) (h : l.IsClean) :
    Allocation.needsRealloc layers out id = none := by
  obtain ⟨hchanged, hframebuffer, -⟩ := isClean_iff.mp h
  have hcauses : ∀ e ∈ l.properties.entries, l.reallocCause? e = none := by
    intro e he
    have hvalue := Property.Entry.eq_cleanValue_of_not_isDirty (h.isDirty he)
    -- Of each property the cause is a difference to the mark, and there is none.
    unfold reallocCause?
    split
    · -- The framebuffer is there or not as before, and so is its layout.
      simp only [hvalue, hframebuffer, Bool.and_self, Bool.or_self, decide_eq_true_eq]
      split
      · rfl
      · simp [Framebuffer.layoutDiffers]
    · simp [h.isDirty he]
  -- Nor has any entry moved the layer.
  have hmoves : l.properties.entries.any Property.Entry.isMove = false := by
    rw [List.any_eq_false]
    intro e he
    simp [Property.Entry.isMove, h.isDirty he]
  have hcause : l.properties.entries.findSome? l.reallocCause? = none :=
    List.findSome?_eq_none_iff.mpr hcauses
  simp only [Allocation.needsRealloc, hl, Option.bind_eq_bind, Option.bind_some, hchanged, hcause,
    hmoves, Bool.false_and, Bool.false_eq_true, ↓reduceIte]

end Layer

namespace Device

structure SameLayers (d d' : Device σ) : Prop where
  layers : ∀ id, (d'.layer? id).map Layer.bare = (d.layer? id).map Layer.bare
  orders : ∀ o, (d'.output? o).map Output.order = (d.output? o).map Output.order

instance : IsPreorder (Device σ) SameLayers where
  refl _ := ⟨fun _ => rfl, fun _ => rfl⟩
  trans _ _ _ h h' :=
    ⟨fun id => (h'.layers id).trans (h.layers id), fun o => (h'.orders o).trans (h.orders o)⟩

structure Relinks (d d' : Device σ) : Prop extends SameLayers d d' where
  reports : Session.Reports [] d.session d'.session

instance : IsPreorder (Device σ) Relinks where
  refl d := ⟨refl_of SameLayers d, refl_of (Session.Reports []) _⟩
  trans _ _ _ h h' :=
    ⟨trans_of SameLayers h.toSameLayers h'.toSameLayers, trans_of (Session.Reports []) h.reports h'.reports⟩

section Edits

variable {d : Device σ}

theorem relinks_session {session : Session σ} (h : Session.Reports [] d.session session) :
    Relinks d { d with session } := ⟨⟨fun _ => rfl, fun _ => rfl⟩, h⟩

theorem relinks_withLayer {id : LayerId} {f : Layer → Layer}
    (hf : ∀ l, d.layer? id = some l → (f l).bare = l.bare) : Relinks d (d.withLayer id f) where
  layers := by
    intro id'
    rw [layer?_withLayer]
    split
    · rename_i hid
      subst hid
      rw [Option.map_map]
      exact Option.map_congr hf
    · rfl
  orders _ := rfl
  reports := refl_of (Session.Reports []) _

theorem relinks_withOutput {o : OutputId} {f : Output → Output} (hf : ∀ out, (f out).order = out.order) :
    Relinks d (d.withOutput o f) where
  layers _ := rfl
  orders := by
    intro o'
    rw [output?_withOutput]
    split
    · rw [Option.map_map]
      exact Option.map_congr fun out _ => hf out
    · rfl
  reports := refl_of (Session.Reports []) _

end Edits

end Device

namespace Allocation

open Device

variable [Kernel σ] {flags : CommitFlags} {o : OutputId} {out : Output} {d : Device σ}

def Skips (o : OutputId) (blocker : Option ReuseBlocker) (d d' : Device σ) : Prop :=
  ∀ why, d'.session.decisions = (o, .skipped why) :: d.session.decisions ↔ blocker = some why

def Finishes (o : OutputId) (d d' : Device σ) : Prop := ∃ d₁, SameLayers d d₁ ∧ Marks o d₁ d'

/-- A full search changes layers only in their links and candidates. -/
theorem relinks_allocate (options : ApplyOptions) (started : HostTime) :
    Stays (Frame.Within Relinks) (allocate (σ := σ) o flags options started) :=
  stays_allocate (fun _ _ _ => relinks_session) (fun _ _ _ => relinks_withLayer)
    (fun _ _ _ => ⟨⟨fun _ => rfl, fun _ => rfl⟩, refl_of (Session.Reports []) _⟩) o options started

/-- What follows the decision changes nothing about the layers but their links, and marks them. -/
theorem carryOut_finishes (f : Frame σ) (ho : (f.device.output? o).isSome) (outcome : ReuseOutcome)
    (options : ApplyOptions) (started : HostTime) :
    Ensures (carryOut o flags options started outcome) f
      (fun _ f' => Finishes o f.device f'.device ∧
        Session.Reports [] f.device.session f'.device.session)
      (fun _ f' => Session.Reports [] f.device.session f'.device.session) := by
  -- Asking and counting relink nothing.
  have hask : ∀ (d : Device σ) session,
      Relation.ReflTransGen (Kernel.Asks flags) d.session.kernel session.kernel →
      Session.Reports [] d.session session → Relinks d { d with session } :=
    fun _ _ _ => relinks_session
  have hcount : ∀ (d : Device σ) o (reusedCount : Nat),
      Relinks d (d.withOutput o ({ · with reusedCount })) :=
    fun _ _ _ => relinks_withOutput fun _ => rfl
  -- Both ways end with the same conclusion, from wherever the allocation was left.
  have hmark : ∀ score f₁, Relinks f.device f₁.device → Ensures (conclude o outcome started score) f₁
      (fun _ f' => Finishes o f.device f'.device ∧
        Session.Reports [] f.device.session f'.device.session)
      (fun _ f' => Session.Reports [] f.device.session f'.device.session) := by
    intro score f₁ h₁
    have hlive : (f₁.device.output? o).isSome := by
      rw [← Option.isSome_map, h₁.orders, Option.isSome_map]
      exact ho
    refine (conclude_spec f₁ hlive outcome started score).mono
      (fun _ _ h => ⟨⟨_, h₁.toSameLayers, h.1⟩, ?_⟩) fun _ _ => False.elim
    exact trans_of (Session.Reports []) h₁.reports h.1.reports
  unfold carryOut
  split
  · rw [ensures_bind, Frame.ensures_onDevice]
    exact (stays_countReuse (stays_log hask) hcount o f.device).mono (fun _ _ h => hmark none _ h)
      fun _ _ h => h.reports
  · rw [ensures_bind, Frame.ensures_onDevice]
    refine (stays_resetReuse (stays_log hask) hcount o f.device).mono (fun _ d₁ h₁ => ?_) fun _ _ h => h.reports
    -- The search relinks, which leaves layers and their order as they are.
    rw [ensures_bind]
    refine (relinks_allocate options started ⟨_, _⟩).mono (fun score f₂ h₂ => ?_) fun _ _ h₂ => ?_
    · exact hmark score f₂ (trans_of Relinks h₁ h₂)
    · exact trans_of (Session.Reports []) h₁.reports h₂.reports

/-- The decision keeps all but the driver's state, and it is to skip exactly if there is a reason. -/
theorem decideReuse_skips (f : Frame σ) (hout : f.device.output? o = some out) (orderChanged : Bool) :
    Ensures (decideReuse o flags orderChanged) f
      (fun outcome f' => Relinks f.device f'.device ∧ ∀ why,
        outcome = .skipped why ↔ reuseBlocker f.device.layers out orderChanged = some why)
      (fun _ f' => Relinks f.device f'.device ∧
        reuseBlocker f.device.layers out orderChanged = none) := by
  simp only [decideReuse, ensures_bind, Frame.ensures_onDevice, Device.ensures_output, ensures_get]
  refine ⟨fun out' hout' => ?_, fun hnone => by rw [hout] at hnone; cases hnone⟩
  obtain rfl := Option.some.inj (hout.symm.trans hout')
  -- With a blocker the outcome is to skip, and without one it is not.
  cases hblocker : reuseBlocker f.device.layers out orderChanged with
  | some blocker =>
    refine ⟨refl_of Relinks f.device, fun why => ?_⟩
    simp only [ReuseOutcome.skipped.injEq, Option.some.injEq]
  | none =>
    simp only [ensures_bind]
    have hstays : Stays (Frame.Within Relinks) (tryReuse (σ := σ) flags) :=
      Frame.stays_tryReuse (stays_testCommit fun _ _ _ => relinks_session)
    refine (hstays f).mono (fun objection f' h => ?_) fun _ _ h => ⟨h, trivial⟩
    cases objection with
    | none => exact ⟨h, fun why => by simp⟩
    | some e => exact ⟨h, fun why => by simp⟩

/-- What an apply does once all is prepared for its decision. -/
theorem decision_skips {k : σ} {changed : Bool} {d₁ : Device σ} (hprepared : Prepared k out o changed d d₁)
    (hreports₁ : Session.Reports [] d.session d₁.session) (options : ApplyOptions) (started : HostTime)
    (request : Request) :
    Ensures (do
        let outcome ← decideReuse o flags changed
        Frame.emit (.reuse o outcome)
        carryOut o flags options started outcome) ⟨d₁, request⟩
      (fun _ f' => ∃ changed d₁, Prepared k out o changed d d₁ ∧
        Skips o (reuseBlocker d₁.layers (inOrder d₁.layers out) changed) d f'.device ∧
        Finishes o d₁ f'.device)
      (fun _ f' => ∃ changed d₁, Prepared k out o changed d d₁ ∧
        Skips o (reuseBlocker d₁.layers (inOrder d₁.layers out) changed) d f'.device) := by
  rw [ensures_bind]
  refine (decideReuse_skips ⟨d₁, request⟩ hprepared.output changed).mono ?_ ?_
  · rintro outcome f₂ ⟨hrelinks₂, hskips⟩
    -- The decision itself is the one event of its kind.
    let s₂ := f₂.device.session
    -- Everything told afterwards is no decision.
    let f₃ : Frame σ :=
      { f₂ with device := { f₂.device with session := { s₂ with trace := .reuse o outcome :: s₂.trace } } }
    have hsame₃ : SameLayers d₁ f₃.device := ⟨hrelinks₂.layers, hrelinks₂.orders⟩
    have hreports₃ : Session.Reports [(o, outcome)] d.session f₃.device.session :=
      (hreports₁.trans hrelinks₂.reports).trans ⟨[.reuse o outcome], rfl, rfl⟩
    rw [ensures_bind, Frame.ensures_emit]
    have hlive : (f₃.device.output? o).isSome := by
      rw [← Option.isSome_map, hsame₃.orders, Option.isSome_map, hprepared.output]
      rfl
    have htold : ∀ f' : Frame σ, Session.Reports [] f₃.device.session f'.device.session →
        Skips o (reuseBlocker d₁.layers (inOrder d₁.layers out) changed) d f'.device := by
      intro f' h why
      rw [← hskips, (hreports₃.trans h).decisions]
      simp
    refine (carryOut_finishes f₃ hlive outcome options started).mono ?_ ?_
    · rintro - f' ⟨⟨d₂, hsame₂, hmarks⟩, hreports'⟩
      exact ⟨changed, d₁, hprepared, htold f' hreports', d₂, trans_of SameLayers hsame₃ hsame₂, hmarks⟩
    · exact fun _ f' h => ⟨changed, d₁, hprepared, htold f' h⟩
  · rintro e f₂ ⟨hrelinks₂, hnone⟩
    have hdecisions := (trans_of (Session.Reports []) hreports₁ hrelinks₂.reports).decisions
    -- Without a decision the last one is that of an earlier apply.
    refine ⟨changed, d₁, hprepared, fun why => iff_of_false (fun h => ?_) fun h => ?_⟩
    · rw [hdecisions] at h
      exact List.cons_ne_self _ _ h.symm
    · rw [hnone] at h
      cases h

/-- How an apply comes to its decision, and what follows. -/
theorem apply_skips (d : Device σ) (o : OutputId) (options : ApplyOptions) (request : Request) :
    Ensures (Frame.apply o flags options) ⟨d, request⟩
      (fun _ f' => ∃ out, d.output? o = some out ∧ ∃ changed d₁,
        Prepared (Kernel.now d.session.kernel).2 out o changed d d₁ ∧
        Skips o (reuseBlocker d₁.layers (inOrder d₁.layers out) changed) d f'.device ∧
        Finishes o d₁ f'.device)
      (fun _ f' => ∀ out, d.output? o = some out → ∃ changed d₁,
        Prepared (Kernel.now d.session.kernel).2 out o changed d d₁ ∧
        Skips o (reuseBlocker d₁.layers (inOrder d₁.layers out) changed) d f'.device) := by
  -- The output is not there, or the apply comes to its decision.
  apply ensures_apply
  · intro hnone _ _ out hout
    cases hnone.symm.trans hout
  · intro out started changed d₁ hout hprepared hbides
    refine (decision_skips hprepared hbides.reports options started request).mono
      (fun _ f' h => ⟨out, hout, h⟩) fun _ f' h out' hout' => ?_
    obtain rfl := Option.some.inj (hout.symm.trans hout')
    exact h

/-- Nothing has happened to the output since a clean mark, at which the driver was in state `k`. -/
structure AtRest (k : σ) (o : OutputId) (d : Device σ) : Prop where
  live : (d.output? o).isSome
  unchanged : ¬ d.LayersChanged o
  clean : ∀ out, d.output? o = some out → ∀ id ∈ out.layers, ∀ l, d.layer? id = some l →
    l.IsClean ∧ l.framebuffer = Kernel.metadata k l

omit [Kernel σ] in
/-- Orders of the same layers are settled alike. -/
theorem pairwise_congr {d d' : Device σ} {composition : Option LayerId} {ids : List LayerId}
    (h : ∀ id ∈ ids, (d'.layer? id).map Layer.standing = (d.layer? id).map Layer.standing) :
    (ids.Pairwise fun x y => isHigherPriority d'.layers composition y x = false) ↔
      ids.Pairwise fun x y => isHigherPriority d.layers composition y x = false := by
  apply List.Pairwise.iff_of_mem
  intro x y hx hy
  rw [isHigherPriority_congr (h y hy) (h x hx)]

section Finished

variable {k : σ} {changed : Bool} {d₁ d' : Device σ} (hd : d.WellFormed)
  (hout : d.output? o = some out) (hprepared : Prepared k out o changed d d₁)
  (hfinishes : Finishes o d₁ d')

section Order

include hprepared hfinishes

/-- An apply that succeeds leaves the output in the order that its decision has found. -/
theorem order_of_finishes :
    (d'.output? o).map Output.order = some (inOrder d₁.layers out).order := by
  obtain ⟨d₂, hsame, hmarks⟩ := hfinishes
  rw [hmarks.orders, hsame.orders, hprepared.output]
  rfl

theorem order_eq_of_finishes {out' : Output} (hout' : d'.output? o = some out') :
    out'.layers = (inOrder d₁.layers out).layers ∧ out'.compositionLayer = out.compositionLayer := by
  have horder := order_of_finishes hprepared hfinishes
  rw [hout'] at horder
  exact Prod.mk.inj (Option.some.inj horder)

end Order

omit [Kernel σ] in
theorem mem_inOrder {layers : Arena Layer} {id : LayerId} :
    id ∈ (inOrder layers out).layers ↔ id ∈ out.layers :=
  (arrange_perm (isHigherPriority layers out.compositionLayer) out.layers).mem_iff

include hd hout hprepared hfinishes

/-- In the end a layer of the output is what it was at the decision, up to its links and the mark. -/
theorem layer_of_finishes {id : LayerId} (hid : id ∈ out.layers) :
    ∃ l, ∃ l₂ : Layer, d.layer? id = some l ∧ l₂.output = o ∧ d'.layer? id = some l₂.markClean ∧
      l₂.bare =
        ({ l.countUpdate d.periodElapsed with framebuffer := Kernel.metadata k l } : Layer).bare := by
  obtain ⟨d₂, hsame, hmarks⟩ := hfinishes
  obtain ⟨l, hl, hlo⟩ := layer_of_output hd hout hid
  -- The layer was prepared first, and later relinked at most.
  have hlayer₂ := hsame.layers id
  rw [hprepared.layers id hid, hl] at hlayer₂
  obtain ⟨l₂, hl₂, hbare⟩ := Option.map_eq_some_iff.mp hlayer₂
  have horder₂ : (d₂.output? o).map Output.order = some (inOrder d₁.layers out).order := by
    rw [hsame.orders, hprepared.output]
    rfl
  obtain ⟨out₂, hout₂, heq₂⟩ := Option.map_eq_some_iff.mp horder₂
  have hid₂ : id ∈ out₂.layers := by
    rw [show out₂.layers = _ from congrArg Prod.fst heq₂]
    exact mem_inOrder.mpr hid
  -- It is still listed with its output, and so marked clean.
  have houtput : l₂.output = l.output :=
    (congrArg Layer.output hbare :).trans (congrArg Prod.fst (l.place_countUpdate _))
  refine ⟨l, l₂, hl, houtput.trans hlo, ?_, hbare⟩
  rw [hmarks.marked out₂ hout₂ id hid₂, hl₂]
  rfl

/-- The clean mark of an apply that succeeds is one at which nothing was pending. -/
theorem atRest_of_finishes : AtRest k o d' := by
  have horder := order_of_finishes hprepared hfinishes
  refine ⟨?_, ?_, fun out' hout' id hid l' hl' => ?_⟩
  · rw [← Option.isSome_map, horder]
    rfl
  · obtain ⟨d₂, -, hmarks⟩ := hfinishes
    exact hmarks.settled
  · rw [(order_eq_of_finishes hprepared hfinishes hout').1, mem_inOrder] at hid
    obtain ⟨l, l₂, hl, -, hl₂, hbare⟩ := layer_of_finishes hd hout hprepared hfinishes hid
    -- The layer is clean, with the metadata that the driver has for it.
    obtain rfl := Option.some.inj (hl'.symm.trans hl₂)
    refine ⟨l₂.markClean_markClean, ?_⟩
    have hframebuffer : l₂.framebuffer = Kernel.metadata k l := congrArg Layer.framebuffer hbare
    have hproperty : l₂.property? WellKnown.fbId.name = l.property? WellKnown.fbId.name :=
      (congrArg (Layer.property? · WellKnown.fbId.name) hbare).trans (l.property?_countUpdate _ _)
    have hmarked : l₂.markClean.property? WellKnown.fbId.name = l₂.property? WellKnown.fbId.name :=
      l₂.properties.value?_markClean .fbId
    rw [Kernel.metadata_congr k (hmarked.trans hproperty)]
    exact hframebuffer

/-- Layers are compared in the end as they were at the decision. -/
theorem standing_of_finishes {id : LayerId} (hid : id ∈ out.layers) :
    (d'.layer? id).map Layer.standing = (d₁.layer? id).map Layer.standing := by
  obtain ⟨l, l₂, hl, -, hl₂, hbare⟩ := layer_of_finishes hd hout hprepared hfinishes hid
  rw [hprepared.layers id hid, hl, hl₂]
  have hmarked : l₂.markClean.standing = l₂.standing := Prod.ext l₂.look_markClean rfl
  have hlinked : l₂.standing = _ := (congrArg Layer.standing hbare :)
  rw [Option.map_some, Option.map_some, Option.map_some, hmarked, hlinked]
  rfl

/-- Where stacking and update frequency agree, the layers are compared by rank, and so their order is
settled. -/
theorem settled_of_finishes (hharmonious : d'.Harmonious o) : d'.Settled o := by
  intro out' hout'
  obtain ⟨hlayers, hcomposition⟩ := order_eq_of_finishes hprepared hfinishes hout'
  rw [hlayers, hcomposition]
  -- The layers compare in the end as they did when they were arranged.
  have hstanding : ∀ id ∈ out.layers,
      (d'.layer? id).map Layer.standing = (d₁.layer? id).map Layer.standing :=
    fun _ => standing_of_finishes hd hout hprepared hfinishes
  refine (pairwise_congr fun id hid => hstanding id (mem_inOrder.mp hid)).mpr ?_
  have hnodup : out.layers.Nodup := by
    have hmembers := hd.wiring.layers_nodup o out.layers out.compositionLayer
    exact Multiset.coe_nodup.mp (hmembers (by simp [wiring, hout, Output.members]))
  -- Where they are in harmony, the comparison is that of ranks, which orders them.
  have hkey : ∀ x ∈ out.layers, ∀ y ∈ out.layers, x ≠ y →
      (isHigherPriority d₁.layers out.compositionLayer x y = true ↔
        rank d'.layers out.compositionLayer y < rank d'.layers out.compositionLayer x) := by
    intro x hx y hy hne
    obtain ⟨-, l, -, hlo, hl, -⟩ := layer_of_finishes hd hout hprepared hfinishes hx
    obtain ⟨-, m, -, hmo, hm, -⟩ := layer_of_finishes hd hout hprepared hfinishes hy
    rw [← isHigherPriority_congr (hstanding x hx) (hstanding y hy)]
    exact isHigherPriority_iff hl hm hne (hharmonious x y _ _ hl hm hlo hmo)
  exact arrange_settled hnodup hkey

end Finished

theorem skips_of_atRest {k : σ} {changed : Bool} {d₁ : Device σ} (hd : d.WellFormed)
    (hout : d.output? o = some out) (hrest : AtRest k o d)
    (hprepared : Prepared (Kernel.now d.session.kernel).2 out o changed d d₁)
    (hmetadata : ∀ id l, d.layer? id = some l → l.output = o →
      Kernel.metadata (Kernel.now d.session.kernel).2 l = Kernel.metadata k l)
    (hpriorities : d.KeepsPriorities o) (why : ReuseBlocker) :
    reuseBlocker d₁.layers (inOrder d₁.layers out) changed = some why ↔
      why = .orderChanged ∧ ¬ d.Settled o := by
  -- Each layer is at rest: clean, counted, and with the metadata it had.
  have hlayer : ∀ id ∈ out.layers, ∃ l, d.layer? id = some l ∧ l.output = o ∧ l.IsClean ∧
      d₁.layer? id = some { l.countUpdate d.periodElapsed with framebuffer := l.framebuffer } := by
    intro id hid
    obtain ⟨l, hl, hlo⟩ := layer_of_output hd hout hid
    obtain ⟨hclean, hframebuffer⟩ := hrest.clean out hout id hid l hl
    refine ⟨l, hl, hlo, hclean, ?_⟩
    rw [hprepared.layers id hid, hl, Option.map_some, hmetadata id l hl hlo, ← hframebuffer]
  have hunchanged : out.layersChanged = false := by
    rw [← Bool.not_eq_true]
    exact fun h => hrest.unchanged ⟨out, hout, h⟩
  -- A clean layer needs no new allocation.
  have hneeds : ∀ id ∈ (inOrder d₁.layers out).layers,
      needsRealloc d₁.layers (inOrder d₁.layers out) id = none := by
    intro id hid
    obtain ⟨l, -, -, hclean, hl₁⟩ := hlayer id (mem_inOrder.mp hid)
    exact (hclean.countUpdate d.periodElapsed).needsRealloc hl₁
  -- So nothing but a new order stands in the way.
  have hblocker : reuseBlocker d₁.layers (inOrder d₁.layers out) changed =
      if changed then some .orderChanged else none := by
    have hnone : (inOrder d₁.layers out).layers.findSome? (fun id =>
        (needsRealloc d₁.layers (inOrder d₁.layers out) id).map fun cause => (id, cause)) = none := by
      rw [List.findSome?_eq_none_iff]
      intro id hid
      rw [hneeds id hid]
      rfl
    rw [reuseBlocker, hnone]
    simp [inOrder, hunchanged]
  -- The layers are compared as before, so the order changes only if it was not settled.
  have hstanding : ∀ id ∈ out.layers,
      (d₁.layer? id).map Layer.standing = (d.layer? id).map Layer.standing := by
    intro id hid
    obtain ⟨l, hl, hlo, -, hl₁⟩ := hlayer id hid
    rw [hl₁, hl, Option.map_some, Option.map_some, Option.some.injEq]
    exact Prod.ext (l.look_countUpdate d.periodElapsed) (hpriorities id l hl hlo)
  have hsettled : d.Settled o ↔ changed = false := by
    rw [← hprepared.changed, arrange_snd_eq_false, pairwise_congr hstanding]
    simp [Settled, hout]
  rw [hblocker, hsettled]
  cases changed <;> simp [eq_comm]

end Allocation

namespace Scripted

/-- What the driver says about framebuffers depends on its list of them. -/
theorem metadata_congr {s s' : Scripted} (h : s'.fbs = s.fbs) (l : Layer) :
    Kernel.metadata s' l = Kernel.metadata s l := by
  simp only [Kernel.metadata, Kernel.framebuffer, h]

end Scripted

namespace Device

/-- Three layers in a row, of which each overlaps the next one below. The lowest has been updated since
the others, and the next apply ends a period. -/
def cyclicLayers : Device Scripted :=
  ({ session := { kernel := .twoPipes }, config := { priorityPeriod := 2 }, crtcs := [1, 2] } :
    Device Scripted).afterAll
    ([.registerAllPlanes, .createOutput 1] ++ Operation.layerAt 0 0 3 ++ Operation.layerAt 1 60 2 ++
      Operation.layerAt 2 120 1 ++ [.apply .first {} {} {}, .setProperty ⟨⟨2, 0⟩⟩ "FB_ID" 9])

theorem reachable_cyclicLayers : cyclicLayers.Reachable :=
  ⟨.twoPipes, { priorityPeriod := 2 }, [1, 2], _, run_afterAll (by decide +kernel)⟩

/-- The three layers after this apply: the first comes before the second and the second before the third
by position, and the third before the first by priority. -/
def cyclicShown : Device Scripted := cyclicLayers.after (.apply .first {} {} {})

theorem apply_cyclicLayers : ∃ f : Frame Scripted,
    Frame.apply .first {} {} ⟨cyclicLayers, {}⟩ = .ok () f ∧ f.device = cyclicShown :=
  exists_after_apply cyclicLayers .first {} {} {} (by decide +kernel)

theorem metadata_cyclicShown (l : Layer) :
    Kernel.metadata (Kernel.now cyclicShown.session.kernel).2 l =
      Kernel.metadata (Kernel.now cyclicLayers.session.kernel).2 l :=
  Scripted.metadata_congr (by decide +kernel) l

theorem keepsPriorities_cyclicShown : cyclicShown.KeepsPriorities .first := by
  have hperiod : cyclicShown.periodElapsed = false := by decide +kernel
  intro id l _ _
  rw [hperiod]
  rfl

end Device

namespace Allocation

open Device

variable [Kernel σ] {flags : CommitFlags} {o : OutputId} {d : Device σ}

/-- When an apply follows on one that succeeded, the driver says the same about the framebuffers, and no
priority of a layer is renewed, the kept allocation is skipped exactly if the layers are not settled, and
the reason given is their order. Where stacking and update frequency agree, they are settled. -/
theorem skipped_iff_not_settled {request request' : Request} {flags' : CommitFlags}
    {options options' : ApplyOptions} {f : Frame σ} (hd : d.Reachable)
    (hrun : Frame.apply o flags options ⟨d, request⟩ = .ok () f)
    (hmetadata : ∀ id l, f.device.layer? id = some l → l.output = o →
      Kernel.metadata (Kernel.now f.device.session.kernel).2 l =
        Kernel.metadata (Kernel.now d.session.kernel).2 l)
    (hpriorities : f.device.KeepsPriorities o) :
    (∀ why, (f.device.after (.apply o request' flags' options')).session.decisions =
        (o, .skipped why) :: f.device.session.decisions ↔
      why = .orderChanged ∧ ¬ f.device.Settled o) ∧
    (f.device.Harmonious o → f.device.Settled o) := by
  have hwell := hd.wellFormed
  obtain ⟨out, hout, changed, d₁, hprepared, -, hfinishes⟩ :=
    (ensures_of_eq_ok hrun).mp (apply_skips d o options request)
  have hrest := atRest_of_finishes hwell hout hprepared hfinishes
  have hwell' := (hd.of_apply hrun).wellFormed
  -- The first apply leaves the output at rest.
  refine ⟨fun why => ?_, settled_of_finishes hwell hout hprepared hfinishes⟩
  rw [after_apply]
  obtain ⟨out', hout'⟩ := Option.isSome_iff_exists.mp hrest.live
  -- Whichever way the second one ends, its decision depends on the blocker alone.
  have hsecond : ∃ changed d₁,
      Prepared (Kernel.now f.device.session.kernel).2 out' o changed f.device d₁ ∧
      Skips o (reuseBlocker d₁.layers (inOrder d₁.layers out') changed) f.device
        (leftBy (Frame.apply o flags' options' ⟨f.device, request'⟩)).device := by
    refine Ensures.leftBy (P := fun f' => ∃ changed d₁,
      Prepared (Kernel.now f.device.session.kernel).2 out' o changed f.device d₁ ∧
      Skips o (reuseBlocker d₁.layers (inOrder d₁.layers out') changed) f.device f'.device)
      ((apply_skips f.device o options' request').mono ?_ ?_)
    · rintro - f' ⟨out'', hout'', changed, d₁, hprepared, hskips, -⟩
      obtain rfl := Option.some.inj (hout'.symm.trans hout'')
      exact ⟨changed, d₁, hprepared, hskips⟩
    · exact fun _ _ h => h out' hout'
  obtain ⟨changed', d₁', hprepared', hskips⟩ := hsecond
  rw [hskips why]
  exact skips_of_atRest hwell' hout' hrest hprepared' hmetadata hpriorities why

/-- Nothing happens to the three layers between two applies, and yet their order changes. -/
theorem skipped_cyclicShown : ∃ f : Frame Scripted,
    Frame.apply .first {} {} ⟨cyclicLayers, {}⟩ = .ok () f ∧
      (f.device.after (.apply .first {} {} {})).session.decisions =
        (.first, .skipped .orderChanged) :: f.device.session.decisions := by
  obtain ⟨f, hrun, hf⟩ := apply_cyclicLayers
  have hunsettled : ¬ cyclicShown.Settled .first := by decide +kernel
  obtain ⟨hskipped, -⟩ := skipped_iff_not_settled reachable_cyclicLayers hrun
    (fun _ l _ _ => hf ▸ metadata_cyclicShown l) (hf ▸ keepsPriorities_cyclicShown)
  exact ⟨f, hrun, (hskipped .orderChanged).mpr ⟨rfl, hf ▸ hunsettled⟩⟩

/-- An apply may skip the kept allocation although nothing has happened since the last one. -/
theorem not_forall_not_skipped :
    ¬ ∀ (d : Device Scripted) (o : OutputId) (f : Frame Scripted), d.Reachable →
      Frame.apply o {} {} ⟨d, {}⟩ = .ok () f →
      (∀ id l, f.device.layer? id = some l → l.output = o →
        Kernel.metadata (Kernel.now f.device.session.kernel).2 l =
          Kernel.metadata (Kernel.now d.session.kernel).2 l) →
      f.device.KeepsPriorities o →
      ∀ why, (f.device.after (.apply o {} {} {})).session.decisions ≠
        (o, .skipped why) :: f.device.session.decisions := by
  intro h
  obtain ⟨f, hrun, hf⟩ := apply_cyclicLayers
  have hskipped : (cyclicShown.after (.apply .first {} {} {})).session.decisions =
      (.first, .skipped .orderChanged) :: cyclicShown.session.decisions := by decide +kernel
  exact h cyclicLayers .first f reachable_cyclicLayers hrun (fun _ l _ _ => hf ▸ metadata_cyclicShown l)
    (hf ▸ keepsPriorities_cyclicShown) .orderChanged (hf ▸ hskipped)

end Allocation

end Scanout
