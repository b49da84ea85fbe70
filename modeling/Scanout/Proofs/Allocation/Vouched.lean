import Scanout.Proofs.Allocation.Course
import Scanout.Proofs.Allocation.Failing
import Scanout.Proofs.Device.Remains

/-! What vouches for a layer that is on a plane. A full search has put it there for what it was then, and
the clean mark keeps that. An edit that could matter is noted or asks for a new allocation, so what held
at the mark is passed on from apply to apply, unless a search leaves links behind that were not marked. -/

namespace Scanout

variable {σ : Type}

namespace Property

def Entry.atMark (e : Entry) : Entry := { e with value := e.cleanValue }

def Bag.atMark (b : Bag) : Bag := { b with entries := b.entries.map Entry.atMark }

end Property

namespace Layer

variable {l l' : Layer}

def atMark (l : Layer) : Layer :=
  { l with framebuffer := l.cleanFramebuffer, properties := l.properties.atMark }

theorem atMark_markClean (l : Layer) : l.markClean.atMark = l.markClean := by
  simp [atMark, markClean, Property.Bag.atMark, Property.Bag.markClean, Property.Entry.atMark,
    Function.comp_def]

theorem isClean_atMark (h : l.changed = false) : l.atMark.IsClean := by
  refine isClean_iff.mpr ⟨h, rfl, ?_⟩
  simp [atMark, Property.Bag.atMark, Property.Bag.markClean, Property.Entry.atMark, Function.comp_def]

theorem remembers_atMark (l : Layer) : l.atMark.Remembers l := by
  refine ⟨id, fun _ => ?_⟩
  simp [shape, atMark, Property.Bag.atMark, Property.Entry.atMark, Property.Entry.mark,
    Function.comp_def]

/-- A layer that has not changed had at its mark what it had there before. -/
theorem Recalls.atMark (h : l.Recalls l') (hchanged : l'.changed = false) :
    l'.forcedComposition = l.forcedComposition ∧ l'.atMark.framebuffer = l.atMark.framebuffer ∧
      l'.atMark.properties = l.atMark.properties := by
  have hshape := h.shape hchanged
  simp only [Layer.shape, Prod.mk.injEq, true_and] at hshape
  obtain ⟨hforced, hplaces, hmarks⟩ := hshape
  -- The values at the mark can be read off the marks of the entries.
  have hvalues : ∀ b : Property.Bag, b.atMark =
      ⟨(b.entries.map Property.Entry.mark).map fun m => ⟨m.1, m.2, m.2⟩, b.places⟩ := fun b => by
    rw [List.map_map]
    rfl
  have hbag : l'.properties.atMark = l.properties.atMark := by
    rw [hvalues, hvalues, hmarks, hplaces]
  exact ⟨hforced, h.framebuffer, hbag⟩

/-- A layer that asks for no new allocation is as visible as it was at its mark. -/
theorem isVisible_atMark (hbag : l.properties.WellFormed) (hchanged : l.changed = false)
    (hcauses : ∀ e ∈ l.properties.entries, l.reallocCause? e = none) :
    l.atMark.isVisible = l.isVisible := by
  have hshape : l.shape = l.atMark.shape := l.remembers_atMark.shape hchanged
  have hmarked := wellFormed_of_shape hshape.symm hbag
  exact (alone_of_needsRealloc (isClean_atMark hchanged) l.remembers_atMark hmarked hchanged
    hcauses).2.1.symm

end Layer

/-- Something that is said of a layer on a plane of a pipe, which follows from what a search asks, depends
on the layer's mark, and is passed on to the next mark by a layer that asks for no new allocation. The
driver may have to be steady in what it says about framebuffers. -/
structure Vouches (steady : Option Framebuffer → Option Framebuffer → Prop)
    (V : Nat → Plane → Layer → Prop) : Prop where
  marked : ∀ {n p l}, p.Presents n l → V n p l.markClean
  recalled : ∀ {n p l l'}, l.Recalls l' → l'.changed = false → V n p l → V n p l'
  kept : ∀ {n p l}, l.properties.WellFormed → l.changed = false →
    (∀ e ∈ l.properties.entries, l.reallocCause? e = none) →
    steady l.cleanFramebuffer l.framebuffer → V n p l → V n p l.markClean

namespace Device

def Vouched (V : Nat → Plane → Layer → Prop) (o : OutputId) (d : Device σ) : Prop :=
  ∀ p ∈ d.planes, ∀ id l out, p.layer = some id → d.layer? id = some l → l.output = o →
    d.output? o = some out → l.changed = true ∨ V out.crtcIndex p l

variable {steady : Option Framebuffer → Option Framebuffer → Prop} {V : Nat → Plane → Layer → Prop}
  {o : OutputId} {d d' : Device σ}

theorem vouched_of_no_links (hd : d.WellFormed) (h : d.wiring.links o = ∅) : Vouched V o d := by
  intro p hp id l out hlayer hl ho _
  have hlink := mem_links_of_plane hd.wiring hp hlayer hl
  rw [ho, h] at hlink
  exact hlink.elim

/-- What is vouched for remains so as long as nothing of note happens to it. -/
theorem Vouched.remains [Kernel σ] (hV : Vouches steady V) (h : Vouched V o d) (hd : d.WellFormed)
    (hremains : Remains o d d') : Vouched V o d' := by
  intro p hp id l' out' hlayer hl' ho hout'
  obtain ⟨hmem, l, hl, hrecalls⟩ := hremains.shown p hp id l' hlayer hl' ho
  have hlo : l.output = o := hrecalls.output.symm.trans ho
  obtain ⟨out, hout, -⟩ := output_of_layer hd hl
  rw [hlo] at hout
  have hindex : out'.crtcIndex = out.crtcIndex := congrArg Prod.snd (hremains.pipe out out' hout hout')
  cases hchanged : l'.changed with
  -- A change of the layer is remembered, and then there is nothing to vouch for.
  | true => exact .inl rfl
  | false =>
    rcases h p hmem id l out hlayer hl hlo hout with htrue | hV₀
    · rw [hrecalls.changed htrue] at hchanged
      cases hchanged
    · rw [hindex]
      exact .inr (hV.recalled hrecalls hchanged hV₀)

end Device

namespace Layer

/-- Counting updates and asking the driver leaves a layer its mark. -/
theorem recalls_countUpdate (l : Layer) (periodElapsed : Bool) (framebuffer : Option Framebuffer) :
    l.Recalls { l.countUpdate periodElapsed with framebuffer } := by
  unfold countUpdate
  cases periodElapsed <;> exact ⟨rfl, rfl, id, fun _ => rfl⟩

end Layer

theorem Plane.Presents.of_layer {p : Plane} {n : Nat} {l l' : Layer} (h : p.Presents n l)
    (hbare : l'.bare = l.bare) : p.Presents n l' := by
  have hvisible : l'.isVisible = l.isVisible := (congrArg Layer.isVisible hbare :)
  have hforced : l'.forcedComposition = l.forcedComposition :=
    (congrArg Layer.forcedComposition hbare :)
  have hallows : p.allowsFramebuffer l' = p.allowsFramebuffer l :=
    (congrArg p.allowsFramebuffer hbare :)
  exact ⟨h.serves, hvisible.trans h.visible, hforced.trans h.unforced, hallows.trans h.allows⟩

namespace Device

section Marks

variable {o : OutputId} {d d' : Device σ}

/-- A layer of the output was marked. -/
theorem Marks.exists_layer (h : Marks o d d') (hd : d.WellFormed) {out : Output}
    (hout : d.output? o = some out) {id : LayerId} {l' : Layer} (hl' : d'.layer? id = some l')
    (ho : l'.output = o) : ∃ l, d.layer? id = some l ∧ l.output = o ∧ l' = l.markClean := by
  have hmarked : ∀ l, d.layer? id = some l → l.output = o →
      ∃ l, d.layer? id = some l ∧ l.output = o ∧ l' = l.markClean := by
    intro l hl hlo
    have hmark := h.marked out hout id ((listed_iff hd hout hl).mpr hlo)
    rw [hl', hl] at hmark
    -- The layer was there before, as one of the output.
    exact ⟨l, hl, hlo, Option.some.inj hmark⟩
  rcases h.layers id with hsame | ⟨-, hmark⟩
  · exact hmarked l' (hsame ▸ hl') ho
  · rw [hl'] at hmark
    obtain ⟨l, hl, rfl⟩ := Option.map_eq_some_iff.mp hmark.symm
    exact hmarked l hl ho

end Marks

theorem Undisturbed.remains {o : OutputId} {d d' : Device σ} (h : Undisturbed d d') : Remains o d d' := by
  refine ⟨fun p hp id l' _ hl' _ => ⟨h.planes ▸ hp, l', h.layer? id ▸ hl', refl_of Layer.Recalls l'⟩,
    fun out out' hout hout' => ?_⟩
  have hsame := congrArg (Option.map Output.pipe) (h.outputs o)
  rw [hout, hout'] at hsame
  exact Option.some.inj hsame

/-- The driver is steady about the framebuffers of the output's layers: for what was noted at the marks
and what it says by now, `steady` holds. -/
def Steady [Kernel σ] (steady : Option Framebuffer → Option Framebuffer → Prop) (o : OutputId)
    (d : Device σ) : Prop :=
  ∀ id l, d.layer? id = some l → l.output = o →
    steady l.cleanFramebuffer (Kernel.metadata (Kernel.now d.session.kernel).2 l)

end Device

namespace Allocation

open Device

variable [Kernel σ] {flags : CommitFlags} {o : OutputId} {options : ApplyOptions} {request : Request}
  {out : Output} {changed : Bool} {outcome : ReuseOutcome} {d d₁ d₂ : Device σ} {f' : Frame σ}

/-- At the decision a layer of the output recalls its mark. -/
theorem Prepared.exists_layer {k : σ} (h : Prepared k out o changed d d₁) (hd : d.WellFormed)
    (hout : d.output? o = some out) {id : LayerId} {l : Layer} (hl : d.layer? id = some l)
    (ho : l.output = o) : ∃ l₁, d₁.layer? id = some l₁ ∧ l.Recalls l₁ ∧
      l₁.framebuffer = Kernel.metadata k l ∧ l₁.properties = l.properties := by
  have hlayer := h.layers id ((listed_iff hd hout hl).mpr ho)
  rw [hl, Option.map_some] at hlayer
  refine ⟨_, hlayer, l.recalls_countUpdate _ _, rfl, ?_⟩
  unfold Layer.countUpdate
  cases d.periodElapsed <;> rfl

/-- Preparing an output leaves all that its layers remember. -/
theorem Prepared.remains {k : σ} (h : Prepared k out o changed d d₁) (hd : d.WellFormed)
    (hout : d.output? o = some out) (hbides : Bides flags d d₁) : Remains o d d₁ := by
  have hplanes : d₁.planes = d.planes := congrArg Wiring.planes hbides.wiring
  refine ⟨fun p hp id l₁ _ hl₁ ho => ⟨hplanes ▸ hp, ?_⟩, fun out₀ out₁ hout₀ hout₁ => ?_⟩
  · obtain ⟨l, hl, hcontent⟩ := hbides.changes.sameContent hl₁
    have hlo : l.output = o := (congrArg Prod.fst hcontent).symm.trans ho
    obtain ⟨l₁', hl₁', hrecalls, -⟩ := h.exists_layer hd hout hl hlo
    obtain rfl := Option.some.inj (hl₁.symm.trans hl₁')
    exact ⟨l, hl, hrecalls⟩
  -- The pipe of the output is still the same.
  · obtain ⟨out₀', hout₀', hpipe⟩ := hbides.changes.exists_output hout₁
    obtain rfl := Option.some.inj (hout₀.symm.trans hout₀')
    exact hpipe

/-- What a search has put on planes looks as it did before. -/
theorem Laid.presents_after {noted : σ → Request → Prop} {entry : Request}
    (h : Laid flags o noted request entry d₁ d₂) (hsame : SameLayers d₁ d₂) {p : Plane}
    (hp : p ∈ d₂.planes) {id : LayerId} {l₂ : Layer} (hlayer : p.layer = some id)
    (hl₂ : d₂.layer? id = some l₂) (ho : l₂.output = o) :
    ∃ out, d₁.output? o = some out ∧ p.Presents out.crtcIndex l₂ ∧ p.Takes l₂ := by
  -- The link came from a choice, which was presented with the layer.
  obtain ⟨out, l₁, hout, hl₁, hpresents, htakes⟩ := h.presents hp hlayer hl₂ ho
  have hbare := hsame.layers id
  rw [hl₁, hl₂, Option.map_some, Option.map_some, Option.some.injEq] at hbare
  have hworn : l₂.worn = l₁.worn := (congrArg Layer.worn hbare :)
  exact ⟨out, hout, hpresents.of_layer hbare, p.takes_congr hworn htakes⟩

/-- What a search asks of layers and planes it vouches for, before the layers are marked. -/
theorem Laid.vouched {V : Nat → Plane → Layer → Prop} {noted : σ → Request → Prop} {entry : Request}
    (h : Laid flags o noted request entry d₁ d₂) (hsame : SameLayers d₁ d₂)
    (hpresented : ∀ n p l, p.Presents n l → V n p l) : Vouched V o d₂ := by
  intro p hp id l out hlayer hl ho hout
  obtain ⟨out₁, hout₁, hpresents, -⟩ := h.presents_after hsame hp hlayer hl ho
  obtain ⟨out₀, hout₀, hpipe⟩ := h.changes.exists_output hout
  obtain rfl := Option.some.inj (hout₁.symm.trans hout₀)
  rw [show out.crtcIndex = out₁.crtcIndex from congrArg Prod.snd hpipe]
  exact .inr (hpresented _ p l hpresents)

/-- A layer that asks for no new allocation, before the apply and at the decision, with the driver in
state `k`. -/
structure Contented (k : σ) (l l₁ : Layer) : Prop where
  recalls : l.Recalls l₁
  wellFormed : l₁.properties.WellFormed
  changed : l₁.changed = false
  causes : ∀ e ∈ l₁.properties.entries, l₁.reallocCause? e = none
  framebuffer : l₁.framebuffer = Kernel.metadata k l

/-- All layers of an output that keeps its allocation are contented, and marked in the end. -/
theorem exists_contented (hd : d.Reachable) (hdecided : Decided flags o out changed outcome d d₁ d₂)
    (hblocker : reuseBlocker d₁.layers (inOrder d₁.layers out) changed = none)
    (hmarks : Marks o d₂ f'.device) {id : LayerId} {l' : Layer} (hl' : f'.device.layer? id = some l')
    (ho : l'.output = o) : ∃ l l₁, d.layer? id = some l ∧ l.output = o ∧ d₁.layer? id = some l₁ ∧
      l' = l₁.markClean ∧ Contented (Kernel.now d.session.kernel).2 l l₁ := by
  have hwell := hd.wellFormed
  obtain ⟨out₂, hout₂⟩ := Option.isSome_iff_exists.mp hdecided.isSome_output
  -- The layer is followed back from its mark to the start of the apply.
  obtain ⟨l₂, hl₂, hlo₂, rfl⟩ := hmarks.exists_layer (hdecided.decides.wellFormed hwell) hout₂ hl' ho
  obtain ⟨l, hl, hcontent⟩ := hdecided.decides.changes.sameContent hl₂
  have hlo : l.output = o := (congrArg Prod.fst hcontent).symm.trans hlo₂
  obtain ⟨l₁, hl₁, hrecalls, hframebuffer, hproperties⟩ :=
    hdecided.prepared.exists_layer hwell hdecided.live hl hlo
  rw [hdecided.undisturbed.layer?] at hl₂
  obtain rfl := Option.some.inj (hl₁.symm.trans hl₂)
  have hbag : l₁.properties.WellFormed := hproperties ▸ hd.wellFormed_properties hl
  have hid := (listed_iff hwell hdecided.live hl).mpr hlo
  -- The allocation was kept, so the layer has no cause for a new one.
  obtain ⟨-, hneeds⟩ := settled_of_reuseBlocker hblocker
  obtain ⟨hchanged, hcauses, -⟩ := needsRealloc_eq_none hl₁ (hneeds id (mem_inOrder.mpr hid))
  exact ⟨l, l₁, hl, hlo, hl₁, rfl, hrecalls, hbag, hchanged, hcauses, hframebuffer⟩

/-- A full search leaves the layers as they look, and the output without links unless it lays it out. -/
theorem allocate_laid (hd : d.WellFormed) (ho : (d.output? o).isSome) (options : ApplyOptions)
    (started : HostTime) (request : Request) :
    Ensures (allocate o flags options started) ⟨d, request⟩
      (fun _ f' => SameLayers d f'.device ∧ ∃ noted entry, Laid flags o noted request entry d f'.device)
      (fun e f' => SameLayers d f'.device ∧ f'.device.WellFormed ∧
        (f'.device.wiring.links o = ∅ ∨ ∃ noted entry, Laid flags o noted request entry d f'.device ∧
          f'.device.stageCurrent entry = .error e f'.request)) := by
  have hnotes : Kernel.Notes flags _ _ := notes_asks d.session.kernel
  have hlaid := laid_spec hd hnotes .refl ho options started request
  refine ((relinks_allocate options started ⟨d, request⟩).and hlaid).mono ?_ ?_
  · rintro score f' ⟨hrelinks, entry, hlaid, -⟩
    exact ⟨hrelinks.toSameLayers, _, entry, hlaid⟩
  · rintro e f' ⟨hrelinks, hspares, ⟨session, hcleared, -⟩ | ⟨entry, hlaid, hstage⟩⟩
    -- Stopped in the search, the output has no links left.
    · refine ⟨hrelinks.toSameLayers, hspares.wellFormed, .inl ?_⟩
      rw [hcleared, Set.eq_empty_iff_forall_notMem]
      exact fun x hx => ((mem_links_cleared d o o x).mp hx).1 rfl
    · exact ⟨hrelinks.toSameLayers, hspares.wellFormed, .inr ⟨_, entry, hlaid, hstage⟩⟩

/-- A layer that a search has put on a plane is marked as it was seen. -/
theorem presents_of_searched (hd : d.WellFormed)
    (hdecided : Decided flags o out changed outcome d d₁ d₂) {started : HostTime} {score : Option Nat}
    {f₂ : Frame σ} (hrun : allocate o flags options started ⟨d₂, request⟩ = .ok score f₂)
    (hmarks : Marks o f₂.device f'.device) {p : Plane} (hp : p ∈ f'.device.planes) {id : LayerId}
    {l' : Layer} (hlayer : p.layer = some id) (hl' : f'.device.layer? id = some l')
    (ho : l'.output = o) : ∃ l₂, l' = l₂.markClean ∧ p.Presents out.crtcIndex l₂ ∧ p.Takes l₂ := by
  have hlive := hdecided.isSome_output
  obtain ⟨hsame, noted, entry, hlaid⟩ := (ensures_of_eq_ok hrun).mp
    (allocate_laid (hdecided.decides.wellFormed hd) hlive options started request)
  obtain ⟨s, best, -, -, hallocated⟩ := hlaid.allocated
  have hplanes : f'.device.planes = f₂.device.planes := congrArg Wiring.planes hmarks.wiring
  obtain ⟨out₂, hout₂⟩ : ∃ out₂, f₂.device.output? o = some out₂ := by
    -- The allocation has neither added nor removed an output.
    rw [← Option.isSome_iff_exists, isSome_output_of_changed (hallocated.scene.changed o)]
    exact hlive
  obtain ⟨l₂, hl₂, hlo₂, rfl⟩ := hmarks.exists_layer hallocated.wellFormed hout₂ hl' ho
  obtain ⟨out₁, hout₁, hpresents, htakes⟩ :=
    hlaid.presents_after hsame (hplanes ▸ hp) hlayer hl₂ hlo₂
  obtain ⟨out₀, hout₀, hpipe⟩ := hdecided.decides.changes.exists_output hout₁
  obtain rfl := Option.some.inj (hdecided.live.symm.trans hout₀)
  rw [show out.crtcIndex = out₁.crtcIndex from (congrArg Prod.snd hpipe).symm]
  exact ⟨l₂, rfl, hpresents, htakes⟩

/-- How an apply has come to leave a layer of its output on a plane. It has kept its allocation and the layer
is contented, or a search has put the layer there. -/
theorem shown_of_apply (hd : d.Reachable)
    (hrun : Frame.apply o flags options ⟨d, request⟩ = .ok () f') {p : Plane}
    (hp : p ∈ f'.device.planes) {id : LayerId} {l' : Layer} (hlayer : p.layer = some id)
    (hl' : f'.device.layer? id = some l') (ho : l'.output = o) :
    ∃ out l₁, d.output? o = some out ∧ l' = l₁.markClean ∧ p.Takes l₁ ∧
      (f'.device.session.decisions = (o, .accepted) :: d.session.decisions ∧ p ∈ d.planes ∧
          (∃ l, d.layer? id = some l ∧ l.output = o ∧ Contented (Kernel.now d.session.kernel).2 l l₁) ∨
        f'.device.session.decisions ≠ (o, .accepted) :: d.session.decisions ∧
          p.Presents out.crtcIndex l₁) := by
  obtain ⟨out, changed, outcome, d₁, d₂, hdecided, ⟨rfl, hblocker, hstage, hmarks⟩ |
      ⟨houtcome, started, score, f₂, hsearch, hmarks, -⟩⟩ :=
    (ensures_of_eq_ok hrun).mp (apply_course d o flags options request)
  -- Kept: the layer was on the plane before, which still suits it.
  · obtain ⟨l, l₁, hl, hlo, hl₁, rfl, hcontented⟩ :=
      exists_contented hd hdecided hblocker hmarks hl' ho
    have hmem : p ∈ d.planes := by
      have hplanes : f'.device.planes = d.planes :=
        congrArg Wiring.planes (hmarks.wiring.trans hdecided.decides.wiring)
      exact hplanes ▸ hp
    have hplanes₁ : d₁.planes = d.planes := congrArg Wiring.planes hdecided.bides.wiring
    have hsuits := (d₁.adds_stageCurrent request _ hstage).2 p (hplanes₁ ▸ hmem)
    simp only [Suits, hlayer, hl₁, Option.some.injEq, exists_eq_left'] at hsuits
    have haccepted := (hdecided.decides.reports.trans hmarks.reports).decisions
    exact ⟨out, l₁, hdecided.live, rfl, hsuits, .inl ⟨haccepted, hmem, l, hl, hlo, hcontented⟩⟩
  -- Searched: the choice that put it there was presented with it.
  · obtain ⟨l₁, rfl, hpresents, htakes⟩ :=
      presents_of_searched hd.wellFormed hdecided hsearch hmarks hp hlayer hl' ho
    refine ⟨out, l₁, hdecided.live, rfl, htakes, .inr ⟨fun haccepted => houtcome ?_, hpresents⟩⟩
    rw [hdecided.decisions_of_searched hsearch hmarks] at haccepted
    simpa using haccepted

section Vouching

variable {steady : Option Framebuffer → Option Framebuffer → Prop} {V : Nat → Plane → Layer → Prop}
  (hV : Vouches steady V) (hd : d.Reachable)
include hV hd

/-- An apply that fails leaves what was vouched for, unless it has put layers on planes and could not
stage the links, since another output was in the way. -/
theorem Broken.vouched {e : Failure} (h : Broken flags o options d request e f')
    (hvouched : Vouched V o d)
    (hunhindered : (∀ p ∈ d.planes, ¬ d.Unfit o p) ∨ ∀ n p l, p.Presents n l → V n p l) :
    Vouched V o f'.device := by
  have hwell := hd.wellFormed
  -- Stopped before its decision, while deciding, or in what followed.
  rcases h with ⟨hnone, hbides, -⟩ | ⟨out, changed, d₁, hout, hprepared, hbides, hrun⟩ |
    ⟨out, changed, outcome, d₁, d₂, started, hdecided, -, hrun⟩
  -- Without the output there is nothing to vouch for.
  · intro p _ id l out _ _ _ hout
    obtain ⟨out₀, hout₀, -⟩ := hbides.changes.exists_output hout
    cases hnone.symm.trans hout₀
  · have hvouched₁ := hvouched.remains hV hwell (hprepared.remains hwell hout hbides)
    have hstays : Stays (Frame.Within Undisturbed) (tryReuse (σ := σ) flags) :=
      Frame.stays_tryReuse (stays_testCommit undisturbed_session)
    have hundisturbed := (ensures_of_eq_error hrun).mp (hstays ⟨d₁, request⟩)
    exact hvouched₁.remains hV (hbides.wellFormed hwell) hundisturbed.remains
  · have hwell₂ := hdecided.decides.wellFormed hwell
    have hlive := hdecided.isSome_output
    obtain ⟨hsame, hwell', hnone | ⟨noted, entry, hlaid, hstage⟩⟩ :=
      (ensures_of_eq_error hrun).mp (allocate_laid hwell₂ hlive options started request)
    · exact vouched_of_no_links hwell' hnone
    · rcases hunhindered with hfit | hpresented
      · -- Nothing was in the way before the apply, and so nothing is now.
        obtain ⟨p, hp, hunfit⟩ := hlaid.exists_unfit hwell₂ hstage
        have hplanes : d₂.planes = d.planes := congrArg Wiring.planes hdecided.decides.wiring
        exact absurd (hunfit.of_changes hdecided.decides.changes) (hfit p (hplanes ▸ hp))
      · exact hlaid.vouched hsame hpresented

/-- After an apply that returns, all layers of its output that are on planes are vouched for: by a search,
or by the mark they had. -/
theorem vouched_of_apply (hrun : Frame.apply o flags options ⟨d, request⟩ = .ok () f')
    (hvouched : Vouched V o d)
    (hsteady : f'.device.session.decisions = (o, .accepted) :: d.session.decisions →
      d.Steady steady o) {p : Plane} (hp : p ∈ f'.device.planes) {id : LayerId} {l' : Layer}
    {out' : Output} (hlayer : p.layer = some id) (hl' : f'.device.layer? id = some l')
    (ho : l'.output = o) (hout' : f'.device.output? o = some out') : V out'.crtcIndex p l' := by
  obtain ⟨out, l₁, hout, rfl, -, hshown⟩ := shown_of_apply hd hrun hp hlayer hl' ho
  have hchanges : Changes _ _ d f'.device := (ensures_of_eq_ok hrun).mp
    (changes_apply (E := fun _ _ _ => True) (fun _ _ _ _ => trivial) (fun _ _ => trivial) o options
      ⟨d, request⟩)
  obtain ⟨out₀, hout₀, hpipe⟩ := hchanges.exists_output hout'
  obtain rfl := Option.some.inj (hout.symm.trans hout₀)
  rw [show out'.crtcIndex = out.crtcIndex from congrArg Prod.snd hpipe]
  -- The layer was kept on its plane, or was put there.
  rcases hshown with ⟨haccepted, hmem, l, hl, hlo, hcontented⟩ | ⟨-, hpresents⟩
  · have hsteady₁ : steady l₁.cleanFramebuffer l₁.framebuffer := by
      rw [hcontented.recalls.framebuffer, hcontented.framebuffer]
      exact hsteady haccepted id l hl hlo
    rcases hvouched p hmem id l out hlayer hl hlo hout with htrue | hmark
    · cases (hcontented.recalls.changed htrue).symm.trans hcontented.changed
    · exact hV.kept hcontented.wellFormed hcontented.changed hcontented.causes hsteady₁
        (hV.recalled hcontented.recalls hcontented.changed hmark)
  · exact hV.marked hpresents

end Vouching

end Allocation

namespace Device

open Allocation

variable [Kernel σ] {o : OutputId} {d d₀ : Device σ} {op : Operation σ}

/-- The operation is no apply on the output that fails and finds layers of other outputs on planes that do
not take them. -/
def Unhindered (o : OutputId) (d : Device σ) (op : Operation σ) : Prop :=
  op.appliesTo o → succeeded (op.perform d) = true ∨ ∀ p ∈ d.planes, ¬ d.Unfit o p

section Runs

variable {steady : Option Framebuffer → Option Framebuffer → Prop} {V : Nat → Plane → Layer → Prop}
  (hV : Vouches steady V)
include hV

theorem Vouched.after (h : Vouched V o d) (hd : d.Reachable) (hpermits : d.Permits op)
    (hsteady : op.appliesTo o → (d.after op).session.decisions = (o, .accepted) :: d.session.decisions →
      d.Steady steady o)
    (hunhindered : d.Unhindered o op ∨ ∀ n p l, p.Presents n l → V n p l) :
    Vouched V o (d.after op) := by
  -- Only an apply to the output itself can put a layer on a plane of it.
  by_cases happlies : op.appliesTo o
  · cases op with
    | apply o' request flags options =>
      obtain rfl : o' = o := happlies
      have hsteady := hsteady rfl
      rw [after_apply] at hsteady ⊢
      -- Had it failed, nothing may have been in its way.
      cases hrun : Frame.apply o' flags options ⟨d, request⟩ with
      | ok a f' =>
        rw [hrun] at hsteady
        exact fun p hp id l out hlayer hl ho hout =>
          .inr (vouched_of_apply hV hd hrun h hsteady hp hlayer hl ho hout)
      | error e f' =>
        have hcourse := (ensures_of_eq_error hrun).mp (apply_course d o' flags options request)
        refine hcourse.vouched hV hd h (hunhindered.imp_left fun hfit => ?_)
        refine (hfit rfl).resolve_left ?_
        simp [Operation.perform, hrun, succeeded]
    | _ => exact happlies.elim
  · exact h.remains hV hd.wellFormed (remains_after hd.wellFormed hpermits happlies)

/-- What holds of the marks of layers on planes is passed on through a run. -/
theorem Run.vouched {Step : Device σ → Operation σ → Prop} {ops : List (Operation σ)}
    (hrun : Run Step d₀ ops d)
    (hstep : ∀ d op, Step d op → d.Permits op ∧
      (op.appliesTo o → (d.after op).session.decisions = (o, .accepted) :: d.session.decisions →
        d.Steady steady o) ∧ (d.Unhindered o op ∨ ∀ n p l, p.Presents n l → V n p l))
    (hd₀ : d₀.Reachable) (h : Vouched V o d₀) : Vouched V o d := by
  -- Induction on the run, with the next step at its head.
  induction hrun with
  | nil => exact h
  | cons hfirst _ ih =>
    obtain ⟨hpermits, hsteady, hunhindered⟩ := hstep _ _ hfirst
    exact ih (hd₀.after hpermits) (h.after hV hd₀ hpermits hsteady hunhindered)

end Runs

end Device

end Scanout
