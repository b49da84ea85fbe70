import Scanout.Proofs.Allocation.Shown
import Scanout.Proofs.Device.Reach

namespace Scanout

variable {σ : Type}

namespace Plane

open Request (value?)

variable {p : Plane} {l : Layer} {w : WellKnown} {name : String} {d : Property.Descriptor}

def DistinctIds (p : Plane) : Prop := (p.descriptors.map Property.Descriptor.id).Nodup

def staged? (p : Plane) (r : Request) (w : WellKnown) : Option UInt64 :=
  (p.descriptor? w.name).bind fun d => r.value? p.id d.id

def Paired (p : Plane) (r : Request) : Prop :=
  ∃ fb crtc, p.staged? r .fbId = some fb ∧ p.staged? r .crtcId = some crtc ∧ (fb = 0 ↔ crtc = 0)

instance (p : Plane) : Decidable p.DistinctIds :=
  inferInstanceAs (Decidable (p.descriptors.map Property.Descriptor.id).Nodup)

instance (p : Plane) (r : Request) : Decidable (p.Paired r) :=
  decidable_of_iff (∃ fb ∈ p.staged? r .fbId, ∃ crtc ∈ p.staged? r .crtcId, (fb = 0 ↔ crtc = 0)) (by
    constructor
    · rintro ⟨fb, hfb, crtc, hcrtc, h⟩
      exact ⟨fb, crtc, hfb, hcrtc, h⟩
    · rintro ⟨fb, crtc, hfb, hcrtc, h⟩
      exact ⟨fb, hfb, crtc, hcrtc, h⟩)

/-- A plane that shows the layer gets a framebuffer: the layer's, or the one that the request gives it if
the layer has no such property. -/
def GetsFramebuffer (p : Plane) (l : Layer) (r : Request) : Prop :=
  ∃ fb, fb ≠ 0 ∧ (l.property? WellKnown.fbId.name).or (p.staged? r .fbId) = some fb

theorem staged?_append (r : Request) (ws : List Write) (w : WellKnown) :
    p.staged? (r.append ws) w = (p.staged? ⟨ws⟩ w).or (p.staged? r w) := by
  unfold staged?
  cases p.descriptor? w.name with
  | none => rfl
  | some d => exact Request.value?_append r ws p.id d.id

section Ids

variable (hids : p.DistinctIds)
include hids

theorem name_eq_of_id {name' : String} {d' : Property.Descriptor} (hd : p.descriptor? name = some d)
    (hd' : p.descriptor? name' = some d') (h : d'.id = d.id) : name' = name := by
  obtain ⟨hmem, rfl⟩ := descriptor?_spec hd
  obtain ⟨hmem', rfl⟩ := descriptor?_spec hd'
  rw [List.inj_on_of_nodup_map hids hmem' hmem h]

/-- Of values written under several names, the last one under its own name counts for a property. -/
theorem value?_writeOf? (hd : p.descriptor? name = some d) (xs : List (String × UInt64)) :
    value? ⟨xs.flatMap fun x => (p.writeOf? x.1 x.2).toList⟩ p.id d.id =
      (xs.reverse.find? fun x => x.1 == name).map Prod.snd := by
  -- Induction on the writes, from the first; the last one that names the property wins.
  induction xs with
  | nil => rfl
  | cons x xs ih =>
    have hsplit := Request.value?_append ⟨(p.writeOf? x.1 x.2).toList⟩
      (xs.flatMap fun x => (p.writeOf? x.1 x.2).toList) p.id d.id
    have hfirst : value? ⟨(p.writeOf? x.1 x.2).toList⟩ p.id d.id =
        ([x].find? fun x => x.1 == name).map Prod.snd := by
      -- A write goes to the property of its own name, and to no other.
      by_cases hx : x.1 = name
      · simp [writeOf?, hx, hd, value?]
      · cases hd' : p.descriptor? x.1 with
        | none => simp [writeOf?, hx, hd', value?]
        | some d' =>
          have hne : d'.id ≠ d.id := fun h => hx (name_eq_of_id hids hd hd' h)
          simp [writeOf?, hx, hd', value?, hne]
    rw [List.flatMap_cons, List.reverse_cons, List.find?_append, Option.map_or, ← ih, ← hfirst]
    exact hsplit

theorem staged?_disabledWrites (hstops : p.Stops) (hw : w ∈ [.fbId, .crtcId]) :
    p.staged? ⟨p.disabledWrites⟩ w = some 0 := by
  obtain ⟨d, hd⟩ := Option.isSome_iff_exists.mp (hstops w hw)
  have hnamed : p.disabledWrites =
      [(WellKnown.fbId.name, 0), (WellKnown.crtcId.name, 0)].flatMap
        fun x => (p.writeOf? x.1 x.2).toList := rfl
  rw [staged?, hd, Option.bind_some, hnamed, value?_writeOf? hids hd]
  simp only [List.mem_cons, List.not_mem_nil, or_false] at hw
  rcases hw with rfl | rfl <;> rfl

omit hids in
/-- What is written for a layer: the pipe, then its properties by name, but not the position. -/
theorem layerWrites_eq (p : Plane) (l : Layer) (crtc : UInt32) : p.layerWrites l crtc =
    ((WellKnown.crtcId.name, crtc.toUInt64) ::
      (l.properties.entries.filter fun e => e.name != WellKnown.zpos.name).map
        fun e => (e.name, e.value)).flatMap fun x => (p.writeOf? x.1 x.2).toList := by
  rw [List.flatMap_cons, layerWrites]
  congr 1
  -- Both sides skip the position and write everything else in order.
  induction l.properties.entries with
  | nil => rfl
  | cons e es ih =>
    rw [List.flatMap_cons, ih, entryWrites]
    by_cases hzpos : e.name = WellKnown.zpos.name <;> simp [hzpos]

/-- A property other than pipe and position gets the layer's value, if the layer has the property. -/
theorem value?_layerWrites (hbag : l.properties.WellFormed) (crtc : UInt32)
    (hd : p.descriptor? name = some d) (hcrtc : name ≠ WellKnown.crtcId.name)
    (hzpos : name ≠ WellKnown.zpos.name) :
    value? ⟨p.layerWrites l crtc⟩ p.id d.id = l.property? name := by
  -- Of all entries that are written the bag has only one with this name.
  have hfound : ((l.properties.entries.filter fun e => e.name != WellKnown.zpos.name).reverse.find?
      fun e => e.name == name) = l.properties.get? name := by
    ext e
    have hnodup : ((l.properties.entries.filter fun e => e.name != WellKnown.zpos.name).reverse.map
        Property.Entry.name).Nodup := by
      rw [List.map_reverse, List.nodup_reverse]
      exact hbag.nodup.sublist (List.filter_sublist.map _)
    simp only [Property.Bag.find?_eq_some_iff hnodup, Property.Bag.get?_eq_some_iff hbag,
      List.mem_reverse, List.mem_filter, bne_iff_ne, and_congr_left_iff, and_iff_left_iff_imp]
    rintro rfl -
    exact hzpos
  rw [layerWrites_eq, value?_writeOf? hids hd, List.reverse_cons, List.find?_append,
    ← List.map_reverse, List.find?_map, Layer.property?, ← hfound]
  simp [Function.comp_def, Ne.symm hcrtc]

theorem staged?_framebuffer (hbag : l.properties.WellFormed) (htakes : p.Takes l) (crtc : UInt32) :
    p.staged? ⟨p.layerWrites l crtc⟩ .fbId = l.property? WellKnown.fbId.name := by
  unfold staged?
  cases hd : p.descriptor? WellKnown.fbId.name with
  | some d => exact value?_layerWrites hids hbag crtc hd (by decide) (by decide)
  | none =>
    -- Only a layer without a framebuffer goes with a plane that has no property for it.
    symm
    rw [Option.bind_none, Layer.property?, Option.map_eq_none_iff, Option.eq_none_iff_forall_ne_some]
    intro e he
    obtain ⟨hmem, hname⟩ := (Property.Bag.get?_eq_some_iff hbag _).mp he
    rcases p.isSome_or_of_admits (htakes.2 e hmem (by rw [hname]; decide)) with hsome | hharmless
    · rw [hname, hd] at hsome
      cases hsome
    · rw [hname] at hharmless
      cases hharmless

theorem staged?_pipe (htakes : p.Takes l) (hpipe : WellKnown.crtcId.name ∉ l.properties.names)
    (crtc : UInt32) : p.staged? ⟨p.layerWrites l crtc⟩ .crtcId = some crtc.toUInt64 := by
  -- The layer itself names no pipe, so the write of the output's pipe is the only one.
  obtain ⟨d, hd⟩ := Option.isSome_iff_exists.mp htakes.1
  have hnone : (((l.properties.entries.filter fun e => e.name != WellKnown.zpos.name).map
      fun e => (e.name, e.value)).reverse.find? fun x => x.1 == WellKnown.crtcId.name) = none := by
    rw [List.find?_eq_none]
    intro x hx hname
    obtain ⟨e, he, rfl⟩ := List.mem_map.mp (List.mem_reverse.mp hx)
    exact hpipe (List.mem_map.mpr ⟨e, (List.mem_filter.mp he).1, by simpa using hname⟩)
  rw [staged?, hd, Option.bind_some, layerWrites_eq, value?_writeOf? hids hd, List.reverse_cons,
    List.find?_append, hnone]
  simp

end Ids

end Plane

namespace Layer

theorem property?_fbId (l : Layer) :
    l.property? WellKnown.fbId.name = l.properties.value? .fbId := rfl

theorem getsFramebuffer {l : Layer} (h : l.hasFramebuffer = true) (p : Plane) (r : Request) :
    p.GetsFramebuffer l r := by
  rw [hasFramebuffer, bne_iff_ne, ← property?_fbId] at h
  unfold Plane.GetsFramebuffer
  cases hfb : l.property? WellKnown.fbId.name with
  | none => simp [hfb] at h
  | some fb => exact ⟨fb, by simpa [hfb] using h, Option.some_or⟩

end Layer

namespace Device

variable {d : Device σ} {p : Plane} {r : Request}

/-- What is staged for one plane counts for it, or else what was staged before. -/
theorem value?_planeWrites (hd : d.WellFormed) (hp : p ∈ d.planes) (base : Request) (x : UInt32) :
    (base.append (d.planes.flatMap d.planeWrites)).value? p.id x =
      (Request.value? ⟨d.planeWrites p⟩ p.id x).or (base.value? p.id x) := by
  have hvalue : Request.value? ⟨d.planes.flatMap d.planeWrites⟩ p.id x =
      Request.value? ⟨d.planeWrites p⟩ p.id x :=
    Request.value?_flatMap Plane.id (fun p _ => d.object_planeWrites p) hd.wiring.ids_nodup hp x
  rw [Request.value?_append, hvalue]

theorem staged?_planeWrites (hd : d.WellFormed) (hp : p ∈ d.planes) (base : Request) (w : WellKnown) :
    p.staged? (base.append (d.planes.flatMap d.planeWrites)) w =
      (p.staged? ⟨d.planeWrites p⟩ w).or (p.staged? base w) := by
  unfold Plane.staged?
  cases p.descriptor? w.name with
  | none => rfl
  | some descriptor => exact value?_planeWrites hd hp base descriptor.id

/-- An empty plane is switched off whole. -/
theorem paired_of_empty (hd : d.WellFormed) (hp : p ∈ d.planes) (hids : p.DistinctIds)
    (hsuits : d.Suits p) (hempty : p.layer = none) (base : Request) :
    p.Paired (base.append (d.planes.flatMap d.planeWrites)) := by
  -- A plane that is off gets zero for both.
  have hstops : p.Stops := by simpa only [Suits, hempty] using hsuits
  have hzero : ∀ w ∈ [WellKnown.fbId, .crtcId],
      p.staged? (base.append (d.planes.flatMap d.planeWrites)) w = some 0 := by
    intro w hw
    rw [staged?_planeWrites hd hp, planeWrites, hempty,
      Plane.staged?_disabledWrites hids hstops hw, Option.some_or]
  exact ⟨0, 0, hzero _ (by simp), hzero _ (by simp), Iff.rfl⟩

/-- A plane that shows a layer gets the pipe of the layer's output, so it is paired exactly if it gets
a framebuffer too. -/
theorem paired_iff_of_layer (hd : d.WellFormed) (hp : p ∈ d.planes) (hids : p.DistinctIds)
    (hsuits : d.Suits p) {id : LayerId} {l : Layer} (hlayer : p.layer = some id)
    (hl : d.layer? id = some l) (hbag : l.properties.WellFormed)
    (hpipe : WellKnown.crtcId.name ∉ l.properties.names)
    (hcrtc : ∀ out, d.output? l.output = some out → out.crtc ≠ 0) (base : Request) :
    p.Paired (base.append (d.planes.flatMap d.planeWrites)) ↔
      p.GetsFramebuffer l base := by
  obtain ⟨out, hout, -⟩ := output_of_layer hd hl
  have hwrites : d.planeWrites p = p.layerWrites l out.crtc := by
    simp only [planeWrites, hlayer, hl, hout]
  have htakes : p.Takes l := by
    simpa only [Suits, hlayer, hl, Option.some.injEq, exists_eq_left'] using hsuits
  have hnonzero : out.crtc.toUInt64 ≠ 0 := by
    intro hzero
    have hzero : out.crtc.toUInt64 = (0 : UInt32).toUInt64 := hzero
    exact hcrtc out hout (UInt32.toUInt64_inj.mp hzero)
  unfold Plane.Paired Plane.GetsFramebuffer
  -- The pipe is never zero, so all depends on the framebuffer.
  rw [staged?_planeWrites hd hp, staged?_planeWrites hd hp, hwrites,
    Plane.staged?_framebuffer hids hbag htakes, Plane.staged?_pipe hids htakes hpipe, Option.some_or]
  constructor
  · rintro ⟨fb, crtc, hfb, hpiped, hiff⟩
    obtain rfl := Option.some.inj hpiped
    exact ⟨fb, mt hiff.mp hnonzero, hfb⟩
  · rintro ⟨fb, hne, hfb⟩
    exact ⟨fb, _, hfb, rfl, iff_of_false hne hnonzero⟩

end Device

namespace Allocation

open Device

variable [Kernel σ] {flags : CommitFlags} {o : OutputId} {noted : σ → Request → Prop}
  {request entry : Request} {d₁ d₂ : Device σ}

/-- A full search does not switch off the planes of other outputs. -/
theorem Laid.staged?_entry (h : Laid flags o noted request entry d₁ d₂) (hd₁ : d₁.WellFormed)
    {p : Plane} (hp : p ∈ d₂.planes) {id : LayerId} {l : Layer} (hlayer : p.layer = some id)
    (hl : d₂.layer? id = some l) (hne : l.output ≠ o) (w : WellKnown) :
    p.staged? entry w = p.staged? request w := by
  obtain ⟨s, best, hout, -, hallocated⟩ := h.allocated
  have hcleared := wellFormed_cleared hd₁ (o := o) (Option.isSome_of_eq_some hout)
  -- The link was there before the search, so the plane was not free.
  have hlink := mem_links_of_plane hallocated.wellFormed.wiring hp hlayer hl
  rw [hallocated.others _ hne] at hlink
  have hlink := (mem_links_cleared d₁ o l.output (p.id, id)).mpr ⟨hne, hlink⟩
  obtain ⟨p₀, hp₀, hid₀, hlayer₀⟩ := plane_of_link hcleared.wiring hlink
  -- So no zero was staged for the plane.
  have hbusy : p.id ∉ ((d₁.cleared o).planes.filter fun p => p.layer.isNone).map Plane.id := by
    intro hmem
    obtain ⟨p₁, hp₁, hid₁⟩ := List.mem_map.mp hmem
    obtain ⟨hp₁, hfree⟩ := List.mem_filter.mp hp₁
    obtain rfl := hcleared.wiring.plane_eq hp₁ hp₀ (hid₁.trans hid₀.symm)
    simp [hlayer₀] at hfree
  obtain ⟨rfl, -⟩ := (d₁.cleared o).adds_disables request entry h.disabled
  rw [Plane.staged?_append]
  unfold Plane.staged?
  cases p.descriptor? w.name with
  | none => rfl
  | some d =>
    have hnothing := Request.value?_flatMap_of_notMem Plane.id (fun p _ => p.object_disabledWrites)
      hbusy d.id
    simp only [Option.bind_some, hnothing, Option.none_or]

/-- What an apply that succeeds has staged: the links, on top of the caller's request, or of one in
which the planes of other outputs are as in that. In the second case all layers of the output that are
on planes have framebuffers. -/
theorem Applied.exists_base {r : Request} {d d' : Device σ} (h : Applied flags o noted request r d d')
    (hd : d.WellFormed) : (∀ p ∈ d'.planes, d'.Suits p) ∧
      ∃ base, r = base.append (d'.planes.flatMap d'.planeWrites) ∧
        (base = request ∧ Session.Reports [(o, .accepted)] d.session d'.session ∨
          ∀ p ∈ d'.planes, ∀ id l, p.layer = some id → d'.layer? id = some l →
            (l.output ≠ o → ∀ w, p.staged? base w = p.staged? request w) ∧
              (l.output = o → l.hasFramebuffer = true)) := by
  obtain ⟨hsuits, base, hr, hbase | ⟨d₁, d₂, outcome, hdecides, hlaid, hmarks⟩⟩ := h.staged
  -- A kept allocation starts from the caller's request, a new one from the zeros.
  · exact ⟨hsuits, base, hr, .inl hbase⟩
  · refine ⟨hsuits, base, hr, .inr fun p hp id l' hlayer hl' => ?_⟩
    have hd₁ := hdecides.wellFormed hd
    rw [show d'.planes = d₂.planes from congrArg Wiring.planes hmarks.wiring] at hp
    obtain ⟨s, best, -, -, hallocated⟩ := hlaid.allocated
    obtain ⟨l, hl, hq⟩ := layer_of_plane hallocated.wellFormed.wiring hp hlayer
    -- The clean mark may be all that has come to the layer since it was staged.
    have hsame : l'.output = l.output ∧ l'.hasFramebuffer = l.hasFramebuffer := by
      rcases hmarks.layers id with hkept | ⟨-, hmarked⟩
      · obtain rfl := Option.some.inj ((hkept.trans hl).symm.trans hl')
        exact ⟨rfl, rfl⟩
      · rw [hmarked, hl] at hl'
        obtain rfl := Option.some.inj hl'
        exact ⟨rfl, by simp only [Layer.hasFramebuffer, Layer.markClean,
          Property.Bag.value?_markClean]⟩
    rw [hsame.1, hsame.2]
    exact ⟨fun hne => hlaid.staged?_entry hd₁ hp hlayer hl hne,
      fun heq => hlaid.hasFramebuffer hl heq (Option.isSome_of_eq_some hq)⟩

/-- When an apply succeeds, it has staged framebuffer and pipe of a plane as a pair exactly if the plane
is empty or gets a framebuffer. After a full search all planes that do not show a layer of another
output are staged so. -/
theorem paired_iff_framebuffer {d : Device σ} {options : ApplyOptions} {f : Frame σ}
    (hreachable : d.Reachable) (hcrtc : 0 ∉ d.crtcs)
    (hrun : Frame.apply o flags options ⟨d, request⟩ = .ok () f) {p : Plane}
    (hp : p ∈ f.device.planes) (hids : p.DistinctIds) :
    (p.Paired f.request ↔ ∀ id l, p.layer = some id → f.device.layer? id = some l →
      p.GetsFramebuffer l request) ∧
    ∀ outcome, outcome ≠ .accepted →
      f.device.session.decisions = (o, outcome) :: d.session.decisions →
      (∀ id l, p.layer = some id → f.device.layer? id = some l → l.output = o) →
      p.Paired f.request := by
  have hd := hreachable.wellFormed
  have hnotes : Kernel.Notes flags _ _ := notes_asks d.session.kernel
  have hcases := apply_cases (o := o) hd hnotes .refl options request
  rw [ensures_of_eq_ok hrun] at hcases
  obtain ⟨hsuits, base, hrequest, hbase⟩ := hcases.exists_base hd
  have hafter := hreachable.of_apply hrun
  have hd' := hafter.wellFormed
  rw [hrequest]
  cases hlayer : p.layer with
  -- An empty plane is switched off, and the condition is void.
  | none =>
    have hpaired := paired_of_empty hd' hp hids (hsuits p hp) hlayer base
    exact ⟨iff_of_true hpaired fun _ _ hid => (by cases hid), fun _ _ _ _ => hpaired⟩
  | some id =>
    obtain ⟨l, hl, -⟩ := layer_of_plane hd'.wiring hp hlayer
    -- The statement speaks of every layer that the plane shows, of which there is one.
    have honly : ∀ {P : Layer → Prop},
        (∀ id' l', some id = some id' → f.device.layer? id' = some l' → P l') ↔ P l := by
      intro P
      refine ⟨fun h => h id l rfl hl, fun hP id' l' hid' hl' => ?_⟩
      cases hid'
      rwa [← Option.some.inj (hl.symm.trans hl')]
    -- An apply changes no pipe, so that of the output is still one of the device's.
    have hnonzero : ∀ out, f.device.output? l.output = some out → out.crtc ≠ 0 := by
      intro out hout hzero
      have hmem := hafter.crtc_mem hout
      have hchanges : Changes _ (fun _ _ _ => True) d f.device := (ensures_of_eq_ok hrun).mp
        (changes_apply (fun _ _ _ _ => trivial) (fun _ _ => trivial) o options ⟨d, request⟩)
      rw [hzero, hchanges.crtcs] at hmem
      exact hcrtc hmem
    have hiff := paired_iff_of_layer hd' hp hids (hsuits p hp) hlayer hl
      (hafter.wellFormed_properties hl) (hafter.crtcId_notMem hl) hnonzero base
    have hgets := honly (P := (p.GetsFramebuffer · request))
    rcases hbase with ⟨rfl, hreports⟩ | hsearched
    · -- The kept allocation: its base is the caller's request, and its decision is no search.
      refine ⟨hiff.trans hgets.symm, fun outcome hne hsearch => ?_⟩
      have hdecision := hreports.decisions.symm.trans hsearch
      simp only [List.cons_append, List.nil_append, List.cons.injEq, Prod.mk.injEq] at hdecision
      exact absurd hdecision.1.2.symm hne
    · -- A search clears the planes of its output first, so there the base may give another answer
      -- than the caller's request. The layer has a framebuffer, and either answer is yes.
      obtain ⟨hothers, hframebuffer⟩ := hsearched p hp id l hlayer hl
      refine ⟨hiff.trans (Iff.trans ?_ hgets.symm), fun outcome _ _ hall =>
        hiff.mpr (Layer.getsFramebuffer (hframebuffer (honly.mp hall)) p base)⟩
      by_cases ho : l.output = o
      · exact iff_of_true (Layer.getsFramebuffer (hframebuffer ho) p base)
          (Layer.getsFramebuffer (hframebuffer ho) p request)
      · rw [Plane.GetsFramebuffer, hothers ho, Plane.GetsFramebuffer]

def twoComposited : Device Scripted := twoOutputs .twoPipes (.forceComposition ⟨⟨0, 0⟩⟩)

theorem reachable_twoComposited : twoComposited.Reachable :=
  ⟨.twoPipes, {}, [1, 2], _, run_afterAll (by decide +kernel)⟩

theorem exists_plane_twoComposited :
    let f := leftBy (Frame.apply .second {} {} ⟨twoComposited, {}⟩)
    ∃ p ∈ f.device.planes, p.DistinctIds ∧ p.layer = some ⟨⟨0, 0⟩⟩ ∧
      ∃ l ∈ f.device.layer? ⟨⟨0, 0⟩⟩, l.property? WellKnown.fbId.name = some 0 := by
  decide +kernel

/-- The plane of a layer without a framebuffer gets a pipe all the same. -/
theorem not_paired_twoComposited : ∃ f : Frame Scripted,
    Frame.apply .second {} {} ⟨twoComposited, {}⟩ = .ok () f ∧ ∃ p ∈ f.device.planes,
      p.DistinctIds ∧ ¬ p.Paired f.request := by
  have hrun := eq_ok_of_succeeded (x := Frame.apply .second {} {} ⟨twoComposited, {}⟩)
    (by decide +kernel)
  obtain ⟨p, hp, hids, hlayer, l, hl, hzero⟩ := exists_plane_twoComposited
  refine ⟨_, hrun, p, hp, hids, fun hpaired => ?_⟩
  have hcrtc : (0 : UInt32) ∉ twoComposited.crtcs := by decide +kernel
  obtain ⟨hiff, -⟩ := paired_iff_framebuffer reachable_twoComposited hcrtc hrun hp hids
  -- The buffer it gets is zero, which the condition excludes.
  obtain ⟨fb, hne, hfb⟩ := hiff.mp hpaired ⟨⟨0, 0⟩⟩ l hlayer hl
  rw [hzero, Option.some_or] at hfb
  exact hne (Option.some.inj hfb).symm

/-- An apply may succeed and leave a plane staged with a pipe and without a framebuffer. -/
theorem not_forall_paired :
    ¬ ∀ (d : Device Scripted) (o : OutputId) (f : Frame Scripted), d.Reachable → 0 ∉ d.crtcs →
      Frame.apply o {} {} ⟨d, {}⟩ = .ok () f →
      ∀ p ∈ f.device.planes, p.DistinctIds → p.Paired f.request := by
  intro h
  have hrun := eq_ok_of_succeeded (x := Frame.apply .second {} {} ⟨twoComposited, {}⟩)
    (by decide +kernel)
  have hcrtc : (0 : UInt32) ∉ twoComposited.crtcs := by decide +kernel
  have hhalf : ∃ p ∈ (leftBy (Frame.apply .second {} {} ⟨twoComposited, {}⟩)).device.planes,
      p.DistinctIds ∧ ¬ p.Paired (leftBy (Frame.apply .second {} {} ⟨twoComposited, {}⟩)).request := by
    decide +kernel
  obtain ⟨p, hp, hids, hnot⟩ := hhalf
  exact hnot (h twoComposited .second _ reachable_twoComposited hcrtc hrun p hp hids)

end Allocation

end Scanout
