import Scanout.Proofs.Allocation.Presentable

/-! Format tables. A search puts a layer only on a plane whose table allows its framebuffer. An allocation
that is kept relies on the framebuffer's layout, which does not tell whether its modifier is declared. -/

namespace Scanout

variable {σ : Type}

def Framebuffer.declares (fb : Framebuffer) : Bool := fb.id != 0 && fb.hasModifier

def KeepsDeclaring (before now : Option Framebuffer) : Prop :=
  now.any Framebuffer.declares = true → before.any Framebuffer.declares = true

namespace Plane

variable {p : Plane} {l l' : Layer}

theorem allowsFramebuffer_iff : p.allowsFramebuffer l = true ↔ ∀ fb table, l.framebuffer = some fb →
    p.formats = some table → fb.declares = true → table.supports fb.format fb.modifier = true := by
  unfold allowsFramebuffer Framebuffer.declares
  cases l.framebuffer <;> cases p.formats <;> simp
  grind

theorem allowsFramebuffer_congr (p : Plane) (h : l'.framebuffer = l.framebuffer) :
    p.allowsFramebuffer l' = p.allowsFramebuffer l := by
  unfold allowsFramebuffer
  rw [h]

/-- A plane that allows a framebuffer allows one of the same layout, unless that begins to declare its
modifier. -/
theorem allowsFramebuffer_of_layout (hlayout : (l'.framebuffer.getD {}).layoutDiffers
    (l.framebuffer.getD {}) = false) (hdeclares : KeepsDeclaring l.framebuffer l'.framebuffer)
    (h : p.allowsFramebuffer l = true) : p.allowsFramebuffer l' = true := by
  rw [allowsFramebuffer_iff] at h ⊢
  intro fb' table hfb' htable hcounts
  -- What counts now counted before, with the same format.
  obtain ⟨fb, hfb, hcounted⟩ : ∃ fb, l.framebuffer = some fb ∧ fb.declares = true := by
    have hany := hdeclares (by rw [hfb']; exact hcounts)
    exact (Option.any_eq_true _ _).mp hany
  rw [hfb, hfb'] at hlayout
  simp only [Option.getD_some, Framebuffer.layoutDiffers, Bool.or_eq_false_iff, bne_eq_false_iff_eq]
    at hlayout
  rw [hlayout.1.2, hlayout.2]
  exact h fb table hfb htable hcounted

end Plane

namespace Layer

variable {l : Layer}

/-- A framebuffer for which no new allocation is asked has the layout it had at the mark. -/
theorem layout_of_hasFramebuffer (hbag : l.properties.WellFormed)
    (hcauses : ∀ e ∈ l.properties.entries, l.reallocCause? e = none) (h : l.hasFramebuffer = true) :
    (l.framebuffer.getD {}).layoutDiffers (l.cleanFramebuffer.getD {}) = false := by
  -- A layer with a buffer has an entry for it, which has caused nothing.
  simp only [hasFramebuffer, Property.Bag.value?] at h
  cases he : l.properties.wellKnown? .fbId with
  | none => simp [he] at h
  | some e =>
    obtain ⟨hmem, hname⟩ := (Property.Bag.wellKnown?_eq_some_iff hbag).mp he
    have hknown : e.wellKnown? = some .fbId := by
      rw [Property.Entry.wellKnown?, hname, WellKnown.ofName?_name]
    have hvalue : e.value ≠ 0 := by simpa [he] using h
    have hcause := hcauses e hmem
    have hmark : e.cleanValue ≠ 0 :=
      (not_congr (zero_iff_of_reallocCause? (.inl rfl) hknown hcause)).mp hvalue
    simpa [reallocCause?, hknown, hvalue, hmark] using hcause

end Layer

/-- A layer that was visible at its mark, on a plane that allowed its framebuffer then, is so at the next
mark, unless the framebuffer begins to declare its modifier. -/
theorem vouches_allowed : Vouches KeepsDeclaring fun _ p l =>
    (l.forcedComposition = false ∧ l.atMark.isVisible = true) ∧ p.allowsFramebuffer l.atMark = true where
  -- A search has staged the layer as it was marked.
  marked h := by
    rw [Layer.atMark_markClean, Layer.isVisible_markClean]
    exact ⟨⟨h.unforced, h.visible⟩, h.allows⟩
  -- An edit that changes nothing of note keeps what the mark says.
  recalled h hchanged hl := by
    obtain ⟨⟨hunforced, hvisible⟩, hallows⟩ := hl
    obtain ⟨hforced, hframebuffer, -⟩ := h.atMark hchanged
    exact ⟨⟨hforced.trans hunforced, (h.isVisible_atMark hchanged).trans hvisible⟩,
      (Plane.allowsFramebuffer_congr _ hframebuffer).trans hallows⟩
  -- A kept allocation had a buffer of the same layout.
  kept {n p l} hbag hchanged hcauses hsteady hl := by
    obtain ⟨⟨hunforced, hvisible⟩, hallows⟩ := hl
    rw [Layer.atMark_markClean, Layer.isVisible_markClean]
    rw [Layer.isVisible_atMark hbag hchanged hcauses] at hvisible
    have hlayout := Layer.layout_of_hasFramebuffer hbag hcauses
      (Layer.hasFramebuffer_of_isVisible hunforced hvisible)
    have hnow : p.allowsFramebuffer l = true :=
      Plane.allowsFramebuffer_of_layout hlayout hsteady hallows
    exact ⟨⟨hunforced, hvisible⟩, hnow⟩

namespace Device

variable [Kernel σ]

/-- The operation is no apply on the output that fails with layers of other outputs in the way, and none
that keeps the allocation although a framebuffer begins to declare its modifier. -/
def Forthright (o : OutputId) (d : Device σ) (op : Operation σ) : Prop :=
  d.Unhindered o op ∧ (op.appliesTo o →
    (d.after op).session.decisions = (o, .accepted) :: d.session.decisions → d.Steady KeepsDeclaring o)

end Device

namespace Allocation

open Device

variable [Kernel σ] {flags : CommitFlags} {o : OutputId} {options : ApplyOptions} {request : Request}
  {d : Device σ} {f : Frame σ}

/-- What a layer has in the end is what the driver said about its framebuffer in this apply. -/
theorem metadata_of_apply (hd : d.Reachable)
    (hrun : Frame.apply o flags options ⟨d, request⟩ = .ok () f) {id : LayerId} {l : Layer}
    (hl : f.device.layer? id = some l) (ho : l.output = o) :
    l.framebuffer = Kernel.metadata (Kernel.now d.session.kernel).2 l := by
  obtain ⟨out, hout, changed, d₁, hprepared, -, hfinishes⟩ :=
    (ensures_of_eq_ok hrun).mp (apply_skips d o options request)
  have hrest := atRest_of_finishes hd.wellFormed hout hprepared hfinishes
  obtain ⟨out', hout', hid⟩ := output_of_layer (hd.of_apply hrun).wellFormed hl
  rw [ho] at hout'
  exact (hrest.clean out' hout' id hid l hl).2

/-- What an apply that succeeds leaves on a plane is allowed by the plane's table if there was a search. If
the allocation was kept, the layer has a framebuffer of the layout that it had at its last clean mark, or
none. -/
theorem layout_of_apply (hd : d.Reachable)
    (hrun : Frame.apply o flags options ⟨d, request⟩ = .ok () f) {p : Plane}
    (hp : p ∈ f.device.planes) {id : LayerId} {l : Layer} (hlayer : p.layer = some id)
    (hl : f.device.layer? id = some l) (ho : l.output = o) :
    (f.device.session.decisions ≠ (o, .accepted) :: d.session.decisions →
      p.allowsFramebuffer l = true) ∧
    (f.device.session.decisions = (o, .accepted) :: d.session.decisions →
      ∀ l₀, d.layer? id = some l₀ → l.hasFramebuffer = true →
        (l.framebuffer.getD {}).layoutDiffers (l₀.cleanFramebuffer.getD {}) = false) := by
  obtain ⟨out, l₁, -, rfl, -, ⟨haccepted, -, l₀, hl₀, -, hcontented⟩ | ⟨hsearched, hpresents⟩⟩ :=
    shown_of_apply hd hrun hp hlayer hl ho
  -- Kept: the layer has not changed since its mark, nor has the layout.
  · refine ⟨fun hsearched => absurd haccepted hsearched, fun _ l₀' hl₀' hhas => ?_⟩
    obtain rfl := Option.some.inj (hl₀'.symm.trans hl₀)
    have hmarked : l₁.markClean.hasFramebuffer = l₁.hasFramebuffer := by
      simp only [Layer.hasFramebuffer, Layer.markClean, Property.Bag.value?_markClean]
    have hlayout := Layer.layout_of_hasFramebuffer hcontented.wellFormed hcontented.causes (hmarked ▸ hhas)
    rwa [hcontented.recalls.framebuffer] at hlayout
  · exact ⟨fun _ => hpresents.allows, fun haccepted => absurd haccepted hsearched⟩

/-- After an apply that succeeds, every layer of the output that is on a plane has a framebuffer that the
plane's table allows, by what the driver has just said about it, if there was a search. If the allocation
was kept, its framebuffer has the layout that it had at the last clean mark. So it is allowed too, if the
output had no links at some time before, no framebuffer has begun to declare its modifier in an apply that
kept the allocation since, and none has failed with a layer of another output in the way. -/
theorem allowsFramebuffer_of_apply (hd : d.Reachable)
    (hrun : Frame.apply o flags options ⟨d, request⟩ = .ok () f) {id : LayerId} {l : Layer} {q : UInt32}
    (hl : f.device.layer? id = some l) (ho : l.output = o) (hq : l.plane = some q) :
    l.framebuffer = Kernel.metadata (Kernel.now d.session.kernel).2 l ∧
    ∃ p ∈ f.device.planes, p.id = q ∧ p.layer = some id ∧
      (f.device.session.decisions ≠ (o, .accepted) :: d.session.decisions →
        p.allowsFramebuffer l = true) ∧
      (f.device.session.decisions = (o, .accepted) :: d.session.decisions →
        ∀ l₀, d.layer? id = some l₀ → l.hasFramebuffer = true →
          (l.framebuffer.getD {}).layoutDiffers (l₀.cleanFramebuffer.getD {}) = false) ∧
      ∀ d₀ ops, d₀.Reachable → d₀.wiring.links o = ∅ →
        Run (fun d op => d.Permits op ∧ d.Forthright o op) d₀ ops d →
          d.Forthright o (.apply o request flags options) → p.allowsFramebuffer l = true := by
  -- The layer is on its plane, and what it shows is told by how the apply decided.
  have hwell := (hd.of_apply hrun).wellFormed
  obtain ⟨p, hp, hpq, hlayer⟩ := plane_of_layer hwell.wiring hl hq
  obtain ⟨hsearched, hkept⟩ := layout_of_apply hd hrun hp hlayer hl ho
  refine ⟨metadata_of_apply hd hrun hl ho, p, hp, hpq, hlayer, hsearched, hkept, ?_⟩
  intro d₀ ops hd₀ hlinks hforthright hlast
  obtain ⟨out, hout, -⟩ := output_of_layer hwell hl
  rw [ho] at hout
  -- Every apply of the run keeps the claim, starting from a device with no links.
  have hvouched := hforthright.vouched vouches_allowed
    (fun d op hstep => ⟨hstep.1, hstep.2.2, .inl hstep.2.1⟩) hd₀
    (vouched_of_no_links hd₀.wellFormed hlinks)
  -- The last apply is one of them.
  have hsteady : f.device.session.decisions = (o, .accepted) :: d.session.decisions →
      d.Steady KeepsDeclaring o := by
    intro haccepted
    refine hlast.2 rfl ?_
    rw [after_apply, hrun]
    exact haccepted
  obtain ⟨-, hallows⟩ := vouched_of_apply vouches_allowed hd hrun hvouched hsteady hp hlayer hl ho hout
  obtain ⟨hmarked, -⟩ := visible_of_apply hd hrun hp hlayer hl ho
  rwa [hmarked] at hallows

end Allocation

def Framebuffer.linear : Framebuffer :=
  { id := 1, width := 64, height := 64, format := Format.fourcc 88 82 50 52, hasModifier := true }

def Framebuffer.tiled (hasModifier : Bool) : Framebuffer :=
  { Framebuffer.linear with modifier := 0x42, hasModifier }

def Scripted.linearOnly (fb : Framebuffer) : Scripted where
  crtcs := .ok [1]
  planeIds := .ok [10]
  planes := [(10, .ok { overlay with properties := overlay.properties ++ [(⟨8, "IN_FORMATS", .blob, true⟩, 5)] })]
  blobs := [(5, .ok (Format.Table.ofPairs [(Framebuffer.linear.format, Framebuffer.linear.modifier)]).encode)]
  fbs := [⟨1, .ok (some fb)⟩]

def Scripted.remake (fb : Framebuffer) (s : Scripted) : Scripted :=
  { s with fbs := s.fbs ++ [⟨1, .ok (some fb)⟩] }

namespace Device

def oneLayer (fb : Framebuffer) : Device Scripted :=
  ({ session := { kernel := .linearOnly fb }, crtcs := [1] } : Device Scripted).afterAll
    [.registerAllPlanes, .createOutput 1, .createLayer .first, .setProperty ⟨⟨0, 0⟩⟩ "FB_ID" 1]

theorem reachable_oneLayer {fb : Framebuffer} (h : fb = .linear ∨ fb = .tiled false) :
    (oneLayer fb).Reachable := by
  refine ⟨.linearOnly fb, {}, [1], _, run_afterAll ?_⟩
  rcases h with rfl | rfl <;> decide +kernel

def linearShown : Device Scripted := (oneLayer .linear).after (.apply .first {} {} {})

/-- The driver is steady: of the one layer's framebuffer its modifier was known at the mark. -/
theorem steady_linearShown : linearShown.Steady KeepsDeclaring .first := by
  have hd : linearShown.Reachable := (reachable_oneLayer (.inl rfl)).after trivial
  have hone : ((linearShown.output? .first).map Output.layers) = some [⟨⟨0, 0⟩⟩] := by decide +kernel
  have hmark : (linearShown.layer? ⟨⟨0, 0⟩⟩).bind Layer.cleanFramebuffer = some .linear := by
    decide +kernel
  -- There is only one layer to look at.
  intro id l hl ho _
  obtain ⟨out, hout, hids⟩ := Option.map_eq_some_iff.mp hone
  have hid := (listed_iff hd.wellFormed hout hl).mpr ho
  rw [hids, List.mem_singleton] at hid
  subst hid
  rw [hl, Option.bind_some] at hmark
  rw [hmark]
  decide

def tiledShown : Device Scripted :=
  (oneLayer (.tiled false)).afterAll [.apply .first {} {} {}, .drive (Scripted.remake (.tiled true))]

theorem reachable_tiledShown : tiledShown.Reachable :=
  (reachable_oneLayer (.inr rfl)).afterAll (by decide +kernel)

end Device

namespace Allocation

open Device

/-- The layer's framebuffer is in the table when the next apply keeps the allocation. -/
theorem allowsFramebuffer_linearShown : ∃ f : Frame Scripted,
    Frame.apply .first {} {} ⟨linearShown, {}⟩ = .ok () f ∧
      f.device.session.decisions = (.first, .accepted) :: linearShown.session.decisions ∧
      ∃ id l p, f.device.layer? id = some l ∧ p ∈ f.device.planes ∧ p.layer = some id ∧
        p.formats.isSome = true ∧ l.framebuffer = some .linear ∧ p.allowsFramebuffer l = true := by
  have hd : linearShown.Reachable := (reachable_oneLayer (.inl rfl)).after trivial
  obtain ⟨f, hrun, hf⟩ := exists_after_apply linearShown .first {} {} {} (by decide +kernel)
  have haccepted : f.device.session.decisions =
      (.first, .accepted) :: linearShown.session.decisions := by
    rw [hf]
    decide +kernel
  have htables : ∀ p ∈ f.device.planes, p.formats.isSome = true := by
    rw [hf]
    decide +kernel
  have hlayer : (f.device.layer? ⟨⟨0, 0⟩⟩).map (fun l => (l.output, l.plane, l.framebuffer)) =
      some (.first, some 10, some .linear) := by
    rw [hf]
    decide +kernel
  -- What the device shows after the apply, read off at once.
  obtain ⟨l, hl, hlook⟩ := Option.map_eq_some_iff.mp hlayer
  obtain ⟨ho, hlook⟩ := Prod.mk.inj hlook
  obtain ⟨hq, hframebuffer⟩ := Prod.mk.inj hlook
  obtain ⟨-, p, hp, -, hplane, -, -, hforthright⟩ := allowsFramebuffer_of_apply hd hrun hl ho hq
  refine ⟨f, hrun, haccepted, _, l, p, hl, hp, hplane, htables p hp, hframebuffer, ?_⟩
  have hlinks : (oneLayer .linear).wiring.links .first = ∅ :=
    links_eq_empty (reachable_oneLayer (.inl rfl)).wellFormed.wiring (by decide +kernel) .first
  -- The first apply searches, and the second keeps what it has found.
  have hfirst : (oneLayer .linear).Forthright .first (.apply .first {} {} {}) := by
    refine ⟨fun _ => .inl (by decide +kernel), fun _ hkept => absurd hkept ?_⟩
    decide +kernel
  have hlast : linearShown.Forthright .first (.apply .first {} {} {}) :=
    ⟨fun _ => .inl (by decide +kernel), fun _ _ => steady_linearShown⟩
  exact hforthright (oneLayer .linear) [.apply .first {} {} {}] (reachable_oneLayer (.inl rfl)) hlinks
    (.cons ⟨trivial, hfirst⟩ .nil) hlast

/-- An apply may keep a layer on a plane whose table does not list its framebuffer. -/
theorem not_forall_allowsFramebuffer :
    ¬ ∀ (d : Device Scripted) (o : OutputId) (f : Frame Scripted) (p : Plane) (id : LayerId) (l : Layer),
      d.Reachable → Frame.apply o {} {} ⟨d, {}⟩ = .ok () f → p ∈ f.device.planes →
      p.layer = some id → f.device.layer? id = some l → l.output = o → p.allowsFramebuffer l = true := by
  intro h
  obtain ⟨f, hrun, hf⟩ := exists_after_apply tiledShown .first {} {} {} (by decide +kernel)
  have hshown : ∃ p ∈ f.device.planes, p.layer = some (⟨⟨0, 0⟩⟩ : LayerId) := by
    rw [hf]
    decide +kernel
  have hrefused : ∀ p ∈ f.device.planes, (f.device.layer? ⟨⟨0, 0⟩⟩).map
      (fun l => (l.output, p.allowsFramebuffer l)) = some (.first, false) := by
    rw [hf]
    decide +kernel
  -- The layer is on the plane, and the plane refuses it.
  obtain ⟨p, hp, hlayer⟩ := hshown
  obtain ⟨l, hl, hlook⟩ := Option.map_eq_some_iff.mp (hrefused p hp)
  obtain ⟨ho, hallows⟩ := Prod.mk.inj hlook
  cases hallows.symm.trans (h tiledShown .first f p _ l reachable_tiledShown hrun hp hlayer hl ho)

end Allocation

end Scanout
