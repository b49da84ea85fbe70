import Scanout.Proofs.Allocation.Vouched

namespace Scanout

variable {σ : Type}

namespace Layer

structure Presentable (l : Layer) (p : Plane) (crtcIndex : Nat) : Prop where
  visible : l.isVisible = true
  framebuffer : l.hasFramebuffer = true
  unforced : l.forcedComposition = false
  serves : p.canServe crtcIndex = true
  takes : p.Takes l

theorem isVisible_markClean (l : Layer) : l.markClean.isVisible = l.isVisible :=
  congrArg (·.2.1) l.look_markClean

/-- What a layer that has not changed looked like at its mark. -/
theorem Recalls.isVisible_atMark {l l' : Layer} (h : l.Recalls l') (hchanged : l'.changed = false) :
    l'.atMark.isVisible = l.atMark.isVisible := by
  obtain ⟨hforced, -, hproperties⟩ := h.atMark hchanged
  have hforced : l'.atMark.forcedComposition = l.atMark.forcedComposition := hforced
  simp only [isVisible, hasFramebuffer, hforced, hproperties]

end Layer

/-- That a layer is not left to composition by force, on a plane that serves the pipe, needs no mark. -/
theorem vouches_unforced : Vouches (fun _ _ => True)
    fun n p l => l.forcedComposition = false ∧ p.canServe n = true where
  marked h := ⟨h.unforced, h.serves⟩
  recalled h hchanged hl := ⟨(h.atMark hchanged).1.trans hl.1, hl.2⟩
  kept _ _ _ _ hl := hl

/-- A layer that was visible at its mark is visible at the next one. -/
theorem vouches_visible : Vouches (fun _ _ => True) fun _ _ l => l.atMark.isVisible = true where
  marked h := by
    rw [Layer.atMark_markClean, Layer.isVisible_markClean]
    exact h.visible
  recalled h hchanged hl := (h.isVisible_atMark hchanged).trans hl
  kept hbag hchanged hcauses _ hl := by
    rw [Layer.atMark_markClean, Layer.isVisible_markClean, ← Layer.isVisible_atMark hbag hchanged hcauses]
    exact hl

namespace Device

open Allocation

variable [Kernel σ] {o : OutputId} {d : Device σ}

/-- In all that can be reached, a layer on a plane that has not changed since its mark is not left to
composition by force, and its plane serves the pipe. -/
theorem Reachable.vouched_unforced (h : d.Reachable) :
    Vouched (fun n p l => l.forcedComposition = false ∧ p.canServe n = true) o d := by
  obtain ⟨kernel, config, crtcs, ops, hrun⟩ := h
  have hfresh : ({ session := { kernel }, config, crtcs } : Device σ).Reachable :=
    ⟨kernel, config, crtcs, [], .nil⟩
  refine hrun.vouched vouches_unforced (fun d op hpermits => ?_) hfresh fun p hp => nomatch hp
  exact ⟨hpermits, fun _ _ _ _ _ _ => trivial, .inr fun n p l h => ⟨h.unforced, h.serves⟩⟩

end Device

namespace Allocation

open Device

variable [Kernel σ] {flags : CommitFlags} {o : OutputId} {options : ApplyOptions} {request : Request}
  {d : Device σ} {f : Frame σ}

/-- What an apply that succeeds leaves on a plane is marked, and the plane takes it. It is visible if there
was a search, and else exactly if it was visible at its last clean mark. -/
theorem visible_of_apply (hd : d.Reachable)
    (hrun : Frame.apply o flags options ⟨d, request⟩ = .ok () f) {p : Plane}
    (hp : p ∈ f.device.planes) {id : LayerId} {l : Layer} (hlayer : p.layer = some id)
    (hl : f.device.layer? id = some l) (ho : l.output = o) :
    l.atMark = l ∧ p.Takes l ∧ (l.isVisible = true ↔
      (f.device.session.decisions = (o, .accepted) :: d.session.decisions →
        ∀ l₀, d.layer? id = some l₀ → l₀.atMark.isVisible = true)) := by
  -- What a layer shows depends on whether the allocation was kept or searched.
  obtain ⟨out, l₁, -, rfl, htakes, hshown⟩ := shown_of_apply hd hrun hp hlayer hl ho
  refine ⟨l₁.atMark_markClean, p.takes_congr l₁.worn_markClean htakes, ?_⟩
  rw [Layer.isVisible_markClean]
  rcases hshown with ⟨haccepted, -, l₀, hl₀, -, hcontented⟩ | ⟨hsearched, hpresents⟩
  -- A kept layer is as visible as it was at its mark.
  · have hvisible : l₁.isVisible = l₀.atMark.isVisible := calc
      l₁.isVisible = l₁.atMark.isVisible := (Layer.isVisible_atMark hcontented.wellFormed
        hcontented.changed hcontented.causes).symm
      _ = l₀.atMark.isVisible := hcontented.recalls.isVisible_atMark hcontented.changed
    rw [hvisible]
    refine ⟨fun h _ l₀' hl₀' => ?_, fun h => h haccepted l₀ hl₀⟩
    rw [Option.some.inj (hl₀'.symm.trans hl₀)]
    exact h
  · exact iff_of_true hpresents.visible fun haccepted => absurd haccepted hsearched

/-- After an apply that succeeds, every layer of the output that is on a plane can be shown there, except
that it may be invisible. It is visible if there was a search, and else exactly if it was visible at its
last clean mark. That it was is certain if the output had no links at some time before and no apply on it
has failed since with a layer of another output in the way. -/
theorem presentable_of_apply (hd : d.Reachable)
    (hrun : Frame.apply o flags options ⟨d, request⟩ = .ok () f) {id : LayerId} {l : Layer} {q : UInt32}
    (hl : f.device.layer? id = some l) (ho : l.output = o) (hq : l.plane = some q) :
    ∃ out p, f.device.output? o = some out ∧ p ∈ f.device.planes ∧ p.id = q ∧ p.layer = some id ∧
      (l.forcedComposition = false ∧ p.canServe out.crtcIndex = true ∧ p.Takes l) ∧
      (l.Presentable p out.crtcIndex ↔
        (f.device.session.decisions = (o, .accepted) :: d.session.decisions →
          ∀ l₀, d.layer? id = some l₀ → l₀.atMark.isVisible = true)) ∧
      ∀ d₀ ops, d₀.Reachable → d₀.wiring.links o = ∅ →
        Run (fun d op => d.Permits op ∧ d.Unhindered o op) d₀ ops d →
          l.Presentable p out.crtcIndex := by
  have hwell := (hd.of_apply hrun).wellFormed
  -- The link leads to a plane of the device.
  obtain ⟨p, hp, hpq, hlayer⟩ := plane_of_layer hwell.wiring hl hq
  obtain ⟨out, hout, -⟩ := output_of_layer hwell hl
  rw [ho] at hout
  obtain ⟨hunforced, hserves⟩ := vouched_of_apply vouches_unforced hd hrun hd.vouched_unforced
    (fun _ _ _ _ _ => trivial) hp hlayer hl ho hout
  obtain ⟨hmarked, htakes, hvisible⟩ := visible_of_apply hd hrun hp hlayer hl ho
  -- A layer that is visible without being left to composition has a framebuffer.
  have hpresentable : l.isVisible = true → l.Presentable p out.crtcIndex := fun h =>
    ⟨h, Layer.hasFramebuffer_of_isVisible hunforced h, hunforced, hserves, htakes⟩
  refine ⟨out, p, hout, hp, hpq, hlayer, ⟨hunforced, hserves, htakes⟩, ?_, ?_⟩
  · exact ⟨fun h => hvisible.mp h.visible, fun h => hpresentable (hvisible.mpr h)⟩
  · intro d₀ ops hd₀ hlinks hcareful
    -- No hindered apply has been made, so every mark was of a visible layer.
    have hvouched := hcareful.vouched vouches_visible
      (fun d op hstep => ⟨hstep.1, fun _ _ _ _ _ _ => trivial, .inl hstep.2⟩) hd₀
      (vouched_of_no_links hd₀.wellFormed hlinks)
    have hmark := vouched_of_apply vouches_visible hd hrun hvouched (fun _ _ _ _ _ => trivial) hp hlayer
      hl ho hout
    rw [hmarked] at hmark
    exact hpresentable hmark

/-- The layers of the small device can still be shown when the next apply keeps their allocation. -/
theorem presentable_threeShown : ∃ f : Frame Scripted,
    Frame.apply .first {} {} ⟨threeShown, {}⟩ = .ok () f ∧
      f.device.session.decisions = (.first, .accepted) :: threeShown.session.decisions ∧
      ∃ id l q out p, f.device.layer? id = some l ∧ l.plane = some q ∧
        f.device.output? .first = some out ∧ p.id = q ∧ l.Presentable p out.crtcIndex := by
  obtain ⟨f, hrun, hf⟩ := exists_after_apply threeShown .first {} {} {} (by decide +kernel)
  have hshown : ∃ p ∈ f.device.planes, p.layer = some (⟨⟨0, 0⟩⟩ : LayerId) := by
    rw [hf]
    decide +kernel
  have haccepted : f.device.session.decisions =
      (.first, .accepted) :: threeShown.session.decisions := by
    rw [hf]
    decide +kernel
  have hwell := (reachable_threeShown.of_apply hrun).wellFormed
  obtain ⟨p, hp, hlayer⟩ := hshown
  -- What plane and layer look like is read off the device after the apply.
  obtain ⟨l, hl, hq⟩ := layer_of_plane hwell.wiring hp hlayer
  have ho : l.output = .first := by
    have houtput : (f.device.layer? ⟨⟨0, 0⟩⟩).map Layer.output = some .first := by
      rw [hf]
      decide +kernel
    rw [hl] at houtput
    exact Option.some.inj houtput
  obtain ⟨out, p', hout, -, hpq, -, -, -, hcareful⟩ :=
    presentable_of_apply reachable_threeShown hrun hl ho hq
  refine ⟨f, hrun, haccepted, _, l, _, out, p', hl, hq, hout, hpq, ?_⟩
  -- Before its first apply the output has no links.
  have hlinks : threeLayers.wiring.links .first = ∅ :=
    links_eq_empty reachable_threeLayers.wellFormed.wiring (by decide +kernel) .first
  refine hcareful threeLayers [.apply .first {} {} {}] reachable_threeLayers hlinks
    (.cons ⟨trivial, fun _ => .inl ?_⟩ .nil)
  decide +kernel

/-- Two outputs on two pipes. The second one's apply fails after its search, since the first one's layer
was rotated, which no plane can do; then the second one's layer loses the framebuffer that it had been
given for the search, and the rotation is taken back. -/
def flippedBack : Device Scripted :=
  (twoOutputs .twoPipes (.setProperty ⟨⟨1, 0⟩⟩ "FB_ID" 0)).afterAll
    [.apply .second {} {} {}, .setProperty ⟨⟨1, 0⟩⟩ "FB_ID" 2, .setProperty ⟨⟨0, 0⟩⟩ "rotation" 2,
      .apply .second {} {} {}, .setProperty ⟨⟨1, 0⟩⟩ "FB_ID" 0, .setProperty ⟨⟨0, 0⟩⟩ "rotation" 1]

theorem reachable_flippedBack : flippedBack.Reachable := by
  have htwo : (twoOutputs Scripted.twoPipes (.setProperty ⟨⟨1, 0⟩⟩ "FB_ID" 0)).Reachable :=
    ⟨.twoPipes, {}, [1, 2], _, run_afterAll (by decide +kernel)⟩
  exact htwo.afterAll (by decide +kernel)

/-- An apply may leave a layer without a framebuffer on a plane. -/
theorem not_forall_presentable :
    ¬ ∀ (d : Device Scripted) (o : OutputId) (f : Frame Scripted) (p : Plane) (id : LayerId) (l : Layer)
      (out : Output), d.Reachable → Frame.apply o {} {} ⟨d, {}⟩ = .ok () f → p ∈ f.device.planes →
      p.layer = some id → f.device.layer? id = some l → l.output = o →
      f.device.output? o = some out → l.Presentable p out.crtcIndex := by
  intro h
  obtain ⟨f, hrun, hf⟩ := exists_after_apply flippedBack .second {} {} {} (by decide +kernel)
  have hshown : ∃ p ∈ f.device.planes, p.layer = some (⟨⟨1, 0⟩⟩ : LayerId) := by
    rw [hf]
    decide +kernel
  have hinvisible : (f.device.layer? ⟨⟨1, 0⟩⟩).map (fun l => (l.output, l.isVisible)) =
      some (.second, false) := by
    rw [hf]
    decide +kernel
  obtain ⟨p, hp, hlayer⟩ := hshown
  -- The layer is on the plane, and it is not visible.
  obtain ⟨l, hl, hlook⟩ := Option.map_eq_some_iff.mp hinvisible
  obtain ⟨ho, hvisible⟩ := Prod.mk.inj hlook
  obtain ⟨out, hout, -⟩ := output_of_layer (reachable_flippedBack.of_apply hrun).wellFormed hl
  rw [ho] at hout
  have hpresentable := h flippedBack .second f p _ l out reachable_flippedBack hrun hp hlayer hl ho hout
  cases hvisible.symm.trans hpresentable.visible

end Allocation

end Scanout
