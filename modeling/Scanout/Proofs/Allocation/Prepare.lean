import Scanout.Proofs.Allocation.Changes
import Scanout.Proofs.Allocation.Order

namespace Scanout

variable {σ : Type} [Kernel σ]

def Kernel.metadata (k : σ) (l : Layer) : Option Framebuffer :=
  match Allocation.framebufferId? l with
  | none => none
  | some fb =>
    match Kernel.framebuffer k fb with
    | .ok framebuffer => framebuffer
    | .error _ => none

theorem Kernel.metadata_congr (k : σ) {l l' : Layer}
    (h : l'.property? WellKnown.fbId.name = l.property? WellKnown.fbId.name) :
    Kernel.metadata k l' = Kernel.metadata k l := by
  simp only [Kernel.metadata, Allocation.framebufferId?, h]

theorem Layer.property?_countUpdate (l : Layer) (periodElapsed : Bool) (name : String) :
    (l.countUpdate periodElapsed).property? name = l.property? name := by
  unfold countUpdate
  cases periodElapsed <;> rfl

namespace Device

omit [Kernel σ] in
def KeepsPriorities (d : Device σ) (o : OutputId) : Prop :=
  ∀ id l, d.layer? id = some l → l.output = o → (l.countUpdate d.periodElapsed).priority = l.priority

end Device

namespace Allocation

open Device

variable {d : Device σ} {o : OutputId} {out : Output}

def inOrder (layers : Arena Layer) (out : Output) : Output :=
  { out with layers := (arrange (isHigherPriority layers out.compositionLayer) out.layers).1 }

/-- The device at the decision about an output, if the driver was in state `k` and `changed` says whether
the order of the layers did. -/
structure Prepared (k : σ) (out : Output) (o : OutputId) (changed : Bool) (d d' : Device σ) : Prop where
  layers : ∀ id ∈ out.layers, d'.layer? id = (d.layer? id).map fun l =>
    { l.countUpdate d.periodElapsed with framebuffer := Kernel.metadata k l }
  output : d'.output? o = some (inOrder d'.layers out)
  changed : (arrange (isHigherPriority d'.layers out.compositionLayer) out.layers).2 = changed

omit [Kernel σ] in
theorem updatePriorities_spec (d : Device σ) :
    Ensures updatePriorities d (fun _ => Idles d.counted) (fun _ _ => False) := by
  simp only [updatePriorities, ensures_bind, ensures_get, ensures_set]
  exact ensures_forM (fun e _ d₁ h₁ => trans_of Idles h₁ ⟨_, rfl⟩) (refl_of Idles _)

/-- The layer is given what the driver says, and what the driver does not know is told. -/
theorem refreshFramebuffer_spec (d : Device σ) (id : LayerId) :
    Ensures (refreshFramebuffer id) d
      (fun _ d' => (d'.session.kernel = d.session.kernel ∧ d'.outputs = d.outputs) ∧
        ∀ id', d'.layer? id' = if id' = id
          then (d.layer? id').map fun l => { l with framebuffer := Kernel.metadata d.session.kernel l }
          else d.layer? id')
      (fun _ _ => False) := by
  -- Every branch ends in this update. The session may have noted that the driver failed.
  have hset : ∀ (session : Session σ) (l : Layer) framebuffer, d.layer? id = some l →
      session.kernel = d.session.kernel → framebuffer = Kernel.metadata d.session.kernel l →
      Ensures (modify (·.withLayer id ({ · with framebuffer })) : DeviceM σ Unit) { d with session }
        (fun _ d' => (d'.session.kernel = d.session.kernel ∧ d'.outputs = d.outputs) ∧
          ∀ id', d'.layer? id' = if id' = id
            then (d.layer? id').map fun l =>
              { l with framebuffer := Kernel.metadata d.session.kernel l }
            else d.layer? id') (fun _ _ => False) := by
    rintro session l framebuffer hl hkernel rfl
    rw [ensures_modify]
    refine ⟨⟨hkernel, rfl⟩, fun id' => ?_⟩
    rw [layer?_withLayer]
    split
    · rename_i hid
      subst hid
      show (d.layer? id').map _ = _
      rw [hl]
      rfl
    · rfl
  simp only [refreshFramebuffer, ensures_bind, ensures_get]
  split
  -- The layer shows no buffer, or the driver knows its buffer, or fails on it.
  · rename_i l hl
    split
    · rename_i hid
      exact hset d.session l none hl rfl (by simp only [Kernel.metadata, hid])
    · rename_i fb hid
      rw [ensures_bind, ensures_get]
      split
      · rename_i framebuffer hanswer
        refine hset d.session l framebuffer hl rfl ?_
        simp only [Kernel.metadata, hid, hanswer]
      · rename_i e hanswer
        refine hset _ l none hl rfl ?_
        simp only [Kernel.metadata, hid, hanswer]
  · rename_i hnone
    refine ⟨⟨rfl, rfl⟩, fun id' => ?_⟩
    have hl : d.layer? id = none := Option.eq_none_iff_forall_ne_some.mpr hnone
    split
    · rename_i hid
      rw [hid, hl]
      rfl
    · rfl

/-- Refreshing an output asks the driver about each of its layers, and about no other. -/
theorem refreshFramebuffers_spec (hout : d.output? o = some out) :
    Ensures (refreshFramebuffers o) d
      (fun _ d' => (d'.session.kernel = d.session.kernel ∧ d'.outputs = d.outputs) ∧
        ∀ id, d'.layer? id = if id ∈ out.layers
          then (d.layer? id).map fun l => { l with framebuffer := Kernel.metadata d.session.kernel l }
          else d.layer? id)
      (fun _ _ => False) := by
  simp only [refreshFramebuffers, ensures_bind, ensures_output]
  refine ⟨fun out' hout' => ?_, fun hnone => by rw [hout] at hnone; cases hnone⟩
  obtain rfl := Option.some.inj (hout.symm.trans hout')
  -- Each step keeps the driver, whose answers are therefore those of the start.
  refine ensures_forM_layers
    (I := fun d' => d'.session.kernel = d.session.kernel ∧ d'.outputs = d.outputs)
    (fun _ => rfl) (fun id _ d₁ h₁ _ => ?_) ⟨rfl, rfl⟩
  refine (refreshFramebuffer_spec d₁ id).mono ?_ fun _ _ => False.elim
  rintro - d₂ ⟨⟨hkernel, houtputs⟩, hlayers⟩
  rw [h₁.1] at hkernel hlayers
  exact ⟨⟨hkernel, houtputs.trans h₁.2⟩, hlayers⟩

/-- The steps before the decision do not fail. -/
theorem prepare_spec (hout : d.output? o = some out) :
    Ensures (do updatePriorities; refreshFramebuffers o; updateOrder o) d
      (fun changed => Prepared d.session.kernel out o changed d) (fun _ _ => False) := by
  rw [ensures_bind]
  refine (updatePriorities_spec d).mono ?_ fun _ _ => False.elim
  rintro - d₁ ⟨trace, hd₁⟩
  have hout₁ : d₁.output? o = some out := by
    rw [hd₁]
    exact hout
  have hkernel₁ : d₁.session.kernel = d.session.kernel := by
    rw [hd₁]
    rfl
  -- Counting first leaves each layer with its counts alone changed.
  have hlayers₁ : ∀ id, d₁.layer? id = (d.layer? id).map fun l => l.countUpdate d.periodElapsed := by
    rw [hd₁]
    exact d.layer?_counted
  rw [ensures_bind]
  refine (refreshFramebuffers_spec hout₁).mono ?_ fun _ _ => False.elim
  rintro - d₂ ⟨⟨-, houtputs₂⟩, hlayers₂⟩
  have hout₂ : d₂.output? o = some out := by
    rw [← hout₁]
    simp only [output?, houtputs₂]
  simp only [updateOrder, ensures_bind, ensures_get, ensures_output, ensures_modify, ensures_pure]
  refine ⟨fun out' hout' => ?_, fun hnone => by rw [hout₂] at hnone; cases hnone⟩
  obtain rfl := Option.some.inj (hout₂.symm.trans hout')
  refine ⟨fun id hid => ?_, ?_, rfl⟩
  · rw [layer?_withOutput, hlayers₂, if_pos hid, hlayers₁, Option.map_map, hkernel₁]
    -- Counting updates does not change what the driver is asked about.
    refine Option.map_congr fun l _ => ?_
    simp only [Function.comp, Kernel.metadata_congr _ (l.property?_countUpdate d.periodElapsed _)]
  · rw [output?_withOutput, if_pos rfl, hout₂]
    -- The new order is written into the output, and nothing else of it.
    rfl

/-- The beginning of an apply. It stops at an output that is not there, and else it keeps what its steps
keep until all is prepared for its decision. -/
theorem ensures_until_decision {R : Device σ → Device σ → Prop} [IsPreorder (Device σ) R]
    (hnow : Stays R (onSession Session.now))
    (hemit : ∀ e : Event, e.decision? = none → Stays R (onSession (Session.emit e)))
    (hprepare : Stays R (do updatePriorities; refreshFramebuffers o; updateOrder o))
    {α : Type} {rest : HostTime → Bool → FrameM σ α} {request : Request} {Q : α → Frame σ → Prop}
    {E : Failure → Frame σ → Prop}
    (hdead : d.output? o = none → ∀ d', R d d' → E (.fault (.staleOutput o)) ⟨d', request⟩)
    (hrest : ∀ out started changed d₁, d.output? o = some out →
      Prepared (Kernel.now d.session.kernel).2 out o changed d d₁ → R d d₁ →
      Ensures (rest started changed) ⟨d₁, request⟩ Q E) :
    Ensures (do
      let started ← Frame.now
      let out ← Frame.onDevice (Device.output o)
      Frame.emit (.applyBegin o out.crtc out.layers.length started)
      let changed ← Frame.onDevice (do updatePriorities; refreshFramebuffers o; updateOrder o)
      rest started changed) ⟨d, request⟩ Q E := by
  -- The clock and the first event touch the session only.
  let d₀ : Device σ := { d with session := { d.session with kernel := (Kernel.now d.session.kernel).2 } }
  have h₀ : R d d₀ := (ensures_onSession _).mp (hnow d)
  rw [ensures_bind, Frame.ensures_now, ensures_bind, Frame.ensures_onDevice, ensures_output]
  refine ⟨fun out hout => ?_, fun hnone => hdead hnone d₀ h₀⟩
  let begun : Event := .applyBegin o out.crtc out.layers.length (Kernel.now d.session.kernel).1
  let d₁ : Device σ := { d₀ with session := { d₀.session with trace := begun :: d₀.session.trace } }
  have h₁ : R d d₁ := trans_of R h₀ ((ensures_onSession _).mp (hemit begun rfl d₀))
  have hout₁ : d₁.output? o = some out := hout
  rw [ensures_bind, Frame.ensures_emit, ensures_bind, Frame.ensures_onDevice]
  -- What prepares the output is known from two sides, and both are handed on.
  refine ((prepare_spec hout₁).and (hprepare d₁)).mono ?_ fun _ _ h => h.1.elim
  rintro changed d₂ ⟨hprepared, h₂⟩
  exact hrest out _ changed d₂ hout ⟨hprepared.layers, hprepared.output, hprepared.changed⟩
    (trans_of R h₁ h₂)

end Allocation

end Scanout
