import Scanout.Proofs.Device.Run

namespace Scanout
namespace Device

variable {σ : Type} [Kernel σ]

/-- When an apply keeps the allocation of an output, the links it keeps are those from the last
decision on this output, whether that succeeded or not, up to planes that were forgotten since. -/
theorem links_of_reuse {d d' : Device σ} (hd : d.Reachable) {o : OutputId}
    {ops : List (Operation σ)}
    (hrun : Run (fun d op => d.Permits op ∧ Leaves o op d (d.after op)) d ops d')
    {request : Request} {flags : CommitFlags} {options : ApplyOptions} {f : Frame σ}
    (happly : Frame.apply o flags options ⟨d', request⟩ = .ok () f)
    (haccepted : f.device.session.decisions = (o, .accepted) :: d'.session.decisions) :
    f.device.wiring.links o = {x ∈ d.wiring.links o | .unregisterPlane x.1 ∉ ops} ∧
      (f.device.wiring.links o = d.wiring.links o ↔
        ∀ x ∈ d.wiring.links o, .unregisterPlane x.1 ∉ ops) := by
  obtain ⟨hd', hnotices⟩ := hrun.notices hd.wellFormed
  have hspec := Allocation.apply_spec (o := o) hd' flags options request
  rw [ensures_of_eq_ok happly] at hspec
  have hlinks : f.device.wiring.links o = {x ∈ d.wiring.links o | .unregisterPlane x.1 ∉ ops} := by
    -- A kept allocation changes no link, a searched one would have been told as such.
    rcases hspec with hreused | hsearched
    · rw [hreused.wiring]
      exact hnotices.links.resolve_left hreused.unchanged
    · obtain ⟨outcome, hne, hreports⟩ := hsearched.reports
      have hdecision := hreports.decisions.symm.trans haccepted
      simp only [List.cons_append, List.nil_append, List.cons.injEq, Prod.mk.injEq] at hdecision
      exact absurd hdecision.1.2 hne
  refine ⟨hlinks, ?_⟩
  rw [hlinks]
  exact Set.sep_eq_self_iff_mem_true

/-- A plane that is forgotten takes its link out of an allocation that is kept all the same. -/
theorem links_of_reuse_threeShown : ∃ f : Frame Scripted,
    Frame.apply .first {} {} ⟨threeShown.after (.unregisterPlane 11), {}⟩ = .ok () f ∧
      f.device.wiring.links .first = {x ∈ threeShown.wiring.links .first | x.1 ≠ 11} := by
  have hrun : Run (fun d op => d.Permits op ∧ Leaves .first op d (d.after op)) threeShown
      [.unregisterPlane 11] (threeShown.after (.unregisterPlane 11)) :=
    .cons ⟨trivial, nofun, False.elim⟩ .nil
  have happly := eq_ok_of_succeeded
    (x := Frame.apply .first {} {} ⟨threeShown.after (.unregisterPlane 11), {}⟩) (by decide +kernel)
  refine ⟨_, happly, ?_⟩
  rw [(links_of_reuse reachable_threeShown hrun happly (by decide +kernel)).1]
  simp

def breakdown : Operation Scripted := .drive fun s => { s with results := [22, 5] }

def threeLost : Device Scripted := (threeShown.after breakdown).after (.apply .first {} {} {})

/-- After a search that failed half-way, an allocation may be kept that is not the one of the last
apply that succeeded: here nothing is shown any more. -/
theorem not_forall_links_of_reuse :
    ¬ ∀ (d d' : Device Scripted) (o : OutputId) (f f' : Frame Scripted)
      (ops : List (Operation Scripted)), d.Reachable →
      Frame.apply o {} {} ⟨d, {}⟩ = .ok () f →
      Run (fun d op => d.Permits op ∧ op ≠ .destroyOutput o ∧
        (op.appliesTo o → succeeded (op.perform d) = false)) f.device ops d' →
      Frame.apply o {} {} ⟨d', {}⟩ = .ok () f' →
      f'.device.session.decisions = (o, .accepted) :: d'.session.decisions →
      f'.device.wiring.links o = f.device.wiring.links o := by
  intro h
  obtain ⟨f, happly, hf⟩ := apply_threeLayers
  -- The apply in between fails, after it has cleared the links.
  have hfails : succeeded ((Operation.apply .first {} {} {}).perform (threeShown.after breakdown)) =
      false := by decide +kernel
  have hrun : Run (fun d op => d.Permits op ∧ op ≠ .destroyOutput .first ∧
      (op.appliesTo .first → succeeded (op.perform d) = false)) threeShown
      [breakdown, .apply .first {} {} {}] threeLost :=
    .cons ⟨trivial, nofun, False.elim⟩ (.cons ⟨trivial, nofun, fun _ => hfails⟩ .nil)
  have hlinks := h threeLayers threeLost .first f _ _ reachable_threeLayers happly (hf ▸ hrun)
    (eq_ok_of_succeeded (x := Frame.apply .first {} {} ⟨threeLost, {}⟩) (by decide +kernel))
    (by decide +kernel)
  -- One of the links before is not there any more.
  have hbefore : ((12 : UInt32), (⟨⟨0, 0⟩⟩ : LayerId)) ∈ threeShown.wiring.links .first := by
    decide +kernel
  rw [← hf, ← hlinks] at hbefore
  revert hbefore
  decide +kernel

end Device
end Scanout
