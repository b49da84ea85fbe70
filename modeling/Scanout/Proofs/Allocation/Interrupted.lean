import Scanout.Proofs.Allocation.Alike
import Scanout.Proofs.Kernel.Interrupted

namespace Scanout

variable {σ : Type}

def Device.drivenBy (d : Device σ) (kernel : σ) : Device σ := { d with session := { d.session with kernel } }

namespace Allocation

open Device

/-- Interruptions do not show. Let the driver's commits end as a script says while it lasts, and put any
number of interruptions anywhere into the script. After the same applies, and whatever else the caller does
short of a commit of its own, the next apply ends the same way. It leaves the same request, the same links,
the same outputs with their layers in the same order, and the same number of tests. -/
theorem interruptions_unseen [Kernel σ] {script : σ → List Int} {Same : σ → σ → Prop}
    (hscript : Kernel.FollowsScript script Same) {d : Device σ} {kernel : σ}
    (hsame : Same d.session.kernel kernel)
    (hresults : Script.Interrupted (script d.session.kernel) (script kernel))
    {before : List (Operation σ)} (hbefore : ∀ op ∈ before, op.SparesDriver)
    (o : OutputId) (flags : CommitFlags) (options : ApplyOptions) (request : Request) :
    let run := Frame.apply o flags options ⟨d.afterAll before, request⟩
    let run' := Frame.apply o flags options ⟨(d.drivenBy kernel).afterAll before, request⟩
    failure? run' = failure? run ∧
      (leftBy run').request = (leftBy run).request ∧
      (leftBy run').device.wiring = (leftBy run).device.wiring ∧
      (leftBy run').device.outputs = (leftBy run).device.outputs ∧
      (leftBy run').device.session.testCommits = (leftBy run).device.session.testCommits := by
  intro run run'
  -- The two devices differ in the driver, with scripts that agree on all that is not an interruption.
  have hstart : Over (Kernel.FollowsScript.Twins script Same) d (d.drivenBy kernel) :=
    ⟨_, rfl, _, rfl, hsame, hresults.firm_eq⟩
  have hover := over_afterAll hscript.alike hbefore hstart
  have hend := alike_apply (hscript.alike flags) o options ⟨d.afterAll before, request⟩
    ⟨(d.drivenBy kernel).afterAll before, request⟩ ⟨_, rfl, hover⟩
  refine ⟨hend.failure?, ?_⟩
  -- What is left differs in the driver alone, which none of the facts asked for looks at.
  obtain ⟨device, hframe, session, hdevice, kernel, hsession, -⟩ := hend.leftBy
  subst hsession
  subst hdevice
  rw [hframe]
  exact ⟨rfl, rfl, rfl, rfl⟩

def scriptedLayers : Device Scripted :=
  threeLayers.drivenBy { threeLayers.session.kernel with results := [22, 0, 28, 22, 5] }

/-- The script ends in a breakdown, which the first apply reports. The second one leaves the same links with
five interruptions as without them. -/
theorem interruptions_scriptedLayers :
    let kernel : Scripted :=
      { scriptedLayers.session.kernel with results := [4, 22, 11, 11, 0, 28, 4, 22, 11, 5] }
    let run := Frame.apply .first {} {} ⟨scriptedLayers.afterAll [.apply .first {} {} {}], {}⟩
    let run' := Frame.apply .first {} {}
      ⟨(scriptedLayers.drivenBy kernel).afterAll [.apply .first {} {} {}], {}⟩
    (leftBy run').device.wiring = (leftBy run).device.wiring ∧
      (leftBy run').device.session.kernel.commitCount =
        (leftBy run).device.session.kernel.commitCount + 5 := by
  intro kernel run run'
  have hresults : Script.Interrupted [22, 0, 28, 22, 5] [4, 22, 11, 11, 0, 28, 4, 22, 11, 5] :=
    .insert 4 rfl <| .keep 22 <| .insert 11 rfl <| .insert 11 rfl <| .keep 0 <| .keep 28 <|
      .insert 4 rfl <| .keep 22 <| .insert 11 rfl <| .keep 5 .nil
  have hbefore : ∀ op ∈ [(.apply .first {} {} {} : Operation Scripted)], op.SparesDriver := by
    rintro _ (_ | ⟨_, ⟨⟩⟩)
    trivial
  -- The other driver is the same one with the longer script.
  have hsame : Scripted.Same scriptedLayers.session.kernel kernel := ⟨by decide +kernel, _, _, rfl⟩
  obtain ⟨-, -, hlinks, -⟩ := interruptions_unseen Scripted.followsScript (d := scriptedLayers) hsame
    hresults hbefore .first {} {} {}
  exact ⟨hlinks, by decide +kernel⟩

end Allocation
end Scanout
