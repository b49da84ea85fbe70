import Mathlib.Order.Bounds.Defs
import Scanout.Proofs.Device.Run

namespace Scanout

variable {σ : Type} [Kernel σ]

namespace Kernel.Steady

variable {K : σ → Prop} {flags : CommitFlags} {verdict : Request → Option Errno}
  {started : HostTime} {timeout : Duration} (h : Kernel.Steady K flags verdict started timeout)
include h

theorem testCommit (r : Request) {session : Session σ} (hK : K session.kernel) :
    Ensures (Session.testCommit r flags) session
      (fun reply session' => reply = verdict r ∧ K session'.kernel) (fun _ _ => False) := by
  -- The driver answers with its verdict, and a refusal is a soft one.
  obtain ⟨k', hk', htest⟩ := h.test session.kernel r hK
  simp only [Session.testCommit, ensures_bind, ensures_modify, ensures_modifyGet, htest]
  cases hverdict : verdict r with
  | none => exact ⟨rfl, hk'⟩
  | some e =>
    simp only [Option.elim_some, h.soft r e hverdict, ↓reduceIte, ensures_pure]
    exact ⟨trivial, hk'⟩

/-- A steady driver is all that a search on layers without planes needs to be complete. -/
theorem setting {s : Search.Scene} (hflags : s.flags = flags) (hstarted : s.started = started)
    (htimeout : s.timeout = timeout)
    (hunplaced : ∀ id ∈ s.output.layers, ∀ l, s.layer? id = some l → l.plane = none)
    (s₀ : Session σ) :
    Search.Setting s (fun session => K session.kernel ∧ Session.Reports [] s₀ session)
      (fun _ r => verdict r = none) (fun r => verdict r = none) (fun _ _ => False) True := by
  refine Search.setting_of_kernel (K := K) (fun k hK => ?_) (fun r session hK => ?_) (fun _ => hunplaced) s₀
  -- The clock has not run out, so no path is missed.
  · obtain ⟨hnext, hearly⟩ := h.now k hK
    rw [hstarted, htimeout]
    exact ⟨hnext, fun _ hr => hr, fun _ => hearly⟩
  · rw [hflags]
    refine (h.testCommit r hK).mono ?_ fun _ _ => False.elim
    rintro reply session' ⟨rfl, hK'⟩
    exact ⟨hK', fun _ hr => hr, fun h => h, fun _ h => h⟩

end Kernel.Steady

namespace Allocation

open Device

variable {d : Device σ}

omit [Kernel σ] in
/-- The layers of a cleared output have no planes. -/
theorem plane_cleared (hd : d.WellFormed) {o : OutputId} {out : Output}
    (hout : d.output? o = some out) {id : LayerId} (hid : id ∈ out.layers) {l : Layer}
    (hl : (d.cleared o).layer? id = some l) : l.plane = none := by
  obtain ⟨l', hl', ho⟩ := layer_of_output hd hout hid
  rw [layer?_cleared, hl', Option.map_some, if_pos ho] at hl
  rw [← Option.some.inj hl]

/-- On a steady driver a search does not fail, and so it allocates. What is still to come is the
staging of what was linked. -/
theorem exists_allocated {K : σ → Prop} {verdict : Request → Option Errno} (hd : d.WellFormed)
    {o : OutputId} {out : Output} (hout : d.output? o = some out) {flags : CommitFlags}
    {options : ApplyOptions} {started : HostTime}
    (hsteady : Kernel.Steady K flags verdict started
      ((Kernel.timebase d.session.kernel).duration (options.searchTime d.config)))
    (hK : K d.session.kernel) {request entry : Request}
    (hentry : disables (d.cleared o) request = .ok () entry) :
    ∃ best d', Allocated d o (sceneOf (d.cleared o) out flags options started)
        (fun _ r => verdict r = none) (verdict · = none) entry True best d' ∧
      allocate o flags options started ⟨d, request⟩ =
        (do Frame.onRequest d'.stageCurrent; pure (best.map Search.Best.score)) ⟨d', entry⟩ := by
  have hsetting := hsteady.setting (s := sceneOf (d.cleared o) out flags options started) rfl rfl rfl
    (fun id hid l hl => plane_cleared hd hout hid hl) d.session
  have hspec := allocate_spec hd hout flags options started hsetting
    (fun session hkernel hreports => ⟨hkernel ▸ hK, hreports⟩) (fun _ h => h.2) request
  -- The allocation succeeds, or it fails in one of three ways.
  unfold Ensures at hspec
  split at hspec
  · rename_i score f' hrun
    obtain ⟨entry', best, hentry', hallocated, rfl, hstage⟩ := hspec
    cases hentry.symm.trans hentry'
    refine ⟨best, f'.device, hallocated, hrun.trans ?_⟩
    rw [bind_of_ok (Frame.onRequest_of_ok hstage)]
    rfl
  · -- If it failed, then after the search: the planes were switched off, and no test fails.
    rename_i e f' hrun
    obtain ⟨-, ⟨_, -, ⟨entry', herror⟩ | hfalse⟩ | ⟨entry', best, hentry', hallocated, hstage⟩⟩ := hspec
    · cases hentry.symm.trans herror
    · exact hfalse.elim
    · cases hentry.symm.trans hentry'
      refine ⟨best, f'.device, hallocated, hrun.trans ?_⟩
      simp only [bind, EStateM.bind, Frame.onRequest, hstage]

namespace Allocated

variable {d' : Device σ} {o : OutputId} {s : Search.Scene} {passes : Request → Prop}
  {entry : Request} {best : Option Search.Best}

omit [Kernel σ] in
/-- Nothing is found exactly if nothing is feasible. -/
theorem eq_none_iff (h : Allocated d o s (fun _ => passes) passes entry True best d') :
    best = none ↔ {path | Search.Feasible s passes entry (d.cleared o).planes path} = ∅ := by
  constructor
  · rintro rfl
    apply Set.eq_empty_iff_forall_notMem.mpr
    intro path hpath
    obtain ⟨b, hb, -⟩ := h.optimal trivial path hpath
    cases hb
  -- Had there been a feasible path, the one kept would be among them.
  · intro hempty
    cases hb : best with
    | none => rfl
    | some b =>
      have hpath : b.path ∈ {path | Search.Feasible s passes entry (d.cleared o).planes path} :=
        (h.feasible b hb).2
      rw [hempty] at hpath
      exact hpath.elim

omit [Kernel σ] in
/-- What is found has the best score of all that is feasible. -/
theorem isGreatest {b : Search.Best}
    (h : Allocated d o s (fun _ => passes) passes entry True (some b) d') :
    IsGreatest (s.score '' {path | Search.Feasible s passes entry (d.cleared o).planes path})
      b.score := by
  obtain ⟨hscore, hfeasible⟩ := h.feasible b rfl
  -- The score is that of a feasible path, and no other has more.
  refine ⟨⟨b.path, hfeasible, hscore.symm⟩, ?_⟩
  rintro _ ⟨path, hpath, rfl⟩
  obtain ⟨b', hb, hle⟩ := h.optimal trivial path hpath
  obtain rfl := Option.some.inj hb
  exact hle

omit [Kernel σ] in
theorem links_eq {noted : σ → Request → Prop} {steady : Prop}
    (h : Allocated d o s noted passes entry steady best d') :
    d'.wiring.links o = {x | ∃ b, best = some b ∧ x ∈ assignments b.path} :=
  Set.ext h.links

end Allocated

/-- On a steady driver a full search, once the free planes could be switched off, answers the best
score of all feasible paths, and nothing exactly if there is none, and links what such a path says.
Only the staging of what it linked may still fail. -/
theorem allocate_isGreatest {K : σ → Prop} {verdict : Request → Option Errno} (hd : d.WellFormed)
    {o : OutputId} {out : Output} (hout : d.output? o = some out) {flags : CommitFlags}
    {options : ApplyOptions} {started : HostTime}
    (hsteady : Kernel.Steady K flags verdict started
      ((Kernel.timebase d.session.kernel).duration (options.searchTime d.config)))
    (hK : K d.session.kernel) {request entry : Request}
    (hentry : disables (d.cleared o) request = .ok () entry) :
    let s := sceneOf (d.cleared o) out flags options started
    let feasible := {path | Search.Feasible s (verdict · = none) entry (d.cleared o).planes path}
    ∃ (score : Option Nat) (d' : Device σ),
      allocate o flags options started ⟨d, request⟩ =
        (do Frame.onRequest d'.stageCurrent; pure score) ⟨d', entry⟩ ∧
      (score = none ↔ feasible = ∅) ∧
      (score = none → d'.wiring.links o = ∅) ∧
      ∀ n, score = some n → IsGreatest (s.score '' feasible) n ∧
        ∃ path ∈ feasible, s.score path = n ∧ d'.wiring.links o = {x | x ∈ assignments path} := by
  intro s feasible
  obtain ⟨best, d', hallocated, hrun⟩ := exists_allocated hd hout hsteady hK hentry
  refine ⟨best.map Search.Best.score, d', hrun, ?_, fun hnone => ?_, fun n hn => ?_⟩
  · rw [Option.map_eq_none_iff]
    exact hallocated.eq_none_iff
  -- Without a best path nothing is linked.
  · obtain rfl := Option.map_eq_none_iff.mp hnone
    rw [hallocated.links_eq]
    simp
  · obtain ⟨b, rfl, rfl⟩ := Option.map_eq_some_iff.mp hn
    obtain ⟨hscore, hfeasible⟩ := hallocated.feasible b rfl
    refine ⟨hallocated.isGreatest, b.path, hfeasible, hscore.symm, ?_⟩
    rw [hallocated.links_eq]
    simp

/-- With refusals to get around, three layers find planes and no fourth one would. -/
theorem isGreatest_threeLayers :
    let d := threeLayers.cleared .first
    let entry := leftBy (disables d {})
    ∃ out, threeLayers.output? .first = some out ∧
      IsGreatest ((sceneOf d out {} {} ⟨0⟩).score '' {path | Search.Feasible (sceneOf d out {} {} ⟨0⟩)
        (Scripted.threeOverlays.verdict · = none) entry d.planes path}) 3 := by
  intro d entry
  obtain ⟨out, hout⟩ := Option.isSome_iff_exists.mp
    (by decide +kernel : (threeLayers.output? .first).isSome)
  refine ⟨out, hout, ?_⟩
  have hsteady := @Scripted.steady .threeOverlays rfl (by decide) rfl rfl ⟨0⟩
    ((Kernel.timebase threeLayers.session.kernel).duration
      (ApplyOptions.searchTime {} threeLayers.config)) (by decide +kernel) {}
  have hentry : disables d {} = .ok () entry := eq_ok_of_succeeded (by decide +kernel)
  obtain ⟨score, d', hrun, -, -, hbest⟩ := allocate_isGreatest reachable_threeLayers.wellFormed hout
    hsteady ⟨0, by decide +kernel⟩ hentry
  have hanswer : answer? (allocate .first {} {} ⟨0⟩ ⟨threeLayers, {}⟩) = some (some 3) := by
    decide +kernel
  -- The answer tells the score, provided the last staging succeeds.
  rw [hrun] at hanswer
  refine (hbest 3 ?_).1
  revert hanswer
  simp only [bind, EStateM.bind, Frame.onRequest]
  cases d'.stageCurrent entry with
  | ok _ _ => exact Option.some.inj
  | error _ _ =>
    intro h
    cases h

end Allocation

end Scanout
