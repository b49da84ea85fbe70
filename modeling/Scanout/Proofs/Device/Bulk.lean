import Scanout.Kernel.Mock
import Scanout.Proofs.Device.Registry

/-! Registering all planes of the driver stops at the first that fails, and those before it stay
registered. So the call leaves things as they were only if nothing was registered before it failed, and
otherwise it cannot be repeated. -/

namespace Scanout
namespace Device

variable {σ : Type} [Kernel σ] {d d' : Device σ} {q : UInt32}

theorem planes_of_gained (hrun : registerPlane q d = .ok () d') :
    q ∉ d.planes.map Plane.id ∧ ∃ p : Plane, p.id = q ∧ d'.planes.Perm (p :: d.planes) := by
  have hspec := registerPlane_spec d q
  rw [ensures_of_eq_ok hrun] at hspec
  obtain ⟨hunknown, p, _, d₁, -, hdescribes, -, rfl⟩ := hspec
  refine ⟨fun hmem => ?_, p, hdescribes.id, p.insertInto_perm d.planes⟩
  obtain ⟨p', hp', hid⟩ := List.mem_map.mp hmem
  exact id_ne_of_unknown hunknown p' hp' hid

/-- A plane that is registered cannot be registered again. -/
theorem registerPlane_twice (hknown : q ∈ d.planes.map Plane.id) :
    ∃ d', registerPlane q d = .error (.error (.duplicatePlane q)) d' ∧ d'.planes = d.planes := by
  have hsome : (d.plane? q).isSome = true := by
    rw [Option.isSome_iff_ne_none]
    intro hnone
    obtain ⟨p, hp, hid⟩ := List.mem_map.mp hknown
    exact id_ne_of_unknown hnone p hp hid
  rw [registerPlane, get_bind, if_pos hsome]
  exact ⟨_, rfl, rfl⟩

/-- Planes that are registered one after the other were all unknown before, and all of them are there
afterwards. -/
theorem planes_of_all {ids : List UInt32} (hrun : ids.forM registerPlane d = .ok () d') :
    (∀ r ∈ ids, r ∉ d.planes.map Plane.id) ∧
      ∃ new : List Plane, new.map Plane.id = ids ∧ d'.planes.Perm (new ++ d.planes) := by
  -- What is unknown after the first plane was unknown before it, as planes only come.
  induction ids generalizing d with
  | nil =>
    cases hrun
    exact ⟨by simp, [], rfl, .refl _⟩
  | cons q ids ih =>
    -- The first call succeeded, and so did all after it.
    obtain ⟨_, d₁, hq, hids⟩ := bind_eq_ok (f := fun _ => ids.forM registerPlane) hrun
    obtain ⟨hunknown, p, rfl, hp⟩ := planes_of_gained hq
    obtain ⟨hothers, new, rfl, hnew⟩ := ih hids
    refine ⟨?_, p :: new, rfl, ?_⟩
    · rw [List.forall_mem_cons]
      refine ⟨hunknown, fun r hr hknown => hothers r hr ?_⟩
      exact (hp.map Plane.id).mem_iff.mpr (List.mem_cons_of_mem _ hknown)
    · exact (hnew.trans (hp.append_left new)).trans List.perm_middle

theorem registerAllPlanes_of_listed {ids : List UInt32}
    (h : Kernel.planeIds d.session.kernel = .ok ids) :
    registerAllPlanes d = ids.forM registerPlane d := by
  refine bind_of_ok (a := ids) ?_
  rw [query, get_bind, h]
  rfl

theorem registerAllPlanes_of_unlisted {errno : Errno}
    (h : Kernel.planeIds d.session.kernel = .error errno) :
    registerAllPlanes d = .error (.error (.kernel errno)) d := by
  refine bind_of_error ?_
  rw [query, get_bind, h]
  rfl

/-- While one of the listed planes is registered, not all of them can be. -/
theorem not_succeeded_of_known {ids : List UInt32} {r : UInt32}
    (hlist : Kernel.planeIds d.session.kernel = .ok ids) (hlisted : r ∈ ids)
    (hknown : r ∈ d.planes.map Plane.id) : succeeded (registerAllPlanes d) = false := by
  rw [registerAllPlanes_of_listed hlist]
  cases hrun : ids.forM registerPlane d with
  | error e d' => rfl
  | ok _ d' => exact absurd hknown ((planes_of_all hrun).1 r hlisted)

/-- If the first of the listed planes is registered, then it is the one to fail. -/
theorem duplicate_of_known {r : UInt32} {rest : List UInt32}
    (hlist : Kernel.planeIds d.session.kernel = .ok (r :: rest)) (hknown : r ∈ d.planes.map Plane.id) :
    ∃ d', registerAllPlanes d = .error (.error (.duplicatePlane r)) d' ∧ d'.planes = d.planes := by
  obtain ⟨d', hrun, hkept⟩ := registerPlane_twice hknown
  rw [registerAllPlanes_of_listed hlist]
  exact ⟨d', bind_of_error hrun, hkept⟩

/-- Registering all planes stopped at the plane `q`, with those of `done` before it. -/
structure Stopped (d d' : Device σ) (e : Failure) (done : List UInt32) (q : UInt32) : Prop where
  refused : ∃ d₁, done.forM registerPlane d = .ok () d₁ ∧ registerPlane q d₁ = .error e d'
  planes : ∃ new : List Plane, new.map Plane.id = done ∧ d'.planes.Perm (new ++ d.planes)
  unchanged_iff : d'.planes = d.planes ↔ done = []
  again : ∀ (later : Device σ) (ids : List UInt32), later.planes = d'.planes →
    Kernel.planeIds later.session.kernel = .ok ids → (∃ r ∈ done, r ∈ ids) →
    succeeded (registerAllPlanes later) = false
  duplicate : ∀ (later : Device σ) (r : UInt32) (rest : List UInt32), later.planes = d'.planes →
    Kernel.planeIds later.session.kernel = .ok (r :: rest) → r ∈ done →
    ∃ later', registerAllPlanes later = .error (.error (.duplicatePlane r)) later' ∧
      later'.planes = later.planes

/-- If registering all planes fails, then the driver did not list them, or one plane failed. The planes
that were registered before that one stay, and the call cannot be repeated while they do. -/
theorem registerAllPlanes_stopped {e : Failure} (h : registerAllPlanes d = .error e d') :
    (∃ errno, Kernel.planeIds d.session.kernel = .error errno ∧ e = .error (.kernel errno) ∧ d' = d) ∨
      ∃ done q rest, Kernel.planeIds d.session.kernel = .ok (done ++ q :: rest) ∧
        Stopped d d' e done q := by
  -- The driver may refuse the list, and then nothing was registered.
  cases hlist : Kernel.planeIds d.session.kernel with
  | error errno =>
    rw [registerAllPlanes_of_unlisted hlist] at h
    cases h
    exact .inl ⟨errno, rfl, rfl, rfl⟩
  | ok ids =>
    rw [registerAllPlanes_of_listed hlist] at h
    -- The list is cut at the plane that was refused.
    obtain ⟨done, q, rest, d₁, rfl, hdone, hq⟩ := forM_eq_error h
    obtain ⟨-, new, hids, hperm⟩ := planes_of_all hdone
    rw [← planes_of_refused hq] at hperm
    -- All that speaks against a later call is that these planes are there.
    have hthere : ∀ r ∈ done, r ∈ d'.planes.map Plane.id := by
      intro r hr
      rw [(hperm.map Plane.id).mem_iff, List.map_append, hids]
      exact List.mem_append_left _ hr
    refine .inr ⟨done, q, rest, rfl, ⟨d₁, hdone, hq⟩, ⟨new, hids, hperm⟩, ⟨fun heq => ?_, ?_⟩, ?_, ?_⟩
    · -- As many planes as before leave room for no new one.
      have hlength := hperm.length_eq
      rw [heq, List.length_append, Nat.right_eq_add, List.length_eq_zero_iff] at hlength
      rw [← hids, hlength, List.map_nil]
    · rintro rfl
      -- The call for the last plane left the planes as they were.
      cases hdone
      exact planes_of_refused hq
    -- A plane that is there stops every later registration of a list that has it.
    · rintro later ids hplanes hlater ⟨r, hr, hlisted⟩
      exact not_succeeded_of_known hlater hlisted (hplanes ▸ hthere r hr)
    · intro later r rest' hplanes hlater hr
      exact duplicate_of_known hlater (hplanes ▸ hthere r hr)

def withoutBlob : Device Mock where
  session.kernel := leftBy <| (do
    let _ ← Mock.createPlane .primary
    let overlay ← Mock.createPlane .overlay
    let _ ← Mock.addProperty overlay "IN_FORMATS" .blob (Mock.objectId 0 Mock.blobTag).toUInt64 :
      MockM Unit) Mock.empty
  crtcs := [Mock.objectId 0 Mock.crtcTag]

/-- The first plane stays registered although the second fails, and even with the blob there the next
call fails with it. -/
theorem stopped_withoutBlob :
    let failed := withoutBlob.after .registerAllPlanes
    let repaired := failed.after (.drive fun m => leftBy (Mock.createBlob (List.replicate 24 0) m))
    registerAllPlanes withoutBlob = .error (.error (.kernel .einval)) failed ∧
      Stopped withoutBlob failed (.error (.kernel .einval)) [0xEE000000] 0xEE000001 ∧
      ∃ later, registerAllPlanes repaired = .error (.error (.duplicatePlane 0xEE000000)) later ∧
        later.planes = failed.planes := by
  intro failed repaired
  have hrun : registerAllPlanes withoutBlob = .error (.error (.kernel .einval)) failed :=
    eq_error_of_failure? (by decide +kernel)
  have hlist : Kernel.planeIds withoutBlob.session.kernel = .ok [0xEE000000, 0xEE000001] := by
    decide +kernel
  -- One plane was registered before the one without its blob.
  have hids : failed.planes.map Plane.id = [0xEE000000] := by decide +kernel
  rcases registerAllPlanes_stopped hrun with ⟨errno, hnone, -⟩ | ⟨done, q, rest, hdone, hstopped⟩
  · rw [hlist] at hnone
    cases hnone
  · obtain ⟨new, hnew, hperm⟩ := hstopped.planes
    have hsame : [0xEE000000].Perm done := by
      have hmap := hperm.map Plane.id
      rwa [hids, List.map_append, hnew, show withoutBlob.planes = [] from rfl, List.map_nil,
        List.append_nil] at hmap
    obtain rfl := List.perm_singleton.mp hsame.symm
    -- That fixes where the list was cut.
    rw [hlist] at hdone
    cases hdone
    refine ⟨hrun, hstopped, ?_⟩
    exact hstopped.duplicate repaired 0xEE000000 [0xEE000001] rfl (by decide +kernel) (.head _)

theorem not_forall_planes_of_failed : ¬ ∀ (d d' : Device Mock) (e : Failure),
    registerAllPlanes d = .error e d' → d'.planes = d.planes := by
  intro h
  have hrun : registerAllPlanes withoutBlob = .error (.error (.kernel .einval)) _ :=
    eq_error_of_failure? (by decide +kernel)
  have hplanes := congrArg List.length (h _ _ _ hrun)
  revert hplanes
  decide +kernel

end Device
end Scanout
