import Scanout.Proofs.Allocation.Course
import Scanout.Proofs.Allocation.Reuse
import Scanout.Proofs.Search.Rollback

/-! What a failed apply leaves in the request of its caller. Every step takes back what it has staged
itself, but nobody takes back the writes that switch planes off before a search. So they are still there
if the search fails, or the staging of what it has found. -/

namespace Scanout

variable {σ : Type}

namespace Plane

theorem bare_of_empty (p : Plane) (h : p.layer = none) : p.bare = p := by
  cases p
  cases h
  rfl

def NothingToWrite (planes : List Plane) : Prop :=
  ∀ p ∈ planes.head?, p.descriptor? WellKnown.fbId.name = none

instance (planes : List Plane) : Decidable (NothingToWrite planes) :=
  inferInstanceAs (Decidable (∀ p ∈ planes.head?, p.descriptor? WellKnown.fbId.name = none))

/-- The request was only added to, and it was added to unless there is nothing to write. -/
def Grown (planes : List Plane) (r r' : Request) : Prop :=
  r.Begins r' ∧ (r' = r ↔ NothingToWrite planes)

/-- Planes are switched off one after the other, and what was written stays. -/
theorem grown_stageDisabled (planes : List Plane) (r : Request) :
    Ensures (planes.forM stageDisabled) r (fun _ => Grown planes r) fun _ => Grown planes r := by
  cases planes with
  | nil => exact ⟨refl_of Request.Begins r, by simp [NothingToWrite]⟩
  | cons p planes =>
    -- The first plane decides: either it has the property to write, or nothing is written at all.
    rw [ensures_forM_cons, stageDisabled, ensures_bind]
    cases hfb : p.descriptor? WellKnown.fbId.name with
    | none =>
      have hzero : p.stageZero .fbId r = .error (.missingPlaneProperty p.id WellKnown.fbId.name) r := by
        rw [stageZero, hfb]
        rfl
      rw [ensures_of_eq_error hzero]
      exact ⟨refl_of Request.Begins r, by simp [NothingToWrite, hfb]⟩
    | some property =>
      -- The first write is made, and all others come after it.
      let r₁ := r.add p.id property.id 0
      have hzero : p.stageZero .fbId r = .ok () r₁ := by
        rw [stageZero, hfb]
        rfl
      have hlater : ∀ r', r₁.Begins r' → Grown (p :: planes) r r' := by
        intro r' hr'
        have hbegins : r.Begins r₁ := ⟨[⟨p.id, property.id, 0⟩], rfl⟩
        refine ⟨trans_of Request.Begins hbegins hr', ?_⟩
        -- A request that has grown is not the one it grew from.
        have hgrown : r' ≠ r := by
          rintro rfl
          have hsize := congrArg Request.size (hbegins.antisymm hr')
          simp [r₁, Request.add, Request.size] at hsize
        simp [hgrown, NothingToWrite, hfb]
      rw [ensures_of_eq_ok hzero]
      have hpipe : Ensures (p.stageZero .crtcId) r₁ (fun _ => r₁.Begins) fun _ => r₁.Begins := by
        unfold stageZero
        split
        · exact p.begins_write _ _ r₁
        · exact refl_of Request.Begins r₁
      have hrest : Stays Request.Begins (planes.forM stageDisabled) :=
        stays_forM fun q _ => q.begins_stageDisabled
      exact hpipe.mono (fun _ r₂ h₂ => ((hrest r₂).since h₂).imp hlater) fun _ r' h => hlater r' h

end Plane

namespace Device

def isSpareFor (d : Device σ) (o : OutputId) (p : Plane) : Bool :=
  p.layer.isNone || Allocation.isHeldBy d o p

/-- The planes that show nothing once the output is cleared are those a search may use. -/
theorem empty_planes_cleared (d : Device σ) (o : OutputId) :
    ((d.cleared o).planes.filter fun p => p.layer.isNone) =
      (d.planes.filter (d.isSpareFor o)).map Plane.bare := by
  simp only [cleared]
  induction d.planes with
  -- Plane by plane: held ones become spare, spare ones stay so, and others are never empty.
  | nil => rfl
  | cons p planes ih =>
    cases hheld : Allocation.isHeldBy d o p with
    | true => simp [isSpareFor, hheld, ih, Plane.bare]
    | false =>
      cases hlayer : p.layer with
      | none => simp [isSpareFor, hheld, hlayer, ih, p.bare_of_empty hlayer]
      | some id => simp [isSpareFor, hheld, hlayer, ih]

theorem isSpareFor_congr {d d' : Device σ} (h : d'.wiring = d.wiring) (o : OutputId) :
    d'.isSpareFor o = d.isSpareFor o := by
  funext p
  simp only [isSpareFor, Allocation.isHeldBy_eq, h]

end Device

namespace Allocation

open Device

/-- What switching the spare planes off leaves, also where it fails. -/
theorem grown_disables (d : Device σ) (o : OutputId) (r : Request) :
    Ensures (disables (d.cleared o)) r (fun _ => Plane.Grown (d.planes.filter (d.isSpareFor o)) r)
      fun _ => Plane.Grown (d.planes.filter (d.isSpareFor o)) r := by
  -- Whether there is anything to write is a matter of the first plane's descriptors.
  have hsame : ∀ planes : List Plane,
      Plane.NothingToWrite (planes.map Plane.bare) ↔ Plane.NothingToWrite planes := by
    intro planes
    cases planes with
    | nil => rfl
    | cons p planes =>
      simp only [Plane.NothingToWrite, List.map_cons, List.head?_cons, Option.mem_def, Option.some.injEq,
        forall_eq']
      rfl
  rw [disables, ensures_adaptExcept, empty_planes_cleared]
  have hleaves := Plane.grown_stageDisabled ((d.planes.filter (d.isSpareFor o)).map Plane.bare) r
  exact hleaves.imp fun r' h => ⟨h.1, h.2.trans (hsame _)⟩

/-- If all spare planes could be switched off, and yet nothing was written, there are none. -/
theorem taken_of_disables {d : Device σ} {o : OutputId} {r entry : Request}
    (hdisables : disables (d.cleared o) r = .ok () entry)
    (hnothing : Plane.NothingToWrite (d.planes.filter (d.isSpareFor o))) :
    ∀ p ∈ (d.cleared o).planes, p.layer.isSome := by
  have hstops := ((d.cleared o).adds_disables r entry hdisables).2
  rw [empty_planes_cleared] at hstops
  intro p hp
  -- A plane left empty would have been stopped through a property that the first one lacks.
  by_contra hfree
  have hspare : p ∈ (d.planes.filter (d.isSpareFor o)).map Plane.bare := by
    rw [← empty_planes_cleared]
    exact List.mem_filter.mpr ⟨hp, by simpa using hfree⟩
  cases hplanes : d.planes.filter (d.isSpareFor o) with
  | nil =>
    rw [hplanes] at hspare
    cases hspare
  | cons q planes =>
    rw [hplanes] at hstops hnothing
    have hfb := hstops q.bare List.mem_cons_self .fbId List.mem_cons_self
    rw [show q.bare.descriptor? WellKnown.fbId.name = none from hnothing q rfl] at hfb
    cases hfb

variable [Kernel σ] {flags : CommitFlags} {o : OutputId} {d : Device σ}

/-- A search that returns leaves the request as it was, and one that fails has added to it. It does not
fail where all planes are taken. -/
theorem begins_search (o : OutputId) (options : ApplyOptions) (started : HostTime) (f : Frame σ) :
    Ensures (search o flags options started) f (fun _ f' => f'.request = f.request)
      (fun _ f' => f.request.Begins f'.request ∧
        ((∀ p ∈ f.device.planes, p.layer.isSome) → f'.request = f.request)) := by
  cases hout : f.device.output? o with
  | none =>
    have hrun : search o flags options started f = .error (.fault (.staleOutput o)) f := by
      simp only [search, hout]
    rw [ensures_of_eq_error hrun]
    exact ⟨refl_of Request.Begins _, fun _ => rfl⟩
  | some out =>
    let s := sceneOf f.device out flags options started
    have hback := Search.handsBack_choose s f.device.planes [] ⟨f.device.session, f.request, none, []⟩
    unfold Search.Leaves Ensures at hback
    unfold Ensures
    rw [search_of_output hout]
    -- The search hands the request back, unless the driver broke it off.
    cases hrun : Search.choose s f.device.planes [] ⟨f.device.session, f.request, none, []⟩ with
    | ok _ st =>
      rw [hrun] at hback
      exact hback
    | error e st =>
      rw [hrun] at hback
      refine ⟨hback, fun htaken => ?_⟩
      -- With no free plane the search does not even ask.
      have hfree : ∀ p ∈ f.device.planes, p.isFreeFor s.output.crtcIndex = false := fun p hp => by
        simp [Plane.isFreeFor, Option.isNone_eq_false_iff.mpr (htaken p hp)]
      have hreturns := Search.choose_returns hfree [] ⟨f.device.session, f.request, none, []⟩
      exact ((ensures_of_eq_error hrun).mp hreturns).elim

omit [Kernel σ] in
/-- What is done with the answer of a search leaves no writes if it fails. -/
theorem settle_restores (o : OutputId) (free : Nat)
    (found : Option Search.Best × List (LayerId × UInt32)) (f : Frame σ) :
    Ensures (settle o free found) f (fun _ _ => True) fun _ f' => f'.request = f.request := by
  rw [settle, ensures_bind, Frame.ensures_onDevice]
  unfold Ensures
  -- Links touch no request, and what the last staging has written it takes back.
  cases connect o free found f.device with
  | error e d' => rfl
  | ok _ d' =>
    have hstage := stageCurrent_spec d' f.request
    change Ensures (do Frame.onRequest d'.stageCurrent; pure (found.1.map Search.Best.score))
      ⟨d', f.request⟩ (fun _ _ => True) fun _ f' => f'.request = f.request
    rw [ensures_bind, Frame.ensures_onRequest]
    exact hstage.mono (fun _ _ _ => trivial) fun _ _ h => h

/-- A full search that fails leaves the writes that switch the spare planes off, as far as they were
made, and whatever its unfinished walk had staged. -/
theorem grown_allocate (hd : d.WellFormed) (ho : (d.output? o).isSome) (options : ApplyOptions)
    (started : HostTime) (request : Request) :
    Ensures (allocate o flags options started) ⟨d, request⟩ (fun _ _ => True)
      (fun _ f' => Plane.Grown (d.planes.filter (d.isSpareFor o)) request f'.request) := by
  obtain ⟨out, hout⟩ := Option.isSome_iff_exists.mp ho
  obtain ⟨session, hclear, -⟩ := clear_eq hd hout
  have hleaves := grown_disables d o request
  rw [ensures_congr (allocate_of_clear hclear flags options started request), ensures_bind,
    Frame.ensures_onRequest]
  -- Switching off may fail half-way, and its writes stay.
  cases hdisables : disables (d.cleared o) request with
  | error e r =>
    rw [ensures_of_eq_error hdisables] at hleaves ⊢
    exact hleaves
  | ok _ entry =>
    rw [ensures_of_eq_ok hdisables] at hleaves ⊢
    obtain ⟨hbegins, hiff⟩ := hleaves
    rw [ensures_bind]
    refine (begins_search o options started ⟨{ d.cleared o with session }, entry⟩).mono ?_ ?_
    · intro found f₁ hrequest
      refine (settle_restores o _ found f₁).mono (fun _ _ _ => trivial) fun _ f' h => ?_
      rw [h, hrequest]
      exact ⟨hbegins, hiff⟩
    · rintro e f' ⟨hmore, htaken⟩
      refine ⟨trans_of Request.Begins hbegins hmore, fun heq => ?_, fun hnothing => ?_⟩
      · -- The search has only added to the request, so nothing was written before it either.
        rw [heq] at hmore
        exact hiff.mp (hbegins.antisymm hmore)
      · rw [htaken (taken_of_disables hdisables hnothing), hiff.mpr hnothing]

/-- What an apply leaves in the request that fails. All that was there before is still at its beginning.
Nothing is added if the apply fails before it has reported a decision, that is in the attempt to keep the
allocation; nor if there is nothing to switch off for a search, or the first of the spare planes lacks the
property for it. In all other cases writes stay in the request. -/
theorem request_of_failed (hd : d.Reachable) (o : OutputId)
    (flags : CommitFlags) (options : ApplyOptions) (request : Request) {e : Failure} {f : Frame σ}
    (h : Frame.apply o flags options ⟨d, request⟩ = .error e f) :
    f.request.rollback request.cursor = request ∧
      (f.request = request ↔ f.device.session.decisions = d.session.decisions ∨
        Plane.NothingToWrite (d.planes.filter (d.isSpareFor o))) := by
  have hcourse := apply_course d o flags options request
  rw [ensures_of_eq_error h] at hcourse
  rcases hcourse with ⟨-, hbides, hrequest⟩ | ⟨out, changed, d₁, -, -, hbides, hreuse⟩ |
    ⟨out, changed, outcome, d₁, d₂, started, hdecided, -, hsearch⟩
  -- The apply left before its decision, so with the request it was given.
  · have hquiet : f.device.session.decisions = d.session.decisions := hbides.reports.decisions
    simp [hrequest, hquiet]
  -- It left while trying to reuse, which takes its own writes back.
  · have hfails := (ensures_of_eq_error hreuse).mp (tryReuse_fails ⟨d₁, request⟩)
    have hrelinks : Stays (Frame.Within Relinks) (tryReuse (σ := σ) flags) :=
      Frame.stays_tryReuse (stays_testCommit fun _ _ _ => relinks_session)
    have hsilent := (ensures_of_eq_error hreuse).mp (hrelinks ⟨d₁, request⟩)
    have hquiet : f.device.session.decisions = d.session.decisions :=
      hsilent.reports.decisions.trans hbides.reports.decisions
    simp [hfails.1, hquiet]
  · -- The decision was reported, and only the search has been working on the request.
    have hd₂ := hdecided.decides.wellFormed hd.wellFormed
    have hleaves := (ensures_of_eq_error hsearch).mp
      (grown_allocate hd₂ hdecided.isSome_output options started request)
    have hsilent := (ensures_of_eq_error hsearch).mp (relinks_allocate options started ⟨d₂, request⟩)
    have hreported : f.device.session.decisions ≠ d.session.decisions := by
      have hdecisions := hsilent.reports.decisions.trans hdecided.decides.reports.decisions
      simp [hdecisions]
    have hplanes : d₂.planes = d.planes := congrArg Wiring.planes hdecided.decides.wiring
    rw [isSpareFor_congr hdecided.decides.wiring, hplanes] at hleaves
    exact ⟨hleaves.1.rollback, by simpa only [hreported, false_or] using hleaves.2⟩

def ownWrite : Request := ⟨[⟨1, 2, 3⟩]⟩

theorem reachable_breakdown : (threeShown.after breakdown).Reachable := by
  have hpermits : threeShown.Permits breakdown := trivial
  exact reachable_threeShown.after hpermits

theorem apply_breakdown : ∃ f : Frame Scripted,
    Frame.apply .first {} {} ⟨threeShown.after breakdown, ownWrite⟩ = .error (.error (.kernel .eio)) f ∧
      f.device.session.decisions ≠ (threeShown.after breakdown).session.decisions ∧
      f.request.size = 12 :=
  ⟨_, eq_error_of_failure? (by decide +kernel), by decide +kernel, by decide +kernel⟩

/-- The driver breaks down in the search. By then the planes have been switched off. -/
theorem request_of_breakdown : ∃ f : Frame Scripted,
    Frame.apply .first {} {} ⟨threeShown.after breakdown, ownWrite⟩ = .error (.error (.kernel .eio)) f ∧
      f.request.rollback 1 = ownWrite ∧ f.request ≠ ownWrite := by
  obtain ⟨f, happly, hdecided, -⟩ := apply_breakdown
  obtain ⟨hback, hiff⟩ := request_of_failed reachable_breakdown .first {} {} ownWrite happly
  have hspare : ¬ Plane.NothingToWrite
      ((threeShown.after breakdown).planes.filter ((threeShown.after breakdown).isSpareFor .first)) := by
    decide +kernel
  exact ⟨f, happly, hback, fun hsame => (hiff.mp hsame).elim hdecided hspare⟩

/-- An apply that fails may leave the request of its caller with more writes. -/
theorem not_forall_request_of_failed :
    ¬ ∀ (d : Device Scripted) (o : OutputId) (request : Request) (e : Error) (f : Frame Scripted),
      d.Reachable → Frame.apply o {} {} ⟨d, request⟩ = .error (.error e) f →
      f.request.writes = request.writes := by
  intro h
  obtain ⟨f, happly, -, hsize⟩ := apply_breakdown
  have hwrites := h _ .first ownWrite _ f reachable_breakdown happly
  rw [Request.size, hwrites] at hsize
  cases hsize

end Allocation

end Scanout
