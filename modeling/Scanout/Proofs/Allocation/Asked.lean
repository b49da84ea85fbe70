import Scanout.Proofs.Allocation.Effect
import Scanout.Proofs.Allocation.Others
import Scanout.Proofs.Search.Tour

namespace Scanout

variable {σ : Type}

namespace Recorded

variable [Kernel σ]

def commits (flags : CommitFlags) (t : Search.Trial) : List (Request × CommitFlags × Except Errno Unit) :=
  entries t.request flags t.interruptions t.reply

/-- The record tells all questions that were asked, with their commits. -/
theorem tracks (flags : CommitFlags) : Search.Tracks flags fun (k : Recorded σ) ts k' =>
    k'.log = (ts.flatMap (commits flags)).reverse ++ k.log where
  nil _ := rfl
  append h h' := by
    rw [h', h, List.flatMap_append, List.reverse_append, List.append_assoc]
  now _ := rfl
  test k path r := by
    -- The log of a recorded driver holds each interruption as a commit of its own.
    obtain ⟨-, -, interruptions, hinterrupted, hlog⟩ := test_spec k r flags
    refine ⟨⟨path, r, interruptions, (Kernel.test k r flags).1, hinterrupted⟩, rfl, rfl, rfl, ?_⟩
    simpa [commits] using hlog

end Recorded

namespace Device

def idleWrites (d : Device σ) : List Write :=
  (d.planes.filter fun p => p.layer.isNone).flatMap Plane.disabledWrites

end Device

namespace Allocation

open Device

/-- What is staged can be looked at without a record of the driver. -/
theorem tracks_nothing [Kernel σ] (flags : CommitFlags) :
    Search.Tracks flags fun (_ : σ) _ _ => True where
  nil _ := trivial
  append _ _ := trivial
  now _ := trivial
  test k path r := ⟨⟨path, r, [], (Kernel.test k r flags).1, by simp⟩, rfl, rfl, rfl, trivial⟩

section Asking

variable [Kernel σ] {d : Device σ} {o : OutputId} {out : Output} {flags : CommitFlags}
  {A : σ → List Search.Trial → σ → Prop} (hA : Search.Tracks flags A)
include hA

/-- What a search asks is a tour of the planes, and it takes note only of layers of the output. -/
theorem search_asks (hout : d.output? o = some out) (options : ApplyOptions) (started : HostTime)
    (entry : Request) :
    let asks := fun d' : Device σ =>
      ∃ ts, Search.Tour (sceneOf d out flags options started) d.planes [] entry ts ∧
        A d.session.kernel ts d'.session.kernel
    Ensures (search o flags options started) ⟨d, entry⟩
      (fun found f' => asks f'.device ∧ ∀ h ∈ found.2, h.1 ∈ out.layers) (fun _ f' => asks f'.device) := by
  intro asks
  let s := sceneOf d out flags options started
  have h : Search.Makes A s (Search.Tour s d.planes [] entry) (Search.choose s d.planes [])
      ⟨d.session, entry, none, []⟩ := Search.makes_choose hA rfl
  have hscene : ({ layers := d.layers, output := out, flags, started
                   timeout := (Kernel.timebase d.session.kernel).duration
                     (options.searchTime d.config) } : Search.Scene) = s := rfl
  -- The search is run on the empty path, where the tour begins.
  unfold Search.Makes Ensures at h
  unfold Ensures search
  simp only [hout]
  rw [hscene]
  split at h
  · rename_i st hrun
    rw [hrun]
    refine ⟨h.2.trials, fun x hx => ?_⟩
    -- There were no hints before the search.
    exact (h.2.hints x (List.mem_reverse.mp hx)).resolve_left fun hx => nomatch hx
  · rename_i e st hrun
    rw [hrun]
    exact h.trials

omit hA in
/-- The layers that a search gives planes belong to the output. -/
theorem search_owns (hd : d.WellFormed) (hout : d.output? o = some out) (options : ApplyOptions)
    (started : HostTime) (entry : Request) :
    Ensures (search o flags options started) ⟨d, entry⟩
      (fun found f' => (∃ session, f'.device = { d with session }) ∧
        ∀ x ∈ (found.1.map fun b => assignments b.path).getD [], d.Owns o x.2)
      (fun _ f' => ∃ session, f'.device = { d with session }) := by
  have hs := setting_of_notes (s := sceneOf d out flags options started)
    (notes_asks d.session.kernel) d.session
  have hstart : Session.Reports [] d.session d.session := refl_of (Session.Reports []) _
  refine (search_spec hout flags options started hs ⟨⟨.refl, .refl⟩, hstart⟩ entry).mono ?_ ?_
  · rintro found f' ⟨-, ⟨session, hsession, -⟩, hbest, -⟩
    refine ⟨⟨session, hsession⟩, fun x hx => ?_⟩
    cases hb : found.1 with
    | none => simp [hb] at hx
    | some b =>
      rw [hb, Option.map_some, Option.getD_some] at hx
      -- A layer on the best path was allowed there as a layer of the output.
      obtain ⟨c, hc, -, hid⟩ := Search.mem_assignments.mp hx
      obtain ⟨earlier, l, -, hplaced⟩ := (hbest b hb).2.legal.exists_placed hc hid
      exact hd.owns hout hplaced.mem
  · rintro e f' ⟨session, hsession, -⟩
    exact ⟨session, hsession⟩

/-- What a full search asks is a tour on top of the request, with all planes switched off that may be
used. However it ends, the other outputs are left alone. -/
theorem allocate_asks (hd : d.WellFormed) (hout : d.output? o = some out) (options : ApplyOptions)
    (started : HostTime) (request : Request) :
    let asks := fun d' : Device σ => LeavesOthers o d d' ∧
      ∃ ts, Search.Tour (sceneOf (d.cleared o) out flags options started) (d.cleared o).planes []
          (request.append (d.cleared o).idleWrites) ts ∧
        A d.session.kernel ts d'.session.kernel
    Ensures (allocate o flags options started) ⟨d, request⟩ (fun _ f' => asks f'.device)
      (fun _ f' => asks f'.device) := by
  intro asks
  obtain ⟨session₁, hclear, hkernel, -⟩ := clear_eq hd hout
  have hd₁ : ({ d.cleared o with session := session₁ } : Device σ).WellFormed :=
    (wellFormed_cleared hd (Option.isSome_of_eq_some hout)).of_talks ⟨session₁, rfl⟩
  have hleaves : ∀ session, LeavesOthers o d { d.cleared o with session } := fun session =>
    trans_of (LeavesOthers o) (confined_cleared d o).toLeavesOthers (leavesOthers_session _ session)
  have hscene := sceneOf_session (d := d.cleared o) hkernel out flags options started
  rw [ensures_congr (allocate_of_clear hclear flags options started request)]
  -- If the planes cannot be switched off, nothing is asked at all.
  simp only [ensures_bind, Frame.ensures_onRequest]
  cases hdisables : disables (d.cleared o) request with
  | error e entry =>
    rw [ensures_of_eq_error hdisables]
    exact ⟨hleaves session₁, [], .nil _ _ _ _, hkernel ▸ hA.nil _⟩
  | ok _ entry =>
    rw [ensures_of_eq_ok hdisables]
    obtain ⟨rfl, -⟩ := (d.cleared o).adds_disables request entry hdisables
    have hout₁ : ({ d.cleared o with session := session₁ } : Device σ).output? o = some out := hout
    have hasks := search_asks hA hout₁ options started (request.append (d.cleared o).idleWrites)
    have hsearch := hasks.and (search_owns hd₁ hout₁ options started _)
    rw [hscene] at hsearch
    simp only [hkernel] at hsearch
    -- The search is followed for what it asks and for what it links at once.
    refine hsearch.mono ?_ ?_
    · rintro ⟨best, hints⟩ ⟨d₂, request₂⟩ ⟨⟨hasks, hhints⟩, ⟨session, rfl⟩, hlinks⟩
      have howned : ∀ h ∈ hints, ({ d.cleared o with session } : Device σ).Owns o h.1 :=
        fun h hh => hd₁.owns hout₁ (hhints h hh)
      -- What is staged in the end is not asked about any more.
      apply (confined_settle (d := { d.cleared o with session }) howned hlinks request₂).imp
      intro f' hf'
      refine ⟨trans_of (LeavesOthers o) (hleaves session) hf'.toLeavesOthers, ?_⟩
      rw [hf'.kernel]
      exact hasks
    · rintro e ⟨d₂, request₂⟩ ⟨hasks, session, rfl⟩
      exact ⟨hleaves session, hasks⟩

end Asking

/-- Every commit that a full search submits holds the request as it was, the switching off of the free
planes and what the path stages on which the search stands then, in the order of visits. Nothing that
was tried before is in it, and a search that returns leaves the request as it found it. -/
theorem commits_of_allocate [Kernel σ] {d : Device (Recorded σ)} {o : OutputId} {out : Output}
    (hd : d.WellFormed) (hout : d.output? o = some out) (flags : CommitFlags)
    (options : ApplyOptions) (started : HostTime) (request : Request) :
    let s := sceneOf (d.cleared o) out flags options started
    let f := leftBy (allocate o flags options started ⟨d, request⟩)
    (∃ ts, Search.Tour s (d.cleared o).planes [] (request.append (d.cleared o).idleWrites) ts ∧
      f.device.session.kernel.log =
        (ts.flatMap (Recorded.commits flags)).reverse ++ d.session.kernel.log ∧
      ∀ t ∈ ts, (t.path.reverse.map Search.Choice.plane <+: (d.cleared o).planes) ∧
        t.request.writes = request.writes ++ (d.cleared o).idleWrites ++
          t.path.reverse.flatMap (Search.Choice.writes s)) ∧
    ∀ (s : Search.Scene) (planes : List Plane) (path : Search.Path) (st st' : Search.State σ),
      Search.choose s planes path st = .ok () st' → st'.request = st.request := by
  intro s f
  constructor
  · have hasks := (allocate_asks (Recorded.tracks flags) hd hout options started request).leftBy
    obtain ⟨-, ts, htour, hlog⟩ := hasks
    refine ⟨ts, htour, hlog, fun t ht => ?_⟩
    obtain ⟨hrequest, -, hvisits⟩ := htour.says_entry t ht
    refine ⟨hvisits, ?_⟩
    rw [hrequest, Search.Path.staged, Request.append, Request.append]
  -- The second half holds of any search, whatever state it was called in.
  · intro s planes path st st' hrun
    have hmakes : Search.Makes _ s (Search.Tour s planes path st.request)
        (Search.choose s planes path) st := Search.makes_choose (tracks_nothing s.flags) rfl
    unfold Search.Makes at hmakes
    rw [ensures_of_eq_ok hrun] at hmakes
    exact hmakes.1

/-- The search of a second apply submits something, and all of it reads off the paths. -/
theorem commits_of_movedLayers :
    ∃ s ts, ts ≠ [] ∧
      (leftBy (allocate .first {} {} ⟨0⟩ ⟨movedLayers, {}⟩)).device.session.kernel.log =
        (ts.flatMap (Recorded.commits {})).reverse ++ movedLayers.session.kernel.log ∧
      ∀ t ∈ ts, t.request.writes = (movedLayers.cleared .first).idleWrites ++
        t.path.reverse.flatMap (Search.Choice.writes s) := by
  -- The state is one the operations lead to, and the run did ask something.
  have hreachable : movedLayers.Reachable :=
    ⟨⟨.threeOverlays, []⟩, {}, [1], _, run_afterAll (by decide +kernel)⟩
  have hsome : (movedLayers.output? .first).isSome := by decide +kernel
  have hasked : (leftBy (allocate .first {} {} ⟨0⟩ ⟨movedLayers, {}⟩)).device.session.kernel.log.length ≠
      movedLayers.session.kernel.log.length := by decide +kernel
  obtain ⟨out, hout⟩ := Option.isSome_iff_exists.mp hsome
  obtain ⟨⟨ts, -, hlog, hwrites⟩, -⟩ :=
    commits_of_allocate hreachable.wellFormed hout {} {} ⟨0⟩ {}
  refine ⟨sceneOf (movedLayers.cleared .first) out {} {} ⟨0⟩, ts, ?_, hlog, fun t ht => ?_⟩
  -- A run that asked nothing would have left the log as it was.
  · rintro rfl
    rw [hlog] at hasked
    simp at hasked
  · simpa only [List.nil_append] using (hwrites t ht).2

end Allocation

end Scanout
