import Scanout.Proofs.Allocation.Budget
import Scanout.Proofs.Allocation.Failing
import Scanout.Proofs.Search.Expiry

/-! An apply whose search runs out of time. It returns all the same: what its search has found by then is
linked, or the path that the search stood on with all planes to come left empty, if that is better. -/

namespace Scanout

variable {σ : Type}

namespace Device

def ShowsNoOther (d : Device σ) (o : OutputId) : Prop :=
  ∀ q ∈ d.planes, ∀ id l, q.layer = some id → d.layer? id = some l → l.output = o

end Device

namespace Allocation

open Device

variable [Kernel σ] {flags : CommitFlags} {o : OutputId} {options : ApplyOptions} {d : Device σ}
  {request : Request}

def reachDecision (o : OutputId) (flags : CommitFlags) : FrameM σ (HostTime × ReuseOutcome) := do
  let started ← Frame.now
  let out ← Frame.onDevice (Device.output o)
  Frame.emit (.applyBegin o out.crtc out.layers.length started)
  let orderChanged ← Frame.onDevice (do updatePriorities; refreshFramebuffers o; updateOrder o)
  let outcome ← decideReuse o flags orderChanged
  Frame.emit (.reuse o outcome)
  pure (started, outcome)

theorem apply_eq_reachDecision (o : OutputId) (flags : CommitFlags) (options : ApplyOptions) :
    (Frame.apply o flags options : FrameM σ Unit) = (do
      let (started, outcome) ← reachDecision o flags
      carryOut o flags options started outcome) := by
  simp only [apply_eq, reachDecision, bind_assoc, pure_bind]

def ComesToSearch (o : OutputId) (flags : CommitFlags) (options : ApplyOptions) (f : Frame σ)
    (s : Search.Scene) (planes : List Plane) (st : Search.State σ) : Prop :=
  ∃ started outcome f₁ d₂ d₃ entry out,
    reachDecision o flags f = .ok (started, outcome) f₁ ∧ outcome ≠ .accepted ∧
      resetReuse o f₁.device = .ok () d₂ ∧ clear o d₂ = .ok () d₃ ∧
      disables d₃ f₁.request = .ok () entry ∧ d₃.output? o = some out ∧
      s = sceneOf d₃ out flags options started ∧ planes = d₃.planes ∧
      st = ⟨d₃.session, entry, none, []⟩

/-- At the decision all that matters is as before, and the output is there. -/
theorem reachDecision_spec (d : Device σ) (request : Request) :
    Ensures (reachDecision o flags) ⟨d, request⟩
      (fun decision f => Decides flags o decision.2 d f.device ∧ (d.output? o).isSome)
      (fun _ _ => True) := by
  have htest : ∀ request, Stays (Bides flags) (onSession (Session.testCommit (σ := σ) request flags)) :=
    fun request => stays_bides (quiet_onSession (Session.silent_testCommit request flags))
      (changes_testCommit request)
  refine ensures_until_decision (R := Bides flags) bides_now (fun _ he => bides_emit he) bides_prepare
    (fun _ _ _ => trivial) ?_
  intro out started changed d₃ hout _ h₃
  have ho : (d.output? o).isSome := Option.isSome_of_eq_some hout
  -- The reuse is decided on the prepared device.
  rw [ensures_bind]
  refine (stays_decideReuse htest o changed ⟨d₃, request⟩).mono (fun outcome f₄ h₄ => ?_)
    fun _ _ _ => trivial
  have h₄ : Bides flags d f₄.device := trans_of (Bides flags) h₃ h₄
  -- What is told last is the decision.
  have htold : Decides flags o outcome f₄.device { f₄.device with session :=
      { f₄.device.session with trace := .reuse o outcome :: f₄.device.session.trace } } :=
    ⟨keeps_session _ _, .single (.talk _ _ (.rest _)), [.reuse o outcome], rfl, rfl⟩
  exact ⟨.of_bides h₄ htold, ho⟩

/-- A search starts on the cleared device, with the decision told and the driver only asked. What follows
it is the end of the apply. -/
theorem ComesToSearch.exists_cleared (hd : d.WellFormed) {s : Search.Scene} {planes : List Plane}
    {st : Search.State σ} (h : ComesToSearch o flags options ⟨d, request⟩ s planes st) :
    ∃ started outcome d₂ r session entry out, Decides flags o outcome d d₂ ∧
      d₂.output? o = some out ∧ clear o d₂ = .ok () { d₂.cleared o with session } ∧
      session.kernel = d₂.session.kernel ∧ Session.Reports [] d₂.session session ∧
      disables (d₂.cleared o) r = .ok () entry ∧
      s = sceneOf { d₂.cleared o with session } out flags options started ∧
      planes = (d₂.cleared o).planes ∧ st = ⟨session, entry, none, []⟩ ∧
      Frame.apply o flags options ⟨d, request⟩ =
        (do
          let score ← allocate o flags options started
          conclude o outcome started score) ⟨d₂, r⟩ := by
  obtain ⟨started, outcome, f₁, d₂, d₃, entry, out, hdecision, hne, hreset, hclear, hentry, hout, rfl, rfl,
    rfl⟩ := h
  obtain ⟨hdecides, ho⟩ := (ensures_of_eq_ok hdecision).mp (reachDecision_spec d request)
  -- The output is still there, since no step up to here removes one.
  have ho₁ : (f₁.device.output? o).isSome := by
    rw [isSome_output_of_changed (hdecides.changed o)]
    exact ho
  have hbides : Bides flags f₁.device d₂ :=
    ⟨(ensures_of_eq_ok hreset).mp (resetReuse_spec ho₁), (changes_resetReuse o).of_eq_ok hreset⟩
  have hdecides₂ := hdecides.bides hbides
  have hd₂ := hdecides₂.wellFormed hd
  obtain ⟨out₂, hout₂⟩ : ∃ out, d₂.output? o = some out := by
    rwa [← Option.isSome_iff_exists, isSome_output_of_changed (hdecides₂.changed o)]
  obtain ⟨session, hclear₂, hkernel, hreports⟩ := clear_eq hd₂ hout₂
  -- There is one outcome of clearing, so both descriptions are of one device.
  rw [hclear₂] at hclear
  cases hclear
  obtain rfl := Option.some.inj (hout₂.symm.trans hout)
  refine ⟨started, outcome, d₂, f₁.request, session, entry, out₂, hdecides₂, hout₂, hclear₂, hkernel,
    hreports, hentry, rfl, rfl, rfl, ?_⟩
  rw [apply_eq_reachDecision, bind_of_ok hdecision]
  -- The reuse was not accepted, so the allocation follows.
  refine (congrFun (if_neg hne) f₁).trans ?_
  exact bind_of_ok (Frame.onDevice_of_ok hreset)

/-- If the search of an apply finds something, or nothing, then the apply links that and returns, unless
some plane shows the layer of another output. -/
theorem apply_of_choose (hd : d.WellFormed) {s : Search.Scene} {planes : List Plane}
    {st st' : Search.State σ} (h : ComesToSearch o flags options ⟨d, request⟩ s planes st)
    (hchoose : Search.choose s planes [] st = .ok () st') (hother : d.ShowsNoOther o) :
    ∃ f, Frame.apply o flags options ⟨d, request⟩ = .ok () f ∧
      ∀ x, x ∈ f.device.wiring.links o ↔ ∃ b, st'.best = some b ∧ x ∈ assignments b.path := by
  obtain ⟨started, outcome, d₂, r, session, entry, out, hdecides, hout, hclear, -, hreports, hentry, rfl,
    rfl, rfl, happly⟩ := h.exists_cleared hd
  -- The search of the apply is the given one.
  have hd₂ := hdecides.wellFormed hd
  have hout₂ : ({ d₂.cleared o with session } : Device σ).output? o = some out := hout
  have hsearch := search_of_choose hout₂ hchoose
  obtain ⟨d', hallocated, hallocate⟩ := allocate_of_search hd₂ hout hclear hreports hentry hsearch
  rw [bind_congr_run hallocate, bind_assoc] at happly
  -- What was linked is staged once more, and only the layer of another output could stop that.
  cases hstage : d'.stageCurrent entry with
  | ok _ r' =>
    rw [bind_of_ok (Frame.onRequest_of_ok hstage), pure_bind] at happly
    have hlive : (d'.output? o).isSome := by
      rw [isSome_output_of_changed (hallocated.scene.changed o), hout]
      rfl
    have hconclude := conclude_spec ⟨d', r'⟩ hlive outcome started (st'.best.map Search.Best.score)
    cases hend : conclude o outcome started (st'.best.map Search.Best.score) ⟨d', r'⟩ with
    | ok _ f =>
      -- Concluding marks layers clean, which changes no link.
      rw [ensures_of_eq_ok hend] at hconclude
      refine ⟨f, happly.trans hend, fun x => ?_⟩
      rw [hconclude.1.wiring]
      exact hallocated.links x
    | error e f =>
      rw [ensures_of_eq_error hend] at hconclude
      exact hconclude.elim
  | error e r' =>
    -- A layer of another output would not go with its plane, but there is none.
    have hstop := hallocate.trans (bind_of_error (Frame.onRequest_of_error hstage))
    have hchanges : Stays (Frame.Within (Changes (Kernel.Asks flags) Layer.SameContent))
        (allocate (σ := σ) o flags options started) :=
      changes_allocate (fun _ _ _ h => h.1) o options started
    have hlaid : Laid flags o (fun _ _ => True) r entry d₂ d' :=
      ⟨(ensures_of_eq_error hstop).mp (hchanges ⟨d₂, r⟩), hentry, _, _, hout, rfl, hallocated⟩
    obtain ⟨p, hp, hunfit⟩ := hlaid.exists_unfit hd₂ hstage
    have hplanes : d₂.planes = d.planes := congrArg Wiring.planes hdecides.wiring
    obtain ⟨id, l, hlayer, hl, hne, -⟩ := hunfit.of_changes hdecides.changes
    exact absurd (hother p (hplanes ▸ hp) id l hlayer hl) hne

/-- A search of an apply begins on layers that are all different, and on a driver that was only asked. -/
theorem ComesToSearch.begins (hd : d.WellFormed) {s : Search.Scene} {planes : List Plane}
    {st : Search.State σ} (h : ComesToSearch o flags options ⟨d, request⟩ s planes st) :
    s.flags = flags ∧ s.output.layers.Nodup ∧
      Relation.ReflTransGen (Kernel.Asks flags) d.session.kernel st.session.kernel := by
  obtain ⟨started, outcome, d₂, r, session, entry, out, hdecides, hout, -, hkernel, -, -, rfl, rfl, rfl,
    -⟩ := h.exists_cleared hd
  refine ⟨rfl, ?_, ?_⟩
  -- No layer is listed twice, so none is offered twice.
  · have hnodup : (out.layers : Multiset LayerId).Nodup := by
      apply (hdecides.wellFormed hd).wiring.layers_nodup o _ out.compositionLayer
      simp [wiring, hout, Output.members]
    exact Multiset.coe_nodup.mp hnodup
  · show Relation.ReflTransGen (Kernel.Asks flags) d.session.kernel session.kernel
    rw [hkernel]
    exact hdecides.changes.kernel fun _ _ => .single

open Search in
/-- Once the search of an apply sees at some moment that its time is up, it asks the driver for nothing but
the time, each plane that it has a layer for tells the deadline, and it comes to its end. Then the apply
links what is best and returns, unless some plane shows the layer of another output. That no question has
failed before is said by the search's having come to that moment. -/
theorem apply_of_late (hd : d.WellFormed) (hrises : Kernel.Rises flags d.session.kernel)
    {s : Scene} {all : List Plane} {st₀ : State σ}
    (hsearch : ComesToSearch o flags options ⟨d, request⟩ s all st₀) {planes : List Plane} {path : Path}
    {p : Plane} {cursor : Nat} {id : LayerId} {ids : List LayerId} {tasks : List Task} {st : State σ}
    (hmoves : Moves s ⟨[.visit all []], st₀⟩ ⟨.offer planes path p cursor (id :: ids) :: tasks, st⟩)
    {l : Layer} (candidate : Candidate s path p id l) (late : s.timeout ≤ st.elapsed s) :
    WindsUp s path (p :: planes) ⟨tasks, st.looked.told (.deadline p.id (st.elapsed s))⟩ ∧
      (d.ShowsNoOther o → ∃ f, Frame.apply o flags options ⟨d, request⟩ = .ok () f ∧
        ∀ x, x ∈ f.device.wiring.links o ↔
          ∃ b, s.keep (path.leaveEmpty (p :: planes)) st.best = some b ∧ x ∈ assignments b.path) := by
  obtain ⟨hflags, hnodup, hasks⟩ := hsearch.begins hd
  have hrises' : Kernel.Rises s.flags st.session.kernel := by
    have hlater := hmoves.advances.asks
    rw [hflags] at hlater ⊢
    -- The search winds up from the late check on, and so comes to an end.
    exact hrises.later (hasks.trans hlater)
  have hwinds := windsUp_of_late (hmoves.stands (stands_start s all)) hnodup hrises' candidate late
  refine ⟨hwinds, fun hother => ?_⟩
  obtain ⟨st', hends, hbest⟩ := hwinds.ends
  -- The moves to the deadline and those from it are one run of the search.
  have hrun := moves_iff_rest.mp ((hmoves.tail (.late candidate late)).trans hends)
  obtain ⟨_, st'', hchoose, hnil⟩ := bind_eq_ok hrun
  obtain rfl : st'' = st' := by
    cases hnil
    rfl
  obtain ⟨f, happly, hlinks⟩ := apply_of_choose hd hsearch hchoose hother
  -- What is linked in the end is the best path it has kept.
  refine ⟨f, happly, fun x => ?_⟩
  rw [hlinks, hbest]
  rfl

/-- Nothing is assigned to planes that are left empty. -/
theorem assignments_leaveEmpty (planes : List Plane) (path : Search.Path) :
    assignments (path.leaveEmpty planes) = assignments path := by
  induction planes generalizing path with
  | nil => rfl
  | cons p planes ih =>
    refine (ih _).trans ?_
    simp [assignments]

def slowDecided : Frame Scripted := leftBy (reachDecision .first {} ⟨slowLayers, {}⟩)

def slowCleared : Device Scripted :=
  leftBy (clear .first (leftBy (resetReuse .first slowDecided.device)))

def slowOutput : Output := (slowCleared.output? .first).get (by decide +kernel)

def slowScene : Search.Scene := sceneOf slowCleared slowOutput {} ⟨some 2⟩ ⟨0⟩

def slowStart : Search.State Scripted :=
  ⟨slowCleared.session, leftBy (disables slowCleared slowDecided.request), none, []⟩

theorem comesToSearch_slowLayers :
    ComesToSearch .first {} ⟨some 2⟩ ⟨slowLayers, {}⟩ slowScene slowCleared.planes slowStart := by
  have hdecision : reachDecision .first {} ⟨slowLayers, {}⟩ =
      .ok (⟨0⟩, .skipped .layersChanged) slowDecided := eq_ok_of_answer? (by decide +kernel)
  have hreset : resetReuse .first slowDecided.device = .ok () _ :=
    eq_ok_of_succeeded (by decide +kernel)
  -- The four steps up to the search, each evaluated.
  have hclear : clear .first (leftBy (resetReuse .first slowDecided.device)) = .ok () slowCleared :=
    eq_ok_of_succeeded (by decide +kernel)
  have hentry : disables slowCleared slowDecided.request = .ok () _ :=
    eq_ok_of_succeeded (by decide +kernel)
  have hout : slowCleared.output? .first = some slowOutput := (Option.some_get _).symm
  have hne : ReuseOutcome.skipped .layersChanged ≠ .accepted := by decide
  exact ⟨⟨0⟩, .skipped .layersChanged, slowDecided, _, slowCleared, _, slowOutput, hdecision, hne, hreset,
    hclear, hentry, hout, rfl, rfl, rfl⟩

def slowPlane : Plane := slowCleared.planes.head (by decide +kernel)

def slowNext : Plane := slowCleared.planes.tail.head (by decide +kernel)

def slowLayer (n : UInt32) : LayerId := ⟨⟨n, 0⟩⟩

theorem planes_slowCleared :
    slowCleared.planes = slowPlane :: slowNext :: slowCleared.planes.tail.tail := by
  rw [slowNext, List.cons_head_tail, slowPlane, List.cons_head_tail]

theorem layers_slowScene :
    slowScene.output.layers = [slowLayer 0, slowLayer 1, slowLayer 2] := by decide +kernel

def slowShown : Layer := (slowScene.layer? (slowLayer 0)).get (by decide +kernel)

def slowAccepted : Search.State Scripted :=
  leftBy (Search.tryStaged slowScene [] slowPlane slowStart.request.cursor (fun _ => throw .stuck)
    (slowLayer 0) slowShown slowStart.looked)

open Search in
/-- After two ticks the first layer is on the first plane, and the third one, which is the first that may
stand on the second plane, comes too late. -/
theorem late_slowScene : ∃ l tasks cursor st,
    Moves slowScene ⟨[.visit slowCleared.planes []], slowStart⟩
      ⟨.offer slowCleared.planes.tail.tail [⟨slowPlane, some (slowLayer 0)⟩] slowNext cursor [slowLayer 2] ::
        tasks, st⟩ ∧
    Candidate slowScene [⟨slowPlane, some (slowLayer 0)⟩] slowNext (slowLayer 2) l ∧
    slowScene.timeout ≤ st.elapsed slowScene ∧ st.best = none := by
  obtain ⟨l, hlate⟩ : ∃ l,
      Candidate slowScene [⟨slowPlane, some (slowLayer 0)⟩] slowNext (slowLayer 2) l :=
    exists_candidate (by decide +kernel)
  have hfirst : Candidate slowScene [] slowPlane (slowLayer 0) slowShown :=
    ⟨(Option.some_get _).symm, by decide +kernel, by decide +kernel⟩
  have hpasses : ∀ descend,
      tryStaged slowScene [] slowPlane slowStart.request.cursor descend (slowLayer 0) slowShown
        slowStart.looked =
      (do descend (slowLayer 0); rollback slowStart.request.cursor) slowAccepted :=
    tryStaged_of_shows (by decide +kernel) (by decide +kernel)
  -- The second plane may not take the first layer, which is placed, nor the second,
  -- which belongs below it.
  have hclosed : ∀ l, slowScene.layer? (slowLayer 0) = some l →
      Path.isOpen [⟨slowPlane, some (slowLayer 0)⟩] (slowLayer 0) l = false := by
    simp [Path.isOpen, Path.holds]
  obtain ⟨rejected, layer, hrejected⟩ := (Option.any_eq_true _ _).mp
    (by decide +kernel : ((slowScene.layer? (slowLayer 1)).any fun l =>
      Path.isOpen [⟨slowPlane, some (slowLayer 0)⟩] (slowLayer 1) l &&
        (slowScene.rejection? [⟨slowPlane, some (slowLayer 0)⟩] slowNext (slowLayer 1) l).isSome) = true)
  obtain ⟨opens, hrule⟩ := Bool.and_eq_true_iff.mp hrejected
  obtain ⟨rejection, rule⟩ := Option.isSome_iff_exists.mp hrule
  let rest := slowCleared.planes.tail.tail
  have henter : ∀ tasks, Move slowScene ⟨.visit (slowPlane :: slowNext :: rest) [] :: tasks, slowStart⟩
      ⟨.offer (slowNext :: rest) [] slowPlane slowStart.request.cursor slowScene.output.layers ::
        .visit (slowNext :: rest) [⟨slowPlane, none⟩] :: .back slowStart.request.cursor :: tasks,
        slowStart⟩ := fun tasks => .enter (by decide +kernel) (by decide +kernel)
  have hnext : ∀ tasks, Move slowScene
      ⟨.visit (slowNext :: rest) [⟨slowPlane, some (slowLayer 0)⟩] :: tasks, slowAccepted⟩
      ⟨.offer rest [⟨slowPlane, some (slowLayer 0)⟩] slowNext slowAccepted.request.cursor
        slowScene.output.layers :: .visit rest [⟨slowNext, none⟩, ⟨slowPlane, some (slowLayer 0)⟩] ::
        .back slowAccepted.request.cursor :: tasks, slowAccepted⟩ :=
    fun tasks => .enter (by decide +kernel) (by decide +kernel)
  rw [layers_slowScene] at henter hnext
  have haccept := (Relation.ReflTransGen.single (henter [])).tail
    (.accept hfirst (by decide +kernel) (by decide +kernel) hpasses)
  -- Three moves lead to the candidate that comes too late.
  have hclose := (haccept.tail (hnext _)).tail (.close hclosed)
  have hreject := hclose.tail (.reject layer opens rule)
  rw [← planes_slowCleared] at hreject
  -- Enough time has gone by, and no path has been accepted.
  have htime : slowScene.timeout ≤ slowAccepted.elapsed slowScene := by decide +kernel
  have hbest : slowAccepted.best.isNone = true := by decide +kernel
  refine ⟨l, _, _, _, hreject, hlate, ?_, ?_⟩
  · rw [State.elapsed_told]
    exact htime
  · rw [State.best_told]
    exact Option.isNone_iff_eq_none.mp hbest

open Search in
/-- With two ticks the first layer is all that is shown. -/
theorem apply_of_late_slowLayers : ∃ (st : State Scripted) (tasks : List Task),
    WindsUp slowScene [⟨slowPlane, some (slowLayer 0)⟩] slowCleared.planes.tail ⟨tasks, st⟩ ∧
    ∃ f, Frame.apply .first {} ⟨some 2⟩ ⟨slowLayers, {}⟩ = .ok () f ∧
      ∀ x, x ∈ f.device.wiring.links .first ↔ x = (slowPlane.id, slowLayer 0) := by
  have hreachable : slowLayers.Reachable := reachable_threeLayers.after trivial
  have hresults : slowLayers.session.kernel.results = [] := by decide +kernel
  have hrefusal : slowLayers.session.kernel.refusal.isIncompatibility = true := by decide +kernel
  -- No plane shows a layer of another output.
  have hother : slowLayers.ShowsNoOther .first := by
    have hnone : ∀ q ∈ slowLayers.planes, q.layer = none := by decide +kernel
    intro q hq id l hid
    rw [hnone q hq] at hid
    cases hid
  obtain ⟨l, tasks, cursor, st, hmoves, hcandidate, hlate, hbest⟩ := late_slowScene
  obtain ⟨hwinds, happly⟩ := apply_of_late hreachable.wellFormed (Scripted.rises hresults hrefusal)
    comesToSearch_slowLayers hmoves hcandidate hlate
  have hplanes : slowCleared.planes.tail = slowNext :: slowCleared.planes.tail.tail := by
    rw [slowNext, List.cons_head_tail]
  rw [← hplanes] at hwinds happly
  obtain ⟨f, hrun, hlinks⟩ := happly hother
  refine ⟨_, tasks, hwinds, f, hrun, fun x => ?_⟩
  have hvalid : slowScene.isValid [⟨slowPlane, some (slowLayer 0)⟩] = true := by decide +kernel
  have hnew : ∀ n, ¬ Reaches none n := by
    rintro n ⟨_, h, -⟩
    cases h
  -- The first valid path is kept, as there is none to compare it with.
  rw [hlinks, hbest, keep_eq_some (hnew _) ((isValid_leaveEmpty ..).trans hvalid)]
  simp only [Option.some.injEq, exists_eq_left', assignments_leaveEmpty]
  exact List.mem_singleton

end Allocation

end Scanout
