import Scanout.Proofs.Allocation.Alike
import Scanout.Proofs.Allocation.Failing

namespace Scanout

variable {σ : Type}

namespace Recorded

def Lenient (commit : Request × CommitFlags × Except Errno Unit) : Prop :=
  ∀ e, commit.2.2 = .error e → e.isIncompatibility = true ∨ e.isTransient = true

/-- The last commit recorded was answered with an error that is the failure, and those before it
leniently. -/
def Halts (k₀ : Recorded σ) (failure : Failure) (k : Recorded σ) : Prop :=
  ∃ e tested flags asked, failure = .error (.kernel e) ∧
    k.log = (tested, flags, .error e) :: (asked ++ k₀.log) ∧ ∀ commit ∈ asked, Lenient commit

variable {k₀ k : Recorded σ}

/-- Interruptions are lenient, and so is an answer that is. -/
theorem lenient_of_mem_entries {request : Request} {flags : CommitFlags} {interruptions : List Errno}
    {reply : Option (Except Errno Unit)} (hinterruptions : ∀ e ∈ interruptions, e.isTransient = true)
    (hreply : ∀ answer, reply = some answer → Lenient (request, flags.forTest, answer))
    {commit : Request × CommitFlags × Except Errno Unit}
    (h : commit ∈ (entries request flags interruptions reply).reverse) : Lenient commit := by
  obtain ⟨answer, hanswer, rfl⟩ := List.mem_map.mp (List.mem_reverse.mp h)
  -- The entries are the interruptions and then the answer, if one came.
  rcases List.mem_append.mp hanswer with hinterrupted | hgiven
  · obtain ⟨e, he, rfl⟩ := List.mem_map.mp hinterrupted
    rintro e' ⟨⟩
    exact .inr (hinterruptions e he)
  · exact hreply answer (Option.mem_toList.mp hgiven)

/-- As long as the answers are lenient the session goes on, and at the first that is not it halts. -/
theorem maintains_lenient [Kernel σ] (flags : CommitFlags) (k₀ : Recorded σ) :
    Kernel.Maintains flags (Logs Lenient k₀) fun failure k => Logs Lenient k₀ k ∨ Halts k₀ failure k where
  now h := h
  test := by
    intro k h r
    -- A test adds its own entries to the log.
    obtain ⟨-, -, interruptions, hinterruptions, hlog⟩ := test_spec k r flags
    generalize (Kernel.test k r flags).1 = reply at hlog ⊢
    rcases reply with _ | e | _
    -- Silence, a refusal or a pass.
    · exact .inl (h.more hlog fun _ => lenient_of_mem_entries hinterruptions (by simp))
    · rw [Kernel.stop?]
      split
      · rename_i hsoft
        refine h.more hlog fun _ => lenient_of_mem_entries hinterruptions ?_
        rintro _ ⟨⟩ e' ⟨⟩
        exact .inl hsoft
      · -- All before the hard error are interruptions of the same question.
        obtain ⟨before, hbefore, hlenient⟩ := h
        refine .inr ⟨e, r, flags.forTest, (entries r flags interruptions none).reverse ++ before,
          rfl, ?_, ?_⟩
        · rw [hlog, hbefore]
          simp [entries]
        · intro commit hcommit
          rcases List.mem_append.mp hcommit with hnew | hold
          · exact lenient_of_mem_entries hinterruptions (by simp) hnew
          · exact hlenient commit hold
    · refine h.more hlog fun _ => lenient_of_mem_entries hinterruptions ?_
      rintro _ ⟨⟩ e' ⟨⟩
  fail h _ := .inl h

/-- A commit with a hard answer is the last one, and its answer is the failure. -/
theorem Halts.last {failure : Failure} (h : Halts k₀ failure k)
    {later earlier : List (Request × CommitFlags × Except Errno Unit)}
    {commit : Request × CommitFlags × Except Errno Unit}
    (hlog : k.log = later ++ commit :: (earlier ++ k₀.log)) (hcommit : ¬ Lenient commit) :
    later = [] ∧ ∃ e, commit.2.2 = .error e ∧ failure = .error (.kernel e) := by
  obtain ⟨e, tested, flags, asked, hfailure, hasked, hlenient⟩ := h
  rw [hlog] at hasked
  -- After the commit that halts the record no other was made, and none before it was hard.
  cases later with
  | nil =>
    obtain ⟨rfl, -⟩ := List.cons.inj hasked
    exact ⟨rfl, e, rfl, hfailure⟩
  | cons last later => exact absurd (of_mem_since hlenient (List.cons.inj hasked).2.symm) hcommit

end Recorded

namespace Allocation

open Device

variable [Kernel σ] {flags : CommitFlags} {o : OutputId}

/-- An apply that fails with a hard error has at most taken links away. -/
theorem links_of_hard_error {d : Device σ} (hd : d.WellFormed) {options : ApplyOptions}
    {request : Request} {e : Errno} {f : Frame σ}
    (h : Frame.apply o flags options ⟨d, request⟩ = .error (.error (.kernel e)) f)
    (hhard : e.isIncompatibility = false) :
    (∀ o', f.device.wiring.links o' ⊆ d.wiring.links o') ∧
      ∀ o', (f.device.LayersChanged o' ↔ d.LayersChanged o') := by
  have hnotes : Kernel.Notes flags _ _ := notes_asks d.session.kernel
  have hcases := apply_cases (o := o) hd hnotes .refl options request
  rw [ensures_of_eq_error h] at hcases
  rcases hcases with ⟨hbides, -⟩ | ⟨d₁, outcome, -, hdecides, hspares, ⟨session, hcleared, -⟩ |
    ⟨entry, r, -, hstage⟩⟩
  -- The error came before the links were cleared, in the search, or after it.
  · refine ⟨fun o' => ?_, hbides.toQuiet.sameScene.layersChanged⟩
    rw [hbides.wiring]
  · have hflags : ∀ o', (f.device.LayersChanged o' ↔ d.LayersChanged o') := fun o' =>
      (hspares.scene.layersChanged o').trans (hdecides.layersChanged o')
    refine ⟨fun o' x hx => ?_, hflags⟩
    rw [hcleared] at hx
    have hbefore := ((mem_links_cleared d₁ o o' x).mp hx).2
    rwa [hdecides.wiring] at hbefore
  · -- A layout that cannot be staged counts as an incompatibility.
    have hfails := f.device.stageCurrent_fails entry
    rw [ensures_of_eq_error hstage] at hfails
    obtain ⟨rfl, -⟩ := hfails e rfl
    cases hhard

/-- A commit of an apply that is answered with a hard error is the last one, and the error is reported. -/
theorem last_of_hard_error {d : Device (Recorded σ)} {options : ApplyOptions} {request : Request}
    {later earlier : List (Request × CommitFlags × Except Errno Unit)}
    {commit : Request × CommitFlags × Except Errno Unit}
    (hlog : (leftBy (Frame.apply o flags options ⟨d, request⟩)).device.session.kernel.log =
      later ++ commit :: (earlier ++ d.session.kernel.log))
    (hcommit : ¬ Recorded.Lenient commit) :
    later = [] ∧ ∃ e f, commit.2.2 = .error e ∧
      Frame.apply o flags options ⟨d, request⟩ = .error (.error (.kernel e)) f := by
  have hruns := maintains_apply (Recorded.maintains_lenient flags d.session.kernel) o options
    (f := ⟨d, request⟩) (Recorded.logs_refl d.session.kernel)
  have hlogs : ∀ {k : Recorded σ}, Recorded.Logs Recorded.Lenient d.session.kernel k →
      k.log ≠ later ++ commit :: (earlier ++ d.session.kernel.log) := by
    rintro k ⟨asked, hasked, hlenient⟩ hsame
    exact hcommit (Recorded.of_mem_since hlenient (hasked.symm.trans hsame))
  -- With an answer the log would be lenient throughout.
  cases happly : Frame.apply o flags options ⟨d, request⟩ with
  | ok _ f =>
    rw [ensures_of_eq_ok happly] at hruns
    rw [happly] at hlog
    exact absurd hlog (hlogs hruns)
  | error failure f =>
    rw [ensures_of_eq_error happly] at hruns
    rw [happly] at hlog
    rcases hruns with hlenient | hhalts
    · exact absurd hlog (hlogs hlenient)
    · obtain ⟨hlast, e, hanswer, rfl⟩ := hhalts.last hlog hcommit
      exact ⟨hlast, e, f, hanswer, rfl⟩

/-- A hard error of the driver stops an apply at once. If any commit of the apply is answered with an error
that is neither an incompatibility nor an interruption, this commit is the last one, and the apply fails
with this very error. Then it has made no link, and marked clean neither an output nor a layer. -/
theorem halts_of_hard_error {d : Device (Recorded σ)} (hd : d.Reachable) (o : OutputId)
    (flags : CommitFlags) (options : ApplyOptions) (request : Request)
    {later earlier : List (Request × CommitFlags × Except Errno Unit)} {tested : Request}
    {testFlags : CommitFlags} {e : Errno}
    (hlog : (leftBy (Frame.apply o flags options ⟨d, request⟩)).device.session.kernel.log =
      later ++ (tested, testFlags, .error e) :: (earlier ++ d.session.kernel.log))
    (hhard : e.isIncompatibility = false) (hfinal : e.isTransient = false) :
    later = [] ∧ ∃ f, Frame.apply o flags options ⟨d, request⟩ = .error (.error (.kernel e)) f ∧
      (∀ o', f.device.wiring.links o' ⊆ d.wiring.links o') ∧
      (∀ o', (f.device.LayersChanged o' ↔ d.LayersChanged o')) ∧
      ∀ id l', f.device.layer? id = some l' → ∃ l, d.layer? id = some l ∧
        l'.properties = l.properties ∧ l'.changed = l.changed ∧
          l'.cleanFramebuffer = l.cleanFramebuffer := by
  -- The commit in question failed for good.
  have hcommit : ¬ Recorded.Lenient (tested, testFlags, .error e) := by
    intro hlenient
    simpa [hhard, hfinal] using hlenient e rfl
  obtain ⟨hlast, e', f, ⟨⟩, happly⟩ := last_of_hard_error hlog hcommit
  obtain ⟨hlinks, hflags⟩ := links_of_hard_error hd.wellFormed happly hhard
  -- A failed apply marks nothing as clean.
  have hmarks : Ensures (Frame.apply o flags options) ⟨d, request⟩ _ _ :=
    unmarked_of_failed o options ⟨d, request⟩
  rw [ensures_of_eq_error happly] at hmarks
  refine ⟨hlast, f, happly, hlinks, hflags, fun id l' hl' => ?_⟩
  obtain ⟨l, hl, hcontent, hframebuffer⟩ := hmarks.exists_layer (fun _ _ => ⟨rfl, rfl⟩)
    (fun h h' => ⟨h'.1.trans h.1, h'.2.trans h.2⟩) hl'
  exact ⟨l, hl, congrArg (·.2.1) hcontent, congrArg (·.2.2.2) hcontent, hframebuffer⟩

/-- Two outputs, of which the first is shown. Then the driver refuses to keep that, interrupts the search
and breaks down. -/
def twoBroken : Device (Recorded Scripted) :=
  twoOutputs ⟨.twoPipes, []⟩ (.drive fun k => { k with kernel := { k.kernel with results := [22, 4, 5] } })

theorem reachable_twoBroken : twoBroken.Reachable :=
  ⟨⟨.twoPipes, []⟩, {}, [1, 2], _, run_afterAll (by decide +kernel)⟩

/-- The apply of the first output makes three more commits. -/
theorem log_twoBroken : ∃ tested kept : Request,
    (leftBy (Frame.apply .first {} {} ⟨twoBroken, {}⟩)).device.session.kernel.log =
      [] ++ (tested, ⟨0x100⟩, .error .eio) ::
        ([(tested, ⟨0x100⟩, .error .eintr), (kept, ⟨0x100⟩, .error .einval)] ++
          twoBroken.session.kernel.log) :=
  ⟨⟨[⟨11, 2, 0⟩, ⟨11, 3, 0⟩, ⟨10, 2, 0⟩, ⟨10, 3, 0⟩, ⟨11, 3, 1⟩, ⟨11, 2, 1⟩]⟩,
    ⟨[⟨11, 3, 1⟩, ⟨11, 2, 1⟩, ⟨10, 2, 0⟩, ⟨10, 3, 0⟩]⟩, by decide +kernel⟩

/-- The breakdown ends the search that is made when the allocation cannot be kept. -/
theorem halts_twoBroken : ∃ f : Frame (Recorded Scripted),
    Frame.apply .first {} {} ⟨twoBroken, {}⟩ = .error (.error (.kernel .eio)) f ∧
      f.device.wiring.links .first ⊆ twoBroken.wiring.links .first := by
  obtain ⟨tested, kept, hlog⟩ := log_twoBroken
  obtain ⟨-, f, happly, hlinks, -⟩ :=
    halts_of_hard_error reachable_twoBroken .first {} {} {} hlog (by decide) (by decide)
  exact ⟨f, happly, hlinks .first⟩

end Allocation

end Scanout
