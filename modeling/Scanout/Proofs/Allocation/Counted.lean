import Scanout.Proofs.Device.Run
import Scanout.Proofs.Kernel.Recorded

namespace Scanout

variable {σ : Type}

def Event.tests? : Event → Option Nat
  | .applyEnd _ _ _ tests _ _ => some tests
  | _ => none

namespace Session

def toldTests (s : Session σ) : Option Nat := s.trace.head?.bind Event.tests?

structure Unasked (s s' : Session (Recorded σ)) : Prop where
  log : s'.kernel.log = s.kernel.log
  testCommits : s'.testCommits = s.testCommits
  reports : Reports [] s s'

instance : IsPreorder (Session (Recorded σ)) Unasked where
  refl _ := ⟨rfl, rfl, refl_of (Reports []) _⟩
  trans _ _ _ h h' := ⟨h'.log.trans h.log, h'.testCommits.trans h.testCommits,
    trans_of (Reports []) h.reports h'.reports⟩

structure Counts (n : Nat) (s s' : Session (Recorded σ)) : Prop where
  issues : Recorded.Issues n s.kernel s'.kernel
  reports : Reports [] s s'

theorem Counts.trans {m n : Nat} {s s' s'' : Session (Recorded σ)} (h : Counts m s s')
    (h' : Counts n s' s'') : Counts (m + n) s s'' :=
  ⟨h.issues.trans h'.issues, trans_of (Reports []) h.reports h'.reports⟩

theorem Unasked.counts {s s' : Session (Recorded σ)} (h : Unasked s s') : Counts 0 s s' :=
  ⟨Recorded.issues_of_log h.log, h.reports⟩

def Tallied (s₀ s : Session (Recorded σ)) : Prop :=
  ∃ n, Counts n s₀ s ∧ s.testCommits = min n (UInt32.size - 1)

theorem Tallied.unasked {s₀ s s' : Session (Recorded σ)} (h : Tallied s₀ s) (h' : Unasked s s') :
    Tallied s₀ s' := by
  obtain ⟨n, hcounts, hn⟩ := h
  exact ⟨n, hcounts.trans h'.counts, h'.testCommits.trans hn⟩

theorem unasked_emit {e : Event} (he : e.decision? = none) : Stays Unasked (emit (σ := Recorded σ) e) :=
  fun s => ⟨rfl, rfl, (silent_emit he).of_eq_ok (s := s) rfl⟩

variable [Kernel σ]

theorem unasked_now : Stays Unasked (now (σ := Recorded σ)) :=
  fun _ => ⟨rfl, rfl, reports_of_trace rfl⟩

/-- A question that is answered is one test commit, and it is counted as one. -/
theorem testCommit_counts (request : Request) (flags : CommitFlags) (s : Session (Recorded σ)) :
    Ensures (testCommit request flags) s
      (fun _ s' => Counts 1 s s' ∧ s'.testCommits = addUpTo32 s.testCommits 1) fun _ _ => True := by
  -- The session counts each test up to the most it can hold.
  have hcounted : Ensures (testCommit request flags) s
      (fun _ s' => s'.testCommits = addUpTo32 s.testCommits 1) fun _ _ => True := by
    simp only [testCommit, ensures_bind, ensures_modify, ensures_modifyGet]
    split
    · trivial
    · rfl
    · split
      · rfl
      · trivial
  -- The driver is asked once in this.
  refine ((testCommit_spec request flags s).and hcounted).mono ?_ fun _ _ _ => trivial
  rintro reply s' ⟨⟨hkernel, hreports, hreply⟩, htests⟩
  exact ⟨⟨hkernel ▸ Recorded.issues_test hreply, hreports⟩, htests⟩

end Session

namespace Search

open Session

/-- Each test of a search is counted, and nothing else is. -/
theorem upkeep_tallied [Kernel σ] (s : Scene) (s₀ : Session (Recorded σ)) :
    Upkeep s (fun _ session _ => Tallied s₀ session) fun _ => True where
  -- Of all that a search does, only a test commit counts.
  back h := h
  leave _ h := h
  accept _ _ h := h.unasked ⟨rfl, rfl, [_], rfl, rfl⟩
  tell e he h := by
    refine h.unasked ⟨rfl, rfl, [e], rfl, ?_⟩
    cases e with
    | candidate | deadline => rfl
    | _ => cases he
  now h := h.unasked ⟨rfl, rfl, reports_of_trace rfl⟩
  test := by
    rintro path session best r ⟨n, hcounts, hn⟩
    refine (testCommit_counts r s.flags session).mono ?_ fun _ _ h => h
    rintro - session' ⟨hone, htests⟩
    refine ⟨n + 1, hcounts.trans hone, ?_⟩
    rw [htests, hn, addUpTo32]
    -- Adding one at the bound stays there.
    omega
  finish h _ := h.unasked ⟨rfl, rfl, [_], rfl, rfl⟩

end Search

namespace Device

def Unasked (d d' : Device (Recorded σ)) : Prop := Session.Unasked d.session d'.session

instance : IsPreorder (Device (Recorded σ)) Unasked where
  refl d := refl_of Session.Unasked d.session
  trans _ _ _ h h' := trans_of Session.Unasked h h'

theorem unasked_of_session {d d' : Device (Recorded σ)} (h : d'.session = d.session) : Unasked d d' := by
  rw [Unasked, h]
  exact refl_of Session.Unasked d.session

theorem unasked_emit {e : Event} (he : e.decision? = none) :
    Stays Unasked (onSession (σ := Recorded σ) (Session.emit e)) := by
  intro d
  rw [ensures_onSession]
  exact Session.unasked_emit he d.session

theorem unasked_log (severity : Severity) (note : Note) :
    Stays Unasked (log (σ := Recorded σ) severity note) := unasked_emit rfl

end Device

namespace Allocation

open Device Session

variable {o : OutputId}

theorem unasked_updatePriorities : Stays Device.Unasked (updatePriorities (σ := Recorded σ)) :=
  stays_updatePriorities (fun _ => unasked_of_session rfl) fun _ _ _ => Device.unasked_emit rfl

theorem unasked_updateOrder (o : OutputId) : Stays Device.Unasked (updateOrder (σ := Recorded σ) o) :=
  stays_updateOrder fun _ _ _ _ _ => unasked_of_session rfl

theorem unasked_countReuse : Stays Device.Unasked (countReuse (σ := Recorded σ) o) :=
  stays_countReuse unasked_log (fun _ _ _ => unasked_of_session rfl) o

theorem unasked_resetReuse : Stays Device.Unasked (resetReuse (σ := Recorded σ) o) :=
  stays_resetReuse unasked_log (fun _ _ _ => unasked_of_session rfl) o

theorem unasked_settle (free : Nat) (found : Option Search.Best × List (LayerId × UInt32)) :
    Stays (Frame.Within Device.Unasked) (settle (σ := Recorded σ) o free found) :=
  stays_settle (fun _ _ _ _ => unasked_of_session rfl) (fun _ _ _ => unasked_of_session rfl)
    (fun _ he => Device.unasked_emit he) o free found

/-- A full search begins to count anew. -/
theorem clear_testCommits (d : Device (Recorded σ)) :
    Ensures (clear o) d (fun _ d' => d'.session.testCommits = 0) fun _ _ => True := by
  -- Nothing after the reset changes the count again.
  have hrest : Stays Device.Unasked (do logLayers o; unlinkAll o : DeviceM (Recorded σ) Unit) :=
    (stays_logLayers unasked_log o).bind fun _ =>
      stays_unlinkAll (fun _ _ _ _ => unasked_of_session rfl) (fun _ _ _ => unasked_of_session rfl) o
  have hreset : Ensures (resetSearch o) d (fun _ d' => d'.session.testCommits = 0) fun _ _ => True := by
    simp only [resetSearch, ensures_bind, ensures_output]
    refine ⟨fun out _ => ?_, fun _ => trivial⟩
    unfold Ensures
    split
    · rfl
    · trivial
  rw [clear, ensures_bind]
  refine hreset.mono (fun _ d₁ h₁ => ?_) fun _ _ h => h
  exact (hrest d₁).mono (fun _ _ h => h.testCommits.trans h₁) fun _ _ _ => trivial

variable [Kernel σ] {flags : CommitFlags}

structure Rests (flags : CommitFlags) (d d' : Device (Recorded σ)) : Prop extends Bides flags d d' where
  unasked : Device.Unasked d d'

instance : IsPreorder (Device (Recorded σ)) (Rests flags) where
  refl d := ⟨refl_of (Bides flags) d, refl_of Device.Unasked d⟩
  trans _ _ _ h h' :=
    ⟨trans_of (Bides flags) h.toBides h'.toBides, trans_of Device.Unasked h.unasked h'.unasked⟩

theorem rests_now : Stays (Rests flags) (onSession (σ := Recorded σ) Session.now) := by
  refine (bides_now.and fun d => ?_).mono fun _ _ h => ⟨h.1, h.2⟩
  rw [ensures_onSession]
  exact unasked_now d.session

theorem rests_emit {e : Event} (he : e.decision? = none) :
    Stays (Rests flags) (onSession (σ := Recorded σ) (Session.emit e)) :=
  ((bides_emit he).and (Device.unasked_emit he)).mono fun _ _ h => ⟨h.1, h.2⟩

theorem rests_prepare : Stays (Rests flags)
    (do updatePriorities; refreshFramebuffers o; updateOrder o : DeviceM (Recorded σ) Bool) := by
  have hrefresh : Stays Device.Unasked (refreshFramebuffers (σ := Recorded σ) o) :=
    stays_refreshFramebuffers (fun _ _ _ => unasked_of_session rfl) unasked_log o
  have hprepare := unasked_updatePriorities.bind fun _ => hrefresh.bind fun _ => unasked_updateOrder o
  exact (bides_prepare.and hprepare).mono fun _ _ h => ⟨h.1, h.2⟩

/-- A full search makes as many test commits as it counts. -/
theorem allocate_counts {d : Device (Recorded σ)} (hd : d.WellFormed) {out : Output}
    (hout : d.output? o = some out) (options : ApplyOptions) (started : HostTime) (request : Request) :
    Ensures (allocate o flags options started) ⟨d, request⟩
      (fun _ f' => Tallied d.session f'.device.session) fun _ _ => True := by
  obtain ⟨session, hclear, hkernel, hreports⟩ := clear_eq hd hout
  -- The search starts from a count of zero.
  have hzero : session.testCommits = 0 := (ensures_of_eq_ok hclear).mp (clear_testCommits d)
  have hcounts : Counts 0 d.session session :=
    ⟨Recorded.issues_of_log (congrArg Recorded.log hkernel), hreports⟩
  rw [ensures_congr (allocate_of_clear hclear flags options started request)]
  simp only [ensures_bind, Frame.ensures_onRequest]
  cases hdisables : disables (d.cleared o) request with
  | error e entry =>
    rw [ensures_of_eq_error hdisables]
    trivial
  | ok _ entry =>
    rw [ensures_of_eq_ok hdisables]
    have hout₁ : ({ d.cleared o with session } : Device (Recorded σ)).output? o = some out := hout
    -- The search keeps the tally, and what settles its result asks nothing.
    refine (search_upholds hout₁ (Search.upkeep_tallied _ d.session) ⟨0, hcounts, hzero⟩ entry).mono
      (fun found f₁ h₁ => ?_) fun _ _ h => h
    exact (unasked_settle _ found f₁).mono (fun _ _ h => h₁.unasked h) fun _ _ _ => trivial

/-- How an attempt to keep an allocation ended, if there was one, and how many test commits it took. -/
inductive Attempted (d : Device (Recorded σ)) : ReuseOutcome → Nat → Prop
  | skipped (blocker : ReuseBlocker) : Attempted d (.skipped blocker) 0
  | unstaged (p : Plane) (hp : p ∈ d.planes) (hunsuited : ¬ d.Suits p) : Attempted d (.rejected .einval) 0
  | tested {outcome : ReuseOutcome} (houtcome : ∀ blocker, outcome ≠ .skipped blocker)
      (hsuits : ∀ p ∈ d.planes, d.Suits p) : Attempted d outcome 1

theorem tryReuse_counts {f : Frame (Recorded σ)} (hd : f.device.WellFormed) :
    Ensures (tryReuse flags) f
      (fun objection f' => ∃ n, Counts n f.device.session f'.device.session ∧
        Attempted f.device (objection.elim .accepted .rejected) n) fun _ _ => True := by
  -- A reuse that cannot be staged fails before any test.
  have hunsuited := stageCurrent_unsuited hd f.request
  have hfails := f.device.stageCurrent_fails f.request
  simp only [tryReuse, ensures_bind, ensures_get, Frame.ensures_attempt, Frame.ensures_onRequest]
  cases hstage : f.device.stageCurrent f.request with
  | error e r =>
    rw [ensures_of_eq_error hstage] at hunsuited hfails ⊢
    split
    · rename_i heq
      cases heq
      obtain ⟨p, hp, hunsuited⟩ := hunsuited
      obtain ⟨rfl, -⟩ := hfails _ rfl
      exact ⟨0, (refl_of Session.Unasked _).counts, .unstaged p hp hunsuited⟩
    · trivial
    · rename_i heq
      cases heq
  | ok _ r =>
    rw [ensures_of_eq_ok hstage]
    obtain ⟨-, hsuits⟩ := f.device.adds_stageCurrent f.request r hstage
    simp only [ensures_bind, Frame.testCommit, ensures_get, Frame.ensures_onDevice, ensures_onSession]
    refine (testCommit_counts r flags f.device.session).mono ?_ fun _ _ _ => trivial
    rintro reply session ⟨hone, -⟩
    cases reply with
    -- Whatever the driver answers, it was asked once.
    | none => exact ⟨1, hone, .tested (by simp) hsuits⟩
    | some e => exact ⟨1, hone, .tested (by simp) hsuits⟩

theorem decideReuse_counts {f : Frame (Recorded σ)} (hd : f.device.WellFormed) (changed : Bool) :
    Ensures (decideReuse o flags changed) f
      (fun outcome f' => ∃ n, Counts n f.device.session f'.device.session ∧ Attempted f.device outcome n)
      fun _ _ => True := by
  simp only [decideReuse, ensures_bind, Frame.ensures_onDevice, Device.ensures_output, ensures_get]
  refine ⟨fun out _ => ?_, fun _ => trivial⟩
  split
  · exact ⟨0, (refl_of Session.Unasked _).counts, .skipped _⟩
  · rw [ensures_bind]
    refine (tryReuse_counts hd).mono (fun objection f' h => ?_) fun _ _ h => h
    cases objection with
    | none => exact h
    | some e => exact h

/-- In the end the count of the search is told, and one more for an attempt. -/
theorem conclude_counts (f : Frame (Recorded σ)) (outcome : ReuseOutcome) (started : HostTime)
    (score : Option Nat) :
    Ensures (conclude o outcome started score) f
      (fun _ f' => Counts 0 f.device.session f'.device.session ∧
        f'.device.session.toldTests = some (testsOf outcome f.device.session.testCommits))
      fun _ _ => True := by
  cases hout : f.device.output? o with
  | none =>
    simp only [conclude, markClean, ensures_bind, Frame.ensures_onDevice, ensures_output]
    exact ⟨fun out hsome => (by cases hout.symm.trans hsome), fun _ => trivial⟩
  | some out =>
    refine (conclude_ends f (Option.isSome_of_eq_some hout) outcome started score).mono ?_
      fun _ _ => False.elim
    rintro - f' ⟨-, -, hsession⟩
    rw [hsession]
    exact ⟨⟨Recorded.issues_of_log rfl, [_], rfl, rfl⟩, rfl⟩

/-- After the decision the test commits are those of a search, if the allocation is not kept. -/
theorem carryOut_counts {f : Frame (Recorded σ)} (hd : f.device.WellFormed)
    (hlive : (f.device.output? o).isSome) (outcome : ReuseOutcome) (options : ApplyOptions)
    (started : HostTime) :
    Ensures (carryOut o flags options started outcome) f
      (fun _ f' => ∃ n, Counts n f.device.session f'.device.session ∧ (outcome = .accepted → n = 0) ∧
        f'.device.session.toldTests = some (testsOf outcome (min n (UInt32.size - 1)))) fun _ _ => True := by
  unfold carryOut
  split
  -- A kept allocation is concluded without a further question.
  · rename_i houtcome
    rw [ensures_bind, Frame.ensures_onDevice]
    refine (unasked_countReuse f.device).mono (fun _ d₁ h₁ => ?_) fun _ _ _ => trivial
    refine (conclude_counts _ outcome started none).mono ?_ fun _ _ h => h
    rintro - f' ⟨hcounts, htold⟩
    refine ⟨0, h₁.counts.trans hcounts, fun _ => rfl, ?_⟩
    rw [htold, houtcome]
    rfl
  -- A new one first forgets how often it was kept, and then asks.
  · rename_i houtcome
    rw [ensures_bind, Frame.ensures_onDevice]
    refine ((resetReuse_spec hlive).and (unasked_resetReuse f.device)).mono ?_ fun _ _ _ => trivial
    rintro - d₁ ⟨hquiet, h₁⟩
    obtain ⟨out, hout⟩ : ∃ out, d₁.output? o = some out := by
      rwa [← Option.isSome_iff_exists, isSome_output_of_changed (hquiet.changed o)]
    rw [ensures_bind]
    refine (allocate_counts (hquiet.wellFormed hd) hout options started f.request).mono ?_ fun _ _ h => h
    rintro score f₂ ⟨n, hcounts, hn⟩
    refine (conclude_counts f₂ outcome started score).mono ?_ fun _ _ h => h
    rintro - f' ⟨hcounts', htold⟩
    refine ⟨n, ?_, fun haccepted => absurd haccepted houtcome, by rw [htold, hn]⟩
    simpa only [Nat.zero_add, Nat.add_zero] using (h₁.counts.trans hcounts).trans hcounts'

/-- The links can be staged after the steps before the decision if they could be before these. -/
theorem Attempted.of_bides {d d' : Device (Recorded σ)} {outcome : ReuseOutcome} {n : Nat}
    (h : Attempted d' outcome n) (hd : d.WellFormed) (hbides : Bides flags d d') : Attempted d outcome n := by
  -- The steps before the decision change neither planes nor what they would show.
  have hplanes : d'.planes = d.planes := congrArg Wiring.planes hbides.wiring
  have hsuits : ∀ p ∈ d'.planes, (d'.Suits p ↔ d.Suits p) := fun p hp =>
    (planeWrites_of_changes (hbides.wellFormed hd) hbides.changes (fun _ _ _ => Layer.worn_of_content) hp).2
  cases h with
  | skipped blocker => exact .skipped blocker
  | unstaged p hp hunsuited => exact .unstaged p (hplanes ▸ hp) (mt (hsuits p hp).mpr hunsuited)
  | tested houtcome hall =>
    refine .tested houtcome fun p hp => ?_
    rw [← hplanes] at hp
    exact (hsuits p hp).mp (hall p hp)

variable (flags) in
/-- What was decided about an allocation, with the test commits that this took and those of a search. -/
theorem apply_counts {d : Device (Recorded σ)} (hd : d.WellFormed) (options : ApplyOptions)
    (request : Request) :
    Ensures (Frame.apply o flags options) ⟨d, request⟩
      (fun _ f' => ∃ outcome m n, Attempted d outcome m ∧ (outcome = .accepted → n = 0) ∧
        Recorded.Issues (m + n) d.session.kernel f'.device.session.kernel ∧
        Reports [(o, outcome)] d.session f'.device.session ∧
        f'.device.session.toldTests = some (testsOf outcome (min n (UInt32.size - 1)))) fun _ _ => True := by
  rw [apply_eq]
  refine ensures_until_decision (R := Rests flags) rests_now (fun _ he => rests_emit he) rests_prepare
    (fun _ _ _ => trivial) ?_
  intro out started changed d₃ hout _ ⟨hbides₃, h₃⟩
  have hd₃ := hbides₃.wellFormed hd
  rw [ensures_bind]
  refine ((decideReuse_spec (notes_asks d₃.session.kernel) o changed ⟨d₃, request⟩ .refl).and
    (decideReuse_counts (f := ⟨d₃, request⟩) hd₃ changed)).mono ?_ fun _ _ _ => trivial
  rintro outcome f₄ ⟨⟨hbides₄, -⟩, m, hcounts₄, hattempted⟩
  have hlive₄ : (f₄.device.output? o).isSome := by
    rw [isSome_output_of_changed (hbides₄.changed o), isSome_output_of_changed (hbides₃.changed o)]
    exact Option.isSome_of_eq_some hout
  -- What follows starts from the device that has told the decision.
  let s₄ := f₄.device.session
  let f₅ : Frame (Recorded σ) :=
    { f₄ with device := { f₄.device with session := { s₄ with trace := .reuse o outcome :: s₄.trace } } }
  rw [ensures_bind, Frame.ensures_emit]
  have hd₅ : f₅.device.WellFormed := (hbides₄.wellFormed hd₃).of_talks ⟨_, rfl⟩
  refine (carryOut_counts (f := f₅) hd₅ hlive₄ outcome options started).mono ?_ fun _ _ h => h
  rintro - f' ⟨n, hcounts, hn, htests⟩
  refine ⟨outcome, m, n, hattempted.of_bides hd hbides₃, hn, ?_, ?_, htests⟩
  · have hissues := h₃.counts.issues.trans hcounts₄.issues
    simpa only [Nat.zero_add] using hissues.trans hcounts.issues
  · have hdecided : Reports [(o, outcome)] s₄ f₅.device.session := ⟨[.reuse o outcome], rfl, rfl⟩
    have hbefore := (h₃.reports.trans hcounts₄.reports).trans hdecided
    exact hbefore.trans hcounts.reports

/-- What an apply that succeeds tells of its test commits. It tells as many as it made, as far as 32 bits
go; but if it tried to keep an allocation that cannot be staged, it tells one more. -/
theorem tests_of_apply {d : Device (Recorded σ)} (hd : d.Reachable) {o : OutputId} {flags : CommitFlags}
    {options : ApplyOptions} {request : Request} {f' : Frame (Recorded σ)}
    (hrun : Frame.apply o flags options ⟨d, request⟩ = .ok () f') :
    ∃ asked outcome told, f'.device.session.kernel.log = asked ++ d.session.kernel.log ∧
      f'.device.session.decisions = (o, outcome) :: d.session.decisions ∧
      f'.device.session.toldTests = some told ∧
      let unstaged := (∀ blocker, outcome ≠ .skipped blocker) ∧ ∃ p ∈ d.planes, ¬ d.Suits p
      (¬ unstaged → told = min (Recorded.tests asked) (UInt32.size - 1)) ∧
      (unstaged → outcome = .rejected .einval ∧
        told = min (Recorded.tests asked + 1) (UInt32.size - 1)) := by
  -- The two numbers of tests, before the decision and after it.
  have hcounts := apply_counts (o := o) flags hd.wellFormed options request
  rw [ensures_of_eq_ok hrun] at hcounts
  obtain ⟨outcome, m, n, hattempted, hkept, ⟨asked, hlog, htests⟩, hreports, htold⟩ := hcounts
  refine ⟨asked, outcome, _, hlog, hreports.decisions, htold, ?_⟩
  -- Kept, rejected or skipped: each adds its own number to the count of the search.
  rw [htests]
  cases hattempted with
  | skipped blocker => exact ⟨fun _ => by simp [testsOf], fun h => absurd rfl (h.1 blocker)⟩
  | unstaged p hp hunsuited =>
    refine ⟨fun h => absurd ⟨by simp, p, hp, hunsuited⟩ h, fun _ => ⟨rfl, ?_⟩⟩
    simp only [testsOf, addUpTo32]
    omega
  | tested houtcome hsuits =>
    refine ⟨fun _ => ?_, fun ⟨_, p, hp, hunsuited⟩ => absurd (hsuits p hp) hunsuited⟩
    cases outcome with
    | accepted => rw [hkept rfl]; rfl
    | rejected e => simp only [testsOf, addUpTo32]; omega
    | skipped blocker => exact absurd rfl (houtcome blocker)

def fencedOverlay : Scripted where
  crtcs := .ok [1]
  planeIds := .ok [10]
  planes := [(10, .ok { Scripted.overlay with
    properties := Scripted.overlay.properties ++ [(⟨8, "IN_FENCE_FD", .range 0 5, false⟩, 0)] })]

/-- A layer with a fence is shown, and then its fence is set above the limit. A new fence asks for no new
allocation. -/
def fenceTooHigh : Device (Recorded Scripted) :=
  ({ session := { kernel := ⟨fencedOverlay, []⟩ }, crtcs := [1] } : Device (Recorded Scripted)).afterAll
    [.registerAllPlanes, .createOutput 1, .createLayer .first, .setProperty ⟨⟨0, 0⟩⟩ "FB_ID" 1,
      .setProperty ⟨⟨0, 0⟩⟩ "IN_FENCE_FD" 1, .apply .first {} {} {},
      .setProperty ⟨⟨0, 0⟩⟩ "IN_FENCE_FD" 9]

theorem reachable_fenceTooHigh : fenceTooHigh.Reachable :=
  ⟨⟨fencedOverlay, []⟩, {}, [1], _, run_afterAll (by decide +kernel)⟩

/-- The next apply commits nothing and tells of one test commit. -/
theorem apply_fenceTooHigh : ∃ f : Frame (Recorded Scripted),
    Frame.apply .first {} {} ⟨fenceTooHigh, {}⟩ = .ok () f ∧
      f.device.session.kernel.log = fenceTooHigh.session.kernel.log ∧ f.device.session.toldTests = some 1 :=
  ⟨_, eq_ok_of_succeeded (by decide +kernel), by decide +kernel, by decide +kernel⟩

/-- No commit was made, so the one that is told must be an attempt that could not be staged. -/
theorem tests_of_fenceTooHigh : ∃ f : Frame (Recorded Scripted),
    Frame.apply .first {} {} ⟨fenceTooHigh, {}⟩ = .ok () f ∧
      f.device.session.kernel.log = fenceTooHigh.session.kernel.log ∧
      f.device.session.toldTests = some 1 ∧
      f.device.session.decisions = (.first, .rejected .einval) :: fenceTooHigh.session.decisions := by
  obtain ⟨f, hrun, hlog, hone⟩ := apply_fenceTooHigh
  obtain ⟨asked, outcome, told, hasked, hdecisions, htold, hexact, hmore⟩ :=
    tests_of_apply reachable_fenceTooHigh hrun
  -- The log did not grow, so nothing was asked.
  obtain rfl : asked = [] := by
    rw [hlog] at hasked
    exact List.self_eq_append_left.mp hasked
  obtain rfl : told = 1 := Option.some.inj (htold.symm.trans hone)
  refine ⟨f, hrun, hlog, hone, ?_⟩
  by_cases hunstaged : (∀ blocker, outcome ≠ .skipped blocker) ∧
      ∃ p ∈ fenceTooHigh.planes, ¬ fenceTooHigh.Suits p
  -- Were everything staged, the count would be exact, and it is not.
  · rw [hdecisions, (hmore hunstaged).1]
  · cases hexact hunstaged

/-- An apply may tell of a test commit that it did not make. -/
theorem not_forall_tests_of_apply : ¬ ∀ (d : Device (Recorded Scripted)) (o : OutputId)
    (flags : CommitFlags) (options : ApplyOptions) (request : Request) (f' : Frame (Recorded Scripted))
    (asked : List (Request × CommitFlags × Except Errno Unit)),
    d.Reachable → Frame.apply o flags options ⟨d, request⟩ = .ok () f' →
      f'.device.session.kernel.log = asked ++ d.session.kernel.log →
      f'.device.session.toldTests = some (Recorded.tests asked) := by
  intro h
  -- The count says one test, and none was asked.
  obtain ⟨f, hrun, hlog, hone⟩ := apply_fenceTooHigh
  have htold := h fenceTooHigh .first {} {} {} f [] reachable_fenceTooHigh hrun hlog
  cases hone.symm.trans htold

end Allocation

end Scanout
