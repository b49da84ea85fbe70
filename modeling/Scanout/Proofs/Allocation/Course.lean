import Scanout.Proofs.Allocation.Repeat

namespace Scanout

variable {σ : Type}

namespace Device

structure Undisturbed (d d' : Device σ) : Prop where
  planes : d'.planes = d.planes
  layers : d'.layers = d.layers
  outputs : ∀ o, (d'.output? o).map ({ · with reusedCount := 0 }) =
    (d.output? o).map ({ · with reusedCount := 0 })

instance : IsPreorder (Device σ) Undisturbed where
  refl _ := ⟨rfl, rfl, fun _ => rfl⟩
  trans _ _ _ h h' := ⟨h'.planes.trans h.planes, h'.layers.trans h.layers,
    fun o => (h'.outputs o).trans (h.outputs o)⟩

theorem Undisturbed.layer? {d d' : Device σ} (h : Undisturbed d d') (id : LayerId) :
    d'.layer? id = d.layer? id := by
  simp only [Device.layer?, h.layers]

theorem undisturbed_withOutput (d : Device σ) (o : OutputId) (reusedCount : Nat) :
    Undisturbed d (d.withOutput o ({ · with reusedCount })) := by
  refine ⟨rfl, rfl, fun o' => ?_⟩
  rw [output?_withOutput]
  split
  · rw [Option.map_map]
    rfl
  · rfl

end Device

namespace Allocation

open Device

variable [Kernel σ] {flags : CommitFlags} {o : OutputId} {d : Device σ}

theorem undisturbed_session (d : Device σ) (session : Session σ)
    (_ : Relation.ReflTransGen (Kernel.Asks flags) d.session.kernel session.kernel)
    (_ : Session.Reports [] d.session session) : Undisturbed d { d with session } :=
  ⟨rfl, rfl, fun _ => rfl⟩

/-- The apply has come to its decision about the output on `d₁`, and goes on from `d₂`. -/
structure Decided (flags : CommitFlags) (o : OutputId) (out : Output) (changed : Bool)
    (outcome : ReuseOutcome) (d d₁ d₂ : Device σ) : Prop where
  live : d.output? o = some out
  prepared : Prepared (Kernel.now d.session.kernel).2 out o changed d d₁
  bides : Bides flags d d₁
  decides : Decides flags o outcome d d₂
  undisturbed : Undisturbed d₁ d₂

section Decided

variable {out : Output} {changed : Bool} {outcome : ReuseOutcome} {d₁ d₂ : Device σ}
  (h : Decided flags o out changed outcome d d₁ d₂)
include h

theorem Decided.isSome_output : (d₂.output? o).isSome := by
  rw [isSome_output_of_changed (h.decides.changed o), h.live]
  rfl

/-- The decision is still the last one that was reported when the search is over. -/
theorem Decided.decisions_of_searched {options : ApplyOptions} {d' : Device σ} {started : HostTime}
    {request : Request} {score : Option Nat} {f₂ : Frame σ}
    (hrun : allocate o flags options started ⟨d₂, request⟩ = .ok score f₂)
    (hmarks : Marks o f₂.device d') : d'.session.decisions = (o, outcome) :: d.session.decisions := by
  have hrelinks := (relinks_allocate options started).of_eq_ok hrun
  exact (h.decides.reports.trans (trans_of (Session.Reports []) hrelinks.reports hmarks.reports)).decisions

end Decided

/-- An attempt to keep the allocation that fails has taken its writes back. It failed where the links are
staged or where the driver is asked. -/
theorem tryReuse_fails (f : Frame σ) :
    Ensures (tryReuse flags) f (fun _ _ => True)
      (fun e f' => f'.request = f.request ∧
        ((∃ r, f.device.stageCurrent f.request = .error e r) ∨
          ∃ r session, Session.testCommit r flags f.device.session = .error e session)) := by
  have hspec := stageCurrent_spec f.device f.request
  simp only [tryReuse, ensures_bind, ensures_get, Frame.ensures_attempt, Frame.ensures_onRequest]
  -- Staging may fail, and then the reuse only objects.
  cases hstage : f.device.stageCurrent f.request with
  | error e r =>
    rw [ensures_of_eq_error hstage] at hspec ⊢
    cases hspec
    split
    · trivial
    · rename_i heq
      cases heq
      exact ⟨rfl, .inl ⟨_, rfl⟩⟩
    · rename_i heq
      cases heq
  | ok _ r =>
    rw [ensures_of_eq_ok hstage] at hspec ⊢
    -- What is left to fail is the test commit.
    simp only [ensures_bind, Frame.testCommit, ensures_get, Frame.ensures_onDevice,
      ensures_onSession]
    unfold Ensures
    cases htest : Session.testCommit r flags f.device.session with
    | ok objection session => cases objection <;> trivial
    | error e session => exact ⟨hspec.rollback, .inr ⟨r, session, htest⟩⟩

/-- The decision is to keep the allocation if nothing stands in the way and its test passes. An attempt
that fails is the failure of the decision. -/
theorem decideReuse_course {f : Frame σ} {out : Output} (hout : f.device.output? o = some out)
    (changed : Bool) :
    Ensures (decideReuse o flags changed) f
      (fun outcome f' => Bides flags f.device f'.device ∧ Undisturbed f.device f'.device ∧
        (outcome = .accepted → reuseBlocker f.device.layers out changed = none ∧
          f.device.stageCurrent f.request = .ok () f'.request) ∧
        (outcome ≠ .accepted → f'.request = f.request))
      (fun e f' => tryReuse flags f = .error e f') := by
  -- The decision itself adds no failure to those of the attempt.
  have hfails : Ensures (decideReuse o flags changed) f (fun _ _ => True)
      (fun e f' => tryReuse flags f = .error e f') := by
    simp only [decideReuse, ensures_bind, Frame.ensures_onDevice, Device.ensures_output, ensures_get]
    refine ⟨fun out _ => ?_, fun hnone => by rw [hout] at hnone; cases hnone⟩
    split
    · trivial
    · rw [ensures_bind]
      unfold Ensures
      cases hrun : tryReuse flags f with
      | ok objection f' => cases objection <;> trivial
      | error e f' => rfl
  have hnotes : Kernel.Notes flags _ _ := notes_asks f.device.session.kernel
  have hstays : Stays (Frame.Within Undisturbed) (decideReuse (σ := σ) o flags changed) :=
    stays_decideReuse (stays_testCommit undisturbed_session) o changed
  -- What it does, what it disturbs and how it fails are known apart.
  refine (((decideReuse_spec hnotes o changed f .refl).and (hstays f)).and hfails).mono ?_ fun _ _ h => h.2
  rintro outcome f' ⟨⟨⟨hbides, haccepted, hrefused⟩, hundisturbed⟩, -⟩
  refine ⟨hbides, hundisturbed, fun houtcome => ?_, hrefused⟩
  obtain ⟨⟨out', hout', hblocker⟩, hstage, -⟩ := haccepted houtcome
  obtain rfl := Option.some.inj (hout.symm.trans hout')
  exact ⟨hblocker, hstage⟩

/-- After the decision the allocation is kept, or a full search is run. In the end the output is marked
clean. -/
theorem carryOut_course {f : Frame σ} (ho : (f.device.output? o).isSome) (outcome : ReuseOutcome)
    (options : ApplyOptions) (started : HostTime) :
    Ensures (carryOut o flags options started outcome) f
      (fun _ f' => ∃ d₁, Bides flags f.device d₁ ∧ Undisturbed f.device d₁ ∧
        (outcome = .accepted ∧ Marks o d₁ f'.device ∧ f'.request = f.request ∨
        outcome ≠ .accepted ∧ ∃ score f₂,
          allocate o flags options started ⟨d₁, f.request⟩ = .ok score f₂ ∧
            Marks o f₂.device f'.device ∧ f'.request = f₂.request))
      (fun e f' => outcome ≠ .accepted ∧ ∃ d₁, Bides flags f.device d₁ ∧ Undisturbed f.device d₁ ∧
        allocate o flags options started ⟨d₁, f.request⟩ = .error e f') := by
  let counted := fun d₁ : Device σ =>
    Bides flags f.device d₁ ∧ Undisturbed f.device d₁ ∧ (d₁.output? o).isSome
  have hlive : ∀ d₁, Quiet f.device d₁ → (d₁.output? o).isSome := fun d₁ hquiet => by
    rw [isSome_output_of_changed (hquiet.changed o)]
    exact ho
  -- To ask the driver disturbs nothing.
  have hsession : ∀ (d : Device σ) session,
      Relation.ReflTransGen (Kernel.Asks flags) d.session.kernel session.kernel →
        Session.Reports [] d.session session → Undisturbed d { d with session } := undisturbed_session
  -- Both counters are kept without disturbing what the decision rests on.
  have hcount : Ensures (countReuse o) f.device (fun _ => counted) fun _ _ => False := by
    have hstays := stays_countReuse (stays_log hsession) undisturbed_withOutput o f.device
    exact (((countReuse_spec ho).and (changes_countReuse o f.device)).and hstays).mono
      (fun _ d₁ h => ⟨⟨h.1.1, h.1.2⟩, h.2, hlive d₁ h.1.1⟩) fun _ _ h => h.1.1
  have hreset : Ensures (resetReuse o) f.device (fun _ => counted) fun _ _ => False := by
    have hstays := stays_resetReuse (stays_log hsession) undisturbed_withOutput o f.device
    exact (((resetReuse_spec ho).and (changes_resetReuse o f.device)).and hstays).mono
      (fun _ d₁ h => ⟨⟨h.1.1, h.1.2⟩, h.2, hlive d₁ h.1.1⟩) fun _ _ h => h.1.1
  unfold carryOut
  split
  · rename_i houtcome
    rw [ensures_bind, Frame.ensures_onDevice]
    refine hcount.mono ?_ fun _ _ => False.elim
    rintro - d₁ ⟨hbides, hundisturbed, hlive₁⟩
    refine (conclude_spec { f with device := d₁ } hlive₁ outcome started none).mono ?_
      fun _ _ => False.elim
    rintro - f' ⟨hmarks, hrequest, -⟩
    exact ⟨d₁, hbides, hundisturbed, .inl ⟨houtcome, hmarks, hrequest⟩⟩
  · rename_i houtcome
    rw [ensures_bind, Frame.ensures_onDevice]
    refine hreset.mono ?_ fun _ _ => False.elim
    rintro - d₁ ⟨hbides, hundisturbed, hlive₁⟩
    -- The search may fail, and then nothing comes after it.
    rw [ensures_bind]
    unfold Ensures
    cases hrun : allocate o flags options started ⟨d₁, f.request⟩ with
    | error e f' => exact ⟨houtcome, d₁, hbides, hundisturbed, hrun⟩
    | ok score f₂ =>
      -- It takes no output away, so there is one to conclude for.
      have hrelinks := (ensures_of_eq_ok hrun).mp (relinks_allocate options started ⟨d₁, f.request⟩)
      have hlive₂ : (f₂.device.output? o).isSome := by
        rw [← Option.isSome_map, hrelinks.orders, Option.isSome_map]
        exact hlive₁
      refine (conclude_spec f₂ hlive₂ outcome started score).mono ?_ fun _ _ => False.elim
      rintro - f' ⟨hmarks, hrequest, -⟩
      exact ⟨d₁, hbides, hundisturbed, .inr ⟨houtcome, score, f₂, hrun, hmarks, hrequest⟩⟩

/-- What an apply has done that returns: it kept the allocation, which it has staged, or it ran a full
search. In the end it marked the output clean. -/
def Completed (flags : CommitFlags) (o : OutputId) (options : ApplyOptions) (d : Device σ)
    (request : Request) (f' : Frame σ) : Prop :=
  ∃ out changed outcome d₁ d₂, Decided flags o out changed outcome d d₁ d₂ ∧
    (outcome = .accepted ∧ reuseBlocker d₁.layers (inOrder d₁.layers out) changed = none ∧
        d₁.stageCurrent request = .ok () f'.request ∧ Marks o d₂ f'.device ∨
      outcome ≠ .accepted ∧ ∃ started score f₂,
        allocate o flags options started ⟨d₂, request⟩ = .ok score f₂ ∧
          Marks o f₂.device f'.device ∧ f'.request = f₂.request)

/-- Where an apply fails: at an output that is not there, in the attempt to keep the allocation, or in a
full search. -/
def Broken (flags : CommitFlags) (o : OutputId) (options : ApplyOptions) (d : Device σ)
    (request : Request) (e : Failure) (f' : Frame σ) : Prop :=
  (d.output? o = none ∧ Bides flags d f'.device ∧ f'.request = request) ∨
  (∃ out changed d₁, d.output? o = some out ∧
    Prepared (Kernel.now d.session.kernel).2 out o changed d d₁ ∧ Bides flags d d₁ ∧
    tryReuse flags ⟨d₁, request⟩ = .error e f') ∨
  ∃ out changed outcome d₁ d₂ started, Decided flags o out changed outcome d d₁ d₂ ∧
    outcome ≠ .accepted ∧ allocate o flags options started ⟨d₂, request⟩ = .error e f'

/-- The course of an apply from its decision on. -/
theorem decision_course {out : Output} {changed : Bool} {d₁ : Device σ} (hout : d.output? o = some out)
    (hprepared : Prepared (Kernel.now d.session.kernel).2 out o changed d d₁)
    (hbides₁ : Bides flags d d₁) (options : ApplyOptions) (started : HostTime) (request : Request) :
    Ensures (do
        let outcome ← decideReuse o flags changed
        Frame.emit (.reuse o outcome)
        carryOut o flags options started outcome) ⟨d₁, request⟩
      (fun _ f' => Completed flags o options d request f')
      (fun e f' => Broken flags o options d request e f') := by
  rw [ensures_bind]
  refine (decideReuse_course (f := ⟨d₁, request⟩) hprepared.output changed).mono ?_
    fun e f' h => .inr (.inl ⟨out, changed, d₁, hout, hprepared, hbides₁, h⟩)
  rintro outcome f₁ ⟨hbides₂, hundisturbed₂, haccepted, hrefused⟩
  -- What follows starts from the device that has told the decision.
  let d₂ : Device σ := { f₁.device with session :=
    { f₁.device.session with trace := .reuse o outcome :: f₁.device.session.trace } }
  have htold : Decides flags o outcome f₁.device d₂ :=
    ⟨keeps_session _ _, .single (.talk _ _ (.rest _)), [.reuse o outcome], rfl, rfl⟩
  have hdecides : Decides flags o outcome d d₂ :=
    .of_bides (trans_of (Bides flags) hbides₁ hbides₂) htold
  have hundisturbed : Undisturbed d₁ d₂ :=
    trans_of Undisturbed hundisturbed₂ (⟨rfl, rfl, fun _ => rfl⟩ : Undisturbed f₁.device d₂)
  have hdecided : ∀ d₃, Bides flags d₂ d₃ → Undisturbed d₂ d₃ →
      Decided flags o out changed outcome d d₁ d₃ := fun d₃ hbides₃ hundisturbed₃ =>
    ⟨hout, hprepared, hbides₁, hdecides.bides hbides₃, trans_of Undisturbed hundisturbed hundisturbed₃⟩
  have hlive : (d₂.output? o).isSome := by
    rw [isSome_output_of_changed (hdecides.changed o), hout]
    rfl
  rw [ensures_bind]
  -- The decision is joined with what carries it out.
  refine (carryOut_course (f := ⟨d₂, f₁.request⟩) hlive outcome options started).mono ?_ ?_
  · rintro - f' ⟨d₃, hbides₃, hundisturbed₃, ⟨houtcome, hmarks, hrequest⟩ |
      ⟨houtcome, score, f₃, hrun, hmarks, hrequest⟩⟩
    · obtain ⟨hblocker, hstage⟩ := haccepted houtcome
      exact ⟨out, changed, outcome, d₁, d₃, hdecided d₃ hbides₃ hundisturbed₃,
        .inl ⟨houtcome, hblocker, hrequest ▸ hstage, hmarks⟩⟩
    · rw [hrefused houtcome] at hrun
      exact ⟨out, changed, outcome, d₁, d₃, hdecided d₃ hbides₃ hundisturbed₃,
        .inr ⟨houtcome, started, score, f₃, hrun, hmarks, hrequest⟩⟩
  · rintro e f' ⟨houtcome, d₃, hbides₃, hundisturbed₃, hrun⟩
    rw [hrefused houtcome] at hrun
    exact .inr (.inr ⟨out, changed, outcome, d₁, d₃, started,
      hdecided d₃ hbides₃ hundisturbed₃, houtcome, hrun⟩)

/-- The course of an apply. -/
theorem apply_course (d : Device σ) (o : OutputId) (flags : CommitFlags) (options : ApplyOptions)
    (request : Request) :
    Ensures (Frame.apply o flags options) ⟨d, request⟩
      (fun _ f' => Completed flags o options d request f')
      (fun e f' => Broken flags o options d request e f') := by
  apply ensures_apply
  · exact fun hnone _ hbides => .inl ⟨hnone, hbides, rfl⟩
  · exact fun out started changed d₁ hout hprepared hbides =>
      decision_course hout hprepared hbides options started request

end Allocation

end Scanout
