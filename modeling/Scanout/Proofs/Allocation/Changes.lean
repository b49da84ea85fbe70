import Scanout.Proofs.Allocation.Allocate
import Scanout.Proofs.Device.Change
import Scanout.Proofs.Kernel.Asks

namespace Scanout

variable {σ : Type}

namespace Layer

def content (l : Layer) : OutputId × Property.Bag × Bool × Bool :=
  (l.output, l.properties, l.forcedComposition, l.changed)

def bare (l : Layer) : Layer := { l with plane := none, candidatePlanes := [] }

/-- The layer is not marked clean: what the caller gave to it is the same, and so is what that is compared
with. -/
def Unmarked (_ : LayerId) (l l' : Layer) : Prop :=
  l'.content = l.content ∧ l'.cleanFramebuffer = l.cleanFramebuffer

theorem unmarked_of_bare {l l' : Layer} (id : LayerId) (h : l'.bare = l.bare) : Unmarked id l l' :=
  ⟨(congrArg content h :), (congrArg cleanFramebuffer h :)⟩

theorem bare_addCandidatePlane (l : Layer) (q : UInt32) : (l.addCandidatePlane q).bare = l.bare := by
  unfold addCandidatePlane
  split <;> rfl

theorem unmarked_countUpdate (id : LayerId) (l : Layer) (periodElapsed : Bool) :
    Unmarked id l (l.countUpdate periodElapsed) := by
  unfold countUpdate
  cases periodElapsed <;> exact ⟨rfl, rfl⟩

end Layer

namespace Allocation

open Device

variable [Kernel σ] {flags : CommitFlags}

/-- A search only asks, and what passes is noted. If it fails, then because of the last answer. -/
theorem setting_of_notes {K : σ → Prop} {noted : σ → Request → Prop} {s : Search.Scene}
    (h : Kernel.Notes s.flags K noted) (s₀ : Session σ) :
    Search.Setting s (fun session => (K session.kernel ∧
        Relation.ReflTransGen (Kernel.Asks s.flags) s₀.kernel session.kernel) ∧
        Session.Reports [] s₀ session) noted
      (fun _ => True) (Kernel.Justifies s.flags s₀.kernel) False := by
  refine Search.setting_of_kernel
    (K := fun k => K k ∧ Relation.ReflTransGen (Kernel.Asks s.flags) s₀.kernel k)
    (fun k hK => ?_) (fun r session hK => ?_) False.elim s₀
  -- The clock and the test commit are the two ways in which a search meets the driver.
  · obtain ⟨hnext, hkept⟩ := (h.since s₀.kernel).now k hK
    exact ⟨hnext, hkept, False.elim⟩
  · refine (Session.noted_testCommit (h.since s₀.kernel) r session hK).mono ?_ ?_
    · rintro reply session' ⟨⟨hK', -⟩, hkept, hpass⟩
      exact ⟨hK', hkept, hpass, False.elim⟩
    · -- A hard error ends the search, but nothing that was noted is lost with it.
      rintro e session' ⟨⟨hK', -⟩, hjustified⟩
      exact ⟨hK', hjustified.since hK.2⟩

theorem notes_asks (k₀ : σ) : Kernel.Notes flags (Relation.ReflTransGen (Kernel.Asks flags) k₀)
    fun _ _ => True where
  now k hk := ⟨hk.tail (.now k), fun _ h => h⟩
  test k r hk := ⟨hk.tail (.test k r), fun _ h => h, fun _ => trivial⟩

/-- What a search has found is linked, and only the staging of the links may still fail. -/
theorem allocate_of_search {d : Device σ} (hd : d.WellFormed) {o : OutputId} {out : Output}
    (hout : d.output? o = some out) {session : Session σ}
    (hclear : clear o d = .ok () { d.cleared o with session })
    (hreports : Session.Reports [] d.session session) {request entry : Request}
    (hentry : disables (d.cleared o) request = .ok () entry) {options : ApplyOptions}
    {started : HostTime} {best : Option Search.Best} {hints : List (LayerId × UInt32)} {f : Frame σ}
    (hsearch : search o flags options started ⟨{ d.cleared o with session }, entry⟩ =
      .ok (best, hints) f) :
    ∃ d', Allocated d o (sceneOf { d.cleared o with session } out flags options started)
        (fun _ _ => True) (fun _ => True) entry False best d' ∧
      allocate o flags options started ⟨d, request⟩ =
        (do Frame.onRequest d'.stageCurrent; pure (best.map Search.Best.score)) ⟨d', entry⟩ := by
  let s := sceneOf { d.cleared o with session } out flags options started
  have hout₀ : ({ d.cleared o with session } : Device σ).output? o = some out := hout
  have hspec := search_spec hout₀ flags options started
    (setting_of_notes (s := s) (notes_asks session.kernel) session)
    ⟨⟨.refl, .refl⟩, refl_of (Session.Reports []) session⟩ entry
  -- The best path and the hints are read off what the search is known to leave.
  rw [ensures_of_eq_ok hsearch] at hspec
  obtain ⟨hrequest, ⟨session', hdevice, -, hreports'⟩, hbest, hhints, hoptimal⟩ := hspec
  obtain ⟨d₂, request₂⟩ := f
  obtain rfl : entry = request₂ := hrequest.symm
  obtain rfl : { d.cleared o with session := session' } = d₂ := hdevice.symm
  -- Only the session is another one, so settling starts from the cleared device.
  let free := ((d.cleared o).planes.filter fun p => p.layer.isNone).length
  have hreports := trans_of (Session.Reports []) hreports hreports'
  obtain ⟨d', hallocated, hsettle⟩ : ∃ d', Allocated d o s (fun _ _ => True) (fun _ => True) entry False
        best d' ∧
      settle o free (best, hints) ⟨{ d.cleared o with session := session' }, entry⟩ =
        (do Frame.onRequest d'.stageCurrent; pure (best.map Search.Best.score)) ⟨d', entry⟩ :=
    settle_eq hd hout hreports rfl hbest hhints hoptimal free entry
  refine ⟨d', hallocated, ?_⟩
  rw [allocate_of_clear hclear, bind_of_ok (Frame.onRequest_of_ok hentry), bind_of_ok hsearch]
  exact hsettle

def conclude (o : OutputId) (outcome : ReuseOutcome) (started : HostTime) (score : Option Nat) :
    FrameM σ Unit := do
  Frame.onDevice (markClean o)
  let ended ← Frame.now
  let tests := testsOf outcome (← get).device.session.testCommits
  Frame.emit (.applyEnd o (outcome = .accepted) score tests (ended.since started) ended)

def carryOut (o : OutputId) (flags : CommitFlags) (options : ApplyOptions) (started : HostTime)
    (outcome : ReuseOutcome) : FrameM σ Unit :=
  if outcome = .accepted then do
    Frame.onDevice (countReuse o)
    conclude o outcome started none
  else do
    Frame.onDevice (resetReuse o)
    let score ← allocate o flags options started
    conclude o outcome started score

theorem apply_eq (o : OutputId) (flags : CommitFlags) (options : ApplyOptions) :
    (Frame.apply o flags options : FrameM σ Unit) = (do
      let started ← Frame.now
      let out ← Frame.onDevice (Device.output o)
      Frame.emit (.applyBegin o out.crtc out.layers.length started)
      let orderChanged ← Frame.onDevice (do updatePriorities; refreshFramebuffers o; updateOrder o)
      let outcome ← decideReuse o flags orderChanged
      Frame.emit (.reuse o outcome)
      carryOut o flags options started outcome) := rfl

section Rules

variable {R : Device σ → Device σ → Prop} [IsPreorder (Device σ) R]

/-- Whatever a test of the driver keeps, the decision about an allocation keeps too. -/
theorem stays_decideReuse (htest : ∀ request, Stays R (onSession (Session.testCommit request flags)))
    (o : OutputId) (orderChanged : Bool) :
    Stays (Frame.Within R) (decideReuse o flags orderChanged) := by
  apply (Frame.stays_onDevice (stays_output o)).bind
  intro out
  apply stays_get.bind
  intro f
  -- With the order changed, or a plane in the way, the decision is made without a test.
  split
  · exact stays_pure _
  · apply (Frame.stays_tryReuse htest).bind
    intro objection
    split
    · exact stays_pure _
    · exact stays_pure _

section Telling

variable (hlog : ∀ severity note, Stays R (log severity note))
include hlog

omit [Kernel σ] in
theorem stays_logLayers (o : OutputId) : Stays R (logLayers o) := by
  apply (stays_output o).bind
  intro out
  apply (hlog _ _).bind
  intro _
  apply stays_forM
  intro id _
  apply stays_get.bind
  intro d
  -- A layer that is gone is not logged, one that is there with all it has.
  split
  · split
    · exact (hlog _ _).bind fun _ => stays_forM fun e _ => hlog _ _
    · exact stays_pure _
  · exact stays_pure _

section Counting

variable (hcount : ∀ d o (reusedCount : Nat), R d (d.withOutput o ({ · with reusedCount })))
include hcount

omit [Kernel σ] in
theorem stays_countReuse (o : OutputId) : Stays R (countReuse o) := by
  apply (stays_output o).bind
  intro out
  refine Stays.bind (stays_modify fun d => hcount d o _) fun _ => ?_
  split
  · exact hlog _ _
  · exact stays_pure _

omit [Kernel σ] in
theorem stays_resetReuse (o : OutputId) : Stays R (resetReuse o) := by
  apply (stays_output o).bind
  intro out
  refine Stays.bind (stays_modify fun d => hcount d o _) fun _ => ?_
  split
  · exact hlog _ _
  · exact stays_pure _

end Counting

end Telling

omit [Kernel σ] in
/-- What the clean mark of a layer is kept by and that of an output, the marks of an output are kept by. -/
theorem stays_markClean (hmark : ∀ d id, R d (d.withLayer id Layer.markClean))
    (hsettle : ∀ d o (layersChanged : Bool), R d (d.withOutput o ({ · with layersChanged }))) (o : OutputId) :
    Stays R (markClean o) := by
  apply (stays_output o).bind
  intro out
  apply (stays_forM fun id _ => stays_modify fun d => hmark d id).bind
  exact fun _ => stays_modify fun d => hsettle d o false

section Linking

variable (hlayer : ∀ d id f, (∀ l, d.layer? id = some l → (f l).bare = l.bare) →
    R d (d.withLayer id f))

omit [Kernel σ] in
include hlayer in
theorem stays_editBare {id : LayerId} {f : Layer → Layer} (hf : ∀ l, (f l).bare = l.bare) :
    Stays R (editLayer id fun l => .ok (f l)) := by
  refine stays_editLayer fun d l l' hl hl' => hlayer d id _ fun l₁ hl₁ => ?_
  obtain rfl := Option.some.inj (hl.symm.trans hl₁)
  cases hl'
  exact hf l

variable (hplane : ∀ d q (layer : Option LayerId), R d (d.withPlane q ({ · with layer })))
include hlayer hplane

omit [Kernel σ] in
theorem stays_setLink (q : UInt32) (id : LayerId) : Stays R (setLink q (some id)) := by
  have hplace : ∀ d id (plane : Option UInt32), R d (d.withLayer id ({ · with plane })) :=
    fun d id plane => hlayer d id _ fun _ _ => rfl
  apply stays_get.bind
  intro d
  split
  · exact stays_modify fun d => rel_link hplane hplace d q id
  · refine Stays.bind (stays_modify fun d => ?_) fun _ => stays_throw _
    exact rel_unlink hplane (fun d id => hplace d id none) d q

omit [Kernel σ] in
theorem stays_unlinkAll (o : OutputId) : Stays R (unlinkAll o) := by
  apply stays_get.bind
  intro d
  apply stays_forM
  exact fun p _ d => rel_unlink hplane (fun d id => hlayer d id _ fun _ _ => rfl) d p.id

omit [Kernel σ] in
/-- What messages and a new count of tests are kept by, the beginning of a full search is kept by too. -/
theorem stays_clear (hlog : ∀ severity note, Stays R (log severity note))
    (hreset : ∀ d, R d { d with session := { d.session with testCommits := 0 } }) (o : OutputId) :
    Stays R (clear o) := by
  -- The layers forget their candidates, the session its count of test commits.
  have hforget : Stays R (resetSearch o) := by
    apply (stays_output o).bind
    intro out
    apply (stays_forM fun id _ => stays_editBare hlayer fun l => ?_).bind
    · exact fun _ => stays_modify hreset
    · rfl
  exact hforget.bind fun _ => (stays_logLayers hlog o).bind fun _ => stays_unlinkAll hlayer hplane o

variable (hemit : ∀ e : Event, e.decision? = none → Stays R (onSession (Session.emit e)))
include hemit

omit [Kernel σ] in
/-- What links are kept by and what is told of them, is kept by all that follows a search. -/
theorem stays_settle (o : OutputId) (free : Nat) (found : Option Search.Best × List (LayerId × UInt32)) :
    Stays (Frame.Within R) (settle o free found) := by
  have hlog : ∀ severity note, Stays R (log severity note) := fun _ _ => hemit _ rfl
  have hassign : ∀ x : UInt32 × LayerId, Stays R (assign o x.1 x.2) := fun x =>
    (stays_setLink hlayer hplane x.1 x.2).bind fun _ => hemit _ rfl
  -- Hints, a message, the links one by one, and a message on a composited plane.
  have hconnect : Stays R (connect o free found) := by
    apply (stays_forM fun x _ => stays_editBare hlayer fun l => l.bare_addCandidatePlane _).bind
    intro _
    apply stays_get.bind
    intro d
    apply (hlog _ _).bind
    intro _
    apply (stays_forM fun x _ => hassign x).bind
    intro _
    split
    · exact hlog _ _
    · exact stays_pure _
  apply (Frame.stays_onDevice hconnect).bind
  intro _
  apply stays_get.bind
  intro f
  exact (Frame.stays_onRequest _).bind fun _ => stays_pure _

end Linking

section Asking

variable (hask : ∀ d session,
    Relation.ReflTransGen (Kernel.Asks flags) d.session.kernel session.kernel →
      Session.Reports [] d.session session → R d { d with session })
include hask

omit [IsPreorder (Device σ) R] in
/-- What is kept while the driver is asked, is kept by all that is told. -/
theorem stays_emit {e : Event} (he : e.decision? = none) :
    Stays R (onSession (Session.emit e)) := by
  intro d
  rw [ensures_onSession]
  exact hask d _ .refl ⟨[e], rfl, by simp [he]⟩

omit [IsPreorder (Device σ) R] in
theorem stays_log (severity : Severity) (note : Note) : Stays R (log severity note) :=
  stays_emit hask rfl

omit [IsPreorder (Device σ) R] in
theorem stays_now : Stays R (onSession Session.now) := by
  intro d
  rw [ensures_onSession]
  exact hask d _ (.single (.now d.session.kernel)) (refl_of (Session.Reports []) d.session)

omit [IsPreorder (Device σ) R] in
theorem stays_testCommit (request : Request) :
    Stays R (onSession (Session.testCommit request flags)) := by
  intro d
  rw [ensures_onSession]
  have hasks : ∀ s' : Session σ, s'.kernel = (Kernel.test d.session.kernel request flags).2 →
      Relation.ReflTransGen (Kernel.Asks flags) d.session.kernel s'.kernel :=
    fun s' h => h ▸ .single (.test d.session.kernel request)
  exact (Session.testCommit_spec request flags d.session).mono
    (fun _ s' h => hask d s' (hasks s' h.1) h.2.1) fun _ s' h => hask d s' (hasks s' h.1) h.2.1

theorem stays_search (o : OutputId) (options : ApplyOptions) (started : HostTime) :
    Stays (Frame.Within R) (search o flags options started) := by
  rintro ⟨d, entry⟩
  -- Without an output nothing is searched.
  cases hout : d.output? o with
  | none =>
    simp only [Ensures, search, hout]
    exact refl_of R d
  | some out =>
    have hs := setting_of_notes (s := sceneOf d out flags options started)
      (notes_asks d.session.kernel) d.session
    have hstart : Session.Reports [] d.session d.session := refl_of (Session.Reports []) _
    refine (search_spec hout flags options started hs ⟨⟨.refl, .refl⟩, hstart⟩ entry).mono ?_ ?_
    -- The search ends with an answer or an error, with the same report either way.
    · rintro found ⟨d', request⟩ ⟨-, ⟨session, rfl, ⟨hasks, -⟩, hreports⟩, -⟩
      exact hask d session hasks hreports
    · rintro e ⟨d', request⟩ ⟨session, rfl, ⟨⟨hasks, -⟩, hreports⟩, -⟩
      exact hask d session hasks hreports

variable (hlayer : ∀ d id f, (∀ l, d.layer? id = some l → (f l).bare = l.bare) →
    R d (d.withLayer id f))
  (hplane : ∀ d q (layer : Option LayerId), R d (d.withPlane q ({ · with layer })))
include hlayer hplane

/-- What is kept while the driver is asked, and by all that a search sets, a full search keeps. -/
theorem stays_allocate (o : OutputId) (options : ApplyOptions) (started : HostTime) :
    Stays (Frame.Within R) (allocate o flags options started) := by
  have hlog : ∀ severity note, Stays R (log severity note) := stays_log hask
  -- In four parts: what is cleared, what the search asks, what it links, and what is staged.
  have hclear : Stays R (clear o) :=
    stays_clear hlayer hplane hlog (fun d => hask d _ .refl (Session.reports_of_trace rfl)) o
  rw [allocate_eq]
  apply (Frame.stays_onDevice hclear).bind
  intro _
  apply stays_get.bind
  intro f
  apply (Frame.stays_onRequest _).bind
  intro _
  apply (stays_search hask o options started).bind
  intro found
  exact stays_settle hlayer hplane (fun e he => stays_emit hask he) o _ found

section Course

variable {Q : Unit → Frame σ → Prop} {o : OutputId} {options : ApplyOptions} {f₀ : Frame σ}
  (hemit : ∀ e, Stays R (onSession (Session.emit e)))
  (hcount : ∀ d o (reusedCount : Nat), R d (d.withOutput o ({ · with reusedCount })))
include hemit hcount

/-- From its decision on, an apply keeps what its steps keep, and it is left to the last of them what more
there is to say. -/
theorem decision_until_conclude {f : Frame σ} (h : Frame.Within R f₀ f) (started : HostTime)
    (orderChanged : Bool)
    (hconclude : ∀ outcome score f, Frame.Within R f₀ f →
      Ensures (conclude o outcome started score) f Q fun _ => Frame.Within R f₀) :
    Ensures (do
        let outcome ← decideReuse o flags orderChanged
        Frame.emit (.reuse o outcome)
        carryOut o flags options started outcome) f Q fun _ => Frame.Within R f₀ := by
  apply (stays_decideReuse (stays_testCommit hask) o orderChanged).before h
  intro outcome f₁ h₁
  apply (Frame.stays_onDevice (hemit _)).before h₁
  intro _ f₂ h₂
  -- A new layout takes a search, a kept one only a count.
  unfold carryOut
  split
  · apply (Frame.stays_onDevice (stays_countReuse (stays_log hask) hcount o)).before h₂
    exact fun _ => hconclude outcome none
  · apply (Frame.stays_onDevice (stays_resetReuse (stays_log hask) hcount o)).before h₂
    intro _ f₃ h₃
    apply (stays_allocate hask hlayer hplane o options started).before h₃
    exact fun score => hconclude outcome score

variable (hprepare : Stays R (do updatePriorities; refreshFramebuffers o; updateOrder o))
include hprepare

/-- The same from the start of an apply, if what comes before the decision keeps as much. -/
theorem ensures_until_conclude
    (hconclude : ∀ outcome started score f, Frame.Within R f₀ f →
      Ensures (conclude o outcome started score) f Q fun _ => Frame.Within R f₀) :
    Ensures (Frame.apply o flags options) f₀ Q fun _ => Frame.Within R f₀ := by
  -- Phase by phase, up to the point at which the outcome is known.
  rw [apply_eq]
  apply (Frame.stays_onDevice (stays_now hask)).before (refl_of (Frame.Within R) f₀)
  intro started f₁ h₁
  apply (Frame.stays_onDevice (stays_output o)).before h₁
  intro out f₂ h₂
  apply (Frame.stays_onDevice (hemit _)).before h₂
  intro _ f₃ h₃
  apply (Frame.stays_onDevice hprepare).before h₃
  intro orderChanged f₄ h₄
  exact decision_until_conclude hask hlayer hplane hemit hcount h₄ started orderChanged fun outcome =>
    hconclude outcome started

/-- What all steps of an apply keep, an apply keeps. -/
theorem stays_apply (hmark : Stays R (markClean o)) :
    Stays (Frame.Within R) (Frame.apply o flags options) := by
  intro f₀
  apply ensures_until_conclude hask hlayer hplane hemit hcount hprepare
  intro outcome started score f h
  apply (Frame.stays_onDevice hmark).before h
  intro _ f₁ h₁
  apply (Frame.stays_onDevice (stays_now hask)).before h₁
  intro ended f₂ h₂
  exact stays_get.before h₂ fun _ f₃ h₃ => (Frame.stays_onDevice (hemit _) f₃).since h₃

end Course

end Asking

end Rules

variable {E : LayerId → Layer → Layer → Prop}

theorem changes_now : Stays (Changes (Kernel.Asks flags) E) (onSession (σ := σ) Session.now) :=
  changes_onSession fun s => .now s.kernel

theorem changes_asks (d : Device σ) {session : Session σ}
    (h : Relation.ReflTransGen (Kernel.Asks flags) d.session.kernel session.kernel) :
    Changes (Kernel.Asks flags) E d { d with session } := by
  -- Induction on the questions, from the last one backwards.
  generalize hk : session.kernel = k at h
  induction h generalizing session with
  | refl => exact .single (.talk d session (hk ▸ .rest _))
  | tail _ hask ih =>
    rename_i k₁ k₂ _
    have hbefore : Changes (Kernel.Asks flags) E d { d with session := { session with kernel := k₁ } } :=
      ih rfl
    exact hbefore.tail (.talk _ session (hk ▸ hask))

theorem changes_testCommit (request : Request) : Stays (Changes (Kernel.Asks flags) E)
    (onSession (σ := σ) (Session.testCommit request flags)) :=
  stays_testCommit (fun d _ h _ => changes_asks d h) request

theorem changes_withOutput (d : Device σ) (o : OutputId) {f : Output → Output}
    (hf : ∀ out, (f out).pipe = out.pipe) : Changes (Kernel.Asks flags) E d (d.withOutput o f) :=
  .single (.editOutput d o f hf)

theorem changes_updateOrder (o : OutputId) :
    Stays (Changes (Kernel.Asks flags) E) (updateOrder (σ := σ) o) :=
  stays_updateOrder fun d _ _ _ _ => changes_withOutput d o fun _ => rfl

theorem changes_countReuse (o : OutputId) :
    Stays (Changes (Kernel.Asks flags) E) (countReuse (σ := σ) o) :=
  stays_countReuse (changes_log .rest) (fun d o _ => changes_withOutput d o fun _ => rfl) o

theorem changes_resetReuse (o : OutputId) :
    Stays (Changes (Kernel.Asks flags) E) (resetReuse (σ := σ) o) :=
  stays_resetReuse (changes_log .rest) (fun d o _ => changes_withOutput d o fun _ => rfl) o

theorem changes_markClean (hmark : ∀ id l, E id l l.markClean) (o : OutputId) :
    Stays (Changes (Kernel.Asks flags) E) (markClean (σ := σ) o) :=
  stays_markClean (fun d id => .single (.editLayer d id _ fun l _ => hmark id l))
    (fun d o _ => changes_withOutput d o fun _ => rfl) o

section Unmarked

variable (hunmarked : ∀ id l l', Layer.Unmarked id l l' → E id l l')
include hunmarked

theorem changes_updatePriorities :
    Stays (Changes (Kernel.Asks flags) E) (updatePriorities (σ := σ)) :=
  stays_updatePriorities
    (fun d => .single (.editLayers d _ _ fun id l =>
      hunmarked id l _ (l.unmarked_countUpdate id d.periodElapsed)))
    fun _ _ _ => changes_emit .rest _

theorem changes_refreshFramebuffers (o : OutputId) :
    Stays (Changes (Kernel.Asks flags) E) (refreshFramebuffers (σ := σ) o) :=
  stays_refreshFramebuffers
    (fun d id _ => .single (.editLayer d id _ fun l _ => hunmarked id l _ ⟨rfl, rfl⟩)) (changes_log .rest) o

theorem changes_prepare (o : OutputId) : Stays (Changes (Kernel.Asks flags) E)
    (do updatePriorities; refreshFramebuffers o; updateOrder o : DeviceM σ Bool) :=
  (changes_updatePriorities hunmarked).bind fun _ =>
    (changes_refreshFramebuffers hunmarked o).bind fun _ => changes_updateOrder o

theorem changes_editBare (d : Device σ) (id : LayerId) (f : Layer → Layer)
    (hf : ∀ l, d.layer? id = some l → (f l).bare = l.bare) :
    Changes (Kernel.Asks flags) E d (d.withLayer id f) :=
  .single (.editLayer d id f fun l hl => hunmarked id l _ (Layer.unmarked_of_bare id (hf l hl)))

theorem changes_allocate (o : OutputId) (options : ApplyOptions) (started : HostTime) :
    Stays (Frame.Within (Changes (Kernel.Asks flags) E))
      (allocate (σ := σ) o flags options started) :=
  stays_allocate (fun d _ h _ => changes_asks d h) (changes_editBare hunmarked)
    (fun d q layer => .single (.rewire d q layer)) o options started

/-- However an apply ends, it has only asked, kept what the callers gave to the layers, and marked
layers clean. -/
theorem changes_apply (hmark : ∀ id l, E id l l.markClean) (o : OutputId) (options : ApplyOptions) :
    Stays (Frame.Within (Changes (Kernel.Asks flags) E)) (Frame.apply (σ := σ) o flags options) :=
  stays_apply (fun d _ h _ => changes_asks d h) (changes_editBare hunmarked)
    (fun d q layer => .single (.rewire d q layer)) (changes_emit .rest)
    (fun d o _ => changes_withOutput d o fun _ => rfl) (changes_prepare hunmarked o)
    (changes_markClean hmark o)

end Unmarked

/-- An apply that fails has marked nothing clean, whatever it failed with. -/
theorem unmarked_of_failed (o : OutputId) (options : ApplyOptions) (f₀ : Frame σ) :
    Ensures (Frame.apply o flags options) f₀ (fun _ _ => True)
      fun _ => Frame.Within (Changes (Kernel.Asks flags) Layer.Unmarked) f₀ := by
  have hunmarked : ∀ id l l', Layer.Unmarked id l l' → Layer.Unmarked id l l' := fun _ _ _ h => h
  refine ensures_until_conclude (fun d _ h _ => changes_asks d h) (changes_editBare hunmarked)
    (fun d q layer => .single (.rewire d q layer)) (changes_emit .rest)
    (fun d o _ => changes_withOutput d o fun _ => rfl) (changes_prepare hunmarked o) ?_
  intro outcome started score f h
  simp only [conclude, ensures_bind, Frame.ensures_onDevice, markClean, ensures_output]
  refine ⟨fun out _ => ?_, fun _ => h⟩
  -- With the output at hand, nothing stops the marking any more.
  refine Ensures.mono (ensures_forM (I := fun _ => True) (E := fun _ _ => False) ?_ trivial) ?_
    fun _ _ => False.elim
  · exact fun _ _ _ _ => trivial
  · exact fun _ _ _ => trivial

end Allocation

end Scanout
