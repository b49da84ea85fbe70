import Scanout.Proofs.Search.Walk
import Scanout.Proofs.Session

namespace Scanout
namespace Search

variable {σ : Type}

section Rules

variable {st : State σ} {E : Failure → State σ → Prop}

@[simp]
theorem ensures_onSession {α : Type} (x : SessionM σ α) {Q : α → State σ → Prop} :
    Ensures (onSession x) st Q E ↔
      Ensures x st.session (fun a session => Q a { st with session })
        (fun e session => E e { st with session }) := by
  unfold Ensures onSession
  cases x st.session <;> rfl

@[simp]
theorem ensures_rollback (cursor : Nat) {Q : Unit → State σ → Prop} :
    Ensures (rollback cursor) st Q E ↔ Q () { st with request := st.request.rollback cursor } :=
  Iff.rfl

@[simp]
theorem ensures_addHint (id : LayerId) (plane : UInt32) {Q : Unit → State σ → Prop} :
    Ensures (addHint id plane) st Q E ↔ Q () { st with hints := (id, plane) :: st.hints } := Iff.rfl

@[simp]
theorem ensures_emit (e : Event) {Q : Unit → State σ → Prop} :
    Ensures (emit e) st Q E ↔
      Q () { st with session := { st.session with trace := e :: st.session.trace } } := Iff.rfl

theorem ensures_now [Kernel σ] {Q : HostTime → State σ → Prop} :
    Ensures (onSession Session.now) st Q E ↔
      Q (Kernel.now st.session.kernel).1
        { st with session := { st.session with kernel := (Kernel.now st.session.kernel).2 } } :=
  Iff.rfl

/-- A layer that cannot be staged leaves the request as it was. -/
theorem ensures_stage (p : Plane) (l : Layer) (crtc : UInt32)
    {Q : Option Incompatibility → State σ → Prop}
    (hok : ∀ r', p.stageLayer l crtc st.request = .ok () r' → st.request.Begins r' →
      Q none { st with request := r' })
    (herror : ∀ why, (∀ r', p.stageLayer l crtc st.request ≠ .ok () r') → Q (some why) st) :
    Ensures (stage p l crtc) st Q E := by
  -- A failed staging puts the request back.
  have hspec := p.stageLayer_spec l crtc st.request
  unfold Ensures at hspec
  unfold stage
  rw [ensures_modifyGet]
  cases hrun : p.stageLayer l crtc st.request with
  | ok a r' =>
    rw [hrun] at hspec
    exact hok r' hrun hspec
  | error why r' =>
    rw [hrun] at hspec
    obtain rfl : r' = st.request := hspec
    exact herror why (by simp [hrun])

end Rules

def Scene.keep (s : Scene) (path : Path) (best : Option Best) : Option Best :=
  if (!best.any fun b => s.score path ≤ b.score) && s.isValid path then some ⟨s.score path, path⟩
  else best

theorem keep_of_reaches {s : Scene} {path : Path} {best : Option Best}
    (h : Reaches best (s.score path)) : s.keep path best = best := by
  simp only [Scene.keep, any_iff_reaches.mpr h, Bool.not_true, Bool.false_and, Bool.false_eq_true,
    ↓reduceIte]

theorem keep_of_not_isValid {s : Scene} {path : Path} {best : Option Best}
    (h : s.isValid path = false) : s.keep path best = best := by
  simp only [Scene.keep, h, Bool.and_false, Bool.false_eq_true, ↓reduceIte]

theorem keep_eq_some {s : Scene} {path : Path} {best : Option Best}
    (hnew : ¬ Reaches best (s.score path)) (h : s.isValid path = true) :
    s.keep path best = some ⟨s.score path, path⟩ := by
  rw [← any_iff_reaches, Bool.not_eq_true] at hnew
  simp only [Scene.keep, hnew, h, Bool.not_false, Bool.and_self, ↓reduceIte]

/-- A path makes all scores reached up to its own, if it is valid. -/
theorem reaches_keep {s : Scene} {path : Path} {best : Option Best} {n : Nat} :
    Reaches (s.keep path best) n ↔ Reaches best n ∨ s.isValid path = true ∧ n ≤ s.score path := by
  -- An invalid path is not kept, and a valid one only if its score is not reached yet.
  cases hvalid : s.isValid path with
  | false => simp [keep_of_not_isValid hvalid]
  | true =>
    by_cases hold : Reaches best (s.score path)
    · rw [keep_of_reaches hold]
      exact ⟨.inl, fun h => h.elim id fun h => hold.mono h.2⟩
    · rw [keep_eq_some hold hvalid]
      refine ⟨?_, ?_⟩
      · rintro ⟨b, hb, hn⟩
        cases hb
        exact .inr ⟨rfl, hn⟩
      · -- The new score is greater than the old one, so whatever that reached is reached still.
        rintro (⟨b, hb, hn⟩ | ⟨-, hn⟩)
        · have hlow : ¬ s.score path ≤ b.score := fun hle => hold ⟨b, hb, hle⟩
          exact ⟨_, rfl, by simp only; omega⟩
        · exact ⟨_, rfl, hn⟩

/-- At the end of a path nothing is asked. -/
theorem ensures_finish (s : Scene) (path : Path) (st : State σ) :
    Ensures (finish s path) st
      (fun _ st' => st'.best = s.keep path st.best ∧ st'.session.kernel = st.session.kernel ∧
        st'.session.testCommits = st.session.testCommits)
      (fun _ _ => False) := by
  simp only [finish, Scene.keep, ensures_bind, ensures_get]
  split
  · exact ⟨rfl, rfl, rfl⟩
  · exact ⟨rfl, rfl, rfl⟩

/-- In the end a path makes all scores reached up to its own, if it is valid. -/
theorem reaches_finish (s : Scene) (path : Path) (st : State σ) :
    Ensures (finish s path) st
      (fun _ st' => st'.session.kernel = st.session.kernel ∧
        ∀ n, Reaches st'.best n ↔ Reaches st.best n ∨ s.isValid path = true ∧ n ≤ s.score path)
      (fun _ _ => False) := by
  refine (ensures_finish s path st).mono ?_ fun _ _ => False.elim
  rintro - st' ⟨hbest, hkernel, -⟩
  refine ⟨hkernel, fun n => ?_⟩
  rw [hbest, reaches_keep]

/-- What a search relies on: sessions stay in `K`, what is accepted is noted for good, and a question
fails only with `E`. With a steady driver all that passes is accepted, time never runs out, and the
layers to be placed have no plane yet. -/
structure Setting [Kernel σ] (s : Scene) (K : Session σ → Prop) (noted : σ → Request → Prop)
    (passes : Request → Prop) (E : σ → Failure → Prop) (steady : Prop) : Prop where
  emit : ∀ (e : Event) (session : Session σ), e.decision? = none → K session →
    K { session with trace := e :: session.trace }
  now : ∀ session, K session → K { session with kernel := (Kernel.now session.kernel).2 } ∧
    (∀ r, noted session.kernel r → noted (Kernel.now session.kernel).2 r) ∧
    (steady → ¬ s.timeout ≤ (Kernel.now session.kernel).1.since s.started)
  test : ∀ r session, K session → Ensures (Session.testCommit r s.flags) session
    (fun reply session' => K session' ∧ (∀ r', noted session.kernel r' → noted session'.kernel r') ∧
      (reply = none → noted session'.kernel r) ∧ (steady → passes r → reply = none))
    (fun e session' => K session' ∧ E session'.kernel e)
  unplaced : steady → ∀ id ∈ s.output.layers, ∀ l, s.layer? id = some l → l.plane = none

/-- It is enough to know what the driver does: no step of a search reports a decision. -/
theorem setting_of_kernel [Kernel σ] {s : Scene} {K : σ → Prop} {noted : σ → Request → Prop}
    {passes : Request → Prop} {E : σ → Failure → Prop} {steady : Prop}
    (hnow : ∀ k, K k → K (Kernel.now k).2 ∧ (∀ r, noted k r → noted (Kernel.now k).2 r) ∧
      (steady → ¬ s.timeout ≤ (Kernel.now k).1.since s.started))
    (htest : ∀ r (session : Session σ), K session.kernel →
      Ensures (Session.testCommit r s.flags) session
        (fun reply session' => K session'.kernel ∧
          (∀ r', noted session.kernel r' → noted session'.kernel r') ∧
          (reply = none → noted session'.kernel r) ∧ (steady → passes r → reply = none))
        (fun e session' => K session'.kernel ∧ E session'.kernel e))
    (hunplaced : steady → ∀ id ∈ s.output.layers, ∀ l, s.layer? id = some l → l.plane = none)
    (s₀ : Session σ) :
    Setting s (fun session => K session.kernel ∧ Session.Reports [] s₀ session) noted passes E
      steady where
  -- Emitting an event changes no driver.
  emit := by
    rintro e session he ⟨hK, hreports⟩
    exact ⟨hK, trans_of (Session.Reports []) hreports ⟨[e], rfl, by simp [he]⟩⟩
  -- The driver goes on to the instant after, and nothing is told.
  now := by
    rintro session ⟨hK, hreports⟩
    obtain ⟨hnext, hrest⟩ := hnow session.kernel hK
    have hsilent := trans_of (Session.Reports []) hreports (Session.reports_of_trace rfl)
    exact ⟨⟨hnext, hsilent⟩, hrest⟩
  -- A test commit emits nothing of its own either.
  test := by
    rintro r session ⟨hK, hreports⟩
    refine ((htest r session hK).and (Session.silent_testCommit r s.flags session)).mono ?_ ?_
    · rintro reply session' ⟨⟨hK', hrest⟩, hsilent⟩
      exact ⟨⟨hK', trans_of (Session.Reports []) hreports hsilent⟩, hrest⟩
    · rintro e session' ⟨⟨hK', hE⟩, hsilent⟩
      exact ⟨⟨hK', trans_of (Session.Reports []) hreports hsilent⟩, hE⟩
  unplaced := hunplaced

/-- What holds of a search's state between its steps, once it has decided on the planes `past` and
staged `r` on the way. -/
structure Sound (s : Scene) (K : Session σ → Prop) (noted : σ → Request → Prop) (entry : Request)
    (planes past : List Plane) (path : Path) (r : Request) (st : State σ) : Prop where
  session : K st.session
  request : st.request = r
  walk : Walk s (noted st.session.kernel) [] entry past path r
  best : ∀ b, st.best = some b → b.score = s.score b.path ∧
    Feasible s (noted st.session.kernel) entry planes b.path
  hints : ∀ h ∈ st.hints, (s.layer? h.1).isSome

/-- With all that was noted noted still, the search has found nothing worse than what `paths` lead to. -/
structure Progress (s : Scene) (noted : σ → Request → Prop) (steady : Prop) (paths : Set Path)
    (st st' : State σ) : Prop where
  notes : ∀ r, noted st.session.kernel r → noted st'.session.kernel r
  improves : Improves s steady paths st.best st'.best

def Fails (K : Session σ → Prop) (E : σ → Failure → Prop) (e : Failure) (st : State σ) : Prop :=
  K st.session ∧ E st.session.kernel e

namespace Progress

variable {s : Scene} {noted : σ → Request → Prop} {steady : Prop} {paths paths' : Set Path}
  {st st₁ st₂ : State σ}

theorem append {all : Set Path} (h : Progress s noted steady paths st st₁)
    (h' : Progress s noted steady paths' st₁ st₂)
    (hall : ∀ path ∈ all, path ∈ paths ∨ path ∈ paths') : Progress s noted steady all st st₂ :=
  ⟨fun r hr => h'.notes r (h.notes r hr), h.improves.append h'.improves hall⟩

theorem mono (h : Progress s noted steady paths st st₁) (hsub : ∀ path ∈ paths', path ∈ paths) :
    Progress s noted steady paths' st st₁ := ⟨h.notes, h.improves.mono hsub⟩

/-- Where no path leads, it is enough to keep what was found. -/
theorem of_empty (hnotes : ∀ r, noted st.session.kernel r → noted st₁.session.kernel r)
    (hbest : st₁.best = st.best) (h : steady → ∀ path, path ∉ paths) :
    Progress s noted steady paths st st₁ := by
  refine ⟨hnotes, ?_⟩
  rw [hbest]
  exact .of_empty h

end Progress

section Found

variable [Kernel σ] {s : Scene} {K : Session σ → Prop} {noted : σ → Request → Prop}
  {passes : Request → Prop} {E : σ → Failure → Prop} {steady : Prop}
  (hs : Setting s K noted passes E steady) {entry : Request} {all past : List Plane} {path : Path}
  {r : Request} {st : State σ}

omit [Kernel σ] in
/-- What is found is so still when the driver has moved on and all that was noted is noted still. -/
theorem Sound.later (h : Sound s K noted entry all past path r st) {session : Session σ}
    (hK : K session) (hnotes : ∀ r, noted st.session.kernel r → noted session.kernel r) :
    Sound s K noted entry all past path r { st with session } := by
  refine ⟨hK, h.request, h.walk.mono hnotes, fun b hb => ?_, h.hints⟩
  obtain ⟨hscore, hfeasible⟩ := h.best b hb
  exact ⟨hscore, hfeasible.mono hnotes⟩

omit [Kernel σ] in
/-- Back from a deeper place, with the request as it was, the walk is the one from before. -/
theorem Sound.back {past' : List Plane} {path' : Path} {r' : Request} {st' : State σ}
    (h : Sound s K noted entry all past path r st)
    (h' : Sound s K noted entry all past' path' r' st') (hrequest : r'.rollback r.cursor = r)
    (hnotes : ∀ r, noted st.session.kernel r → noted st'.session.kernel r) :
    Sound s K noted entry all past path r
      { st' with request := st'.request.rollback r.cursor } := by
  refine ⟨h'.session, ?_, h.walk.mono hnotes, h'.best, h'.hints⟩
  rw [h'.request]
  exact hrequest

include hs

theorem sound_emit {e : Event} (he : e.decision? = none)
    (h : Sound s K noted entry all past path r st) :
    Ensures (emit e) st
      (fun _ st' => Sound s K noted entry all past path r st' ∧ st'.best = st.best ∧
        st'.session.kernel = st.session.kernel)
      (fun _ _ => False) := by
  rw [ensures_emit]
  exact ⟨h.later (hs.emit e st.session he h.session) fun _ hr => hr, rfl, rfl⟩

/-- A finished walk is kept if it is an allocation and none so far is as good. -/
theorem finish_spec (h : Sound s K noted entry all all path r st) :
    Ensures (finish s path) st
      (fun _ st' => Sound s K noted entry all all path r st' ∧
        Progress s noted steady {path} st st')
      (fun _ _ => False) := by
  -- Soundness first; what is found follows from the score that is reached.
  have hsound : Ensures (finish s path) st (fun _ => Sound s K noted entry all all path r)
      (fun _ _ => False) := by
    simp only [finish, ensures_bind, ensures_get]
    split
    · rename_i hbest
      obtain ⟨-, hvalid⟩ := Bool.and_eq_true_iff.mp hbest
      rw [ensures_bind, ensures_modify]
      -- What is kept is a complete walk, since all planes have been visited.
      have hkept : Sound s K noted entry all all path r
          { st with best := some ⟨s.score path, path⟩ } := by
        refine ⟨h.session, h.request, h.walk, fun b hb => ?_, h.hints⟩
        obtain rfl := Option.some.inj hb
        exact ⟨rfl, ⟨r, h.walk⟩, hvalid⟩
      exact (sound_emit hs rfl hkept).mono (fun _ _ h => h.1) fun _ _ h => h
    · exact h
  refine (hsound.and (reaches_finish s path st)).mono ?_ fun _ _ h => h.1
  rintro - st₁ ⟨h₁, hkernel, hfound⟩
  refine ⟨h₁, fun r' hr' => hkernel ▸ hr', fun n hn => (hfound n).mpr (.inl hn), ?_⟩
  -- The only path there is to find is this one.
  rintro - path' hpath' hvalid
  obtain rfl := hpath'
  exact (hfound _).mpr (.inr ⟨hvalid, Nat.le_refl _⟩)

theorem report_spec {p : Plane} {id : LayerId} {verdict : Verdict} {paths : Set Path}
    (hpaths : steady → ∀ path, path ∉ paths) (h : Sound s K noted entry all past path r st) :
    Ensures (report path p id verdict) st
      (fun _ st' => Sound s K noted entry all past path r st' ∧ Progress s noted steady paths st st')
      (Fails K E) := by
  refine (sound_emit hs rfl h).mono ?_ fun _ _ => False.elim
  rintro - st1 ⟨h1, hb1, hk1⟩
  exact ⟨h1, .of_empty (fun _ hr => hk1 ▸ hr) hb1 hpaths⟩

/-- A choice that the driver accepted is one step of a walk. What lies below it is searched, and after
that the walk is the one from before. -/
theorem deeper_spec {p : Plane} {planes : List Plane} {id : LayerId} {r' : Request}
    {descend : LayerId → SearchM σ Unit}
    (hdescend : ∀ st, Sound s K noted entry all (past ++ [p]) (⟨p, some id⟩ :: path) r' st →
      Ensures (descend id) st
        (fun _ st' => Sound s K noted entry all (past ++ [p]) (⟨p, some id⟩ :: path) r' st' ∧
          Progress s noted steady (ways s passes (⟨p, some id⟩ :: path) r' planes) st st')
        (Fails K E))
    (hback : r'.rollback r.cursor = r)
    (hstep : Step s (noted st.session.kernel) path r p (⟨p, some id⟩ :: path) r')
    (h : Sound s K noted entry all past path r st) :
    Ensures (do report path p id .accepted; descend id; rollback r.cursor) { st with request := r' }
      (fun _ st' => Sound s K noted entry all past path r st' ∧
        Progress s noted steady (ways s passes (⟨p, some id⟩ :: path) r' planes) st st')
      (Fails K E) := by
  -- The step to the next plane is sound with the request that was tested.
  have hdeeper : Sound s K noted entry all (past ++ [p]) (⟨p, some id⟩ :: path) r'
      { st with request := r' } := ⟨h.session, rfl, h.walk.snoc hstep, h.best, h.hints⟩
  simp only [ensures_bind, ensures_rollback]
  refine (sound_emit hs rfl hdeeper).mono ?_ fun _ _ => False.elim
  rintro - st₁ ⟨h₁, hb₁, hk₁⟩
  refine (hdescend st₁ h₁).mono ?_ fun _ _ he => he
  rintro - st₂ ⟨h₂, hprogress⟩
  -- What was noted before the descent is noted after it.
  have hnotes : ∀ r₁, noted st.session.kernel r₁ → noted st₂.session.kernel r₁ :=
    fun r₁ hr₁ => hprogress.notes r₁ (hk₁ ▸ hr₁)
  have himproves := hprogress.improves
  rw [hb₁] at himproves
  exact ⟨h.back h₂ hback hnotes, hnotes, himproves⟩

theorem tryStaged_spec {p : Plane} {planes : List Plane} {id : LayerId} {l : Layer}
    {descend : LayerId → SearchM σ Unit}
    (hdescend : ∀ r' st, Sound s K noted entry all (past ++ [p]) (⟨p, some id⟩ :: path) r' st →
      Ensures (descend id) st
        (fun _ st' => Sound s K noted entry all (past ++ [p]) (⟨p, some id⟩ :: path) r' st' ∧
          Progress s noted steady (ways s passes (⟨p, some id⟩ :: path) r' planes) st st')
        (Fails K E))
    (free : p.isFreeFor s.output.crtcIndex = true) (mem : id ∈ s.output.layers)
    (layer : s.layer? id = some l) (opens : path.isOpen id l = true)
    (rule : s.rejection? path p id l = none) (h : Sound s K noted entry all past path r st) :
    Ensures (tryStaged s path p r.cursor descend id l) st
      (fun _ st' => Sound s K noted entry all past path r st' ∧
        Progress s noted steady (waysThrough s passes path r p planes id) st st')
      (Fails K E) := by
  simp only [tryStaged, ensures_bind]
  refine ensures_stage p l s.output.crtc (fun r' hstaged hbegins => ?_) fun why hwhy => ?_
  -- The layer could be staged.
  · rw [h.request] at hstaged hbegins
    -- All walks that put the layer here have staged the same.
    have hway : ∀ path' ∈ waysThrough s passes path r p planes id, passes r' ∧
        path' ∈ ways s passes (⟨p, some id⟩ :: path) r' planes := by
      intro path' hpath'
      obtain ⟨-, r₁, hstaged₁, pass, hbelow⟩ := mem_waysThrough layer hpath'
      rw [hstaged] at hstaged₁
      cases hstaged₁
      exact ⟨pass, hbelow⟩
    -- The new hint is about a layer that the scene knows.
    have hhints : ∀ x ∈ (id, p.id) :: st.hints, (s.layer? x.1).isSome := by
      intro x hx
      rcases List.mem_cons.mp hx with rfl | hx
      · simp [layer]
      · exact h.hints x hx
    simp only [ensures_bind, ensures_addHint]
    -- A misfit is found after staging, and the writes are taken back.
    split
    · rename_i why hwhy
      simp only [ensures_bind, ensures_rollback, hbegins.rollback]
      have hback : Sound s K noted entry all past path r
          { st with request := r, hints := (id, p.id) :: st.hints } :=
        ⟨h.session, rfl, h.walk, h.best, hhints⟩
      refine (report_spec hs (fun _ path' hpath' => ?_) hback).mono
        (fun _ _ h1 => ⟨h1.1, h1.2.notes, h1.2.improves⟩) fun _ _ he => he
      -- A placed layer fits its plane, so no walk goes through one that does not.
      have fits := (mem_waysThrough layer hpath').1.fits
      rw [hwhy] at fits
      cases fits
    · rename_i fits
      simp only [testCommit, ensures_bind, ensures_get, ensures_onSession]
      refine (hs.test r' st.session h.session).mono (fun reply session hreply => ?_) fun _ _ he => he
      obtain ⟨hsession, hnotes, hnoted, haccepts⟩ := hreply
      -- What the test noted comes before the descent.
      have htested : Sound s K noted entry all past path r
          { st with session, hints := (id, p.id) :: st.hints } := by
        have hlater := h.later hsession hnotes
        exact ⟨hsession, h.request, hlater.walk, hlater.best, hhints⟩
      split
      -- The test was accepted, so the layer is placed and the search descends.
      · have hplaced := placed_of_isOpen free mem layer opens rule fits
        have hstep := hplaced.step hstaged (hnoted rfl)
        refine (deeper_spec hs (hdescend r') hbegins.rollback hstep htested).mono ?_ fun _ _ he => he
        rintro - st₂ ⟨h₂, hprogress⟩
        refine ⟨h₂, fun r₁ hr₁ => hprogress.notes r₁ (hnotes r₁ hr₁), ?_⟩
        exact hprogress.improves.mono fun path' hpath' => (hway path' hpath').2
      -- The test was refused, which a steady driver does not do to a request that passes.
      · rename_i e
        have hrefused : steady → ∀ path', path' ∉ waysThrough s passes path r p planes id := by
          intro hsteady path' hpath'
          cases haccepts hsteady (hway path' hpath').1
        have htold := htested.later
          (hs.emit (.candidate path.length p.id id (.incompatible (.kernel e))) session rfl hsession)
          fun _ hr => hr
        simp only [ensures_bind, ensures_rollback]
        rw [report, ensures_emit, hbegins.rollback]
        refine ⟨⟨htold.session, rfl, htold.walk, htold.best, hhints⟩, ?_⟩
        exact .of_empty hnotes rfl hrefused
  -- The layer could not be staged, so no walk places it here.
  · refine report_spec hs (fun _ path' hpath' => ?_) h
    obtain ⟨-, r', hstaged, -⟩ := mem_waysThrough layer hpath'
    rw [h.request] at hwhy
    exact hwhy r' hstaged

theorem tryLayer_spec {p : Plane} {planes : List Plane} {id : LayerId}
    {descend : LayerId → SearchM σ Unit}
    (hdescend : ∀ r' st, Sound s K noted entry all (past ++ [p]) (⟨p, some id⟩ :: path) r' st →
      Ensures (descend id) st
        (fun _ st' => Sound s K noted entry all (past ++ [p]) (⟨p, some id⟩ :: path) r' st' ∧
          Progress s noted steady (ways s passes (⟨p, some id⟩ :: path) r' planes) st st')
        (Fails K E))
    (free : p.isFreeFor s.output.crtcIndex = true) (mem : id ∈ s.output.layers)
    (h : Sound s K noted entry all past path r st) :
    Ensures (tryLayer s path p r.cursor descend id) st
      (fun more st' => (Sound s K noted entry all past path r st' ∧
        Progress s noted steady (waysThrough s passes path r p planes id) st st') ∧
          (steady → more = true))
      (Fails K E) := by
  unfold tryLayer
  -- A layer that the scene does not know is passed over.
  cases layer : s.layer? id with
  | none =>
    refine ⟨⟨h, .of_empty (fun _ hr => hr) rfl fun _ path' hpath' => ?_⟩, fun _ => rfl⟩
    obtain ⟨r', hstep, -⟩ := hpath'
    cases hstep with
    | place _ _ layer' => rw [layer] at layer'; cases layer'
  | some l =>
    simp only
    by_cases opens : path.isOpen id l = true
    · simp only [opens]
      cases rule : s.rejection? path p id l with
      | some rejection =>
        simp only [Bool.not_true, Bool.false_eq_true, ↓reduceIte, ensures_bind, ensures_pure]
        refine (report_spec hs (fun _ path' hpath' => ?_) h).mono
          (fun _ _ h1 => ⟨h1, fun _ => trivial⟩) fun _ _ he => he
        -- A walk through this layer would obey the rule that it breaks.
        have hnone := (mem_waysThrough layer hpath').1.rule
        rw [rule] at hnone
        cases hnone
      | none =>
        simp only [Bool.not_true, Bool.false_eq_true, ↓reduceIte, ensures_bind, ensures_now]
        -- The clock is asked; only a driver that is not steady may say that it is too late.
        obtain ⟨hnow, hnotes, hsoon⟩ := hs.now st.session h.session
        have hlooked := h.later hnow hnotes
        split
        · rename_i htimeout
          simp only [ensures_bind, ensures_pure]
          refine (sound_emit hs rfl hlooked).mono ?_ fun _ _ => False.elim
          rintro - st1 ⟨h1, hb1, hk1⟩
          refine ⟨⟨h1, .of_empty (fun r' hr' => ?_) hb1 fun hsteady => ?_⟩, fun hsteady => ?_⟩
          · rw [hk1]
            exact hnotes r' hr'
          · exact absurd htimeout (hsoon hsteady)
          · exact absurd htimeout (hsoon hsteady)
        · simp only [ensures_bind, ensures_pure]
          refine (tryStaged_spec hs hdescend free mem layer opens rule hlooked).mono ?_ fun _ _ he => he
          rintro - st1 ⟨h1, hprogress⟩
          refine ⟨⟨h1, ?_⟩, fun _ => trivial⟩
          exact ⟨fun r' hr' => hprogress.notes r' (hnotes r' hr'), hprogress.improves⟩
    -- The layer is not open: it is placed already or not visible.
    · simp only [opens, Bool.not_false, ↓reduceIte, ensures_pure]
      refine ⟨⟨h, .of_empty (fun _ hr => hr) rfl fun hsteady path' hpath' => ?_⟩, fun _ => trivial⟩
      obtain ⟨hplaced, -⟩ := mem_waysThrough layer hpath'
      have hunplaced := hs.unplaced hsteady id mem l layer
      exact opens (isOpen_eq_true_iff.mpr ⟨hunplaced, hplaced.visible, hplaced.fresh⟩)

theorem tryLayers_spec {p : Plane} {planes : List Plane} {ids : List LayerId}
    {descend : LayerId → SearchM σ Unit}
    (hdescend : ∀ id r' st, Sound s K noted entry all (past ++ [p]) (⟨p, some id⟩ :: path) r' st →
      Ensures (descend id) st
        (fun _ st' => Sound s K noted entry all (past ++ [p]) (⟨p, some id⟩ :: path) r' st' ∧
          Progress s noted steady (ways s passes (⟨p, some id⟩ :: path) r' planes) st st')
        (Fails K E))
    (free : p.isFreeFor s.output.crtcIndex = true) (hids : ids ⊆ s.output.layers)
    (h : Sound s K noted entry all past path r st) :
    Ensures (tryLayers s path p r.cursor descend ids) st
      (fun _ st' => Sound s K noted entry all past path r st' ∧ Progress s noted steady
        {path' | ∃ id ∈ ids, path' ∈ waysThrough s passes path r p planes id} st st')
      (Fails K E) := by
  -- Induction on the layers left to try. What the first one covers stays covered.
  induction ids generalizing st with
  | nil =>
    refine ⟨h, .of_empty (fun _ hr => hr) rfl fun _ path' hpath' => ?_⟩
    obtain ⟨_, hmem, -⟩ := hpath'
    cases hmem
  | cons id ids ih =>
    obtain ⟨mem, hids⟩ := List.cons_subset.mp hids
    simp only [tryLayers, ensures_bind]
    refine (tryLayer_spec hs (hdescend id) free mem h).mono ?_ fun _ _ he => he
    rintro more st1 ⟨⟨h1, hprogress⟩, hmore⟩
    -- A path found through the list goes through its first layer or through one of the others.
    have hsplit : ∀ path' ∈ {path' | ∃ id' ∈ id :: ids,
        path' ∈ waysThrough s passes path r p planes id'},
        path' ∈ waysThrough s passes path r p planes id ∨
          path' ∈ {path' | ∃ id' ∈ ids, path' ∈ waysThrough s passes path r p planes id'} := by
      rintro path' ⟨id', hmem, hpath'⟩
      rcases List.mem_cons.mp hmem with rfl | hmem
      · exact .inl hpath'
      · exact .inr ⟨id', hmem, hpath'⟩
    split
    · refine (ih hids h1).mono ?_ fun _ _ he => he
      rintro - st2 ⟨h2, hprogress'⟩
      exact ⟨h2, hprogress.append hprogress' hsplit⟩
    -- Only a driver that is not steady stops the tries.
    · rename_i hstop
      refine ⟨h1, hprogress.append (.of_empty (fun _ hr => hr) rfl fun hsteady => ?_) hsplit⟩
      exact absurd (hmore hsteady) hstop

/-- Wherever a search has got to, it keeps nothing but allocations, leaves the request as it found it
when it returns, and answers nothing worse than what lies ahead if the driver is steady. -/
theorem choose_spec {planes : List Plane} (hpast : past ++ planes = all)
    (h : Sound s K noted entry all past path r st) :
    Ensures (choose s planes path) st
      (fun _ st' => Sound s K noted entry all past path r st' ∧
        Progress s noted steady (ways s passes path r planes) st st') (Fails K E) := by
  induction planes generalizing path r past st with
  | nil =>
    obtain rfl : past = all := by simpa using hpast
    refine (finish_spec hs h).mono (fun _ st1 h1 => ⟨h1.1, h1.2.mono ?_⟩) fun _ _ => False.elim
    rintro path' ⟨r', hw'⟩
    cases hw'
    rfl
  | cons p planes ih =>
    have hpast' : (past ++ [p]) ++ planes = all := by simpa using hpast
    simp only [choose, ensures_bind, ensures_get]
    -- The branch may be given up when nothing below can be better.
    split
    · rename_i hhopeless
      exact ⟨h, fun _ hr => hr, .of_isHopeless hhopeless⟩
    · simp only [ensures_bind, ensures_get, h.request]
      -- After the layers the empty plane is tried, and its rollback finds nothing to forget.
      have hrest : ∀ st, Sound s K noted entry all past path r st →
          Ensures (choose s planes (⟨p, none⟩ :: path)) st
            (fun _ st1 => Sound s K noted entry all past path r
                { st1 with request := st1.request.rollback r.cursor } ∧
              Progress s noted steady (ways s passes (⟨p, none⟩ :: path) r planes) st st1)
            (Fails K E) := by
        intro st h
        have hleft : Sound s K noted entry all (past ++ [p]) (⟨p, none⟩ :: path) r st :=
          ⟨h.session, h.request, h.walk.snoc .leave, h.best, h.hints⟩
        refine (ih hpast' hleft).mono ?_ fun _ _ he => he
        rintro - st1 ⟨h1, hprogress⟩
        exact ⟨h.back h1 r.rollback_cursor hprogress.notes, hprogress⟩
      split
      · rename_i free
        simp only [ensures_bind, ensures_rollback]
        refine (tryLayers_spec hs (fun id r' st h => ih hpast' h) free
          (List.Subset.refl _) h).mono ?_ fun _ _ he => he
        rintro - st1 ⟨h1, hprogress⟩
        refine (hrest st1 h1).mono ?_ fun _ _ he => he
        rintro - st2 ⟨h2, hprogress'⟩
        -- What is found below is found through a layer or with the plane left empty.
        have hboth : Progress s noted steady (ways s passes path r (p :: planes)) st st2 := by
          apply hprogress.append hprogress'
          intro path' hpath'
          rcases mem_ways_cons hpath' with hempty | ⟨-, hthrough⟩
          · exact .inr hempty
          · exact .inl hthrough
        exact ⟨h2, hboth.notes, hboth.improves⟩
      -- A plane that is taken is only passed by, so all paths leave it empty.
      · rename_i hbusy
        simp only [ensures_bind, ensures_rollback]
        refine (hrest st h).mono ?_ fun _ _ he => he
        rintro - st1 ⟨h1, hprogress⟩
        refine ⟨h1, hprogress.notes, hprogress.improves.mono fun path' hpath' => ?_⟩
        rcases mem_ways_cons hpath' with hempty | ⟨hfree, -⟩
        · exact hempty
        · exact absurd hfree hbusy

end Found

end Search
end Scanout
