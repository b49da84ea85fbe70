import Scanout.Proofs.Search.Choose

/-! What a search asks the driver. It goes through the choices depth first and asks about each one that
the rules allow, on top of what the choices before it have staged. Branches may be left out, but nothing
of a branch that was left stays staged for the next one. -/

namespace Scanout
namespace Search

variable {σ : Type}

/-- One question to the driver: the path that the search stood on, what was staged then, how often the
question was interrupted, and the answer, unless there is none. -/
structure Trial where
  path : Path
  request : Request
  interruptions : List Errno
  reply : Option (Except Errno Unit)
  interrupted : ∀ e ∈ interruptions, e.isTransient = true

/-- The driver is asked about a layer on a plane that it may stand on after `path`, staged on top of
`r`. -/
structure Tried (s : Scene) (path : Path) (r : Request) (p : Plane) (id : LayerId) (l : Layer)
    (t : Trial) : Prop extends Placed s path p id l where
  takes : p.Takes l
  path_eq : t.path = ⟨p, some id⟩ :: path
  request_eq : t.request = r.append (Choice.writes s ⟨p, some id⟩)

/-- Layers are tried on a plane one after the other, until the search stops. What follows an accepted
choice is told by `deeper`. -/
inductive Tries (s : Scene) (path : Path) (r : Request) (p : Plane)
    (deeper : Choice → List Trial → Prop) : List LayerId → List Trial → Prop
  | stop {ids} : Tries s path r p deeper ids []
  | skip {id ids ts} : Tries s path r p deeper ids ts → Tries s path r p deeper (id :: ids) ts
  | refused {id ids l t ts} (tried : Tried s path r p id l t) (refused : t.reply ≠ some (.ok ())) :
      Tries s path r p deeper ids ts → Tries s path r p deeper (id :: ids) (t :: ts)
  | accepted {id ids l t ts ts'} (tried : Tried s path r p id l t) (accepted : t.reply = some (.ok ()))
      (below : deeper ⟨p, some id⟩ ts) :
      Tries s path r p deeper ids ts' → Tries s path r p deeper (id :: ids) (t :: ts ++ ts')

/-- The questions of a search that stands on `path` with `r` staged: first with a layer on the next
plane, then with the plane empty. -/
def Tour (s : Scene) : List Plane → Path → Request → List Trial → Prop
  | [], _, _, ts => ts = []
  | p :: planes, path, r, ts => ∃ tried left, ts = tried ++ left ∧
      Tries s path r p (fun c => Tour s planes (c :: path) (r.append (c.writes s))) s.output.layers
        tried ∧
      Tour s planes (⟨p, none⟩ :: path) r left

section Tours

variable {s : Scene} {path : Path} {r : Request} {p : Plane} {deeper : Choice → List Trial → Prop}

theorem Tries.skipAll {ids ids' : List LayerId} {ts : List Trial}
    (h : Tries s path r p deeper ids' ts) : Tries s path r p deeper (ids ++ ids') ts := by
  induction ids with
  | nil => exact h
  | cons _ _ ih => exact .skip ih

/-- Tries of two lists, one after the other, are the tries of both together. -/
theorem Tries.append {ids ids' : List LayerId} {ts ts' : List Trial}
    (h : Tries s path r p deeper ids ts) (h' : Tries s path r p deeper ids' ts') :
    Tries s path r p deeper (ids ++ ids') (ts ++ ts') := by
  -- Induction on the first tries; those of the second list follow the last of them.
  induction h with
  | stop => exact h'.skipAll
  | skip _ ih => exact .skip ih
  | refused tried refused _ ih => exact .refused tried refused ih
  | accepted tried accepted below _ ih =>
    rw [List.append_assoc]
    exact .accepted tried accepted below ih

/-- What holds of a question with a layer on this plane, and of all that follow an accepted one, holds of
all questions. -/
theorem Tries.forall {P : Trial → Prop} {ids : List LayerId} {ts : List Trial}
    (h : Tries s path r p deeper ids ts) (hhere : ∀ id l t, Tried s path r p id l t → P t)
    (hbelow : ∀ id l ts, Placed s path p id l → deeper ⟨p, some id⟩ ts → ∀ t ∈ ts, P t) :
    ∀ t ∈ ts, P t := by
  -- A trial was made for this plane, or below one that was accepted.
  induction h with
  | stop => exact fun t ht => nomatch ht
  | skip _ ih => exact ih
  | refused tried _ _ ih => exact List.forall_mem_cons.mpr ⟨hhere _ _ _ tried, ih⟩
  | accepted tried _ below _ ih =>
    have hfirst := List.forall_mem_cons.mpr
      ⟨hhere _ _ _ tried, hbelow _ _ _ tried.toPlaced below⟩
    exact fun t ht => (List.mem_append.mp ht).elim (hfirst t) (ih t)

/-- A search may stop before its first question. -/
theorem Tour.nil (s : Scene) (planes : List Plane) (path : Path) (r : Request) :
    Tour s planes path r [] := by
  induction planes generalizing path r with
  | nil => rfl
  | cons p planes ih => exact ⟨[], [], rfl, .stop, ih _ r⟩

end Tours

def Path.staged (s : Scene) (entry : Request) (path : Path) : Request :=
  entry.append (path.reverse.flatMap (Choice.writes s))

theorem Path.staged_cons (s : Scene) (entry : Request) (c : Choice) (path : Path) :
    Path.staged s entry (c :: path) = (Path.staged s entry path).append (c.writes s) := by
  simp [Path.staged, Request.append]

theorem Choice.writes_empty (s : Scene) (p : Plane) : Choice.writes s ⟨p, none⟩ = [] := rfl

theorem Path.staged_empty (s : Scene) (entry : Request) (p : Plane) (path : Path) :
    Path.staged s entry (⟨p, none⟩ :: path) = Path.staged s entry path := by
  rw [Path.staged_cons, Choice.writes_empty]
  simp [Request.append]

theorem Legal.cons {s : Scene} {path : Path} (h : Legal s path) {c : Choice}
    (hc : ∀ id, c.layer = some id → ∃ l, Placed s path c.plane id l) : Legal s (c :: path) := by
  intro later c' earlier id he hid
  cases later with
  | nil =>
    obtain ⟨rfl, rfl⟩ := List.cons.inj he
    exact hc id hid
  | cons _ later => exact h later c' earlier id (List.cons.inj he).2 hid

/-- A question says what its path says: the choices are staged on top of the entry and nothing else,
each layer was allowed on its plane, and the planes come in their order. -/
structure Trial.Says (s : Scene) (entry : Request) (planes : List Plane) (t : Trial) : Prop where
  request : t.request = t.path.staged s entry
  legal : Legal s t.path
  visits : (t.path.reverse.map Choice.plane) <+: planes

/-- Every question of a tour says what its path says, if the tour starts so. -/
theorem Tour.says {s : Scene} {entry : Request} {all past planes : List Plane} {path : Path}
    {ts : List Trial} (h : Tour s planes path (path.staged s entry) ts) (hlegal : Legal s path)
    (hpast : path.reverse.map Choice.plane = past) (hall : past ++ planes = all) :
    ∀ t ∈ ts, t.Says s entry all := by
  induction planes generalizing path past ts with
  | nil =>
    obtain rfl : ts = [] := h
    exact fun t ht => nomatch ht
  | cons p planes ih =>
    obtain ⟨tried, left, rfl, htries, hleft⟩ := h
    have hall' : (past ++ [p]) ++ planes = all := by rw [List.append_assoc, ← hall]; rfl
    -- The new choice is about the plane that comes next.
    have hnext : ∀ id : Option LayerId,
        (List.reverse (⟨p, id⟩ :: path)).map Choice.plane = past ++ [p] := by
      intro id
      simp [hpast]
    intro t ht
    -- Trials with a layer on this plane come before those that leave it empty.
    rcases List.mem_append.mp ht with ht | ht
    · refine htries.forall (fun id l t htried => ?_) (fun id l ds hplaced hbelow => ?_) t ht
      -- A trial for this plane extends the path by one legal choice.
      · have hcons : Legal s (⟨p, some id⟩ :: path) := by
          apply hlegal.cons
          rintro id' ⟨⟩
          exact ⟨l, htried.toPlaced⟩
        refine ⟨?_, htried.path_eq ▸ hcons, ?_⟩
        · rw [htried.request_eq, htried.path_eq, Path.staged_cons]
        · rw [htried.path_eq, hnext, ← hall']
          exact List.prefix_append _ _
      -- Trials below it extend the path further.
      · rw [← Path.staged_cons] at hbelow
        refine ih hbelow (hlegal.cons ?_) (hnext (some id)) hall'
        rintro id' ⟨⟩
        exact ⟨l, hplaced⟩
    -- With the plane left empty nothing more is staged.
    · rw [← Path.staged_empty s entry p path] at hleft
      exact ih hleft (hlegal.cons nofun) (hnext none) hall' t ht

/-- A tour that starts with nothing chosen has the entry of its questions staged. -/
theorem Tour.says_entry {s : Scene} {entry : Request} {planes : List Plane} {ts : List Trial}
    (h : Tour s planes [] entry ts) : ∀ t ∈ ts, t.Says s entry planes := by
  have hstart : Path.staged s entry [] = entry := by simp [Path.staged, Request.append]
  rw [← hstart] at h
  exact h.says (legal_nil s) rfl (List.nil_append _)

/-- What is known of the driver after it was asked some questions: `A` tells it from before. -/
structure Tracks [Kernel σ] (flags : CommitFlags) (A : σ → List Trial → σ → Prop) : Prop where
  nil : ∀ k, A k [] k
  append : ∀ {k k₁ k₂ ts ts'}, A k ts k₁ → A k₁ ts' k₂ → A k (ts ++ ts') k₂
  now : ∀ k, A k [] (Kernel.now k).2
  test : ∀ k path r, ∃ t : Trial, t.path = path ∧ t.request = r ∧
    t.reply = (Kernel.test k r flags).1 ∧ A k [t] (Kernel.test k r flags).2

/-- Questions of which `T` tells were asked, and planes were noted for layers of the output only. -/
structure Asked (A : σ → List Trial → σ → Prop) (s : Scene) (T : List Trial → Prop)
    (st st' : State σ) : Prop where
  trials : ∃ ts, T ts ∧ A st.session.kernel ts st'.session.kernel
  hints : ∀ h ∈ st'.hints, h ∈ st.hints ∨ h.1 ∈ s.output.layers

def Makes {α : Type} (A : σ → List Trial → σ → Prop) (s : Scene) (T : List Trial → Prop)
    (x : SearchM σ α) (st : State σ) : Prop :=
  Ensures x st (fun _ st' => st'.request = st.request ∧ Asked A s T st st') fun _ => Asked A s T st

section Makes

variable [Kernel σ] {s : Scene} {A : σ → List Trial → σ → Prop} (hA : Tracks s.flags A)
  {st : State σ} {T T' U : List Trial → Prop} {α β : Type}

theorem Asked.trans (hA : Tracks s.flags A) {st₁ st₂ : State σ} (h : Asked A s T st st₁)
    (h' : Asked A s T' st₁ st₂) (hU : ∀ ts ts', T ts → T' ts' → U (ts ++ ts')) :
    Asked A s U st st₂ := by
  obtain ⟨ts, hts, hasked⟩ := h.trials
  obtain ⟨ts', hts', hasked'⟩ := h'.trials
  refine ⟨⟨ts ++ ts', hU ts ts' hts hts', hA.append hasked hasked'⟩, fun x hx => ?_⟩
  rcases h'.hints x hx with hx | hx
  · exact h.hints x hx
  · exact .inr hx

include hA

/-- Nothing is asked where the driver stays as it is. -/
theorem asked_nil {st' : State σ} (hkernel : st'.session.kernel = st.session.kernel)
    (hhints : st'.hints = st.hints) : Asked A s (· = []) st st' :=
  ⟨⟨[], rfl, hkernel ▸ hA.nil _⟩, fun _ hx => .inl (hhints ▸ hx)⟩

theorem Makes.bind {x : SearchM σ α} {f : α → SearchM σ β} (hx : Makes A s T x st)
    (hf : ∀ a st₁, st₁.request = st.request → Makes A s T' (f a) st₁) (hT' : T' [])
    (hU : ∀ ts ts', T ts → T' ts' → U (ts ++ ts')) : Makes A s U (x >>= f) st := by
  unfold Makes
  rw [ensures_bind]
  -- When the second part asks nothing, the trials of the first are all there are.
  have hlast : ∀ ts ts', T ts → ts' = [] → U (ts ++ ts') := by
    rintro ts _ hts rfl
    exact hU ts [] hts hT'
  refine Ensures.mono hx ?_ fun e st₁ h => h.trans hA (asked_nil hA rfl rfl) hlast
  rintro a st₁ ⟨hrequest, h⟩
  refine Ensures.mono (hf a st₁ hrequest) ?_ fun e st₂ h' => h.trans hA h' hU
  rintro b st₂ ⟨hrequest', h'⟩
  exact ⟨hrequest'.trans hrequest, h.trans hA h' hU⟩

/-- Where nothing is asked at first, all is told by what follows. -/
theorem Makes.after {x : SearchM σ α} {f : α → SearchM σ β} (hx : Makes A s (· = []) x st)
    (hf : ∀ a st₁, st₁.request = st.request → Makes A s U (f a) st₁) (hU : U []) :
    Makes A s U (x >>= f) st := by
  apply hx.bind hA hf hU
  rintro _ ts rfl hts
  exact hts

omit [Kernel σ] hA in
theorem Makes.imp {x : SearchM σ α} (hx : Makes A s T x st) (hT : ∀ ts, T ts → U ts) :
    Makes A s U x st := by
  have hasked : ∀ {st'}, Asked A s T st st' → Asked A s U st st' := by
    rintro st' ⟨⟨ts, hts, hasked⟩, hhints⟩
    exact ⟨⟨ts, hT ts hts, hasked⟩, hhints⟩
  exact Ensures.mono hx (fun _ _ h => ⟨h.1, hasked h.2⟩) fun _ _ h => hasked h

omit [Kernel σ] hA in
theorem Makes.of_nil {x : SearchM σ α} (hx : Makes A s (· = []) x st) (hT : T []) :
    Makes A s T x st := by
  apply hx.imp
  rintro _ rfl
  exact hT

theorem makes_pure (a : α) : Makes A s (· = []) (pure a) st :=
  ⟨rfl, asked_nil hA rfl rfl⟩

omit [Kernel σ] hA in
theorem makes_get {f : State σ → SearchM σ α} (h : Makes A s T (f st) st) : Makes A s T (get >>= f) st :=
  h

theorem makes_emit (e : Event) : Makes A s (· = []) (emit e) st :=
  ⟨rfl, asked_nil hA rfl rfl⟩

theorem makes_now : Makes A s (· = []) (onSession Session.now) st :=
  ⟨rfl, ⟨[], rfl, hA.now _⟩, fun _ hx => .inl hx⟩

/-- A test is one question, and it passes only if the driver says yes. -/
theorem makes_testCommit (path : Path) (st : State σ) :
    ∃ t : Trial, t.path = path ∧ t.request = st.request ∧
      Ensures (testCommit s) st
        (fun reply st' => st'.request = st.request ∧ Asked A s (· = [t]) st st' ∧
          (reply = none ↔ t.reply = some (.ok ())))
        (fun _ st' => Asked A s (· = [t]) st st' ∧ t.reply ≠ some (.ok ())) := by
  obtain ⟨t, hpath, hrequest, hreply, hasked⟩ := hA.test st.session.kernel path st.request
  -- The answer given is the answer of the driver to this request.
  refine ⟨t, hpath, hrequest, ?_⟩
  simp only [testCommit, ensures_bind, ensures_get, ensures_onSession]
  refine (Session.testCommit_spec st.request s.flags st.session).mono ?_ ?_
  · rintro reply session ⟨hkernel, -, hanswer⟩
    rw [← hkernel] at hasked
    rw [← hreply] at hanswer
    refine ⟨trivial, ⟨⟨[t], rfl, hasked⟩, fun _ hx => .inl hx⟩, ?_⟩
    cases reply <;> simp [hanswer]
  -- An error is a refusal that may not be overlooked, or no answer at all.
  · rintro e session ⟨hkernel, -, he⟩
    rw [← hkernel] at hasked
    refine ⟨⟨⟨[t], rfl, hasked⟩, fun _ hx => .inl hx⟩, ?_⟩
    rw [hreply]
    intro hok
    rw [hok] at he
    split at he
    · cases he
    · cases he.1
    · exact he

theorem makes_finish (path : Path) : Makes A s (· = []) (finish s path) st := by
  unfold finish Makes
  simp only [ensures_bind, ensures_get]
  split
  · rw [ensures_bind, ensures_modify, ensures_emit]
    exact ⟨rfl, asked_nil hA rfl rfl⟩
  · exact makes_pure hA ()

section Layers

variable {path : Path} {r : Request} {p : Plane} {deeper : Choice → List Trial → Prop}
  {descend : LayerId → SearchM σ Unit} (hr : st.request = r)
  (hdescend : ∀ id st', st'.request = r.append (Choice.writes s ⟨p, some id⟩) →
    Makes A s (deeper ⟨p, some id⟩) (descend id) st')
include hr hdescend

/-- A layer that can be staged is asked about, unless it does not fit, and is not staged any more in the
end. -/
theorem makes_tryStaged {id : LayerId} {l : Layer} (free : p.isFreeFor s.output.crtcIndex = true)
    (mem : id ∈ s.output.layers) (layer : s.layer? id = some l) (opens : path.isOpen id l = true)
    (rule : s.rejection? path p id l = none) :
    Makes A s (Tries s path r p deeper [id])
      (tryStaged s path p r.cursor descend id l) st := by
  unfold Makes
  simp only [tryStaged, ensures_bind]
  refine ensures_stage p l s.output.crtc (fun r' hstaged hbegins => ?_) fun why _ => ?_
  · obtain ⟨hstages, htakes⟩ := p.adds_stageLayer l s.output.crtc st.request r' hstaged
    -- The request is the one before with the writes of this choice.
    have hwrites : r' = r.append (Choice.writes s ⟨p, some id⟩) := by
      rw [hstages, hr, Choice.writes, show s.chosen? ⟨p, some id⟩ = some l from layer]
    have hback : r'.rollback r.cursor = st.request := by rw [← hr]; exact hbegins.rollback
    let st₀ : State σ := { st with request := r', hints := (id, p.id) :: st.hints }
    have hhinted : Asked A s (· = []) st st₀ := by
      -- The hint names the layer on trial.
      refine ⟨⟨[], rfl, hA.nil _⟩, fun x hx => ?_⟩
      rcases List.mem_cons.mp hx with rfl | hx
      · exact .inr mem
      · exact .inl hx
    simp only [ensures_bind, ensures_addHint]
    split
    -- A misfit is found without asking the driver.
    · simp only [report, ensures_bind, ensures_rollback, ensures_emit]
      exact ⟨hback, ⟨[], .stop, hA.nil _⟩, hhinted.hints⟩
    · rename_i fits
      rw [ensures_bind]
      obtain ⟨t, hpath, hrequest, htest⟩ := makes_testCommit hA (⟨p, some id⟩ :: path) st₀
      have htried : Tried s path r p id l t :=
        ⟨placed_of_isOpen free mem layer opens rule fits, htakes, hpath, hrequest.trans hwrites⟩
      -- Adding the hint asks nothing, so what was asked before is unchanged.
      have hfirst : ∀ {st₁}, Asked A s (· = [t]) st₀ st₁ → Asked A s (· = [t]) st st₁ := by
        intro st₁ h₁
        apply hhinted.trans hA h₁
        rintro _ _ rfl rfl
        rfl
      refine htest.mono ?_ ?_
      · rintro reply st₁ ⟨hrequest₁, hasked, hreply⟩
        have h₁ := hfirst hasked
        have hback₁ : st₁.request.rollback r.cursor = st.request := by rw [hrequest₁]; exact hback
        cases reply with
        | none =>
          -- The choice was accepted, and what follows it is forgotten with it.
          have hbelow : ∀ ts ts', ts = [t] → deeper ⟨p, some id⟩ ts' →
              Tries s path r p deeper [id] (ts ++ ts') := by
            rintro _ ts' rfl hts'
            have h : Tries s path r p deeper [id] (t :: ts' ++ []) :=
              .accepted htried (hreply.mp rfl) hts' .stop
            rwa [List.append_nil] at h
          simp only [report, ensures_bind, ensures_emit, ensures_rollback]
          let st₂ : State σ := { st₁ with session := { st₁.session with
            trace := .candidate path.length p.id id .accepted :: st₁.session.trace } }
          have h₂ : Asked A s (· = [t]) st st₂ := ⟨h₁.trials, h₁.hints⟩
          refine Ensures.mono (hdescend id st₂ (hrequest₁.trans hwrites)) ?_ fun _ st₃ h₃ => ?_
          · rintro - st₃ ⟨hrequest₃, h₃⟩
            have h := h₂.trans hA h₃ hbelow
            refine ⟨?_, h.trials, h.hints⟩
            rw [hrequest₃]
            exact hback₁
          · exact h₂.trans hA h₃ hbelow
        -- A refusal ends the trial, and the layer's writes are taken back.
        | some e =>
          simp only [report, ensures_bind, ensures_emit, ensures_rollback]
          have hrefused : t.reply ≠ some (.ok ()) := fun hok => by cases hreply.mpr hok
          obtain ⟨_, rfl, hasked₁⟩ := h₁.trials
          exact ⟨hback₁, ⟨[t], .refused htried hrefused .stop, hasked₁⟩, h₁.hints⟩
      -- With an error the search is over, and the trial is the last one.
      · rintro e st₁ ⟨hasked, hrefused⟩
        obtain ⟨⟨_, rfl, hasked₁⟩, hhints₁⟩ := hfirst hasked
        exact ⟨⟨[t], .refused htried hrefused .stop, hasked₁⟩, hhints₁⟩
  -- A layer that cannot be staged makes no trial.
  · exact (makes_emit hA _).of_nil .stop

/-- Before a layer is staged the rules and the clock have their say, and the driver is not asked. -/
theorem makes_tryLayer {id : LayerId} (free : p.isFreeFor s.output.crtcIndex = true)
    (mem : id ∈ s.output.layers) :
    Makes A s (Tries s path r p deeper [id]) (tryLayer s path p r.cursor descend id) st := by
  unfold tryLayer
  cases layer : s.layer? id with
  | none => exact (makes_pure hA true).of_nil .stop
  | some l =>
    by_cases opens : path.isOpen id l = true
    · simp only [opens, Bool.not_true, Bool.false_eq_true, ↓reduceIte]
      cases rule : s.rejection? path p id l with
      | some rejection =>
        exact (makes_emit hA _).after hA (fun _ _ _ => (makes_pure hA true).of_nil .stop) .stop
      | none =>
        -- Looking at the clock is no trial.
        refine (makes_now hA).after hA (fun now st₁ hr₁ => ?_) .stop
        split
        · exact (makes_emit hA _).after hA (fun _ _ _ => (makes_pure hA false).of_nil .stop) .stop
        · have hend : ∀ (_ : Unit) st₂, st₂.request = st₁.request →
              Makes A s (· = []) (pure true : SearchM σ Bool) st₂ := fun _ _ _ => makes_pure hA true
          refine (makes_tryStaged hA (hr₁.trans hr) hdescend free mem layer opens rule).bind hA
            hend rfl ?_
          rintro ts _ hts rfl
          rwa [List.append_nil]
    -- A closed layer is passed over without a trial.
    · simp only [opens, Bool.not_false, ↓reduceIte]
      exact (makes_pure hA true).of_nil .stop

theorem makes_tryLayers (free : p.isFreeFor s.output.crtcIndex = true) {ids : List LayerId}
    (hids : ids ⊆ s.output.layers) :
    Makes A s (Tries s path r p deeper ids) (tryLayers s path p r.cursor descend ids) st := by
  -- Induction on the layers to try; the trials of each follow those of the ones before.
  induction ids generalizing st with
  | nil => exact (makes_pure hA ()).of_nil .stop
  | cons id ids ih =>
    obtain ⟨mem, hids⟩ := List.cons_subset.mp hids
    refine (makes_tryLayer hA hr hdescend free mem).bind hA (fun more st₁ hr₁ => ?_) .stop
      fun _ _ => Tries.append
    split
    · exact ih (hr₁.trans hr) hids
    · exact (makes_pure hA ()).of_nil .stop

end Layers

/-- Wherever a search has got to, what it asks from there on is a tour, and it hands the request back as
it was if it returns. -/
theorem makes_choose {planes : List Plane} {path : Path} {r : Request} (hr : st.request = r) :
    Makes A s (Tour s planes path r) (choose s planes path) st := by
  induction planes generalizing path r st with
  | nil => exact makes_finish hA path
  | cons p planes ih =>
    have hstop : Tour s (p :: planes) path r [] := .nil s (p :: planes) path r
    -- The empty plane comes last, and the rollback after it finds nothing to forget.
    have hleave : ∀ st₁, st₁.request = r → Makes A s (Tour s planes (⟨p, none⟩ :: path) r)
        (do choose s planes (⟨p, none⟩ :: path); rollback r.cursor) st₁ := by
      intro st₁ hr₁
      unfold Makes
      rw [ensures_bind]
      refine Ensures.mono (ih hr₁) ?_ fun _ _ h => h
      rintro - st₂ ⟨hr₂, h₂⟩
      refine ⟨?_, h₂.trials, h₂.hints⟩
      show st₂.request.rollback r.cursor = st₁.request
      rw [hr₂, hr₁, Request.rollback_cursor]
    -- First the layers, then the empty plane.
    have hjoin : ∀ ts ts', Tries s path r p
        (fun c => Tour s planes (c :: path) (r.append (c.writes s))) s.output.layers ts →
        Tour s planes (⟨p, none⟩ :: path) r ts' → Tour s (p :: planes) path r (ts ++ ts') :=
      fun ts ts' hts hts' => ⟨ts, ts', rfl, hts, hts'⟩
    unfold choose
    apply makes_get
    split
    · exact (makes_pure hA ()).of_nil hstop
    · apply makes_get
      rw [hr]
      split
      · rename_i free
        exact (makes_tryLayers hA hr (fun id st' hr' => ih hr') free (List.Subset.refl _)).bind hA
          (fun _ st₁ hr₁ => hleave st₁ (hr₁.trans hr)) (.nil s planes _ r) hjoin
      · refine Makes.imp (hleave st hr) fun ts hts => ?_
        exact hjoin [] ts .stop hts

end Makes

end Search
end Scanout
