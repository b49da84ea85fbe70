import Scanout.Proofs.Allocation.Composition
import Scanout.Proofs.Search.Moments

/-! What becomes of a search whose time is up. From the first look at the clock that says so, the driver is
asked for nothing but the time, and each plane with a layer that the rules allow tells the deadline
instead. The search still comes to its end: it leaves all planes to come empty, on its own path and on
every part of it, and only the first of these may be better than what it has found before. -/

namespace Scanout
namespace Search

variable {σ : Type}

section Suffixes

variable {s : Scene} {path earlier : Path}

theorem score_le_of_suffix (s : Scene) (h : earlier <:+ path) : s.score earlier ≤ s.score path :=
  h.sublist.countP_le

theorem holds_of_suffix (h : earlier <:+ path) {id : LayerId} (hid : earlier.holds id = true) :
    path.holds id = true := by
  obtain ⟨c, hc, hlayer⟩ := List.any_eq_true.mp hid
  exact List.any_eq_true.mpr ⟨c, h.subset hc, hlayer⟩

/-- While some layer could still be placed, a path is an allocation if what it began with is one: what was
left out before is left out still. -/
theorem Candidate.isValid_of_suffix {p : Plane} {id : LayerId} {l : Layer}
    (h : Candidate s path p id l) (mem : id ∈ s.output.layers) (hlegal : Legal s path)
    (hnodup : s.output.layers.Nodup) (hsuffix : earlier <:+ path)
    (hvalid : s.isValid earlier = true) : s.isValid path = true := by
  obtain ⟨-, hvisible, hfresh⟩ := isOpen_eq_true_iff.mp h.opens
  -- Without a composition layer every path is valid.
  cases hcomposition : s.output.compositionLayer with
  | none =>
    have hnone : ∀ c : Choice, c.layer.any s.isComposition = false := by
      intro c
      cases c.layer <;> simp [Scene.isComposition, hcomposition]
    simp [Scene.isValid, Scene.isComposited, hcomposition, hnone]
  | some c =>
    -- A path is valid if just one is placed of what receives the composition and all the others together.
    rw [(hlegal.of_suffix hsuffix).isValid_iff hnodup hcomposition] at hvalid
    rw [hlegal.isValid_iff hnodup hcomposition]
    by_cases hself : id = c
    · -- What receives the composition is not placed, so all others are.
      subst hself
      have hnot : earlier.holds id ≠ true := fun hid => by
        rw [holds_of_suffix hsuffix hid] at hfresh
        cases hfresh
      have hall := not_not.mp (mt hvalid.mpr hnot)
      have hall' : ∀ id ∈ s.ordinary, path.holds id = true :=
        fun id hid => holds_of_suffix hsuffix (hall id hid)
      exact iff_of_false (by simp [hfresh]) (not_not.mpr hall')
    · -- The layer itself is left out, so what receives the composition is placed.
      have hordinary : id ∈ s.ordinary := by
        apply List.mem_filter.mpr
        refine ⟨mem, ?_⟩
        simp [h.layer, hvisible, Scene.isComposition, hcomposition, Ne.symm hself]
      have hleft : ¬ ∀ id ∈ s.ordinary, path.holds id = true := fun hall => by
        rw [hall id hordinary] at hfresh
        cases hfresh
      have hleft' : ¬ ∀ id ∈ s.ordinary, earlier.holds id = true :=
        fun hall => hleft fun id hid => holds_of_suffix hsuffix (hall id hid)
      exact iff_of_true (holds_of_suffix hsuffix (hvalid.mpr hleft')) hleft

end Suffixes

section Expiry

variable [Kernel σ] {s : Scene}

structure OnlyLooks (st st' : State σ) : Prop where
  looks : Relation.ReflTransGen (fun k k' : σ => k' = (Kernel.now k).2) st.session.kernel
    st'.session.kernel
  tests : st'.session.testCommits = st.session.testCommits

instance : IsPreorder (State σ) OnlyLooks where
  refl _ := ⟨.refl, rfl⟩
  trans _ _ _ h h' := ⟨h.looks.trans h'.looks, h'.tests.trans h.tests⟩

theorem Expired.late {st : State σ} (h : Expired s st) : s.timeout ≤ st.elapsed s := h _ .refl

theorem Move.onlyLooks {m m' : Moment σ} (h : Move s m m') (hexpired : Expired s m.state) :
    OnlyLooks m.state m'.state := by
  -- The steps after the deadline ask no test; the two that would are not late.
  cases h with
  | finish run =>
    obtain ⟨-, hkernel, htests⟩ := (ensures_of_eq_ok run).mp (ensures_finish s _ _)
    exact ⟨hkernel ▸ .refl, htests⟩
  | prune | enter | leave | exhaust | close | reject | back => exact ⟨.refl, rfl⟩
  | late => exact ⟨.single rfl, rfl⟩
  | refuse _ early => exact absurd hexpired.late early
  | accept _ early => exact absurd hexpired.late early

theorem Moves.onlyLooks {m m' : Moment σ} (h : Moves s m m') (hexpired : Expired s m.state) :
    OnlyLooks m.state m'.state := by
  induction h with
  | refl => exact refl_of OnlyLooks _
  | tail hmoves hmove ih =>
    exact trans_of OnlyLooks ih (hmove.onlyLooks (hexpired.later (Moves.advances hmoves)))

def TellsDeadline (s : Scene) (path : Path) (p : Plane) (st st' : State σ) : Prop :=
  ∃ elapsed rejections, s.timeout ≤ elapsed ∧
    (∀ e ∈ rejections, ∃ id rule, e = Event.candidate path.length p.id id (.rejected rule)) ∧
    st'.session.trace = .deadline p.id elapsed :: (rejections ++ st.session.trace)

/-- Of the layers offered to a plane the first that the rules allow tells the deadline, and is the last
one that is looked at. -/
theorem expired_offer {planes : List Plane} {path : Path} {p : Plane} {cursor : Nat}
    {ids : List LayerId} {tasks : List Task} {st : State σ} (hexpired : Expired s st)
    (hcandidate : ∃ id ∈ ids, ∃ l, Candidate s path p id l) :
    ∃ st', Moves s ⟨.offer planes path p cursor ids :: tasks, st⟩ ⟨tasks, st'⟩ ∧
      TellsDeadline s path p st st' := by
  -- The deadline was over before, so the first layer that is a candidate tells it.
  induction ids generalizing st with
  | nil =>
    obtain ⟨_, hmem, -⟩ := hcandidate
    cases hmem
  | cons id ids ih =>
    by_cases hfirst : ∃ l, Candidate s path p id l
    · obtain ⟨l, candidate⟩ := hfirst
      have late := hexpired.late
      exact ⟨_, .single (.late candidate late), _, [], late, nofun, rfl⟩
    · -- The first layer is not the one, and only its rejection may be told.
      have hrest : ∃ id ∈ ids, ∃ l, Candidate s path p id l := by
        obtain ⟨id', hmem, hid'⟩ := hcandidate
        rcases List.mem_cons.mp hmem with rfl | hmem
        · exact absurd hid' hfirst
        · exact ⟨id', hmem, hid'⟩
      -- A closed layer is passed over in silence, an open one is rejected by a rule.
      by_cases hclosed : ∀ l, s.layer? id = some l → path.isOpen id l = false
      · obtain ⟨st', hmoves, htells⟩ := ih hexpired hrest
        exact ⟨st', hmoves.head (.close hclosed), htells⟩
      · push Not at hclosed
        obtain ⟨l, layer, hopens⟩ := hclosed
        have opens : path.isOpen id l = true := by simpa using hopens
        obtain ⟨rejection, rule⟩ : ∃ rejection, s.rejection? path p id l = some rejection :=
          Option.ne_none_iff_exists'.mp fun rule => hfirst ⟨l, layer, opens, rule⟩
        have hexpired' : Expired s (st.told (.candidate path.length p.id id (.rejected rejection))) :=
          hexpired
        obtain ⟨st', hmoves, elapsed, rejections, hlate, hrejections, htrace⟩ := ih hexpired' hrest
        refine ⟨st', hmoves.head (.reject layer opens rule), elapsed,
          rejections ++ [.candidate path.length p.id id (.rejected rejection)], hlate, ?_, ?_⟩
        · intro e he
          rcases List.mem_append.mp he with he | he
          · exact hrejections e he
          · exact ⟨id, rejection, List.mem_singleton.mp he⟩
        · rw [htrace, List.append_assoc]
          rfl

/-- What is left to do on the planes of a path makes nothing better, if the path and all that it began with
are no better than the best. -/
theorem expired_pending {path : Path} {tasks : List Task} (hpending : Pending s path tasks)
    {st : State σ} (hexpired : Expired s st)
    (hbest : ∀ earlier, earlier <:+ path → s.isValid earlier = true →
      Reaches st.best (s.score earlier)) :
    Ensures (tasks.forM (Task.perform s)) st (fun _ st' => st'.best = st.best) fun _ _ => False := by
  -- The induction goes down the path, and what it comes to is again something the path began with.
  induction hpending generalizing st with
  | nil => rfl
  | @empty p path cursor tasks before ih =>
    rw [ensures_forM_cons]
    -- A plane left empty has nothing more to try.
    let st₁ : State σ := { st with request := st.request.rollback cursor }
    have hexpired₁ : Expired s st₁ := hexpired
    exact ih hexpired₁ fun earlier hsuffix => hbest earlier (hsuffix.trans (List.suffix_cons ..))
  | @taken planes p id path cursor ids tasks free mem before ih =>
    have hearlier : ∀ earlier, earlier <:+ path → s.isValid earlier = true →
        Reaches st.best (s.score earlier) :=
      fun earlier hsuffix => hbest earlier (hsuffix.trans (List.suffix_cons ..))
    -- A plane with a layer still has the other layers and the empty plane to try.
    simp only [ensures_forM_cons]
    let st₁ : State σ := { st with request := st.request.rollback cursor }
    have hexpired₁ : Expired s st₁ := hexpired
    show Ensures (tryLayers s path p cursor _ ids) st₁ _ _
    refine (expired_tryLayers hexpired₁ ids).mono ?_ fun _ _ => False.elim
    rintro - st₂ ⟨hlater₂, hbest₂⟩
    have hexpired₂ := hexpired₁.later hlater₂
    refine Ensures.mono (expired_choose hexpired₂) ?_ fun _ _ => False.elim
    rintro - st₃ ⟨hlater₃, hbest₃⟩
    -- The path without this plane's layer is no better than the best.
    have hsame : st₃.best = st.best := by
      have hvisited : s.isValid (⟨p, none⟩ :: path) = true →
          Reaches st₂.best (s.score (⟨p, none⟩ :: path)) := by
        rw [isValid_empty, score_empty, hbest₂]
        exact hearlier path List.suffix_rfl
      rw [hbest₃, keep_leaveEmpty_of_reaches hvisited, hbest₂]
    let st₄ : State σ := { st₃ with request := st₃.request.rollback cursor }
    have hexpired₃ := hexpired₂.later hlater₃
    have hexpired₄ : Expired s st₄ := hexpired₃
    have hlast := ih hexpired₄ (by rw [show st₄.best = st.best from hsame]; exact hearlier)
    exact hlast.mono (fun _ _ h => h.trans hsame) fun _ _ => False.elim

/-- What a search does after a moment on `path` with `planes` to come, once its time is up. -/
structure WindsUp (s : Scene) (path : Path) (planes : List Plane) (m : Moment σ) : Prop where
  looks : ∀ m', Moves s m m' → OnlyLooks m.state m'.state
  tells : ∀ planes' path' p cursor ids tasks st,
    Moves s m ⟨.offer planes' path' p cursor ids :: tasks, st⟩ →
    (∃ id ∈ ids, ∃ l, Candidate s path' p id l) →
    ∃ st', Moves s ⟨.offer planes' path' p cursor ids :: tasks, st⟩ ⟨tasks, st'⟩ ∧
      TellsDeadline s path' p st st'
  ends : ∃ st', Moves s m ⟨[], st'⟩ ∧ st'.best = s.keep (path.leaveEmpty planes) m.state.best

/-- From the first deadline on a search only winds up. -/
theorem windsUp_of_late {planes : List Plane} {path : Path} {p : Plane} {cursor : Nat} {id : LayerId}
    {ids : List LayerId} {tasks : List Task} {st : State σ} {l : Layer}
    (hstands : Stands s (.offer planes path p cursor (id :: ids) :: tasks))
    (hnodup : s.output.layers.Nodup) (hrises : Kernel.Rises s.flags st.session.kernel)
    (candidate : Candidate s path p id l) (late : s.timeout ≤ st.elapsed s) :
    WindsUp s path (p :: planes) ⟨tasks, st.looked.told (.deadline p.id (st.elapsed s))⟩ := by
  -- What lies below the candidate on the stack is pending.
  obtain ⟨hlegal, -, hmem, tasks, rfl, hpending⟩ := hstands.of_offer
  have mem : id ∈ s.output.layers := hmem List.mem_cons_self
  let st₁ : State σ := st.looked.told (.deadline p.id (st.elapsed s))
  have hexpired : Expired s { st with session := st₁.session } := expired_of_rises hrises rfl late
  refine ⟨fun m' hmoves => hmoves.onlyLooks hexpired, ?_, ?_⟩
  · intro planes' path' p' cursor' ids' tasks' st' hmoves hcandidate
    exact expired_offer (hexpired.later hmoves.advances) hcandidate
  · -- First the planes to come are left empty, and then all that is left to do makes nothing better.
    have hvisit : Ensures (choose s planes (⟨p, none⟩ :: path)) st₁ _ _ := expired_choose hexpired
    cases hchoose : choose s planes (⟨p, none⟩ :: path) st₁ with
    | error e st₂ =>
      rw [ensures_of_eq_error hchoose] at hvisit
      exact hvisit.elim
    | ok _ st₂ =>
      rw [ensures_of_eq_ok hchoose] at hvisit
      obtain ⟨hlater, hbest⟩ := hvisit
      have hbest : st₂.best = s.keep (path.leaveEmpty (p :: planes)) st₁.best := hbest
      let st₃ : State σ := { st₂ with request := st₂.request.rollback cursor }
      have hexpired₂ := hexpired.later hlater
      have hexpired₃ : Expired s st₃ := hexpired₂
      -- If the path began with something valid it is valid itself, and no worse; the best reaches it.
      have hreaches : ∀ earlier, earlier <:+ path → s.isValid earlier = true →
          Reaches st₃.best (s.score earlier) := by
        intro earlier hsuffix hvalid
        have hpath := candidate.isValid_of_suffix mem hlegal hnodup hsuffix hvalid
        show Reaches st₂.best _
        rw [hbest, reaches_keep, score_leaveEmpty, isValid_leaveEmpty]
        exact .inr ⟨hpath, score_le_of_suffix s hsuffix⟩
      have hrest := expired_pending hpending hexpired₃ hreaches
      -- Nothing can fail any more, so the rest runs to its end.
      cases hend : tasks.forM (Task.perform s) st₃ with
      | error e st₄ =>
        rw [ensures_of_eq_error hend] at hrest
        exact hrest.elim
      | ok _ st₄ =>
        rw [ensures_of_eq_ok hend] at hrest
        refine ⟨st₄, ?_, hrest.trans hbest⟩
        exact ((moves_visit hchoose).tail .back).trans (moves_iff_rest.mpr hend)

end Expiry

end Search
end Scanout
