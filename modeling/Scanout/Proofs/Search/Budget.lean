import Scanout.Proofs.Kernel.Steady
import Scanout.Proofs.Search.Choose

/-! What more time is good for. Two searches that differ in their time limits run alike until the clock
reaches the shorter one. From there the first search only leaves planes empty, on each path that it
stands on, and the second does the same on the same paths at the latest when it leaves them. -/

namespace Scanout
namespace Search

variable {σ : Type}

/-- The planes to come add nothing to a path if they stay empty. -/
theorem score_empty (s : Scene) (p : Plane) (path : Path) :
    s.score (⟨p, none⟩ :: path) = s.score path := by
  simp [Scene.score]

theorem isValid_empty (s : Scene) (p : Plane) (path : Path) :
    s.isValid (⟨p, none⟩ :: path) = s.isValid path := by
  simp [Scene.isValid, score_empty, Scene.isComposited]

def Path.leaveEmpty (path : Path) (planes : List Plane) : Path :=
  planes.foldl (fun path p => ⟨p, none⟩ :: path) path

theorem score_leaveEmpty (s : Scene) (planes : List Plane) (path : Path) :
    s.score (path.leaveEmpty planes) = s.score path := by
  induction planes generalizing path with
  | nil => rfl
  | cons p planes ih => exact (ih _).trans (score_empty s p path)

theorem isValid_leaveEmpty (s : Scene) (planes : List Plane) (path : Path) :
    s.isValid (path.leaveEmpty planes) = s.isValid path := by
  induction planes generalizing path with
  | nil => rfl
  | cons p planes ih => exact (ih _).trans (isValid_empty s p path)

/-- Empty planes make no path better than one that is as good. -/
theorem keep_leaveEmpty_of_reaches {s : Scene} {planes : List Plane} {path : Path} {best : Option Best}
    (h : s.isValid path = true → Reaches best (s.score path)) :
    s.keep (path.leaveEmpty planes) best = best := by
  cases hvalid : s.isValid path with
  | true => exact keep_of_reaches ((score_leaveEmpty s planes path).symm ▸ h hvalid)
  | false => exact keep_of_not_isValid ((isValid_leaveEmpty s planes path).trans hvalid)

/-- The driver was only asked, and what was found is no worse than before. -/
structure Advances [Kernel σ] (flags : CommitFlags) (st st' : State σ) : Prop where
  asks : Relation.ReflTransGen (Kernel.Asks flags) st.session.kernel st'.session.kernel
  grows : ∀ n, Reaches st.best n → Reaches st'.best n

instance [Kernel σ] (flags : CommitFlags) : IsPreorder (State σ) (Advances flags) where
  refl _ := ⟨.refl, fun _ h => h⟩
  trans _ _ _ h h' := ⟨h.asks.trans h'.asks, fun n hn => h'.grows n (h.grows n hn)⟩

section Steps

variable [Kernel σ] {s : Scene} {path : Path} {p : Plane} {cursor : Nat}
  {descend : LayerId → SearchM σ Unit}

theorem advances_of_same {st st' : State σ} (hkernel : st'.session.kernel = st.session.kernel)
    (hbest : st'.best = st.best) : Advances s.flags st st' :=
  ⟨hkernel ▸ .refl, fun _ h => hbest ▸ h⟩

theorem advances_emit (e : Event) : Stays (Advances (σ := σ) s.flags) (emit e) :=
  fun _ => advances_of_same rfl rfl

theorem advances_rollback (cursor : Nat) : Stays (Advances (σ := σ) s.flags) (rollback cursor) :=
  fun _ => advances_of_same rfl rfl

theorem advances_stage (l : Layer) (crtc : UInt32) :
    Stays (Advances (σ := σ) s.flags) (stage p l crtc) := by
  intro st
  apply ensures_stage
  · exact fun _ _ _ => advances_of_same rfl rfl
  · exact fun _ _ => refl_of (Advances s.flags) st

/-- A test commit asks the driver, and the best path found stays. -/
theorem advances_testCommit : Stays (Advances (σ := σ) s.flags) (testCommit s) := by
  apply stays_get.bind
  intro st₀ st
  rw [ensures_onSession]
  -- Either way the session ends with the driver that was asked.
  have hasks : ∀ session : Session σ,
      session.kernel = (Kernel.test st.session.kernel st₀.request s.flags).2 →
      Advances s.flags st { st with session } :=
    fun session hkernel => ⟨hkernel ▸ .single (.test _ _), fun _ h => h⟩
  exact (Session.testCommit_spec st₀.request s.flags st.session).mono
    (fun _ session h => hasks session h.1) fun _ session h => hasks session h.1

theorem advances_finish : Stays (Advances (σ := σ) s.flags) (finish s path) := by
  intro st
  refine (reaches_finish s path st).mono ?_ fun _ _ => False.elim
  rintro - st' ⟨hkernel, hfound⟩
  exact ⟨hkernel ▸ .refl, fun n hn => (hfound n).mpr (.inl hn)⟩

section Layers

variable (hdescend : ∀ id, Stays (Advances s.flags) (descend id))
include hdescend

/-- Staging a layer, and whatever the search does below it, only goes forward. -/
theorem advances_tryStaged (id : LayerId) (l : Layer) :
    Stays (Advances s.flags) (tryStaged s path p cursor descend id l) := by
  apply (advances_stage l s.output.crtc).bind
  intro staged
  split
  · exact advances_emit _
  · refine Stays.bind (fun st => advances_of_same rfl rfl) fun _ => ?_
    split
    · exact (advances_rollback cursor).bind fun _ => advances_emit _
    · apply advances_testCommit.bind
      intro reply
      split
      · exact (advances_emit _).bind fun _ => (hdescend id).bind fun _ => advances_rollback cursor
      · exact (advances_emit _).bind fun _ => advances_rollback cursor

/-- A try of a layer only goes forward. -/
theorem advances_tryLayer (id : LayerId) :
    Stays (Advances s.flags) (tryLayer s path p cursor descend id) := by
  unfold tryLayer
  split
  · split
    · exact stays_pure _
    · split
      · exact (advances_emit _).bind fun _ => stays_pure _
      · refine Stays.bind (fun st => ⟨.single (.now _), fun _ h => h⟩) fun now => ?_
        dsimp only
        split
        · exact (advances_emit _).bind fun _ => stays_pure _
        · exact (advances_tryStaged hdescend id _).bind fun _ => stays_pure _
  · exact stays_pure _

/-- So do the tries of all layers in turn. -/
theorem advances_tryLayers (ids : List LayerId) :
    Stays (Advances s.flags) (tryLayers s path p cursor descend ids) := by
  induction ids with
  | nil => exact stays_pure _
  | cons id ids ih =>
    apply (advances_tryLayer hdescend id).bind
    intro more
    split
    · exact ih
    · exact stays_pure _

end Layers

/-- Whatever the search does, time goes forward and the best score does not fall. -/
theorem advances_choose (planes : List Plane) (path : Path) :
    Stays (Advances (σ := σ) s.flags) (choose s planes path) := by
  induction planes generalizing path with
  | nil => exact advances_finish
  | cons p planes ih =>
    apply stays_get.bind
    intro st
    split
    · exact stays_pure _
    · apply stays_get.bind
      intro st
      split
      · exact (advances_tryLayers (fun id => ih _) _).bind fun _ =>
          (ih _).bind fun _ => advances_rollback _
      · exact (ih _).bind fun _ => advances_rollback _

/-- Whatever a search does before, it leaves all planes to come empty in the end, unless that is no
better than what it has found. -/
theorem reaches_choose (planes : List Plane) (path : Path) (st : State σ) :
    Ensures (choose s planes path) st
      (fun _ st' => s.isValid path = true → Reaches st'.best (s.score path)) (fun _ _ => True) := by
  induction planes generalizing path st with
  | nil =>
    refine (reaches_finish s path st).mono (fun _ st' h hvalid => ?_) fun _ _ => False.elim
    exact (h.2 _).mpr (.inr ⟨hvalid, Nat.le_refl _⟩)
  | cons p planes ih =>
    simp only [choose, ensures_bind, ensures_get]
    -- A branch given up is one whose best score has been reached already.
    split
    · rename_i hhopeless
      exact fun _ => (isHopeless_iff.mp hhopeless).mono (Nat.le_add_right _ _)
    · simp only [ensures_bind, ensures_get]
      -- Leaving all planes empty is how the search ends here, and it reaches the score of the path.
      have hleave : ∀ st₁ : State σ, Ensures
          (do choose s planes (⟨p, none⟩ :: path); rollback st.request.cursor) st₁
          (fun _ st' => s.isValid path = true → Reaches st'.best (s.score path))
          (fun _ _ => True) := by
        intro st₁
        have h := ih (⟨p, none⟩ :: path) st₁
        rw [score_empty, isValid_empty] at h
        rw [ensures_bind]
        exact h
      split
      · rw [ensures_bind]
        -- What the layers do cannot make the best path worse.
        have hlayers : Stays (Advances (σ := σ) s.flags) (tryLayers s path p st.request.cursor
            (fun id => choose s planes (⟨p, some id⟩ :: path)) s.output.layers) :=
          advances_tryLayers (fun id => advances_choose planes _) _
        exact (hlayers st).mono (fun _ st₁ _ => hleave st₁) fun _ _ _ => trivial
      · exact hleave st

/-- The time is up whenever the clock is looked at from now on. -/
def Expired (s : Scene) (st : State σ) : Prop :=
  ∀ k, Relation.ReflTransGen (Kernel.Asks s.flags) st.session.kernel k →
    s.timeout ≤ (Kernel.now k).1.since s.started

theorem Expired.later {st st' : State σ} (h : Expired s st) (hlater : Advances s.flags st st') :
    Expired s st' := fun k hk => h k (hlater.asks.trans hk)

/-- No layer is placed any more. -/
theorem expired_tryLayer {st : State σ} (h : Expired s st) (id : LayerId) :
    Ensures (tryLayer s path p cursor descend id) st
      (fun _ st' => Advances s.flags st st' ∧ st'.best = st.best) (fun _ _ => False) := by
  unfold tryLayer
  -- A layer is known, open and obeys the rules, or nothing is asked for it.
  split
  · split
    · exact ⟨refl_of (Advances s.flags) st, rfl⟩
    · split
      · exact ⟨advances_of_same rfl rfl, rfl⟩
      · rw [ensures_bind, ensures_now]
        dsimp only
        rw [if_pos (h st.session.kernel .refl)]
        -- The clock was asked once, and only the deadline is told.
        exact ⟨⟨.single (.now _), fun _ hn => hn⟩, rfl⟩
  · exact ⟨refl_of (Advances s.flags) st, rfl⟩

/-- No layer is staged after the deadline, whichever is tried. -/
theorem expired_tryLayers {st : State σ} (h : Expired s st) (ids : List LayerId) :
    Ensures (tryLayers s path p cursor descend ids) st
      (fun _ st' => Advances s.flags st st' ∧ st'.best = st.best) (fun _ _ => False) := by
  -- Each try leaves the state expired, so the hypothesis holds for the next.
  induction ids generalizing st with
  | nil => exact ⟨refl_of (Advances s.flags) st, rfl⟩
  | cons id ids ih =>
    simp only [tryLayers, ensures_bind]
    refine (expired_tryLayer h id).mono ?_ fun _ _ => False.elim
    rintro more st₁ ⟨h₁, hbest₁⟩
    split
    · refine (ih (h.later h₁)).mono ?_ fun _ _ => False.elim
      rintro - st₂ ⟨h₂, hbest₂⟩
      exact ⟨trans_of (Advances s.flags) h₁ h₂, hbest₂.trans hbest₁⟩
    · exact ⟨h₁, hbest₁⟩

/-- All that is still found is the path with nothing on the planes to come. -/
theorem expired_choose {planes : List Plane} {path : Path} {st : State σ} (h : Expired s st) :
    Ensures (choose s planes path) st
      (fun _ st' => Advances s.flags st st' ∧ st'.best = s.keep (path.leaveEmpty planes) st.best)
      (fun _ _ => False) := by
  induction planes generalizing path st with
  | nil =>
    have hadvances : Stays (Advances (σ := σ) s.flags) (finish s path) := advances_finish
    refine ((hadvances st).and (ensures_finish s path st)).mono ?_ fun _ _ h => h.2
    rintro - st' ⟨hlater, hbest, -⟩
    exact ⟨hlater, hbest⟩
  | cons p planes ih =>
    simp only [choose, ensures_bind, ensures_get]
    split
    · rename_i hhopeless
      refine ⟨refl_of (Advances s.flags) st, ?_⟩
      -- A path given up would have had its score reached, so keeping it changes nothing.
      have hbeaten := (isHopeless_iff.mp hhopeless).mono (Nat.le_add_right _ _)
      exact (keep_leaveEmpty_of_reaches fun _ => hbeaten).symm
    · simp only [ensures_bind, ensures_get]
      -- The plane is left empty from any state that came after this one.
      have hleave : ∀ st₁, Advances s.flags st st₁ → st₁.best = st.best →
          Ensures (do choose s planes (⟨p, none⟩ :: path); rollback st.request.cursor) st₁
            (fun _ st₂ => Advances s.flags st st₂ ∧
              st₂.best = s.keep (path.leaveEmpty (p :: planes)) st.best)
            (fun _ _ => False) := by
        intro st₁ h₁ hbest₁
        rw [ensures_bind]
        refine (ih (h.later h₁)).mono ?_ fun _ _ => False.elim
        rintro - st₂ ⟨h₂, hbest₂⟩
        rw [hbest₁] at hbest₂
        have hlater := trans_of (Advances s.flags) h₁ h₂
        exact ⟨⟨hlater.asks, hlater.grows⟩, hbest₂⟩
      split
      · rw [ensures_bind]
        refine (expired_tryLayers h _).mono ?_ fun _ _ => False.elim
        rintro - st₁ ⟨h₁, hbest₁⟩
        exact hleave st₁ h₁ hbest₁
      · exact hleave st (refl_of (Advances s.flags) st) rfl

end Steps

def Scene.within (s : Scene) (timeout : Duration) : Scene := { s with timeout }

section Within

variable (s : Scene) (t : Duration)

@[simp]
theorem Scene.layer?_within (id : LayerId) : (s.within t).layer? id = s.layer? id := rfl

@[simp]
theorem Scene.rejection?_within (path : Path) (p : Plane) (id : LayerId) (l : Layer) :
    (s.within t).rejection? path p id l = s.rejection? path p id l := rfl

end Within

/-- The time of the first search is up, and it has found nothing that is better than what the second
has. -/
structure Behind [Kernel σ] (s : Scene) (st₁ st₂ : State σ) : Prop where
  expired : Expired s st₁
  found : ∀ n, Reaches st₁.best n → Reaches st₂.best n

def Paces [Kernel σ] {α : Type} (s : Scene) (x y : SearchM σ α) (st : State σ) : Prop :=
  x st = y st ∨ ∀ a st₁ b st₂, x st = .ok a st₁ → y st = .ok b st₂ → Behind s st₁ st₂

section Pairs

variable [Kernel σ] {s : Scene} {α β : Type} {st : State σ}

/-- Two computations stay together that begin alike. -/
theorem paces_bind {x : SearchM σ α} {f g : α → SearchM σ β}
    (h : ∀ a st', x st = .ok a st' → Paces s (f a) (g a) st') : Paces s (x >>= f) (x >>= g) st := by
  cases hx : x st with
  | ok a st' =>
    unfold Paces
    rw [bind_of_ok hx, bind_of_ok hx]
    exact h a st' hx
  | error e st' => exact .inl ((bind_of_error hx).trans (bind_of_error hx).symm)

/-- What follows two computations keeps them together, and the first one behind once it is. -/
theorem Paces.bind {x y : SearchM σ α} {f g : α → SearchM σ β} (h : Paces s x y st)
    (htogether : ∀ a st', x st = .ok a st' → Paces s (f a) (g a) st')
    (hbehind : ∀ a b st₁ st₂ a' b' st₁' st₂', Behind s st₁ st₂ → f a st₁ = .ok a' st₁' →
      g b st₂ = .ok b' st₂' → Behind s st₁' st₂') : Paces s (x >>= f) (y >>= g) st := by
  -- As long as both are together, the second does what the first does.
  rcases h with hsame | hends
  · have hbegin : (y >>= g) st = (x >>= g) st := by simp only [Bind.bind, EStateM.bind, hsame]
    unfold Paces
    rw [hbegin]
    exact paces_bind htogether
  -- Once the first is behind, it stays so whatever each goes on to do.
  · refine .inr fun a' st₁' b' st₂' hf hg => ?_
    obtain ⟨a, st₁, hx, hf⟩ := bind_eq_ok hf
    obtain ⟨b, st₂, hy, hg⟩ := bind_eq_ok hg
    exact hbehind a b st₁ st₂ a' b' st₁' st₂' (hends a st₁ b st₂ hx hy) hf hg

/-- Two computations stay together that branch alike. -/
theorem paces_ite {c c' : Prop} [Decidable c] [Decidable c'] (hc : c ↔ c')
    {x x' y y' : SearchM σ α} (hpos : c → Paces s x y st) (hneg : ¬ c → Paces s x' y' st) :
    Paces s (if c then x else x') (if c' then y else y') st := by
  by_cases h : c
  · rw [if_pos h, if_pos (hc.mp h)]
    exact hpos h
  · rw [if_neg h, if_neg (mt hc.mpr h)]
    exact hneg h

/-- Once the clock has reached the limit, it stays there. -/
theorem expired_of_rises (h : Kernel.Rises s.flags st.session.kernel) {session : Session σ}
    (hkernel : session.kernel = (Kernel.now st.session.kernel).2)
    (hlate : s.timeout ≤ (Kernel.now st.session.kernel).1.since s.started) :
    Expired s { st with session } := by
  intro k hk
  simp only [hkernel] at hk
  have hrises : (Kernel.now st.session.kernel).1.since s.started ≤ (Kernel.now k).1.since s.started :=
    HostTime.since_mono (h _ k .refl hk)
  exact UInt64.le_trans hlate hrises

section Limits

variable {t₁ t₂ : Duration} {path : Path} {p : Plane} {cursor : Nat}
  {descend₁ descend₂ : LayerId → SearchM σ Unit}

/-- The second search makes up for what the first one finds when its time is up. -/
theorem behind_choose {planes : List Plane} {path : Path} {st₁ st₂ st₁' st₂' : State σ} {a b : Unit}
    (h : Behind (s.within t₁) st₁ st₂)
    (h₁ : choose (s.within t₁) planes path st₁ = .ok a st₁')
    (h₂ : choose (s.within t₂) planes path st₂ = .ok b st₂') :
    Behind (s.within t₁) st₁' st₂' := by
  -- The first only leaves planes empty from here on, and the second goes on searching.
  obtain ⟨hlate, hbest⟩ := (ensures_of_eq_ok h₁).mp (expired_choose h.expired)
  have hreaches := (ensures_of_eq_ok h₂).mp (reaches_choose planes path st₂)
  have hgrows := (advances_choose planes path).of_eq_ok h₂
  refine ⟨h.expired.later hlate, fun n hn => ?_⟩
  rw [hbest, reaches_keep, score_leaveEmpty, isValid_leaveEmpty] at hn
  rcases hn with hfound | ⟨hvalid, hle⟩
  -- Either the path was found before, or the second search reaches its score by leaving planes empty.
  · exact hgrows.grows n (h.found n hfound)
  · exact (hreaches hvalid).mono hle

/-- While the first search finds nothing more, it stays behind. -/
theorem Behind.goesOn {st₁ st₂ st₁' st₂' : State σ} (h : Behind s st₁ st₂)
    (h₁ : Advances s.flags st₁ st₁') (hbest : st₁'.best = st₁.best)
    (h₂ : Advances s.flags st₂ st₂') : Behind s st₁' st₂' := by
  refine ⟨h.expired.later h₁, fun n hn => ?_⟩
  rw [hbest] at hn
  exact h₂.grows n (h.found n hn)

theorem behind_rollback {st₁ st₂ st₁' st₂' : State σ} {a b : Unit} (h : Behind s st₁ st₂)
    (h₁ : rollback cursor st₁ = .ok a st₁') (h₂ : rollback cursor st₂ = .ok b st₂') :
    Behind s st₁' st₂' := by
  cases h₁
  cases h₂
  exact ⟨h.expired, h.found⟩

section Layers

variable {st : State σ} (hdescend : ∀ id st', Advances s.flags st st' →
  Paces (s.within t₁) (descend₁ id) (descend₂ id) st')
include hdescend

/-- Staging and testing are the same in both; only the descent can tell them apart. -/
theorem paces_tryStaged (id : LayerId) (l : Layer) :
    Paces (s.within t₁) (tryStaged (s.within t₁) path p cursor descend₁ id l)
      (tryStaged (s.within t₂) path p cursor descend₂ id l) st := by
  apply paces_bind
  intro staged st₁ hrun₁
  have h₁ : Advances s.flags st st₁ := (advances_stage l s.output.crtc).of_eq_ok hrun₁
  cases staged with
  | some why => exact .inl rfl
  | none =>
    apply paces_bind
    intro _ st₂ hrun₂
    have h₂ : Advances s.flags st₁ st₂ := by
      cases hrun₂
      exact advances_of_same rfl rfl
    dsimp only
    cases misfit? p l with
    | some why => exact .inl rfl
    | none =>
      apply paces_bind
      intro reply st₃ hrun₃
      have h₃ : Advances s.flags st₂ st₃ := advances_testCommit.of_eq_ok hrun₃
      cases reply with
      | some e => exact .inl rfl
      | none =>
        apply paces_bind
        -- The layer was accepted, so what follows is the descent.
        intro _ st₄ hrun₄
        have h₄ : Advances s.flags st₃ st₄ := (advances_emit _).of_eq_ok hrun₄
        have h₂ := trans_of (Advances s.flags) h₁ h₂
        have h₄ := trans_of (Advances s.flags) h₃ h₄
        refine Paces.bind (hdescend id st₄ (trans_of (Advances s.flags) h₂ h₄)) ?_ ?_
        · exact fun _ _ _ => .inl rfl
        · exact fun _ _ _ _ _ _ _ _ => behind_rollback

/-- The two searches part where the clock is past the first limit only. -/
theorem paces_tryLayer (hle : t₁ ≤ t₂) (hrises : Kernel.Rises s.flags st.session.kernel)
    (hadvances : ∀ id, Stays (Advances s.flags) (descend₂ id)) (id : LayerId) :
    Paces (s.within t₁) (tryLayer (s.within t₁) path p cursor descend₁ id)
      (tryLayer (s.within t₂) path p cursor descend₂ id) st := by
  unfold tryLayer
  simp only [Scene.layer?_within, Scene.rejection?_within]
  cases s.layer? id with
  | none => exact .inl rfl
  | some l =>
    dsimp only
    split
    · exact .inl rfl
    · cases s.rejection? path p id l with
      | some rule => exact .inl rfl
      | none =>
        dsimp only
        apply paces_bind
        intro now st' hrun
        have hnow : Advances s.flags st st' := by
          cases hrun
          exact ⟨.single (.now _), fun _ hn => hn⟩
        -- The first is late. If the second is not, this is where they part.
        by_cases hlate : (s.within t₁).timeout ≤ now.since (s.within t₁).started
        · rw [if_pos hlate]
          by_cases hlate' : (s.within t₂).timeout ≤ now.since (s.within t₂).started
          · rw [if_pos hlate']
            exact .inl rfl
          · rw [if_neg hlate']
            refine .inr fun a st₁ b st₂ hx hy => ?_
            have hgoes : Advances s.flags st' st₂ :=
              ((advances_tryStaged (s := s.within t₂) hadvances id l).bind
                fun _ => stays_pure true).of_eq_ok hy
            cases hx
            refine ⟨?_, hgoes.grows⟩
            cases hrun
            exact expired_of_rises (s := s.within t₁) hrises rfl hlate
        -- The first is in time, so the second is as well.
        · have hearly : ¬ (s.within t₂).timeout ≤ now.since (s.within t₂).started :=
            fun h => hlate (UInt64.le_trans hle h)
          rw [if_neg hlate, if_neg hearly]
          refine Paces.bind (paces_tryStaged (fun id st₁ h₁ => ?_) id l) ?_ ?_
          · exact hdescend id st₁ (trans_of (Advances s.flags) hnow h₁)
          · exact fun _ _ _ => .inl rfl
          · intro _ _ st₁ st₂ a b st₁' st₂' h h₁ h₂
            cases h₁
            cases h₂
            exact h

end Layers

/-- Trying the layers in turn, the two searches either stay together or the first falls behind. -/
theorem paces_tryLayers (hle : t₁ ≤ t₂) {st : State σ} (hrises : Kernel.Rises s.flags st.session.kernel)
    (hadvances : ∀ id, Stays (Advances s.flags) (descend₁ id))
    (hadvances' : ∀ id, Stays (Advances s.flags) (descend₂ id))
    (hdescend : ∀ id st', Advances s.flags st st' →
      Paces (s.within t₁) (descend₁ id) (descend₂ id) st') (ids : List LayerId) :
    Paces (s.within t₁) (tryLayers (s.within t₁) path p cursor descend₁ ids)
      (tryLayers (s.within t₂) path p cursor descend₂ ids) st := by
  induction ids generalizing st with
  | nil => exact .inl rfl
  | cons id ids ih =>
    refine Paces.bind (paces_tryLayer hdescend hle hrises hadvances' id) ?_ ?_
    -- Still together after the first layer, they try the others in the same way.
    · intro more st' hrun
      have hlater : Advances s.flags st st' :=
        (advances_tryLayer (s := s.within t₁) hadvances id).of_eq_ok hrun
      split
      · exact ih (hrises.later hlater.asks) fun id st₁ h₁ =>
          hdescend id st₁ (trans_of (Advances s.flags) hlater h₁)
      · exact .inl rfl
    · -- Behind, the first search tries nothing, whether it goes on or not.
      intro more more' st₁ st₂ a b st₁' st₂' h h₁ h₂
      have hlate : Advances s.flags st₁ st₁' ∧ st₁'.best = st₁.best := by
        split at h₁
        · exact (ensures_of_eq_ok h₁).mp (expired_tryLayers h.expired ids)
        · cases h₁
          exact ⟨refl_of (Advances s.flags) st₁, rfl⟩
      have hgoes : Advances s.flags st₂ st₂' := by
        split at h₂
        · exact (advances_tryLayers (s := s.within t₂) hadvances' ids).of_eq_ok h₂
        · cases h₂
          exact refl_of (Advances s.flags) st₂
      exact h.goesOn hlate.1 hlate.2 hgoes

/-- However far two searches have come together, they go on together until the clock reaches the limit of
the first, and that one stays behind from then on. -/
theorem paces_choose (hle : t₁ ≤ t₂) {planes : List Plane} {path : Path} {st : State σ}
    (hrises : Kernel.Rises s.flags st.session.kernel) :
    Paces (s.within t₁) (choose (s.within t₁) planes path) (choose (s.within t₂) planes path) st := by
  induction planes generalizing path st with
  | nil => exact .inl rfl
  | cons p planes ih =>
    have hadvances : ∀ t path, Stays (Advances (σ := σ) s.flags) (choose (s.within t) planes path) :=
      fun t path => advances_choose planes path
    -- After the layers both leave the plane empty.
    have hleave : ∀ cursor st', Advances s.flags st st' → Paces (s.within t₁)
        (do choose (s.within t₁) planes (⟨p, none⟩ :: path); rollback cursor)
        (do choose (s.within t₂) planes (⟨p, none⟩ :: path); rollback cursor) st' := by
      intro cursor st' hlater
      refine Paces.bind (ih (hrises.later hlater.asks)) ?_ ?_
      · exact fun _ _ _ => .inl rfl
      · exact fun _ _ _ _ _ _ _ _ => behind_rollback
    -- The choices that do not depend on time are the same in both.
    unfold choose
    apply paces_bind
    rintro _ _ ⟨⟩
    apply paces_ite Iff.rfl
    · exact fun _ => .inl rfl
    · intro _
      apply paces_bind
      rintro _ _ ⟨⟩
      apply paces_ite Iff.rfl
      · intro _
        refine Paces.bind (paces_tryLayers hle hrises (fun id => hadvances t₁ _)
          (fun id => hadvances t₂ _) (fun id st' h => ih (hrises.later h.asks)) _) ?_ ?_
        · intro _ st' hrun
          have hlater : Advances s.flags st st' :=
            (advances_tryLayers (s := s.within t₁) (fun id => hadvances t₁ _) _).of_eq_ok hrun
          exact hleave _ st' hlater
        -- The first has fallen behind among the layers, and leaving the plane empty keeps it behind.
        · intro _ _ st₁ st₂ a b st₁' st₂' h h₁ h₂
          obtain ⟨_, st₃, hchoose₁, hback₁⟩ := bind_eq_ok h₁
          obtain ⟨_, st₄, hchoose₂, hback₂⟩ := bind_eq_ok h₂
          exact behind_rollback (behind_choose h hchoose₁ hchoose₂) hback₁ hback₂
      · exact fun _ => hleave _ st (refl_of (Advances s.flags) st)

end Limits

end Pairs

end Search
end Scanout
