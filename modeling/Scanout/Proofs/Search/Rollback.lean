import Scanout.Proofs.Search.Choose

namespace Scanout
namespace Search

variable {σ α β : Type}

def Leaves (r : Request) (x : SearchM σ α) (st : State σ) : Prop :=
  Ensures x st (fun _ st' => st'.request = r) fun _ st' => r.Begins st'.request

def HandsBack (x : SearchM σ α) : Prop := ∀ st, Leaves st.request x st

section Rules

variable {r : Request} {st : State σ}

/-- A step that hands the request back may come first, also while more is staged than in the end. -/
theorem HandsBack.then_leaves {x : SearchM σ α} {f : α → SearchM σ β} (hx : HandsBack x)
    (hst : r.Begins st.request)
    (hf : ∀ a st', st'.request = st.request → Leaves r (f a) st') : Leaves r (x >>= f) st := by
  rw [Leaves, ensures_bind]
  exact (hx st).mono (fun a st' h => hf a st' h) fun _ _ h => trans_of Request.Begins hst h

theorem HandsBack.bind {x : SearchM σ α} {f : α → SearchM σ β} (hx : HandsBack x)
    (hf : ∀ a, HandsBack (f a)) : HandsBack (x >>= f) :=
  fun st => hx.then_leaves (refl_of Request.Begins st.request) fun a st' h => h ▸ hf a st'

theorem HandsBack.leaves {x : SearchM σ α} (hx : HandsBack x) (hst : st.request = r) :
    Leaves r x st := hst ▸ hx st

theorem leaves_rollback (hst : r.Begins st.request) : Leaves r (rollback r.cursor) st :=
  hst.rollback

theorem handsBack_pure (a : α) : HandsBack (pure a : SearchM σ α) := fun _ => rfl

theorem handsBack_get : HandsBack (get : SearchM σ (State σ)) := fun _ => rfl

theorem handsBack_addHint (id : LayerId) (plane : UInt32) :
    HandsBack (addHint (σ := σ) id plane) := fun _ => rfl

theorem handsBack_onSession (x : SessionM σ α) : HandsBack (onSession x) := by
  intro st
  rw [Leaves, ensures_onSession]
  unfold Ensures
  cases x st.session with
  | ok a session => rfl
  | error e session => exact refl_of Request.Begins st.request

theorem handsBack_report (path : Path) (p : Plane) (id : LayerId) (verdict : Verdict) :
    HandsBack (report (σ := σ) path p id verdict) := by
  unfold report emit
  exact handsBack_onSession _

theorem handsBack_finish (s : Scene) (path : Path) : HandsBack (finish (σ := σ) s path) := by
  apply handsBack_get.bind
  intro st
  dsimp only
  split
  · exact HandsBack.bind (fun _ => rfl) fun _ => handsBack_onSession _
  · exact handsBack_pure _

end Rules

variable [Kernel σ]

theorem handsBack_testCommit (s : Scene) : HandsBack (testCommit (σ := σ) s) :=
  handsBack_get.bind fun _ => handsBack_onSession _

section Layers

variable {s : Scene} {path : Path} {p : Plane} {descend : LayerId → SearchM σ Unit}
  (hdescend : ∀ id, HandsBack (descend id)) {st : State σ} {r : Request} (hst : st.request = r)
include hdescend hst

theorem leaves_tryStaged (id : LayerId) (l : Layer) :
    Leaves r (tryStaged s path p r.cursor descend id l) st := by
  subst hst
  rw [tryStaged, Leaves, ensures_bind]
  -- A failed staging leaves no writes to take back.
  refine ensures_stage p l s.output.crtc (fun r' _ hbegins => ?_) fun why _ =>
    handsBack_report path p id _ st
  -- From here on the layer's writes are at the end, until they are rolled back.
  refine (handsBack_addHint id p.id).then_leaves hbegins fun _ st₁ h₁ => ?_
  have hbegins₁ : st.request.Begins st₁.request := h₁ ▸ hbegins
  split
  · rw [Leaves, ensures_bind, ensures_rollback]
    exact (handsBack_report path p id _).leaves hbegins₁.rollback
  · refine (handsBack_testCommit s).then_leaves hbegins₁ fun reply st₂ h₂ => ?_
    have hbegins₂ : st.request.Begins st₂.request := h₂ ▸ hbegins₁
    split
    · refine (handsBack_report path p id _).then_leaves hbegins₂ fun _ st₃ h₃ => ?_
      have hbegins₃ : st.request.Begins st₃.request := h₃ ▸ hbegins₂
      exact (hdescend id).then_leaves hbegins₃ fun _ _ h => leaves_rollback (h ▸ hbegins₃)
    · exact (handsBack_report path p id _).then_leaves hbegins₂
        fun _ _ h => leaves_rollback (h ▸ hbegins₂)

theorem leaves_tryLayer (id : LayerId) :
    Leaves r (tryLayer s path p r.cursor descend id) st := by
  subst hst
  unfold tryLayer
  split
  · rename_i l _
    split
    · exact handsBack_pure _ st
    · split
      · exact (handsBack_report path p id _).bind (fun _ => handsBack_pure _) st
      -- The clock is read, which leaves the request alone.
      · refine (handsBack_onSession _).then_leaves (refl_of Request.Begins _) fun now st₁ h₁ => ?_
        dsimp only
        split
        · rw [← h₁]
          exact HandsBack.bind (handsBack_onSession _) (fun _ => handsBack_pure _) st₁
        · rw [Leaves, ensures_bind]
          exact (leaves_tryStaged hdescend h₁ id l).mono (fun _ _ h => h) fun _ _ h => h
  · exact handsBack_pure _ st

theorem leaves_tryLayers (ids : List LayerId) :
    Leaves r (tryLayers s path p r.cursor descend ids) st := by
  induction ids generalizing st with
  | nil => exact hst
  | cons id ids ih =>
    -- What one try leaves is what the next one starts from.
    rw [tryLayers, Leaves, ensures_bind]
    refine (leaves_tryLayer hdescend hst id).mono (fun more st₁ h₁ => ?_) fun _ _ h => h
    split
    · exact ih h₁
    · exact h₁

end Layers

/-- Where no plane is free there is nothing to ask, so the search returns. -/
theorem choose_returns {s : Scene} {planes : List Plane}
    (hfree : ∀ p ∈ planes, p.isFreeFor s.output.crtcIndex = false) (path : Path) (st : State σ) :
    Ensures (choose s planes path) st (fun _ _ => True) fun _ _ => False := by
  have hfinish : ∀ (path : Path) (st : State σ),
      Ensures (finish s path) st (fun _ _ => True) fun _ _ => False := by
    intro path st
    rw [finish, ensures_bind, ensures_get]
    dsimp only
    split <;> trivial
  -- Every plane is passed by, so no layer is tried.
  induction planes generalizing path st with
  | nil => exact hfinish path st
  | cons p planes ih =>
    rw [choose, ensures_bind, ensures_get]
    dsimp only
    split
    · trivial
    · rw [ensures_bind, ensures_get]
      simp only [hfree p List.mem_cons_self, Bool.false_eq_true, ↓reduceIte, ensures_bind]
      exact (ih (fun q hq => hfree q (List.mem_cons_of_mem p hq)) _ st).mono (fun _ _ _ => trivial)
        fun _ _ h => h

/-- Wherever a search has got to, it hands back the request that it has found there, or fails with more
writes at its end. -/
theorem handsBack_choose (s : Scene) (planes : List Plane) (path : Path) :
    HandsBack (choose (σ := σ) s planes path) := by
  induction planes generalizing path with
  | nil => exact handsBack_finish s path
  | cons p planes ih =>
    intro st
    rw [choose, Leaves, ensures_bind, ensures_get]
    dsimp only
    split
    · exact handsBack_pure _ st
    · rw [ensures_bind, ensures_get]
      -- The plane is left empty in the end.
      have hrest : ∀ st₁ : State σ, st₁.request = st.request → Leaves st.request (do
          choose s planes (⟨p, none⟩ :: path)
          rollback st.request.cursor) st₁ := by
        intro st₁ h₁
        have hbegins : st.request.Begins st₁.request := h₁ ▸ refl_of Request.Begins _
        exact (ih _).then_leaves hbegins fun _ _ h => leaves_rollback (h ▸ hbegins)
      split
      · rw [ensures_bind]
        exact (leaves_tryLayers (fun id => ih _) rfl s.output.layers).mono
          (fun _ st₁ h₁ => hrest st₁ h₁) fun _ _ h => h
      · exact hrest st rfl

end Search
end Scanout
