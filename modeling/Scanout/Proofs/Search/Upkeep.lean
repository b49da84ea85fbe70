import Scanout.Proofs.Search.Choose

namespace Scanout

def Event.isTrial : Event → Bool
  | .candidate .. | .deadline .. => true
  | _ => false

namespace Search

variable {σ : Type}

/-- Every step of a search keeps up `I`, which is said of the path, the session and the best allocation so
far. Of a session that a question has broken off it is left that `E` holds. -/
structure Upkeep [Kernel σ] (s : Scene) (I : Path → Session σ → Option Best → Prop)
    (E : Session σ → Prop) : Prop where
  back : ∀ {c path session best}, I (c :: path) session best → I path session best
  leave : ∀ {path session best} (p : Plane), I path session best → I (⟨p, none⟩ :: path) session best
  accept : ∀ {path session best} (p : Plane) (id : LayerId), I path session best →
    I (⟨p, some id⟩ :: path)
      { session with trace := .candidate path.length p.id id .accepted :: session.trace } best
  tell : ∀ {path session best} (e : Event), e.isTrial = true → I path session best →
    I path { session with trace := e :: session.trace } best
  now : ∀ {path session best}, I path session best →
    I path { session with kernel := (Kernel.now session.kernel).2 } best
  test : ∀ {path session best} (r : Request), I path session best →
    Ensures (Session.testCommit r s.flags) session (fun _ session' => I path session' best) fun _ => E
  finish : ∀ {path session best}, I path session best → ¬ Reaches best (s.score path) →
    I path { session with trace := .best path.length (s.score path) :: session.trace }
      (some ⟨s.score path, path⟩)

/-- Wherever it is made on the path, the step keeps up `I`, or it breaks off with `E`. -/
def Upholds {α : Type} (I : Path → Session σ → Option Best → Prop) (E : Session σ → Prop) (path : Path)
    (x : SearchM σ α) : Prop :=
  ∀ st, I path st.session st.best →
    Ensures x st (fun _ st' => I path st'.session st'.best) fun _ st' => E st'.session

section Rules

variable {I : Path → Session σ → Option Best → Prop} {E : Session σ → Prop} {path : Path} {α β : Type}

theorem Upholds.bind {x : SearchM σ α} {f : α → SearchM σ β} (hx : Upholds I E path x)
    (hf : ∀ a, Upholds I E path (f a)) : Upholds I E path (x >>= f) := by
  intro st hst
  rw [ensures_bind]
  exact (hx st hst).mono (fun a st' h => hf a st' h) fun _ _ h => h

theorem upholds_pure (a : α) : Upholds I E path (pure a : SearchM σ α) := fun _ h => h

theorem upholds_get : Upholds I E path (get : SearchM σ (State σ)) := fun _ h => h

theorem upholds_rollback (cursor : Nat) : Upholds I E path (rollback (σ := σ) cursor) := fun _ h => h

theorem upholds_addHint (id : LayerId) (plane : UInt32) :
    Upholds I E path (addHint (σ := σ) id plane) := fun _ h => h

theorem upholds_stage (p : Plane) (l : Layer) (crtc : UInt32) :
    Upholds I E path (stage (σ := σ) p l crtc) :=
  fun _ hst => ensures_stage p l crtc (fun _ _ _ => hst) fun _ _ => hst

variable [Kernel σ] {s : Scene} (h : Upkeep s I E)
include h

theorem upholds_emit {e : Event} (he : e.isTrial = true) : Upholds I E path (emit (σ := σ) e) :=
  fun _ hst => h.tell e he hst

theorem upholds_report (p : Plane) (id : LayerId) (verdict : Verdict) :
    Upholds I E path (report (σ := σ) path p id verdict) := upholds_emit h rfl

theorem upholds_now : Upholds I E path (onSession (σ := σ) Session.now) := fun _ hst => h.now hst

theorem upholds_testCommit : Upholds I E path (testCommit (σ := σ) s) := by
  refine upholds_get.bind fun before st hst => ?_
  rw [ensures_onSession]
  exact h.test before.request hst

theorem upholds_finish : Upholds I E path (finish (σ := σ) s path) := by
  intro st hst
  simp only [finish, ensures_bind, ensures_get]
  split
  -- The path is kept, so it is better than the best before.
  · rename_i hkept
    obtain ⟨hnew, -⟩ := Bool.and_eq_true_iff.mp hkept
    rw [ensures_bind, ensures_modify, ensures_emit]
    refine h.finish hst fun hreached => ?_
    rw [any_iff_reaches.mpr hreached] at hnew
    cases hnew
  · exact hst

section Layers

variable {p : Plane} {descend : LayerId → SearchM σ Unit}
  (hdescend : ∀ id, Upholds I E (⟨p, some id⟩ :: path) (descend id))
include hdescend

/-- A choice is on the path while the search goes deeper, and not any more when it comes back. -/
theorem upholds_tryStaged (cursor : Nat) (id : LayerId) (l : Layer) :
    Upholds I E path (tryStaged s path p cursor descend id l) := by
  -- The request on the way does not matter for the invariant, only the session and the best path do.
  refine (upholds_stage p l s.output.crtc).bind fun misfit => ?_
  split
  · exact upholds_report h p id _
  · refine (upholds_addHint id p.id).bind fun _ => ?_
    split
    · exact (upholds_rollback cursor).bind fun _ => upholds_report h p id _
    · refine (upholds_testCommit h).bind fun reply => ?_
      split
      -- The layer was accepted; after the descent the path is shorter by it again.
      · intro st hst
        simp only [report, ensures_bind, ensures_emit, ensures_rollback]
        exact (hdescend id _ (h.accept p id hst)).mono (fun _ _ h' => h.back h') fun _ _ h' => h'
      · exact (upholds_report h p id _).bind fun _ => upholds_rollback cursor

theorem upholds_tryLayer (cursor : Nat) (id : LayerId) :
    Upholds I E path (tryLayer s path p cursor descend id) := by
  unfold tryLayer
  split
  · rename_i l _
    split
    · exact upholds_pure true
    · split
      · exact (upholds_report h p id _).bind fun _ => upholds_pure true
      -- The clock is read before every attempt.
      · refine (upholds_now h).bind fun now => ?_
        dsimp only
        split
        · exact (upholds_emit h rfl).bind fun _ => upholds_pure false
        · exact (upholds_tryStaged h hdescend cursor id l).bind fun _ => upholds_pure true
  · exact upholds_pure true

theorem upholds_tryLayers (cursor : Nat) (ids : List LayerId) :
    Upholds I E path (tryLayers s path p cursor descend ids) := by
  induction ids with
  | nil => exact upholds_pure ()
  | cons id ids ih =>
    refine (upholds_tryLayer h hdescend cursor id).bind fun more => ?_
    split
    · exact ih
    · exact upholds_pure ()

end Layers

/-- What each step keeps up, a search keeps up wherever it has got to. -/
theorem upholds_choose (planes : List Plane) (path : Path) :
    Upholds I E path (choose (σ := σ) s planes path) := by
  induction planes generalizing path with
  | nil => exact upholds_finish h
  | cons p planes ih =>
    unfold choose
    refine upholds_get.bind fun st => ?_
    dsimp only
    split
    · exact upholds_pure ()
    · refine upholds_get.bind fun st => ?_
      -- The plane stays empty in the end, which is a choice as well.
      have hrest : Upholds I E path (do
          choose (σ := σ) s planes (⟨p, none⟩ :: path)
          rollback st.request.cursor) := by
        refine Upholds.bind (fun st hst => ?_) fun _ => upholds_rollback _
        exact (ih _ st (h.leave p hst)).mono (fun _ _ h' => h.back h') fun _ _ h' => h'
      split
      · exact (upholds_tryLayers h (fun id => ih _) _ s.output.layers).bind fun _ => hrest
      · exact hrest

end Rules

end Search
end Scanout
