import Scanout.Allocation.Search
import Scanout.Proofs.Kernel.Alike

namespace Scanout
namespace Search

variable {σ α β : Type} {R : σ → σ → Prop} {E : Failure → σ → σ → Prop}

def State.Over (R : σ → σ → Prop) (st st' : State σ) : Prop :=
  ∃ session, st' = { st with session } ∧ st.session.Over R session

abbrev Agree (R : σ → σ → Prop) (E : Failure → σ → σ → Prop) (x y : SearchM σ α) : Prop :=
  Alike (State.Over R) (fun e => State.Over (E e)) x y

theorem alike_onSession {x y : SessionM σ α} (h : Session.Agree R E x y) :
    Agree R E (onSession x) (onSession y) := by
  rintro st _ ⟨session, rfl, hover⟩
  have hend := h _ _ hover
  simp only [onSession]
  generalize x st.session = r at hend ⊢
  generalize y session = r' at hend ⊢
  -- Both end in the same way, and the rest of the state of the search is carried along.
  cases hend with
  | ok h => exact .ok ⟨_, rfl, h⟩
  | error h => exact .error ⟨_, rfl, h⟩

/-- A step that leaves the driver alone does the same on both sides. -/
theorem alike_edit {f : State σ → State σ}
    (hf : ∀ st session, f { st with session } = { f st with session }) :
    Agree R E (modify f) (modify f) := by
  apply alike_modify
  rintro st _ ⟨session, rfl, hover⟩
  have hsession : (f st).session = st.session := (congrArg State.session (hf st st.session) :)
  exact ⟨session, hf st session, hsession.symm ▸ hover⟩

/-- Of the state only what is not the driver's is read. -/
theorem alike_read {f g : State σ → SearchM σ β}
    (hf : ∀ st session, st.session.Over R session →
      Agree R E (f st) (g { st with session })) :
    Agree R E (get >>= f) (get >>= g) := by
  apply alike_get_bind
  rintro st _ ⟨session, rfl, hover⟩
  exact hf st session hover

theorem alike_rollback (cursor : Nat) :
    Agree R E (rollback cursor) (rollback cursor) :=
  alike_edit fun _ _ => rfl

theorem alike_addHint (id : LayerId) (plane : UInt32) :
    Agree R E (addHint id plane) (addHint id plane) :=
  alike_edit fun _ _ => rfl

theorem alike_report (path : Path) (p : Plane) (id : LayerId) (verdict : Verdict) :
    Agree R E (report path p id verdict) (report path p id verdict) :=
  alike_onSession (Session.alike_emit _)

theorem alike_stage (p : Plane) (l : Layer) (crtc : UInt32) :
    Agree R E (stage p l crtc) (stage p l crtc) := by
  apply alike_modifyGet
  rintro st _ ⟨session, rfl, hover⟩
  dsimp only
  cases p.stageLayer l crtc st.request with
  | ok a request => exact ⟨rfl, session, rfl, hover⟩
  | error why request => exact ⟨rfl, session, rfl, hover⟩

theorem alike_finish (s : Scene) (path : Path) :
    Agree R E (finish s path) (finish s path) := by
  apply alike_read
  intro st session _
  dsimp only
  split
  · refine Alike.bind (alike_edit fun _ _ => rfl) fun _ => ?_
    exact alike_onSession (Session.alike_emit _)
  · exact alike_pure _

variable [Kernel σ] {s : Scene} (h : Kernel.Alike s.flags R E)
include h

theorem alike_testCommit : Agree R E (testCommit s) (testCommit s) := by
  apply alike_read
  intro st session _
  exact alike_onSession (Session.alike_testCommit h st.request)

section Layers

variable {path : Path} {p : Plane} {cursor : Nat} {descend descend' : LayerId → SearchM σ Unit}
  (hdescend : ∀ id, Agree R E (descend id) (descend' id))
include hdescend

/-- Two descents that agree make the attempts to stage a layer agree. -/
theorem alike_tryStaged (id : LayerId) (l : Layer) :
    Agree R E (tryStaged s path p cursor descend id l)
      (tryStaged s path p cursor descend' id l) := by
  refine (alike_stage p l s.output.crtc).bind fun failed => ?_
  cases failed with
  | some why => exact alike_report path p id _
  | none =>
    -- The hint is added before anything can go wrong.
    refine (alike_addHint id p.id).bind fun _ => ?_
    cases misfit? p l with
    | some why => exact (alike_rollback cursor).bind fun _ => alike_report path p id _
    | none =>
      refine (alike_testCommit h).bind fun objection => ?_
      cases objection with
      | none =>
        refine (alike_report path p id _).bind fun _ => ?_
        exact (hdescend id).bind fun _ => alike_rollback cursor
      | some e => exact (alike_report path p id _).bind fun _ => alike_rollback cursor

/-- What decides about a layer before it is staged is the same in both. -/
theorem alike_tryLayer (id : LayerId) :
    Agree R E (tryLayer s path p cursor descend id)
      (tryLayer s path p cursor descend' id) := by
  unfold tryLayer
  cases s.layer? id with
  | none => exact alike_pure _
  | some l =>
    dsimp only
    split
    · exact alike_pure _
    · split
      · exact (alike_report path p id _).bind fun _ => alike_pure _
      -- The clocks of the two say the same.
      · refine (alike_onSession (Session.alike_now h)).bind fun now => ?_
        split
        · exact (alike_onSession (Session.alike_emit _)).bind fun _ => alike_pure _
        · exact (alike_tryStaged h hdescend id l).bind fun _ => alike_pure _

/-- Trying layers in turn agrees when each try does. -/
theorem alike_tryLayers (ids : List LayerId) :
    Agree R E (tryLayers s path p cursor descend ids)
      (tryLayers s path p cursor descend' ids) := by
  induction ids with
  | nil => exact alike_pure _
  | cons id ids ih =>
    refine (alike_tryLayer h hdescend id).bind fun goesOn => ?_
    cases goesOn with
    | true => exact ih
    | false => exact alike_pure _

end Layers

/-- A search takes the same course on drivers that answer alike. -/
theorem alike_choose (planes : List Plane) (path : Path) :
    Agree R E (choose s planes path) (choose s planes path) := by
  -- Induction on the planes to come, for every path that leads to them.
  induction planes generalizing path with
  | nil => exact alike_finish s path
  | cons p planes ih =>
    unfold choose
    apply alike_read
    intro st _ _
    dsimp only
    split
    · exact alike_pure _
    · apply alike_read
      intro st _ _
      dsimp only
      -- Leaving the plane empty is the last thing done, whatever was tried before.
      have hempty := (ih (⟨p, none⟩ :: path)).bind fun _ =>
        alike_rollback (R := R) (E := E) st.request.cursor
      split
      · have htried : Agree R E (tryLayers s path p st.request.cursor _ s.output.layers) _ :=
          alike_tryLayers h (fun id => ih (⟨p, some id⟩ :: path)) s.output.layers
        exact htried.bind fun _ => hempty
      · exact hempty

end Search
end Scanout
