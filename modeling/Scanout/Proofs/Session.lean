import Scanout.Proofs.Outcome
import Scanout.Session

namespace Scanout

variable {σ : Type}

def Event.decision? : Event → Option (OutputId × ReuseOutcome)
  | .reuse o outcome => some (o, outcome)
  | _ => none

namespace Session

/-- The trace has grown, and the new events report these decisions, the latest in front. -/
def Reports (decisions : List (OutputId × ReuseOutcome)) (s s' : Session σ) : Prop :=
  ∃ new, s'.trace = new ++ s.trace ∧ new.filterMap Event.decision? = decisions

/-- The decisions reported so far, the latest in front. -/
def decisions (s : Session σ) : List (OutputId × ReuseOutcome) := s.trace.filterMap Event.decision?

theorem Reports.decisions {ds : List (OutputId × ReuseOutcome)} {s s' : Session σ}
    (h : Reports ds s s') : s'.decisions = ds ++ s.decisions := by
  obtain ⟨new, hnew, rfl⟩ := h
  rw [Session.decisions, hnew, List.filterMap_append]
  rfl

theorem Reports.trans {ds ds' : List (OutputId × ReuseOutcome)} {s s' s'' : Session σ}
    (h : Reports ds s s') (h' : Reports ds' s' s'') : Reports (ds' ++ ds) s s'' := by
  obtain ⟨new, hnew, rfl⟩ := h
  obtain ⟨new', hnew', rfl⟩ := h'
  exact ⟨new' ++ new, by rw [hnew', hnew, List.append_assoc], List.filterMap_append⟩

/-- The one decision reported is that the output's allocation is not kept, so that a full search
follows. -/
def ReportsSearch (o : OutputId) (s s' : Session σ) : Prop :=
  ∃ outcome ≠ .accepted, Reports [(o, outcome)] s s'

instance : IsPreorder (Session σ) (Reports []) where
  refl _ := ⟨[], rfl, rfl⟩
  trans _ _ _ h h' := h.trans h'

theorem reports_of_trace {s s' : Session σ} (h : s'.trace = s.trace) : Reports [] s s' :=
  ⟨[], h, rfl⟩

theorem reports_emit (e : Event) (s : Session σ) :
    Ensures (emit e) s (fun _ => Reports e.decision?.toList s) (fun _ _ => False) := by
  refine ⟨[e], rfl, ?_⟩
  cases h : e.decision? <;> simp [h]

theorem silent_emit {e : Event} (he : e.decision? = none) :
    Stays (Reports []) (emit (σ := σ) e) := by
  intro s
  have h := reports_emit e s
  rw [he] at h
  exact h.mono (fun _ _ h => h) fun _ _ => False.elim

variable [Kernel σ]

theorem silent_now : Stays (Reports []) (now (σ := σ)) :=
  fun s => reports_of_trace (s := s) rfl

/-- How a question to the driver ends: with its answer if that is yes or a plain incompatibility, and
in failure if the driver will never answer or objects in earnest. -/
theorem testCommit_spec (request : Request) (flags : CommitFlags) (s : Session σ) :
    Ensures (testCommit request flags) s
      (fun reply s' => s'.kernel = (Kernel.test s.kernel request flags).2 ∧ Reports [] s s' ∧
        (Kernel.test s.kernel request flags).1 = some (reply.elim (.ok ()) .error))
      (fun failure s' => s'.kernel = (Kernel.test s.kernel request flags).2 ∧ Reports [] s s' ∧
        match failure with
        | .stuck => (Kernel.test s.kernel request flags).1 = none
        | .error (.kernel e) => (Kernel.test s.kernel request flags).1 = some (.error e) ∧
            e.isIncompatibility = false
        | _ => False) := by
  -- The trace stays as it was unless the error is logged.
  have htraced : ∀ kernel testCommits, Reports [] s { s with kernel, testCommits } :=
    fun _ _ => reports_of_trace rfl
  simp only [testCommit, ensures_bind, ensures_modify, ensures_modifyGet]
  -- No answer, a yes, a plain no, or an objection in earnest.
  split
  · rename_i hreply
    exact ⟨rfl, htraced _ _, hreply⟩
  · rename_i hreply
    exact ⟨rfl, htraced _ _, hreply⟩
  · rename_i e hreply
    split
    · exact ⟨rfl, htraced _ _, hreply⟩
    · rename_i hhard
      rw [ensures_bind]
      exact ⟨rfl, ⟨[_], rfl, rfl⟩, hreply, Bool.not_eq_true _ ▸ hhard⟩

theorem silent_testCommit (request : Request) (flags : CommitFlags) :
    Stays (Reports []) (testCommit (σ := σ) request flags) := fun s =>
  (testCommit_spec request flags s).mono (fun _ _ h => h.2.1) fun _ _ h => h.2.1

end Session

end Scanout
