import Mathlib.Logic.Relation
import Scanout.Proofs.Session

namespace Scanout
namespace Kernel

variable {σ : Type} [Kernel σ]

section Test

variable {k k' : σ} {request : Request} {flags : CommitFlags}

theorem test_of_never (h : interruptions k request flags.forTest = none) :
    test k request flags = (none, k) := by
  rw [test]
  split
  · rfl
  · rename_i heq
    rw [h] at heq
    cases heq

theorem test_of_ok {n : Nat} (h : interruptions k request flags.forTest = some n)
    (hreply : commit k request flags.forTest = (.ok (), k')) :
    test k request flags = (some (.ok ()), k') := by
  -- Within the bound there is an answer, and it is the one given.
  rw [test]
  split
  · rename_i heq
    rw [h] at heq
    cases heq
  · split
    · rename_i heq
      rw [hreply] at heq
      cases heq
      rfl
    · rename_i heq
      rw [hreply] at heq
      cases heq

theorem test_of_error {n : Nat} {e : Errno} (h : interruptions k request flags.forTest = some n)
    (hreply : commit k request flags.forTest = (.error e, k')) :
    test k request flags =
      if e.isTransient = true then test k' request flags else (some (.error e), k') := by
  -- The error either interrupts or is the answer.
  rw [test]
  split
  · rename_i heq
    rw [h] at heq
    cases heq
  · split
    · rename_i heq
      rw [hreply] at heq
      cases heq
    · rename_i heq
      rw [hreply] at heq
      cases heq
      split <;> rfl

/-- A question is asked again until the answer is no interruption. -/
theorem isTransient_of_test {e : Errno} (h : test k request flags = (some (.error e), k')) :
    e.isTransient = false := by
  -- Induction on the interruptions; only a final answer ends them.
  fun_induction test k request flags with
  | case1 => cases h
  | case2 => cases h
  | case3 _ _ _ _ _ _ _ ih => exact ih h
  | case4 k n hbound e' k₁ hreply hfinal =>
    obtain ⟨he, -⟩ := Prod.mk.inj h
    obtain rfl : e' = e := Except.error.inj (Option.some.inj he)
    exact Bool.not_eq_true _ ▸ hfinal

end Test

/-- What an apply may do to the driver: nothing, look at its clock, or test a request. -/
inductive Asks (flags : CommitFlags) : σ → σ → Prop
  | rest (k : σ) : Asks flags k k
  | now (k : σ) : Asks flags k (Kernel.now k).2
  | test (k : σ) (request : Request) : Asks flags k (Kernel.test k request flags).2

/-- While the driver is only asked, `K` holds of it, and what it lets pass is noted for good. -/
structure Notes (flags : CommitFlags) (K : σ → Prop) (noted : σ → Request → Prop) : Prop where
  now : ∀ k, K k → K (Kernel.now k).2 ∧ ∀ r, noted k r → noted (Kernel.now k).2 r
  test : ∀ k r, K k → K (Kernel.test k r flags).2 ∧
    (∀ r', noted k r' → noted (Kernel.test k r flags).2 r') ∧
    ((Kernel.test k r flags).1 = some (.ok ()) → noted (Kernel.test k r flags).2 r)

def Later (K : σ → Prop) (noted : σ → Request → Prop) (k k' : σ) : Prop :=
  K k → K k' ∧ ∀ r, noted k r → noted k' r

omit [Kernel σ] in
instance (K : σ → Prop) (noted : σ → Request → Prop) : IsPreorder σ (Later K noted) where
  refl _ h := ⟨h, fun _ hr => hr⟩
  trans _ _ _ h h' hk := by
    obtain ⟨hk', hnotes⟩ := h hk
    obtain ⟨hk'', hnotes'⟩ := h' hk'
    exact ⟨hk'', fun r hr => hnotes' r (hnotes r hr)⟩

theorem Notes.later {flags : CommitFlags} {K : σ → Prop} {noted : σ → Request → Prop}
    (h : Notes flags K noted) {k k' : σ} (hasks : Asks flags k k') : Later K noted k k' := by
  cases hasks with
  | rest => exact refl_of (Later K noted) k
  | now => exact h.now k
  | test request => exact fun hk => ⟨(h.test k request hk).1, (h.test k request hk).2.1⟩

theorem Notes.laterAll {flags : CommitFlags} {K : σ → Prop} {noted : σ → Request → Prop}
    (h : Notes flags K noted) {k k' : σ} (hasks : Relation.ReflTransGen (Asks flags) k k') :
    Later K noted k k' := by
  induction hasks with
  | refl => exact refl_of (Later K noted) k
  | tail _ hask ih => exact trans_of (Later K noted) ih (h.later hask)

/-- It can be kept in mind that the driver was only asked. -/
theorem Notes.since {flags : CommitFlags} {K : σ → Prop} {noted : σ → Request → Prop}
    (h : Notes flags K noted) (k₀ : σ) :
    Notes flags (fun k => K k ∧ Relation.ReflTransGen (Asks flags) k₀ k) noted where
  now k hk := ⟨⟨(h.now k hk.1).1, hk.2.tail (.now k)⟩, (h.now k hk.1).2⟩
  test k r hk := ⟨⟨(h.test k r hk.1).1, hk.2.tail (.test k r)⟩, (h.test k r hk.1).2⟩

/-- If the failure is an error of the driver, then it is the answer to the last one of the questions that
were asked since `k₀`, and it is no plain incompatibility. -/
def Justifies (flags : CommitFlags) (k₀ k : σ) (failure : Failure) : Prop :=
  ∀ e, failure = .error (.kernel e) → e.isIncompatibility = false ∧ ∃ k₁ request,
    Relation.ReflTransGen (Asks flags) k₀ k₁ ∧ test k₁ request flags = (some (.error e), k)

theorem Justifies.since {flags : CommitFlags} {k₀ k₁ k : σ} {failure : Failure}
    (h : Justifies flags k₁ k failure) (hasks : Relation.ReflTransGen (Asks flags) k₀ k₁) :
    Justifies flags k₀ k failure := by
  intro e he
  obtain ⟨hhard, k₂, request, hasks', htest⟩ := h e he
  exact ⟨hhard, k₂, request, hasks.trans hasks', htest⟩

end Kernel

namespace Session

variable {σ : Type} [Kernel σ] {flags : CommitFlags} {K : σ → Prop} {noted : σ → Request → Prop}

/-- A question to the driver reports no decision, and what passes is noted. It fails only because of the
answer. -/
theorem noted_testCommit (h : Kernel.Notes flags K noted) (r : Request) (s : Session σ)
    (hK : K s.kernel) :
    Ensures (testCommit r flags) s
      (fun reply s' => (K s'.kernel ∧ Reports [] s s') ∧
        (∀ r', noted s.kernel r' → noted s'.kernel r') ∧ (reply = none → noted s'.kernel r))
      (fun failure s' => (K s'.kernel ∧ Reports [] s s') ∧
        Kernel.Justifies flags s.kernel s'.kernel failure) := by
  obtain ⟨hafter, hkept, hpass⟩ := h.test s.kernel r hK
  -- Either the session has a reply, or it stops with the failure.
  refine (testCommit_spec r flags s).mono ?_ ?_
  · rintro reply s' ⟨hkernel, hreports, hreply⟩
    rw [hkernel]
    refine ⟨⟨hafter, hreports⟩, hkept, ?_⟩
    rintro rfl
    exact hpass hreply
  · rintro failure s' ⟨hkernel, hreports, hfailure⟩
    rw [hkernel]
    refine ⟨⟨hafter, hreports⟩, ?_⟩
    rintro e rfl
    exact ⟨hfailure.2, s.kernel, r, .refl, Prod.ext hfailure.1 rfl⟩

end Session

end Scanout
