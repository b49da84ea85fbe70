import Scanout.Proofs.Alike
import Scanout.Session

namespace Scanout

variable {σ : Type}

namespace Kernel

/-- What a session stops with at an answer of the driver, unless it goes on. -/
def stop? : Option (Except Errno Unit) → Option Failure
  | none => some .stuck
  | some (.ok ()) => none
  | some (.error e) => if e.isIncompatibility = true then none else some (.error (.kernel e))

variable [Kernel σ]

/-- Drivers that `R` relates answer alike and stay related. At an answer that stops the session, all that
is left of this is `E`. -/
structure Alike (flags : CommitFlags) (R : σ → σ → Prop) (E : Failure → σ → σ → Prop) : Prop where
  timebase : ∀ {k k'}, R k k' → Kernel.timebase k' = Kernel.timebase k
  planeIds : ∀ {k k'}, R k k' → Kernel.planeIds k' = Kernel.planeIds k
  plane : ∀ {k k'}, R k k' → ∀ q, Kernel.plane k' q = Kernel.plane k q
  blob : ∀ {k k'}, R k k' → ∀ id, Kernel.blob k' id = Kernel.blob k id
  framebuffer : ∀ {k k'}, R k k' → ∀ fb, Kernel.framebuffer k' fb = Kernel.framebuffer k fb
  now : ∀ {k k'}, R k k' → (Kernel.now k').1 = (Kernel.now k).1 ∧ R (Kernel.now k).2 (Kernel.now k').2
  test : ∀ {k k'}, R k k' → ∀ r, (Kernel.test k' r flags).1 = (Kernel.test k r flags).1 ∧
    (stop? (Kernel.test k r flags).1).elim R E (Kernel.test k r flags).2 (Kernel.test k' r flags).2
  fail : ∀ {k k'}, R k k' → ∀ e, E e k k'

/-- The driver keeps `K` from answer to answer. At one that stops the session, `B` is what is left of
it. -/
structure Maintains (flags : CommitFlags) (K : σ → Prop) (B : Failure → σ → Prop) : Prop where
  now : ∀ {k}, K k → K (Kernel.now k).2
  test : ∀ {k}, K k → ∀ r,
    (stop? (Kernel.test k r flags).1).elim K B (Kernel.test k r flags).2
  fail : ∀ {k}, K k → ∀ e, B e k

/-- What every step of the driver keeps is kept even by a step that stops the session. -/
theorem maintains_of_steps {flags : CommitFlags} {K : σ → Prop} (hnow : ∀ {k}, K k → K (Kernel.now k).2)
    (htest : ∀ {k}, K k → ∀ r, K (Kernel.test k r flags).2) : Maintains flags K fun _ => K where
  now := hnow
  test := by
    intro k hK r
    cases stop? (Kernel.test k r flags).1 <;> exact htest hK r
  fail hK _ := hK

/-- A driver that keeps something answers as itself does. -/
theorem Maintains.alike {flags : CommitFlags} {K : σ → Prop} {B : Failure → σ → Prop}
    (h : Maintains flags K B) :
    Alike flags (fun k k' => k' = k ∧ K k) (fun e k k' => k' = k ∧ B e k) where
  timebase h := by rw [h.1]
  planeIds h := by rw [h.1]
  plane h _ := by rw [h.1]
  blob h _ := by rw [h.1]
  framebuffer h _ := by rw [h.1]
  now := by
    rintro k _ ⟨rfl, hK⟩
    exact ⟨rfl, rfl, h.now hK⟩
  test := by
    rintro k k' ⟨rfl, hK⟩ r
    have hnext := h.test hK r
    refine ⟨rfl, ?_⟩
    -- An answer that stops one stops the other, since the drivers are the same.
    cases hstop : stop? (Kernel.test k' r flags).1 with
    | none =>
      rw [hstop] at hnext
      exact ⟨rfl, hnext⟩
    | some e =>
      rw [hstop] at hnext
      exact ⟨rfl, hnext⟩
  fail := by
    rintro k _ ⟨rfl, hK⟩ e
    exact ⟨rfl, h.fail hK e⟩

end Kernel

namespace Session

def Over (R : σ → σ → Prop) (s s' : Session σ) : Prop :=
  ∃ kernel, s' = { s with kernel } ∧ R s.kernel kernel

abbrev Agree {α : Type} (R : σ → σ → Prop) (E : Failure → σ → σ → Prop) (x y : SessionM σ α) : Prop :=
  Alike (Over R) (fun e => Over (E e)) x y

variable {R : σ → σ → Prop} {E : Failure → σ → σ → Prop}

theorem alike_emit (e : Event) : Agree R E (emit e) (emit e) := by
  apply alike_modify
  rintro s _ ⟨kernel, rfl, h⟩
  exact ⟨kernel, rfl, h⟩

variable [Kernel σ] {flags : CommitFlags} (h : Kernel.Alike flags R E)
include h

theorem alike_now : Agree R E now now := by
  apply alike_modifyGet
  rintro s _ ⟨kernel, rfl, hR⟩
  obtain ⟨hreading, hnext⟩ := h.now hR
  exact ⟨hreading, _, rfl, hnext⟩

theorem alike_testCommit (request : Request) :
    Agree R E (testCommit request flags) (testCommit request flags) := by
  rintro s _ ⟨kernel, rfl, hR⟩
  obtain ⟨hreply, hnext⟩ := h.test hR request
  simp only [testCommit, modify_bind, modifyGet_bind, hreply]
  generalize (Kernel.test s.kernel request flags).1 = reply at hnext ⊢
  -- An answer either stops both sessions or none.
  rcases reply with _ | e | _
  · exact .error ⟨_, rfl, hnext⟩
  · by_cases hsoft : e.isIncompatibility = true
    · rw [Kernel.stop?, if_pos hsoft] at hnext
      simp only [if_pos hsoft]
      exact .ok ⟨_, rfl, hnext⟩
    · rw [Kernel.stop?, if_neg hsoft] at hnext
      simp only [if_neg hsoft]
      exact .error ⟨_, rfl, hnext⟩
  · exact .ok ⟨_, rfl, hnext⟩

end Session

end Scanout
