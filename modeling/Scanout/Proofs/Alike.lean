import Scanout.Proofs.Outcome

/-! Two runs side by side. From related states they go alike if they return the same answer in related
states, or stop with the same failure. What one run keeps is what it shares with itself. -/

namespace Scanout

variable {ε σ α β : Type}

/-- Two runs have ended alike: with one answer, in states that `T` relates, or with one failure, in states
that `E` relates for it. -/
inductive EndAlike (T : σ → σ → Prop) (E : ε → σ → σ → Prop) :
    EStateM.Result ε σ α → EStateM.Result ε σ α → Prop
  | ok {a s s'} : T s s' → EndAlike T E (.ok a s) (.ok a s')
  | error {e s s'} : E e s s' → EndAlike T E (.error e s) (.error e s')

/-- From states that `T` relates the two computations end alike. -/
def Alike (T : σ → σ → Prop) (E : ε → σ → σ → Prop) (x y : EStateM ε σ α) : Prop :=
  ∀ s s', T s s' → EndAlike T E (x s) (y s')

variable {T : σ → σ → Prop} {E : ε → σ → σ → Prop}

theorem EndAlike.leftBy {r r' : EStateM.Result ε σ α} (h : EndAlike T (fun _ => T) r r') :
    T (leftBy r) (leftBy r') := by
  cases h with
  | ok h => exact h
  | error h => exact h

theorem EndAlike.failure? {r r' : EStateM.Result ε σ α} (h : EndAlike T E r r') :
    failure? r' = failure? r := by
  cases h <;> rfl

theorem EndAlike.mono_error {E' : ε → σ → σ → Prop} {r r' : EStateM.Result ε σ α}
    (h : EndAlike T E r r') (hE : ∀ e s s', E e s s' → E' e s s') : EndAlike T E' r r' := by
  cases h with
  | ok h => exact .ok h
  | error h => exact .error (hE _ _ _ h)

/-- A run that is compared with itself stays related to itself. -/
theorem Alike.ensures {x : EStateM ε σ α} (h : Alike T E x x) {s : σ} (hs : T s s) :
    Ensures x s (fun _ s' => T s' s') fun e s' => E e s' s' := by
  have hend := h s s hs
  unfold Ensures
  generalize x s = r at hend ⊢
  cases hend with
  | ok h => exact h
  | error h => exact h

section Rules

theorem alike_pure (a : α) : Alike T E (pure a) (pure a) := fun _ _ h => .ok h

theorem alike_throw {e : ε} (he : ∀ s s', T s s' → E e s s') :
    Alike T E (throw e : EStateM ε σ α) (throw e) := fun s s' h => .error (he s s' h)

theorem alike_modify {f g : σ → σ} (hf : ∀ s s', T s s' → T (f s) (g s')) :
    Alike T E (modify f) (modify g) := fun s s' h => .ok (hf s s' h)

theorem alike_modifyGet {f g : σ → α × σ}
    (hf : ∀ s s', T s s' → (g s').1 = (f s).1 ∧ T (f s).2 (g s').2) :
    Alike T E (modifyGet f) (modifyGet g) := by
  intro s s' hs
  obtain ⟨hanswer, hnext⟩ := hf s s' hs
  show EndAlike T E (.ok (f s).1 (f s).2) (.ok (g s').1 (g s').2)
  rw [hanswer]
  exact .ok hnext

theorem alike_set {t t' : σ} (h : T t t') : Alike T E (set t) (set t') := fun _ _ _ => .ok h

theorem Alike.bind {x y : EStateM ε σ α} {f g : α → EStateM ε σ β} (h : Alike T E x y)
    (hf : ∀ a, Alike T E (f a) (g a)) : Alike T E (x >>= f) (y >>= g) := by
  intro s s' hs
  have hend := h s s' hs
  simp only [Bind.bind, EStateM.bind]
  -- Neither run matters any more, only how both have ended.
  generalize x s = r at hend ⊢
  generalize y s' = r' at hend ⊢
  cases hend with
  | ok hs => exact hf _ _ _ hs
  | error he => exact .error he

/-- What is read of the states may differ. -/
theorem alike_get_bind {f g : σ → EStateM ε σ β}
    (hf : ∀ s s', T s s' → Alike T E (f s) (g s')) : Alike T E (get >>= f) (get >>= g) :=
  fun s s' hs => hf s s' hs s s' hs

theorem alike_forM {f g : α → EStateM ε σ PUnit} {as : List α}
    (hf : ∀ a ∈ as, Alike T E (f a) (g a)) : Alike T E (as.forM f) (as.forM g) := by
  induction as with
  | nil => exact alike_pure _
  | cons a as ih =>
    refine Alike.bind (hf a List.mem_cons_self) fun _ => ih fun b hb => ?_
    exact hf b (List.mem_cons_of_mem a hb)

end Rules

end Scanout
