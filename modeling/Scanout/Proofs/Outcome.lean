import Mathlib.Order.Defs.Unbundled

/-! What a computation with state and failures ensures. The state that a failed step leaves behind
counts as much as the one a successful step leaves, so a statement names both. -/

namespace Scanout

variable {ε σ α β : Type}

/-- Run from `s`, the computation returns with `Q` or stops with `E`. -/
def Ensures (x : EStateM ε σ α) (s : σ) (Q : α → σ → Prop) (E : ε → σ → Prop) : Prop :=
  match x s with
  | .ok a s' => Q a s'
  | .error e s' => E e s'

def succeeded : EStateM.Result ε σ α → Bool
  | .ok _ _ => true
  | .error _ _ => false

def answer? : EStateM.Result ε σ α → Option α
  | .ok a _ => some a
  | .error _ _ => none

def failure? : EStateM.Result ε σ α → Option ε
  | .ok _ _ => none
  | .error e _ => some e

def leftBy : EStateM.Result ε σ α → σ
  | .ok _ s => s
  | .error _ s => s

theorem eq_ok_of_succeeded {x : EStateM.Result ε σ Unit} (h : succeeded x = true) :
    x = .ok () (leftBy x) := by
  cases x with
  | ok a s => rfl
  | error e s => cases h

theorem eq_ok_of_answer? {x : EStateM.Result ε σ α} {a : α} (h : answer? x = some a) :
    x = .ok a (leftBy x) := by
  cases x with
  | ok a' s =>
    cases h
    rfl
  | error e s => cases h

theorem eq_error_of_failure? {x : EStateM.Result ε σ α} {e : ε} (h : failure? x = some e) :
    x = .error e (leftBy x) := by
  cases x with
  | ok a s => cases h
  | error e' s =>
    cases h
    rfl

section Binds

variable {x : EStateM ε σ α} {f : α → EStateM ε σ β} {s s' : σ}

theorem bind_of_ok {a : α} (h : x s = .ok a s') : (x >>= f) s = f a s' := by
  simp only [bind, EStateM.bind, h]

theorem bind_of_error {e : ε} (h : x s = .error e s') : (x >>= f) s = .error e s' := by
  simp only [bind, EStateM.bind, h]

theorem bind_congr_run {y : EStateM ε σ α} (h : x s = y s') : (x >>= f) s = (y >>= f) s' := by
  simp only [bind, EStateM.bind, h]

theorem get_bind (f : σ → EStateM ε σ β) : (get >>= f) s = f s s := rfl

theorem modify_bind (g : σ → σ) (f : PUnit → EStateM ε σ β) : (modify g >>= f) s = f ⟨⟩ (g s) := rfl

theorem modifyGet_bind (g : σ → α × σ) (f : α → EStateM ε σ β) :
    (modifyGet g >>= f) s = f (g s).1 (g s).2 := rfl

theorem bind_eq_ok {b : β} {s'' : σ} (h : (x >>= f) s = .ok b s'') :
    ∃ a s', x s = .ok a s' ∧ f a s' = .ok b s'' := by
  cases hx : x s with
  | ok a s' => exact ⟨a, s', rfl, (bind_of_ok hx).symm.trans h⟩
  | error e s' => cases (bind_of_error hx).symm.trans h

/-- A loop that fails does so in one round, after rounds that succeeded. -/
theorem forM_eq_error {f : α → EStateM ε σ PUnit} {as : List α} {s s' : σ} {e : ε}
    (h : as.forM f s = .error e s') : ∃ before a after s₁, as = before ++ a :: after ∧
      before.forM f s = .ok ⟨⟩ s₁ ∧ f a s₁ = .error e s' := by
  -- Induction on the list: the loop either stops at its first element or goes on after it.
  induction as generalizing s with
  | nil => cases h
  | cons a as ih =>
    have hrun : (f a >>= fun _ => as.forM f) s = .error e s' := h
    cases ha : f a s with
    | error e' s₁ =>
      rw [bind_of_error ha] at hrun
      cases hrun
      exact ⟨[], a, as, s, rfl, rfl, ha⟩
    | ok _ s₁ =>
      rw [bind_of_ok ha] at hrun
      obtain ⟨before, b, after, s₂, rfl, hbefore, hb⟩ := ih hrun
      exact ⟨a :: before, b, after, s₂, rfl, (bind_of_ok ha).trans hbefore, hb⟩

end Binds

section Rules

variable {s : σ} {Q Q' : α → σ → Prop} {R : β → σ → Prop} {E E' : ε → σ → Prop}

@[simp]
theorem ensures_pure (a : α) : Ensures (pure a : EStateM ε σ α) s Q E ↔ Q a s := Iff.rfl

@[simp]
theorem ensures_throw (e : ε) : Ensures (throw e : EStateM ε σ α) s Q E ↔ E e s := Iff.rfl

@[simp]
theorem ensures_get {Q : σ → σ → Prop} : Ensures (get : EStateM ε σ σ) s Q E ↔ Q s s := Iff.rfl

@[simp]
theorem ensures_set (t : σ) {Q : PUnit → σ → Prop} :
    Ensures (set t : EStateM ε σ PUnit) s Q E ↔ Q ⟨⟩ t := Iff.rfl

@[simp]
theorem ensures_modify (f : σ → σ) {Q : PUnit → σ → Prop} :
    Ensures (modify f : EStateM ε σ PUnit) s Q E ↔ Q ⟨⟩ (f s) := Iff.rfl

@[simp]
theorem ensures_modifyGet (f : σ → α × σ) :
    Ensures (modifyGet f : EStateM ε σ α) s Q E ↔ Q (f s).1 (f s).2 := Iff.rfl

@[simp]
theorem ensures_bind (x : EStateM ε σ α) (f : α → EStateM ε σ β) :
    Ensures (x >>= f) s R E ↔ Ensures x s (fun a s' => Ensures (f a) s' R E) E := by
  simp only [Ensures, bind, EStateM.bind]
  cases x s <;> rfl

@[simp]
theorem ensures_forM_nil (f : α → EStateM ε σ PUnit) {Q : PUnit → σ → Prop} :
    Ensures ([].forM f) s Q E ↔ Q ⟨⟩ s := Iff.rfl

@[simp]
theorem ensures_forM_cons (f : α → EStateM ε σ PUnit) (a : α) (as : List α)
    {Q : PUnit → σ → Prop} :
    Ensures ((a :: as).forM f) s Q E ↔
      Ensures (f a) s (fun _ s' => Ensures (as.forM f) s' Q E) E :=
  ensures_bind (f a) fun _ => as.forM f

theorem ensures_adaptExcept {ε' : Type} (x : EStateM ε σ α) (f : ε → ε') {E : ε' → σ → Prop} :
    Ensures (EStateM.adaptExcept f x) s Q E ↔ Ensures x s Q fun e => E (f e) := by
  unfold Ensures EStateM.adaptExcept
  cases x s <;> rfl

theorem ensures_of_eq_ok {x : EStateM ε σ α} {a : α} {s' : σ} (hx : x s = .ok a s') :
    Ensures x s Q E ↔ Q a s' := by
  simp only [Ensures, hx]

theorem ensures_of_eq_error {x : EStateM ε σ α} {e : ε} {s' : σ} (hx : x s = .error e s') :
    Ensures x s Q E ↔ E e s' := by
  simp only [Ensures, hx]

theorem ensures_congr {x y : EStateM ε σ α} {s' : σ} (h : x s = y s') :
    Ensures x s Q E ↔ Ensures y s' Q E := by
  simp only [Ensures, h]

theorem Ensures.mono {x : EStateM ε σ α} (hx : Ensures x s Q E)
    (hQ : ∀ a s', Q a s' → Q' a s') (hE : ∀ e s', E e s' → E' e s') : Ensures x s Q' E' := by
  unfold Ensures at hx ⊢
  cases h : x s with
  | ok a s' => rw [h] at hx; exact hQ a s' hx
  | error e s' => rw [h] at hx; exact hE e s' hx

/-- What follows from a fact about all ends of a computation is a fact about all of them. -/
theorem Ensures.imp {x : EStateM ε σ α} {P P' : σ → Prop} (hx : Ensures x s (fun _ => P) fun _ => P)
    (h : ∀ s', P s' → P' s') : Ensures x s (fun _ => P') fun _ => P' :=
  hx.mono (fun _ => h) fun _ => h

/-- What holds however the computation ends holds of the state that it leaves. -/
theorem Ensures.leftBy {x : EStateM ε σ α} {P : σ → Prop} (hx : Ensures x s (fun _ => P) (fun _ => P)) :
    P (leftBy (x s)) := by
  unfold Ensures at hx
  cases h : x s <;> rw [h] at hx <;> exact hx

/-- Two facts about one run hold of it together. -/
theorem Ensures.and {x : EStateM ε σ α} (hx : Ensures x s Q E) (hx' : Ensures x s Q' E') :
    Ensures x s (fun a s' => Q a s' ∧ Q' a s') (fun e s' => E e s' ∧ E' e s') := by
  unfold Ensures at hx hx' ⊢
  cases h : x s with
  | ok a s' => rw [h] at hx hx'; exact ⟨hx, hx'⟩
  | error e s' => rw [h] at hx hx'; exact ⟨hx, hx'⟩

/-- What every round of a loop keeps holds at its end. -/
theorem ensures_forM {I : σ → Prop} {f : α → EStateM ε σ PUnit} {xs : List α}
    (hf : ∀ a ∈ xs, ∀ s, I s → Ensures (f a) s (fun _ => I) E) (hs : I s) :
    Ensures (xs.forM f) s (fun _ => I) E := by
  induction xs generalizing s with
  | nil => exact hs
  | cons a xs ih =>
    rw [ensures_forM_cons]
    refine (hf a List.mem_cons_self s hs).mono (fun _ s' hs' => ?_) (fun _ _ he => he)
    exact ih (fun b hb => hf b (List.mem_cons_of_mem a hb)) hs'

end Rules

/-- However it ends, the computation relates the state it leaves to the one it started from. -/
def Stays (R : σ → σ → Prop) (x : EStateM ε σ α) : Prop :=
  ∀ s, Ensures x s (fun _ => R s) (fun _ => R s)

theorem Stays.mono {R R' : σ → σ → Prop} {x : EStateM ε σ α} (hx : Stays R x)
    (h : ∀ s s', R s s' → R' s s') : Stays R' x :=
  fun s => (hx s).mono (fun _ s' => h s s') fun _ s' => h s s'

theorem Stays.and {R R' : σ → σ → Prop} {x : EStateM ε σ α} (hx : Stays R x) (hx' : Stays R' x) :
    Stays (fun s s' => R s s' ∧ R' s s') x := fun s => (hx s).and (hx' s)

theorem Stays.of_eq_ok {R : σ → σ → Prop} {x : EStateM ε σ α} (hx : Stays R x) {s s' : σ} {a : α}
    (h : x s = .ok a s') : R s s' := (ensures_of_eq_ok h).mp (hx s)

section Loops

variable {R : σ → σ → Prop} [IsPreorder σ R]

theorem stays_pure (a : α) : Stays R (pure a : EStateM ε σ α) := fun s => refl_of R s

theorem stays_throw (e : ε) : Stays R (throw e : EStateM ε σ α) := fun s => refl_of R s

theorem stays_get : Stays R (get : EStateM ε σ σ) := fun s => refl_of R s

omit [IsPreorder σ R] in
theorem stays_modify {f : σ → σ} (hf : ∀ s, R s (f s)) :
    Stays R (modify f : EStateM ε σ PUnit) := hf

/-- What relates the ends of a computation to its start relates them to all that is before. -/
theorem Ensures.since {x : EStateM ε σ α} {s₀ s : σ}
    (hx : Ensures x s (fun _ => R s) (fun _ => R s)) (h : R s₀ s) :
    Ensures x s (fun _ => R s₀) (fun _ => R s₀) :=
  hx.mono (fun _ _ hs' => trans_of R h hs') fun _ _ hs' => trans_of R h hs'

theorem Ensures.bind {x : EStateM ε σ α} {f : α → EStateM ε σ β} {s : σ}
    (hx : Ensures x s (fun _ => R s) (fun _ => R s))
    (hf : ∀ a s', R s s' → Ensures (f a) s' (fun _ => R s') (fun _ => R s')) :
    Ensures (x >>= f) s (fun _ => R s) (fun _ => R s) := by
  rw [ensures_bind]
  exact hx.mono (fun a s' hs' => (hf a s' hs').since hs') fun _ _ hs' => hs'

theorem Stays.bind {x : EStateM ε σ α} {f : α → EStateM ε σ β} (hx : Stays R x)
    (hf : ∀ a, Stays R (f a)) : Stays R (x >>= f) :=
  fun s => (hx s).bind fun a s' _ => hf a s'

/-- What comes first keeps the relation, so if a failure of the rest does, a failure of the whole does. -/
theorem Stays.before {x : EStateM ε σ α} {f : α → EStateM ε σ β} {Q : β → σ → Prop} {s₀ s : σ}
    (hx : Stays R x) (h : R s₀ s) (hf : ∀ a s', R s₀ s' → Ensures (f a) s' Q fun _ => R s₀) :
    Ensures (x >>= f) s Q fun _ => R s₀ := by
  rw [ensures_bind]
  exact ((hx s).since h).mono hf fun _ _ hs' => hs'

theorem stays_forM {f : α → EStateM ε σ PUnit} {xs : List α} (hf : ∀ a ∈ xs, Stays R (f a)) :
    Stays R (xs.forM f) :=
  fun s => ensures_forM (fun a ha s' hs' => (hf a ha s').since hs') (refl_of R s)

end Loops

/-- An edit that always succeeds relates what it takes to what it gives. -/
theorem rel_of_ok {α β : Type} {R : α → β → Prop} {f : α → β} (hf : ∀ a, R a (f a)) (a : α) (b : β)
    (h : (Except.ok (f a) : Except ε β) = .ok b) : R a b := by
  cases h
  exact hf a

end Scanout
