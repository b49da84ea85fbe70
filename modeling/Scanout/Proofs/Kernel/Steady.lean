import Scanout.Kernel.Scripted
import Scanout.Proofs.Kernel.Asks

/-! Drivers that judge a request by its writes alone and do not keep a search waiting, and drivers that
may do as they like so long as they answer and their clock does not run backwards. A scripted driver is
of the first kind unless its script tells it to fail, to refuse for good, or to take time, and of the
second kind even if it takes time. -/

namespace Scanout

/-- In the states `K` each test of a request gets the verdict on it, which is never a hard error, and
the clock is short of the timeout. -/
structure Kernel.Steady {σ : Type} [Kernel σ] (K : σ → Prop) (flags : CommitFlags)
    (verdict : Request → Option Errno) (started : HostTime) (timeout : Duration) : Prop where
  test : ∀ k r, K k → ∃ k', K k' ∧
    Kernel.test k r flags = (some ((verdict r).elim (.ok ()) .error), k')
  soft : ∀ r e, verdict r = some e → e.isIncompatibility = true
  now : ∀ k, K k → K (Kernel.now k).2 ∧ ¬ timeout ≤ (Kernel.now k).1.since started

/-- Whatever the driver is asked from `k` on, it answers, and it never objects in earnest. What it answers
to a request may change from one time to the next. -/
def Kernel.Answers {σ : Type} [Kernel σ] (flags : CommitFlags) (k : σ) : Prop :=
  ∀ k' r, Relation.ReflTransGen (Kernel.Asks flags) k k' → ∃ reply,
    (Kernel.test k' r flags).1 = some reply ∧ ∀ e, reply = .error e → e.isIncompatibility = true

def Kernel.Rises {σ : Type} [Kernel σ] (flags : CommitFlags) (k : σ) : Prop :=
  ∀ k₁ k₂, Relation.ReflTransGen (Kernel.Asks flags) k k₁ →
    Relation.ReflTransGen (Kernel.Asks flags) (Kernel.now k₁).2 k₂ →
      (Kernel.now k₁).1.ticks ≤ (Kernel.now k₂).1.ticks

theorem Kernel.Rises.later {σ : Type} [Kernel σ] {flags : CommitFlags} {k k' : σ}
    (h : Kernel.Rises flags k) (hasks : Relation.ReflTransGen (Kernel.Asks flags) k k') :
    Kernel.Rises flags k' := fun k₁ k₂ h₁ h₂ => h k₁ k₂ (hasks.trans h₁) h₂

namespace HostTime

theorem advance_zero (t : HostTime) : t.advance 0 = t := by
  have hlt : t.ticks.toNat < UInt64.size := t.ticks.toNat_lt
  simp [advance, addUpTo64, hlt]

/-- The clock stops at its greatest reading and does not begin anew. -/
theorem le_advance (t : HostTime) (d : UInt64) : t.ticks ≤ (t.advance d).ticks := by
  show t.ticks ≤ addUpTo64 t.ticks d
  rw [UInt64.le_iff_toNat_le]
  -- The sum is clamped at the largest number of ticks.
  have ht : t.ticks.toNat < UInt64.size := t.ticks.toNat_lt
  unfold addUpTo64
  split
  · rename_i hfits
    rw [UInt64.toNat_add, Nat.mod_eq_of_lt hfits]
    omega
  · rw [UInt64.toNat_ofNat_of_lt' (by decide)]
    omega

/-- A later instant is at least as far from the start. -/
theorem since_mono {started now later : HostTime} (h : now.ticks ≤ later.ticks) :
    now.since started ≤ later.since started := by
  show (now.since started).ticks ≤ (later.since started).ticks
  unfold since
  rw [UInt64.le_iff_toNat_le] at h ⊢
  -- An instant before the start counts as zero away.
  split
  · rename_i hnow
    rw [UInt64.le_iff_toNat_le] at hnow
    have hlater : started.ticks ≤ later.ticks := by
      rw [UInt64.le_iff_toNat_le]
      omega
    rw [if_pos hlater, UInt64.toNat_sub_of_le _ _ hlater, UInt64.toNat_sub_of_le _ _
      (UInt64.le_iff_toNat_le.mpr hnow)]
    omega
  · exact Nat.zero_le _

end HostTime

namespace Scripted

def verdict (s : Scripted) (r : Request) : Option Errno :=
  if s.allows r then none else some s.refusal

theorem eq_refusal_of_verdict {s : Scripted} {r : Request} {e : Errno} (h : s.verdict r = some e) :
    e = s.refusal := by
  unfold verdict at h
  split at h
  · cases h
  · exact (Option.some.inj h).symm

/-- Once the results that were laid down are used up, each question costs one commit and gets the
verdict. -/
theorem test_eq {s : Scripted} (hresults : s.results = [])
    (hrefusal : s.refusal.isIncompatibility = true) (r : Request) (flags : CommitFlags) :
    Kernel.test s r flags = (some ((s.verdict r).elim (.ok ()) .error),
      { s with commitCount := s.commitCount + 1, clock := s.clock.advance s.commitCost }) := by
  have hsoft := Errno.not_isTransient_of_isIncompatibility hrefusal
  have hbound : Kernel.interruptions s r flags.forTest = some 0 := by
    simp [Kernel.interruptions, interruptions, hresults, hsoft]
  have hreply : Kernel.commit s r flags.forTest = ((s.verdict r).elim (.ok ()) .error,
      { s with commitCount := s.commitCount + 1, clock := s.clock.advance s.commitCost }) := by
    -- Whether the request is allowed depends on neither the count nor the clock.
    have hallows : ∀ s' : Scripted, s'.allowed = s.allowed → s'.planes = s.planes →
        s'.allows r = s.allows r := by
      intro s' hallowed hplanes
      simp only [allows, hallowed, hplanes]
    simp only [Kernel.commit, commit, hresults, hallows, verdict]
    split <;> rfl
  cases hverdict : s.verdict r with
  | none =>
    rw [hverdict] at hreply
    exact Kernel.test_of_ok hbound hreply
  | some e =>
    have he := eq_refusal_of_verdict hverdict
    rw [hverdict] at hreply
    rw [Kernel.test_of_error hbound hreply, if_neg (by simp [he, hsoft])]
    rfl

/-- A scripted kernel that costs no time gives the same verdict on a request whenever it is asked. -/
theorem steady {s₀ : Scripted} (hresults : s₀.results = [])
    (hrefusal : s₀.refusal.isIncompatibility = true) (hnow : s₀.nowCost = 0)
    (hcommit : s₀.commitCost = 0) {started : HostTime} {timeout : Duration}
    (hearly : ¬ timeout ≤ s₀.clock.since started) (flags : CommitFlags) :
    Kernel.Steady (fun s : Scripted => ∃ n, s = { s₀ with commitCount := n }) flags s₀.verdict started
      timeout where
  test := by
    rintro _ r ⟨n, rfl⟩
    refine ⟨{ s₀ with commitCount := n + 1 }, ⟨n + 1, rfl⟩, ?_⟩
    -- Time stands still for such a kernel.
    have hclock : s₀.clock.advance s₀.commitCost = s₀.clock := by
      rw [hcommit, HostTime.advance_zero]
    have htest := test_eq (s := { s₀ with commitCount := n }) hresults hrefusal r flags
    simp only [hclock] at htest
    exact htest
  soft := by
    intro r e h
    rw [eq_refusal_of_verdict h]
    exact hrefusal
  now := by
    rintro _ ⟨n, rfl⟩
    refine ⟨⟨n, ?_⟩, hearly⟩
    simp [Kernel.now, hnow, HostTime.advance_zero]

section Patient

variable {s s' : Scripted} (hresults : s.results = []) (hrefusal : s.refusal.isIncompatibility = true)
  {flags : CommitFlags}
include hresults hrefusal

/-- Questions only use up time and commits. -/
theorem later_of_asks (h : Relation.ReflTransGen (Kernel.Asks flags) s s') :
    ∃ clock commitCount, s' = { s with clock, commitCount } ∧ s.clock.ticks ≤ clock.ticks := by
  -- Induction on the questions asked: each one can only advance the clock.
  induction h with
  | refl => exact ⟨s.clock, s.commitCount, rfl, UInt64.le_refl _⟩
  | tail _ hask ih =>
    obtain ⟨clock, commitCount, rfl, hle⟩ := ih
    cases hask with
    | rest => exact ⟨clock, commitCount, rfl, hle⟩
    | now => exact ⟨_, commitCount, rfl, UInt64.le_trans hle (clock.le_advance s.nowCost)⟩
    | test r =>
      rw [test_eq (s := { s with clock, commitCount }) hresults hrefusal]
      exact ⟨_, _, rfl, UInt64.le_trans hle (clock.le_advance s.commitCost)⟩

/-- A scripted kernel without interruptions left answers every test. -/
theorem answers : Kernel.Answers flags s := by
  intro s' r h
  obtain ⟨clock, commitCount, rfl, -⟩ := later_of_asks hresults hrefusal h
  have htest := test_eq (s := { s with clock, commitCount }) hresults hrefusal r flags
  refine ⟨_, congrArg Prod.fst htest, fun e he => ?_⟩
  -- Either it accepts the request or it refuses it with its one errno, which is a soft one.
  cases hverdict : Scripted.verdict { s with clock, commitCount } r with
  | none =>
    rw [hverdict] at he
    cases he
  | some e' =>
    rw [hverdict] at he
    obtain rfl : e' = e := Except.error.inj he
    rw [eq_refusal_of_verdict hverdict]
    exact hrefusal

theorem rises : Kernel.Rises flags s := by
  intro s₁ s₂ h₁ h₂
  obtain ⟨clock, commitCount, rfl, -⟩ := later_of_asks hresults hrefusal h₁
  obtain ⟨clock', commitCount', rfl, hle⟩ :=
    later_of_asks (s := (Kernel.now { s with clock, commitCount }).2) hresults hrefusal h₂
  exact UInt64.le_trans (clock.le_advance s.nowCost) hle

end Patient

def overlay : PlaneInfo where
  possibleCrtcs := 1
  properties :=
    [(⟨1, "type", .other, false⟩, 0), (⟨2, "FB_ID", .other, false⟩, 0),
      (⟨3, "CRTC_ID", .other, false⟩, 0), (⟨4, "CRTC_X", .other, false⟩, 0),
      (⟨5, "CRTC_W", .other, false⟩, 0), (⟨6, "CRTC_H", .other, false⟩, 0),
      (⟨7, "zpos", .other, false⟩, 1)]

def threeOverlays : Scripted where
  crtcs := .ok [1]
  planeIds := .ok [10, 11, 12]
  planes := [(10, .ok overlay), (11, .ok overlay), (12, .ok overlay)]
  allowed := some [(12, 1), (11, 3), (10, 2), (10, 3)]

end Scripted

end Scanout
