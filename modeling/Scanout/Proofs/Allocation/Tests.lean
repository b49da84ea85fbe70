import Mathlib.Data.Nat.Bitwise
import Scanout.Proofs.Allocation.Alike
import Scanout.Proofs.Kernel.Mock
import Scanout.Proofs.Kernel.Recorded

namespace Scanout

variable {σ : Type} {flags : CommitFlags}

/-- Of the caller's flags a test has all but the first, and it has the ninth in any case. -/
theorem CommitFlags.testBit_forTest (f : CommitFlags) (i : Nat) :
    f.forTest.bits.toNat.testBit i = (decide (i = 8) || decide (i ≠ 0) && f.bits.toNat.testBit i) := by
  -- Of the 32 bits of a word all but the first remain.
  have hevent : (~~~pageFlipEvent.bits).toNat.testBit i = (decide (i < 32) && !decide (i = 0)) := by
    have hbits : (~~~pageFlipEvent.bits).toNat = 2 ^ 32 - (2 ^ 0 + 1) := rfl
    rw [hbits, Nat.testBit_two_pow_sub_succ (by decide), Nat.testBit_two_pow]
    simp [eq_comm]
  -- The one bit that is set is the ninth.
  have htest : testOnly.bits.toNat.testBit i = decide (i = 8) := by
    have hbits : testOnly.bits.toNat = 2 ^ 8 := rfl
    rw [hbits, Nat.testBit_two_pow]
    simp [eq_comm]
  -- Beyond a word every bit is clear.
  have hword : f.bits.toNat.testBit i = true → i < 32 := by
    intro hi
    by_contra hge
    have hlt : f.bits.toNat < 2 ^ i :=
      f.bits.toNat_lt.trans_le (Nat.pow_le_pow_right (by decide) (Nat.le_of_not_lt hge))
    rw [Nat.testBit_lt_two_pow hlt] at hi
    cases hi
  simp only [forTest, UInt32.toNat_or, UInt32.toNat_and, Nat.testBit_or, Nat.testBit_and, hevent, htest]
  grind

def Recorded.IsTest (flags : CommitFlags) (commit : Request × CommitFlags × Except Errno Unit) : Prop :=
  commit.2.1 = flags.forTest

theorem Recorded.maintains_isTest [Kernel σ] (flags : CommitFlags) (k₀ : Recorded σ) :
    Kernel.Maintains flags (Logs (IsTest flags) k₀) fun _ => Logs (IsTest flags) k₀ := by
  refine Kernel.maintains_of_steps (fun h => h) fun {k} h r => ?_
  obtain ⟨-, -, interruptions, -, hlog⟩ := test_spec k r flags
  exact h.more hlog fun commit hcommit => (eq_of_mem_entries (List.mem_reverse.mp hcommit)).2

namespace Mock

/-- Nothing but tests for the given flags has happened to the mock. They are recorded, take their time
and use up injected errors. -/
def Tested (flags : CommitFlags) (m₀ m : Mock) : Prop :=
  ∃ asked clock injected, m = { m₀ with commitFlags := asked ++ m₀.commitFlags, clock, injected } ∧
    ∀ f ∈ asked, f = flags.forTest

theorem tested_refl (m : Mock) : Tested flags m m := ⟨[], _, _, rfl, by simp⟩

theorem tested_trans {m m' m'' : Mock} (h : Tested flags m m') (h' : Tested flags m' m'') :
    Tested flags m m'' := by
  obtain ⟨asked, clock, injected, rfl, hasked⟩ := h
  obtain ⟨asked', clock', injected', rfl, hasked'⟩ := h'
  refine ⟨asked' ++ asked, clock', injected', by simp, fun f hf => ?_⟩
  exact (List.mem_append.mp hf).elim (hasked' f) (hasked f)

/-- A commit that is a test changes no plane. -/
theorem tested_commit {m m' : Mock} {r : Request} {reply : Except Errno Unit}
    (h : Kernel.commit m r flags.forTest = (reply, m')) : Tested flags m m' := by
  have hcount : ∀ injected, Tested flags m { m.countCommit flags.forTest with injected } :=
    fun injected => ⟨[flags.forTest], _, injected, rfl, by simp⟩
  -- A test is over once it is validated. What lies beyond that is for other commits.
  have hm' : m' = (m.commit r flags.forTest).2 := (congrArg Prod.snd h).symm
  rw [hm']
  simp only [commit, CommitFlags.isTest_forTest]
  -- An injected failure comes first, and otherwise the validation decides.
  cases hinjected : (m.countCommit flags.forTest).injected with
  | cons e injected => exact hcount injected
  | nil =>
    have hdone := hcount (m.countCommit flags.forTest).injected
    cases (m.countCommit flags.forTest).validate r <;> exact hdone

/-- Nor do all the commits of a question. -/
theorem tested_test (m : Mock) (r : Request) : Tested flags m (Kernel.test m r flags).2 := by
  fun_induction Kernel.test m r flags with
  | case1 m hnever => exact tested_refl m
  | case2 m n hbound m' hreply => exact tested_commit hreply
  | case3 m n hbound e m' hreply htransient ih => exact tested_trans (tested_commit hreply) ih
  | case4 m n hbound e m' hreply hfinal => exact tested_commit hreply

theorem maintains_tested (flags : CommitFlags) (m₀ : Mock) :
    Kernel.Maintains flags (Tested flags m₀) fun _ => Tested flags m₀ :=
  Kernel.maintains_of_steps (fun h => h) fun h r => tested_trans h (tested_test _ r)

end Mock

namespace Allocation

/-- Every commit of an apply is a test, whatever the driver answers and however the apply ends. Its flags
are the caller's, but for the two bits that make it one. So no apply changes a property of the mock's
planes. -/
theorem only_tests_of_apply (o : OutputId) (flags : CommitFlags) (options : ApplyOptions)
    (request : Request) :
    (∀ {σ : Type} [Kernel σ] (d : Device (Recorded σ)), ∃ asked,
      (leftBy (Frame.apply o flags options ⟨d, request⟩)).device.session.kernel.log =
          asked ++ d.session.kernel.log ∧
        ∀ commit ∈ asked, ∀ i, commit.2.1.bits.toNat.testBit i =
          (decide (i = 8) || decide (i ≠ 0) && flags.bits.toNat.testBit i)) ∧
    ∀ d : Device Mock,
      (leftBy (Frame.apply o flags options ⟨d, request⟩)).device.session.kernel.planes =
          d.session.kernel.planes ∧
        ∀ q name,
          (leftBy (Frame.apply o flags options ⟨d, request⟩)).device.session.kernel.planeProperty? q name =
            d.session.kernel.planeProperty? q name := by
  constructor
  · intro σ _ d
    have hruns := maintains_apply (Recorded.maintains_isTest flags d.session.kernel) o options
      (f := ⟨d, request⟩) (Recorded.logs_refl d.session.kernel)
    -- Each recorded commit was a test, whatever the driver made of it.
    obtain ⟨asked, hlog, htests⟩ := hruns.leftBy
    refine ⟨asked, hlog, fun commit hcommit i => ?_⟩
    rw [htests commit hcommit]
    exact flags.testBit_forTest i
  · intro d
    have hruns := maintains_apply (Mock.maintains_tested flags d.session.kernel) o options
      (f := ⟨d, request⟩) (Mock.tested_refl d.session.kernel)
    obtain ⟨asked, clock, injected, hkernel, -⟩ := hruns.leftBy
    -- A test leaves the planes of the mock alone.
    rw [hkernel]
    exact ⟨rfl, fun _ _ => rfl⟩

end Allocation

end Scanout
