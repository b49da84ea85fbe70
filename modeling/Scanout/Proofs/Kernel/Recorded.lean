import Scanout.Proofs.Kernel.Asks

namespace Scanout

variable {σ : Type}

structure Recorded (σ : Type) where
  kernel : σ
  /-- The commits with their answers, the latest in front. -/
  log : List (Request × CommitFlags × Except Errno Unit) := []

namespace Recorded

variable [Kernel σ]

/-- The record is only added to, and the driver answers as it would without one. -/
instance : Kernel (Recorded σ) where
  crtcs k := Kernel.crtcs k.kernel
  planeIds k := Kernel.planeIds k.kernel
  plane k := Kernel.plane k.kernel
  blob k := Kernel.blob k.kernel
  framebuffer k := Kernel.framebuffer k.kernel
  commit k request flags :=
    let (reply, kernel) := Kernel.commit k.kernel request flags
    (reply, ⟨kernel, (request, flags, reply) :: k.log⟩)
  now k := ((Kernel.now k.kernel).1, { k with kernel := (Kernel.now k.kernel).2 })
  timebase k := Kernel.timebase k.kernel
  interruptions k := Kernel.interruptions k.kernel
  -- Interruptions are those of the driver itself.
  interruptions_lt k request flags n e k' hbound hreply htransient := by
    obtain ⟨he, rfl⟩ := Prod.mk.inj hreply
    exact Kernel.interruptions_lt k.kernel request flags n e _ hbound (Prod.ext he rfl) htransient

theorem interruptions_eq (k : Recorded σ) (request : Request) (flags : CommitFlags) :
    Kernel.interruptions k request flags = Kernel.interruptions k.kernel request flags := rfl

theorem reply_spec {k k' : Recorded σ} {request : Request} {flags : CommitFlags}
    {reply : Except Errno Unit} (h : Kernel.commit k request flags = (reply, k')) :
    Kernel.commit k.kernel request flags = (reply, k'.kernel) ∧
      k'.log = (request, flags, reply) :: k.log := by
  obtain ⟨rfl, rfl⟩ := Prod.mk.inj h
  exact ⟨rfl, rfl⟩

/-- The entries of one question in their order: the same commit is made again as long as it is
interrupted, and the last answer is the one given. -/
def entries (request : Request) (flags : CommitFlags) (interruptions : List Errno)
    (reply : Option (Except Errno Unit)) : List (Request × CommitFlags × Except Errno Unit) :=
  (interruptions.map Except.error ++ reply.toList).map fun answer => (request, flags.forTest, answer)

omit [Kernel σ] in
theorem mem_entries {request : Request} {flags : CommitFlags} {interruptions : List Errno}
    (reply : Except Errno Unit) :
    (request, flags.forTest, reply) ∈ entries request flags interruptions (some reply) := by
  simp [entries]

omit [Kernel σ] in
/-- All entries of a question are about its request, with the flags of a test. -/
theorem eq_of_mem_entries {request : Request} {flags : CommitFlags} {interruptions : List Errno}
    {reply : Option (Except Errno Unit)} {x : Request × CommitFlags × Except Errno Unit}
    (h : x ∈ entries request flags interruptions reply) : x.1 = request ∧ x.2.1 = flags.forTest := by
  obtain ⟨answer, -, rfl⟩ := List.mem_map.mp h
  exact ⟨rfl, rfl⟩

def Logs (P : Request × CommitFlags × Except Errno Unit → Prop) (k₀ k : Recorded σ) : Prop :=
  ∃ asked, k.log = asked ++ k₀.log ∧ ∀ commit ∈ asked, P commit

section Logs

omit [Kernel σ]

variable {P : Request × CommitFlags × Except Errno Unit → Prop} {k₀ k k' : Recorded σ}
  {asked later earlier old : List (Request × CommitFlags × Except Errno Unit)}
  {commit : Request × CommitFlags × Except Errno Unit}

theorem logs_refl (k : Recorded σ) : Logs P k k := ⟨[], rfl, by simp⟩

theorem Logs.more (h : Logs P k₀ k) (hlog : k'.log = asked ++ k.log)
    (hasked : ∀ commit ∈ asked, P commit) : Logs P k₀ k' := by
  obtain ⟨before, hbefore, hP⟩ := h
  refine ⟨asked ++ before, by rw [hlog, hbefore, List.append_assoc], fun commit hcommit => ?_⟩
  exact (List.mem_append.mp hcommit).elim (hasked commit) (hP commit)

/-- A commit that was recorded since is one of those with the property. -/
theorem of_mem_since (hasked : ∀ commit ∈ asked, P commit)
    (hsame : asked ++ old = later ++ commit :: (earlier ++ old)) : P commit := by
  have hsplit : asked = later ++ commit :: earlier := by
    apply List.append_cancel_right
    rw [hsame]
    simp
  exact hasked commit (hsplit ▸ by simp)

end Logs

/-- A question gets the answer that it would get without the record, and all its commits are
recorded. -/
theorem test_spec (k : Recorded σ) (request : Request) (flags : CommitFlags) :
    (Kernel.test k request flags).1 = (Kernel.test k.kernel request flags).1 ∧
      (Kernel.test k request flags).2.kernel = (Kernel.test k.kernel request flags).2 ∧
      ∃ interruptions : List Errno, (∀ e ∈ interruptions, e.isTransient = true) ∧
        (Kernel.test k request flags).2.log =
          (entries request flags interruptions (Kernel.test k request flags).1).reverse ++ k.log := by
  fun_induction Kernel.test k request flags with
  -- Without a bound there is no answer, and nothing is recorded.
  | case1 k hnever =>
    rw [interruptions_eq] at hnever
    rw [Kernel.test_of_never hnever]
    exact ⟨rfl, rfl, [], by simp, rfl⟩
  | case2 k n hbound k' hreply =>
    rw [interruptions_eq] at hbound
    obtain ⟨hcommit, hlog⟩ := reply_spec hreply
    rw [Kernel.test_of_ok hbound hcommit]
    exact ⟨rfl, rfl, [], by simp, hlog⟩
  | case3 k n hbound e k' hreply htransient ih =>
    -- The commit is made again, so its answer is recorded but not given.
    rw [interruptions_eq] at hbound
    obtain ⟨hcommit, hlog⟩ := reply_spec hreply
    rw [Kernel.test_of_error hbound hcommit, if_pos htransient]
    obtain ⟨hanswer, hkernel, interruptions, hinterrupted, hentries⟩ := ih
    refine ⟨hanswer, hkernel, e :: interruptions, ?_, ?_⟩
    · exact List.forall_mem_cons.mpr ⟨htransient, hinterrupted⟩
    · rw [hentries, hlog]
      simp [entries]
  -- A refusal that is not an interruption is the answer.
  | case4 k n hbound e k' hreply hfinal =>
    rw [interruptions_eq] at hbound
    obtain ⟨hcommit, hlog⟩ := reply_spec hreply
    rw [Kernel.test_of_error hbound hcommit, if_neg hfinal]
    exact ⟨rfl, rfl, [], by simp, hlog⟩

/-- The answer to a question, if there is one, is in the record. -/
theorem exists_asked (k : Recorded σ) (request : Request) (flags : CommitFlags) :
    ∃ asked, (Kernel.test k request flags).2.log = asked ++ k.log ∧
      ∀ reply, (Kernel.test k request flags).1 = some reply →
        (request, flags.forTest, reply) ∈ asked := by
  obtain ⟨-, -, interruptions, -, hlog⟩ := test_spec k request flags
  refine ⟨_, hlog, fun reply hreply => ?_⟩
  rw [hreply]
  exact List.mem_reverse.mpr (mem_entries reply)

/-- The record only grows while the driver is asked, and every request that passes is in it. -/
theorem notes (k₀ : Recorded σ) (flags : CommitFlags) :
    Kernel.Notes flags (fun k : Recorded σ => ∃ asked, k.log = asked ++ k₀.log)
      fun k r => ∃ asked, k.log = asked ++ k₀.log ∧ (r, flags.forTest, .ok ()) ∈ asked where
  now k hk := ⟨hk, fun _ hr => hr⟩
  test k r hk := by
    -- What a test records comes on top of what was there.
    obtain ⟨asked, hlog, hmem⟩ := exists_asked k r flags
    have hgrows : ∀ before, k.log = before ++ k₀.log →
        (Kernel.test k r flags).2.log = (asked ++ before) ++ k₀.log := by
      intro before hbefore
      rw [hlog, hbefore, List.append_assoc]
    obtain ⟨before, hbefore⟩ := hk
    refine ⟨⟨_, hgrows before hbefore⟩, ?_, fun hok => ?_⟩
    · rintro r' ⟨before', hbefore', hnoted⟩
      exact ⟨_, hgrows before' hbefore', List.mem_append_right _ hnoted⟩
    · exact ⟨_, hgrows before hbefore, List.mem_append_left _ (hmem _ hok)⟩

section Counting

omit [Kernel σ]

def isAnswered (commit : Request × CommitFlags × Except Errno Unit) : Bool :=
  commit.2.1.isTest &&
    match commit.2.2 with
    | .ok () => true
    | .error e => !e.isTransient

def tests (log : List (Request × CommitFlags × Except Errno Unit)) : Nat := log.countP isAnswered

def Issues (n : Nat) (k₀ k : Recorded σ) : Prop := ∃ asked, k.log = asked ++ k₀.log ∧ tests asked = n

theorem issues_of_log {k k' : Recorded σ} (h : k'.log = k.log) : Issues 0 k k' := ⟨[], h, rfl⟩

theorem Issues.trans {m n : Nat} {k k' k'' : Recorded σ} (h : Issues m k k') (h' : Issues n k' k'') :
    Issues (m + n) k k'' := by
  obtain ⟨asked, hlog, rfl⟩ := h
  obtain ⟨asked', hlog', rfl⟩ := h'
  refine ⟨asked' ++ asked, by rw [hlog', hlog, List.append_assoc], ?_⟩
  rw [tests, List.countP_append, Nat.add_comm]
  rfl

/-- Of the entries of a question only the last one is no interruption. -/
theorem tests_entries {request : Request} {flags : CommitFlags} {interruptions : List Errno}
    {reply : Except Errno Unit} (hinterrupted : ∀ e ∈ interruptions, e.isTransient = true)
    (hreply : ∀ e, reply = .error e → e.isTransient = false) :
    tests (entries request flags interruptions (some reply)) = 1 := by
  -- Interrupted commits are not answers.
  have hbefore : (interruptions.map fun e => ((request, flags.forTest, .error e) :
      Request × CommitFlags × Except Errno Unit)).countP isAnswered = 0 := by
    rw [List.countP_eq_zero]
    intro x hx
    obtain ⟨e, he, rfl⟩ := List.mem_map.mp hx
    simp [isAnswered, hinterrupted e he]
  -- The commit that gave the answer is.
  have hlast : isAnswered (request, flags.forTest, reply) = true := by
    cases reply with
    | ok _ => simp [isAnswered, CommitFlags.isTest_forTest]
    | error e => simp [isAnswered, CommitFlags.isTest_forTest, hreply e rfl]
  rw [tests, entries, List.map_append, List.countP_append, List.map_map]
  rw [show ((fun answer => (request, flags.forTest, answer)) ∘ Except.error : Errno → _) =
    fun e => (request, flags.forTest, .error e) from rfl, hbefore]
  simp [hlast]

example : tests (entries {} {} [.eintr] (some (.error .einval))) = 1 := by decide

end Counting

/-- A question that is answered is one test commit. -/
theorem issues_test {k : Recorded σ} {request : Request} {flags : CommitFlags} {reply : Except Errno Unit}
    (h : (Kernel.test k request flags).1 = some reply) : Issues 1 k (Kernel.test k request flags).2 := by
  obtain ⟨-, -, interruptions, hinterrupted, hlog⟩ := test_spec k request flags
  refine ⟨_, hlog, ?_⟩
  rw [h, tests, List.countP_reverse]
  refine tests_entries hinterrupted fun e he => ?_
  subst he
  exact Kernel.isTransient_of_test (Prod.ext h rfl)

/-- An error of the driver is in the record: some commit was answered with it, and it is neither a plain
incompatibility nor an interruption. -/
theorem exists_commit_of_justifies {k₀ k : Recorded σ} {flags : CommitFlags} {e : Errno}
    (h : Kernel.Justifies flags k₀ k (.error (.kernel e))) :
    ∃ asked, k.log = asked ++ k₀.log ∧ (∃ tested, (tested, flags.forTest, .error e) ∈ asked) ∧
      e.isIncompatibility = false ∧ e.isTransient = false := by
  -- The run up to the failing test and the test itself both leave entries.
  obtain ⟨hhard, k₁, request, hasks, htest⟩ := h e rfl
  obtain ⟨⟨before, hbefore⟩, -⟩ := (notes k₀ flags).laterAll hasks ⟨[], rfl⟩
  obtain ⟨asked, hlog, hmem⟩ := exists_asked k₁ request flags
  rw [htest] at hlog hmem
  refine ⟨asked ++ before, ?_, ⟨request, ?_⟩, hhard, Kernel.isTransient_of_test htest⟩
  · rw [hlog, hbefore, List.append_assoc]
  · exact List.mem_append_left _ (hmem _ rfl)

end Recorded

end Scanout
