import Scanout.Proofs.Kernel.Alike
import Scanout.Proofs.Kernel.Steady

/-! Interruptions of a driver that follows a script. A question is asked again until the script has an
answer that is not an interruption, so two scripts that differ in interruptions only give the same answers. -/

namespace Scanout
namespace Script

inductive Interrupted : List Int → List Int → Prop
  | nil : Interrupted [] []
  | keep (result : Int) {results results'} :
      Interrupted results results' → Interrupted (result :: results) (result :: results')
  | insert (result : Int) {results results'} (htransient : (Errno.mk result).isTransient = true) :
      Interrupted results results' → Interrupted results (result :: results')

def firm (results : List Int) : List Int := results.filter fun result => !(Errno.mk result).isTransient

theorem firm_cons_of_transient {result : Int} (h : (Errno.mk result).isTransient = true)
    (results : List Int) : firm (result :: results) = firm results := by simp [firm, h]

theorem firm_cons_of_final {result : Int} (h : (Errno.mk result).isTransient = false)
    (results : List Int) : firm (result :: results) = result :: firm results := by simp [firm, h]

theorem firm_eq_nil_iff {results : List Int} :
    firm results = [] ↔ (results.all fun result => (Errno.mk result).isTransient) = true := by
  simp [firm, List.filter_eq_nil_iff]

theorem Interrupted.firm_eq {results results' : List Int} (h : Interrupted results results') :
    firm results' = firm results := by
  induction h with
  | nil => rfl
  | keep result _ ih =>
    unfold firm at ih ⊢
    rw [List.filter_cons, List.filter_cons, ih]
  | insert result htransient _ ih => rw [firm_cons_of_transient htransient, ih]

/-- How a commit ends that gets a result; zero is success. -/
def reply (result : Int) : Except Errno Unit := if result = 0 then .ok () else .error ⟨result⟩

theorem reply_of_transient {result : Int} (h : (Errno.mk result).isTransient = true) :
    reply result = .error ⟨result⟩ := by
  refine if_neg ?_
  rintro rfl
  cases h

theorem eq_of_reply {result : Int} {e : Errno} (h : reply result = .error e) : e = ⟨result⟩ := by
  unfold reply at h
  split at h
  · cases h
  · exact (Except.error.inj h).symm

end Script

namespace Kernel

open Script

variable {σ : Type} [Kernel σ]

/-- A driver whose commits end as a script says while it lasts, and do nothing else meanwhile. States that
are the `Same` differ in nothing but the script and what no answer depends on. A question that would be
asked for ever with one script is asked for ever with any that differs in interruptions only. -/
structure FollowsScript (script : σ → List Int) (Same : σ → σ → Prop) : Prop where
  symm : ∀ {k k'}, Same k k' → Same k' k
  trans : ∀ {k k' k''}, Same k k' → Same k' k'' → Same k k''
  timebase : ∀ {k k'}, Same k k' → Kernel.timebase k' = Kernel.timebase k
  planeIds : ∀ {k k'}, Same k k' → Kernel.planeIds k' = Kernel.planeIds k
  plane : ∀ {k k'}, Same k k' → ∀ q, Kernel.plane k' q = Kernel.plane k q
  blob : ∀ {k k'}, Same k k' → ∀ id, Kernel.blob k' id = Kernel.blob k id
  framebuffer : ∀ {k k'}, Same k k' → ∀ fb, Kernel.framebuffer k' fb = Kernel.framebuffer k fb
  now : ∀ {k k'}, Same k k' →
    (Kernel.now k').1 = (Kernel.now k).1 ∧ Same (Kernel.now k).2 (Kernel.now k').2
  script_now : ∀ k, script (Kernel.now k).2 = script k
  next : ∀ {k result results}, Same k k → script k = result :: results → ∀ r flags,
    ∃ after, commit k r flags = (reply result, after) ∧ Same k after ∧ script after = results
  spent : ∀ {k k'}, Same k k' → script k = [] → script k' = [] → ∀ r flags,
    (commit k' r flags).1 = (commit k r flags).1 ∧
      Same (commit k r flags).2 (commit k' r flags).2 ∧ script (commit k r flags).2 = []
  endless : ∀ {k k'}, Same k k' → firm (script k') = firm (script k) → ∀ r flags,
    interruptions k r flags = none → interruptions k' r flags = none

namespace FollowsScript

/-- The drivers differ in nothing but the interruptions in their scripts and what no answer depends on. -/
def Twins (script : σ → List Int) (Same : σ → σ → Prop) (k k' : σ) : Prop :=
  Same k k' ∧ firm (script k') = firm (script k)

variable {script : σ → List Int} {Same : σ → σ → Prop} (h : FollowsScript script Same) {k k' : σ}
  {flags : CommitFlags}
include h

/-- As long as it is interrupted, a question is put off to a later place in the script, and the first
result that is no interruption is the answer to it. -/
theorem test_of_firm (hsame : Same k k) (r : Request)
    (hends : interruptions k r flags.forTest ≠ none) :
    (∀ result results, firm (script k) = result :: results → ∃ after,
      test k r flags = (some (reply result), after) ∧ Same k after ∧ firm (script after) = results) ∧
    (firm (script k) = [] → ∃ after,
      test k r flags = test after r flags ∧ Same k after ∧ script after = []) := by
  -- The script gets shorter from one interruption to the next, whatever the bound on them is.
  induction hscript : script k generalizing k with
  | nil =>
    refine ⟨fun result results hfirm => ?_, fun _ => ⟨k, rfl, hsame, hscript⟩⟩
    cases hfirm
  | cons result results ih =>
    obtain ⟨n, hbound⟩ := Option.ne_none_iff_exists'.mp hends
    obtain ⟨after, hcommit, hafter, hleft⟩ := h.next hsame hscript r flags.forTest
    -- A transient result is one more interruption, and a final one the answer.
    cases htransient : (Errno.mk result).isTransient with
    | true =>
      rw [reply_of_transient htransient] at hcommit
      have htest : test k r flags = test after r flags := by
        rw [test_of_error hbound hcommit, if_pos htransient]
      -- One interruption less remains to be borne.
      obtain ⟨m, -, hbound'⟩ := interruptions_lt k r flags.forTest n _ _ hbound hcommit htransient
      obtain ⟨hfinal, hover⟩ := ih (h.trans (h.symm hafter) hafter) (by simp [hbound']) hleft
      rw [firm_cons_of_transient htransient, htest]
      refine ⟨fun result' results' hfirm => ?_, fun hfirm => ?_⟩
      · obtain ⟨last, hanswer, hlast, hrest⟩ := hfinal result' results' hfirm
        exact ⟨last, hanswer, h.trans hafter hlast, hrest⟩
      · obtain ⟨last, hanswer, hlast, hrest⟩ := hover hfirm
        exact ⟨last, hanswer, h.trans hafter hlast, hrest⟩
    | false =>
      rw [firm_cons_of_final htransient]
      refine ⟨fun result' results' hfirm => ?_, fun hfirm => by cases hfirm⟩
      obtain ⟨rfl, rfl⟩ := List.cons.inj hfirm
      refine ⟨after, ?_, hafter, by rw [hleft]⟩
      -- The answer is a pass or a refusal.
      cases hreply : reply result with
      | ok =>
        rw [hreply] at hcommit
        exact test_of_ok hbound hcommit
      | error e =>
        rw [hreply] at hcommit
        rw [test_of_error hbound hcommit, eq_of_reply hreply, if_neg (by simp [htransient])]

section Over

variable (hsame : Same k k') (hover : script k = []) (hover' : script k' = []) (r : Request)
include hsame hover hover'

/-- After their scripts the drivers answer a commit alike. -/
theorem commit_of_over {answer : Except Errno Unit} {after : σ} (hcommit : commit k r flags = (answer, after)) :
    ∃ after', commit k' r flags = (answer, after') ∧ Same after after' ∧
      script after = [] ∧ script after' = [] := by
  obtain ⟨hanswer, hafter, hleft⟩ := h.spent hsame hover hover' r flags
  obtain ⟨-, -, hleft'⟩ := h.spent (h.symm hsame) hover' hover r flags
  rw [hcommit] at hanswer hafter hleft
  exact ⟨(commit k' r flags).2, Prod.ext hanswer rfl, hafter, hleft, hleft'⟩

/-- After the scripts the drivers are asked in step: one is interrupted when the other is. -/
theorem test_of_over : (test k' r flags).1 = (test k r flags).1 ∧
    Same (test k r flags).2 (test k' r flags).2 ∧
      script (test k r flags).2 = [] ∧ script (test k' r flags).2 = [] := by
  have hbounded : ∀ {k k' : σ} {n : Nat}, Same k k' → script k = [] → script k' = [] →
      interruptions k r flags.forTest = some n → ∃ m, interruptions k' r flags.forTest = some m := by
    intro k k' n hsame hover hover' hbound
    rw [← Option.ne_none_iff_exists']
    intro hnever
    rw [h.endless (h.symm hsame) (by rw [hover, hover']) r _ hnever] at hbound
    cases hbound
  -- Induction on the interruptions of the first driver.
  fun_induction test k r flags generalizing k' with
  | case1 k hnever =>
    rw [test_of_never (h.endless hsame (by rw [hover, hover']) r flags.forTest hnever)]
    exact ⟨rfl, hsame, hover, hover'⟩
  | case2 k n hbound after hreply =>
    obtain ⟨m, hbound'⟩ := hbounded hsame hover hover' hbound
    obtain ⟨after', hreply', hnext⟩ := h.commit_of_over hsame hover hover' r hreply
    -- The first is answered, and so is the second.
    rw [test_of_ok hbound' hreply']
    exact ⟨rfl, hnext⟩
  | case3 k n hbound e after hreply htransient ih =>
    obtain ⟨m, hbound'⟩ := hbounded hsame hover hover' hbound
    obtain ⟨after', hreply', hnext, hleft, hleft'⟩ := h.commit_of_over hsame hover hover' r hreply
    rw [test_of_error hbound' hreply', if_pos htransient]
    exact ih hnext hleft hleft'
  | case4 k n hbound e after hreply hfinal =>
    obtain ⟨m, hbound'⟩ := hbounded hsame hover hover' hbound
    obtain ⟨after', hreply', hnext⟩ := h.commit_of_over hsame hover hover' r hreply
    rw [test_of_error hbound' hreply', if_neg hfinal]
    exact ⟨rfl, hnext⟩

end Over

/-- Twins answer alike and stay twins: each question absorbs its own interruptions. -/
theorem test_of_twins (htwins : Twins script Same k k') (r : Request) :
    (test k' r flags).1 = (test k r flags).1 ∧
      Twins script Same (test k r flags).2 (test k' r flags).2 := by
  obtain ⟨hsame, hfirm⟩ := htwins
  have hself : Same k k := h.trans hsame (h.symm hsame)
  have hself' : Same k' k' := h.trans (h.symm hsame) hsame
  by_cases hnever : interruptions k r flags.forTest = none
  · -- Neither of the two is ever answered, so neither gets on with its script.
    rw [test_of_never hnever, test_of_never (h.endless hsame hfirm r _ hnever)]
    exact ⟨rfl, hsame, hfirm⟩
  have hnever' : interruptions k' r flags.forTest ≠ none := fun hnever' =>
    hnever (h.endless (h.symm hsame) hfirm.symm r _ hnever')
  -- Each of the two comes to the next firm result of its own script.
  obtain ⟨hfinal, hover⟩ := h.test_of_firm hself r hnever
  obtain ⟨hfinal', hover'⟩ := h.test_of_firm hself' r hnever'
  rw [hfirm] at hfinal' hover'
  cases hresults : firm (script k) with
  | cons result results =>
    obtain ⟨after, hanswer, hafter, hleft⟩ := hfinal result results hresults
    obtain ⟨after', hanswer', hafter', hleft'⟩ := hfinal' result results hresults
    rw [hanswer, hanswer']
    exact ⟨rfl, h.trans (h.symm hafter) (h.trans hsame hafter'), by rw [hleft, hleft']⟩
  | nil =>
    -- What is left of either script interrupts, and the question itself is asked when both are over.
    obtain ⟨after, hput, hafter, hleft⟩ := hover hresults
    obtain ⟨after', hput', hafter', hleft'⟩ := hover' hresults
    have hmet : Same after after' := h.trans (h.symm hafter) (h.trans hsame hafter')
    rw [hput, hput']
    refine (h.test_of_over hmet hleft hleft' r).imp_right ?_
    rintro ⟨hnext, hend, hend'⟩
    exact ⟨hnext, by rw [hend, hend']⟩

/-- Drivers with twin scripts answer alike, whatever they are asked. -/
theorem alike (flags : CommitFlags) :
    Kernel.Alike flags (Twins script Same) fun _ => Twins script Same where
  timebase htwins := h.timebase htwins.1
  planeIds htwins := h.planeIds htwins.1
  plane htwins := h.plane htwins.1
  blob htwins := h.blob htwins.1
  framebuffer htwins := h.framebuffer htwins.1
  now := by
    rintro k k' ⟨hsame, hfirm⟩
    obtain ⟨hreading, hnext⟩ := h.now hsame
    exact ⟨hreading, hnext, by rw [h.script_now, h.script_now, hfirm]⟩
  test := by
    intro k k' htwins r
    refine (h.test_of_twins htwins r).imp_right fun hnext => ?_
    cases stop? (test k r flags).1 <;> exact hnext
  fail htwins _ := htwins

end FollowsScript
end Kernel
namespace Scripted

open Script

def Same (s s' : Scripted) : Prop :=
  s.commitCost = 0 ∧ ∃ results commitCount, s' = { s with results, commitCount }

theorem commit_of_results {s : Scripted} (hcost : s.commitCost = 0) {result : Int} {results : List Int}
    (hresults : s.results = result :: results) (r : Request) (flags : CommitFlags) :
    Kernel.commit s r flags = (reply result, { s with results, commitCount := s.commitCount + 1 }) := by
  have hclock : s.clock.advance s.commitCost = s.clock := by rw [hcost, HostTime.advance_zero]
  simp only [Kernel.commit, commit, hclock, hresults, reply]

theorem commit_of_no_results {s : Scripted} (hcost : s.commitCost = 0) (hresults : s.results = [])
    (r : Request) (flags : CommitFlags) :
    Kernel.commit s r flags = (if s.allows r then .ok () else .error s.refusal,
      { s with commitCount := s.commitCount + 1 }) := by
  have hclock : s.clock.advance s.commitCost = s.clock := by rw [hcost, HostTime.advance_zero]
  simp only [Kernel.commit, commit, hclock, hresults]
  rfl

theorem interruptions_eq_none_iff {s : Scripted} {r : Request} {flags : CommitFlags} :
    Kernel.interruptions s r flags = none ↔
      firm s.results = [] ∧ s.refusal.isTransient = true ∧ s.allows r = false := by
  simp only [Kernel.interruptions, interruptions, firm_eq_nil_iff, ite_eq_left_iff, reduceCtorEq,
    imp_false, Decidable.not_not, Bool.and_eq_true, Bool.not_eq_true', and_assoc]

/-- A scripted kernel follows its list of results: twins differ in what is left of it and in the number of
commits made. -/
theorem followsScript : Kernel.FollowsScript Scripted.results Same where
  symm := by
    rintro s _ ⟨hcost, results, commitCount, rfl⟩
    exact ⟨hcost, s.results, s.commitCount, rfl⟩
  trans := by
    rintro s _ _ ⟨hcost, _, _, rfl⟩ ⟨-, results, commitCount, rfl⟩
    exact ⟨hcost, results, commitCount, rfl⟩
  timebase := by
    rintro s _ ⟨-, _, _, rfl⟩
    rfl
  planeIds := by
    rintro s _ ⟨-, _, _, rfl⟩
    rfl
  plane := by
    rintro s _ ⟨-, _, _, rfl⟩ q
    rfl
  blob := by
    rintro s _ ⟨-, _, _, rfl⟩ id
    rfl
  framebuffer := by
    rintro s _ ⟨-, _, _, rfl⟩ fb
    rfl
  now := by
    rintro s _ ⟨hcost, results, commitCount, rfl⟩
    exact ⟨rfl, hcost, results, commitCount, rfl⟩
  script_now _ := rfl
  -- The next result answers the commit, whatever was asked.
  next := by
    rintro s result results ⟨hcost, -⟩ hresults r flags
    exact ⟨_, commit_of_results hcost hresults r flags, ⟨hcost, results, _, rfl⟩, rfl⟩
  spent := by
    rintro s _ ⟨hcost, results, commitCount, rfl⟩ hresults hresults' r flags
    rw [commit_of_no_results hcost hresults,
      commit_of_no_results (s := { s with results, commitCount }) hcost hresults']
    exact ⟨rfl, ⟨hcost, results, _, rfl⟩, hresults⟩
  -- Only the results left and the refusal decide whether an answer ever comes.
  endless := by
    rintro s _ ⟨hcost, results, commitCount, rfl⟩ hfirm r flags hnever
    obtain ⟨hresults, hrefusal⟩ := interruptions_eq_none_iff.mp hnever
    exact interruptions_eq_none_iff.mpr ⟨hfirm.trans hresults, hrefusal⟩

end Scripted

/-- Any driver, but its next commits end as a script says. -/
structure Prompted (σ : Type) where
  kernel : σ
  script : List Int

namespace Prompted

open Script

variable {σ : Type} [Kernel σ]

instance : Kernel (Prompted σ) where
  crtcs k := Kernel.crtcs k.kernel
  planeIds k := Kernel.planeIds k.kernel
  plane k := Kernel.plane k.kernel
  blob k := Kernel.blob k.kernel
  framebuffer k := Kernel.framebuffer k.kernel
  commit k request flags :=
    match k.script with
    | result :: script => (reply result, { k with script })
    | [] =>
      let (answer, kernel) := Kernel.commit k.kernel request flags
      (answer, ⟨kernel, []⟩)
  now k := ((Kernel.now k.kernel).1, { k with kernel := (Kernel.now k.kernel).2 })
  timebase k := Kernel.timebase k.kernel
  interruptions k request flags :=
    if firm k.script = [] then (Kernel.interruptions k.kernel request flags).map (· + k.script.length)
    else some k.script.length
  interruptions_lt k request flags n e k' hbound hreply htransient := by
    obtain ⟨kernel, script⟩ := k
    cases script with
    | nil =>
      -- Only the driver itself can have interrupted the commit.
      obtain ⟨m, hm, rfl⟩ := Option.map_eq_some_iff.mp hbound
      obtain ⟨he, rfl⟩ := Prod.mk.inj hreply
      obtain ⟨m', hlt, hm'⟩ :=
        Kernel.interruptions_lt kernel request flags m e _ hm (Prod.ext he rfl) htransient
      exact ⟨m', hlt, (if_pos rfl).trans (congrArg (Option.map (· + 0)) hm')⟩
    -- One result of the script is used up, so the bound is by what is left of it.
    | cons result script =>
      obtain ⟨he, rfl⟩ := Prod.mk.inj hreply
      obtain rfl := eq_of_reply he
      simp only [firm_cons_of_transient htransient] at hbound
      split at hbound
      · rename_i hfirm
        obtain ⟨m, hm, rfl⟩ := Option.map_eq_some_iff.mp hbound
        exact ⟨m + script.length, by simp, by simp [hfirm, hm]⟩
      · rename_i hfirm
        obtain rfl := Option.some.inj hbound
        exact ⟨script.length, by simp, by simp [hfirm]⟩

theorem interruptions_eq_none_iff {k : Prompted σ} {r : Request} {flags : CommitFlags} :
    Kernel.interruptions k r flags = none ↔
      firm k.script = [] ∧ Kernel.interruptions k.kernel r flags = none := by
  show (if firm k.script = [] then (Kernel.interruptions k.kernel r flags).map (· + k.script.length)
    else some k.script.length) = none ↔ _
  split <;> simp [*]

/-- A driver under a script follows that script, and twins run the same driver. -/
theorem followsScript :
    Kernel.FollowsScript (σ := Prompted σ) script fun k k' => k'.kernel = k.kernel where
  symm h := h.symm
  trans h h' := h'.trans h
  timebase := by
    rintro ⟨kernel, _⟩ ⟨_, _⟩ rfl
    rfl
  planeIds := by
    rintro ⟨kernel, _⟩ ⟨_, _⟩ rfl
    rfl
  plane := by
    rintro ⟨kernel, _⟩ ⟨_, _⟩ rfl q
    rfl
  blob := by
    rintro ⟨kernel, _⟩ ⟨_, _⟩ rfl id
    rfl
  framebuffer := by
    rintro ⟨kernel, _⟩ ⟨_, _⟩ rfl fb
    rfl
  now := by
    rintro ⟨kernel, _⟩ ⟨_, _⟩ rfl
    exact ⟨rfl, rfl⟩
  script_now _ := rfl
  next := by
    rintro ⟨kernel, _⟩ result script - rfl r flags
    exact ⟨_, rfl, rfl, rfl⟩
  spent := by
    rintro ⟨kernel, _⟩ ⟨_, _⟩ rfl rfl rfl r flags
    exact ⟨rfl, rfl, rfl⟩
  endless := by
    -- What the driver would do on its own is the same for both, so only the scripts can differ.
    rintro ⟨kernel, script⟩ ⟨_, script'⟩ rfl hfirm r flags hnever
    obtain ⟨hscript, hkernel⟩ := interruptions_eq_none_iff.mp hnever
    exact interruptions_eq_none_iff.mpr ⟨hfirm.trans hscript, hkernel⟩

end Prompted
end Scanout
