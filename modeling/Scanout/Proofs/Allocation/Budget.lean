import Scanout.Proofs.Device.Run
import Scanout.Proofs.Search.Budget

namespace Scanout

variable {σ : Type} [Kernel σ]

/-- Nothing makes a search fail on a driver that answers. -/
theorem Kernel.Answers.setting {s : Search.Scene} {s₀ : Session σ}
    (h : Kernel.Answers s.flags s₀.kernel) :
    Search.Setting s (fun session => Relation.ReflTransGen (Kernel.Asks s.flags) s₀.kernel session.kernel ∧
        Session.Reports [] s₀ session)
      (fun _ _ => True) (fun _ => True) (fun _ _ => False) False := by
  refine Search.setting_of_kernel (K := Relation.ReflTransGen (Kernel.Asks s.flags) s₀.kernel)
    (fun k hasks => ?_) (fun r session hasks => ?_) False.elim s₀
  -- A look at the clock is one more question to the driver.
  · exact ⟨hasks.tail (.now k), fun _ h => h, False.elim⟩
  · refine (Session.testCommit_spec r s.flags session).mono ?_ ?_
    · rintro reply session' ⟨hkernel, -⟩
      have hafter := hasks.tail (.test session.kernel r)
      rw [← hkernel] at hafter
      exact ⟨hafter, fun _ h => h, fun _ => trivial, False.elim⟩
    · -- The driver would have had to stay silent or to object in earnest.
      rintro failure session' ⟨-, -, hcause⟩
      obtain ⟨reply, hreply, hsoft⟩ := h session.kernel r hasks
      rw [hreply] at hcause
      split at hcause
      · cases hcause
      · rename_i e
        have hincompatible := hsoft e (Option.some.inj hcause.1)
        rw [hcause.2] at hincompatible
        cases hincompatible
      · exact hcause.elim

namespace Allocation

open Device

variable {d : Device σ} {o : OutputId} {out : Output} {flags : CommitFlags}
  {options options' : ApplyOptions} {started : HostTime}

def budget (d : Device σ) (options : ApplyOptions) : Duration :=
  (Kernel.timebase d.session.kernel).duration (options.searchTime d.config)

/-- What a search answers is what it has found on the empty path, with all planes still to come. -/
theorem choose_of_search (hout : d.output? o = some out) {entry : Request}
    {found : Option Search.Best × List (LayerId × UInt32)} {f : Frame σ}
    (h : search o flags options started ⟨d, entry⟩ = .ok found f) :
    ∃ st, Search.choose (sceneOf d out flags options started) d.planes []
      ⟨d.session, entry, none, []⟩ = .ok () st ∧ found.1 = st.best := by
  -- The search is the choice over all planes, from an empty path.
  simp only [search, hout] at h
  split at h
  · rename_i st hrun
    cases h
    exact ⟨st, hrun, rfl⟩
  · cases h

/-- The two searches run alike until the time of the first is up, and then the second makes up for what
the first still finds. -/
theorem search_score_le (hout : d.output? o = some out)
    (hrises : Kernel.Rises flags d.session.kernel) (hle : budget d options ≤ budget d options')
    {entry : Request} {found found' : Option Search.Best × List (LayerId × UInt32)} {f f' : Frame σ}
    (h : search o flags options started ⟨d, entry⟩ = .ok found f)
    (h' : search o flags options' started ⟨d, entry⟩ = .ok found' f') {b : Search.Best}
    (hb : found.1 = some b) : ∃ b', found'.1 = some b' ∧ b.score ≤ b'.score := by
  obtain ⟨st, hchoose, hfound⟩ := choose_of_search hout h
  obtain ⟨st', hchoose', hfound'⟩ := choose_of_search hout h'
  rw [hfound] at hb
  rw [hfound']
  have hpaces : Search.Paces (sceneOf d out flags options started)
      (Search.choose (sceneOf d out flags options started) d.planes [])
      (Search.choose (sceneOf d out flags options' started) d.planes []) ⟨d.session, entry, none, []⟩ :=
    Search.paces_choose (s := sceneOf d out flags options started) hle hrises
  -- Either both runs go alike to the end, or the shorter one only ever lags behind.
  rcases hpaces with hsame | hbehind
  · rw [hchoose, hchoose'] at hsame
    cases hsame
    exact ⟨b, hb, Nat.le_refl _⟩
  · exact (hbehind () st () st' hchoose hchoose').found b.score ⟨b, hb, Nat.le_refl _⟩

/-- A full search comes to its end, with this score for the best allocation that it finds, if it finds
any. Only the staging of its links may still fail. -/
def Finds (o : OutputId) (flags : CommitFlags) (options : ApplyOptions) (started : HostTime)
    (f : Frame σ) (score : Option Nat) : Prop :=
  ∃ (d₀ d' : Device σ) (entry : Request) (best : Option Search.Best)
      (hints : List (LayerId × UInt32)) (f' : Frame σ),
    clear o f.device = .ok () d₀ ∧ disables d₀ f.request = .ok () entry ∧
      search o flags options started ⟨d₀, entry⟩ = .ok (best, hints) f' ∧
      score = best.map Search.Best.score ∧
      allocate o flags options started f =
        (do Frame.onRequest d'.stageCurrent; pure score) ⟨d', entry⟩

/-- On a driver that answers, a full search comes to its end once the free planes could be switched
off. -/
theorem exists_finds (hd : d.WellFormed) (hout : d.output? o = some out) {session : Session σ}
    (hclear : clear o d = .ok () { d.cleared o with session })
    (hreports : Session.Reports [] d.session session) (hanswers : Kernel.Answers flags session.kernel)
    {request entry : Request} (hentry : disables (d.cleared o) request = .ok () entry)
    (options : ApplyOptions) (started : HostTime) :
    ∃ found f', search o flags options started ⟨{ d.cleared o with session }, entry⟩ = .ok found f' ∧
      Finds o flags options started ⟨d, request⟩ (found.1.map Search.Best.score) := by
  let s := sceneOf { d.cleared o with session } out flags options started
  have hout₀ : ({ d.cleared o with session } : Device σ).output? o = some out := hout
  have hspec := search_spec hout₀ flags options started (Kernel.Answers.setting (s := s) hanswers)
    ⟨.refl, refl_of (Session.Reports []) session⟩ entry
  -- A driver that always answers gives the search no reason to fail.
  cases hsearch : search o flags options started ⟨{ d.cleared o with session }, entry⟩ with
  | error e f' =>
    rw [ensures_of_eq_error hsearch] at hspec
    obtain ⟨_, -, -, hfalse⟩ := hspec
    exact hfalse.elim
  | ok found f' =>
    obtain ⟨best, hints⟩ := found
    obtain ⟨d', -, hallocate⟩ := allocate_of_search hd hout hclear hreports hentry hsearch
    exact ⟨_, _, rfl, _, d', entry, best, hints, _, hclear, hentry, hsearch, rfl, hallocate⟩

/-- What a full search answers is what it has found. -/
theorem Finds.eq_of_answer {f : Frame σ} {score answer : Option Nat}
    (h : Finds o flags options started f score)
    (hanswer : answer? (allocate o flags options started f) = some answer) : score = answer := by
  obtain ⟨_, d', entry, _, _, _, -, -, -, -, hrun⟩ := h
  rw [hrun] at hanswer
  -- Whether there is an answer only depends on the last staging.
  cases hstage : Frame.onRequest d'.stageCurrent ⟨d', entry⟩ with
  | ok _ _ =>
    rw [bind_of_ok hstage] at hanswer
    exact Option.some.inj hanswer
  | error _ _ =>
    rw [bind_of_error hstage] at hanswer
    cases hanswer

/-- With more time a full search never finds less. It is the same device, request and moment for both
budgets, and the driver may answer as it likes, so long as it answers without objecting in earnest and its
clock does not run backwards. -/
theorem finds_le_of_budget_le (hd : d.WellFormed) (hout : d.output? o = some out)
    (hanswers : Kernel.Answers flags d.session.kernel)
    (hrises : Kernel.Rises flags d.session.kernel) (hle : budget d options ≤ budget d options')
    {request entry : Request} (hentry : disables (d.cleared o) request = .ok () entry)
    (started : HostTime) :
    ∃ score score', Finds o flags options started ⟨d, request⟩ score ∧
      Finds o flags options' started ⟨d, request⟩ score' ∧
      ∀ n, score = some n → ∃ n', score' = some n' ∧ n ≤ n' := by
  obtain ⟨session, hclear, hkernel, hreports⟩ := clear_eq hd hout
  have hanswers₀ : Kernel.Answers flags session.kernel := hkernel ▸ hanswers
  -- The two searches begin on one device, with the rate and the settings of the one that is cleared.
  have hout₀ : ({ d.cleared o with session } : Device σ).output? o = some out := hout
  have hrises₀ : Kernel.Rises flags session.kernel := hkernel ▸ hrises
  have hbudget : ∀ options, budget { d.cleared o with session } options = budget d options := by
    intro options
    simp only [budget, hkernel]
    rfl
  have hle₀ : budget { d.cleared o with session } options ≤
      budget { d.cleared o with session } options' := by
    rw [hbudget, hbudget]
    exact hle
  -- Each budget has a search that finds something.
  obtain ⟨found, f, hsearch, hfinds⟩ :=
    exists_finds hd hout hclear hreports hanswers₀ hentry options started
  obtain ⟨found', f', hsearch', hfinds'⟩ :=
    exists_finds hd hout hclear hreports hanswers₀ hentry options' started
  refine ⟨_, _, hfinds, hfinds', fun n hn => ?_⟩
  -- What the smaller one found is a bound for the larger one.
  obtain ⟨b, hb, rfl⟩ := Option.map_eq_some_iff.mp hn
  obtain ⟨b', hb', hscore⟩ := search_score_le hout₀ hrises₀ hle₀ hsearch hsearch' hb
  exact ⟨b'.score, by rw [hb', Option.map_some], hscore⟩

def slowLayers : Device Scripted := threeLayers.after (.drive fun k => { k with nowCost := 1 })

/-- After one tick only one layer has found a plane, and in the end all three have. -/
theorem finds_le_slowLayers :
    ∃ score score', Finds .first {} ⟨some 1⟩ ⟨0⟩ ⟨slowLayers, {}⟩ score ∧
      Finds .first {} {} ⟨0⟩ ⟨slowLayers, {}⟩ score' ∧ score = some 1 ∧ score' = some 3 ∧
      ∀ n, score = some n → ∃ n', score' = some n' ∧ n ≤ n' := by
  have hreachable : slowLayers.Reachable := reachable_threeLayers.after trivial
  obtain ⟨out, hout⟩ := Option.isSome_iff_exists.mp
    (by decide +kernel : (slowLayers.output? .first).isSome)
  have hentry : disables (slowLayers.cleared .first) {} = .ok () _ :=
    eq_ok_of_succeeded (by decide +kernel)
  have hresults : slowLayers.session.kernel.results = [] := by decide +kernel
  have hrefusal : slowLayers.session.kernel.refusal.isIncompatibility = true := by decide +kernel
  have hle : budget slowLayers ⟨some 1⟩ ≤ budget slowLayers {} := by decide +kernel
  obtain ⟨score, score', hfinds, hfinds', hscores⟩ := finds_le_of_budget_le hreachable.wellFormed hout
    (Scripted.answers hresults hrefusal) (Scripted.rises hresults hrefusal) hle hentry ⟨0⟩
  refine ⟨score, score', hfinds, hfinds', ?_, ?_, hscores⟩
  · exact hfinds.eq_of_answer (by decide +kernel)
  · exact hfinds'.eq_of_answer (by decide +kernel)

end Allocation

end Scanout
