import Scanout.Proofs.Allocation.Allocate
import Scanout.Proofs.Search.Upkeep

namespace Scanout

variable {σ : Type}

namespace Event

def isMark : Event → Bool
  | .applyBegin .. | .reuse .. | .applyEnd .. => true
  | _ => false

def score? : Event → Option Nat
  | .best _ score => some score
  | _ => none

def accepted? : Event → Option (UInt32 × LayerId)
  | .candidate _ plane layer .accepted => some (plane, layer)
  | _ => none

def link? : Event → Option (OutputId × UInt32 × LayerId)
  | .assignment output plane layer => some (output, plane, layer)
  | _ => none

theorem mem_of_accepted? {es : List Event} {q : UInt32} {id : LayerId}
    (h : (q, id) ∈ es.filterMap accepted?) : ∃ depth, .candidate depth q id .accepted ∈ es := by
  obtain ⟨e, he, haccepted⟩ := List.mem_filterMap.mp h
  unfold accepted? at haccepted
  split at haccepted
  · cases haccepted
    exact ⟨_, he⟩
  · cases haccepted

/-- Nothing in this part of a trace marks a stage of an apply, and it tells of these scores, choices and
links, the latest in front. -/
structure Told (scores : List Nat) (choices : List (UInt32 × LayerId))
    (links : List (OutputId × UInt32 × LayerId)) (es : List Event) : Prop where
  unmarked : ∀ e ∈ es, e.isMark = false
  scores : es.filterMap score? = scores
  choices : es.filterMap accepted? = choices
  links : es.filterMap link? = links

theorem Told.append {scores scores' : List Nat} {choices choices' : List (UInt32 × LayerId)}
    {links links' : List (OutputId × UInt32 × LayerId)} {es es' : List Event}
    (h' : Told scores' choices' links' es') (h : Told scores choices links es) :
    Told (scores' ++ scores) (choices' ++ choices) (links' ++ links) (es' ++ es) where
  unmarked e he := (List.mem_append.mp he).elim (h'.unmarked e) (h.unmarked e)
  scores := by rw [List.filterMap_append, h'.scores, h.scores]
  choices := by rw [List.filterMap_append, h'.choices, h.choices]
  links := by rw [List.filterMap_append, h'.links, h.links]

/-- What tells nothing of a search tells nothing of it in the order of its events either. -/
theorem Told.reverse {es : List Event} (h : Told [] [] [] es) : Told [] [] [] es.reverse where
  unmarked e he := h.unmarked e (List.mem_reverse.mp he)
  scores := by rw [List.filterMap_reverse, h.scores, List.reverse_nil]
  choices := by rw [List.filterMap_reverse, h.choices, List.reverse_nil]
  links := by rw [List.filterMap_reverse, h.links, List.reverse_nil]

end Event

namespace Session

/-- The trace has grown by a part that marks no stage of an apply and tells of these scores, choices and
links, the latest in front. -/
def Tells (scores : List Nat) (choices : List (UInt32 × LayerId))
    (links : List (OutputId × UInt32 × LayerId)) (s s' : Session σ) : Prop :=
  ∃ new, s'.trace = new ++ s.trace ∧ Event.Told scores choices links new

variable {scores scores' : List Nat} {choices choices' : List (UInt32 × LayerId)}
  {links links' : List (OutputId × UInt32 × LayerId)} {s s' s'' : Session σ}

theorem Tells.trans (h : Tells scores choices links s s') (h' : Tells scores' choices' links' s' s'') :
    Tells (scores' ++ scores) (choices' ++ choices) (links' ++ links) s s'' := by
  obtain ⟨new, hnew, htold⟩ := h
  obtain ⟨new', hnew', htold'⟩ := h'
  exact ⟨new' ++ new, by rw [hnew', hnew, List.append_assoc], htold'.append htold⟩

theorem Tells.since (h' : Tells scores choices links s' s'') (h : Tells [] [] [] s s') :
    Tells scores choices links s s'' := by
  simpa only [List.append_nil] using h.trans h'

theorem Tells.still (h : Tells scores choices links s s') (h' : Tells [] [] [] s' s'') :
    Tells scores choices links s s'' := h.trans h'

theorem tells_of_trace (h : s'.trace = s.trace) : Tells [] [] [] s s' :=
  ⟨[], h, by simp, rfl, rfl, rfl⟩

instance : IsPreorder (Session σ) (Tells [] [] []) where
  refl _ := tells_of_trace rfl
  trans _ _ _ h h' := h.trans h'

theorem Tells.told (h : Tells scores choices links s s') {e : Event} (he : e.isMark = false) :
    Tells (e.score?.toList ++ scores) (e.accepted?.toList ++ choices) (e.link?.toList ++ links) s
      { s' with trace := e :: s'.trace } := by
  refine h.trans ⟨[e], rfl, by simpa using he, ?_, ?_, ?_⟩
  · cases hscore : e.score? <;> simp [hscore]
  · cases haccepted : e.accepted? <;> simp [haccepted]
  · cases hlink : e.link? <;> simp [hlink]

/-- Messages tell nothing of a search. -/
theorem tells_log (severity : Severity) (note : Note) :
    Stays (Tells [] [] []) (log (σ := σ) severity note) :=
  fun s => (refl_of (Tells [] [] []) s).told (e := .log severity note) rfl

variable [Kernel σ]

/-- A test commit tells no score, no choice and no link, whatever the answer is. -/
theorem tells_testCommit (request : Request) (flags : CommitFlags) :
    Stays (Tells [] [] []) (testCommit (σ := σ) request flags) := by
  intro s
  have htraced : ∀ kernel testCommits, Tells [] [] [] s { s with kernel, testCommits } :=
    fun _ _ => tells_of_trace rfl
  simp only [testCommit, ensures_bind, ensures_modify, ensures_modifyGet]
  -- No answer, an accepted request, a soft refusal or a hard error, of which the last is logged.
  split
  · exact htraced _ _
  · exact htraced _ _
  · split
    · exact htraced _ _
    · rw [ensures_bind]
      exact ((tells_log _ _ _).since (htraced _ _)).mono (fun _ _ h => h) fun _ _ h => h

end Session

namespace Search

open Allocation

theorem assignments_cons (c : Choice) (path : Path) :
    assignments (c :: path) = assignments path ++ (c.layer.map fun id => (c.plane.id, id)).toList := by
  simp only [assignments, List.reverse_cons, List.filterMap_append]
  cases hid : c.layer <;> simp [hid]

/-- What was told agrees with where the search stands: the scores rose up to the best one, and all choices
on the path and on the best one were accepted. -/
structure Agrees (scores : List Nat) (choices : List (UInt32 × LayerId)) (path : Path)
    (best : Option Best) : Prop where
  rising : scores.Pairwise (· > ·)
  score : scores.head? = best.map Best.score
  path : assignments path ⊆ choices
  best : ∀ b, best = some b → assignments b.path ⊆ choices

def Retells (s₀ : Session σ) (path : Path) (session : Session σ) (best : Option Best) : Prop :=
  ∃ scores choices, Session.Tells scores choices [] s₀ session ∧ Agrees scores choices path best

section Agrees

variable {scores : List Nat} {choices : List (UInt32 × LayerId)} {path : Path} {best : Option Best}
  (h : Agrees scores choices path best)
include h

theorem Agrees.more (choices' : List (UInt32 × LayerId)) :
    Agrees scores (choices' ++ choices) path best :=
  ⟨h.rising, h.score, List.subset_append_of_subset_right _ h.path,
    fun b hb => List.subset_append_of_subset_right _ (h.best b hb)⟩

theorem Agrees.accept (p : Plane) (id : LayerId) :
    Agrees scores ((p.id, id) :: choices) (⟨p, some id⟩ :: path) best where
  rising := h.rising
  score := h.score
  path := by
    rw [assignments_cons]
    exact List.append_subset.mpr ⟨List.subset_cons_of_subset _ h.path, by simp⟩
  best b hb := List.subset_cons_of_subset _ (h.best b hb)

/-- The score of a better allocation is above all that were told. -/
theorem Agrees.finish {n : Nat} (hnew : ¬ Reaches best n) :
    Agrees (n :: scores) choices path (some ⟨n, path⟩) where
  -- The scores told so far rise, and the new one is above the latest.
  rising := by
    refine List.pairwise_cons.mpr ⟨fun m hm => ?_, h.rising⟩
    cases scores with
    | nil => cases hm
    | cons top lower =>
      obtain ⟨b, hb, rfl⟩ := Option.map_eq_some_iff.mp h.score.symm
      have htop : b.score < n := by
        by_contra hle
        exact hnew ⟨b, hb, Nat.not_lt.mp hle⟩
      rcases List.mem_cons.mp hm with rfl | hm
      · exact htop
      · exact Nat.lt_trans ((List.pairwise_cons.mp h.rising).1 m hm) htop
  score := rfl
  path := h.path
  best := by
    rintro _ ⟨⟩
    exact h.path

end Agrees

variable [Kernel σ]

/-- What a search tells agrees with where it stands after each of its steps. -/
theorem upkeep_retells (s : Scene) (s₀ : Session σ) : Upkeep s (Retells s₀)
    fun session => ∃ scores choices, Session.Tells scores choices [] s₀ session where
  back := by
    -- Going back takes the latest choice off the path.
    rintro c path session best ⟨scores, choices, htells, hagrees⟩
    have hpath := hagrees.path
    rw [assignments_cons] at hpath
    exact ⟨scores, choices, htells, hagrees.rising, hagrees.score, (List.append_subset.mp hpath).1,
      hagrees.best⟩
  leave := by
    -- An empty plane assigns nothing.
    rintro path session best p ⟨scores, choices, htells, hagrees⟩
    have hpath : assignments (⟨p, none⟩ :: path) ⊆ choices := by
      rw [assignments_cons]
      simpa using hagrees.path
    exact ⟨scores, choices, htells, hagrees.rising, hagrees.score, hpath, hagrees.best⟩
  accept := by
    -- The choice accepted now has been told.
    rintro path session best p id ⟨scores, choices, htells, hagrees⟩
    exact ⟨scores, _, htells.told (e := .candidate _ _ _ _) rfl, hagrees.accept p id⟩
  tell := by
    -- Of the other events only the rejections and the deadline are emitted here.
    rintro path session best e he ⟨scores, choices, htells, hagrees⟩
    refine ⟨scores, e.accepted?.toList ++ choices, ?_, hagrees.more _⟩
    cases e with
    | candidate depth plane layer verdict => exact htells.told (e := .candidate _ _ _ _) rfl
    | deadline plane elapsed => exact htells.told (e := .deadline _ _) rfl
    | _ => cases he
  now := by
    rintro path session best ⟨scores, choices, htells, hagrees⟩
    exact ⟨scores, choices, htells.still (Session.tells_of_trace rfl), hagrees⟩
  test := by
    rintro path session best r ⟨scores, choices, htells, hagrees⟩
    exact (Session.tells_testCommit r s.flags session).mono
      (fun _ session' h => ⟨scores, choices, htells.still h, hagrees⟩)
      fun _ session' h => ⟨scores, choices, htells.still h⟩
  finish := by
    -- The score told is that of the best path from now on.
    rintro path session best ⟨scores, choices, htells, hagrees⟩ hnew
    exact ⟨_, choices, htells.told (e := .best _ _) rfl, hagrees.finish hnew⟩

end Search
end Scanout
