import Scanout.Proofs.Search.Budget
import Scanout.Proofs.Search.Tour

/-! The search as a sequence of moments. At each moment it has a list of things left to do, the next in
front. One move does a part of the first and may put more in front of the others. The moves of a search
are its run, read from the front: where no question fails, they lead to the end that the search has. -/

namespace Scanout
namespace Search

variable {σ : Type}

inductive Task
  | visit (planes : List Plane) (path : Path)
  | offer (planes : List Plane) (path : Path) (p : Plane) (cursor : Nat) (ids : List LayerId)
  | back (cursor : Nat)

structure Moment (σ : Type) where
  left : List Task
  state : State σ

def Scene.room (s : Scene) (planes : List Plane) : Nat :=
  planes.countP fun p => p.isFreeFor s.output.crtcIndex

/-- The rules let the layer stand on a plane after `path`. -/
structure Candidate (s : Scene) (path : Path) (p : Plane) (id : LayerId) (l : Layer) : Prop where
  layer : s.layer? id = some l
  opens : path.isOpen id l = true
  rule : s.rejection? path p id l = none

theorem Candidate.placed {s : Scene} {path : Path} {p : Plane} {id : LayerId} {l : Layer}
    (h : Candidate s path p id l) (free : p.isFreeFor s.output.crtcIndex = true)
    (mem : id ∈ s.output.layers) (fits : misfit? p l = none) : Placed s path p id l :=
  placed_of_isOpen free mem h.layer h.opens h.rule fits

/-- Some layer is a candidate if the rules say so of the one that the handle names. -/
theorem exists_candidate {s : Scene} {path : Path} {p : Plane} {id : LayerId}
    (h : ((s.layer? id).any fun l => path.isOpen id l && (s.rejection? path p id l).isNone) = true) :
    ∃ l, Candidate s path p id l := by
  obtain ⟨l, layer, h⟩ := (Option.any_eq_true _ _).mp h
  obtain ⟨opens, rule⟩ := Bool.and_eq_true_iff.mp h
  exact ⟨l, layer, opens, Option.isNone_iff_eq_none.mp rule⟩

def State.told (st : State σ) (e : Event) : State σ :=
  { st with session := { st.session with trace := e :: st.session.trace } }

theorem State.best_told (st : State σ) (e : Event) : (st.told e).best = st.best := rfl

section Clock

variable [Kernel σ]

def State.looked (st : State σ) : State σ :=
  { st with session := { st.session with kernel := (Kernel.now st.session.kernel).2 } }

def State.elapsed (st : State σ) (s : Scene) : Duration :=
  (Kernel.now st.session.kernel).1.since s.started

/-- What is told takes no time. -/
theorem State.elapsed_told (st : State σ) (e : Event) (s : Scene) : (st.told e).elapsed s = st.elapsed s :=
  rfl

end Clock

def Task.perform [Kernel σ] (s : Scene) : Task → SearchM σ Unit
  | .visit planes path => choose s planes path
  | .offer planes path p cursor ids =>
    tryLayers s path p cursor (fun id => choose s planes (⟨p, some id⟩ :: path)) ids
  | .back cursor => rollback cursor

def Moment.rest [Kernel σ] (s : Scene) (m : Moment σ) :
    EStateM.Result Failure (State σ) Unit := m.left.forM (Task.perform s) m.state

/-- The search goes on from one moment to the next. -/
inductive Move [Kernel σ] (s : Scene) : Moment σ → Moment σ → Prop
  | finish {path tasks st st'} (run : finish s path st = .ok () st') :
      Move s ⟨.visit [] path :: tasks, st⟩ ⟨tasks, st'⟩
  | prune {p planes path tasks st}
      (hopeless : isHopeless s st.best path (s.room (p :: planes)) = true) :
      Move s ⟨.visit (p :: planes) path :: tasks, st⟩ ⟨tasks, st⟩
  | enter {p planes path tasks st}
      (hopeful : isHopeless s st.best path (s.room (p :: planes)) = false)
      (free : p.isFreeFor s.output.crtcIndex = true) :
      Move s ⟨.visit (p :: planes) path :: tasks, st⟩
        ⟨.offer planes path p st.request.cursor s.output.layers ::
          .visit planes (⟨p, none⟩ :: path) :: .back st.request.cursor :: tasks, st⟩
  | leave {p planes path tasks st}
      (hopeful : isHopeless s st.best path (s.room (p :: planes)) = false)
      (busy : p.isFreeFor s.output.crtcIndex = false) :
      Move s ⟨.visit (p :: planes) path :: tasks, st⟩
        ⟨.visit planes (⟨p, none⟩ :: path) :: .back st.request.cursor :: tasks, st⟩
  | exhaust {planes path p cursor tasks st} :
      Move s ⟨.offer planes path p cursor [] :: tasks, st⟩ ⟨tasks, st⟩
  | close {planes path p cursor id ids tasks st}
      (closed : ∀ l, s.layer? id = some l → path.isOpen id l = false) :
      Move s ⟨.offer planes path p cursor (id :: ids) :: tasks, st⟩
        ⟨.offer planes path p cursor ids :: tasks, st⟩
  | reject {planes path p cursor id ids tasks st l rejection} (layer : s.layer? id = some l)
      (opens : path.isOpen id l = true) (rule : s.rejection? path p id l = some rejection) :
      Move s ⟨.offer planes path p cursor (id :: ids) :: tasks, st⟩
        ⟨.offer planes path p cursor ids :: tasks,
          st.told (.candidate path.length p.id id (.rejected rejection))⟩
  | late {planes path p cursor id ids tasks st l} (candidate : Candidate s path p id l)
      (late : s.timeout ≤ st.elapsed s) :
      Move s ⟨.offer planes path p cursor (id :: ids) :: tasks, st⟩
        ⟨tasks, st.looked.told (.deadline p.id (st.elapsed s))⟩
  | refuse {planes path p cursor id ids tasks st st' l} (candidate : Candidate s path p id l)
      (early : ¬ s.timeout ≤ st.elapsed s)
      (run : ∀ descend, tryStaged s path p cursor descend id l st.looked = .ok () st') :
      Move s ⟨.offer planes path p cursor (id :: ids) :: tasks, st⟩
        ⟨.offer planes path p cursor ids :: tasks, st'⟩
  | accept {planes path p cursor id ids tasks st st' l} (candidate : Candidate s path p id l)
      (early : ¬ s.timeout ≤ st.elapsed s) (fits : misfit? p l = none)
      (run : ∀ descend, tryStaged s path p cursor descend id l st.looked =
        (do descend id; rollback cursor) st') :
      Move s ⟨.offer planes path p cursor (id :: ids) :: tasks, st⟩
        ⟨.visit planes (⟨p, some id⟩ :: path) :: .back cursor ::
          .offer planes path p cursor ids :: tasks, st'⟩
  | back {cursor tasks st} :
      Move s ⟨.back cursor :: tasks, st⟩
        ⟨tasks, { st with request := st.request.rollback cursor }⟩

def Moves [Kernel σ] (s : Scene) : Moment σ → Moment σ → Prop := Relation.ReflTransGen (Move s)

section Moves

variable [Kernel σ] {s : Scene} {planes : List Plane} {path : Path} {p : Plane} {cursor : Nat}
  {id : LayerId} {l : Layer} {st : State σ}

section Try

variable {descend : LayerId → SearchM σ Unit}

theorem tryLayer_of_closed (h : ∀ l, s.layer? id = some l → path.isOpen id l = false) :
    tryLayer s path p cursor descend id st = .ok true st := by
  unfold tryLayer
  cases layer : s.layer? id with
  | none => rfl
  | some l =>
    simp only [h l layer, Bool.not_false, ↓reduceIte]
    rfl

theorem tryLayer_of_rejected {rejection : Rejection} (layer : s.layer? id = some l)
    (opens : path.isOpen id l = true) (rule : s.rejection? path p id l = some rejection) :
    tryLayer s path p cursor descend id st =
      .ok true (st.told (.candidate path.length p.id id (.rejected rejection))) := by
  simp only [tryLayer, layer, opens, rule, Bool.not_true, Bool.false_eq_true, ↓reduceIte]
  rfl

theorem Candidate.tryLayer_late (h : Candidate s path p id l) (late : s.timeout ≤ st.elapsed s) :
    tryLayer s path p cursor descend id st =
      .ok false (st.looked.told (.deadline p.id (st.elapsed s))) := by
  have hnow : onSession Session.now st = .ok (Kernel.now st.session.kernel).1 st.looked := rfl
  simp only [tryLayer, h.layer, h.opens, h.rule, Bool.not_true, Bool.false_eq_true, ↓reduceIte]
  rw [bind_of_ok hnow]
  exact congrFun (if_pos late) st.looked

theorem Candidate.tryLayer_early (h : Candidate s path p id l) (early : ¬ s.timeout ≤ st.elapsed s) :
    tryLayer s path p cursor descend id st =
      (do tryStaged s path p cursor descend id l; pure true) st.looked := by
  have hnow : onSession Session.now st = .ok (Kernel.now st.session.kernel).1 st.looked := rfl
  simp only [tryLayer, h.layer, h.opens, h.rule, Bool.not_true, Bool.false_eq_true, ↓reduceIte]
  rw [bind_of_ok hnow]
  exact congrFun (if_neg early) st.looked

theorem Candidate.tryLayer_refused (h : Candidate s path p id l) (early : ¬ s.timeout ≤ st.elapsed s)
    {st' : State σ}
    (run : ∀ descend, tryStaged s path p cursor descend id l st.looked = .ok () st') :
    tryLayer s path p cursor descend id st = .ok true st' :=
  (h.tryLayer_early early).trans (bind_of_ok (run descend))

theorem Candidate.tryLayer_accepted (h : Candidate s path p id l) (early : ¬ s.timeout ≤ st.elapsed s)
    {st' : State σ} (run : ∀ descend, tryStaged s path p cursor descend id l st.looked =
      (do descend id; rollback cursor) st') :
    tryLayer s path p cursor descend id st = (do descend id; rollback cursor; pure true) st' := by
  refine ((h.tryLayer_early early).trans (bind_congr_run (run descend))).trans ?_
  rw [bind_assoc]

/-- Once a layer may be tried, it is refused or it passes, whatever lies below. -/
theorem tryStaged_cases (s : Scene) (path : Path) (p : Plane) (cursor : Nat) (id : LayerId) (l : Layer)
    (st : State σ) :
    (∃ st', ∀ descend, tryStaged s path p cursor descend id l st = .ok () st') ∨
      (∃ e st', ∀ descend, tryStaged s path p cursor descend id l st = .error e st') ∨
      misfit? p l = none ∧ ∃ st', ∀ descend, tryStaged s path p cursor descend id l st =
        (do descend id; rollback cursor) st' := by
  unfold tryStaged
  cases hstage : stage p l s.output.crtc st with
  -- An error ends the try before the descent.
  | error e st₁ => exact .inr (.inl ⟨e, st₁, fun _ => bind_of_error hstage⟩)
  | ok staged st₁ =>
    simp only [bind_of_ok hstage]
    cases staged with
    -- It does not fit, or the test fails or refuses: all of this is before the descent.
    | some why => exact .inl ⟨_, fun _ => rfl⟩
    | none =>
      cases fits : misfit? p l with
      | some why => exact .inl ⟨_, fun _ => rfl⟩
      | none =>
        let st₂ : State σ := { st₁ with hints := (id, p.id) :: st₁.hints }
        have hhint : addHint id p.id st₁ = .ok () st₂ := rfl
        simp only [bind_of_ok hhint]
        cases htest : testCommit s st₂ with
        | error e st₃ => exact .inr (.inl ⟨e, st₃, fun _ => bind_of_error htest⟩)
        | ok reply st₃ =>
          simp only [bind_of_ok htest]
          cases reply with
          | some e => exact .inl ⟨_, fun _ => rfl⟩
          -- Only what follows an accepted test depends on the descent.
          | none =>
            let st₄ := st₃.told (.candidate path.length p.id id .accepted)
            exact .inr (.inr ⟨trivial, st₄, fun _ => rfl⟩)

end Try

theorem choose_of_hopeless (h : isHopeless s st.best path (s.room (p :: planes)) = true) :
    choose s (p :: planes) path st = .ok () st := by
  rw [choose, get_bind]
  exact congrFun (if_pos h) st

theorem choose_of_hopeful (h : isHopeless s st.best path (s.room (p :: planes)) = false) :
    choose s (p :: planes) path st = (do
      if p.isFreeFor s.output.crtcIndex then
        tryLayers s path p st.request.cursor (fun id => choose s planes (⟨p, some id⟩ :: path))
          s.output.layers
      choose s planes (⟨p, none⟩ :: path)
      rollback st.request.cursor : SearchM σ Unit) st := by
  rw [choose, get_bind]
  exact congrFun (if_neg (Bool.not_eq_true _ ▸ h)) st

/-- With the first of the layers not placed and time for the next, the others are left to try. -/
theorem tryLayers_of_more {descend : LayerId → SearchM σ Unit} {ids : List LayerId} {st' : State σ}
    (h : tryLayer s path p cursor descend id st = .ok true st') :
    tryLayers s path p cursor descend (id :: ids) st = tryLayers s path p cursor descend ids st' :=
  bind_of_ok h

/-- A move keeps what follows. -/
theorem Move.rest_eq {m m' : Moment σ} (h : Move s m m') : m.rest s = m'.rest s := by
  -- All but `accept` take a first part off what follows. There the try of a layer splits into what lies
  -- below it, its rollback, and the tries of the other layers.
  cases h with
  | finish run => exact bind_of_ok run
  | prune hopeless => exact bind_of_ok (choose_of_hopeless hopeless)
  | enter hopeful free =>
    refine (bind_congr_run (choose_of_hopeful hopeful)).trans ?_
    simp only [free, ↓reduceIte, bind_assoc]
    rfl
  | leave hopeful busy =>
    refine (bind_congr_run (choose_of_hopeful hopeful)).trans ?_
    simp only [busy, Bool.false_eq_true, ↓reduceIte, bind_assoc]
    rfl
  | exhaust => rfl
  | close closed => exact bind_congr_run (tryLayers_of_more (tryLayer_of_closed closed))
  | reject layer opens rule =>
    exact bind_congr_run (tryLayers_of_more (tryLayer_of_rejected layer opens rule))
  | late candidate late => exact bind_of_ok (bind_of_ok (candidate.tryLayer_late late))
  | refuse candidate early run =>
    exact bind_congr_run (tryLayers_of_more (candidate.tryLayer_refused early run))
  -- What was one try becomes the descent and the rollback.
  | accept candidate early fits run =>
    refine (bind_congr_run (bind_congr_run (candidate.tryLayer_accepted early run))).trans ?_
    simp only [bind_assoc, pure_bind]
    rfl
  | back => rfl

theorem Moves.rest_eq {m m' : Moment σ} (h : Moves s m m') : m.rest s = m'.rest s := by
  induction h with
  | refl => rfl
  | tail _ hmove ih => exact ih.trans hmove.rest_eq

/-- Where all that lies below is moves, so are the tries of layers on a plane. -/
theorem moves_offer
    (hbelow : ∀ path tasks (st st' : State σ), choose s planes path st = .ok () st' →
      Moves s ⟨.visit planes path :: tasks, st⟩ ⟨tasks, st'⟩)
    {ids : List LayerId} {tasks : List Task} {st st' : State σ}
    (h : tryLayers s path p cursor (fun id => choose s planes (⟨p, some id⟩ :: path)) ids st =
      .ok () st') :
    Moves s ⟨.offer planes path p cursor ids :: tasks, st⟩ ⟨tasks, st'⟩ := by
  induction ids generalizing st with
  | nil =>
    cases h
    exact .single .exhaust
  | cons id ids ih =>
    -- The cases are those of a try: closed, rejected, late, and then what the driver makes of it.
    by_cases hclosed : ∀ l, s.layer? id = some l → path.isOpen id l = false
    · rw [tryLayers_of_more (tryLayer_of_closed hclosed)] at h
      exact (ih h).head (.close hclosed)
    · push Not at hclosed
      obtain ⟨l, layer, hopens⟩ := hclosed
      have opens : path.isOpen id l = true := by simpa using hopens
      cases rule : s.rejection? path p id l with
      | some rejection =>
        rw [tryLayers_of_more (tryLayer_of_rejected layer opens rule)] at h
        exact (ih h).head (.reject layer opens rule)
      | none =>
        have candidate : Candidate s path p id l := ⟨layer, opens, rule⟩
        by_cases late : s.timeout ≤ st.elapsed s
        · rw [tryLayers, bind_of_ok (candidate.tryLayer_late late)] at h
          cases h
          exact .single (.late candidate late)
        · rcases tryStaged_cases s path p cursor id l st.looked with
            ⟨st₁, run⟩ | ⟨e, st₁, run⟩ | ⟨fits, st₁, run⟩
          · rw [tryLayers_of_more (candidate.tryLayer_refused late run)] at h
            exact (ih h).head (.refuse candidate late run)
          · rw [tryLayers, bind_of_error ((candidate.tryLayer_early late).trans
              (bind_of_error (run _)))] at h
            cases h
          · rw [tryLayers, bind_congr_run (candidate.tryLayer_accepted late run)] at h
            simp only [bind_assoc, pure_bind, ↓reduceIte] at h
            obtain ⟨_, st₂, hchoose, h⟩ := bind_eq_ok h
            -- Below an accepted layer the search is a visit of its own.
            have hdeep := hbelow (⟨p, some id⟩ :: path)
              (.back cursor :: .offer planes path p cursor ids :: tasks) st₁ st₂ hchoose
            exact ((hdeep.head (.accept candidate late fits run)).tail .back).trans (ih h)

/-- A search that returns does so in moves. -/
theorem moves_visit {tasks : List Task} {st' : State σ} (h : choose s planes path st = .ok () st') :
    Moves s ⟨.visit planes path :: tasks, st⟩ ⟨tasks, st'⟩ := by
  induction planes generalizing path st st' tasks with
  | nil => exact .single (.finish h)
  | cons p planes ih =>
    cases hhope : isHopeless s st.best path (s.room (p :: planes)) with
    | true =>
      rw [choose_of_hopeless hhope] at h
      cases h
      exact .single (.prune hhope)
    | false =>
      -- The plane is left empty in the end, whether layers are offered to it before or not.
      rw [choose_of_hopeful hhope] at h
      cases free : p.isFreeFor s.output.crtcIndex with
      | true =>
        simp only [free, ↓reduceIte] at h
        obtain ⟨_, st₁, hoffer, h⟩ := bind_eq_ok h
        obtain ⟨_, st₂, hempty, hback⟩ := bind_eq_ok h
        cases hback
        refine (Relation.ReflTransGen.trans ?_ (ih hempty)).tail .back
        exact (moves_offer (fun path tasks st st' h => ih h) hoffer).head (.enter hhope free)
      | false =>
        simp only [free, Bool.false_eq_true, ↓reduceIte] at h
        obtain ⟨_, st₁, hempty, hback⟩ := bind_eq_ok h
        cases hback
        exact ((ih hempty).head (.leave hhope free)).tail .back

/-- The end that the moves lead to is the one that the search has. -/
theorem moves_iff_rest {tasks : List Task} {st st' : State σ} :
    Moves s ⟨tasks, st⟩ ⟨[], st'⟩ ↔ Moment.rest s ⟨tasks, st⟩ = .ok () st' := by
  constructor
  · exact fun h => h.rest_eq
  -- Induction on the tasks, the topmost of which is carried out first.
  · intro h
    induction tasks generalizing st with
    | nil =>
      cases h
      exact .refl
    | cons task tasks ih =>
      obtain ⟨_, st₁, hrun, h⟩ := bind_eq_ok h
      refine Relation.ReflTransGen.trans ?_ (ih h)
      cases task with
      | visit planes path => exact moves_visit hrun
      | offer planes path p cursor ids => exact moves_offer (fun _ _ _ _ => moves_visit) hrun
      | back cursor =>
        cases hrun
        exact .single .back

/-- What becomes of a layer that is tried next shows in a try with nothing but a failure below. -/
theorem Move.offer_cases {ids : List LayerId} {tasks : List Task} {m : Moment σ}
    (h : Move s ⟨.offer planes path p cursor (id :: ids) :: tasks, st⟩ m) :
    let probe : EStateM.Result Failure (State σ) Bool :=
      tryLayer s path p cursor (fun _ => throw .stuck) id st
    (∃ st', probe = .ok true st' ∧ m = ⟨.offer planes path p cursor ids :: tasks, st'⟩) ∨
      (∃ st', probe = .ok false st' ∧ m = ⟨tasks, st'⟩) ∨
      ∃ st', probe = .error .stuck st' ∧ m = ⟨.visit planes (⟨p, some id⟩ :: path) :: .back cursor ::
        .offer planes path p cursor ids :: tasks, st'⟩ := by
  cases h with
  | close closed => exact .inl ⟨_, tryLayer_of_closed closed, rfl⟩
  | reject layer opens rule => exact .inl ⟨_, tryLayer_of_rejected layer opens rule, rfl⟩
  | late candidate late => exact .inr (.inl ⟨_, candidate.tryLayer_late late, rfl⟩)
  | refuse candidate early run => exact .inl ⟨_, candidate.tryLayer_refused early run, rfl⟩
  | accept candidate early fits run =>
    exact .inr (.inr ⟨_, candidate.tryLayer_accepted early run, rfl⟩)

/-- A moment leads to one other at most. -/
theorem Move.eq_of_move {m m₁ m₂ : Moment σ} (h₁ : Move s m m₁) (h₂ : Move s m m₂) : m₁ = m₂ := by
  obtain ⟨tasks, st⟩ := m
  match tasks with
  | [] => nomatch h₁
  | .back cursor :: tasks =>
    cases h₁
    cases h₂
    rfl
  | .visit [] path :: tasks =>
    cases h₁ with
    | finish run₁ =>
      cases h₂ with
      | finish run₂ =>
        cases run₁.symm.trans run₂
        rfl
  | .visit (p :: planes) path :: tasks =>
    cases h₁ with
    | prune hopeless =>
      -- A branch is given up or it is not.
      cases h₂ with
      | prune => rfl
      | enter hopeful | leave hopeful => cases hopeless.symm.trans hopeful
    | enter hopeful free =>
      cases h₂ with
      -- The plane is free or it is not.
      | prune hopeless => cases hopeless.symm.trans hopeful
      | enter => rfl
      | leave _ busy => cases free.symm.trans busy
    | leave hopeful busy =>
      cases h₂ with
      | prune hopeless => cases hopeless.symm.trans hopeful
      | enter _ free => cases free.symm.trans busy
      | leave => rfl
  | .offer planes path p cursor [] :: tasks =>
    cases h₁
    cases h₂
    rfl
  | .offer planes path p cursor (id :: ids) :: tasks =>
    -- Both moves show in the same try, so they are of one kind and leave the same state.
    rcases h₁.offer_cases with ⟨st₁, hprobe₁, rfl⟩ | ⟨st₁, hprobe₁, rfl⟩ | ⟨st₁, hprobe₁, rfl⟩ <;>
      rcases h₂.offer_cases with ⟨st₂, hprobe₂, rfl⟩ | ⟨st₂, hprobe₂, rfl⟩ | ⟨st₂, hprobe₂, rfl⟩ <;>
      cases hprobe₁.symm.trans hprobe₂ <;> rfl

/-- Of two moments that a search gets to, one leads to the other. -/
theorem Moves.total {m m₁ m₂ : Moment σ} (h₁ : Moves s m m₁) (h₂ : Moves s m m₂) :
    Moves s m₁ m₂ ∨ Moves s m₂ m₁ :=
  Relation.ReflTransGen.total_of_right_unique (fun _ _ _ => Move.eq_of_move) h₁ h₂

/-- A layer passes if a try of it shows what lies below. -/
theorem tryStaged_of_shows
    (hfails : failure? (tryStaged s path p cursor (fun _ => throw Failure.stuck) id l st) = some .stuck)
    (hsucceeds : succeeded (tryStaged s path p cursor (fun _ => pure ()) id l st) = true) :
    ∀ descend, tryStaged s path p cursor descend id l st = (do descend id; rollback cursor)
      (leftBy (tryStaged s path p cursor (fun _ => throw Failure.stuck) id l st)) := by
  -- What ends before the descent ends alike in both tries.
  rcases tryStaged_cases s path p cursor id l st with ⟨st', run⟩ | ⟨e, st', run⟩ | ⟨-, st', run⟩
  · rw [run] at hfails
    cases hfails
  · rw [run] at hsucceeds
    cases hsucceeds
  · intro descend
    have hprobe := run fun _ => throw .stuck
    rw [run, hprobe]
    rfl

/-- A move only asks the driver, and forgets nothing that was found. -/
theorem Move.advances {m m' : Moment σ} (h : Move s m m') : Advances s.flags m.state m'.state := by
  -- Reading the clock, and attempting a layer without a descent, are the only steps that take time.
  have hlooked : ∀ st : State σ, Advances s.flags st st.looked :=
    fun st => ⟨.single (.now _), fun _ hn => hn⟩
  have htried : ∀ path p cursor id l, Stays (Advances (σ := σ) s.flags)
      (tryStaged s path p cursor (fun _ => pure ()) id l) :=
    fun path p cursor id l => advances_tryStaged (fun _ => stays_pure ()) id l
  cases h with
  | finish run => exact advances_finish.of_eq_ok run
  | prune | enter | leave | exhaust | close => exact refl_of (Advances s.flags) _
  | reject | back => exact advances_of_same rfl rfl
  | late => exact ⟨.single (.now _), fun _ hn => hn⟩
  | refuse candidate early run =>
    exact trans_of (Advances s.flags) (hlooked _) ((htried _ _ _ _ _).of_eq_ok (run _))
  | accept candidate early fits run =>
    have hlater := trans_of (Advances s.flags) (hlooked _) ((htried _ _ _ _ _).of_eq_ok (run _))
    exact ⟨hlater.asks, hlater.grows⟩

theorem Moves.advances {m m' : Moment σ} (h : Moves s m m') : Advances s.flags m.state m'.state := by
  induction h with
  | refl => exact refl_of (Advances s.flags) _
  | tail _ hmove ih => exact trans_of (Advances s.flags) ih hmove.advances

end Moves

section Agenda

variable {s : Scene}

/-- What is left to do once nothing more comes of a path: each plane on it that has a layer is offered the
layers after that one, and is left empty in the end. -/
inductive Pending (s : Scene) : Path → List Task → Prop
  | nil : Pending s [] []
  | empty {p path cursor tasks} (before : Pending s path tasks) :
      Pending s (⟨p, none⟩ :: path) (.back cursor :: tasks)
  | taken {planes p id path cursor ids tasks} (free : p.isFreeFor s.output.crtcIndex = true)
      (mem : ids ⊆ s.output.layers) (before : Pending s path tasks) :
      Pending s (⟨p, some id⟩ :: path) (.back cursor :: .offer planes path p cursor ids ::
        .visit planes (⟨p, none⟩ :: path) :: .back cursor :: tasks)

/-- The things to do belong to one path, and all that stands on it was allowed to. -/
inductive Stands (s : Scene) : List Task → Prop
  | done {path tasks} (legal : Legal s path) (after : Pending s path tasks) : Stands s tasks
  | visit {planes path tasks} (legal : Legal s path) (after : Pending s path tasks) :
      Stands s (.visit planes path :: tasks)
  | offer {planes path p cursor ids tasks} (legal : Legal s path)
      (free : p.isFreeFor s.output.crtcIndex = true) (mem : ids ⊆ s.output.layers)
      (after : Pending s path tasks) :
      Stands s (.offer planes path p cursor ids ::
        .visit planes (⟨p, none⟩ :: path) :: .back cursor :: tasks)

theorem Legal.of_suffix {path earlier : Path} (h : Legal s path) (hsuffix : earlier <:+ path) :
    Legal s earlier := by
  obtain ⟨later, rfl⟩ := hsuffix
  intro later' c earlier' id he hid
  exact h (later ++ later') c earlier' id (by rw [he, List.append_assoc]) hid

theorem Legal.empty {path : Path} (h : Legal s path) (p : Plane) : Legal s (⟨p, none⟩ :: path) :=
  h.cons nofun

theorem Stands.of_visit {planes : List Plane} {path : Path} {tasks : List Task}
    (h : Stands s (.visit planes path :: tasks)) : Legal s path ∧ Pending s path tasks := by
  cases h with
  | visit legal after => exact ⟨legal, after⟩
  | done _ after => nomatch after

/-- After the layers offered to a plane, the plane is left empty. -/
theorem Stands.of_offer {planes : List Plane} {path : Path} {p : Plane} {cursor : Nat}
    {ids : List LayerId} {tasks : List Task}
    (h : Stands s (.offer planes path p cursor ids :: tasks)) :
    Legal s path ∧ p.isFreeFor s.output.crtcIndex = true ∧ ids ⊆ s.output.layers ∧
      ∃ tasks', tasks = .visit planes (⟨p, none⟩ :: path) :: .back cursor :: tasks' ∧
        Pending s path tasks' := by
  cases h with
  | offer legal free mem after => exact ⟨legal, free, mem, _, rfl, after⟩
  | done _ after => nomatch after

/-- Each move keeps to one path. -/
theorem Move.stands [Kernel σ] {m m' : Moment σ} (h : Move s m m') (hm : Stands s m.left) :
    Stands s m'.left := by
  -- Without the layer in front, the others are offered still.
  have hnext : ∀ {planes path p cursor id ids tasks},
      Stands s (.offer planes path p cursor (id :: ids) :: tasks) →
      Stands s (.offer planes path p cursor ids :: tasks) := by
    intro planes path p cursor id ids tasks h
    obtain ⟨legal, free, mem, tasks, rfl, after⟩ := h.of_offer
    exact .offer legal free (List.cons_subset.mp mem).2 after
  -- Without any of them, the plane is left empty.
  have hempty : ∀ {planes path p cursor ids tasks},
      Stands s (.offer planes path p cursor ids :: tasks) → Stands s tasks := by
    intro planes path p cursor ids tasks h
    obtain ⟨legal, -, -, tasks, rfl, after⟩ := h.of_offer
    exact .visit (legal.empty p) (.empty after)
  cases h with
  | finish | prune =>
    obtain ⟨legal, after⟩ := hm.of_visit
    exact .done legal after
  | enter _ free =>
    obtain ⟨legal, after⟩ := hm.of_visit
    exact .offer legal free (List.Subset.refl _) after
  | leave =>
    obtain ⟨legal, after⟩ := hm.of_visit
    exact .visit (legal.empty _) (.empty after)
  | exhaust | late => exact hempty hm
  | close | reject | refuse => exact hnext hm
  | accept candidate early fits run =>
    obtain ⟨legal, free, mem, tasks, rfl, after⟩ := hm.of_offer
    obtain ⟨mem, mem'⟩ := List.cons_subset.mp mem
    refine .visit (legal.cons ?_) (.taken free mem' after)
    rintro _ ⟨⟩
    exact ⟨_, candidate.placed free mem fits⟩
  | back =>
    cases hm with
    -- Back at the choice before, the layer on top is taken off.
    | done legal after =>
      cases after with
      | empty before => exact .done (legal.of_suffix (List.suffix_cons ..)) before
      | taken free mem before => exact .offer (legal.of_suffix (List.suffix_cons ..)) free mem before

/-- At every moment of a search what is left to do belongs to one path. -/
theorem Moves.stands [Kernel σ] {m m' : Moment σ} (h : Moves s m m') (hm : Stands s m.left) :
    Stands s m'.left := by
  induction h with
  | refl => exact hm
  | tail _ hmove ih => exact hmove.stands ih

theorem stands_start (s : Scene) (planes : List Plane) : Stands s [.visit planes []] :=
  .visit (legal_nil s) .nil

end Agenda

end Search
end Scanout
