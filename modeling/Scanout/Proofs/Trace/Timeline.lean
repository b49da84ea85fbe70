import Mathlib.Data.List.Forall2
import Mathlib.Data.List.Induction
import Scanout.Trace.Recorder
import Scanout.Trace.Timeline

namespace Scanout

namespace Recorder

theorem keeps_record (r : Recorder) (e : Event) : (r.record e).keeps = r.keeps := by
  unfold record
  split <;> rfl

theorem toList_record (r : Recorder) (e : Event) :
    (r.record e).events.toList = r.events.toList ++ [e].filter r.keeps := by
  unfold record
  split <;> simp_all

theorem toList_recordAll (r : Recorder) (events : List Event) :
    (r.recordAll events).events.toList = r.events.toList ++ events.filter r.keeps := by
  induction events generalizing r with
  | nil => simp [recordAll]
  | cons e events ih =>
    -- What a recorder keeps does not depend on what it has kept so far.
    have hrest : ((r.record e).recordAll events).events.toList =
        (r.record e).events.toList ++ events.filter (r.record e).keeps := ih (r.record e)
    rw [keeps_record, toList_record, List.append_assoc, ← List.filter_append] at hrest
    exact hrest

end Recorder

def Json.field? (key : String) : Json → Option Json
  | .object fields => (fields.find? fun field => field.1 = key).map Prod.snd
  | _ => none

def Event.begin? : Event → Option Timeline.Position
  | .applyBegin _ crtc _ time => some ⟨time, crtc⟩
  | _ => none

namespace Timeline

/-- The latest beginning of an apply that some events tell of; at zero on pipe zero if there is none. -/
def latest (events : List Event) : Position := ((events.filterMap Event.begin?).getLast?).getD {}

def drawn (events : List Event) : List Nat :=
  (List.range events.length).filter fun i => !events[i]?.any Recorder.isDebugMessage

/-- The reading of the clock at which an event is drawn, where `p` is the latest beginning of an apply. Only
the ends of an apply have a reading of their own. A deadline came as much after the beginning as it says, and
everything else is put at the beginning. -/
def instant (p : Position) : Event → Nat
  | .applyBegin _ _ _ time => time.ticks.toNat
  | .applyEnd _ _ _ _ _ time => time.ticks.toNat
  | .deadline _ elapsed => min (p.start.ticks.toNat + elapsed.ticks.toNat) (UInt64.size - 1)
  | _ => p.start.ticks.toNat

/-- The object draws an event, where `p` is the latest beginning of an apply: on the track of that apply, at
the microseconds of the event's reading of the clock. These are a thousandth of its nanoseconds, which are cut
to 64 bits first. -/
structure Draws (tb : Timebase) (p : Position) (e : Event) (j : Json) : Prop where
  shape : ∃ s, shape? tb e = some s ∧ j.field? "ph" = some (.string s.phase) ∧
    j.field? "name" = some (.string s.name) ∧ j.field? "cat" = some (.string s.category) ∧
    j.field? "args" = some (.object s.details)
  track : j.field? "tid" = some (.number p.crtc.toNat)
  time : j.field? "ts" = some (.decimal
    ((UInt64.ofNat (instant p e * tb.numer.toNat / tb.denom.toNat)).toFloat / 1000.0))

/-- A sum that would not fit is the largest number there is. -/
theorem addUpTo64_eq (a b : UInt64) :
    addUpTo64 a b = UInt64.ofNat (min (a.toNat + b.toNat) (UInt64.size - 1)) := by
  unfold addUpTo64
  split
  · rename_i hfits
    have hmin : min (a.toNat + b.toNat) (UInt64.size - 1) = a.toNat + b.toNat :=
      Nat.min_eq_left (Nat.le_sub_one_of_lt hfits)
    rw [hmin, UInt64.ofNat_add, UInt64.ofNat_toNat, UInt64.ofNat_toNat]
  · rename_i hover
    have hmin : min (a.toNat + b.toNat) (UInt64.size - 1) = UInt64.size - 1 :=
      Nat.min_eq_right (Nat.le_trans (Nat.sub_le _ _) (Nat.not_lt.mp hover))
    rw [hmin]

theorem shape?_eq_none_iff (tb : Timebase) (e : Event) :
    shape? tb e = none ↔ Recorder.isDebugMessage e = true := by
  cases e with
  | log severity note => cases severity <;> simp [shape?, Recorder.isDebugMessage]
  | _ => simp [shape?, Recorder.isDebugMessage]

theorem toNat_timeOf (p : Position) (e : Event) : (timeOf p e).ticks.toNat = instant p e := by
  cases e with
  | deadline plane elapsed =>
    have hlt : min (p.start.ticks.toNat + elapsed.ticks.toNat) (UInt64.size - 1) < UInt64.size :=
      Nat.lt_of_le_of_lt (Nat.min_le_right _ _) (by decide)
    rw [timeOf, HostTime.advance, addUpTo64_eq, UInt64.toNat_ofNat_of_lt' hlt]
    rfl
  | _ => rfl

/-- A shape on the track of an apply, at the time of its event, draws the event. -/
theorem draws_toJson {tb : Timebase} {e : Event} {s : Shape} (hs : shape? tb e = some s)
    (p : Position) : Draws tb p e (s.toJson tb p.crtc (timeOf p e)) where
  shape := ⟨s, hs, by simp [Shape.toJson, Json.field?]⟩
  track := by simp [Shape.toJson, Json.field?, word]
  time := by
    rw [← toNat_timeOf]
    simp [Shape.toJson, Json.field?, Timebase.micros, Timebase.ticksToNanos, TickRatio.scale]

theorem latest_append (events : List Event) (e : Event) :
    latest (events ++ [e]) = (latest events).after e := by
  cases e <;> simp [latest, Event.begin?, Position.after]

theorem foldl_after (events : List Event) : events.foldl Position.after {} = latest events := by
  induction events using List.reverseRecOn with
  | nil => rfl
  | append_singleton events e ih => rw [List.foldl_append, ih, latest_append]; rfl

theorem objectsFrom_append (tb : Timebase) (p : Position) (events : List Event) (e : Event) :
    objectsFrom tb p (events ++ [e]) = objectsFrom tb p events ++
      ((shape? tb e).map fun s => s.toJson tb ((events.foldl Position.after p).after e).crtc
        (timeOf ((events.foldl Position.after p).after e) e)).toList := by
  induction events generalizing p with
  | nil => simp [objectsFrom]
  | cons e' events ih => simp [objectsFrom, ih]

theorem drawn_append (events : List Event) (e : Event) :
    drawn (events ++ [e]) =
      drawn events ++ if Recorder.isDebugMessage e then [] else [events.length] := by
  have hbefore : ((List.range events.length).filter fun i =>
      !(events ++ [e])[i]?.any Recorder.isDebugMessage) = drawn events := by
    refine List.filter_congr fun i hi => ?_
    rw [List.getElem?_append_left (List.mem_range.mp hi)]
  rw [drawn, List.length_append, List.length_singleton, List.range_succ, List.filter_append, hbefore]
  cases hdebug : Recorder.isDebugMessage e <;> simp [hdebug]

/-- Each event but debug messages is drawn by one object, in order, on the track of the apply that began
last before it or with it. -/
theorem draws_objectsFrom (tb : Timebase) (events : List Event) :
    List.Forall₂ (fun i j => ∃ e, events[i]? = some e ∧ Draws tb (latest (events.take (i + 1))) e j)
      (drawn events) (objectsFrom tb {} events) := by
  -- Induction from the end, since what an event becomes depends on those before it.
  induction events using List.reverseRecOn with
  | nil => exact .nil
  | append_singleton events e ih =>
    -- The events before see the same past as they did.
    have hbefore : List.Forall₂ (fun i j => ∃ e', (events ++ [e])[i]? = some e' ∧
        Draws tb (latest ((events ++ [e]).take (i + 1))) e' j)
        (drawn events) (objectsFrom tb {} events) := by
      refine ih.imp fun i j hij => ?_
      obtain ⟨e', he', hdraws⟩ := hij
      have hlt : i < events.length := (List.getElem?_eq_some_iff.mp he').1
      exact ⟨e', by rw [List.getElem?_append_left hlt, he'],
        by rwa [List.take_append_of_le_length hlt]⟩
    rw [drawn_append, objectsFrom_append, foldl_after, ← latest_append]
    refine List.rel_append hbefore ?_
    -- The event added is a debug message, which draws nothing, or it draws one object.
    cases hs : shape? tb e with
    | none =>
      rw [if_pos ((shape?_eq_none_iff tb e).mp hs)]
      exact .nil
    | some s =>
      have hdrawn : ¬ Recorder.isDebugMessage e = true := by
        rw [← shape?_eq_none_iff tb, hs]
        exact Option.some_ne_none s
      rw [if_neg hdrawn]
      refine .cons ⟨e, by simp, ?_⟩ .nil
      rw [List.take_of_length_le (by simp)]
      exact draws_toJson hs _

/-- Debug messages leave no trace in a timeline. -/
theorem objectsFrom_filter (tb : Timebase) (p : Position) (events : List Event) :
    objectsFrom tb p (events.filter fun e => !Recorder.isDebugMessage e) = objectsFrom tb p events := by
  -- Induction on the events, for every position reached before them.
  induction events generalizing p with
  | nil => rfl
  | cons e events ih =>
    by_cases hdebug : Recorder.isDebugMessage e = true
    · -- Such a message begins no apply either.
      have hafter : p.after e = p := by
        cases e <;> simp_all [Recorder.isDebugMessage, Position.after]
      rw [List.filter_cons_of_neg (by simpa using hdebug), ih, objectsFrom,
        (shape?_eq_none_iff tb e).mpr hdebug, hafter]
      rfl
    · rw [List.filter_cons_of_pos (by simpa using hdebug), objectsFrom, objectsFrom, ih]

/-- A timeline draws each recorded event but debug messages by one object, in their order: on the track of the
apply that began last, and at the time that the event tells or that is counted from there. Its text is that of
these objects, whichever way they are printed. So a recording without debug messages makes for the same text as
the full one. -/
theorem render_faithful (print : Json → String) (tb : Timebase) (events : List Event) :
    let full := ({} : Recorder).recordAll events
    let quiet := ({ skipsDebugMessages := true } : Recorder).recordAll events
    full.events.toList = events ∧
      List.Forall₂ (fun i j => ∃ e, events[i]? = some e ∧ Draws tb (latest (events.take (i + 1))) e j)
        (drawn events) (objectsFrom tb {} events) ∧
      objectsFrom tb {} quiet.events.toList = objectsFrom tb {} events ∧
      render print tb full.events.toList = print (.array (objectsFrom tb {} events)) ∧
      render print tb quiet.events.toList = print (.array (objectsFrom tb {} events)) := by
  intro full quiet
  have hfull : full.events.toList = events := by
    simp [full, Recorder.toList_recordAll, Recorder.keeps]
  have hquiet : quiet.events.toList = events.filter fun e => !Recorder.isDebugMessage e :=
    Recorder.toList_recordAll _ events
  -- The objects do not depend on debug messages, and the text depends on nothing but the objects.
  have hobjects : objectsFrom tb {} quiet.events.toList = objectsFrom tb {} events := by
    rw [hquiet, objectsFrom_filter]
  exact ⟨hfull, draws_objectsFrom tb events, hobjects, by rw [render, hfull], by rw [render, hobjects]⟩

end Timeline
end Scanout
