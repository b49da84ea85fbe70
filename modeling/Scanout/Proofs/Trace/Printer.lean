import Scanout.Proofs.Allocation.Told
import Scanout.Proofs.Trace.Timeline
import Scanout.Trace.Printer

namespace Scanout

namespace Printer

variable (p : Printer) (e : Event) (es es' : List Event)

theorem text_append : p.text (es ++ es') = p.text es ++ p.text es' := by
  rw [text, List.filter_append, List.map_append, String.join_append]
  rfl

theorem text_cons : p.text (e :: es) =
    (if p.prints e then p.lineOf e ++ "\n" else "") ++ p.text es := by
  rw [text, List.filter_cons]
  split <;> simp [text]

def isBrief : Event → Bool
  | .candidate .. | .log .debug _ => false
  | _ => true

theorem prints_quiet : p.quiet.prints e = (isBrief e && p.prints e) := by
  cases e with
  | log severity => cases severity <;> rfl
  | _ => rfl

/-- A quiet printer prints the same lines of what is left without candidates and debug messages. -/
theorem text_quiet : p.quiet.text es = p.text (es.filter isBrief) := by
  -- A line that is printed does not depend on how much the printer prints.
  have hlines : p.quiet.lineOf = p.lineOf := by
    funext e
    cases e with
    | log severity => cases severity <;> rfl
    | _ => rfl
  have hprints : p.quiet.prints = fun e => p.prints e && isBrief e := by
    funext e
    rw [prints_quiet, Bool.and_comm]
  rw [text, text, hlines, hprints, List.filter_filter]

/-- A printer that leaves debug messages out does not miss those that a recorder has dropped. -/
theorem text_recorded (r : Recorder) (hdebug : p.debugMessages = false) :
    p.text (r.recordAll es).events.toList = p.text r.events.toList ++ p.text es := by
  have hkeeps : ∀ e ∈ es, (p.prints e && r.keeps e) = p.prints e := by
    intro e _
    cases e with
    | log severity => cases severity <;> simp [prints, Recorder.keeps, Recorder.isDebugMessage, hdebug]
    | _ => simp [Recorder.keeps, Recorder.isDebugMessage]
  rw [Recorder.toList_recordAll, text_append, text, text, text, List.filter_filter,
    List.filter_congr hkeeps]

/-- To a writer for some bytes it is the same whether a text comes at once or in two parts. -/
theorem bytesLeft_text_append (capacity : Nat) : bytesLeft capacity (p.text (es ++ es')) =
    bytesLeft (bytesLeft capacity (p.text es)) (p.text es') := by
  rw [text_append, bytesLeft, bytesLeft, bytesLeft, String.utf8ByteSize_append, Nat.sub_sub]

theorem fits_text_append (capacity : Nat) : fits capacity (p.text (es ++ es')) =
    (fits capacity (p.text es) && fits (bytesLeft capacity (p.text es)) (p.text es')) := by
  rw [text_append, fits, fits, fits, bytesLeft, String.utf8ByteSize_append, ← Bool.decide_and,
    decide_eq_decide]
  omega

/-- What is printed of an apply that returns begins with the line of its beginning and ends with that of
its end. -/
theorem text_of_apply {σ : Type} [Kernel σ] {d : Device σ} (hd : d.WellFormed) {o : OutputId} {out : Output}
    (hout : d.output? o = some out) (flags : CommitFlags) (options : ApplyOptions) (request : Request)
    {f : Frame σ} (hrun : Frame.apply o flags options ⟨d, request⟩ = .ok () f) :
    ∃ started middle reused score tests elapsed ended,
      p.text f.device.session.events = p.text d.session.events ++
        (p.lineOf (.applyBegin o out.crtc out.layers.length started) ++ "\n" ++ middle ++
          (p.lineOf (.applyEnd o reused score tests elapsed ended) ++ "\n")) := by
  obtain ⟨started, s, hbegin, htells⟩ := Allocation.apply_tells flags hd hout options request
  rw [ensures_of_eq_ok hrun] at htells
  obtain ⟨outcome, s₁, ⟨before, hbefore, -⟩, found, score, tests, elapsed, ended, htrace, -, -⟩ := htells
  -- The beginning and the end are printed by every printer, whatever it leaves out in between.
  have hevents : f.device.session.events = d.session.events ++
      .applyBegin o out.crtc out.layers.length started :: ((before.reverse ++ .reuse o outcome ::
        found.reverse) ++ [.applyEnd o (outcome = .accepted) score tests elapsed ended]) := by
    rw [Session.events, htrace, hbefore, hbegin]
    simp [Session.events]
  refine ⟨started, p.text (before.reverse ++ .reuse o outcome :: found.reverse),
    decide (outcome = .accepted), score, tests, elapsed, ended, ?_⟩
  rw [hevents, text_append, text_cons, text_append, text_cons _ (.applyEnd ..)]
  simp [prints, text, String.append_assoc]

end Printer

end Scanout
