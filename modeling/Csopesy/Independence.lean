import Csopesy.Cadence
import Csopesy.Grammar

/-! # Typing and animating do not interfere

Both threads change the same interpreter and the same process, yet neither can be
noticed in what the other one works on.  The console, everything but the frame
counter and the deadline, follows the keys alone (`console`): no tick changes it.
The animation, the parameters and the process, follows the clock readings of the
ticks and the submitted lines alone (`animator`): no other key changes it.  Hence
any two interleavings of the same keys with ticks end in the same console, and any
two runs with the same ticks and submissions animate alike
(`typing_animating_independent`).
-/
namespace Csopesy
open NonInterference

namespace Interpreter

/-! ## The console without the animation -/

/-- Forget the frame counter and the deadline. -/
def still (it : Interpreter) : Interpreter := { it with proc := { state := it.proc.state } }

theorem runCommand_still (it : Interpreter) (cmd arg : Bytes) :
    (it.still.runCommand cmd arg).1.still = (it.runCommand cmd arg).1.still := by
  unfold runCommand
  cases lookup cmd with
  | help | exit | unknown => rfl
  | start => cases hs : it.proc.state <;> simp [still, MarqueeProcess.start, hs]
  | stop => cases hs : it.proc.state <;> simp [still, MarqueeProcess.stop, hs]
  | setText =>
    have hparams : it.still.params = it.params := rfl
    rw [hparams]
    dsimp only
    split
    · rfl
    · split <;> rfl
  | setSpeed =>
    have hparams : it.still.params = it.params := rfl
    rw [hparams]
    dsimp only
    split
    · rfl
    · split <;> rfl

theorem executeLine_still (it : Interpreter) (raw : Bytes) :
    (it.still.executeLine raw).1.still = (it.executeLine raw).1.still := by
  unfold executeLine
  dsimp only
  split
  · rfl
  · split
    · rfl
    · exact it.runCommand_still _ _

theorem submit_still (it : Interpreter) : it.still.submit.still = it.submit.still := by
  rw [submit_eq, submit_eq]
  exact executeLine_still { it with line := [] } it.line

/-- A key reads nothing that `still` forgets. -/
theorem feed_still (it : Interpreter) (ev : KeyEvent) :
    (it.still.feed ev).1.still = (it.feed ev).1.still := by
  unfold feed
  cases ev.type with
  | char =>
    dsimp only
    split <;> rfl
  | enter => exact it.submit_still
  | eof => exact congrArg (fun it' : Interpreter => { it' with quit := true }) it.submit_still
  | backspace | none | tab | escape | arrowUp | arrowDown | arrowLeft | arrowRight => rfl

/-! ## The animation without the console -/

/-- Forget the input line, the message and the quit flag. -/
def animation (it : Interpreter) : Interpreter :=
  { it with line := [], message := [], quit := false }

theorem effect_animation (it : Interpreter) (cmd arg : Bytes) :
    (it.animation.effect cmd arg).animation = (it.effect cmd arg).animation := by
  have hstate : it.animation.proc.state = it.proc.state := rfl
  unfold effect
  rw [hstate]
  by_cases hstart : cmd = ascii "start_marquee" ∧ arg = [] ∧ it.proc.state = .stopped
  · rw [if_pos hstart, if_pos hstart]
    rfl
  · rw [if_neg hstart, if_neg hstart]
    by_cases hstop : cmd = ascii "stop_marquee" ∧ arg = [] ∧ it.proc.state = .running
    · rw [if_pos hstop, if_pos hstop]
      rfl
    · rw [if_neg hstop, if_neg hstop]
      by_cases htext : cmd = ascii "set_text" ∧ arg ≠ [] ∧ Printable arg
      · rw [if_pos htext, if_pos htext]
        rfl
      · rw [if_neg htext, if_neg htext]
        by_cases hspeed : cmd = ascii "set_speed"
        · rw [if_pos hspeed, if_pos hspeed]
          cases decimal arg <;> rfl
        · rw [if_neg hspeed, if_neg hspeed]
          by_cases hexit : cmd = ascii "exit" ∧ arg = []
          · rw [if_pos hexit, if_pos hexit]
            rfl
          · rw [if_neg hexit, if_neg hexit]
            rfl

/-- A line reads nothing that `animation` forgets. -/
theorem executeLine_animation (it : Interpreter) (raw : Bytes) :
    (it.animation.executeLine raw).1.animation = (it.executeLine raw).1.animation := by
  obtain ⟨cmd, arg, hwords⟩ := words_exists raw
  have heffect := congrArg animation (it.executeLine_effect hwords)
  have heffect' := congrArg animation (it.animation.executeLine_effect hwords)
  rw [effect_animation] at heffect'
  exact heffect'.trans heffect.symm

end Interpreter

namespace Scheduler
open Interpreter

/-! ## What the console follows -/

def keysOf : Op → List KeyEvent
  | .postEvent ev => [ev]
  | .tick (some ev) _ _ => [ev]
  | _ => []

theorem tick_still (s : Scheduler) (sz : Size) (now : Int) :
    (s.tick none sz now).1.interp.still = s.interp.still := by
  rw [tick_interp]
  split <;> rfl

/-- The console follows the keys. -/
def console : Observation Scheduler Op Interpreter KeyEvent where
  exec s op := (s.exec op).1
  observe _ op := keysOf op
  project s := s.interp.still
  step it ev := (it.feed ev).1.still
  commutes s op := by
    cases op with
    | postEvent ev => exact (s.interp.feed_still ev).symm
    | wake | requestStop => rfl
    | tick ev sz now =>
      cases ev with
      | none => exact s.tick_still sz now
      | some ev =>
        show (s.tick (some ev) sz now).1.interp.still = (s.interp.still.feed ev).1.still
        rw [tick_event, tick_still, feed_still]
        rfl

theorem console_trace (s : Scheduler) (ops : List Op) :
    console.trace s ops = ops.flatMap keysOf := by
  induction ops generalizing s with
  | nil => rfl
  | cons op ops ih =>
    rw [Observation.trace, ih, List.flatMap_cons]
    rfl

/-! ## What the animation follows -/

/-- A tick at a clock reading, or a submitted line. -/
inductive Beat
  | tick (now : Int)
  | submit (line : Bytes)
deriving DecidableEq, Repr

def submissions (it : Interpreter) (ev : KeyEvent) : List Beat :=
  if ev.submits then [.submit it.line] else []

def beats (s : Scheduler) : Op → List Beat
  | .postEvent ev => submissions s.interp ev
  | .tick none _ now => [.tick now]
  | .tick (some ev) _ now => submissions s.interp ev ++ [.tick now]
  | _ => []

def animate (it : Interpreter) : Beat → Interpreter
  | .tick now => if due it now then markRendered it now else it
  | .submit line => (it.executeLine line).1.animation

theorem feed_animation (it : Interpreter) (ev : KeyEvent) :
    (it.feed ev).1.animation = (submissions it ev).foldl animate it.animation := by
  have hsubmit : it.submit.animation = (it.animation.executeLine it.line).1.animation := by
    rw [submit_eq, ← executeLine_animation]
    rfl
  obtain ⟨type, ch⟩ := ev
  cases type with
  | char =>
    unfold feed
    dsimp only
    split <;> rfl
  | enter => exact hsubmit
  | eof => exact hsubmit
  | backspace | none | tab | escape | arrowUp | arrowDown | arrowLeft | arrowRight => rfl

theorem tick_animation (s : Scheduler) (sz : Size) (now : Int) :
    (s.tick none sz now).1.interp.animation = animate s.interp.animation (.tick now) := by
  have hdue : due s.interp.animation now = due s.interp now := rfl
  unfold animate
  dsimp only
  rw [tick_interp, hdue]
  split <;> rfl

/-- The animation follows the ticks and the submissions. -/
def animator : Observation Scheduler Op Interpreter Beat where
  exec s op := (s.exec op).1
  observe := beats
  project s := s.interp.animation
  step := animate
  commutes s op := by
    cases op with
    | postEvent ev => exact feed_animation s.interp ev
    | wake | requestStop => rfl
    | tick ev sz now =>
      cases ev with
      | none => exact s.tick_animation sz now
      | some ev =>
        show (s.tick (some ev) sz now).1.interp.animation = _
        rw [tick_event, tick_animation, beats, List.foldl_append, ← feed_animation]
        rfl

/-- What a tick returns and leaves. -/
structure TickView where
  rendered : Bool
  cycles : Int
  lastRenderMs : Int
  hasRendered : Bool
deriving DecidableEq, Repr

def TickView.of (rendered : Bool) (proc : MarqueeProcess) : TickView :=
  { rendered := rendered, cycles := proc.cycles, lastRenderMs := proc.lastRenderMs,
    hasRendered := proc.hasRendered }

def tickView (s : Scheduler) (op : Op) : List TickView :=
  match op with
  | .tick _ _ _ => [.of (s.exec op).2.1.rendered (s.exec op).1.proc]
  | _ => []

/-- The views of the ticks of a run. -/
def tickViews (s : Scheduler) (ops : List Op) : List TickView := animator.views tickView s ops

/-- The animation alone determines the view of a tick. -/
def beatView (it : Interpreter) : Beat → List TickView
  | .tick now => [.of (due it now) (animate it (.tick now)).proc]
  | .submit _ => []

theorem submissions_answers (it it' : Interpreter) (ev : KeyEvent) :
    answers animate beatView it (submissions it' ev) = [] := by
  unfold submissions
  split <;> rfl

theorem tick_view (s : Scheduler) (sz : Size) (now : Int) :
    tickView s (.tick none sz now) = beatView s.interp.animation (.tick now) := by
  have hproc : (s.tick none sz now).1.interp.animation.proc = _ :=
    congrArg Interpreter.proc (s.tick_animation sz now)
  show [TickView.of (s.tick none sz now).2.1.rendered (s.tick none sz now).1.proc] =
    [TickView.of (due s.interp now) (animate s.interp.animation (.tick now)).proc]
  rw [tick_rendered, ← hproc]
  rfl

theorem tickView_eq (s : Scheduler) (op : Op) :
    tickView s op = answers animate beatView s.interp.animation (beats s op) := by
  cases op with
  | postEvent ev => exact (submissions_answers _ _ ev).symm
  | wake | requestStop => rfl
  | tick ev sz now =>
    cases ev with
    | none => exact (s.tick_view sz now).trans (List.append_nil _).symm
    | some ev =>
      have hevent : tickView s (.tick (some ev) sz now) =
          tickView (s.postEvent ev) (.tick none sz now) := by
        unfold tickView exec
        dsimp only
        rw [tick_event]
      rw [hevent, tick_view, beats, answers_append, submissions_answers, ← feed_animation]
      exact (List.append_nil _).symm

/-! ## The two directions -/

/-- **Typing and animating do not interfere.**  Interleavings of one key sequence with
any ticks end in the same parameters, input line, message, quit flag and process
state.  Two runs from equal parameters and processes with the same ticks, at any
sizes, and the same lines submitted between them, animate alike at every tick. -/
theorem typing_animating_independent :
    (∀ (s : Scheduler) (ops ops' : List Op), ops.flatMap keysOf = ops'.flatMap keysOf →
      (s.run ops).interp.params = (s.run ops').interp.params ∧
      (s.run ops).interp.line = (s.run ops').interp.line ∧
      (s.run ops).interp.message = (s.run ops').interp.message ∧
      (s.run ops).interp.quit = (s.run ops').interp.quit ∧
      (s.run ops).proc.state = (s.run ops').proc.state) ∧
    (∀ (s s' : Scheduler) (ops ops' : List Op), s.params = s'.params → s.proc = s'.proc →
      animator.trace s ops = animator.trace s' ops' → tickViews s ops = tickViews s' ops') := by
  constructor
  · intro s ops ops' hkeys
    have hstill : (s.run ops).interp.still = (s.run ops').interp.still := by
      refine console.project_run_eq (s := s) rfl ?_
      rw [console_trace, console_trace, hkeys]
    have hparams := congrArg Interpreter.params hstill
    have hline := congrArg Interpreter.line hstill
    have hmessage := congrArg Interpreter.message hstill
    have hquit := congrArg Interpreter.quit hstill
    have hstate := congrArg (fun it : Interpreter => it.proc.state) hstill
    exact ⟨hparams, hline, hmessage, hquit, hstate⟩
  · intro s s' ops ops' hparams hproc htrace
    refine animator.views_eq tickView_eq ?_ htrace
    show s.interp.animation = s'.interp.animation
    unfold Interpreter.animation
    rw [show s.interp.params = s'.interp.params from hparams,
      show s.interp.proc = s'.interp.proc from hproc]

/-- The marquee is started by keys and drawn: first the same keys among other ticks, then the
same ticks and lines with other keys between them. -/
theorem typing_animating_independent_typed :
    let tick (now : Int) : Op := .tick none {} now
    let typed : List Op := [.postEvent (.typing 0x61), .postEvent (.typing 0x62)]
    let deleted : List Op := [.postEvent (.typing 0x78), .postEvent { type := .backspace }]
    let s := (create {}).run (startKeys ++ typed ++ [tick 40])
    let s' := (create {}).run (tick 7 :: startKeys ++ [tick 90] ++ typed)
    let ops := deleted ++ startKeys ++ [tick 40] ++ typed ++ [tick 90, tick 150]
    let ops' := startKeys ++ [tick 40, tick 90] ++ deleted ++ [tick 150]
    (s.proc.state = .running ∧ s.interp.line = ascii "ab" ∧ tickViews (create {}) ops =
        [⟨true, 1, 40, true⟩, ⟨false, 1, 40, true⟩, ⟨true, 2, 150, true⟩]) ∧
      (s'.interp.params = s.interp.params ∧ s'.interp.line = s.interp.line ∧
        s'.interp.message = s.interp.message ∧ s'.interp.quit = s.interp.quit ∧
        s'.proc.state = s.proc.state) ∧
      tickViews (create {}) ops' = tickViews (create {}) ops := by
  intro tick typed deleted s s' ops ops'
  refine ⟨⟨by decide, by decide, by decide⟩, ?_, ?_⟩
  · exact typing_animating_independent.1 (create {}) _ _ (by decide)
  · exact typing_animating_independent.2 _ _ ops' ops rfl rfl (by decide)

end Scheduler
end Csopesy
