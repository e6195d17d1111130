import Csopesy.FrameGeometry
import Csopesy.Interpreter
import Csopesy.Terminal
import Csopesy.Transition

/-! # The scheduler's operations

`include/csopesy/scheduler.hpp` and the locked sections of
`src/app/scheduler.cpp`.  `mu_` guards the parameters, the process, the
interpreter and three fields of the scheduler itself; a `Scheduler` is that
guarded state.  Each operation is a function on it; `tick` also returns what it
passes to `Terminal::write`.  The size and the clock reading are arguments.

`exec` runs one operation, `run` a list of them, and `machine` is the resulting
transition system.  The threads that perform these operations one critical
section at a time are in `ConsoleApp`.

A tick does one of three things (`tickLocked_cases`): it renders a frame because
the deadline is due, redraws because a frame is owed, or does nothing.  A tick
that is handed an event is a posted event followed by a plain tick
(`tick_event`).  So what every key and every rendered frame keep, every operation
keeps (`exec_preserves`), and a run with it (`run_preserves`).
-/
namespace Csopesy

/-- `Scheduler`'s guarded state; `interp` holds the shared parameters and process. -/
structure Scheduler where
  interp : Interpreter := {}
  stop : Bool := false
  dirty : Bool := false
  wakeTick : Int := 0
deriving DecidableEq, Repr

structure TickResult where
  rendered : Bool := false
deriving DecidableEq, Repr

namespace Scheduler

/-- The scheduler `ConsoleApp::run` builds: a default process and an empty
interpreter. -/
def create (params : Parameters) : Scheduler := { interp := { params := params } }

def params (s : Scheduler) : Parameters := s.interp.params
def proc (s : Scheduler) : MarqueeProcess := s.interp.proc

/-! ## Input thread -/

def postEvent (s : Scheduler) (ev : KeyEvent) : Scheduler :=
  { s with interp := (s.interp.feed ev).1, dirty := true }

def wake (s : Scheduler) : Scheduler := { s with wakeTick := s.wakeTick + 1 }

def requestStop (s : Scheduler) : Scheduler := { s with stop := true }

/-! ## Marquee thread -/

/-- Running, and either not yet drawn since the start or past the deadline. -/
def due (it : Interpreter) (now : Int) : Bool :=
  decide (it.proc.state = .running) &&
    (!it.proc.hasRendered || decide (now - it.proc.lastRenderMs ≥ it.params.refreshMs))

/-- The frame of the current state for a terminal size. -/
def frameOf (it : Interpreter) (sz : Size) : Bytes :=
  Renderer.buildFrame it.params it.proc Interpreter.prompt it.line it.message sz.rows sz.cols

/-- Count a rendered frame and move the deadline. -/
def markRendered (it : Interpreter) (now : Int) : Interpreter :=
  { it with proc := { it.proc with
      lastRenderMs := now, hasRendered := true, cycles := it.proc.cycles + 1 } }

/-- The part of `tick` under the lock.  The frame is built before the rendered
frame is counted. -/
def tickLocked (s : Scheduler) (ev : Option KeyEvent) (sz : Size) (now : Int) :
    Scheduler × TickResult × Bytes :=
  let it := match ev with
    | none => s.interp
    | some ev => (s.interp.feed ev).1
  let redraw := ev.isSome || s.dirty
  if due it now || redraw then
    if due it now then
      ({ s with interp := markRendered it now, dirty := false }, { rendered := true }, frameOf it sz)
    else ({ s with interp := it, dirty := false }, {}, frameOf it sz)
  else ({ s with interp := it, dirty := false }, {}, [])

/-- `tick`: the state, the result, and the strings passed to `Terminal::write`. -/
def tick (s : Scheduler) (ev : Option KeyEvent) (sz : Size) (now : Int) :
    Scheduler × TickResult × List Bytes :=
  let (s', res, frame) := s.tickLocked ev sz now
  (s', res, if frame.isEmpty then [] else [frame])

def pollTimeoutMsLocked (s : Scheduler) (now : Int) : Int :=
  let ms := s.params.pollingMs
  let ms :=
    if s.proc.state = .running then
      let untilDue := s.params.refreshMs - (now - s.proc.lastRenderMs)
      if untilDue > 0 ∧ untilDue < ms then untilDue else ms
    else ms
  let ms := if ms < 1 then 1 else ms
  if ms > 1000 then 1000 else ms

/-- The predicate of `wait_for`, with `seen` captured before the wait. -/
def waitPredicate (s : Scheduler) (seen : Int) : Bool :=
  s.stop || s.dirty || decide (s.wakeTick ≠ seen)

/-! ## What a tick does -/

/-- **An event tick is a posted event and a plain tick.** -/
theorem tick_event (s : Scheduler) (ev : KeyEvent) (sz : Size) (now : Int) :
    s.tick (some ev) sz now = (s.postEvent ev).tick none sz now := by
  have h : s.tickLocked (some ev) sz now = (s.postEvent ev).tickLocked none sz now := by
    cases hd : due (s.interp.feed ev).1 now <;> simp [tickLocked, postEvent, hd]
  unfold tick
  rw [h]

/-- A plain tick, by whether the deadline is due and whether a frame is owed. -/
theorem tickLocked_cases (s : Scheduler) (sz : Size) (now : Int) :
    (due s.interp now = true ∧ s.tickLocked none sz now =
      ({ s with interp := markRendered s.interp now, dirty := false }, { rendered := true },
        frameOf s.interp sz)) ∨
    (due s.interp now = false ∧ s.dirty = true ∧ s.tickLocked none sz now =
      ({ s with dirty := false }, {}, frameOf s.interp sz)) ∨
    (due s.interp now = false ∧ s.dirty = false ∧ s.tickLocked none sz now = (s, {}, [])) := by
  cases hd : due s.interp now with
  | true => exact .inl ⟨rfl, by simp [tickLocked, hd]⟩
  | false =>
    cases hdirty : s.dirty with
    | true => exact .inr (.inl ⟨rfl, rfl, by simp [tickLocked, hd, hdirty]⟩)
    | false =>
      refine .inr (.inr ⟨rfl, rfl, ?_⟩)
      obtain ⟨interp, stop, dirty, wakeTick⟩ := s
      subst hdirty
      simp_all [tickLocked]

theorem tick_rendered (s : Scheduler) (sz : Size) (now : Int) :
    (s.tick none sz now).2.1.rendered = due s.interp now := by
  rcases s.tickLocked_cases sz now with ⟨hd, h⟩ | ⟨hd, -, h⟩ | ⟨hd, -, h⟩ <;> simp [tick, h, hd]

theorem tick_interp (s : Scheduler) (sz : Size) (now : Int) :
    (s.tick none sz now).1.interp =
      if due s.interp now then markRendered s.interp now else s.interp := by
  rcases s.tickLocked_cases sz now with ⟨hd, h⟩ | ⟨hd, -, h⟩ | ⟨hd, -, h⟩ <;> simp [tick, h, hd]

theorem tick_dirty (s : Scheduler) (sz : Size) (now : Int) :
    (s.tick none sz now).1.dirty = false := by
  rcases s.tickLocked_cases sz now with ⟨-, h⟩ | ⟨-, -, h⟩ | ⟨-, hdirty, h⟩
  · simp [tick, h]
  · simp [tick, h]
  · simp [tick, h, hdirty]

/-- A plain tick leaves the stop flag and the wake counter alone. -/
theorem tickLocked_flags (s : Scheduler) (sz : Size) (now : Int) :
    (s.tickLocked none sz now).1.stop = s.stop ∧
      (s.tickLocked none sz now).1.wakeTick = s.wakeTick := by
  rcases s.tickLocked_cases sz now with ⟨-, h⟩ | ⟨-, -, h⟩ | ⟨-, -, h⟩ <;> simp [h]

theorem frameOf_eq_nil_iff (it : Interpreter) (sz : Size) : frameOf it sz = [] ↔ ¬ sz.Visible := by
  constructor
  · intro h hsz
    exact Renderer.buildFrame_ne_nil _ _ _ _ _ hsz.1 hsz.2 h
  · intro hsz
    unfold frameOf Renderer.buildFrame
    rw [if_pos]
    unfold Size.Visible at hsz
    omega

/-- A tick builds the frame of the state it started from, when one is due or owed. -/
theorem tickLocked_frame (s : Scheduler) (sz : Size) (now : Int) :
    (s.tickLocked none sz now).2.2 =
      if due s.interp now || s.dirty then frameOf s.interp sz else [] := by
  rcases s.tickLocked_cases sz now with ⟨hd, h⟩ | ⟨hd, hdirty, h⟩ | ⟨hd, hdirty, h⟩
  · simp [h, hd]
  · simp [h, hdirty]
  · simp [h, hd, hdirty]

/-- What a tick writes at a visible size is that frame, and nothing at any other. -/
theorem tick_written (s : Scheduler) (sz : Size) (now : Int) :
    (s.tick none sz now).2.2 =
      if (due s.interp now || s.dirty) = true ∧ sz.Visible then [frameOf s.interp sz] else [] := by
  have hempty : (frameOf s.interp sz).isEmpty = decide ¬ sz.Visible := by
    rw [Bool.eq_iff_iff, List.isEmpty_iff, frameOf_eq_nil_iff, decide_eq_true_eq]
  show (if (s.tickLocked none sz now).2.2.isEmpty then [] else [(s.tickLocked none sz now).2.2]) = _
  rw [tickLocked_frame]
  cases due s.interp now || s.dirty with
  | true => by_cases hv : sz.Visible <;> simp [hv, hempty]
  | false => simp

theorem due_running {it : Interpreter} {now : Int} (h : due it now = true) :
    it.proc.state = .running := by
  simp only [due, Bool.and_eq_true, decide_eq_true_eq] at h
  exact h.1

/-- A started process that has not been drawn is due at every clock reading. -/
theorem due_of_not_hasRendered {it : Interpreter} (hs : it.proc.state = .running)
    (hr : it.proc.hasRendered = false) (now : Int) : due it now = true := by
  simp [due, hs, hr]

/-! ## Runs of operations -/

inductive Op
  | postEvent (ev : KeyEvent)
  | wake
  | requestStop
  | tick (ev : Option KeyEvent) (sz : Size) (now : Int)
deriving DecidableEq, Repr

/-- The operations of the two threads: the worker ticks with no event. -/
def Op.Threaded : Op → Prop
  | .tick (some _) _ _ => False
  | _ => True

/-- The terminal reports a visible size at every tick. -/
def Op.Visible : Op → Prop
  | .tick _ sz _ => sz.Visible
  | _ => True

instance : DecidablePred Op.Threaded := fun op => by
  cases op with
  | tick ev _ _ => cases ev <;> (unfold Op.Threaded; infer_instance)
  | _ => unfold Op.Threaded; infer_instance

instance : DecidablePred Op.Visible := fun op => by
  cases op <;> (unfold Op.Visible; infer_instance)

def exec (s : Scheduler) : Op → Scheduler × TickResult × List Bytes
  | .postEvent ev => (s.postEvent ev, {}, [])
  | .wake => (s.wake, {}, [])
  | .requestStop => (s.requestStop, {}, [])
  | .tick ev sz now => s.tick ev sz now

def run (s : Scheduler) (ops : List Op) : Scheduler := ops.foldl (fun s op => (s.exec op).1) s

/-- Everything a run passes to `Terminal::write`, in order. -/
def written : Scheduler → List Op → List Bytes
  | _, [] => []
  | s, op :: ops => (s.exec op).2.2 ++ written (s.exec op).1 ops

@[simp] theorem run_nil (s : Scheduler) : s.run [] = s := rfl

@[simp] theorem run_cons (s : Scheduler) (op : Op) (ops : List Op) :
    s.run (op :: ops) = (s.exec op).1.run ops := rfl

theorem run_append (s : Scheduler) (ops ops' : List Op) :
    s.run (ops ++ ops') = (s.run ops).run ops' := List.foldl_append

/-- **Operation rule.**  What every key and every rendered frame keep, every operation
keeps. -/
theorem exec_preserves {I : Interpreter → Prop} (hfeed : ∀ it ev, I it → I (it.feed ev).1)
    (hmark : ∀ it now, I it → I (markRendered it now)) {s : Scheduler} (h : I s.interp)
    (op : Op) : I (s.exec op).1.interp := by
  have htick : ∀ s : Scheduler, I s.interp → ∀ sz now, I (s.tick none sz now).1.interp := by
    intro s h sz now
    rw [tick_interp]
    split
    · exact hmark _ now h
    · exact h
  cases op with
  | postEvent ev => exact hfeed _ ev h
  | wake | requestStop => exact h
  | tick ev sz now =>
    cases ev with
    | none => exact htick s h sz now
    | some ev =>
      show I (s.tick (some ev) sz now).1.interp
      rw [tick_event]
      exact htick _ (hfeed _ ev h) sz now

/-- **Run rule.**  What every operation keeps, a run keeps. -/
theorem run_preserves {I : Scheduler → Prop} {p : Op → Prop}
    (hstep : ∀ s op, p op → I s → I (s.exec op).1) {ops : List Op} (hops : ∀ op ∈ ops, p op)
    {s : Scheduler} (hs : I s) : I (s.run ops) := by
  induction ops generalizing s with
  | nil => exact hs
  | cons op ops ih =>
    exact ih (fun o ho => hops o (List.mem_cons_of_mem _ ho))
      (hstep s op (hops op List.mem_cons_self) hs)

/-- The operations as a transition system, started as `ConsoleApp::run` does. -/
def machine (params : Parameters) : Transition.LTS Scheduler Op where
  init s := s = create params
  step s op t := op.Threaded ∧ t = (s.exec op).1

end Scheduler
end Csopesy
