import Csopesy.Monitor
import Csopesy.Scheduler

/-! # The threads of the application

`ConsoleApp::run` of `src/app/console_app.cpp` on the input thread, and
`Scheduler::run` with its `tick` of `src/app/scheduler.cpp` on the workers, as one
transition system.  A step of a thread ends where the other one can act: at a
lock or unlock of `mu_`, at the test, the block and the wake-up of `wait_for`, at
a notification, and at the beginning and the end of a `Terminal::write`.

* The **input thread** draws the first frame, starts a worker, makes any calls of
  `postEvent`, `wake` and `requestStop`, joins, and writes the goodbye line.  What
  ends its loop (a quit, a shutdown signal) is left open, so is what it posts.  From
  the join on, before the goodbye line and after it, the scheduler still exists and
  may be called, started and joined again.
* A **worker** loops: lock, check `stop_`, wait, check again, tick.  Time-outs and
  spurious wake-ups happen at any moment, the clock reads anything, and the
  terminal has any visible size.

Workers are numbered in the order they are started; that there is never more than
one is a theorem (`WellFormed.single`), not a choice of the model.
-/
namespace Csopesy
open Scheduler (Op)

inductive Thread
  | input
  | worker (i : Nat)
deriving DecidableEq, Repr

/-- A call of `Terminal::write`, with its thread. -/
structure Write where
  author : Thread
  bytes : Bytes
deriving DecidableEq, Repr

/-- `"Exiting CSOPESY. Goodbye!\r\n"` -/
def farewell : Bytes := ascii "Exiting CSOPESY. Goodbye!\r\n"

/-- What the threads share: the state `mu_` guards, its owner, and the terminal. -/
structure Shared where
  sched : Scheduler
  mu : Option Thread := none
  writes : List Write := []

/-! ## Workers -/

/-- Where a worker is in `Scheduler::run` and `Scheduler::tick`. -/
inductive WorkerPc
  | unborn
  /-- At the head of the loop. -/
  | top
  /-- Inside `mu_`, at `if (stop_)`. -/
  | check
  /-- Inside, at the first test of the predicate of `wait_for`. -/
  | entering (seen : Int)
  /-- Inside, the predicate was false. -/
  | parking (seen : Int)
  | blocked (seen : Int)
  | woken (seen : Int) (timedOut : Bool)
  /-- Inside, at a further test of the predicate. -/
  | rechecking (seen : Int)
  /-- Inside, `wait_for` has returned. -/
  | leaving
  /-- At the call of `tick`. -/
  | stepping
  | sized (sz : VisibleSize)
  /-- Inside, at the body of `tick`. -/
  | ticking (sz : VisibleSize)
  /-- Inside, the frame is built. -/
  | built (frame : Bytes)
  | unwritten (frame : Bytes)
  /-- In `Terminal::write`. -/
  | writing
  | exited
deriving DecidableEq, Repr

namespace WorkerPc

def inside : WorkerPc → Bool
  | check | entering _ | parking _ | rechecking _ | leaving | ticking _ | built _ => true
  | _ => false

def live : WorkerPc → Bool
  | unborn | exited => false
  | _ => true

/-- Not past the first check of `stop_`. -/
def quiet : WorkerPc → Bool
  | unborn | top | check | exited => true
  | _ => false

theorem quiet_of_not_live {pc : WorkerPc} (h : pc.live = false) : pc.quiet = true := by
  cases pc with
  | unborn | top | check | exited => rfl
  | _ => exact Bool.noConfusion h

/-- The frame that is built and not yet written. -/
def pending : WorkerPc → Option Bytes
  | built frame | unwritten frame => if frame.isEmpty then none else some frame
  | _ => none

/-- Notified: a blocked worker is woken, nobody else notices. -/
def notified : WorkerPc → WorkerPc
  | blocked seen => woken seen false
  | pc => pc

end WorkerPc

inductive WorkerAct
  | lock
  | exit
  | enter
  | test
  | block
  | wake
  | leave
  | size (sz : VisibleSize)
  | tick (sz : VisibleSize) (now : Int)
  | unlock
  | skip
  | write
  | written
deriving DecidableEq, Repr

/-- One step of worker `i`. -/
inductive WorkerStep (i : Nat) : Shared → WorkerPc → WorkerAct → Shared → WorkerPc → Prop
  | lock {sh : Shared} (hmu : sh.mu = none) :
      WorkerStep i sh .top .lock { sh with mu := some (.worker i) } .check
  | exit {sh : Shared} (hstop : sh.sched.stop = true) :
      WorkerStep i sh .check .exit { sh with mu := none } .exited
  | enter {sh : Shared} (hstop : sh.sched.stop = false) :
      WorkerStep i sh .check .enter sh (.entering sh.sched.wakeTick)
  | pass {sh : Shared} {seen : Int} (hp : sh.sched.waitPredicate seen = true) :
      WorkerStep i sh (.entering seen) .test sh .leaving
  | refuse {sh : Shared} {seen : Int} (hp : sh.sched.waitPredicate seen = false) :
      WorkerStep i sh (.entering seen) .test sh (.parking seen)
  | block {sh : Shared} {seen : Int} :
      WorkerStep i sh (.parking seen) .block { sh with mu := none } (.blocked seen)
  | wake {sh : Shared} {seen : Int} (timedOut : Bool) :
      WorkerStep i sh (.blocked seen) .wake sh (.woken seen timedOut)
  | relock {sh : Shared} {seen : Int} (hmu : sh.mu = none) :
      WorkerStep i sh (.woken seen false) .lock { sh with mu := some (.worker i) } (.rechecking seen)
  | repass {sh : Shared} {seen : Int} (hp : sh.sched.waitPredicate seen = true) :
      WorkerStep i sh (.rechecking seen) .test sh .leaving
  | rerefuse {sh : Shared} {seen : Int} (hp : sh.sched.waitPredicate seen = false) :
      WorkerStep i sh (.rechecking seen) .test sh (.parking seen)
  -- after a time-out `wait_for` returns the predicate, which `run` ignores
  | timeout {sh : Shared} {seen : Int} (hmu : sh.mu = none) :
      WorkerStep i sh (.woken seen true) .lock { sh with mu := some (.worker i) } .leaving
  | stop {sh : Shared} (hstop : sh.sched.stop = true) :
      WorkerStep i sh .leaving .exit { sh with mu := none } .exited
  | leave {sh : Shared} (hstop : sh.sched.stop = false) :
      WorkerStep i sh .leaving .leave { sh with mu := none } .stepping
  | size {sh : Shared} (sz : VisibleSize) :
      WorkerStep i sh .stepping (.size sz) sh (.sized sz)
  | lockTick {sh : Shared} {sz : VisibleSize} (hmu : sh.mu = none) :
      WorkerStep i sh (.sized sz) .lock { sh with mu := some (.worker i) } (.ticking sz)
  | tick {sh : Shared} {sz : VisibleSize} (now : Int) :
      WorkerStep i sh (.ticking sz) (.tick sz now)
        { sh with sched := (sh.sched.tickLocked none sz.1 now).1 }
        (.built (sh.sched.tickLocked none sz.1 now).2.2)
  | unlock {sh : Shared} {frame : Bytes} :
      WorkerStep i sh (.built frame) .unlock { sh with mu := none } (.unwritten frame)
  | skip {sh : Shared} : WorkerStep i sh (.unwritten []) .skip sh .top
  | write {sh : Shared} {frame : Bytes} (hne : frame ≠ []) :
      WorkerStep i sh (.unwritten frame) .write
        { sh with writes := sh.writes ++ [⟨.worker i, frame⟩] } .writing
  | written {sh : Shared} : WorkerStep i sh .writing .written sh .top

/-! ## The input thread -/

/-- A call of the scheduler from the input thread. -/
inductive Call
  | postEvent (ev : KeyEvent)
  | wake
  | requestStop
deriving DecidableEq, Repr

def Call.op : Call → Op
  | postEvent ev => .postEvent ev
  | wake => .wake
  | requestStop => .requestStop

/-- How far `ConsoleApp::run` has come. -/
inductive Phase
  /-- The first frame is drawn. -/
  | opened
  /-- In the input loop. -/
  | looping
  /-- `requestStop` has returned. -/
  | stopping
  /-- `join` has returned. -/
  | joined
  /-- The goodbye line is written. -/
  | closed
deriving DecidableEq, Repr

namespace Phase

/-- The phases in which the scheduler is called. -/
def serving : Phase → Bool
  | opened => false
  | _ => true

/-- The phases after the first `requestStop`. -/
def stopped : Phase → Bool
  | stopping | joined | closed => true
  | _ => false

/-- The phases after the first `join`. -/
def pastJoin : Phase → Bool
  | joined | closed => true
  | _ => false

def afterStart : Phase → Phase
  | opened => looping
  | ph => ph

def afterCall (c : Call) : Phase → Phase
  | looping => if c = .requestStop then stopping else looping
  | ph => ph

def afterJoin : Phase → Phase
  | stopping => joined
  | ph => ph

theorem afterStart_ne_opened (ph : Phase) : ph.afterStart ≠ opened := by cases ph <;> decide

theorem afterCall_eq_opened {ph : Phase} {c : Call} (h : ph.afterCall c = opened) :
    ph = opened := by
  cases ph with
  | looping => by_cases hc : c = .requestStop <;> simp [afterCall, hc] at h
  | _ => exact h

theorem afterStart_stopped (ph : Phase) : ph.afterStart.stopped = ph.stopped := by cases ph <;> rfl

theorem afterStart_pastJoin (ph : Phase) : ph.afterStart.pastJoin = ph.pastJoin := by
  cases ph <;> rfl

theorem afterCall_pastJoin (ph : Phase) (c : Call) :
    (ph.afterCall c).pastJoin = ph.pastJoin := by
  cases ph with
  | looping => by_cases hc : c = .requestStop <;> simp [afterCall, hc, pastJoin]
  | _ => rfl

theorem afterJoin_pastJoin {ph : Phase} (h : ph.stopped = true) : ph.afterJoin.pastJoin = true := by
  cases ph with
  | stopping | joined | closed => rfl
  | _ => exact Bool.noConfusion h

theorem stopped_of_pastJoin {ph : Phase} (h : ph.pastJoin = true) : ph.stopped = true := by
  cases ph with
  | joined | closed => rfl
  | _ => exact Bool.noConfusion h

/-- Only `requestStop` leads out of the loop. -/
theorem afterCall_stopped {ph : Phase} {c : Call} (h : (ph.afterCall c).stopped = true) :
    (ph.stopped || c == .requestStop) = true := by
  cases ph with
  | looping => by_cases hc : c = .requestStop <;> simp_all [afterCall, stopped]
  | opened => exact absurd h Bool.false_ne_true
  | stopping | joined | closed => rfl

end Phase

/-- Where the input thread is. -/
inductive InputPc
  | start
  /-- The first frame is built. -/
  | drawing (frame : Bytes)
  /-- In `Terminal::write` with the first frame. -/
  | painting
  | ready (ph : Phase)
  /-- Before the lock of a call. -/
  | calling (ph : Phase) (c : Call)
  /-- Inside `mu_`. -/
  | locked (ph : Phase) (c : Call)
  /-- Inside, the update is done. -/
  | updated (ph : Phase) (c : Call)
  /-- Outside, before the notification. -/
  | notifying (ph : Phase) (c : Call)
  /-- In `Terminal::write` with the goodbye line. -/
  | farewell
deriving DecidableEq, Repr

namespace InputPc

def inside : InputPc → Bool
  | locked _ _ | updated _ _ => true
  | _ => false

def phase : InputPc → Phase
  | start | drawing _ | painting => .opened
  | ready ph | calling ph _ | locked ph _ | updated ph _ | notifying ph _ => ph
  | farewell => .joined

/-- A `requestStop` has set `stop_`. -/
def stopRequested : InputPc → Bool
  | updated ph c | notifying ph c => ph.stopped || c == .requestStop
  | pc => pc.phase.stopped

theorem stopRequested_of_stopped {pc : InputPc} (h : pc.phase.stopped = true) :
    pc.stopRequested = true := by
  cases pc with
  | updated ph c | notifying ph c => exact Bool.or_eq_true_iff.mpr (.inl h)
  | _ => exact h

/-- An update is done and its notification is still to come. -/
def notifies : InputPc → Bool
  | updated _ _ | notifying _ _ => true
  | _ => false

/-- The first frame has been passed to `Terminal::write`. -/
def drawn : InputPc → Bool
  | start | drawing _ => false
  | _ => true

theorem opened_of_not_drawn {pc : InputPc} (h : pc.drawn = false) : pc.phase = .opened := by
  cases pc with
  | start | drawing => rfl
  | _ => exact Bool.noConfusion h

theorem ne_start_of_drawn {pc : InputPc} (h : pc.drawn = true) : pc ≠ .start := by
  rintro rfl
  exact Bool.noConfusion h

theorem ne_drawing_of_drawn {pc : InputPc} (h : pc.drawn = true) (frame : Bytes) :
    pc ≠ .drawing frame := by
  rintro rfl
  exact Bool.noConfusion h

end InputPc

inductive InputAct
  | draw (sz : VisibleSize)
  | skip
  | paint
  | painted
  | start
  | call (c : Call)
  | lock
  | update (c : Call)
  | unlock
  | notify (c : Call)
  | join
  | farewell
  | finish
deriving DecidableEq, Repr

/-! ## The system -/

/-- The shared state and where every thread is.  `handle` is the thread `worker_`
holds, `none` when it is not joinable. -/
structure ConsoleApp extends Shared where
  input : InputPc := .start
  workers : Nat → WorkerPc := fun _ => .unborn
  spawned : Nat := 0
  handle : Option Nat := none

/-- One step of the input thread. -/
inductive InputStep : ConsoleApp → InputAct → ConsoleApp → Prop
  -- no worker exists yet, so the first frame is built without the lock
  | draw {a : ConsoleApp} (sz : VisibleSize) (h : a.input = .start) :
      InputStep a (.draw sz) { a with input := .drawing (Scheduler.frameOf a.sched.interp sz.1) }
  | skip {a : ConsoleApp} (h : a.input = .drawing []) :
      InputStep a .skip { a with input := .ready .opened }
  | paint {a : ConsoleApp} {frame : Bytes} (hne : frame ≠ []) (h : a.input = .drawing frame) :
      InputStep a .paint { a with writes := a.writes ++ [⟨.input, frame⟩], input := .painting }
  | painted {a : ConsoleApp} (h : a.input = .painting) :
      InputStep a .painted { a with input := .ready .opened }
  | start {a : ConsoleApp} {ph : Phase} (hw : a.handle = none) (h : a.input = .ready ph) :
      InputStep a .start { a with
        workers := Function.update a.workers a.spawned .top, handle := some a.spawned,
        spawned := a.spawned + 1, input := .ready ph.afterStart }
  | startAgain {a : ConsoleApp} {ph : Phase} (hw : a.handle ≠ none) (h : a.input = .ready ph) :
      InputStep a .start { a with input := .ready ph.afterStart }
  | call {a : ConsoleApp} {ph : Phase} (c : Call) (hph : ph.serving = true)
      (h : a.input = .ready ph) : InputStep a (.call c) { a with input := .calling ph c }
  | lock {a : ConsoleApp} {ph : Phase} {c : Call} (hmu : a.mu = none)
      (h : a.input = .calling ph c) :
      InputStep a .lock { a with mu := some .input, input := .locked ph c }
  | update {a : ConsoleApp} {ph : Phase} {c : Call} (h : a.input = .locked ph c) :
      InputStep a (.update c) { a with sched := (a.sched.exec c.op).1, input := .updated ph c }
  | unlock {a : ConsoleApp} {ph : Phase} {c : Call} (h : a.input = .updated ph c) :
      InputStep a .unlock { a with mu := none, input := .notifying ph c }
  -- `postEvent` and `requestStop` notify all, `wake` notifies one
  | notifyAll {a : ConsoleApp} {ph : Phase} {c : Call} (hc : c ≠ .wake)
      (h : a.input = .notifying ph c) :
      InputStep a (.notify c) { a with
        workers := fun j => (a.workers j).notified, input := .ready (ph.afterCall c) }
  | notifyOne {a : ConsoleApp} {ph : Phase} {j : Nat} {seen : Int}
      (hj : a.workers j = .blocked seen) (h : a.input = .notifying ph .wake) :
      InputStep a (.notify .wake) { a with
        workers := Function.update a.workers j (.woken seen false), input := .ready ph }
  | notifyNone {a : ConsoleApp} {ph : Phase} (hnone : ∀ j seen, a.workers j ≠ .blocked seen)
      (h : a.input = .notifying ph .wake) :
      InputStep a (.notify .wake) { a with input := .ready ph }
  | join {a : ConsoleApp} {ph : Phase} {i : Nat} (hph : ph.stopped = true)
      (hw : a.handle = some i) (hi : a.workers i = .exited) (h : a.input = .ready ph) :
      InputStep a .join { a with handle := none, input := .ready ph.afterJoin }
  | joinNothing {a : ConsoleApp} {ph : Phase} (hph : ph.stopped = true) (hw : a.handle = none)
      (h : a.input = .ready ph) :
      InputStep a .join { a with input := .ready ph.afterJoin }
  | farewell {a : ConsoleApp} (h : a.input = .ready .joined) :
      InputStep a .farewell
        { a with writes := a.writes ++ [⟨.input, Csopesy.farewell⟩], input := .farewell }
  | finish {a : ConsoleApp} (h : a.input = .farewell) :
      InputStep a .finish { a with input := .ready .closed }

inductive Act
  | input (act : InputAct)
  | worker (i : Nat) (act : WorkerAct)
deriving DecidableEq, Repr

namespace ConsoleApp

/-- One step of one thread. -/
inductive Step : ConsoleApp → Act → ConsoleApp → Prop
  | input {a b : ConsoleApp} {act : InputAct} (h : InputStep a act b) : Step a (.input act) b
  | worker {a : ConsoleApp} {i : Nat} {pc pc' : WorkerPc} {act : WorkerAct} {sh : Shared}
      (hpc : a.workers i = pc) (h : WorkerStep i a.toShared pc act sh pc') :
      Step a (.worker i act) { a with toShared := sh, workers := Function.update a.workers i pc' }

/-- The application, started with the parameters `main` passes to `ConsoleApp`. -/
def system (params : Parameters) : Transition.LTS ConsoleApp Act where
  init a := a = { sched := Scheduler.create params }
  step := Step

/-! ## What one step can do -/

/-- The scheduler operation that a step performs on the guarded state. -/
def op? : Act → Option Op
  | .input (.update c) => some c.op
  | .worker _ (.tick sz now) => some (.tick none sz.1 now)
  | _ => none

/-- The steps that perform an operation: the update of a call and the body of a
tick. -/
theorem op?_cases {act : Act} {op : Op} (h : op? act = some op) :
    (∃ c, act = .input (.update c) ∧ op = c.op) ∨
    ∃ i sz now, act = .worker i (.tick sz now) ∧ op = .tick none sz.1 now := by
  unfold op? at h
  split at h
  · exact .inl ⟨_, rfl, (Option.some.inj h).symm⟩
  · exact .inr ⟨_, _, _, rfl, (Option.some.inj h).symm⟩
  · exact absurd h (by simp)

theorem op?_threaded {act : Act} {op : Op} (h : op? act = some op) : op.Threaded := by
  obtain ⟨c, -, rfl⟩ | ⟨i, sz, now, -, rfl⟩ := op?_cases h
  · cases c <;> trivial
  · trivial

/-- Is the thread inside `mu_`? -/
def inside (a : ConsoleApp) : Thread → Bool
  | .input => a.input.inside
  | .worker i => (a.workers i).inside

end ConsoleApp

namespace WorkerStep
variable {i : Nat} {sh sh' : Shared} {pc pc' : WorkerPc} {act : WorkerAct}

theorem handover (h : WorkerStep i sh pc act sh' pc') :
    Monitor.Handover (.worker i) sh.mu pc.inside sh'.mu pc'.inside := by
  cases h with
  | lock hmu | relock hmu | timeout hmu | lockTick hmu =>
    rw [hmu]
    exact .lock
  | exit | block | stop | leave | unlock => exact .unlock
  | enter | pass | refuse | wake | repass | rerefuse | size | tick | skip | write | written =>
    exact .keep

/-- A worker changes the guarded state at the body of a tick only. -/
theorem sched_cases (h : WorkerStep i sh pc act sh' pc') :
    sh'.sched = sh.sched ∨ ∃ sz now, act = .tick sz now ∧ pc = .ticking sz ∧
      sh'.sched = (sh.sched.tickLocked none sz.1 now).1 ∧
      pc' = .built (sh.sched.tickLocked none sz.1 now).2.2 := by
  cases h with
  | tick now => exact .inr ⟨_, now, rfl, rfl, rfl, rfl⟩
  | _ => exact .inl rfl

theorem stop_eq (h : WorkerStep i sh pc act sh' pc') : sh'.sched.stop = sh.sched.stop := by
  rcases h.sched_cases with heq | ⟨sz, now, -, -, heq, -⟩
  · rw [heq]
  · rw [heq]
    exact (sh.sched.tickLocked_flags sz.1 now).1

theorem live (h : WorkerStep i sh pc act sh' pc') : pc.live = true := by
  cases h <;> rfl

/-- A worker that is quiet when `stop_` is set locks, exits, and changes nothing
else. -/
theorem quiet (h : WorkerStep i sh pc act sh' pc') (hstop : sh.sched.stop = true)
    (hq : pc.quiet = true) :
    (act = .lock ∨ act = .exit) ∧ sh'.sched = sh.sched ∧ sh'.writes = sh.writes ∧
      pc'.quiet = true := by
  cases h with
  | lock hmu => exact ⟨.inl rfl, rfl, rfl, rfl⟩
  | exit => exact ⟨.inr rfl, rfl, rfl, rfl⟩
  | enter hgo => exact absurd (hgo.symm.trans hstop) Bool.false_ne_true
  | _ => exact absurd hq Bool.false_ne_true

end WorkerStep

namespace InputStep
variable {a b : ConsoleApp} {act : InputAct}

theorem handover (h : InputStep a act b) :
    Monitor.Handover .input a.mu a.input.inside b.mu b.input.inside := by
  cases h with
  | lock hmu h =>
    rw [hmu]
    exact .lock
  | unlock h =>
    rw [h]
    exact .unlock
  | draw sz h | skip h | paint hne h | painted h | start hw h | startAgain hw h
  | call c hph h | update h | notifyAll hc h | notifyOne hj h | notifyNone hnone h
  | join hph hw hi h | joinNothing hph hw h | farewell h | finish h =>
    rw [h]
    exact .keep

/-- The input thread changes the guarded state at the update of a call only. -/
theorem sched_cases (h : InputStep a act b) :
    b.sched = a.sched ∨ ∃ ph c, act = .update c ∧ a.input = .locked ph c ∧
      b.sched = (a.sched.exec c.op).1 := by
  cases h with
  | update h => exact .inr ⟨_, _, rfl, h, rfl⟩
  | _ => exact .inl rfl

/-- What the input thread does to worker `j`: nothing, wake it up, or create it. -/
theorem worker_cases (h : InputStep a act b) (j : Nat) :
    b.workers j = a.workers j ∨
    (∃ seen, a.workers j = .blocked seen ∧ b.workers j = .woken seen false) ∨
    (j = a.spawned ∧ b.spawned = j + 1 ∧ a.handle = none ∧ b.handle = some j ∧
      b.workers j = .top) := by
  cases h with
  | start hw h =>
    by_cases hj : j = a.spawned
    · subst hj
      exact .inr (.inr ⟨rfl, rfl, hw, rfl, Function.update_self ..⟩)
    · exact .inl (Function.update_of_ne hj ..)
  | notifyAll hc h =>
    cases hj : a.workers j with
    | blocked seen =>
      refine .inr (.inl ⟨seen, rfl, ?_⟩)
      show (a.workers j).notified = _
      rw [hj]
      rfl
    | _ =>
      refine .inl ?_
      show (a.workers j).notified = _
      rw [hj]
      rfl
  | @notifyOne ph k seen hk h =>
    by_cases hj : j = k
    · subst hj
      exact .inr (.inl ⟨seen, hk, Function.update_self ..⟩)
    · exact .inl (Function.update_of_ne hj ..)
  | _ => exact .inl rfl

end InputStep

namespace ConsoleApp
variable {a b : ConsoleApp}

/-- **The guarded state changes by whole operations.** -/
theorem Step.sched_eq {act : Act} (h : Step a act b) : b.sched = a.sched.run (op? act).toList := by
  cases h with
  | input h => cases h <;> rfl
  | worker hpc h => cases h <;> rfl

/-- A run of the threads performs a run of operations. -/
theorem run_sched_eq {params : Parameters} {labels : List Act}
    (h : (system params).Run a labels b) : b.sched = a.sched.run (labels.filterMap op?) := by
  induction h with
  | nil => rfl
  | @cons a' c b' act labels hstep _ ih =>
    have hsched : c.sched = a'.sched.run (op? act).toList := Step.sched_eq hstep
    rw [ih, hsched, ← Scheduler.run_append]
    cases hop : op? act with
    | none => rw [List.filterMap_cons_none hop]; rfl
    | some op => rw [List.filterMap_cons_some hop]; rfl

end ConsoleApp
end Csopesy
