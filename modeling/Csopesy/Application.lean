import Csopesy.ConsoleAppInvariants
import Csopesy.Shutdown

/-! # The application as one piece

`ConsoleApp::run` of `src/app/console_app.cpp` from its first line to its return.
`ConsoleApp` leaves open what the input thread posts and when its loop ends; here both
are read off the source.  A round of the loop asks the terminal for an event, posts it,
tests `quit_` without the lock, and reads and clears the shutdown flag.  Behind the loop
come `requestStop`, `join`, the goodbye line, and the destructor of the scheduler, which
stops and joins once more.

The terminal is a state `τ` with its `readEvent`; the handler of a shutdown signal runs
at any moment.  Whatever the terminal delivers, the input thread makes only calls that
`ConsoleApp` allows (`refines_consoleApp`), so what holds of the threads holds here.
-/
namespace Csopesy
open Transition

/-- The call that the input thread is in, with the phase in which it was made. -/
def InputPc.call? : InputPc → Option (Phase × Call)
  | calling ph c | locked ph c | updated ph c | notifying ph c => some (ph, c)
  | start | drawing _ | painting | ready _ | farewell => none

/-- Where the input thread is in `ConsoleApp::run`. -/
inductive LoopPc
  /-- Before the loop: the first frame and `start`. -/
  | opening
  /-- At `readEvent`. -/
  | reading
  /-- In `postEvent`. -/
  | posting
  /-- At `quitRequested`. -/
  | testing
  /-- In `shutdownRequested`, before the read. -/
  | polling
  /-- In `shutdownRequested`, before the store. -/
  | clearing
  /-- In `requestStop`, behind the loop. -/
  | stopping
  | joining
  /-- At the goodbye line. -/
  | leaving
  /-- In `requestStop`, from the destructor. -/
  | destroying
  | rejoining
  | returned
deriving DecidableEq, Repr

namespace ShutdownFlag
variable {s t : ShutdownFlag}

theorem next_deliver (h : s.next .deliver = some t) :
    t.g_shutdownRequested = true ∧ t.requested = s.requested := by
  obtain rfl := Option.some.inj h
  exact ⟨rfl, rfl⟩

theorem next_read (h : s.next .read = some t) :
    t.g_shutdownRequested = s.g_shutdownRequested ∧ t.requested = some s.g_shutdownRequested := by
  obtain ⟨flag, requested, owed⟩ := s
  cases requested with
  | none =>
    obtain rfl := Option.some.inj h
    exact ⟨rfl, rfl⟩
  | some r => exact absurd h (by simp [next])

theorem next_clear (h : s.next .clear = some t) :
    t.g_shutdownRequested = false ∧ t.requested = none := by
  obtain ⟨flag, requested, owed⟩ := s
  cases requested with
  | none => exact absurd h (by simp [next])
  | some r =>
    obtain rfl := Option.some.inj h
    exact ⟨rfl, rfl⟩

end ShutdownFlag

namespace LoopPc

/-- The steps of the input thread that each place of `run` makes, and where they lead. -/
def next : LoopPc → InputAct → Option LoopPc
  | opening, .draw _ | opening, .skip | opening, .paint | opening, .painted => some opening
  | opening, .start => some reading
  | posting, .lock | posting, .update _ | posting, .unlock => some posting
  | posting, .notify _ => some testing
  | stopping, .call .requestStop | stopping, .lock | stopping, .update _ | stopping, .unlock =>
    some stopping
  | stopping, .notify _ => some joining
  | joining, .join => some leaving
  | leaving, .farewell => some leaving
  | leaving, .finish => some destroying
  | destroying, .call .requestStop | destroying, .lock | destroying, .update _
  | destroying, .unlock => some destroying
  | destroying, .notify _ => some rejoining
  | rejoining, .join => some returned
  | _, _ => none

/-- Where the input thread is in the scheduler meanwhile. -/
def At : LoopPc → InputPc → Prop
  | opening, pc => pc.phase = .opened ∧ pc.call? = none
  | reading, pc | testing, pc | polling, pc | clearing, pc => pc = .ready .looping
  | posting, pc => ∃ ev, pc.call? = some (.looping, .postEvent ev)
  | stopping, pc => pc = .ready .looping ∨ pc.call? = some (.looping, .requestStop)
  | joining, pc => pc = .ready .stopping
  | leaving, pc => pc = .ready .joined ∨ pc = .farewell
  | destroying, pc => pc = .ready .closed ∨ pc.call? = some (.closed, .requestStop)
  | rejoining, pc | returned, pc => pc = .ready .closed

/-- The loop is left. -/
def left : LoopPc → Bool
  | stopping | joining | leaving | destroying | rejoining | returned => true
  | _ => false

end LoopPc

/-- The threads, the place of the input thread in `run`, the shutdown flag and the
terminal's input. -/
structure Application (τ : Type) where
  app : ConsoleApp
  loop : LoopPc := .opening
  flag : ShutdownFlag := {}
  term : τ

namespace Application
variable {τ : Type} (readEvent : τ → Option KeyEvent × τ)

inductive Event
  | input (act : InputAct)
  | worker (i : Nat) (act : WorkerAct)
  /-- `readEvent` returns. -/
  | read (ev : Option KeyEvent)
  /-- `quitRequested` returns. -/
  | test (quit : Bool)
  | flag (e : ShutdownFlag.Event)
deriving DecidableEq, Repr

/-- One step of the input thread, of a worker, or of the signal handler. -/
inductive Step : Application τ → Event → Application τ → Prop
  | input {x : Application τ} {b : ConsoleApp} {act : InputAct} {pc : LoopPc}
      (h : InputStep x.app act b) (hnext : x.loop.next act = some pc) :
      Step x (.input act) { x with app := b, loop := pc }
  | worker {x : Application τ} {b : ConsoleApp} {i : Nat} {act : WorkerAct}
      (h : ConsoleApp.Step x.app (.worker i act) b) : Step x (.worker i act) { x with app := b }
  | event {x : Application τ} {b : ConsoleApp} {ev : KeyEvent} {t : τ} (hloop : x.loop = .reading)
      (hread : readEvent x.term = (some ev, t)) (h : InputStep x.app (.call (.postEvent ev)) b) :
      Step x (.read (some ev)) { x with app := b, loop := .posting, term := t }
  | noEvent {x : Application τ} {t : τ} (hloop : x.loop = .reading)
      (hread : readEvent x.term = (none, t)) :
      Step x (.read none) { x with loop := .testing, term := t }
  -- `||` does not call `shutdownRequested` behind a quit
  | quit {x : Application τ} (hloop : x.loop = .testing) (hquit : x.app.sched.interp.quit = true) :
      Step x (.test true) { x with loop := .stopping }
  | noQuit {x : Application τ} (hloop : x.loop = .testing)
      (hquit : x.app.sched.interp.quit = false) : Step x (.test false) { x with loop := .polling }
  | poll {x : Application τ} {flag : ShutdownFlag} (hloop : x.loop = .polling)
      (h : x.flag.next .read = some flag) :
      Step x (.flag .read) { x with flag := flag, loop := .clearing }
  | clear {x : Application τ} {flag : ShutdownFlag} {requested : Bool} (hloop : x.loop = .clearing)
      (hrequested : x.flag.requested = some requested) (h : x.flag.next .clear = some flag) :
      Step x (.flag .clear)
        { x with flag := flag, loop := if requested then .stopping else .reading }
  | signal {x : Application τ} {flag : ShutdownFlag} (h : x.flag.next .deliver = some flag) :
      Step x (.flag .deliver) { x with flag := flag }

/-- `ConsoleApp::run` with the parameters of `main` and a terminal. -/
def system (params : Parameters) (term : τ) : LTS (Application τ) Event where
  init x := x = { app := { sched := Scheduler.create params }, term := term }
  step := Step readEvent

variable {readEvent} {params : Parameters} {term : τ}

/-- **The loop makes only calls that the threads allow.** -/
theorem refines_consoleApp (params : Parameters) (term : τ) :
    LTS.Refines (system readEvent params term) (ConsoleApp.system params) Application.app where
  init := by
    rintro x rfl
    rfl
  step x e y _ h := by
    cases h with
    | input h hnext => exact .inr ⟨_, .input h⟩
    | worker h => exact .inr ⟨_, h⟩
    | event hloop hread h => exact .inr ⟨_, .input h⟩
    | noEvent | quit | noQuit | poll | clear | signal => exact .inl rfl

theorem app_reachable {x : Application τ} (hx : (system readEvent params term).Reachable x) :
    (ConsoleApp.system params).Reachable x.app := (refines_consoleApp params term).reachable hx

/-! ## The place in the loop and the place in the scheduler -/

/-- The steps of the input thread through `run`, outside `readEvent` and the two tests. -/
inductive Moves : LoopPc → InputPc → LoopPc → InputPc → Prop
  | draw (frame : Bytes) : Moves .opening .start .opening (.drawing frame)
  | skip : Moves .opening (.drawing []) .opening (.ready .opened)
  | paint (frame : Bytes) : Moves .opening (.drawing frame) .opening .painting
  | painted : Moves .opening .painting .opening (.ready .opened)
  | start : Moves .opening (.ready .opened) .reading (.ready .looping)
  | lock {pc : LoopPc} (ph : Phase) (c : Call) (h : pc.At (.calling ph c)) :
      Moves pc (.calling ph c) pc (.locked ph c)
  | update {pc : LoopPc} (ph : Phase) (c : Call) (h : pc.At (.locked ph c)) :
      Moves pc (.locked ph c) pc (.updated ph c)
  | unlock {pc : LoopPc} (ph : Phase) (c : Call) (h : pc.At (.updated ph c)) :
      Moves pc (.updated ph c) pc (.notifying ph c)
  | posted (ev : KeyEvent) :
      Moves .posting (.notifying .looping (.postEvent ev)) .testing (.ready .looping)
  | stop : Moves .stopping (.ready .looping) .stopping (.calling .looping .requestStop)
  | stopped : Moves .stopping (.notifying .looping .requestStop) .joining (.ready .stopping)
  | join : Moves .joining (.ready .stopping) .leaving (.ready .joined)
  | farewell : Moves .leaving (.ready .joined) .leaving .farewell
  | finish : Moves .leaving .farewell .destroying (.ready .closed)
  | stopAgain : Moves .destroying (.ready .closed) .destroying (.calling .closed .requestStop)
  | stoppedAgain :
      Moves .destroying (.notifying .closed .requestStop) .rejoining (.ready .closed)
  | joinAgain : Moves .rejoining (.ready .closed) .returned (.ready .closed)

theorem moves {pc pc' : LoopPc} {a b : ConsoleApp} {act : InputAct} (hat : pc.At a.input)
    (h : InputStep a act b) (hnext : pc.next act = some pc') :
    Moves pc a.input pc' b.input := by
  cases pc with
  | opening =>
    cases h with
    | draw sz h | skip h | paint hne h | painted h =>
      obtain rfl := Option.some.inj hnext
      rw [h]
      constructor
    | start hw h | startAgain hw h =>
      obtain rfl := Option.some.inj hnext
      rw [h] at hat ⊢
      obtain rfl : _ = Phase.opened := hat.1
      exact .start
    | _ => exact absurd hnext (by simp [LoopPc.next])
  | posting =>
    cases h with
    | lock hmu h | update h | unlock h =>
      obtain rfl := Option.some.inj hnext
      rw [h] at hat ⊢
      constructor
      exact hat
    | notifyAll hc h =>
      obtain rfl := Option.some.inj hnext
      rw [h] at hat ⊢
      obtain ⟨ev, hcall⟩ := hat
      obtain ⟨rfl, rfl⟩ := Prod.mk.inj (Option.some.inj hcall)
      exact .posted ev
    | notifyOne hj h | notifyNone hnone h =>
      rw [h] at hat
      obtain ⟨ev, hcall⟩ := hat
      exact Call.noConfusion (Prod.mk.inj (Option.some.inj hcall)).2
    | _ => exact absurd hnext (by simp [LoopPc.next])
  | stopping | destroying =>
    cases h with
    | @call ph c hph h =>
      cases c with
      | requestStop =>
        obtain rfl := Option.some.inj hnext
        rw [h] at hat ⊢
        rcases hat with hready | hcall
        · obtain rfl := InputPc.ready.inj hready
          constructor
        · exact absurd hcall (by simp [InputPc.call?])
      | _ => exact absurd hnext (by simp [LoopPc.next])
    | lock hmu h | update h | unlock h =>
      obtain rfl := Option.some.inj hnext
      rw [h] at hat ⊢
      constructor
      exact hat
    | notifyAll hc h | notifyOne hj h | notifyNone hnone h =>
      obtain rfl := Option.some.inj hnext
      rw [h] at hat ⊢
      rcases hat with hready | hcall
      · exact InputPc.noConfusion hready
      · have hcall := Prod.mk.inj (Option.some.inj hcall)
        first
          | (obtain ⟨rfl, rfl⟩ := hcall
             constructor)
          | exact Call.noConfusion hcall.2
    | _ => exact absurd hnext (by simp [LoopPc.next])
  | joining | rejoining =>
    cases h with
    | join hph hw hi h | joinNothing hph hw h =>
      obtain rfl := Option.some.inj hnext
      rw [h] at hat ⊢
      obtain rfl := InputPc.ready.inj hat
      constructor
    | _ => exact absurd hnext (by simp [LoopPc.next])
  | leaving =>
    cases h with
    | farewell h | finish h =>
      obtain rfl := Option.some.inj hnext
      rw [h]
      constructor
    | _ => exact absurd hnext (by simp [LoopPc.next])
  | reading | testing | polling | clearing | returned =>
    cases h <;> exact absurd hnext (by simp [LoopPc.next])

theorem Moves.at_after {pc pc' : LoopPc} {ipc ipc' : InputPc} (h : Moves pc ipc pc' ipc') :
    pc'.At ipc' := by
  cases h with
  | lock ph c h | update ph c h | unlock ph c h =>
    cases pc with
    | opening => exact absurd h.2 (by simp [InputPc.call?])
    | posting => exact h
    | stopping | destroying => exact .inr (h.resolve_left InputPc.noConfusion)
    | leaving => exact (h.elim InputPc.noConfusion InputPc.noConfusion)
    | _ => exact InputPc.noConfusion h
  | draw | skip | paint | painted => exact ⟨rfl, rfl⟩
  | stop | farewell | stopAgain => exact .inr rfl
  | join | finish => exact .inl rfl
  | start | posted | stopped | stoppedAgain | joinAgain => rfl

/-- The place in the loop and the place in the scheduler belong together, and a read of
the flag is open between the two halves of `shutdownRequested`. -/
structure Placed (x : Application τ) : Prop where
  input : x.loop.At x.app.input
  flag : x.flag.requested = none ↔ x.loop ≠ .clearing

theorem next_ne_clearing {pc pc' : LoopPc} {act : InputAct} (h : pc.next act = some pc') :
    pc ≠ .clearing ∧ pc' ≠ .clearing := by
  unfold LoopPc.next at h
  split at h
  all_goals first
    | (obtain rfl := Option.some.inj h
       exact ⟨LoopPc.noConfusion, LoopPc.noConfusion⟩)
    | exact absurd h (by simp)

theorem placed (params : Parameters) (term : τ) :
    (system readEvent params term).Invariant Placed := by
  refine LTS.Invariant.of_step ?_ ?_
  · rintro x rfl
    exact ⟨⟨rfl, rfl⟩, iff_of_true rfl LoopPc.noConfusion⟩
  · rintro x e y - ⟨hinput, hflag⟩ h
    cases h with
    | input h hnext =>
      obtain ⟨hne, hne'⟩ := next_ne_clearing hnext
      exact ⟨(moves hinput h hnext).at_after, iff_of_true (hflag.mpr hne) hne'⟩
    | worker h =>
      refine ⟨?_, hflag⟩
      cases h
      exact hinput
    | event hloop hread h =>
      refine ⟨?_, iff_of_true (hflag.mpr (by rw [hloop]; exact LoopPc.noConfusion))
        LoopPc.noConfusion⟩
      cases h with
      | call c hph h =>
        rw [hloop] at hinput
        obtain rfl := InputPc.ready.inj (h.symm.trans hinput)
        exact ⟨_, rfl⟩
    | noEvent hloop hread | quit hloop hquit | noQuit hloop hquit =>
      rw [hloop] at hinput hflag
      refine ⟨?_, iff_of_true (hflag.mpr LoopPc.noConfusion) LoopPc.noConfusion⟩
      first
        | exact hinput
        | exact .inl hinput
    | poll hloop h =>
      rw [hloop] at hinput
      refine ⟨hinput, iff_of_false ?_ (not_not_intro rfl)⟩
      rw [(ShutdownFlag.next_read h).2]
      exact Option.some_ne_none _
    | @clear flag requested hloop hrequested h =>
      rw [hloop] at hinput
      refine ⟨?_, iff_of_true (ShutdownFlag.next_clear h).2
        (by cases requested <;> exact LoopPc.noConfusion)⟩
      cases requested with
      | true => exact .inl hinput
      | false => exact hinput
    | signal h => exact ⟨hinput, (by rw [(ShutdownFlag.next_deliver h).2]; exact hflag)⟩

end Application
end Csopesy
