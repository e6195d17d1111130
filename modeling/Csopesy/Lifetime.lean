import Csopesy.Main
import Csopesy.Termination

/-! # The terminal outlives the worker

`main` with the application inside it: the guard's constructor, the threads of
`ConsoleApp::run`, the guard's destructor and the end of the terminal, as steps of one system.
Its threads do not ask each other where they are: a worker steps whenever it runs, and a signal
arrives at any moment behind `installShutdownHandlers`.

"The worker must stop before the terminal is restored."  `run` returns behind the join of the
scheduler's destructor, where `worker_` holds no thread (`joined`), and every running worker is
the one it holds.  So all that the application does with the terminal lies between the guard's
two calls, which are then all that `Backend.modes` speaks of (`terminal_outlives_worker`).
-/
namespace Csopesy
open Transition

/-- Only the second join leads to the return. -/
theorem LoopPc.next_returned {pc : LoopPc} {act : InputAct} (h : pc.next act = some .returned) :
    act = .join := by
  unfold LoopPc.next at h
  split at h
  all_goals first
    | rfl
    | exact LoopPc.noConfusion (Option.some.inj h)
    | exact absurd h (by simp)

namespace Application
variable {τ : Type} {readEvent : τ → Option KeyEvent × τ} {params : Parameters} {term : τ}

/-- Behind the return, `worker_` holds no thread. -/
theorem joined (params : Parameters) (term : τ) :
    (system readEvent params term).Invariant fun x => x.loop = .returned →
      x.app.handle = none := by
  refine LTS.Invariant.of_step ?_ ?_
  · rintro x rfl hloop
    exact LoopPc.noConfusion hloop
  · rintro x e y - ih h hloop
    cases h with
    | @input b act pc h hnext =>
      rw [show pc = .returned from hloop] at hnext
      obtain rfl := LoopPc.next_returned hnext
      cases h with
      | join => rfl
      | joinNothing hph hw h => exact hw
    | worker h =>
      have hhandle := ih hloop
      cases h
      exact hhandle
    | event | noEvent | quit | noQuit | poll => exact LoopPc.noConfusion hloop
    | @clear flag requested => cases requested <;> exact LoopPc.noConfusion hloop
    | signal => exact ih hloop

/-- No thread of the application is there: `run` has not begun, or it has returned. -/
def Rests (params : Parameters) (x : Application τ) : Prop :=
  x.app = { sched := Scheduler.create params } ∨ x.loop = .returned

/-- Without the input thread, only signals arrive at an application at rest. -/
theorem Rests.signalled {x y : Application τ} {e : Event}
    (hx : (system readEvent params term).Reachable x) (hrests : x.Rests params)
    (h : Step readEvent x e y) (he : e.ofInput = false) :
    e = .flag .deliver ∧ y.app = x.app ∧ y.loop = x.loop := by
  have hdead : ∀ i, (x.app.workers i).live = false := by
    intro i
    rcases hrests with hcreated | hreturned
    · rw [hcreated]
      rfl
    · by_contra hlive
      have hwf := ConsoleApp.wellFormed params x.app (app_reachable hx)
      have hhandle := hwf.single i (Bool.eq_true_of_not_eq_false hlive)
      rw [joined params term x hx hreturned] at hhandle
      exact absurd hhandle (Option.some_ne_none i).symm
  cases h with
  | @worker b i act h =>
    cases h with
    | worker hpc h =>
      have hlive := h.live
      rw [← hpc, hdead i] at hlive
      exact absurd hlive Bool.false_ne_true
  | signal h => exact ⟨rfl, rfl, rfl⟩
  | input | event | noEvent | quit | noQuit | poll | clear => exact Bool.noConfusion he

end Application

/-! ## The program -/

/-- Where `main` is, on the way to `ConsoleApp::run` with a terminal and back. -/
inductive MainPc
  /-- Before the guard. -/
  | starting
  /-- Behind the guard's `enterRawMode`. -/
  | running
  /-- Behind the guard's `restore`. -/
  | restored
  /-- In the `std::exit` of `fatalStartup`. -/
  | exiting
  | ended
deriving DecidableEq, Repr

/-- Behind the guard, or past it. -/
def MainPc.past : MainPc → Bool
  | starting | running => false
  | restored | exiting | ended => true

structure Program (T τ : Type) where
  pc : MainPc := .starting
  modes : T
  app : Application τ

namespace Program
variable {T E R τ : Type}

inductive Event (E R : Type)
  | enter (answers : E)
  | app (e : Application.Event)
  /-- The guard's destructor. -/
  | restore (answers : R)
  /-- The terminal's destructor. -/
  | destroy (answers : R)
  /-- The exit handlers. -/
  | exit (answers : R)

section
variable (b : Backend T E R) (readEvent : τ → Option KeyEvent × τ)

/-- One step of `main`, of a thread of the application, or of the signal handler. -/
inductive Step : Program T τ → Event E R → Program T τ → Prop
  | enter {x : Program T τ} {t : T} {answers : E} (hpc : x.pc = .starting)
      (h : b.enterRawMode x.modes answers = (t, none)) :
      Step x (.enter answers) { x with pc := .running, modes := t }
  | fail {x : Program T τ} {t : T} {what : Bytes} {answers : E} (hpc : x.pc = .starting)
      (h : b.enterRawMode x.modes answers = (t, some what)) :
      Step x (.enter answers) { x with pc := .exiting, modes := t }
  -- `run` is called by `main`; a worker and the handler are not
  | app {x : Program T τ} {y : Application τ} {e : Application.Event}
      (hpc : e.ofInput = true → x.pc = .running) (h : Application.Step readEvent x.app e y) :
      Step x (.app e) { x with app := y }
  | restore {x : Program T τ} (answers : R) (hpc : x.pc = .running)
      (hloop : x.app.loop = .returned) :
      Step x (.restore answers) { x with pc := .restored, modes := b.restore x.modes answers }
  | destroy {x : Program T τ} (answers : R) (hpc : x.pc = .restored) :
      Step x (.destroy answers) { x with pc := .ended, modes := b.restore x.modes answers }
  | exit {x : Program T τ} (answers : R) (hpc : x.pc = .exiting) :
      Step x (.exit answers)
        { x with pc := .ended, modes := if b.atExit then b.restore x.modes answers else x.modes }

/-- `main` on a terminal in the modes `t`, with the parameters it has read. -/
def system (params : Parameters) (t : T) (term : τ) : LTS (Program T τ) (Event E R) where
  init x := x = { modes := t, app := { app := { sched := Scheduler.create params }, term := term } }
  step := Step b readEvent

end

variable {b : Backend T E R} {readEvent : τ → Option KeyEvent × τ} {params : Parameters} {t : T}
  {term : τ} {x y : Program T τ}

/-- `main` adds nothing to what the application does. -/
theorem refines_application (params : Parameters) (t : T) (term : τ) :
    LTS.Refines (system b readEvent params t term) (Application.system readEvent params term)
      Program.app where
  init := by
    rintro x rfl
    rfl
  step x e y _ h := by
    cases h with
    | app hpc h => exact .inr ⟨_, h⟩
    | enter | fail | restore | destroy | exit => exact .inl rfl

/-- What holds at each place of `main`. -/
def Staged (b : Backend T E R) (params : Parameters) (t : T) (x : Program T τ) : Prop :=
  match x.pc with
  | .starting => x.app.app = { sched := Scheduler.create params } ∧ x.modes = t
  | .running => ∃ enter, b.enterRawMode t enter = (x.modes, none)
  | .restored => x.app.loop = .returned ∧ ∃ enter guard s, b.enterRawMode t enter = (s, none) ∧
      x.modes = b.restore s guard
  | .exiting => x.app.app = { sched := Scheduler.create params } ∧
      ∃ enter what, b.enterRawMode t enter = (x.modes, some what)
  | .ended => x.app.Rests params ∧
      ∃ enter guard destroy exit, x.modes = (b.modes false t enter guard destroy exit).1

/-- Outside the guard the application rests. -/
theorem Staged.rests (h : Staged b params t x) (hpc : x.pc ≠ .running) : x.app.Rests params := by
  unfold Staged at h
  cases heq : x.pc with
  | running => exact absurd heq hpc
  | starting | exiting =>
    rw [heq] at h
    exact .inl h.1
  | restored =>
    rw [heq] at h
    exact .inr h.1
  | ended =>
    rw [heq] at h
    exact h.1

/-- Outside the guard only signals arrive. -/
theorem Staged.signalled {e : Application.Event}
    (hx : (system b readEvent params t term).Reachable x) (h : Staged b params t x)
    (hpc : x.pc ≠ .running) (hstep : Step b readEvent x (.app e) y) :
    e = .flag .deliver ∧ y.pc = x.pc ∧ y.modes = x.modes ∧ y.app.app = x.app.app ∧
      y.app.loop = x.app.loop := by
  cases hstep with
  | app hrun hstep =>
    have he : e.ofInput = false := Bool.eq_false_of_not_eq_true fun he => hpc (hrun he)
    have happ := (refines_application params t term).reachable hx
    obtain ⟨hsignal, hkept, hloop⟩ := (h.rests hpc).signalled happ hstep he
    exact ⟨hsignal, rfl, rfl, hkept, hloop⟩

theorem staged (params : Parameters) (t : T) (term : τ) :
    (system b readEvent params t term).Invariant (Staged b params t) := by
  refine LTS.Invariant.of_step ?_ ?_
  · rintro x rfl
    exact ⟨rfl, rfl⟩
  · intro x e y hx ih h
    cases e with
    | app e =>
      by_cases hpc : x.pc = .running
      · -- the modes are the guard's while the threads run
        cases h with
        | app =>
          unfold Staged at ih ⊢
          rw [hpc] at ih
          rw [show ({ x with app := _ } : Program T τ).pc = .running from hpc]
          exact ih
      · obtain ⟨-, hpc', hmodes, happ, hloop⟩ := ih.signalled hx hpc h
        unfold Staged Application.Rests at ih ⊢
        rw [hpc', hmodes, happ, hloop]
        exact ih
    | enter answers =>
      unfold Staged at ih
      cases h with
      | enter hpc henter =>
        rw [hpc] at ih
        exact ⟨answers, ih.2 ▸ henter⟩
      | fail hpc henter =>
        rw [hpc] at ih
        exact ⟨ih.1, answers, _, ih.2 ▸ henter⟩
    | restore answers =>
      unfold Staged at ih
      cases h with
      | restore _ hpc hloop =>
        rw [hpc] at ih
        obtain ⟨enter, henter⟩ := ih
        exact ⟨hloop, enter, answers, x.modes, henter, rfl⟩
    | destroy answers =>
      unfold Staged at ih
      cases h with
      | destroy _ hpc =>
        rw [hpc] at ih
        obtain ⟨hloop, enter, guard, s, henter, hmodes⟩ := ih
        refine ⟨.inr hloop, enter, guard, answers, answers, ?_⟩
        unfold Backend.modes
        rw [if_neg Bool.false_ne_true, henter]
        exact congrArg (b.restore · answers) hmodes
    | exit answers =>
      unfold Staged at ih
      cases h with
      | exit _ hpc =>
        rw [hpc] at ih
        obtain ⟨hcreated, enter, what, henter⟩ := ih
        refine ⟨.inl hcreated, enter, answers, answers, answers, ?_⟩
        unfold Backend.modes
        rw [if_neg Bool.false_ne_true, henter]

/-- Behind the guard `main` does not go back, and the application keeps its state. -/
theorem past_step {e : Event E R} (hx : (system b readEvent params t term).Reachable x)
    (hpast : x.pc.past = true) (h : Step b readEvent x e y) :
    y.pc.past = true ∧ y.app.app = x.app.app := by
  have hpc : x.pc ≠ .running := by
    intro hpc
    rw [hpc] at hpast
    exact Bool.false_ne_true hpast
  cases e with
  | app e =>
    obtain ⟨-, hpc', -, happ, -⟩ := (staged params t term x hx).signalled hx hpc h
    exact ⟨hpc' ▸ hpast, happ⟩
  | enter answers =>
    cases h with
    | enter hstarting | fail hstarting =>
      rw [hstarting] at hpast
      exact absurd hpast Bool.false_ne_true
  | restore answers =>
    cases h with
    | restore _ hrunning => exact absurd hrunning hpc
  | destroy answers | exit answers =>
    cases h
    exact ⟨rfl, rfl⟩

/-- **The terminal outlives the worker.**  Every step of a thread of the application is made
between the guard's two calls, in the modes `enterRawMode` left; behind them nothing is
read, drawn or written any more; and what the program leaves is what `Backend.modes` says. -/
theorem terminal_outlives_worker (hx : (system b readEvent params t term).Reachable x) :
    (∀ e y, Step b readEvent x (.app e) y → e ≠ .flag .deliver →
      x.pc = .running ∧ ∃ enter, b.enterRawMode t enter = (x.modes, none)) ∧
    (x.pc.past = true → ∀ labels y, (system b readEvent params t term).Run x labels y →
      y.app.app = x.app.app) ∧
    (x.pc = .ended → ∃ enter guard destroy exit,
      x.modes = (b.modes false t enter guard destroy exit).1) := by
  have hstaged := staged params t term x hx
  refine ⟨fun e y h he => ?_, fun hpast labels y hrun => ?_, fun hpc => ?_⟩
  · have hpc : x.pc = .running := by
      by_contra hpc
      exact he (hstaged.signalled hx hpc h).1
    refine ⟨hpc, ?_⟩
    unfold Staged at hstaged
    rw [hpc] at hstaged
    exact hstaged
  · have hkept := hrun.preserves (p := fun _ => True)
      (P := fun z : Program T τ => z.pc.past = true ∧ z.app.app = x.app.app)
      (fun u e z hu _ hpast h => by
        obtain ⟨hpast', happ⟩ := past_step hu hpast.1 h
        exact ⟨hpast', happ.trans hpast.2⟩)
      hx (fun _ _ => trivial) ⟨hpast, rfl⟩
    exact hkept.2
  · unfold Staged at hstaged
    rw [hpc] at hstaged
    exact hstaged.2

/-- The steps of the application are steps of the program behind the guard's `enterRawMode`. -/
theorem app_run {a z : Application τ} {labels : List Application.Event}
    (h : (Application.system readEvent params term).Run a labels z) (s : T) :
    (system b readEvent params t term).Run { pc := .running, modes := s, app := a }
      (labels.map .app) { pc := .running, modes := s, app := z } := by
  induction h with
  | nil a => exact .nil _
  | cons hstep _ ih => exact .cons (.app (fun _ => rfl) hstep) ih

open Application in
/-- Ctrl+D ends the program. -/
theorem restored_run {s : T} {enter : E} (henter : b.enterRawMode t enter = (s, none)) (guard : R) :
    ∃ labels x, (system b scripted {} t [some { type := .eof }]).Run
        { modes := t, app :=
          { app := { sched := Scheduler.create {} }, term := [some { type := .eof }] } } labels x ∧
      x.pc = .restored ∧ x.modes = b.restore s guard := by
  obtain ⟨labels, x, hrun, hloop, hinput, hmu, hquit, -, -, -, hhandle, htop, -⟩ :=
    eof_run scripted [some { type := .eof }] rfl rfl
  obtain ⟨y, hrun', hloop', hinput', hmu', hstop, hhandle', hworkers⟩ :=
    stopping_run {} [some { type := .eof }] hloop hinput hmu hquit
  have htop' : y.app.workers 0 = .top := (hworkers 0).trans (congrArg WorkerPc.notified htop)
  obtain ⟨z, hrun'', hreturned⟩ := returning_run {} [some { type := .eof }] hloop' hinput' hmu'
    hstop (hhandle'.trans hhandle) htop'
  exact ⟨_, _, .cons (.enter rfl henter) <|
    (app_run ((hrun.append hrun').append hrun'') s).append <|
    .cons (.restore guard rfl hreturned) (.nil _), rfl, rfl⟩

/-- Behind Ctrl+D on a Windows console both modes are as before, and the screen stays so. -/
theorem terminal_outlives_worker_eof :
    ∃ x, (system Win32Terminal.backend Application.scripted {} { modeIn := 0x1F7, modeOut := 0x3 }
        [some { type := .eof }]).Reachable x ∧
      x.modes.modeIn = 0x1F7 ∧ x.modes.modeOut = 0x3 ∧
      ∀ labels y, (system Win32Terminal.backend Application.scripted {}
        { modeIn := 0x1F7, modeOut := 0x3 } [some { type := .eof }]).Run x labels y →
        y.app.app.writes = x.app.app.writes := by
  have henter : Win32Terminal.backend.enterRawMode { modeIn := 0x1F7, modeOut := 0x3 }
      ⟨true, true, true, true, true, 0⟩ = (_, none) := rfl
  obtain ⟨labels, x, hrun, hpc, hmodes⟩ := restored_run henter ⟨true, true⟩
  have hx := hrun.reachable (.init rfl)
  refine ⟨x, hx, by rw [hmodes]; rfl, by rw [hmodes]; rfl, fun labels' y hrun' => ?_⟩
  rw [(terminal_outlives_worker hx).2.1 (by rw [hpc]; rfl) labels' y hrun']

end Program
end Csopesy
