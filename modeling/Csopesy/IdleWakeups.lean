import Csopesy.Cadence
import Csopesy.PollTimeout

/-! # Idle wakeups

The timed wait of the worker is there to prevent a busy loop.  `Clocked` adds a clock to the
two threads: it never goes back, `pollTimeoutMsLocked` and `tick` read it, and `wait_for` does
not time out before the time it was given is over.  `lastTick` is bookkeeping: the reading of
the last tick, as long as nothing was requested since.

A tick behind such a tick comes behind a wait that timed out (`idle`).  The wait was cut short
for a deadline only, and then the tick renders; so a tick that neither renders nor follows a
request costs `pollingMs` (`wakeups_bounded`).
-/
namespace Csopesy
open Transition

/-! ## A tick behind a wait -/

/-- A wait that was cut short ends at the deadline: behind it the tick renders. -/
theorem Scheduler.waited_polling {s : Scheduler} (hlo : 1 ≤ s.params.pollingMs)
    (hhi : s.params.pollingMs ≤ 1000) {entered now : Int}
    (hwait : entered + s.pollTimeoutMsLocked entered ≤ now) (hdue : due s.interp now = false) :
    entered + s.params.pollingMs ≤ now := by
  cases hstate : s.proc.state with
  | stopped =>
    have hidle : s.pollTimeoutMsLocked entered = s.params.pollingMs := by
      unfold pollTimeoutMsLocked
      dsimp only
      rw [if_neg (show ¬ s.proc.state = .running by rw [hstate]; decide), if_neg (by omega),
        if_neg (by omega)]
    rwa [hidle] at hwait
  | running =>
    rw [pollTimeoutMsLocked_running hstate hlo hhi] at hwait
    have hlate : ¬ s.proc.lastRenderMs + s.params.refreshMs ≤ now := by
      intro hlate
      have htrue : due s.interp now = true := by
        unfold due
        rw [show s.interp.proc.state = .running from hstate, decide_eq_true rfl, Bool.true_and,
          Bool.or_eq_true, decide_eq_true_eq]
        refine .inr ?_
        change now - s.proc.lastRenderMs ≥ s.params.refreshMs
        omega
      exact Bool.false_ne_true (hdue.symm.trans htrue)
    unfold untilDue at hwait
    split at hwait <;> omega

/-! ## The clock -/

structure Clocked where
  app : ConsoleApp
  time : Int
  /-- When the wait of each worker times out. -/
  waitUntil : Nat → Int
  lastTick : Option Int

namespace Clocked

def isTick : Act → Bool
  | .worker _ (.tick _ _) => true
  | _ => false

/-- A call of `postEvent`, `wake` or `requestStop`. -/
def isRequest : Act → Bool
  | .input (.update _) => true
  | _ => false

/-- One step of one thread, at a moment `now`. -/
inductive Step : Clocked → Act → Clocked → Prop
  | input {x : Clocked} {b : ConsoleApp} {act : InputAct} {now : Int} (hnow : x.time ≤ now)
      (h : InputStep x.app act b) :
      Step x (.input act) { x with
        app := b, time := now, lastTick := if isRequest (.input act) then none else x.lastTick }
  | enter {x : Clocked} {b : ConsoleApp} {i : Nat} {now : Int} (hnow : x.time ≤ now)
      (h : ConsoleApp.Step x.app (.worker i .enter) b) :
      Step x (.worker i .enter) { x with
        app := b, time := now,
        waitUntil := Function.update x.waitUntil i (now + x.app.sched.pollTimeoutMsLocked now) }
  | timeout {x : Clocked} {b : ConsoleApp} {i : Nat} {seen now : Int} (hnow : x.time ≤ now)
      (hwait : x.waitUntil i ≤ now) (h : ConsoleApp.Step x.app (.worker i .wake) b)
      (htimedOut : b.workers i = .woken seen true) :
      Step x (.worker i .wake) { x with app := b, time := now }
  | tick {x : Clocked} {b : ConsoleApp} {i : Nat} {sz : VisibleSize} {now : Int}
      (hnow : x.time ≤ now) (h : ConsoleApp.Step x.app (.worker i (.tick sz now)) b) :
      Step x (.worker i (.tick sz now)) { x with app := b, time := now, lastTick := some now }
  | worker {x : Clocked} {b : ConsoleApp} {i : Nat} {act : WorkerAct} {now : Int}
      (hnow : x.time ≤ now) (hact : act ≠ .enter ∧ ∀ sz now, act ≠ .tick sz now)
      (h : ConsoleApp.Step x.app (.worker i act) b)
      (hwaiting : ∀ seen, x.app.workers i = .blocked seen → b.workers i = .woken seen false) :
      Step x (.worker i act) { x with app := b, time := now }

/-- The threads, watched from any moment on. -/
def system (params : Parameters) : LTS Clocked Act where
  init x := (ConsoleApp.system params).Reachable x.app ∧ x.lastTick = none
  step := Step

variable {params : Parameters} {x y : Clocked}

theorem app_step {act : Act} (h : Step x act y) : ConsoleApp.Step x.app act y.app := by
  cases h with
  | input hnow h => exact .input h
  | enter hnow h | timeout hnow hwait h | tick hnow h | worker hnow hact h => exact h

theorem app_reachable (hx : (system params).Reachable x) :
    (ConsoleApp.system params).Reachable x.app := by
  induction hx with
  | init h => exact h.1
  | step _ h ih => exact ih.step (app_step h)

/-- The clock never goes back. -/
theorem time_le {act : Act} (h : Step x act y) : x.time ≤ y.time := by
  cases h <;> assumption

/-! ## Nothing requested since a tick -/

/-- A wait that was entered behind `t` is over at `deadline`. -/
def Over (s : Scheduler) (t deadline : Int) : Prop :=
  ∃ entered, t ≤ entered ∧ entered + s.pollTimeoutMsLocked entered ≤ deadline

theorem Over.mono {s : Scheduler} {t deadline deadline' : Int} (h : Over s t deadline)
    (hle : deadline ≤ deadline') : Over s t deadline' := by
  obtain ⟨entered, ht, hwait⟩ := h
  exact ⟨entered, ht, hwait.trans hle⟩

/-- What the wait of a worker at `pc` has come to since a tick at `t`, with the scheduler as
the tick left it. -/
def Waited (s : Scheduler) (waitUntil time t : Int) : WorkerPc → Prop
  | .entering seen | .parking seen | .blocked seen | .woken seen false | .rechecking seen =>
    s.waitPredicate seen = false ∧ Over s t waitUntil
  | .woken _ true | .leaving | .stepping | .sized _ | .ticking _ => Over s t time
  | _ => True

theorem Waited.mono {s : Scheduler} {waitUntil time time' t : Int} {pc : WorkerPc}
    (h : Waited s waitUntil time t pc) (hle : time ≤ time') : Waited s waitUntil time' t pc := by
  cases pc with
  | woken seen timedOut =>
    cases timedOut with
    | false => exact h
    | true => exact Over.mono h hle
  | leaving | stepping | sized sz | ticking sz => exact Over.mono h hle
  | _ => exact h

theorem Waited.of_not_live {s : Scheduler} {waitUntil time t : Int} {pc : WorkerPc}
    (h : pc.live = false) : Waited s waitUntil time t pc := by
  cases pc with
  | unborn | exited => trivial
  | _ => exact Bool.noConfusion h

/-- A step of a worker that reads no clock goes on with its wait. -/
theorem Waited.worker {i : Nat} {sh sh' : Shared} {pc pc' : WorkerPc}
    {act : WorkerAct} {waitUntil time t : Int} (h : WorkerStep i sh pc act sh' pc')
    (hwait : Waited sh.sched waitUntil time t pc) (henter : act ≠ .enter)
    (htick : ∀ sz now, act ≠ .tick sz now)
    (hblocked : ∀ seen, pc = .blocked seen → pc' = .woken seen false) :
    Waited sh'.sched waitUntil time t pc' := by
  cases h with
  | enter => exact absurd rfl henter
  | tick now => exact absurd rfl (htick _ now)
  | pass hp | repass hp => exact absurd (hwait.1.symm.trans hp) Bool.false_ne_true
  | wake timedOut =>
    obtain ⟨-, rfl⟩ := WorkerPc.woken.inj (hblocked _ rfl)
    exact hwait
  | refuse | block | relock | rerefuse | timeout | leave | size | lockTick => exact hwait
  | lock | exit | stop | unlock | skip | write | written => trivial

/-- Nothing was requested since the last tick. -/
structure Idle (x : Clocked) (t : Int) : Prop where
  past : t ≤ x.time
  clean : x.app.sched.dirty = false
  waited : ∀ i, Waited x.app.sched (x.waitUntil i) x.time t (x.app.workers i)

namespace Idle
variable {t now : Int} {b : ConsoleApp}

/-- The input thread requests nothing. -/
theorem input {act : InputAct} (h : Idle x t) (hnow : x.time ≤ now) (hstep : InputStep x.app act b)
    (hact : isRequest (.input act) = false) (lastTick : Option Int) :
    Idle { x with app := b, time := now, lastTick := lastTick } t := by
  have hsched : b.sched = x.app.sched := by
    rcases hstep.sched_cases with heq | ⟨ph, c, rfl, -, -⟩
    · exact heq
    · exact Bool.noConfusion hact
  refine ⟨h.past.trans hnow, (congrArg Scheduler.dirty hsched).trans h.clean, fun i => ?_⟩
  show Waited b.sched (x.waitUntil i) now t (b.workers i)
  rw [hsched]
  have hwaited := (h.waited i).mono hnow
  rcases hstep.worker_cases i with heq | ⟨seen, hblocked, hwoken⟩ | ⟨-, -, -, -, htop⟩
  · rw [heq]
    exact hwaited
  · -- a notification that is late finds the predicate false
    rw [hblocked] at hwaited
    rw [hwoken]
    exact hwaited
  · rw [htop]
    trivial

theorem enter {i : Nat} (h : Idle x t) (hnow : x.time ≤ now)
    (hstep : ConsoleApp.Step x.app (.worker i .enter) b) :
    Idle { x with
      app := b, time := now,
      waitUntil := Function.update x.waitUntil i (now + x.app.sched.pollTimeoutMsLocked now) }
      t := by
  cases hstep with
  | worker hpc hstep =>
    cases hstep with
    | enter hstop =>
      refine ⟨h.past.trans hnow, h.clean, fun j => ?_⟩
      by_cases hj : j = i
      · subst hj
        dsimp only
        rw [Function.update_self, Function.update_self]
        refine ⟨?_, now, h.past.trans hnow, Int.le_refl _⟩
        unfold Scheduler.waitPredicate
        rw [hstop, h.clean]
        simp
      · dsimp only
        rw [Function.update_of_ne hj, Function.update_of_ne hj]
        exact (h.waited j).mono hnow

theorem timeout {i : Nat} {seen : Int} (h : Idle x t) (hnow : x.time ≤ now)
    (hwait : x.waitUntil i ≤ now) (hstep : ConsoleApp.Step x.app (.worker i .wake) b)
    (htimedOut : b.workers i = .woken seen true) : Idle { x with app := b, time := now } t := by
  cases hstep with
  | worker hpc hstep =>
    cases hstep with
    | wake timedOut =>
      refine ⟨h.past.trans hnow, h.clean, fun j => ?_⟩
      by_cases hj : j = i
      · subst hj
        have hwaited := h.waited j
        rw [hpc] at hwaited
        show Waited x.app.sched (x.waitUntil j) now t _
        rw [htimedOut]
        exact hwaited.2.mono hwait
      · dsimp only
        rw [Function.update_of_ne hj]
        exact (h.waited j).mono hnow

theorem worker {i : Nat} {act : WorkerAct} (h : Idle x t) (hnow : x.time ≤ now)
    (hact : act ≠ .enter ∧ ∀ sz now, act ≠ .tick sz now)
    (hstep : ConsoleApp.Step x.app (.worker i act) b)
    (hwaiting : ∀ seen, x.app.workers i = .blocked seen → b.workers i = .woken seen false) :
    Idle { x with app := b, time := now } t := by
  cases hstep with
  | @worker _ pc pc' _ sh hpc hstep =>
    have hsched : sh.sched = x.app.sched := by
      rcases hstep.sched_cases with heq | ⟨sz, now', rfl, -, -, -⟩
      · exact heq
      · exact absurd rfl (hact.2 sz now')
    refine ⟨h.past.trans hnow, (congrArg Scheduler.dirty hsched).trans h.clean, fun j => ?_⟩
    by_cases hj : j = i
    · subst hj
      have hwaited := h.waited j
      rw [hpc] at hwaited
      dsimp only at hwaiting ⊢
      rw [Function.update_self, hpc] at hwaiting
      rw [Function.update_self]
      exact (Waited.worker hstep hwaited hact.1 hact.2 hwaiting).mono hnow
    · dsimp only
      rw [Function.update_of_ne hj, hsched]
      exact (h.waited j).mono hnow

end Idle

/-- Behind a tick the flag is clear, and no other worker waits. -/
theorem idle_tick {i : Nat} {sz : VisibleSize} {now : Int} {b : ConsoleApp}
    (hwf : ConsoleApp.WellFormed x.app)
    (hstep : ConsoleApp.Step x.app (.worker i (.tick sz now)) b) :
    Idle { x with app := b, time := now, lastTick := some now } now := by
  cases hstep with
  | worker hpc hstep =>
    cases hstep with
    | tick =>
      refine ⟨Int.le_refl _, ?_, fun j => ?_⟩
      · rcases x.app.sched.tickLocked_cases sz.1 now with ⟨-, heq⟩ | ⟨-, -, heq⟩ | ⟨-, hd, heq⟩
        · exact congrArg (fun r => r.1.dirty) heq
        · exact congrArg (fun r => r.1.dirty) heq
        · exact (congrArg (fun r => r.1.dirty) heq).trans hd
      · by_cases hj : j = i
        · subst hj
          dsimp only
          rw [Function.update_self]
          trivial
        · refine Waited.of_not_live ?_
          dsimp only
          rw [Function.update_of_ne hj]
          by_contra hlive
          have hlive' : (x.app.workers i).live = true := by
            rw [hpc]
            rfl
          exact hj (hwf.live_unique (Bool.eq_true_of_not_eq_false hlive) hlive')

/-- **A tick behind a tick comes behind a wait that timed out.** -/
theorem idle (params : Parameters) :
    (system params).Invariant fun x => ∀ t ∈ x.lastTick, Idle x t := by
  refine LTS.Invariant.of_step ?_ ?_
  · intro x hx t ht
    rw [hx.2] at ht
    exact absurd ht (Option.not_mem_none t)
  · intro x act y hx ih h t ht
    cases h with
    | @input b act now hnow h =>
      cases hact : isRequest (.input act) with
      | true =>
        dsimp only at ht
        rw [hact, if_pos rfl] at ht
        exact absurd ht (Option.not_mem_none t)
      | false =>
        dsimp only at ht
        rw [hact, if_neg Bool.false_ne_true] at ht
        exact (ih t ht).input hnow h hact _
    | enter hnow h => exact (ih t ht).enter hnow h
    | timeout hnow hwait h htimedOut => exact (ih t ht).timeout hnow hwait h htimedOut
    | tick hnow h =>
      obtain rfl := Option.some.inj ht
      exact idle_tick (ConsoleApp.wellFormed params _ (app_reachable hx)) h
    | worker hnow hact h hwaiting => exact (ih t ht).worker hnow hact h hwaiting

/-! ## What the ticks cost -/

/-- The frames rendered so far. -/
def cycles (x : Clocked) : Int := x.app.sched.proc.cycles

/-- A step counts a frame when it is a tick that is due, and else none. -/
theorem cycles_cases {a b : ConsoleApp} {act : Act} (h : ConsoleApp.Step a act b) :
    (isTick act = true ∧ b.sched.proc.cycles = a.sched.proc.cycles + 1) ∨
    (b.sched.proc.cycles = a.sched.proc.cycles ∧ ∀ i sz now, act = .worker i (.tick sz now) →
      Scheduler.due a.sched.interp now = false) := by
  have hsched := h.sched_eq
  cases hop : ConsoleApp.op? act with
  | none =>
    rw [hop] at hsched
    refine .inr ⟨by rw [hsched]; rfl, ?_⟩
    rintro i sz now rfl
    exact absurd hop (Option.some_ne_none _)
  | some op =>
    rw [hop] at hsched
    have hexec : b.sched = (a.sched.exec op).1 := hsched
    obtain ⟨c, rfl, rfl⟩ | ⟨i, sz, now, rfl, rfl⟩ := ConsoleApp.op?_cases hop
    · refine .inr ⟨?_, fun i sz now hact => Act.noConfusion hact⟩
      rcases a.sched.exec_proc (ConsoleApp.op?_threaded hop) with ⟨_, _, htick, -⟩ | ⟨-, hproc⟩
      · cases c <;> exact Scheduler.Op.noConfusion htick
      · rw [hexec]
        generalize (a.sched.exec c.op).1.proc = proc at hproc
        cases hproc <;> rfl
    · have hproc := a.sched.tick_proc sz.1 now
      have hrenders : a.sched.renders (.tick none sz.1 now) = _ := a.sched.tick_rendered sz.1 now
      have htick : b.sched.proc = (a.sched.tick none sz.1 now).1.proc := by
        rw [hexec]
        rfl
      rw [hrenders] at hproc
      cases hdue : Scheduler.due a.sched.interp now with
      | true =>
        rw [hdue, if_pos rfl] at hproc
        exact .inl ⟨rfl, by rw [htick, hproc]⟩
      | false =>
        rw [hdue, if_neg Bool.false_ne_true] at hproc
        refine .inr ⟨by rw [htick, hproc], ?_⟩
        rintro j sz' now' hact
        obtain ⟨-, hact⟩ := Act.worker.inj hact
        obtain ⟨-, rfl⟩ := WorkerAct.tick.inj hact
        exact hdue

/-- Of `n` ticks that neither rendered nor followed a request all but the first are paid for. -/
def Paid (p start n : Int) (x : Clocked) : Prop :=
  match x.lastTick with
  | none => p * n ≤ x.time - start
  | some t => p * (n - 1) ≤ t - start

theorem Paid.weaken {p start n m : Int} (hp : 0 ≤ p) (h : Paid p start n x) (hle : m ≤ n) :
    Paid p start m x := by
  unfold Paid at h ⊢
  split at h
  · have hless : p * m ≤ p * n := Int.mul_le_mul_of_nonneg_left hle hp
    exact hless.trans h
  · have hless : p * (m - 1) ≤ p * (n - 1) := Int.mul_le_mul_of_nonneg_left (by omega) hp
    exact hless.trans h

/-- Later, without a tick or a request. -/
theorem Paid.later {p start n : Int} (h : Paid p start n x) (hle : x.time ≤ y.time)
    (hsame : y.lastTick = x.lastTick) : Paid p start n y := by
  unfold Paid at h ⊢
  rw [hsame]
  cases hlast : x.lastTick with
  | none =>
    rw [hlast] at h
    dsimp only at h ⊢
    omega
  | some t =>
    rw [hlast] at h
    exact h

/-- What is paid for behind a tick is paid for in all. -/
theorem Paid.total {p start n : Int} (hp : 0 ≤ p) (h : Paid p start n x)
    (hidle : ∀ t ∈ x.lastTick, Idle x t) : p * (n - 1) ≤ x.time - start := by
  unfold Paid at h
  cases hlast : x.lastTick with
  | none =>
    rw [hlast] at h
    have hless : p * (n - 1) ≤ p * n := Int.mul_le_mul_of_nonneg_left (by omega) hp
    exact hless.trans h
  | some t =>
    rw [hlast] at h
    have hpast := (hidle t hlast).past
    exact h.trans (by omega)

/-- **One tick.**  It renders, or it is the first behind a request, or it has waited. -/
theorem Paid.tick {p start n : Int} (hp : 1 ≤ p ∧ p ≤ 1000)
    (hpolling : x.app.sched.params.pollingMs = p) (hidle : ∀ t ∈ x.lastTick, Idle x t)
    (h : Paid p start n x) {b : ConsoleApp} {i : Nat} {sz : VisibleSize} {now : Int}
    (hnow : x.time ≤ now) (hstep : ConsoleApp.Step x.app (.worker i (.tick sz now)) b) :
    Paid p start (n + 1 - (b.sched.proc.cycles - x.app.sched.proc.cycles))
      { x with app := b, time := now, lastTick := some now } := by
  have htotal := h.total (by omega) hidle
  show p * (n + 1 - (b.sched.proc.cycles - x.app.sched.proc.cycles) - 1) ≤ now - start
  rcases cycles_cases hstep with ⟨-, hcycles⟩ | ⟨hcycles, hdue⟩
  · have hcount : n + 1 - (b.sched.proc.cycles - x.app.sched.proc.cycles) - 1 = n - 1 := by omega
    rw [hcount]
    omega
  · have hcount : n + 1 - (b.sched.proc.cycles - x.app.sched.proc.cycles) - 1 = n := by omega
    rw [hcount]
    unfold Paid at h
    cases hlast : x.lastTick with
    | none =>
      rw [hlast] at h
      exact h.trans (by omega)
    | some t =>
      rw [hlast] at h
      have hover : Over x.app.sched t x.time := by
        have hwaited := (hidle t hlast).waited i
        cases hstep with
        | worker hpc hstep =>
          cases hstep with
          | tick =>
            rw [hpc] at hwaited
            exact hwaited
      obtain ⟨entered, ht, hwait⟩ := hover.mono hnow
      have hlate := Scheduler.waited_polling (by omega) (by omega) hwait (hdue i sz now rfl)
      have hmul : p * n = p * (n - 1) + p := by ring
      rw [hmul]
      have hpaid : p * (n - 1) ≤ t - start := h
      omega

theorem Paid.step {p start n : Int} {act : Act} (hp : 1 ≤ p ∧ p ≤ 1000)
    (hpolling : x.app.sched.params.pollingMs = p) (hidle : ∀ t ∈ x.lastTick, Idle x t)
    (h : Paid p start n x) (hstep : Step x act y) :
    Paid p start (n + (if isTick act then 1 else 0) - (y.cycles - x.cycles) -
      (if isRequest act then 1 else 0)) y := by
  have hcycles (hact : isTick act = false) : y.cycles = x.cycles := by
    rcases cycles_cases (app_step hstep) with ⟨htick, -⟩ | ⟨heq, -⟩
    · exact absurd (hact.symm.trans htick) Bool.false_ne_true
    · exact heq
  have hother (hact : isTick act = false) (hrequest : isRequest act = false)
      (hlast : y.lastTick = x.lastTick) :
      Paid p start (n + (if isTick act then 1 else 0) - (y.cycles - x.cycles) -
        (if isRequest act then 1 else 0)) y := by
    rw [hcycles hact, hact, hrequest, if_neg Bool.false_ne_true, Int.sub_self, Int.add_zero,
      Int.sub_zero, Int.sub_zero]
    exact h.later (time_le hstep) hlast
  have hasked (hact : isTick act = false) (hrequest : isRequest act = true)
      (hlast : y.lastTick = none) :
      Paid p start (n + (if isTick act then 1 else 0) - (y.cycles - x.cycles) -
        (if isRequest act then 1 else 0)) y := by
    have htotal := h.total (by omega) hidle
    rw [hcycles hact, hact, hrequest, if_neg Bool.false_ne_true, if_pos rfl, Int.sub_self,
      Int.add_zero, Int.sub_zero]
    unfold Paid
    rw [hlast]
    exact htotal.trans (Int.sub_le_sub_right (time_le hstep) start)
  cases hstep with
  | @input b act now hnow hstep =>
    rcases Bool.eq_false_or_eq_true (isRequest (.input act)) with hact | hact
    · exact hasked rfl hact (if_pos hact)
    · exact hother rfl hact (if_neg (ne_true_of_eq_false hact))
  | enter | timeout => exact hother rfl rfl rfl
  | tick hnow hstep =>
    have hpaid := h.tick hp hpolling hidle hnow hstep
    exact hpaid.weaken (by omega) (Int.le_of_eq (Int.sub_zero _))
  | @worker b i act now hnow hact hstep hwaiting =>
    refine hother ?_ rfl rfl
    cases act with
    | tick sz now => exact absurd rfl (hact.2 sz now)
    | _ => rfl

/-- **`pollingMs` bounds the idle wakeups.**  In whatever order the threads step, and from
whatever moment on: of the ticks of the worker, those beyond the first, one for each rendered
frame and one for each request take `pollingMs` milliseconds each. -/
theorem wakeups_bounded (args : List Bytes) (configPath : Bytes) (content : Option Bytes)
    {labels : List Act} (hx : (system (Cli.parseCli args configPath content).params).init x)
    (hrun : (system (Cli.parseCli args configPath content).params).Run x labels y) :
    (Cli.parseCli args configPath content).params.pollingMs *
        (labels.countP isTick - (y.cycles - x.cycles) - labels.countP isRequest - 1) ≤
      y.time - x.time := by
  have hp := (parseCli_valid args configPath content).polling
  generalize hparams : (Cli.parseCli args configPath content).params = params at hx hrun hp ⊢
  have hpolling : ∀ z, (system params).Reachable z →
      z.app.sched.params.pollingMs = params.pollingMs := by
    subst hparams
    intro z hz
    exact (ConsoleApp.sched_valid args configPath content z.app (app_reachable hz)).params.kept.1
  have hpaid := hrun.preserves_labels
    (I := fun as z => Paid params.pollingMs x.time
      (as.countP isTick - (z.cycles - x.cycles) - as.countP isRequest) z)
    (fun as z act u hz h hstep => ?_) [] (.init hx) ?_
  · have hlast := hpaid.total (by omega) (idle params y (hrun.reachable (.init hx)))
    exact hlast
  · have hnext := h.step hp (hpolling z hz) (idle params z hz) hstep
    refine hnext.weaken (by omega) (Int.le_of_eq ?_)
    rw [List.countP_append, List.countP_append, List.countP_singleton, List.countP_singleton]
    push_cast
    ring
  · unfold Paid
    rw [hx.2]
    simp

/-! ## Runs that exist -/

/-- A worker that reads no clock and is not asleep steps at once. -/
theorem steps_at_once {i : Nat} {pc pc' : WorkerPc} {act : WorkerAct} {sh : Shared}
    (hpc : x.app.workers i = pc) (h : WorkerStep i x.app.toShared pc act sh pc')
    (hact : act ≠ .enter ∧ ∀ sz now, act ≠ .tick sz now) (hawake : ∀ seen, pc ≠ .blocked seen) :
    Step x (.worker i act) { x with
      app := { x.app with toShared := sh, workers := Function.update x.app.workers i pc' } } :=
  .worker (Int.le_refl x.time) hact (.worker hpc h) fun seen hseen =>
    absurd (hpc.symm.trans hseen) (hawake seen)

variable (params) in
/-- A round of the worker with nothing to do. -/
theorem idle_round {i : Nat} (entered now : Int) (sz : VisibleSize)
    (htop : x.app.workers i = .top) (hmu : x.app.mu = none) (hstop : x.app.sched.stop = false)
    (hdirty : x.app.sched.dirty = false) (hdue : Scheduler.due x.app.sched.interp now = false)
    (hentered : x.time ≤ entered)
    (hwait : entered + x.app.sched.pollTimeoutMsLocked entered ≤ now) (hle : entered ≤ now) :
    ∃ y, (system params).Run x [.worker i .lock, .worker i .enter, .worker i .test,
        .worker i .block, .worker i .wake, .worker i .lock, .worker i .leave, .worker i (.size sz),
        .worker i .lock, .worker i (.tick sz now), .worker i .unlock, .worker i .skip] y ∧
      y.app.workers i = .top ∧ y.app.mu = none ∧ y.app.sched = x.app.sched ∧ y.time = now := by
  have hpred : x.app.sched.waitPredicate x.app.sched.wakeTick = false := by
    unfold Scheduler.waitPredicate
    rw [hstop, hdirty]
    simp
  have htick : x.app.sched.tickLocked none sz.1 now = (x.app.sched, {}, []) := by
    rcases x.app.sched.tickLocked_cases sz.1 now with ⟨hd, -⟩ | ⟨-, hd, -⟩ | ⟨-, -, heq⟩
    · exact absurd (hdue.symm.trans hd) Bool.false_ne_true
    · exact absurd (hdirty.symm.trans hd) Bool.false_ne_true
    · exact heq
  have hself {workers : Nat → WorkerPc} {pc : WorkerPc} : Function.update workers i pc i = pc :=
    Function.update_self ..
  refine ⟨_, .cons (steps_at_once htop (.lock hmu) (by simp) (by simp)) <|
    .cons (.enter hentered (.worker hself (.enter hstop))) <|
    .cons (steps_at_once hself (.refuse hpred) (by simp) (by simp)) <|
    .cons (steps_at_once hself .block (by simp) (by simp)) <|
    .cons (.timeout hle (by dsimp only; rw [Function.update_self]; exact hwait)
      (.worker hself (.wake true)) hself) <|
    .cons (steps_at_once hself (.timeout rfl) (by simp) (by simp)) <|
    .cons (steps_at_once hself (.leave hstop) (by simp) (by simp)) <|
    .cons (steps_at_once hself (.size sz) (by simp) (by simp)) <|
    .cons (steps_at_once hself (.lockTick rfl) (by simp) (by simp)) <|
    .cons (.tick (Int.le_refl _) (.worker hself (.tick now))) <|
    .cons (steps_at_once hself .unlock (by simp) (by simp)) <|
    .cons (steps_at_once (by dsimp only; rw [htick]; exact hself) .skip (by simp) (by simp))
      (.nil _),
    hself, rfl, ?_, rfl⟩
  exact congrArg Prod.fst htick

/-- Two idle wakeups take at least one `pollingMs`; here they take two. -/
theorem wakeups_bounded_idle : ∃ x labels y, (system {}).Run x labels y ∧
    labels.countP isTick = 2 ∧ y.time - x.time = 20 ∧
      10 * (labels.countP isTick - (y.cycles - x.cycles) - labels.countP isRequest - 1) ≤
        y.time - x.time := by
  have hdefault : (Cli.parseCli [] [] none).params = {} := rfl
  obtain ⟨a, ha, -, hmu, hsched, -, htop, -⟩ :=
    ConsoleApp.reachable_looping {} ⟨{}, Size.default_visible⟩
  let x : Clocked := { app := a, time := 0, waitUntil := fun _ => 0, lastTick := none }
  have hx : (system {}).init x := ⟨ha, rfl⟩
  obtain ⟨y, hrun, htop', hmu', hsched', htime⟩ := idle_round (x := x) {} 0 10
    ⟨{}, Size.default_visible⟩ htop hmu (by rw [hsched]; rfl) (by rw [hsched]; rfl)
    (by rw [hsched]; rfl) (Int.le_refl 0) (by rw [hsched]; decide) (by decide)
  have hsame : y.app.sched = Scheduler.create {} := hsched'.trans hsched
  obtain ⟨z, hrun', -, -, hsched'', htime'⟩ := idle_round {} 10 20
    ⟨{}, Size.default_visible⟩ htop' hmu' (by rw [hsame]; rfl) (by rw [hsame]; rfl)
    (by rw [hsame]; rfl) (by rw [htime]) (by rw [hsame]; decide) (by decide)
  refine ⟨x, _, z, hrun.append hrun', by decide, by rw [htime']; rfl, ?_⟩
  exact wakeups_bounded [] [] none (hdefault ▸ hx) (hdefault ▸ hrun.append hrun')

end Clocked
end Csopesy
