import Csopesy.ConsoleAppInvariants
import Csopesy.LineEditor

/-! # Waking the worker

The worker sleeps in `wait_for` on the predicate `stop_ || dirty_ || wakeTick_ !=
seen`.  Seen as a condition variable, the application keeps its protocol
(`refines_condVar`), so a blocked worker whose predicate is true has a
notification coming (`notification_coming`).

A start that was accepted and not yet drawn keeps `dirty_` set, so the worker does
not sleep on it and the next tick draws it (`accepted_start_is_painted`).
-/
namespace Csopesy
open Transition

/-- What a blocked worker waits for. -/
def WorkerPc.asleep : WorkerPc → Option Int
  | blocked seen => some seen
  | _ => none

theorem WorkerPc.asleep_eq_some {pc : WorkerPc} {seen : Int} (h : pc.asleep = some seen) :
    pc = .blocked seen := by
  cases pc with
  | blocked s => rw [Option.some.inj h]
  | _ => exact absurd h (by simp [asleep])

namespace ConsoleApp
variable {a b : ConsoleApp}

/-! ## The condition variable -/

/-- The application as a condition variable: the guarded state, the blocked
workers, and a call of the input thread between its update and its notification. -/
def condVar (a : ConsoleApp) : Monitor.CondVar Nat Int Scheduler where
  value := a.sched
  asleep i := (a.workers i).asleep
  pending := a.input.notifies

/-- `wait_for`'s predicate as a condition variable's. -/
def awaits (seen : Int) (s : Scheduler) : Bool := s.waitPredicate seen

theorem asleep_update (a : ConsoleApp) (i : Nat) (pc : WorkerPc) :
    (fun j => (Function.update a.workers i pc j).asleep) =
      Function.update (fun j => (a.workers j).asleep) i pc.asleep :=
  Function.comp_update WorkerPc.asleep a.workers i pc

theorem asleep_update_of_eq {i : Nat} {pc : WorkerPc} (h : pc.asleep = (a.workers i).asleep) :
    (fun j => (Function.update a.workers i pc j).asleep) = fun j => (a.workers j).asleep := by
  rw [asleep_update, h]
  exact Function.update_eq_self ..

theorem asleep_notified (pc : WorkerPc) : pc.notified.asleep = none := by cases pc <;> rfl

theorem condVar_input {act : InputAct} (ha : WellFormed a) (h : InputStep a act b) :
    b.condVar = a.condVar ∨ Monitor.CondVar.Step awaits a.condVar b.condVar := by
  cases h with
  | update h => exact .inr (.update _)
  | @start ph hw h =>
    have hold : WorkerPc.top.asleep = (a.workers a.spawned).asleep := by
      rw [ha.fresh _ (Nat.le_refl _)]
      rfl
    refine .inl ?_
    show Monitor.CondVar.mk a.sched (fun j => (Function.update a.workers a.spawned .top j).asleep)
      false = a.condVar
    unfold condVar
    rw [asleep_update_of_eq hold, h]
    rfl
  | notifyAll hc h =>
    have hasleep : (fun j => (a.workers j).notified.asleep) = fun _ => none :=
      funext fun j => asleep_notified _
    refine .inr ?_
    show Monitor.CondVar.Step awaits a.condVar
      { a.condVar with asleep := fun j => (a.workers j).notified.asleep, pending := false }
    rw [hasleep]
    exact .notifyAll
  | @notifyOne ph j seen hj h =>
    have hone : ∀ k, (a.workers k).asleep ≠ none → k = j := by
      intro k hk
      obtain ⟨seen', hseen'⟩ := Option.ne_none_iff_exists'.mp hk
      exact ha.live_unique (by rw [WorkerPc.asleep_eq_some hseen']; rfl) (by rw [hj]; rfl)
    refine .inr ?_
    show Monitor.CondVar.Step awaits a.condVar { a.condVar with
      asleep := fun k => (Function.update a.workers j (.woken seen false) k).asleep, pending := false }
    rw [asleep_update]
    exact .notifyOne j hone
  | notifyNone hnone h =>
    have hasleep : (fun i => (a.workers i).asleep) = fun _ => none := by
      funext i
      cases hi : (a.workers i).asleep with
      | none => rfl
      | some seen => exact absurd (WorkerPc.asleep_eq_some hi) (hnone i seen)
    refine .inr ?_
    show Monitor.CondVar.Step awaits a.condVar
      { a.condVar with asleep := fun i => (a.workers i).asleep, pending := false }
    rw [hasleep]
    exact .notifyAll
  | draw sz h | skip h | paint hne h | painted h | startAgain hw h | call c hph h
  | lock hmu h | unlock h | join hph hw hi h | joinNothing hph hw h | farewell h | finish h =>
    refine .inl ?_
    unfold condVar
    rw [h]
    rfl

theorem condVar_worker_eq (a : ConsoleApp) (i : Nat) (pc : WorkerPc) (sh : Shared) :
    condVar { a with toShared := sh, workers := Function.update a.workers i pc } =
      { a.condVar with
        value := sh.sched, asleep := Function.update a.condVar.asleep i pc.asleep } := by
  show Monitor.CondVar.mk sh.sched (fun j => (Function.update a.workers i pc j).asleep)
    a.input.notifies = _
  rw [asleep_update]
  rfl

theorem condVar_worker (ha : WellFormed a) {i : Nat} {pc pc' : WorkerPc} {act : WorkerAct}
    {sh : Shared} (hk : Knows a.sched pc) (hpc : a.workers i = pc)
    (h : WorkerStep i a.toShared pc act sh pc') :
    condVar { a with toShared := sh, workers := Function.update a.workers i pc' } = a.condVar ∨
      Monitor.CondVar.Step awaits a.condVar
        (condVar { a with toShared := sh, workers := Function.update a.workers i pc' }) := by
  rw [condVar_worker_eq]
  have hsame : pc'.asleep = pc.asleep →
      Function.update a.condVar.asleep i pc'.asleep = a.condVar.asleep := by
    intro heq
    rw [heq, ← hpc]
    exact Function.update_eq_self ..
  cases h with
  | block => exact .inr (.sleep i _ hk)
  | wake timedOut => exact .inr (.wake i)
  | tick now =>
    rw [hsame rfl]
    refine .inr (.settle _ fun j seen hj _ => ?_)
    -- the worker at its tick is the only one, so nobody is asleep
    have hblocked := WorkerPc.asleep_eq_some hj
    obtain rfl : j = i := ha.live_unique (by rw [hblocked]; rfl) (by rw [hpc]; rfl)
    exact absurd (hpc.symm.trans hblocked) (by simp)
  | lock | exit | enter | pass | refuse | relock | repass | rerefuse | timeout | stop | leave | size
  | lockTick | unlock | skip | write | written =>
    rw [hsame rfl]
    exact .inl rfl

theorem refines_condVar (params : Parameters) :
    LTS.Refines (system params)
      (Monitor.CondVar.system awaits (Scheduler.create params)) condVar where
  init := by
    rintro a rfl
    exact ⟨rfl, fun _ => rfl⟩
  step a act b hr h := by
    have ha := wellFormed params a hr
    have hstep : b.condVar = a.condVar ∨ Monitor.CondVar.Step awaits a.condVar b.condVar := by
      cases h with
      | input h => exact condVar_input ha h
      | worker hpc h => exact condVar_worker ha (hpc ▸ knows params a hr _) hpc h
    rcases hstep with heq | hstep
    · exact .inl heq
    · exact .inr ⟨(), hstep⟩

/-- A blocked worker whose predicate is true has a notification coming. -/
theorem notification_coming (params : Parameters) {a : ConsoleApp}
    (ha : (system params).Reachable a) {i : Nat} {seen : Int} (hi : a.workers i = .blocked seen)
    (hpred : a.sched.waitPredicate seen = true) :
    ∃ ph c, a.input = .updated ph c ∨ a.input = .notifying ph c := by
  have hasleep : (a.workers i).asleep = some seen := by
    rw [hi]
    rfl
  have hpending : a.input.notifies = true :=
    (refines_condVar params).invariant (Monitor.CondVar.not_lost awaits _) a ha i seen hasleep hpred
  cases hinput : a.input with
  | updated ph c => exact ⟨ph, c, .inl rfl⟩
  | notifying ph c => exact ⟨ph, c, .inr rfl⟩
  | _ =>
    rw [hinput] at hpending
    exact absurd hpending Bool.false_ne_true

/-- **No lost wake-up.**  While a worker is blocked and `stop_` or `dirty_` is set or
`wakeTick_` differs from what it captured, the input thread is between an update
and its notification. -/
theorem no_lost_wakeup (params : Parameters) {a : ConsoleApp} (ha : (system params).Reachable a)
    {i : Nat} {seen : Int} (hi : a.workers i = .blocked seen)
    (hp : a.sched.stop = true ∨ a.sched.dirty = true ∨ a.sched.wakeTick ≠ seen) :
    ∃ ph c, a.input = .updated ph c ∨ a.input = .notifying ph c := by
  refine notification_coming params ha hi ?_
  simpa [Scheduler.waitPredicate, or_assoc] using hp

/-- A key posted while the worker sleeps: between the update and the notification
the worker is blocked on a true predicate. -/
theorem no_lost_wakeup_key :
    ∃ a, (system {}).Reachable a ∧ a.workers 0 = .blocked 0 ∧ a.sched.dirty = true ∧
      ∃ ph c, a.input = .updated ph c ∨ a.input = .notifying ph c := by
  obtain ⟨a, ha, hinput, hmu, hsched, -, htop, -⟩ :=
    reachable_looping {} ⟨{}, Size.default_visible⟩
  obtain ⟨b, hb, hblocked, hsched', hmu', hinput', -⟩ :=
    reachable_blocked ha htop hmu (by rw [hsched]; rfl)
  have hzero : a.sched.wakeTick = 0 := by
    rw [hsched]
    rfl
  rw [hzero] at hblocked
  have h1 := hb.step (.input (.call (.postEvent {}) rfl (hinput'.trans hinput)))
  have h2 := h1.step (.input (.lock hmu' rfl))
  have h3 := h2.step (.input (.update rfl))
  exact ⟨_, h3, hblocked, rfl, no_lost_wakeup {} h3 hblocked (.inr (.inl rfl))⟩

/-! ## An accepted start -/

/-- A running process that was never drawn since its start is owed a frame. -/
def StartOwed (s : Scheduler) : Prop :=
  s.proc.state = .running → s.proc.hasRendered = false → s.dirty = true

theorem startOwed (params : Parameters) : (Scheduler.machine params).Invariant StartOwed := by
  refine LTS.Invariant.of_step ?_ ?_
  · rintro s rfl hstate
    exact absurd hstate (by simp [Scheduler.create, Scheduler.proc])
  · rintro s op t - h ⟨hop, rfl⟩
    cases op with
    | postEvent ev => exact fun _ _ => rfl
    | wake => exact h
    | requestStop => exact h
    | tick ev sz now =>
      cases ev with
      | some ev => exact hop.elim
      | none =>
        intro hstate hrendered
        -- a tick draws what is owed, so nothing is owed after it
        have hinterp : (s.exec (.tick none sz now)).1.interp = _ := s.tick_interp sz now
        unfold Scheduler.proc at hstate hrendered
        rw [hinterp] at hstate hrendered
        cases hd : Scheduler.due s.interp now with
        | true =>
          rw [hd] at hrendered
          exact absurd hrendered (by simp [Scheduler.markRendered])
        | false =>
          rw [hd] at hstate hrendered
          have hdue := Scheduler.due_of_not_hasRendered hstate hrendered now
          exact absurd (hd.symm.trans hdue) Bool.false_ne_true

/-- **An accepted start is painted at once.**  While the marquee runs and has not
been drawn since its start: a frame is owed; the predicate of the wait is true,
so no worker is about to block, and one that is blocked has a notification coming;
and the next tick renders, whatever the clock reads. -/
theorem accepted_start_is_painted (params : Parameters) {a : ConsoleApp}
    (ha : (system params).Reachable a) (hstate : a.sched.proc.state = .running)
    (hrendered : a.sched.proc.hasRendered = false) :
    a.sched.dirty = true ∧
    (∀ seen, a.sched.waitPredicate seen = true) ∧
    (∀ i seen, a.workers i ≠ .parking seen) ∧
    (∀ i seen, a.workers i = .blocked seen →
      ∃ ph c, a.input = .updated ph c ∨ a.input = .notifying ph c) ∧
    (∀ sz now, (a.sched.tick none sz now).2.1.rendered = true) := by
  have hdirty := (refines_machine params).invariant (startOwed params) a ha hstate hrendered
  have hpred : ∀ seen, a.sched.waitPredicate seen = true := by
    intro seen
    simp [Scheduler.waitPredicate, hdirty]
  refine ⟨hdirty, hpred, ?_, ?_, ?_⟩
  · intro i seen hi
    have hknows : Knows a.sched (.parking seen) := hi ▸ knows params a ha i
    exact absurd ((hpred seen).symm.trans hknows) (by decide)
  · exact fun i seen hi => notification_coming params ha hi (hpred seen)
  · intro sz now
    rw [Scheduler.tick_rendered]
    exact Scheduler.due_of_not_hasRendered hstate hrendered now

/-- `start_marquee` typed before the worker takes its first step. -/
theorem accepted_start_is_painted_typed :
    ∃ a, (system {}).Reachable a ∧ a.sched.proc.state = .running ∧
      a.sched.proc.hasRendered = false ∧ a.sched.dirty = true ∧
      ∀ sz now, (a.sched.tick none sz now).2.1.rendered = true := by
  obtain ⟨a, ha, -, -, hsched, -⟩ := reachable_typed {}
    (Interpreter.typedLines [ascii "start_marquee"])
  have hstate : a.sched.proc.state = .running := by
    rw [hsched]
    decide
  have hrendered : a.sched.proc.hasRendered = false := by
    rw [hsched]
    decide
  have h := accepted_start_is_painted {} ha hstate hrendered
  exact ⟨a, ha, hstate, hrendered, h.1, h.2.2.2.2⟩

end ConsoleApp
end Csopesy
