import Csopesy.ConsoleAppInvariants

/-! # Wakes

A waiting worker has captured `wakeTick_`, which counts the `wake` calls and never
falls, so a `wake` during the wait makes its predicate true for good
(`wake_reaches_wait`).

`run` captures `wakeTick_` again at the top of each turn, so a `wake` that lands
between a tick and the next wait is not seen: that wait is entered with a true
predicate exactly when a key event was posted in the same interval
(`wait_entered_iff`).
-/
namespace Csopesy
open Transition
open Scheduler (Op)

/-- The value of `wakeTick_` that a waiting worker has captured. -/
def WorkerPc.captured : WorkerPc → Option Int
  | entering seen | parking seen | blocked seen | woken seen _ | rechecking seen => some seen
  | _ => none

/-- A worker captures the value that `wakeTick_` has when it begins to wait, and
keeps it. -/
theorem WorkerStep.captured_cases {i : Nat} {sh sh' : Shared} {pc pc' : WorkerPc} {act : WorkerAct}
    (h : WorkerStep i sh pc act sh' pc') {seen : Int} (hseen : pc'.captured = some seen) :
    seen = sh'.sched.wakeTick ∨ pc.captured = some seen := by
  cases h with
  | enter hstop => exact .inl (Option.some.inj hseen).symm
  | refuse | block | wake | relock | rerefuse => exact .inr hseen
  | _ => exact absurd hseen (by simp [WorkerPc.captured])

namespace ConsoleApp
variable {a b : ConsoleApp}

/-! ## Wakes during a wait -/

/-- `wakeTick_` counts the `wake` calls. -/
theorem run_wakeTick {ops : List Op} (hthreaded : ∀ op ∈ ops, op.Threaded) (s : Scheduler) :
    (s.run ops).wakeTick = s.wakeTick + ops.count .wake := by
  induction ops generalizing s with
  | nil => simp
  | cons op ops ih =>
    rw [Scheduler.run_cons, ih (fun o ho => hthreaded o (List.mem_cons_of_mem _ ho)),
      List.count_cons]
    cases op with
    | wake =>
      have hwake : (s.exec .wake).1.wakeTick = s.wakeTick + 1 := rfl
      rw [hwake, if_pos (beq_self_eq_true Op.wake)]
      omega
    | postEvent ev | requestStop => rfl
    | tick ev sz now =>
      cases ev with
      | some ev => exact (hthreaded _ List.mem_cons_self).elim
      | none =>
        have htick : (s.exec (.tick none sz now)).1.wakeTick = s.wakeTick :=
          (s.tickLocked_flags sz now).2
        rw [htick]
        rfl

theorem ops_threaded {labels : List Act} {op : Op} (hop : op ∈ labels.filterMap op?) :
    op.Threaded := by
  obtain ⟨act, -, hact⟩ := List.mem_filterMap.mp hop
  exact op?_threaded hact

/-- Along a run of the threads, too. -/
theorem run_wakeTick_eq {params : Parameters} {labels : List Act}
    (hrun : (system params).Run a labels b) :
    b.sched.wakeTick = a.sched.wakeTick + (labels.filterMap op?).count .wake := by
  rw [run_sched_eq hrun]
  exact run_wakeTick (fun op hop => ops_threaded hop) _

/-- A waiting worker has captured a value that `wakeTick_` had. -/
theorem captured_le (params : Parameters) : (system params).Invariant
    (fun a => ∀ i seen, (a.workers i).captured = some seen → seen ≤ a.sched.wakeTick) := by
  refine LTS.Invariant.of_step ?_ ?_
  · rintro a rfl i seen hi
    exact absurd hi (by simp [WorkerPc.captured])
  · intro a act b hr hle hstep i seen hi
    have hgrows : a.sched.wakeTick ≤ b.sched.wakeTick := by
      have hcount := run_wakeTick_eq (LTS.Run.cons (S := system params) hstep (.nil b))
      omega
    cases hstep with
    | input h =>
      obtain heq | ⟨seen', hblocked, hwoken⟩ | ⟨-, -, -, -, htop⟩ := h.worker_cases i
      · rw [heq] at hi
        exact (hle i seen hi).trans hgrows
      · -- a woken worker keeps what it captured
        rw [hwoken] at hi
        refine (hle i seen ?_).trans hgrows
        rw [hblocked]
        exact hi
      · rw [htop] at hi
        exact absurd hi (by simp [WorkerPc.captured])
    | @worker j pc pc' act sh hpc h =>
      have hi' : (Function.update a.workers j pc' i).captured = some seen := hi
      by_cases hij : i = j
      · subst hij
        rw [Function.update_self] at hi'
        obtain hfresh | hold := h.captured_cases hi'
        · exact Int.le_of_eq hfresh
        · exact (hle i seen (hpc ▸ hold)).trans hgrows
      · rw [Function.update_of_ne hij] at hi'
        exact (hle i seen hi').trans hgrows

/-- **A `wake` during a wait is not dropped.**  Once a worker has captured
`wakeTick_`, a `wake` makes the predicate of that wait true for good. -/
theorem wake_reaches_wait (params : Parameters) {i : Nat} {seen : Int} {labels : List Act}
    (ha : (system params).Reachable a) (hi : (a.workers i).captured = some seen)
    (hrun : (system params).Run a labels b) (hwake : .input (.update .wake) ∈ labels) :
    b.sched.waitPredicate seen = true := by
  have hle : seen ≤ a.sched.wakeTick := captured_le params a ha i seen hi
  have hop : Op.wake ∈ labels.filterMap op? := List.mem_filterMap.mpr ⟨_, hwake, rfl⟩
  have hcount := List.count_pos_iff.mpr hop
  have htick := run_wakeTick_eq hrun
  have hne : b.sched.wakeTick ≠ seen := by omega
  simp [Scheduler.waitPredicate, hne]

/-! ## Wakes between a tick and the next wait -/

/-- Outside ticks, `dirty_` is set by posted events and by nothing else. -/
theorem run_dirty_iff {ops : List Op} (hops : ∀ sz now, Op.tick none sz now ∉ ops)
    (hthreaded : ∀ op ∈ ops, op.Threaded) (s : Scheduler) :
    (s.run ops).dirty = true ↔ s.dirty = true ∨ ∃ ev, Op.postEvent ev ∈ ops := by
  induction ops generalizing s with
  | nil => simp
  | cons op ops ih =>
    have htick : ∀ sz now, op ≠ .tick none sz now :=
      fun sz now h => hops sz now (h ▸ List.mem_cons_self)
    rw [Scheduler.run_cons, ih (fun sz now h => hops sz now (List.mem_cons_of_mem _ h))
      (fun o ho => hthreaded o (List.mem_cons_of_mem _ ho))]
    cases op with
    | postEvent ev => simp [Scheduler.exec, Scheduler.postEvent]
    | wake => simp [Scheduler.exec, Scheduler.wake]
    | requestStop => simp [Scheduler.exec, Scheduler.requestStop]
    | tick ev sz now =>
      cases ev with
      | some ev => exact (hthreaded _ List.mem_cons_self).elim
      | none => exact absurd rfl (htick sz now)

theorem postEvent_mem_iff {labels : List Act} {ev : KeyEvent} :
    Op.postEvent ev ∈ labels.filterMap op? ↔ Act.input (.update (.postEvent ev)) ∈ labels := by
  rw [List.mem_filterMap]
  constructor
  · rintro ⟨act, hact, hop⟩
    obtain ⟨c, rfl, hc⟩ | ⟨i, sz, now, -, htick⟩ := op?_cases hop
    · cases c with
      | postEvent ev' =>
        obtain rfl := Op.postEvent.inj hc
        exact hact
      | wake | requestStop => exact absurd hc (by simp [Call.op])
    · exact absurd htick (by simp)
  · exact fun h => ⟨_, h, rfl⟩

/-- **What a wait is entered with.**  Between the locked section of a tick and the
next time a worker enters its wait, with no other tick in between and however many
`wake` calls completed: the predicate is true exactly when a key event was posted
there. -/
theorem wait_entered_iff (params : Parameters) {a b c : ConsoleApp} {i j : Nat} {sz : VisibleSize}
    {now seen : Int} {labels : List Act} (ha : (system params).Reachable a)
    (htick : Step a (.worker j (.tick sz now)) b) (hrun : (system params).Run b labels c)
    (hlatest : ∀ k sz now, Act.worker k (.tick sz now) ∉ labels)
    (hc : c.workers i = .entering seen) :
    c.sched.waitPredicate seen = true ↔ ∃ ev, Act.input (.update (.postEvent ev)) ∈ labels := by
  have hclean : b.sched.dirty = false := by
    rw [Step.sched_eq htick]
    exact a.sched.tick_dirty sz.1 now
  have hticks : ∀ sz now, Op.tick none sz now ∉ labels.filterMap op? := by
    intro sz now hop
    obtain ⟨act, hact, heq⟩ := List.mem_filterMap.mp hop
    obtain ⟨c, -, hc⟩ | ⟨k, sz', now', rfl, -⟩ := op?_cases heq
    · cases c <;> exact absurd hc (by simp [Call.op])
    · exact hlatest k sz' now' hact
  obtain ⟨hstop, hseen⟩ : Knows c.sched (.entering seen) :=
    hc ▸ knows params c (hrun.reachable (ha.step htick)) i
  have hpred : c.sched.waitPredicate seen = c.sched.dirty := by
    simp [Scheduler.waitPredicate, hstop, hseen]
  rw [hpred, run_sched_eq hrun, run_dirty_iff hticks (fun op hop => ops_threaded hop), hclean]
  simp only [Bool.false_eq_true, false_or, postEvent_mem_iff]

/-- A run in which a `wake` completes while the worker writes the frame of its
latest tick, up to the next wait. -/
theorem run_wake_while_writing :
    ∃ a b c, (system {}).Reachable a ∧ Step a (.worker 0 (.tick ⟨{}, Size.default_visible⟩ 0)) b ∧
      (system {}).Run b [.worker 0 .unlock, .worker 0 .write, .input (.call .wake), .input .lock,
        .input (.update .wake), .input .unlock, .input (.notify .wake), .worker 0 .written,
        .worker 0 .lock, .worker 0 .enter] c ∧
      c.sched.stop = false ∧ c.workers 0 = .entering 1 := by
  obtain ⟨a, ha, hinput, hmu, hsched, htop⟩ := reachable_typed {} [KeyEvent.mk .char 0x61]
  obtain ⟨b, hb, hticking, hsched', hinput'⟩ := reachable_ticking ha htop hmu
    (by rw [hsched]; rfl) (by rw [hsched]; rfl) ⟨{}, Size.default_visible⟩
  rw [hsched] at hsched'
  have hframe : (b.sched.tickLocked none {} 0).2.2 ≠ [] := by
    rw [hsched', Scheduler.tickLocked_frame, if_pos (by rfl)]
    exact fun h => (Scheduler.frameOf_eq_nil_iff _ _).mp h Size.default_visible
  have hstop : (b.sched.tickLocked none {} 0).1.stop = false := by
    rw [(b.sched.tickLocked_flags {} 0).1, hsched']
    rfl
  have hzero : (b.sched.tickLocked none {} 0).1.wakeTick = 0 := by
    rw [(b.sched.tickLocked_flags {} 0).2, hsched']
    rfl
  have hlooping := hinput'.trans hinput
  -- after the tick: unlock, write; the whole of `wake`; end of the write, lock, check
  refine ⟨b, _, _, hb, .worker hticking (.tick 0),
    .cons (.worker rfl .unlock) <|
    .cons (.worker rfl (.write hframe)) <|
    .cons (.input (.call .wake rfl hlooping)) <|
    .cons (.input (.lock rfl rfl)) <|
    .cons (.input (.update rfl)) <|
    .cons (.input (.unlock rfl)) <|
    .cons (.input (.notifyNone ?_ rfl)) <|
    .cons (.worker rfl .written) <|
    .cons (.worker rfl (.lock rfl)) <|
    .cons (.worker rfl (.enter hstop)) (.nil _), hstop, ?_⟩
  · intro k seen hk
    by_cases hk0 : k = 0
    · subst hk0
      have hwriting : WorkerPc.writing = .blocked seen := hk
      exact absurd hwriting (by simp)
    · have hblocked : Function.update (Function.update (Function.update b.workers 0
          (.built (b.sched.tickLocked none {} 0).2.2)) 0
          (.unwritten (b.sched.tickLocked none {} 0).2.2)) 0 .writing k = .blocked seen := hk
      rw [Function.update_of_ne hk0, Function.update_of_ne hk0, Function.update_of_ne hk0] at hblocked
      have hlive := (wellFormed {} b hb).live_unique (i := k) (j := 0)
      exact hk0 (hlive (by rw [hblocked]; rfl) (by rw [hticking]; rfl))
  · have hentering : WorkerPc.entering ((b.sched.tickLocked none {} 0).1.wakeTick + 1) =
        .entering 1 := by
      rw [hzero]
      rfl
    exact hentering

/-- **A dropped `wake`.**  It completes while the worker writes the frame of its
latest tick; nobody stops the worker; and the next wait is entered with a false
predicate. -/
theorem wake_is_dropped :
    ∃ a b c, (system {}).Reachable a ∧ Step a (.worker 0 (.tick ⟨{}, Size.default_visible⟩ 0)) b ∧
      (system {}).Run b [.worker 0 .unlock, .worker 0 .write, .input (.call .wake), .input .lock,
        .input (.update .wake), .input .unlock, .input (.notify .wake), .worker 0 .written,
        .worker 0 .lock, .worker 0 .enter] c ∧
      c.sched.stop = false ∧ c.workers 0 = .entering 1 ∧ c.sched.waitPredicate 1 = false := by
  obtain ⟨a, b, c, ha, htick, hrun, hstop, hc⟩ := run_wake_while_writing
  obtain ⟨-, hseen⟩ : Knows c.sched (.entering 1) :=
    hc ▸ knows {} c (hrun.reachable (ha.step htick)) 0
  have hdirty : c.sched.dirty = false := by
    rw [run_sched_eq hrun, Step.sched_eq htick]
    exact a.sched.tick_dirty {} 0
  exact ⟨a, b, c, ha, htick, hrun, hstop, hc, by simp [Scheduler.waitPredicate, hstop, hseen, hdirty]⟩

/-- The same run: no key was posted, so the wait is entered with a false
predicate. -/
theorem wait_entered_iff_wake :
    ∃ c, (system {}).Reachable c ∧ c.workers 0 = .entering 1 ∧
      ¬ c.sched.waitPredicate 1 = true := by
  obtain ⟨a, b, c, ha, htick, hrun, -, hc⟩ := run_wake_while_writing
  refine ⟨c, hrun.reachable (ha.step htick), hc, ?_⟩
  rw [wait_entered_iff {} ha htick hrun (by simp) hc]
  simp

end ConsoleApp
end Csopesy
