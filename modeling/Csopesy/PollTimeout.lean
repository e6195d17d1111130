import Csopesy.ConsoleAppInvariants
import Csopesy.LineEditor
import Csopesy.ValidParameters

/-! # The idle wait of the worker

`run` waits for `pollTimeoutMs()`, meant as the smaller of `pollingMs` and the time
left until the next frame.  Before the deadline it is.  At the deadline and after it
no time is left, and the wait falls back to the whole of `pollingMs`
(`pollTimeoutMsLocked_running`): a frame that became due while the previous one was
being written waits up to `pollingMs` longer (`poll_timeout_iff`).

Both intervals are in range at every reachable state, because startup and every key
keep them there (`sched_valid`).
-/
namespace Csopesy
open Transition

namespace Scheduler

/-! ## Valid parameters throughout the threads -/

theorem exec_valid {start : Parameters} {s : Scheduler}
    (h : Interpreter.ValidSession start s.interp) (op : Op) :
    Interpreter.ValidSession start (s.exec op).1.interp :=
  exec_preserves (I := Interpreter.ValidSession start)
    (fun _ ev h => Interpreter.receive_valid h (.key ev))
    (fun _ _ h => ⟨h.params, h.line⟩) h op

theorem machine_valid (args : List Bytes) (configPath : Bytes) (content : Option Bytes) :
    (machine (Cli.parseCli args configPath content).params).Invariant fun s =>
      Interpreter.ValidSession (Cli.parseCli args configPath content).params s.interp := by
  refine LTS.Invariant.of_step ?_ ?_
  · rintro s rfl
    exact ⟨parseCli_valid args configPath content, .nil⟩
  · rintro s op t - h ⟨-, rfl⟩
    exact exec_valid h op

/-! ## The wait -/

/-- The time left until the next frame is due. -/
def untilDue (s : Scheduler) (now : Int) : Int := s.proc.lastRenderMs + s.params.refreshMs - now

/-- The wait of a running process. -/
theorem pollTimeoutMsLocked_running {s : Scheduler} (hrunning : s.proc.state = .running)
    (hlo : 1 ≤ s.params.pollingMs) (hhi : s.params.pollingMs ≤ 1000) (now : Int) :
    s.pollTimeoutMsLocked now =
      if 0 < s.untilDue now then min (s.untilDue now) s.params.pollingMs
      else s.params.pollingMs := by
  unfold pollTimeoutMsLocked
  dsimp only
  rw [if_pos hrunning,
    show s.params.refreshMs - (now - s.proc.lastRenderMs) = s.untilDue now by
      unfold untilDue
      omega]
  have hcap : (if s.untilDue now > 0 ∧ s.untilDue now < s.params.pollingMs then s.untilDue now
      else s.params.pollingMs) = if 0 < s.untilDue now then min (s.untilDue now) s.params.pollingMs
        else s.params.pollingMs := by
    by_cases hdue : 0 < s.untilDue now
    · rw [if_pos hdue]
      by_cases hless : s.untilDue now < s.params.pollingMs
      · rw [if_pos ⟨hdue, hless⟩, min_eq_left hless.le]
      · rw [if_neg (fun h => hless h.2), min_eq_right (by omega)]
    · rw [if_neg hdue, if_neg (fun h => hdue h.1)]
  -- the clamp to [1, 1000] changes nothing
  rw [hcap, if_neg (by split <;> omega), if_neg (by split <;> omega)]

/-- `pollTimeoutMs()` is positive, at most `pollingMs`, and no longer than the time left,
or 1 when none is left. -/
def NeverDelays (s : Scheduler) (now : Int) : Prop :=
  1 ≤ s.pollTimeoutMsLocked now ∧ s.pollTimeoutMsLocked now ≤ s.params.pollingMs ∧
    s.pollTimeoutMsLocked now ≤ max 1 (s.untilDue now)

theorem neverDelays_iff {s : Scheduler} (hrunning : s.proc.state = .running)
    (hlo : 1 ≤ s.params.pollingMs) (hhi : s.params.pollingMs ≤ 1000) (now : Int) :
    s.NeverDelays now ↔
      now < s.proc.lastRenderMs + s.params.refreshMs ∨ s.params.pollingMs = 1 := by
  unfold NeverDelays
  rw [pollTimeoutMsLocked_running hrunning hlo hhi]
  by_cases hdue : 0 < s.untilDue now
  · rw [if_pos hdue]
    refine iff_of_true ?_ (.inl ?_)
    · omega
    · unfold untilDue at hdue
      omega
  · -- nothing bounds the wait but `pollingMs`
    rw [if_neg hdue]
    unfold untilDue at hdue ⊢
    omega

end Scheduler

namespace ConsoleApp

theorem sched_valid (args : List Bytes) (configPath : Bytes) (content : Option Bytes) :
    (system (Cli.parseCli args configPath content).params).Invariant fun a =>
      Interpreter.ValidSession (Cli.parseCli args configPath content).params a.sched.interp :=
  (refines_machine _).invariant (Scheduler.machine_valid args configPath content)

/-- **When `pollingMs` delays no frame.**  At every reachable state of the threads in
which the process runs, the wait is within its bounds exactly at the clock readings
before the deadline, or at all of them when `pollingMs` is 1. -/
theorem poll_timeout_iff (args : List Bytes) (configPath : Bytes) (content : Option Bytes)
    {a : ConsoleApp} (ha : (system (Cli.parseCli args configPath content).params).Reachable a)
    (hrunning : a.sched.proc.state = .running) (now : Int) :
    a.sched.NeverDelays now ↔
      now < a.sched.proc.lastRenderMs + a.sched.params.refreshMs ∨
        a.sched.params.pollingMs = 1 := by
  obtain ⟨hlo, hhi⟩ := (sched_valid args configPath content a ha).params.polling
  exact Scheduler.neverDelays_iff hrunning hlo hhi now

/-- After its tick a worker writes the frame and gets to its next wait. -/
theorem reachable_entering {params : Parameters} {a : ConsoleApp}
    (ha : (system params).Reachable a) {i : Nat} {sz : VisibleSize}
    (hticking : a.workers i = .ticking sz) (hdirty : a.sched.dirty = true)
    (hstop : a.sched.stop = false) (now : Int) :
    ∃ b, (system params).Reachable b ∧ (∃ seen, b.workers i = .entering seen) ∧
      b.sched = (a.sched.tickLocked none sz.1 now).1 := by
  obtain ⟨b, hrun, hwriting, hfree, -, hticked, -⟩ := written_run hticking hdirty now
  have hgo : b.sched.stop = false := by
    rw [hticked, (a.sched.tickLocked_flags sz.1 now).1]
    exact hstop
  have h1 := (hrun.reachable ha).step (.worker hwriting .written)
  have h2 := h1.step (.worker (Function.update_self ..) (.lock hfree))
  have h3 := h2.step (.worker (Function.update_self ..) (.enter hgo))
  exact ⟨_, h3, ⟨_, Function.update_self ..⟩, hticked⟩

/-- The worker has drawn the first frame of the marquee at 0 ms and is about to wait. -/
theorem reachable_waiting : ∃ a, (system {}).Reachable a ∧ (∃ seen, a.workers 0 = .entering seen) ∧
    a.sched.proc = { state := .running, cycles := 1, lastRenderMs := 0, hasRendered := true } ∧
    a.sched.params = {} := by
  obtain ⟨a, ha, -, hmu, hsched, htop⟩ := reachable_typed {}
    (Interpreter.typedLines [ascii "start_marquee"])
  obtain ⟨b, hb, hticking, hsched', -⟩ := reachable_ticking ha htop hmu
    (by rw [hsched]; decide) (by rw [hsched]; decide) ⟨{}, Size.default_visible⟩
  rw [hsched] at hsched'
  obtain ⟨c, hc, hentering, hafter⟩ := reachable_entering hb hticking (by rw [hsched']; decide)
    (by rw [hsched']; decide) 0
  rw [hsched'] at hafter
  refine ⟨c, hc, hentering, ?_, ?_⟩
  · rw [hafter]
    decide
  · rw [hafter]
    decide

/-- **A frame waits out `pollingMs`.**  The deadline, 100 ms, has passed when the worker
computes its wait at 150 ms; it waits 10 ms more. -/
theorem due_frame_is_delayed :
    ∃ a, (system {}).Reachable a ∧ (∃ seen, a.workers 0 = .entering seen) ∧
      a.sched.proc.state = .running ∧ a.sched.proc.hasRendered = true ∧
      a.sched.proc.lastRenderMs ≤ 150 ∧ a.sched.pollTimeoutMsLocked 150 = 10 ∧
      ¬ a.sched.NeverDelays 150 := by
  obtain ⟨a, ha, hentering, hproc, hparams⟩ := reachable_waiting
  have hwait : a.sched.pollTimeoutMsLocked 150 = 10 := by
    unfold Scheduler.pollTimeoutMsLocked
    rw [hproc, hparams]
    decide
  refine ⟨a, ha, hentering, by rw [hproc], by rw [hproc], by rw [hproc]; decide, hwait, ?_⟩
  rintro ⟨-, -, hdeadline⟩
  unfold Scheduler.untilDue at hdeadline
  rw [hwait, hproc, hparams] at hdeadline
  exact absurd hdeadline (by decide)

/-- Before the deadline the wait is within its bounds. -/
theorem poll_timeout_iff_early : ∃ a, (system {}).Reachable a ∧ a.sched.NeverDelays 50 := by
  obtain ⟨a, ha, -, hproc, hparams⟩ := reachable_waiting
  have hstart : (system (Cli.parseCli [] [] none).params).Reachable a := ha
  refine ⟨a, ha, (poll_timeout_iff [] [] none hstart (by rw [hproc]) 50).mpr (.inl ?_)⟩
  rw [hproc, hparams]
  decide

end ConsoleApp
end Csopesy
